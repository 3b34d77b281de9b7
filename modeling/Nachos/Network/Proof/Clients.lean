import Nachos.Filesys.Proof.TableMap

/-!
# The clients of a server (`network/serversocket.cc`)

A server keeps the descriptors of the clients it has accepted, in a table that is not its own. In every
run without a `Close` of such a descriptor, an entry is an open socket that this server has accepted and
no other entry is the same (`ClientTable`), so that closing the server closes nothing else; and a
`Close` of such a descriptor is the only call that breaks it (`clientTable_of_runs`).

Who has accepted a socket is not in the state of the program: it is followed beside it (`Acceptors`).
-/

namespace Nachos

open Base Streams
open Function (update update_of_ne update_self)

/-- The server, by its descriptor, that has accepted the socket behind a descriptor. -/
abbrev Acceptors := Nat → Option Nat

/-- The acceptors after a call from `s` to `s'`: what a `listen` has opened was accepted there, and a
server that is gone has accepted nothing. -/
def Acceptors.after (a : Acceptors) (s : Files) (call : FilesCall) (s' : Files) : Acceptors := fun fd =>
  if (s'.fdt fd).isNone then none
  else if (s.fdt fd).isNone then
    match call with
    | .serverListen ssID => some ssID.toNat
    | _ => none
  else (a fd).filter fun k => (s'.fdt k).isSome

def acceptStep (p : Files × Acceptors) (call : FilesCall) : Option (Files × Acceptors) :=
  (p.1.step call).map fun s' => (s', p.2.after p.1 call s')

/-- Every entry of the server behind `k` is an open socket that this server has accepted, and no two are
the same. -/
structure ClientsOk (s : Files) (a : Acceptors) (k : Nat) (ss : ServerSocket) : Prop where
  accepted : ∀ id ∈ ss.clientOpenfileID, id ≠ -1 →
    ∃ socket, s.getStream id = some (.socket socket) ∧ socket.socketFd ≠ none ∧ a id.toNat = some k
  distinct : ∀ (i j : Nat) (id : Int), ss.clientOpenfileID[i]? = some id →
    ss.clientOpenfileID[j]? = some id → id ≠ -1 → i = j

def ClientTable (s : Files) (a : Acceptors) : Prop :=
  ∀ k ss, s.fdt k = some (.serverSocket ss) → ClientsOk s a k ss

/-- Closing a server closes it and the clients it has accepted, and nothing else; it returns when the
host does. -/
structure ClosesOwn (s : Files) (a : Acceptors) (k : Nat) (ss : ServerSocket) : Prop where
  only : ∀ r s', (sysClose k).run s = .ok r s' → r = 0 ∧ s'.fdt k = none ∧
    (∀ fd, fd ≠ k → a fd ≠ some k → s'.fdt fd = s.fdt fd) ∧
    (ss.ssFd ≠ -1 → ∀ id ∈ ss.clientOpenfileID, s'.getStream id = none)
  returns : ss.clientOpenfileID.length < s.answers.length → ∃ s', (sysClose k).run s = .ok 0 s'

/-- The calls that know of the clients of the servers: no `Close` on one. -/
def LeavesClients (s : Files) : FilesCall → Prop
  | .close id => ∀ k ss, s.fdt k = some (.serverSocket ss) → id ∈ ss.clientOpenfileID → id = -1
  | _ => True

/-! ## Closing a server -/

section Close

variable {s s' : Files} {id : Int} {depth : Nat}

theorem getStream_of_free (h : s.fdt id.toNat = none) : s.getStream id = none := by
  unfold Files.getStream
  split
  · rfl
  · exact h

theorem closeDescriptor_steps {r : Int} {stream : Stream}
    (hs : s.getStream id = some stream) (h : (closeDescriptor (depth + 1) id).run s = .ok r s') :
    ∃ s1, (deleteStream (closeDescriptor depth) stream).run s = .ok () s1 ∧ r = 0 ∧
      s' = s1.setStream id.toNat none := by
  rw [closeDescriptor, run_get_bind, hs] at h
  obtain ⟨_, s1, h1, h2⟩ := run_bind_ok h
  cases h2
  exact ⟨s1, h1, rfl, rfl⟩

def SocketOrFree (fdt : StreamTable) (id : Int) : Prop :=
  fdt id.toNat = none ∨ ∃ socket, fdt id.toNat = some (.socket socket) ∧ socket.socketFd ≠ none

theorem SocketOrFree.update {fdt : StreamTable} (h : SocketOrFree fdt id) (fd : Nat) :
    SocketOrFree (update fdt fd none) id := by
  by_cases heq : id.toNat = fd
  · exact .inl (by rw [heq, update_self])
  · rw [SocketOrFree, update_of_ne heq]
    exact h

def closeClient (depth : Nat) (id : Int) : FilesM PUnit :=
  if id = -1 then return else discard (closeDescriptor depth id)

theorem closeClient_spec {u : PUnit}
    (hid : id ≠ -1 → (2 ≤ id ∧ id < maxFileDescriptor) ∧ SocketOrFree s.fdt id)
    (h : (closeClient (depth + 1) id).run s = .ok u s') :
    s'.fdt = s.fdt ∨ id ≠ -1 ∧ s'.fdt = update s.fdt id.toNat none := by
  unfold closeClient at h
  split at h
  · cases h
    exact .inl rfl
  case isFalse hne =>
    obtain ⟨hrange, hsocket⟩ := hid hne
    rw [run_discard] at h
    cases hr : (closeDescriptor (depth + 1) id).run s with
    | error e s1 =>
      rw [hr] at h
      cases h
    | ok r s1 =>
      rw [hr] at h
      cases h
      rcases hsocket with hnone | ⟨socket, hs, -⟩
      · rw [closeDescriptor, run_get_bind, getStream_of_free hnone] at hr
        cases hr
        exact .inl rfl
      · exact .inr ⟨hne, (closeSocket_spec hrange hs depth).returns rfl hr⟩

theorem closeClients_spec {l : List Int} {u : PUnit}
    (hl : ∀ id ∈ l, id ≠ -1 → (2 ≤ id ∧ id < maxFileDescriptor) ∧ SocketOrFree s.fdt id)
    (h : (l.forM (closeClient (depth + 1))).run s = .ok u s') (fd : Nat) :
    s'.fdt fd = s.fdt fd ∨ s'.fdt fd = none ∧ (fd : Int) ∈ l := by
  induction l generalizing s with
  | nil =>
    cases h
    exact .inl rfl
  | cons id l ih =>
    obtain ⟨_, s1, h1, h2⟩ := run_bind_ok h
    rcases closeClient_spec (hl id (.head _)) h1 with hfdt | ⟨hne, hfdt⟩
    · have := ih (fun id' hid' => hfdt ▸ hl id' (.tail _ hid')) h2
      rw [hfdt] at this
      exact this.imp_right fun h => ⟨h.1, .tail _ h.2⟩
    · have hl' : ∀ id' ∈ l, id' ≠ -1 →
          (2 ≤ id' ∧ id' < maxFileDescriptor) ∧ SocketOrFree s1.fdt id' := by
        intro id' hid' hne'
        obtain ⟨hrange, hsocket⟩ := hl id' (.tail _ hid') hne'
        exact ⟨hrange, hfdt ▸ hsocket.update _⟩
      have hrange := (hl id (.head _) hne).1
      rcases ih hl' h2 with hsame | ⟨hnone, hmem⟩
      · rw [hfdt] at hsame
        by_cases heq : fd = id.toNat
        · rw [heq, update_self] at hsame
          have hcast : (fd : Int) = id := by omega
          exact .inr ⟨heq ▸ hsame, hcast ▸ List.mem_cons_self⟩
        · rw [update_of_ne heq] at hsame
          exact .inl hsame
      · exact .inr ⟨hnone, .tail _ hmem⟩

theorem closeClient_run (depth : Nat)
    (hid : id ≠ -1 → (2 ≤ id ∧ id < maxFileDescriptor) ∧ SocketOrFree s.fdt id)
    (ha : s.answers ≠ []) : ∃ s', (closeClient (depth + 1) id).run s = .ok ⟨⟩ s' ∧
      s.answers.length ≤ s'.answers.length + 1 := by
  unfold closeClient
  split
  · exact ⟨s, rfl, Nat.le_succ _⟩
  case isFalse hne =>
    obtain ⟨hrange, hsocket⟩ := hid hne
    rw [run_discard, closeDescriptor, run_get_bind]
    rcases hsocket with hnone | ⟨socket, hs, hfd⟩
    · rw [getStream_of_free hnone]
      exact ⟨s, rfl, Nat.le_succ _⟩
    · obtain ⟨fd, hfd⟩ := Option.ne_none_iff_exists'.1 hfd
      obtain ⟨answer0, answers, ha⟩ := List.exists_cons_of_ne_nil ha
      have hdelete : ∃ s1, (deleteStream (closeDescriptor depth) (.socket socket)).run s = .ok () s1 ∧
          s.answers.length ≤ s1.answers.length + 1 := by
        change ∃ s1, socket.delete.run s = _ ∧ _
        rw [Socket.delete, Socket.fd, hfd, EStateM.run_bind]
        change ∃ s1, (if fd = -1 then pure () else discard answer : FilesM Unit).run s = _ ∧ _
        split
        · exact ⟨s, rfl, Nat.le_succ _⟩
        · rw [run_discard, answer, run_get_bind, ha]
          exact ⟨_, rfl, Nat.le_refl _⟩
      obtain ⟨s1, h1, hlen⟩ := hdelete
      rw [Files.getStream_eq_some.2 ⟨hrange, hs⟩]
      dsimp only
      rw [run_step h1]
      exact ⟨_, rfl, hlen⟩

theorem closeClients_run (depth : Nat) {l : List Int}
    (hl : ∀ id ∈ l, id ≠ -1 → (2 ≤ id ∧ id < maxFileDescriptor) ∧ SocketOrFree s.fdt id)
    (ha : l.length < s.answers.length) :
    ∃ s', (l.forM (closeClient (depth + 1))).run s = .ok ⟨⟩ s' ∧ s'.answers ≠ [] := by
  induction l generalizing s with
  | nil => exact ⟨s, rfl, List.ne_nil_of_length_pos (by simpa using ha)⟩
  | cons id l ih =>
    rw [List.length_cons] at ha
    obtain ⟨s1, h1, hlen⟩ := closeClient_run depth (hl id (.head _))
      (List.ne_nil_of_length_pos (by omega))
    have hl' : ∀ id' ∈ l, id' ≠ -1 →
        (2 ≤ id' ∧ id' < maxFileDescriptor) ∧ SocketOrFree s1.fdt id' := by
      intro id' hid' hne'
      obtain ⟨hrange, hsocket⟩ := hl id' (.tail _ hid') hne'
      rcases closeClient_spec (hl id (.head _)) h1 with hfdt | ⟨-, hfdt⟩
      · exact ⟨hrange, hfdt ▸ hsocket⟩
      · exact ⟨hrange, hfdt ▸ hsocket.update _⟩
    obtain ⟨s', h', hans⟩ := ih hl' (by omega)
    refine ⟨s', ?_, hans⟩
    rw [List.forM, run_step h1]
    exact h'

end Close

namespace ClientTable

variable {s s' : Files} {a : Acceptors} {k : Nat} {ss : ServerSocket}

theorem socketOrFree (h : ClientTable s a) (hk : s.fdt k = some (.serverSocket ss)) :
    ∀ id ∈ ss.clientOpenfileID, id ≠ -1 → (2 ≤ id ∧ id < maxFileDescriptor) ∧ SocketOrFree s.fdt id := by
  intro id hid hne
  obtain ⟨socket, hs, hfd, -⟩ := (h k ss hk).accepted id hid hne
  obtain ⟨hrange, hs⟩ := Files.getStream_eq_some.1 hs
  exact ⟨hrange, .inr ⟨socket, hs, hfd⟩⟩

theorem close_spec (h : ClientTable s a) {id r : Int} {stream : Stream}
    (hs : s.getStream id = some stream) (hr : (sysClose id).run s = .ok r s') :
    r = 0 ∧ s'.fdt id.toNat = none ∧ ∀ fd, fd ≠ id.toNat → s'.fdt fd = s.fdt fd ∨ s'.fdt fd = none ∧
      ∃ ss, stream = .serverSocket ss ∧ (fd : Int) ∈ ss.clientOpenfileID := by
  obtain ⟨s1, h1, rfl, rfl⟩ := closeDescriptor_steps hs hr
  rw [Files.fdt_setStream]
  refine ⟨rfl, update_self .., fun fd hfd => ?_⟩
  rw [update_of_ne hfd]
  cases stream with
  | file f =>
    cases h1
    exact .inl rfl
  | socket socket =>
    have hfdt := ((Socket.delete_leaves socket s.fdt).returns rfl h1).1
    exact .inl (congrFun hfdt fd)
  | serverSocket ss =>
    rw [deleteStream] at h1
    split at h1
    · cases h1
      exact .inl rfl
    · obtain ⟨_, s2, h2, h3⟩ := run_bind_ok h1
      have hfdt := ((answer_leaves.discard s2.fdt).returns rfl h3).1
      have hk := (Files.getStream_eq_some.1 hs).2
      rw [hfdt]
      exact (closeClients_spec (h.socketOrFree hk) h2 fd).imp_right fun hc => ⟨hc.1, ss, rfl, hc.2⟩

theorem deleteServer_run (h : ClientTable s a)
    (hk : s.fdt k = some (.serverSocket ss)) (ha : ss.clientOpenfileID.length < s.answers.length)
    (depth : Nat) :
    ∃ s1, (deleteStream (closeDescriptor (depth + 1)) (.serverSocket ss)).run s = .ok () s1 := by
  rw [deleteStream]
  split
  · exact ⟨s, rfl⟩
  · obtain ⟨s1, h1, hans⟩ := closeClients_run depth (h.socketOrFree hk) ha
    obtain ⟨answer0, answers, hans⟩ := List.exists_cons_of_ne_nil hans
    change ∃ s2, (ss.clientOpenfileID.forM (closeClient (depth + 1)) >>= fun _ =>
      (discard answer : FilesM PUnit)).run s = .ok () s2
    rw [run_step h1, run_discard, answer, run_get_bind, hans]
    exact ⟨_, rfl⟩

theorem closesOwn (h : ClientTable s a) (hw : s.WellFormed)
    (hk : s.fdt k = some (.serverSocket ss)) : ClosesOwn s a k ss := by
  have hrange := mem_descriptors.1 (hw k _ hk).1
  have hget : s.getStream k = some (.serverSocket ss) :=
    Files.getStream_eq_some.2 ⟨by omega, hk⟩
  refine ⟨fun r s' hr => ?_, fun ha => ?_⟩
  · obtain ⟨hr0, hclosed, hother⟩ := h.close_spec hget hr
    refine ⟨hr0, hclosed, fun fd hfd hacc => ?_, fun hss id hid => ?_⟩
    · refine (hother fd hfd).resolve_right fun ⟨_, ss', hss', hmem⟩ => ?_
      cases hss'
      obtain ⟨-, -, -, hacc'⟩ := (h k ss hk).accepted fd hmem (by omega)
      exact hacc hacc'
    · obtain ⟨s1, h1, -, rfl⟩ := closeDescriptor_steps hget hr
      exact getStream_setStream_none (deleteServer_returned hss h1 id hid) _
  · obtain ⟨s1, h1⟩ := h.deleteServer_run hk ha (maxFileDescriptor - 1)
    rw [sysClose, closeDescriptor, run_get_bind, hget]
    dsimp only
    rw [show maxFileDescriptor = maxFileDescriptor - 1 + 1 from rfl, run_step h1]
    exact ⟨_, rfl⟩

end ClientTable

/-! ## The calls -/

section Calls

variable {s s' : Files} {a : Acceptors} {call : FilesCall}

theorem Acceptors.after_of_open {fd k : Nat} (ha : a fd = some k) (hfd : s.fdt fd ≠ none)
    (hfd' : s'.fdt fd ≠ none) (hk : s'.fdt k ≠ none) : a.after s call s' fd = some k := by
  have hnot : ∀ {o : Option Stream}, o ≠ none → ¬ o.isNone = true :=
    fun ho hn => ho (Option.isNone_iff_eq_none.1 hn)
  unfold Acceptors.after
  rw [if_neg (hnot hfd'), if_neg (hnot hfd), ha, Option.filter_some, if_pos]
  exact Option.isSome_iff_ne_none.2 hk

theorem ClientsOk.kept {k : Nat} {ss : ServerSocket} (h : ClientsOk s a k ss)
    (hk : s'.fdt k = some (.serverSocket ss))
    (hclient : ∀ id socket, id ∈ ss.clientOpenfileID → s.getStream id = some (.socket socket) →
      socket.socketFd ≠ none → a id.toNat = some k →
        ∃ socket', s'.fdt id.toNat = some (.socket socket') ∧ socket'.socketFd ≠ none) :
    ClientsOk s' (a.after s call s') k ss := by
  refine ⟨fun id hid hne => ?_, h.distinct⟩
  obtain ⟨socket, hs, hfd, hacc⟩ := h.accepted id hid hne
  obtain ⟨socket', hs', hfd'⟩ := hclient id socket hid hs hfd hacc
  obtain ⟨hrange, hs⟩ := Files.getStream_eq_some.1 hs
  refine ⟨socket', Files.getStream_eq_some.2 ⟨hrange, hs'⟩, hfd', Acceptors.after_of_open hacc ?_ ?_ ?_⟩
  · rw [hs]
    exact Option.some_ne_none _
  · rw [hs']
    exact Option.some_ne_none _
  · rw [hk]
    exact Option.some_ne_none _

namespace ClientTable

theorem like (h : ClientTable s a) (hs : Like s.fdt s'.fdt) : ClientTable s' (a.after s call s') := by
  intro k ss hk
  have hk0 : s.fdt k = some (.serverSocket ss) := by
    have hrel := hs k
    rw [hk] at hrel
    generalize s.fdt k = o at hrel ⊢
    cases hrel with
    | @some stream _ hbecomes =>
      cases stream with
      | file f | socket f => cases hbecomes
      | serverSocket ss0 =>
        cases hbecomes
        rfl
  refine (h k ss hk0).kept hk fun id socket _ hget hfd _ => ?_
  have hrel := hs id.toNat
  rw [(Files.getStream_eq_some.1 hget).2] at hrel
  generalize s'.fdt id.toNat = o at hrel ⊢
  cases hrel with
  | @some _ stream hbecomes =>
    cases stream with
    | file f | serverSocket f => cases hbecomes
    | socket socket' => exact ⟨socket', rfl, hbecomes hfd⟩

theorem opened (h : ClientTable s a) {stream : Stream} (hnew : stream.New)
    (hs : Opened stream s.fdt s'.fdt) : ClientTable s' (a.after s call s') := by
  obtain ⟨fd, -, hfree, hs'⟩ := hs
  intro k ss hk
  by_cases heq : k = fd
  · rw [hs', heq, update_self] at hk
    cases hk
    -- a new server has no clients
    have hnil : ss.clientOpenfileID = [] := hnew
    refine ⟨fun id hid => ?_, fun i j id hi => ?_⟩
    · rw [hnil] at hid
      cases hid
    · rw [hnil] at hi
      cases hi
  · have hk0 := hk
    rw [hs', update_of_ne heq] at hk0
    refine (h k ss hk0).kept hk fun id socket _ hget hfd _ => ⟨socket, ?_, hfd⟩
    have hid := (Files.getStream_eq_some.1 hget).2
    have hne : id.toNat ≠ fd := by
      rintro rfl
      rw [hfree] at hid
      cases hid
    rw [hs', update_of_ne hne, hid]

theorem closed (h : ClientTable s a) {id r : Int} (hlegal : LeavesClients s (.close id))
    (hr : (sysClose id).run s = .ok r s') : ClientTable s' (a.after s call s') := by
  cases hs : s.getStream id with
  | none =>
    rw [sysClose, closeDescriptor, run_get_bind, hs] at hr
    cases hr
    exact h.like (Like.refl _)
  | some stream =>
    obtain ⟨-, hclosed, hother⟩ := h.close_spec hs hr
    have hrange := (Files.getStream_eq_some.1 hs).1
    intro k ss hk
    have hkid : k ≠ id.toNat := by
      rintro rfl
      rw [hclosed] at hk
      cases hk
    have hk0 : s.fdt k = some (.serverSocket ss) := by
      rcases hother k hkid with hsame | ⟨hnone, -⟩
      · rw [← hsame, hk]
      · rw [hnone] at hk
        cases hk
    refine (h k ss hk0).kept hk fun id' socket hid' hget hfd hacc => ⟨socket, ?_, hfd⟩
    obtain ⟨hrange', hsocket⟩ := Files.getStream_eq_some.1 hget
    have hne : id'.toNat ≠ id.toNat := by
      intro heq
      have hid : id' = id := by omega
      have := hlegal k ss hk0 (hid ▸ hid')
      omega
    rcases hother id'.toNat hne with hsame | ⟨-, ss', rfl, hmem⟩
    · rw [hsame, hsocket]
    · -- a client of the server that was closed has another acceptor
      have hk' := (Files.getStream_eq_some.1 hs).2
      obtain ⟨-, -, -, hacc'⟩ := (h _ ss' hk').accepted _ hmem (by omega)
      rw [Int.toNat_natCast, hacc] at hacc'
      exact absurd (Option.some.inj hacc') hkid

theorem listened (h : ClientTable s a) {ssID : Int} {ss ss' : ServerSocket} {fdt : StreamTable}
    (hs : s.getStream ssID = some (.serverSocket ss)) (hserving : Serving s.fdt ss'.clientOpenfileID fdt)
    (hs' : s'.fdt = update fdt ssID.toNat (some (.serverSocket ss'))) :
    ClientTable s' (a.after s (.serverListen ssID) s') := by
  have hserver := (Files.getStream_eq_some.1 hs).2
  intro k ss0 hk
  by_cases heq : k = ssID.toNat
  · rw [hs', heq, update_self] at hk
    cases hk
    refine ⟨fun id hid hne => ?_, hserving.distinct⟩
    obtain ⟨hrange, hfree, socket, hsocket, hfd⟩ := hserving.client id hid hne
    have hid : id.toNat ≠ ssID.toNat := by
      intro h'
      rw [h', hserver] at hfree
      cases hfree
    have hsocket' : s'.fdt id.toNat = some (.socket socket) := by
      rw [hs', update_of_ne hid, hsocket]
    refine ⟨socket, Files.getStream_eq_some.2 ⟨hrange, hsocket'⟩, hfd, ?_⟩
    unfold Acceptors.after
    rw [hsocket', hfree, heq]
    rfl
  · have hk1 := hk
    rw [hs', update_of_ne heq] at hk1
    have hk0 : s.fdt k = some (.serverSocket ss0) := by
      cases hst : s.fdt k with
      | none =>
        obtain ⟨-, socket, hsocket⟩ := hserving.fresh k _ hst hk1
        cases hsocket
      | some stream => rw [← hk1, hserving.kept k stream hst]
    refine (h k ss0 hk0).kept hk fun id socket _ hget hfd _ => ⟨socket, ?_, hfd⟩
    have hid := (Files.getStream_eq_some.1 hget).2
    have hne : id.toNat ≠ ssID.toNat := by
      intro h'
      rw [h', hserver] at hid
      cases hid
    rw [hs', update_of_ne hne, hserving.kept _ _ hid]

theorem step (h : ClientTable s a) (hlegal : LeavesClients s call) (hstep : s.step call = some s') :
    ClientTable s' (a.after s call s') := by
  cases Files.step_change hstep with
  | like hlike => exact h.like hlike
  | opened hnew hopened => exact h.opened hnew hopened
  | closed hr => exact h.closed hlegal hr
  | listened hs hserving hs' => exact h.listened hs hserving hs'

theorem leavesClients (h : ClientTable s a) (hstep : s.step call = some s')
    (h' : ClientTable s' (a.after s call s')) : LeavesClients s call := by
  cases call with
  | close id =>
    intro k ss hk hid
    by_contra hne
    obtain ⟨socket, hget, -, -⟩ := (h k ss hk).accepted id hid hne
    obtain ⟨r, hr⟩ := Files.step_eq_some.1 hstep
    obtain ⟨-, hclosed, hother⟩ := h.close_spec hget hr
    have hkid : k ≠ id.toNat := by
      rintro rfl
      cases hk.symm.trans (Files.getStream_eq_some.1 hget).2
    have hk' : s'.fdt k = some (.serverSocket ss) := by
      rcases hother k hkid with hsame | ⟨-, ss', hss', -⟩
      · rw [hsame, hk]
      · cases hss'
    obtain ⟨socket', hget', -, -⟩ := (h' k ss hk').accepted id hid hne
    rw [(getStream_of_free hclosed)] at hget'
    cases hget'
  | create | openFile | read | write | seek | remove | socketTCP | connect | send | receive
  | serverCreate | serverListen => trivial

end ClientTable

end Calls

/-- **The clients of the servers.** In every run in which no client of a server is closed behind its
back, the entries of the servers are open sockets of their own and closing a server closes nothing else;
and a next call keeps this exactly when it is not such a `Close`. -/
theorem clientTable_of_runs {host : Host} {answers : List Answer} {junk : List (List Byte)}
    {typed : List Byte} {s : Files} {a : Acceptors}
    (h : Runs acceptStep (fun p call => LeavesClients p.1 call)
      (Files.initial host answers junk typed, fun _ => none) (s, a)) :
    ClientTable s a ∧ (∀ k ss, s.fdt k = some (.serverSocket ss) → ClosesOwn s a k ss) ∧
      ∀ call s', s.step call = some s' →
        (ClientTable s' (a.after s call s') ↔ LeavesClients s call) := by
  have hinv : s.WellFormed ∧ ClientTable s a := by
    refine Runs.invariant (I := fun p => p.1.WellFormed ∧ ClientTable p.1 p.2) h ?_ ?_
    · constructor
      · intro fd stream hs
        cases hs
      · intro k ss hk
        cases hk
    · rintro ⟨s1, a1⟩ call ⟨s2, a2⟩ ⟨hw, ht⟩ hlegal hstep
      obtain ⟨s3, hs3, hp⟩ := Option.map_eq_some_iff.1 hstep
      cases hp
      exact ⟨hw.change (Files.step_change hs3), ht.step hlegal hs3⟩
  obtain ⟨hw, ht⟩ := hinv
  exact ⟨ht, fun k ss hk => ht.closesOwn hw hk, fun call s' hstep =>
    ⟨ht.leavesClients hstep, fun hlegal => ht.step hlegal hstep⟩⟩

/-! ## A server with a client -/

/-- What the host answers: the server gets its socket 3, accepts a client behind 7, and then an error. -/
def acceptedOnce : List Answer :=
  let ready : Int → Bool := fun sd => sd = 3
  [⟨3, [], ready⟩, ⟨0, [], ready⟩, ⟨0, [], ready⟩, ⟨0, [], ready⟩, ⟨1, [], ready⟩, ⟨7, [], ready⟩,
    ⟨1, [], ready⟩, ⟨-1, [], ready⟩, ⟨0, [], ready⟩, ⟨0, [], ready⟩]

def servedStart : Files × Acceptors := (.initial oneFileHost acceptedOnce [] [], fun _ => none)

def hasClient (p : Files × Acceptors) : Bool :=
  match p.1.fdt 2 with
  | some (.serverSocket ss) => ss.clientOpenfileID.contains 3
  | _ => false

theorem hasClient_spec {p : Files × Acceptors} (h : hasClient p = true) :
    ∃ ss, p.1.fdt 2 = some (.serverSocket ss) ∧ 3 ∈ ss.clientOpenfileID := by
  unfold hasClient at h
  split at h
  case h_1 ss hs => exact ⟨ss, hs, List.contains_iff_mem.1 h⟩
  · cases h

/-- The server behind 2 has accepted the client behind 3. -/
theorem client_accepted : ∃ s a, (∃ ss, s.fdt 2 = some (.serverSocket ss) ∧ 3 ∈ ss.clientOpenfileID) ∧
    ClientTable s a ∧ ∃ socket, s.getStream 3 = some (.socket socket) ∧ a 3 = some 2 := by
  have hrun : (runChecked acceptStep (fun _ call => match call with | .close _ => false | _ => true)
      servedStart [.serverCreate 80, .serverListen 2]).any hasClient = true := by decide +kernel
  obtain ⟨⟨s, a⟩, hsome, hclient⟩ := (Option.any_eq_true _ _).1 hrun
  have hruns := runs_of_runChecked (C := fun (p : Files × Acceptors) call => LeavesClients p.1 call)
    (fun p call hc => by cases call <;> trivial) hsome
  obtain ⟨ss, hs, hmem⟩ := hasClient_spec hclient
  have htable := (clientTable_of_runs hruns).1
  obtain ⟨socket, hget, -, hacc⟩ := (htable 2 ss hs).accepted 3 hmem (by decide)
  exact ⟨s, a, ⟨ss, hs, hmem⟩, htable, socket, hget, hacc⟩

def fileLost (p : Files × Acceptors) : Bool :=
  match p.1.fdt 3, (sysClose 2).run p.1 with
  | some (.file _), .ok _ s' => (s'.fdt 3).isNone
  | _, _ => false

/-- The server's client is closed and its descriptor goes to a file. The server still has the number in
its table, and closing the server closes the file. -/
theorem file_closed_with_server : ∃ s a, Runs acceptStep (fun _ _ => True) servedStart (s, a) ∧
    ¬ ClientTable s a ∧ ∃ file, s.fdt 3 = some (.file file) ∧
      ∃ r s', (sysClose 2).run s = .ok r s' ∧ s'.fdt 3 = none := by
  have hrun : (runChecked acceptStep (fun _ _ => true) servedStart
      [.serverCreate 80, .serverListen 2, .close 3, .openFile [97] 0]).any
        (fun p => hasClient p && fileLost p) = true := by decide +kernel
  obtain ⟨⟨s, a⟩, hsome, htest⟩ := (Option.any_eq_true _ _).1 hrun
  obtain ⟨hclient, hlost⟩ := Bool.and_eq_true_iff.1 htest
  obtain ⟨ss, hs, hmem⟩ := hasClient_spec hclient
  unfold fileLost at hlost
  split at hlost
  case h_1 file r s' hfile hclose =>
    refine ⟨s, a, runs_of_runChecked (fun _ _ _ => trivial) hsome, fun htable => ?_, file, hfile, r, s',
      hclose, Option.isNone_iff_eq_none.1 hlost⟩
    obtain ⟨socket, hget, -, -⟩ := (htable 2 ss hs).accepted 3 hmem (by decide)
    cases hfile.symm.trans (Files.getStream_eq_some.1 hget).2
  · cases hlost

end Nachos
