import Mathlib.Data.Option.Basic
import Nachos.Userprog.Ksyscall

/-!
# What a call does to the descriptor table

Most code leaves the table as it is (`Returns`). A call that returned has changed objects by their own
methods (`Like`), put a new object behind a free descriptor, closed descriptors, or served the clients
of a server (`Serving`): `Files.step_change`. So descriptors outside the table are never used, and the
positions of a file are not negative, in every reachable table (`Files.Reachable.wellFormed`).
-/

namespace Nachos

open Base Streams
open Function (update update_of_ne update_self)

abbrev StreamTable := Nat → Option Stream

def Streams.Stream.Ok : Stream → Prop
  | .file f => 0 ≤ f.readPos ∧ 0 ≤ f.writePos
  | .socket _ | .serverSocket _ => True

def Files.WellFormed (s : Files) : Prop :=
  ∀ fd stream, s.fdt fd = some stream → fd ∈ descriptors ∧ stream.Ok

theorem mem_descriptors {fd : Nat} : fd ∈ descriptors ↔ 2 ≤ fd ∧ fd < maxFileDescriptor := by
  rw [descriptors, List.mem_range'_1]
  exact Iff.rfl

namespace Files

variable {s : Files} {fd : Int} {stream : Stream}

theorem getStream_eq_some : s.getStream fd = some stream ↔
    (2 ≤ fd ∧ fd < maxFileDescriptor) ∧ s.fdt fd.toNat = some stream := by
  unfold getStream
  split
  · exact iff_of_false (by simp) (by omega)
  · exact ⟨fun h => ⟨by omega, h⟩, fun h => h.2⟩

theorem toNat_mem_descriptors (h : s.getStream fd = some stream) : fd.toNat ∈ descriptors := by
  have := (getStream_eq_some.1 h).1
  exact mem_descriptors.2 (by omega)

theorem WellFormed.ok (h : s.WellFormed) (hs : s.getStream fd = some stream) : stream.Ok :=
  (h _ _ (getStream_eq_some.1 hs).2).2

end Files

/-! ## Code that leaves the table as it is -/

section

variable {α β : Type} {G : α → Prop} {H : β → Prop} {stream : Stream} {x : FilesM α} {s s' : Files}

def Returns (x : FilesM α) (G : α → Prop) : Prop :=
  ∀ fdt, Triple (fun s => s.fdt = fdt) x (fun r s => s.fdt = fdt ∧ G r) (fun _ _ => True)

abbrev LeavesTable (x : FilesM α) : Prop := Returns x fun _ => True

namespace Returns

theorem pure {a : α} (h : G a) : Returns (Pure.pure a) G := fun _ => Triple.pure fun _ hs => ⟨hs, h⟩

theorem throw (e : HandlerStop) : Returns (MonadExcept.throw e : FilesM α) G :=
  fun _ => Triple.throw fun _ _ => trivial

variable {x : FilesM α}

theorem bind {f : α → FilesM β} (hx : Returns x G)
    (hf : ∀ a, G a → Returns (f a) H) : Returns (x >>= f) H :=
  fun fdt => Triple.bind (hx fdt) fun a => Triple.of_and fun ha => hf a ha fdt

theorem get_bind {f : Files → FilesM α} (h : ∀ s, Returns (f s) G) :
    Returns ((MonadState.get : FilesM Files) >>= f) G := fun fdt => Triple.get_bind' fun s => h s fdt

theorem ite {c : Prop} [Decidable c] {y : FilesM α} (hx : c → Returns x G)
    (hy : ¬ c → Returns y G) : Returns (if c then x else y) G :=
  fun fdt => Triple.ite (fun hc => hx hc fdt) fun hc => hy hc fdt

theorem modify {f : Files → Files} (h : ∀ s, (f s).fdt = s.fdt) :
    LeavesTable (modify f : FilesM PUnit) :=
  fun _ => Triple.modify fun s hs => ⟨(h s).trans hs, trivial⟩

theorem weaken {G' : α → Prop} (hx : Returns x G) (h : ∀ a, G a → G' a) : Returns x G' :=
  fun fdt => Triple.post (fun a _ ha => ⟨ha.1, h a ha.2⟩) (hx fdt)

theorem discard (hx : Returns x G) : LeavesTable (discard x : FilesM PUnit) := by
  intro fdt s hs
  have := hx fdt s hs
  rw [run_discard]
  cases hr : x.run s with
  | ok a s' =>
    rw [hr] at this
    exact ⟨this.1, trivial⟩
  | error e s' => trivial

theorem forM {l : List β} {f : β → FilesM PUnit} (h : ∀ b ∈ l, LeavesTable (f b)) :
    LeavesTable (l.forM f) := by
  induction l with
  | nil => exact Returns.pure trivial
  | cons b l ih =>
    rw [List.forM]
    exact Returns.bind (h b (.head _)) fun _ _ => ih fun b' hb => h b' (.tail _ hb)

theorem keeps (h : Returns x G) (P : StreamTable → Prop) :
    Triple (fun s => P s.fdt) x (fun r s => P s.fdt ∧ G r) (fun _ _ => True) := by
  intro s hs
  refine Triple.post (fun r s' hr => ⟨?_, hr.2⟩) (h s.fdt) s rfl
  rw [hr.1]
  exact hs

end Returns

theorem assertF_leaves (c : Prop) [Decidable c] : LeavesTable (assertF c) :=
  Returns.ite (fun _ => Returns.pure trivial) fun _ => Returns.throw _

theorem exitWithErrorF_leaves (msg : String) : Returns (exitWithErrorF msg : FilesM α) G :=
  Returns.bind (Returns.modify fun _ => rfl) fun _ _ => Returns.throw _

theorem answer_leaves : LeavesTable answer := by
  refine Returns.get_bind fun s => ?_
  cases s.answers with
  | nil => exact Returns.throw _
  | cons a answers => exact Returns.bind (Returns.modify fun _ => rfl) fun _ _ => Returns.pure trivial

theorem newMemory_leaves (n : Nat) : LeavesTable (newMemory n) :=
  Returns.get_bind fun _ => Returns.bind (Returns.modify fun _ => rfl) fun _ _ => Returns.pure trivial

theorem fillBuffer_leaves (buffer data : List Byte) : LeavesTable (fillBuffer buffer data) :=
  Returns.ite (fun _ => Returns.throw _) fun _ => Returns.pure trivial

/-! ## Objects -/

def Streams.Stream.Becomes : Stream → Stream → Prop
  | .file f, .file f' => (0 ≤ f.readPos → 0 ≤ f'.readPos) ∧ (0 ≤ f.writePos → 0 ≤ f'.writePos)
  | .socket s, .socket s' => s.socketFd ≠ none → s'.socketFd ≠ none
  | .serverSocket s, .serverSocket s' => s' = s
  | _, _ => False

theorem Streams.Stream.Becomes.refl (stream : Stream) : stream.Becomes stream := by
  cases stream with
  | file f => exact ⟨id, id⟩
  | socket s => exact id
  | serverSocket s => rfl

theorem Streams.Stream.Becomes.ok {stream' : Stream} (h : stream.Becomes stream') (hok : stream.Ok) :
    stream'.Ok := by
  cases stream with
  | file f =>
    cases stream' with
    | file f' => exact ⟨h.1 hok.1, h.2 hok.2⟩
    | socket _ | serverSocket _ => trivial
  | socket _ | serverSocket _ =>
    cases stream' with
    | file f' => cases h
    | socket _ | serverSocket _ => trivial

theorem readAt_leaves (f : Streams.OpenFile) (n p : Int) : LeavesTable (f.readAt n p) :=
  Returns.bind (assertF_leaves _) fun _ _ => Returns.ite (fun _ => Returns.throw _) fun _ =>
    Returns.get_bind fun _ => Returns.pure trivial

theorem writeAt_nonneg (f : Streams.OpenFile) (data : List Byte) (p : Int) :
    Returns (f.writeAt data p) (0 ≤ ·) :=
  Returns.bind (assertF_leaves _) fun _ _ => Returns.bind (Returns.modify fun _ => rfl) fun _ _ =>
    Returns.pure (Int.natCast_nonneg _)

theorem Streams.OpenFile.seek_nonneg (f : Streams.OpenFile) (p : Int) :
    Returns (f.seek p) fun r => r.1 ≠ -1 → 0 ≤ p := by
  refine Returns.ite (fun _ => Returns.pure fun h => absurd rfl h) fun hp => ?_
  refine Returns.get_bind fun s => Returns.ite (fun _ => ?_) fun _ => ?_
  · exact Returns.pure fun h => absurd rfl h
  · exact Returns.pure fun _ => Int.not_lt.1 hp

theorem fd_leaves (s : Socket) : LeavesTable s.fd := by
  unfold Socket.fd
  cases s.socketFd with
  | none => exact Returns.throw _
  | some fd => exact Returns.pure trivial

theorem Streams.Socket.read_leaves (s : Socket) (buffer : List Byte) (size : Int) :
    LeavesTable (s.read buffer size) := by
  refine Returns.bind (fd_leaves s).discard fun _ _ => Returns.ite (fun _ => Returns.throw _) fun _ => ?_
  refine Returns.bind answer_leaves fun a _ => Returns.ite (fun _ => Returns.pure trivial) fun _ => ?_
  exact Returns.bind (fillBuffer_leaves _ _) fun _ _ => Returns.pure trivial

theorem Streams.Socket.write_leaves (s : Socket) (data : List Byte) : LeavesTable (s.write data) :=
  Returns.bind (fd_leaves s) fun _ _ => Returns.bind (Returns.modify fun _ => rfl) fun _ _ =>
    Returns.bind answer_leaves fun _ _ => Returns.pure trivial

theorem Streams.Socket.connect_connects (s : Socket) (ip : CString) (port : Int) :
    Returns (s.connect ip port) fun r => r.2.socketFd ≠ none := by
  have hsome : ∀ n : Int, some n ≠ none := fun n => Option.some_ne_none n
  refine Returns.bind answer_leaves fun a _ => Returns.ite (fun _ => Returns.pure (hsome _)) fun _ => ?_
  refine Returns.bind answer_leaves fun _ _ => Returns.ite (fun _ => Returns.pure (hsome _)) fun _ => ?_
  exact Returns.bind answer_leaves fun _ _ =>
    Returns.ite (fun _ => Returns.pure (hsome _)) fun _ => Returns.pure (hsome _)

theorem Streams.Socket.delete_leaves (s : Socket) : LeavesTable s.delete :=
  Returns.bind (fd_leaves s) fun _ _ => Returns.ite (fun _ => Returns.pure trivial) fun _ =>
    answer_leaves.discard

theorem Streams.Stream.read_becomes (stream : Stream) (buffer : List Byte) (size : Int) :
    Returns (stream.read buffer size) fun r => stream.Becomes r.2.2 := by
  cases stream with
  | file f =>
    refine Returns.bind (G := fun r => (Stream.file f).Becomes (.file r.2.2)) ?_ fun r hr =>
      Returns.pure hr
    refine Returns.bind (readAt_leaves _ _ _) fun data _ =>
      Returns.bind (fillBuffer_leaves _ _) fun _ _ => Returns.pure ⟨fun h => ?_, id⟩
    exact Int.add_nonneg h (Int.natCast_nonneg _)
  | socket s => exact Returns.bind (Socket.read_leaves s _ _) fun _ _ => Returns.pure id
  | serverSocket s => exact Returns.pure rfl

theorem Streams.Stream.write_becomes (stream : Stream) (data : List Byte) :
    Returns (stream.write data) fun r => stream.Becomes r.2 := by
  cases stream with
  | file f =>
    refine Returns.bind (G := fun r => (Stream.file f).Becomes (.file r.2)) ?_ fun r hr =>
      Returns.pure hr
    refine Returns.ite (fun _ => Returns.pure ⟨id, id⟩) fun _ => ?_
    exact Returns.bind (writeAt_nonneg _ _ _) fun n hn =>
      Returns.pure ⟨id, fun h => Int.add_nonneg h hn⟩
  | socket s => exact Returns.bind (Socket.write_leaves s _) fun _ _ => Returns.pure id
  | serverSocket s => exact Returns.pure rfl

theorem Streams.Stream.seek_becomes (stream : Stream) (pos : Int) :
    Returns (stream.seek pos) fun r => stream.Becomes r.2 := by
  cases stream with
  | file f =>
    refine Returns.bind (G := fun r => (Stream.file f).Becomes (.file r.2)) ?_ fun r hr =>
      Returns.pure hr
    refine Returns.bind (OpenFile.seek_nonneg _ _) fun r hr => ?_
    exact Returns.ite (fun _ => Returns.pure ⟨id, id⟩) fun hne => Returns.pure ⟨fun _ => hr hne, id⟩
  | socket s => exact Returns.pure id
  | serverSocket s => exact Returns.pure rfl

theorem Streams.Stream.length_leaves (stream : Stream) : LeavesTable stream.length := by
  cases stream with
  | file f => exact Returns.get_bind fun _ => Returns.pure trivial
  | socket s | serverSocket s => exact Returns.pure trivial

/-! ## Calls on one object -/

def Like (fdt fdt' : StreamTable) : Prop := ∀ fd, Option.Rel Stream.Becomes (fdt fd) (fdt' fd)

theorem Like.refl (fdt : StreamTable) : Like fdt fdt := by
  intro fd
  cases fdt fd with
  | none => exact .none
  | some stream => exact .some (Stream.Becomes.refl stream)

theorem Like.update {fdt : StreamTable} {fd : Nat} {stream' : Stream}
    (hs : fdt fd = some stream) (h : stream.Becomes stream') :
    Like fdt (update fdt fd (some stream')) := by
  intro fd'
  by_cases heq : fd' = fd
  · rw [heq, hs, update_self]
    exact .some h
  · rw [update_of_ne heq]
    exact Like.refl fdt fd'

def Alters (x : FilesM α) : Prop :=
  ∀ fdt, Triple (fun s => s.fdt = fdt) x (fun _ s => Like fdt s.fdt) (fun _ _ => True)

theorem Returns.alters (h : Returns x G) : Alters x := by
  refine fun fdt => Triple.post (fun r s hs => ?_) (h fdt)
  rw [hs.1]
  exact Like.refl fdt

theorem Alters.ite {c : Prop} [Decidable c] {y : FilesM α} (hx : Alters x) (hy : Alters y) :
    Alters (if c then x else y) := fun fdt => Triple.ite (fun _ => hx fdt) fun _ => hy fdt

theorem putBack_alters {fd : Int} (hs : s.getStream fd = some stream)
    {x : FilesM β} (object : β → Stream) (hx : Returns x fun r => stream.Becomes (object r))
    {f : β → FilesM α} (hf : ∀ r, LeavesTable (f r)) :
    Triple (· = s) (do
      let r ← x
      modify (·.setStream fd.toNat (some (object r)))
      f r) (fun _ s' => Like s.fdt s'.fdt) (fun _ _ => True) := by
  have hget := (Files.getStream_eq_some.1 hs).2
  have hx' : Triple (· = s) x (fun r s' => s'.fdt = s.fdt ∧ stream.Becomes (object r))
      (fun _ _ => True) := Triple.pre (fun _ h => congrArg Files.fdt h) (hx s.fdt)
  refine Triple.bind hx' fun r => Triple.of_and fun hr => ?_
  refine Triple.bind (Q := fun _ s' => Like s.fdt s'.fdt) (Triple.modify fun s' hs' => ?_) fun _ => ?_
  · rw [Files.fdt_setStream, hs']
    exact Like.update hget hr
  · exact Triple.post (fun _ _ h => h.1) ((hf r).keeps (Like s.fdt))

theorem withStream_alters {fd : Int} {f : Stream → FilesM α} (hx : LeavesTable x)
    (h : ∀ s stream, s.getStream fd = some stream →
      Triple (· = s) (f stream) (fun _ s' => Like s.fdt s'.fdt) (fun _ _ => True)) :
    Alters (do
      let s ← get
      match s.getStream fd with
      | none => x
      | some stream => f stream) := by
  refine fun fdt => Triple.get_bind fun s hs => ?_
  subst hs
  cases hst : s.getStream fd with
  | none => exact Triple.at_state (hx.alters s.fdt) rfl
  | some stream => exact h s stream hst

theorem readTyped_leaves (n : Nat) : LeavesTable (readTyped n) := by
  induction n with
  | zero => exact Returns.pure trivial
  | succ n ih =>
    have hget : LeavesTable getChar := by
      refine Returns.get_bind fun s => ?_
      cases s.typed with
      | nil => exact Returns.throw _
      | cons c typed => exact Returns.bind (Returns.modify fun _ => rfl) fun _ _ => Returns.pure trivial
    refine Returns.bind hget fun c _ => Returns.ite (fun _ => Returns.pure trivial) fun _ => ?_
    exact Returns.bind ih fun _ _ => Returns.pure trivial

theorem consoleRead_leaves (buffer : List Byte) (size : Int) :
    LeavesTable (consoleRead buffer size) := by
  refine Returns.bind (readTyped_leaves _) fun r _ =>
    Returns.bind (fillBuffer_leaves _ _) fun _ _ => ?_
  exact Returns.ite (fun _ => exitWithErrorF_leaves _) fun _ => Returns.pure trivial

theorem sysRead_alters (buffer : List Byte) (size fd : Int) : Alters (sysRead buffer size fd) := by
  refine Alters.ite (exitWithErrorF_leaves _ (G := fun _ => True)).alters ?_
  refine Alters.ite (consoleRead_leaves _ _).alters ?_
  refine withStream_alters (Returns.pure trivial) fun s stream hs => ?_
  exact putBack_alters hs (fun r : Int × List Byte × Stream => r.2.2) (Stream.read_becomes stream _ _) fun _ =>
    Returns.ite (fun _ => exitWithErrorF_leaves _) fun _ => Returns.pure trivial

theorem sysReceive_alters (fd : Int) (buffer : List Byte) (size : Int) :
    Alters (sysReceive fd buffer size) := by
  refine Alters.ite (exitWithErrorF_leaves _ (G := fun _ => True)).alters ?_
  refine withStream_alters (Returns.pure trivial) fun s stream hs => ?_
  exact putBack_alters hs (fun r : Int × List Byte × Stream => r.2.2) (Stream.read_becomes stream _ _) fun _ =>
    Returns.pure trivial

theorem sysWrite_alters (buffer : List Byte) (size fd : Int) : Alters (sysWrite buffer size fd) := by
  refine Alters.ite (exitWithErrorF_leaves _ (G := fun _ => True)).alters ?_
  refine Alters.ite (Returns.bind (Returns.modify fun _ => rfl) fun _ _ => Returns.pure trivial :
    LeavesTable (consoleWrite buffer size)).alters ?_
  refine withStream_alters (Returns.pure trivial) fun s stream hs => ?_
  refine Triple.ite (fun _ => Triple.pure ?_) fun _ => Triple.ite (fun _ => Triple.throw ?_) fun _ => ?_
  · rintro _ rfl
    exact Like.refl _
  · exact fun _ _ => trivial
  · exact putBack_alters hs (fun r : Int × Stream => r.2) (Stream.write_becomes stream _) fun _ =>
      Returns.pure trivial

theorem sysSend_alters (fd : Int) (buffer : List Byte) (len : Int) : Alters (sysSend fd buffer len) := by
  refine Alters.ite (exitWithErrorF_leaves _ (G := fun _ => True)).alters ?_
  refine withStream_alters (Returns.pure trivial) fun s stream hs => ?_
  refine Triple.ite (fun _ => Triple.throw fun _ _ => trivial) fun _ => ?_
  exact putBack_alters hs (fun r : Int × Stream => r.2) (Stream.write_becomes stream _) fun _ =>
    Returns.pure trivial

theorem sysSeek_alters (pos fd : Int) : Alters (sysSeek pos fd) := by
  refine Alters.ite (exitWithErrorF_leaves _ (G := fun _ => True)).alters ?_
  refine withStream_alters (Returns.pure trivial) fun s stream hs => ?_
  have htarget : LeavesTable (stream.seekTarget pos) :=
    Returns.ite (fun _ => Stream.length_leaves stream) fun _ => Returns.pure trivial
  intro s' hs'
  subst hs'
  rw [EStateM.run_bind]
  cases hr : (stream.seekTarget pos).run s' with
  | error e s1 => trivial
  | ok p s1 =>
    have hs1 := ((htarget s'.fdt).returns rfl hr).1
    have hget : s1.getStream fd = some stream := by
      unfold Files.getStream
      rw [hs1]
      exact hs
    rw [← hs1]
    exact putBack_alters hget (fun r : Int × Stream => r.2) (Stream.seek_becomes stream p)
      (fun _ => Returns.pure trivial) s1 rfl

theorem sysConnect_alters (fd : Int) (ip : CString) (port : Int) : Alters (sysConnect fd ip port) := by
  refine fun fdt => Triple.get_bind fun s hs => ?_
  subst hs
  split
  · exact Triple.pure fun s' hs' => hs' ▸ Like.refl _
  · rename_i socket hst
    have hbecomes : Returns (socket.connect ip port) fun r =>
        (Stream.socket socket).Becomes (.socket r.2) :=
      (Socket.connect_connects socket ip port).weaken fun _ h _ => h
    exact putBack_alters hst (fun r : Int × Socket => .socket r.2) hbecomes fun _ => Returns.pure trivial
  · exact Triple.throw fun _ _ => trivial

theorem isOpen_leaves (name : CString) : LeavesTable (isOpen name) := by
  refine Returns.get_bind fun s => ?_
  cases s.isOpen name with
  | ok res => exact Returns.pure trivial
  | error f => exact Returns.throw _

theorem sysCreate_leaves (filename : CString) : LeavesTable (sysCreate filename) := by
  refine Returns.get_bind fun s => ?_
  cases s.host.openForWrite filename with
  | none => exact Returns.throw _
  | some host => exact Returns.bind (Returns.modify fun _ => rfl) fun _ _ => Returns.pure trivial

theorem sysRemove_leaves (filename : CString) : LeavesTable (sysRemove filename) := by
  refine Returns.bind (isOpen_leaves _) fun _ _ =>
    Returns.ite (fun _ => Returns.pure trivial) fun _ => Returns.get_bind fun s => ?_
  cases s.host.unlink filename with
  | none => exact Returns.pure trivial
  | some host => exact Returns.bind (Returns.modify fun _ => rfl) fun _ _ => Returns.pure trivial

/-! ## New objects -/

def Opened (stream : Stream) (fdt fdt' : StreamTable) : Prop :=
  ∃ fd ∈ descriptors, fdt fd = none ∧ fdt' = Function.update fdt fd (some stream)

theorem addStream_spec (stream : Stream) (fdt : StreamTable) :
    Triple (fun s => s.fdt = fdt) (addStream stream)
      (fun r s => r = -1 ∧ s.fdt = fdt ∨ ∃ fd ∈ descriptors, r = fd ∧ fdt fd = none ∧
        s.fdt = update fdt fd (some stream)) (fun _ _ => True) := by
  refine Triple.get_bind fun s hs => ?_
  subst hs
  cases hfd : s.getFreeFileDescriptor with
  | none => exact Triple.pure fun s' hs' => .inl ⟨rfl, congrArg Files.fdt hs'⟩
  | some fd =>
    have hmem : fd ∈ descriptors := List.mem_of_find?_eq_some hfd
    have hfree : s.fdt fd = none := by
      have := List.find?_some (p := fun fd => (s.fdt fd).isNone) hfd
      exact Option.isNone_iff_eq_none.1 this
    refine Triple.bind (Q := fun _ s' => s'.fdt = update s.fdt fd (some stream))
      (Triple.modify ?_) fun _ => Triple.pure fun s' hs' => .inr ⟨fd, hmem, rfl, hfree, hs'⟩
    rintro _ rfl
    rfl

def Opens (x : FilesM α) (G : Stream → Prop) : Prop :=
  ∀ fdt, Triple (fun s => s.fdt = fdt) x
    (fun _ s => s.fdt = fdt ∨ ∃ stream, G stream ∧ Opened stream fdt s.fdt) (fun _ _ => True)

theorem addStream_opens {G : Stream → Prop} (h : G stream) : Opens (addStream stream) G := by
  refine fun fdt => Triple.post (fun r s => ?_) (addStream_spec stream fdt)
  rintro (⟨-, hs⟩ | ⟨fd, hfd, -, hfree, hs⟩)
  · exact .inl hs
  · exact .inr ⟨stream, h, fd, hfd, hfree, hs⟩

theorem Opens.after {f : α → FilesM β} {G : Stream → Prop} (hx : LeavesTable x)
    (hf : ∀ a, Opens (f a) G) : Opens (x >>= f) G :=
  fun fdt => Triple.bind (hx fdt) fun a => Triple.of_and fun _ => hf a fdt

theorem Returns.opens {G : Stream → Prop} (hx : LeavesTable x) : Opens x G :=
  fun fdt => Triple.post (fun _ _ h => .inl h.1) (hx fdt)

def Streams.Stream.New : Stream → Prop
  | .file f => f.readPos = 0 ∧ f.writePos = 0
  | .socket _ => True
  | .serverSocket s => s.clientOpenfileID = []

theorem Streams.Stream.New.ok (h : stream.New) : stream.Ok := by
  cases stream with
  | file f => exact ⟨h.1.ge, h.2.ge⟩
  | socket _ | serverSocket _ => trivial

theorem sysOpen_opens (filename : CString) (mode : Int) : Opens (sysOpen filename mode) Stream.New := by
  refine Opens.after (isOpen_leaves _) fun b fdt => Triple.ite (fun _ => ?_) fun _ => ?_
  · exact Returns.opens (Returns.pure trivial) fdt
  · refine Triple.get_bind' fun s => Triple.ite (fun _ => ?_) fun _ => Triple.ite (fun _ => ?_) fun _ => ?_
    · exact Returns.opens (Returns.pure trivial) fdt
    · exact Returns.opens (Returns.throw _) fdt
    · refine Triple.get_bind' fun s => ?_
      cases s.host.openForReadWrite filename with
      | none => exact Returns.opens (Returns.pure trivial) fdt
      | some file =>
        have hnew : (Stream.file (.new filename mode file)).New := ⟨rfl, rfl⟩
        exact addStream_opens hnew fdt

/-! ## Closing -/

def Erased (fdt fdt' : StreamTable) : Prop := ∀ fd, fdt' fd = fdt fd ∨ fdt' fd = none

theorem deleteStream_keeps {P : StreamTable → Prop} {close : Int → FilesM Int}
    (h : ∀ id, Keeps (fun s => P s.fdt) (fun _ _ => True) (close id)) (stream : Stream) :
    Keeps (fun s => P s.fdt) (fun _ _ => True) (deleteStream close stream) := by
  have hleaves : ∀ {γ : Type} {x : FilesM γ}, LeavesTable x →
      Keeps (fun s => P s.fdt) (fun _ _ => True) x :=
    fun hx => Triple.post (fun _ _ hs => hs.1) (hx.keeps P)
  cases stream with
  | file f => exact Keeps.pure _
  | socket s => exact hleaves (Socket.delete_leaves s)
  | serverSocket s =>
    refine Keeps.ite (Keeps.pure _) (Keeps.bind (Keeps.forM fun id _ => ?_) fun _ => ?_)
    · exact Keeps.ite (Keeps.pure _) (Keeps.map _ (h id))
    · exact hleaves answer_leaves.discard

theorem closeDescriptor_erases (fdt : StreamTable) (depth : Nat) (id : Int) :
    Keeps (fun s => Erased fdt s.fdt) (fun _ _ => True) (closeDescriptor depth id) := by
  induction depth generalizing id with
  | zero => exact Keeps.throw fun _ _ => trivial
  | succ depth ih =>
    refine Keeps.get_bind' fun s => ?_
    cases s.getStream id with
    | none => exact Keeps.pure _
    | some stream =>
      refine Keeps.bind (deleteStream_keeps ih stream) fun _ =>
        Keeps.bind (Keeps.modify fun s hs fd => ?_) fun _ => Keeps.pure _
      rw [Files.fdt_setStream]
      by_cases heq : fd = id.toNat
      · rw [heq, update_self]
        exact .inr rfl
      · rw [update_of_ne heq]
        exact hs fd

theorem closeSocket_spec {fdt : StreamTable} {id : Int} {socket : Socket}
    (hid : 2 ≤ id ∧ id < maxFileDescriptor) (hs : fdt id.toNat = some (.socket socket)) (depth : Nat) :
    Triple (fun s => s.fdt = fdt) (closeDescriptor (depth + 1) id)
      (fun _ s => s.fdt = update fdt id.toNat none) (fun _ _ => True) := by
  refine Triple.get_bind fun s hfdt => ?_
  subst hfdt
  rw [Files.getStream_eq_some.2 ⟨hid, hs⟩]
  refine Triple.bind (Q := fun _ s' => s'.fdt = s.fdt) ?_ fun _ => ?_
  · exact Triple.post (fun _ _ h => h.1)
      (Triple.pre (fun _ h => congrArg Files.fdt h) (Socket.delete_leaves socket s.fdt))
  · refine Triple.bind (Q := fun _ s' => s'.fdt = update s.fdt id.toNat none)
      (Triple.modify fun s' hs' => ?_) fun _ => Triple.pure fun _ h => h
    rw [Files.fdt_setStream, hs']

/-! ## The server -/

/-- What a server that listens has made of the table `fdt0` it started with: the objects that were there
are there, and its clients are new sockets behind descriptors of their own. -/
structure Serving (fdt0 : StreamTable) (clients : List Int) (fdt : StreamTable) : Prop where
  kept : ∀ fd stream, fdt0 fd = some stream → fdt fd = some stream
  fresh : ∀ fd stream, fdt0 fd = none → fdt fd = some stream →
    fd ∈ descriptors ∧ ∃ socket, stream = .socket socket
  client : ∀ id ∈ clients, id ≠ -1 → (2 ≤ id ∧ id < maxFileDescriptor) ∧ fdt0 id.toNat = none ∧
    ∃ socket, fdt id.toNat = some (.socket socket) ∧ socket.socketFd ≠ none
  distinct : ∀ (i j : Nat) (id : Int), clients[i]? = some id → clients[j]? = some id → id ≠ -1 → i = j

namespace Serving

variable {fdt0 fdt : StreamTable} {clients : List Int}

theorem start (fdt : StreamTable) (n : Nat) : Serving fdt (List.replicate n (-1)) fdt where
  kept := fun _ _ h => h
  fresh := fun fd stream h h' => by
    rw [h] at h'
    cases h'
  client := fun id hid hne => absurd (List.eq_of_mem_replicate hid) hne
  distinct := fun i j id hi _ hne => absurd (List.eq_of_mem_replicate (List.mem_of_getElem? hi)) hne

theorem accept (h : Serving fdt0 clients fdt) {fd : Nat} (hfd : fd ∈ descriptors)
    (hfree : fdt fd = none) {socket : Socket} (hsocket : socket.socketFd ≠ none) (i : Nat) :
    Serving fdt0 (clients.set i fd) (update fdt fd (some (.socket socket))) := by
  have hfree0 : fdt0 fd = none := by
    cases hs : fdt0 fd with
    | none => rfl
    | some stream =>
      rw [h.kept fd stream hs] at hfree
      cases hfree
  have hnew : ∀ id ∈ clients, id ≠ -1 → id.toNat ≠ fd := by
    rintro id hid hne rfl
    obtain ⟨-, -, s, hs, -⟩ := h.client id hid hne
    rw [hfree] at hs
    cases hs
  refine ⟨fun fd' stream hs => ?_, fun fd' stream hs hs' => ?_, fun id hid hne => ?_,
    fun j k id hj hk hne => ?_⟩
  · have hne : fd' ≠ fd := by
      rintro rfl
      rw [hfree0] at hs
      cases hs
    rw [update_of_ne hne]
    exact h.kept fd' stream hs
  · by_cases heq : fd' = fd
    · rw [heq, update_self] at hs'
      cases hs'
      exact ⟨heq ▸ hfd, socket, rfl⟩
    · rw [update_of_ne heq] at hs'
      exact h.fresh fd' stream hs hs'
  · rcases List.mem_or_eq_of_mem_set hid with hid | rfl
    · obtain ⟨hrange, hnone, s, hs, hsfd⟩ := h.client id hid hne
      refine ⟨hrange, hnone, s, ?_, hsfd⟩
      rw [update_of_ne (hnew id hid hne)]
      exact hs
    · have := mem_descriptors.1 hfd
      refine ⟨by omega, hfree0, socket, ?_, hsocket⟩
      rw [Int.toNat_natCast, update_self]
  · have hother : ∀ n, n ≠ i → clients[n]? = some id → id ≠ fd := by
      rintro n - hn rfl
      exact hnew _ (List.mem_of_getElem? hn) hne (Int.toNat_natCast fd)
    rw [List.getElem?_set] at hj hk
    split at hj
    · split at hk
      · omega
      · split at hj
        · cases hj
          exact absurd rfl (hother k (by omega) hk)
        · cases hj
    · split at hk
      · split at hk
        · cases hk
          exact absurd rfl (hother j (by omega) hj)
        · cases hk
      · exact h.distinct j k id hj hk hne

theorem drop (h : Serving fdt0 clients fdt) {i : Nat} {id : Int} (hi : clients[i]? = some id)
    (hne : id ≠ -1) : Serving fdt0 (clients.set i (-1)) (update fdt id.toNat none) := by
  obtain ⟨hrange, hnone, -⟩ := h.client id (List.mem_of_getElem? hi) hne
  have hentry : ∀ {j id'}, (clients.set i (-1))[j]? = some id' → id' ≠ -1 →
      clients[j]? = some id' ∧ j ≠ i := by
    intro j id' hj hne'
    rw [List.getElem?_set] at hj
    split at hj
    · split at hj
      · exact absurd (Option.some.inj hj).symm hne'
      · cases hj
    · exact ⟨hj, by omega⟩
  refine ⟨fun fd' stream hs => ?_, fun fd' stream hs hs' => ?_, fun id' hid' hne' => ?_,
    fun j k id' hj hk hne' => h.distinct j k id' (hentry hj hne').1 (hentry hk hne').1 hne'⟩
  · have : fd' ≠ id.toNat := by
      rintro rfl
      rw [hnone] at hs
      cases hs
    rw [update_of_ne this]
    exact h.kept fd' stream hs
  · by_cases heq : fd' = id.toNat
    · rw [heq, update_self] at hs'
      cases hs'
    · rw [update_of_ne heq] at hs'
      exact h.fresh fd' stream hs hs'
  · obtain ⟨j, hj⟩ := List.mem_iff_getElem?.1 hid'
    obtain ⟨hj, hji⟩ := hentry hj hne'
    obtain ⟨hrange', hnone', s, hs, hsfd⟩ := h.client id' (List.mem_of_getElem? hj) hne'
    refine ⟨hrange', hnone', s, ?_, hsfd⟩
    have hid : id' ≠ id := by
      rintro rfl
      exact hji (h.distinct j i id' hj hi hne)
    rw [update_of_ne (by omega)]
    exact hs

end Serving

section Server

variable {fdt0 : StreamTable} {ss : ServerSocket}

theorem clientOf_leaves (id : Int) : LeavesTable (clientOf id) := by
  refine Returns.get_bind fun s => ?_
  split
  · exact Returns.pure trivial
  · exact Returns.throw _

theorem watchClient_leaves (id : Int) : LeavesTable (ServerSocket.watchClient id) :=
  Returns.ite (fun _ => Returns.pure trivial) fun _ =>
    Returns.bind (clientOf_leaves id) fun client _ => (fd_leaves client).discard

theorem init_clears (ss : ServerSocket) :
    Returns ss.init fun r => r.2.clientOpenfileID = List.replicate maxClients (-1) := by
  refine Returns.bind answer_leaves fun _ _ => Returns.ite (fun _ => Returns.pure rfl) fun _ => ?_
  refine Returns.bind answer_leaves fun _ _ => Returns.ite (fun _ => Returns.pure rfl) fun _ => ?_
  refine Returns.bind answer_leaves fun _ _ => Returns.ite (fun _ => Returns.pure rfl) fun _ => ?_
  exact Returns.bind answer_leaves fun _ _ =>
    Returns.ite (fun _ => Returns.pure rfl) fun _ => Returns.pure rfl

abbrev Serves (fdt0 : StreamTable) (ss : ServerSocket) (x : FilesM ServerSocket) : Prop :=
  Triple (fun s => Serving fdt0 ss.clientOpenfileID s.fdt) x
    (fun ss' s => Serving fdt0 ss'.clientOpenfileID s.fdt) (fun _ _ => True)

theorem newConnection_serves (newSocket : Int) :
    Serves fdt0 ss (ss.handleClientNewConnection newSocket) := by
  unfold ServerSocket.handleClientNewConnection
  split
  · exact Triple.pure fun _ h => h
  case h_2 i hi =>
    refine Triple.bind ((newMemory_leaves _).keeps _) fun memory => Triple.of_and fun _ => ?_
    intro s hs
    rw [EStateM.run_bind]
    cases hr : (addStream (.socket ⟨some newSocket, memory⟩)).run s with
    | error e s1 => trivial
    | ok r s1 =>
      dsimp only
      rcases (addStream_spec _ s.fdt).returns rfl hr with ⟨rfl, hfdt⟩ | ⟨fd, hfd, rfl, hfree, hfdt⟩
      · rw [if_pos (by decide)]
        have hs1 : Serving fdt0 ss.clientOpenfileID s1.fdt := by
          rw [hfdt]
          exact hs
        have hdelete := (Socket.delete_leaves ⟨some newSocket, memory⟩).keeps
          (Serving fdt0 ss.clientOpenfileID)
        exact Triple.bind hdelete (fun _ => Triple.pure fun _ h => h.1) s1 hs1
      · rw [if_neg (by omega)]
        change Serving _ _ s1.fdt
        rw [hfdt]
        exact hs.accept hfd hfree (Option.some_ne_none _) i

theorem commingMessage_serves {i : Nat} {id : Int} (hi : ss.clientOpenfileID[i]? = some id)
    (hne : id ≠ -1) : Serves fdt0 ss (ss.handleClientCommingMessage i id) := by
  let P := Serving fdt0 ss.clientOpenfileID
  refine Triple.bind ((clientOf_leaves id).keeps P) fun client => Triple.of_and fun _ => ?_
  refine Triple.bind ((Socket.read_leaves client _ _).keeps P) fun r => Triple.of_and fun _ => ?_
  refine Triple.ite (fun _ => ?_) fun _ => Triple.ite (fun _ => Triple.throw fun _ _ => trivial)
    fun _ => Triple.ite (fun _ => Triple.throw fun _ _ => trivial) fun _ => ?_
  · intro s hs
    obtain ⟨hrange, -, socket, hsocket, -⟩ := hs.client id (List.mem_of_getElem? hi) hne
    rw [EStateM.run_bind, run_discard]
    cases hr : (closeDescriptor (maxFileDescriptor + 1) id).run s with
    | error e s1 => trivial
    | ok r s1 =>
      have hfdt := (closeSocket_spec hrange hsocket maxFileDescriptor).returns rfl hr
      change Serving _ _ s1.fdt
      rw [hfdt]
      exact hs.drop hi hne
  · exact Triple.bind ((Socket.write_leaves client _).discard.keeps P) fun _ =>
      Triple.pure fun _ h => h.1

theorem serveClients_serves (ready : Int → Bool) (ss : ServerSocket) (l : List Nat) :
    Serves fdt0 ss (ServerSocket.serveClients ready ss l) := by
  induction l generalizing ss with
  | nil => exact Triple.pure fun _ h => h
  | cons i l ih =>
    refine Triple.ite (fun _ => ih ss) fun hne => ?_
    have hi : ss.clientOpenfileID[i]? = some (ss.clientOpenfileID.getD i (-1)) := by
      rw [List.getD_eq_getElem?_getD] at hne ⊢
      cases hget : ss.clientOpenfileID[i]? with
      | none =>
        rw [hget] at hne
        exact absurd rfl hne
      | some id => rfl
    let P := Serving fdt0 ss.clientOpenfileID
    refine Triple.bind ((clientOf_leaves _).keeps P) fun client => Triple.of_and fun _ => ?_
    refine Triple.bind ((fd_leaves client).keeps P) fun sd => Triple.of_and fun _ => ?_
    exact Triple.ite (fun _ => Triple.bind (commingMessage_serves hi hne) fun ss' => ih ss')
      fun _ => ih ss

def afterRound (ss : ServerSocket) : Except Int ServerSocket → ServerSocket
  | .error _ => ss
  | .ok ss' => ss'

theorem acceptClient_serves (ready : Int → Bool) (ss : ServerSocket) :
    Triple (fun s => Serving fdt0 ss.clientOpenfileID s.fdt) (ServerSocket.acceptClient ready ss)
      (fun r s => Serving fdt0 (afterRound ss r).clientOpenfileID s.fdt) (fun _ _ => True) := by
  refine Triple.ite (fun _ => ?_) fun _ => Triple.pure fun _ h => h
  refine Triple.bind (answer_leaves.keeps _) fun _ => Triple.of_and fun _ => ?_
  refine Triple.ite (fun _ => Triple.pure fun _ h => h) fun _ => ?_
  exact Triple.bind (newConnection_serves _) fun _ => Triple.pure fun _ h => h

theorem listenRound_serves (ss : ServerSocket) :
    Triple (fun s => Serving fdt0 ss.clientOpenfileID s.fdt) ss.listenRound
      (fun r s => Serving fdt0 (afterRound ss r).clientOpenfileID s.fdt) (fun _ _ => True) := by
  have hwatch : LeavesTable (ss.clientOpenfileID.forM ServerSocket.watchClient) :=
    Returns.forM fun id _ => watchClient_leaves id
  refine Triple.bind (hwatch.keeps _) fun _ => Triple.of_and fun _ => ?_
  refine Triple.bind (answer_leaves.keeps _) fun select => Triple.of_and fun _ => ?_
  refine Triple.bind (acceptClient_serves _ _) fun r => ?_
  cases r with
  | error e => exact Triple.pure fun _ h => h
  | ok ss' => exact Triple.bind (serveClients_serves _ _ _) fun _ => Triple.pure fun _ h => h

theorem listenLoop_serves (ss : ServerSocket) (rounds : Nat) :
    Triple (fun s => Serving fdt0 ss.clientOpenfileID s.fdt) (ss.listenLoop rounds)
      (fun r s => Serving fdt0 r.2.clientOpenfileID s.fdt) (fun _ _ => True) := by
  induction rounds generalizing ss with
  | zero => exact Triple.throw fun _ _ => trivial
  | succ rounds ih =>
    refine Triple.bind (listenRound_serves ss) fun r => ?_
    cases r with
    | error e => exact Triple.pure fun _ h => h
    | ok ss' => exact ih ss'

theorem listen_serves (ss : ServerSocket) (fdt : StreamTable) :
    Triple (fun s => s.fdt = fdt) ss.listen (fun r s => Serving fdt r.2.clientOpenfileID s.fdt)
      (fun _ _ => True) := by
  refine Triple.bind (init_clears ss fdt) fun r => Triple.of_and fun hr => ?_
  have hstart : ∀ s : Files, s.fdt = fdt → Serving fdt r.2.clientOpenfileID s.fdt := by
    intro s hs
    rw [hs, hr]
    exact Serving.start fdt _
  refine Triple.ite (fun _ => Triple.pure hstart) fun _ => Triple.get_bind' fun s => ?_
  exact Triple.pre hstart (listenLoop_serves r.2 _)

end Server

/-! ## Calls -/

inductive Files.Change (s s' : Files) : FilesCall → Prop
  | like {call : FilesCall} (h : Like s.fdt s'.fdt) : Change s s' call
  | opened {call : FilesCall} {stream : Stream} (hnew : stream.New)
      (h : Opened stream s.fdt s'.fdt) : Change s s' call
  | closed {id r : Int} (h : (sysClose id).run s = .ok r s') : Change s s' (.close id)
  | listened {ssID : Int} {ss ss' : ServerSocket} {fdt : StreamTable}
      (hs : s.getStream ssID = some (.serverSocket ss)) (h : Serving s.fdt ss'.clientOpenfileID fdt)
      (hs' : s'.fdt = Function.update fdt ssID.toNat (some (.serverSocket ss'))) :
      Change s s' (.serverListen ssID)

theorem Alters.change (h : Alters x) {r : α} (hr : x.run s = .ok r s')
    (call : FilesCall) : s.Change s' call := .like ((h s.fdt).returns rfl hr)

theorem Opens.change (h : Opens x Stream.New) {r : α}
    (hr : x.run s = .ok r s') (call : FilesCall) : s.Change s' call := by
  rcases (h s.fdt).returns rfl hr with hs | ⟨stream, hnew, hopened⟩
  · exact .like (hs ▸ Like.refl _)
  · exact .opened hnew hopened

theorem sysServerListen_change {ssID r : Int}
    (hr : (sysServerListen ssID).run s = .ok r s') : s.Change s' (.serverListen ssID) := by
  rw [sysServerListen, run_get_bind] at hr
  split at hr
  · cases hr
    exact .like (Like.refl _)
  case h_2 ss hs =>
    obtain ⟨⟨res, ss'⟩, s1, h1, h2⟩ := run_bind_ok hr
    cases h2
    exact .listened hs ((listen_serves ss s.fdt).returns rfl h1) rfl
  · cases hr

theorem Files.step_eq_some {call : FilesCall} :
    s.step call = some s' ↔ ∃ r, call.run.run s = .ok r s' := by
  unfold Files.step
  cases hr : call.run.run s with
  | ok r s1 => simp
  | error e s1 => simp

theorem Files.step_change {call : FilesCall} (h : s.step call = some s') : s.Change s' call := by
  obtain ⟨r, hr⟩ := Files.step_eq_some.1 h
  cases call with
  | create filename => exact (sysCreate_leaves filename).alters.change hr _
  | openFile filename mode => exact (sysOpen_opens filename mode).change hr _
  | close id => exact .closed hr
  | read buffer size fd =>
    obtain ⟨r', s1, h1, h2⟩ := run_bind_ok hr
    cases h2
    exact (sysRead_alters buffer size fd).change h1 _
  | write buffer size fd => exact (sysWrite_alters buffer size fd).change hr _
  | seek pos fd => exact (sysSeek_alters pos fd).change hr _
  | remove filename => exact (sysRemove_leaves filename).alters.change hr _
  | socketTCP =>
    have hopens : Opens sysSocketTCP Stream.New :=
      Opens.after (newMemory_leaves _) fun _ => addStream_opens (G := Stream.New) trivial
    exact hopens.change hr _
  | connect fd ip port => exact (sysConnect_alters fd ip port).change hr _
  | send fd buffer len => exact (sysSend_alters fd buffer len).change hr _
  | receive socketID buffer size =>
    obtain ⟨r', s1, h1, h2⟩ := run_bind_ok hr
    cases h2
    exact (sysReceive_alters socketID buffer size).change h1 _
  | serverCreate port =>
    have hopens : Opens (sysServerCreate port) Stream.New :=
      Opens.after (newMemory_leaves _) fun _ => addStream_opens (G := Stream.New) rfl
    exact hopens.change hr _
  | serverListen ssID => exact sysServerListen_change hr

end

namespace Files

variable {s s' : Files}

theorem WellFormed.like (h : s.WellFormed) (hs : Like s.fdt s'.fdt) : s'.WellFormed := by
  intro fd stream hst
  have hrel := hs fd
  rw [hst] at hrel
  cases hfd : s.fdt fd with
  | none =>
    rw [hfd] at hrel
    cases hrel
  | some stream0 =>
    rw [hfd] at hrel
    cases hrel with
    | some hbecomes => exact ⟨(h fd _ hfd).1, Stream.Becomes.ok hbecomes (h fd _ hfd).2⟩

theorem WellFormed.change (h : s.WellFormed) {call : FilesCall} (hs : s.Change s' call) :
    s'.WellFormed := by
  cases hs with
  | like hlike => exact h.like hlike
  | opened hnew hopened =>
    obtain ⟨fd, hfd, -, hs'⟩ := hopened
    intro fd' stream hst
    rw [hs'] at hst
    by_cases heq : fd' = fd
    · rw [heq, update_self] at hst
      cases hst
      exact ⟨heq ▸ hfd, hnew.ok⟩
    · rw [update_of_ne heq] at hst
      exact h fd' stream hst
  | closed hclose =>
    have herased := (closeDescriptor_erases s.fdt _ _).returns (fun fd => .inl rfl) hclose
    intro fd stream hst
    rcases herased fd with hsame | hnone
    · exact h fd stream (hsame ▸ hst)
    · rw [hnone] at hst
      cases hst
  | @listened ssID ss ss' fdt hs hserving hs' =>
    intro fd stream hst
    rw [hs'] at hst
    by_cases heq : fd = ssID.toNat
    · rw [heq, update_self] at hst
      cases hst
      exact ⟨heq ▸ toNat_mem_descriptors hs, trivial⟩
    · rw [update_of_ne heq] at hst
      cases hfd : s.fdt fd with
      | none =>
        obtain ⟨hmem, socket, rfl⟩ := hserving.fresh fd stream hfd hst
        exact ⟨hmem, trivial⟩
      | some stream0 =>
        cases (hserving.kept fd stream0 hfd).symm.trans hst
        exact h fd _ hfd

theorem Reachable.wellFormed (h : s.Reachable) : s.WellFormed := by
  obtain ⟨host, answers, junk, typed, hr⟩ := h
  exact hr.invariant (fun fd stream h => by cases h) fun s call s' hs _ hstep =>
    hs.change (step_change hstep)

end Files

end Nachos
