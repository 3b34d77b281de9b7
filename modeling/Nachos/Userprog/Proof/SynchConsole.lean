import Nachos.Threads.Proof.SynchDevice
import Nachos.Userprog.SynchConsole

/-!
# The console: every character, in order

* `ConsoleOutput.Displayed`: the display shows the characters of the calls one call after the other, in
  the order in which the calls took the lock. The device is a busy one (`SynchDevice.Served`).
* `ConsoleInput.Fed`: the readers get the bytes of the keyboard in order, and as long as there are more of
  them a byte waits for a reader or the keyboard is polled. That is so exactly for an input in which the
  byte of `EOF` comes last or not at all: a `char` cannot tell this byte from an empty buffer, and the
  keyboard is polled again when a reader has emptied the buffer.
-/

namespace Nachos

open Base

/-! ## Output -/

namespace ConsoleOutput

open SynchDevice

variable {s : State (Busy (List Byte)) Byte Call}

def Call.chars : Call → List Byte
  | .putChar ch => [ch]
  | .putString s size => (List.range size.toNat).map s

/-- The display shows what the calls have to write, but for what the last one has still to write. -/
structure Displayed (s : State (Busy (List Byte)) Byte Call) : Prop where
  /-- `ASSERT(putBusy == FALSE)` has not failed -/
  ready : s.stopped ≠ some .notReady
  order : ∃ rest, s.acquisitions.flatMap (fun a => a.2.chars) = s.device.data ++ rest ∧
    (rest ≠ [] → ∃ t body, s.place t = .inside body ∧ rest = body.filterMap Action.op?)

theorem paired_flatMap (chars : Nat → Byte) (l : List Nat) :
    Paired (l.flatMap fun i => [.device (chars i), .wait]) := by
  induction l with
  | nil => exact .nil
  | cons i l ih => exact .cons ih

theorem synchronous : Synchronous interface where
  request console t ch hostOk := by
    refine ⟨_, ?_, rfl⟩
    by_cases h : hostOk = true
    · rw [SynchDevice.assert_of h]
      nofun
    · rw [SynchDevice.assert_not h]
      nofun
  callBack _ _ := rfl
  body call := by
    cases call with
    | putChar ch => exact .cons .nil
    | putString s size => exact paired_flatMap s _

theorem filterMap_body (call : Call) : (interface.body call).filterMap Action.op? = call.chars := by
  cases call with
  | putChar ch => rfl
  | putString s size =>
    show (List.flatMap _ (List.range size.toNat)).filterMap Action.op? = (List.range size.toNat).map s
    induction List.range size.toNat with
    | nil => rfl
    | cons i l ih =>
      rw [List.flatMap_cons, List.filterMap_append, ih]
      rfl

theorem map_operations (t : Tid) (body : List (Action Byte)) :
    (operations t body).map Prod.snd = body.filterMap Action.op? := by
  rw [operations, List.map_map]
  exact List.map_id _

theorem map_flatMap_operations (calls : List (Tid × Call)) :
    (calls.flatMap fun a => operations a.1 (interface.body a.2)).map Prod.snd =
      calls.flatMap fun a => a.2.chars := by
  rw [List.map_flatMap]
  simp only [map_operations, filterMap_body]

theorem data_eq (h : Reachable interface (.new []) s) : s.device.data = s.performed.map Prod.snd := by
  refine h.data_invariant (P := fun log data => data = log.map Prod.snd) synchronous rfl ?_
  intro d d' log t ch hostOk _ hi hr
  have hw := Busy.perform_ok hr
  obtain ⟨_, -, hw⟩ := bind_ok hw
  rw [← Except.ok.inj hw, hi]
  simp

/-- **The display**, in every run of any threads: the device is never asked while it is busy, and the
characters are those of the calls, one call after the other. -/
theorem displayed_of_reachable (h : Reachable interface (.new []) s) : Displayed s where
  ready := (h.served synchronous).ready
  order := by
    refine ⟨s.toDo.map Prod.snd, ?_, fun hne => ?_⟩
    · rw [← map_flatMap_operations, h.operations_eq, List.map_append, data_eq h]
    · cases hl : s.lockHolder with
      | none => exact absurd (by simp [State.toDo, hl]) hne
      | some t =>
        obtain ⟨body, ht⟩ := (h.locked.holder t).1 hl
        exact ⟨t, body, ht, by rw [h.locked.toDo_eq ht, map_operations]⟩

def stringAndChar : List (Event Call Nat) :=
  [.call 1 (.putString (fun i => BitVec.ofNat 8 (65 + i)) 2), .call 2 (.putChar 90), .go 1 true,
    .go 1 true, .go 1 true, .go 2 true, .interrupt 0, .go 1 true, .go 1 true, .interrupt 1, .go 1 true,
    .go 1 true, .go 1 true, .go 2 true, .go 2 true, .go 2 true, .interrupt 2, .go 2 true]

theorem displayed_stringAndChar : ∃ s, Reachable interface (.new []) s ∧
    s.device.data = [65, 66, 90] ∧ Displayed s := by
  obtain ⟨s, h, hd⟩ := exists_runs (SynchDevice.step interface) (fun _ _ => True)
    (SynchDevice.start (.new [])) stringAndChar (fun s => s.device.data = [65, 66, 90])
    (by decide +kernel)
  exact ⟨s, h, hd, displayed_of_reachable h⟩

end ConsoleOutput

/-! ## Input -/

namespace ConsoleInput

open Interrupt (Key eof)
open SynchDevice

variable {input : Input} {s s' : State Device Unit Unit} {t u : Tid} {look : Look}

def AboutToTake (s : State Device Unit Unit) (t : Tid) : Prop := s.place t = .inside [.device ()]

/-- What the readers get, and that they get more as long as there is more. -/
structure Fed (input : Input) (s : State Device Unit Unit) : Prop where
  /-- what `GetChar` returned are the bytes of the input, as far as it has any -/
  inOrder : ∀ i t ch b, s.device.taken[i]? = some (t, ch) → input.bytes i = some b → ch = b
  /-- `ASSERT(incoming == EOF)` has not failed -/
  ready : s.stopped ≠ some .notReady
  /-- a byte waits with its signal or its reader, or the keyboard will be polled -/
  alive : input.bytes s.device.taken.length ≠ none →
    (s.device.position = s.device.taken.length + 1 ∧
      input.bytes s.device.taken.length = some s.device.incoming ∧
      (s.waitFor.value = 1 ∨ ∃ t, AboutToTake s t)) ∨ s.device.polls = 1

/-! ### The buffer, the semaphore and the poll -/

inductive Signalled (s : State Device Unit Unit) : Prop
  | waits (hv : s.waitFor.value = 1) (hn : ∀ t, ¬ AboutToTake s t)
  | taken (t : Tid) (ht : AboutToTake s t) (hv : s.waitFor.value = 0)

def Quiet (s : State Device Unit Unit) : Prop := s.waitFor.value = 0 ∧ ∀ t, ¬ AboutToTake s t

inductive Phase (input : Input) (s : State Device Unit Unit) : Prop
  | polling (hq : Quiet s) (hp : s.device.polls = 1) (hi : s.device.incoming = eof)
      (hl : s.device.taken.length = s.device.position)
  | buffered (hs : Signalled s) (hp : s.device.polls = 0)
      (hl : s.device.position = s.device.taken.length + 1)
      (hb : input.bytes s.device.taken.length = some s.device.incoming)
  /-- the end of the file was read -/
  | atEnd (hs : Signalled s) (hp : s.device.polls = 0) (hi : s.device.incoming = eof)
      (hl : s.device.taken.length = s.device.position) (hb : input.bytes s.device.position = none)
  /-- the keyboard is not polled any more: the end of the file was taken, or a byte that looks so -/
  | ended (hq : Quiet s) (hp : s.device.polls = 0) (hi : s.device.incoming = eof)
      (hl : ∃ n, s.device.taken.length = n + 1 ∧ (input.bytes n = none ∨ input.bytes n = some eof))

structure Inv (input : Input) (s : State Device Unit Unit) : Prop where
  inOrder : ∀ i t ch b, s.device.taken[i]? = some (t, ch) → input.bytes i = some b → ch = b
  ready : s.stopped ≠ some .notReady
  phase : Phase input s

theorem Inv.init (input : Input) : Inv input (start new) where
  inOrder := nofun
  ready := nofun
  phase := .polling ⟨rfl, nofun⟩ rfl rfl rfl

theorem Phase.same (h : Phase input s) (hd : s'.device = s.device)
    (hv : s'.waitFor.value = s.waitFor.value) (ha : ∀ t, AboutToTake s' t ↔ AboutToTake s t) :
    Phase input s' := by
  have hquiet : Quiet s → Quiet s' := fun hq => ⟨hv ▸ hq.1, fun t ht => hq.2 t ((ha t).1 ht)⟩
  have hsignalled : Signalled s → Signalled s' := by
    intro hs
    cases hs with
    | waits hv' hn => exact .waits (hv ▸ hv') fun t ht => hn t ((ha t).1 ht)
    | taken t ht hv' => exact .taken t ((ha t).2 ht) (hv ▸ hv')
  cases h with
  | polling hq hp hi hl => exact .polling (hquiet hq) (hd ▸ hp) (hd ▸ hi) (hd ▸ hl)
  | buffered hs hp hl hb => exact .buffered (hsignalled hs) (hd ▸ hp) (hd ▸ hl) (hd ▸ hb)
  | atEnd hs hp hi hl hb =>
    exact .atEnd (hsignalled hs) (hd ▸ hp) (hd ▸ hi) (hd ▸ hl) (hd ▸ hb)
  | ended hq hp hi hl => exact .ended (hquiet hq) (hd ▸ hp) (hd ▸ hi) (hd ▸ hl)

theorem Inv.same (h : Inv input s) (hr : s'.stopped ≠ some .notReady) (hd : s'.device = s.device)
    (hv : s'.waitFor.value = s.waitFor.value) (ha : ∀ t, AboutToTake s' t ↔ AboutToTake s t) :
    Inv input s' :=
  ⟨hd ▸ h.inOrder, hr, h.phase.same hd hv ha⟩

theorem aboutToTake_goto {place : Place Unit Unit} {s1 : State Device Unit Unit}
    (hp : s1.place = s.place) (hold : ¬ AboutToTake s t) (hnew : place ≠ .inside [.device ()])
    (u : Tid) : AboutToTake (s1.goto t place) u ↔ AboutToTake s u := by
  unfold AboutToTake
  rcases eq_or_ne u t with rfl | hut
  · rw [goto_same]
    exact ⟨fun h => absurd h hnew, fun h => absurd h hold⟩
  · rw [goto_ne hut, hp]

theorem aboutToTake_unique (hr : Reachable (interface input) new s) {b : List (Action Unit)}
    (ht : s.place t = .inside b) (hu : AboutToTake s u) : u = t :=
  hr.locked.unique hu ht

theorem inside_cases (hr : Reachable (interface input) new s) {b : List (Action Unit)}
    (ht : s.place t = .inside b) : b = [.wait, .device ()] ∨ b = [.device ()] ∨ b = [] := by
  obtain ⟨_, hc⟩ := hr.isSuffix ht
  rcases List.suffix_cons_iff.1 hc with he | hc
  · exact .inl he
  · rcases List.suffix_cons_iff.1 hc with he | hc
    · exact .inr (.inl he)
    · exact .inr (.inr (List.eq_nil_of_suffix_nil hc))

theorem Signalled.value_of_about (h : Signalled s) (ht : AboutToTake s t) : s.waitFor.value = 0 := by
  cases h with
  | waits _ hn => exact absurd ht (hn t)
  | taken _ _ hv => exact hv

theorem Inv.take (hr : Reachable (interface input) new s) (h : Inv input s) (ht : AboutToTake s t) :
    Inv input ({ s with
      device := getChar s.device t, performed := s.performed ++ [(t, ())] }.goto t (.inside [])) := by
  have hlen : (s.device.taken ++ [(t, s.device.incoming)]).length = s.device.taken.length + 1 := by
    simp
  have hquiet : Signalled s → Quiet ({ s with
      device := getChar s.device t, performed := s.performed ++ [(t, ())] }.goto t (.inside [])) := by
    refine fun hs => ⟨hs.value_of_about ht, fun u hu => ?_⟩
    rcases eq_or_ne u t with rfl | hut
    · rw [AboutToTake, goto_same] at hu
      cases hu
    · rw [AboutToTake, goto_ne hut] at hu
      exact hut (aboutToTake_unique hr ht hu)
  have hin : (∀ b, input.bytes s.device.taken.length = some b → s.device.incoming = b) →
      ∀ i u ch b, (s.device.taken ++ [(t, s.device.incoming)])[i]? = some (u, ch) →
        input.bytes i = some b → ch = b := by
    intro hnew i u ch b hi hb
    rcases Nat.lt_or_ge i s.device.taken.length with hlt | hge
    · rw [List.getElem?_append_left hlt] at hi
      exact h.inOrder i u ch b hi hb
    · obtain ⟨hlt, -⟩ := List.getElem?_eq_some_iff.1 hi
      obtain rfl : i = s.device.taken.length := by omega
      rw [List.getElem?_concat_length] at hi
      cases hi
      exact hnew b hb
  cases h.phase with
  | polling hq | ended hq => exact absurd ht (hq.2 t)
  | buffered hs hp hl hb =>
    refine ⟨hin fun b hb' => Option.some.inj (hb.symm.trans hb'), h.ready, ?_⟩
    by_cases he : s.device.incoming = eof
    · refine .ended (hquiet hs) ?_ rfl ⟨_, hlen, .inr (he ▸ hb)⟩
      show (if s.device.incoming ≠ eof then _ else s.device.polls) = 0
      rw [if_neg (not_not.2 he), hp]
    · refine .polling (hquiet hs) ?_ rfl (hlen.trans hl.symm)
      show (if s.device.incoming ≠ eof then s.device.polls + 1 else _) = 1
      rw [if_pos he, hp]
  | atEnd hs hp hi hl hb =>
    rw [← hl] at hb
    refine ⟨hin fun b hb' => absurd hb' (by rw [hb]; nofun), h.ready,
      .ended (hquiet hs) ?_ rfl ⟨_, hlen, .inl hb⟩⟩
    show (if s.device.incoming ≠ eof then _ else s.device.polls) = 0
    rw [if_neg (not_not.2 hi), hp]

theorem Inv.wake (h : Inv input s) (t : Tid) (hv : s.waitFor.value ≠ 0) :
    Inv input ({ s with
      waitFor := s.waitFor.decrement
      signals := s.signals.tail
      woken := s.woken ++ s.signals.head?.toList.map (t, ·) }.goto t (.inside [.device ()])) := by
  have hsignalled : Signalled s → Signalled ({ s with
      waitFor := s.waitFor.decrement
      signals := s.signals.tail
      woken := s.woken ++ s.signals.head?.toList.map (t, ·) }.goto t (.inside [.device ()])) := by
    intro hs
    cases hs with
    | waits hv' hn => exact .taken t (goto_same ..) (by show s.waitFor.value - 1 = 0; rw [hv'])
    | taken _ _ hv' => exact absurd hv' hv
  refine ⟨h.inOrder, h.ready, ?_⟩
  cases h.phase with
  | polling hq => exact absurd hq.1 hv
  | ended hq => exact absurd hq.1 hv
  | buffered hs hp hl hb => exact .buffered (hsignalled hs) hp hl hb
  | atEnd hs hp hi hl hb => exact .atEnd (hsignalled hs) hp hi hl hb

def polled (input : Input) (console : Device) (look : Look) :
    Except SynchDevice.Stop (Device × Option Nat) :=
  match input.key console.position look with
  | .nothing => .ok (console, none)
  | .endOfFile => .ok ({ console with polls := 0 }, some console.position)
  | .char c =>
    .ok ({ console with polls := 0, incoming := c, position := console.position + 1 },
      some console.position)
  | .failed => .error .host

theorem callBack_eq_polled {console : Device} (hp : console.polls = 1) (hi : console.incoming = eof)
    (look : Look) : callBack input console look = some (polled input console look) := by
  obtain ⟨incoming, polls, position, taken⟩ := console
  obtain rfl : polls = 1 := hp
  obtain rfl : incoming = eof := hi
  rw [callBack, if_neg Nat.one_ne_zero]
  simp only [SynchDevice.assert_of, ok_bind, polled]
  cases input.key position look <;> rfl

theorem Inv.polling_of_callBack {result : Except SynchDevice.Stop (Device × Option Nat)}
    (h : Inv input s) (hd : callBack input s.device look = some result) :
    Quiet s ∧ s.device.incoming = eof ∧ s.device.taken.length = s.device.position ∧
      polled input s.device look = result := by
  have hp : s.device.polls ≠ 0 := by
    intro h0
    rw [callBack, if_pos h0] at hd
    cases hd
  cases h.phase with
  | buffered _ h0 | atEnd _ h0 | ended _ h0 => exact absurd h0 hp
  | polling hq h1 hi hl =>
    rw [callBack_eq_polled h1 hi] at hd
    exact ⟨hq, hi, hl, Option.some.inj hd⟩

theorem Inv.interrupt {device : Device} (h : Inv input s)
    (hd : callBack input s.device look = some (.ok (device, none))) :
    Inv input { s with device } := by
  obtain ⟨-, -, -, he⟩ := h.polling_of_callBack hd
  unfold polled at he
  split at he
  · cases he
    exact h
  all_goals cases he

theorem Inv.signal {device : Device} {signal : Nat} (h : Inv input s)
    (hd : callBack input s.device look = some (.ok (device, some signal))) :
    Inv input { s with
      device, waitFor := s.waitFor.v.1, signals := s.signals ++ [signal] } := by
  obtain ⟨⟨hv, hn⟩, hi, hl, he⟩ := h.polling_of_callBack hd
  have hsignalled : ∀ device : Device, Signalled { s with
      device, waitFor := s.waitFor.v.1, signals := s.signals ++ [signal] } :=
    fun _ => .waits (by show s.waitFor.value + 1 = 1; rw [hv]) hn
  unfold polled Input.key at he
  cases look with
  | nothing => cases he
  | failed => cases he
  | ready =>
    cases hb : input.bytes s.device.position with
    | none =>
      rw [hb] at he
      cases he
      exact ⟨h.inOrder, h.ready, .atEnd (hsignalled _) rfl hi hl hb⟩
    | some c =>
      rw [hb] at he
      cases he
      exact ⟨h.inOrder, h.ready, .buffered (hsignalled _) rfl (by rw [hl]) (by rw [hl]; exact hb)⟩

theorem Inv.step (hr : Reachable (interface input) new s) (h : Inv input s)
    (hs : Stepped (interface input) s s') : Inv input s' := by
  cases hs with
  | lockAsleep | asleep => exact h.same h.ready rfl rfl fun _ => Iff.rfl
  | notHeld => exact h.same nofun rfl rfl fun _ => Iff.rfl
  | refused _ hd => cases hd
  | call ht | lockTaken ht | lockFreed ht | released ht | acquired ht =>
    exact h.same h.ready rfl rfl (aboutToTake_goto rfl (by rw [AboutToTake, ht]; nofun) nofun)
  | performed ht hd =>
    cases hd
    rcases inside_cases hr ht with he | he | he
    · cases he
    · cases he
      exact h.take hr ht
    · cases he
  | woken ht hv =>
    rcases inside_cases hr ht with he | he | he
    · cases he
      exact h.wake _ hv
    · cases he
    · cases he
  | interrupted hd => exact h.interrupt hd
  | signalled hd => exact h.signal hd
  | failed hd =>
    obtain ⟨-, -, -, he⟩ := h.polling_of_callBack hd
    refine h.same ?_ rfl rfl fun _ => Iff.rfl
    rintro ⟨⟩
    unfold polled at he
    split at he <;> cases he

theorem Reachable.inv (h : Reachable (interface input) new s) : Inv input s :=
  h.invariant (.init input) fun _ _ hr hi hs => hi.step hr hs

/-! ### The inputs whose readers are fed -/

theorem Inv.fed (h : Inv input s) (hc : ∀ i, input.bytes i = some eof → input.bytes (i + 1) = none) :
    Fed input s where
  inOrder := h.inOrder
  ready := h.ready
  alive hne := by
    cases h.phase with
    | polling _ hp => exact .inr hp
    | buffered hs _ hl hb =>
      refine .inl ⟨hl, hb, ?_⟩
      cases hs with
      | waits hv => exact .inl hv
      | taken t ht => exact .inr ⟨t, ht⟩
    | atEnd _ _ _ hl hb => exact absurd (hl ▸ hb) hne
    | ended _ _ _ hl =>
      obtain ⟨n, hn, hb⟩ := hl
      rw [hn] at hne
      exact absurd (hb.elim (input.ends n) (hc n)) hne

structure Idle (n : Nat) (s : State Device Unit Unit) : Prop where
  stopped : s.stopped = none
  lock : s.lock = ⟨1, []⟩
  waitFor : s.waitFor = ⟨0, []⟩
  place : s.place 0 = .outside
  incoming : s.device.incoming = eof
  polls : s.device.polls = 1
  position : s.device.position = n
  length : s.device.taken.length = n

def round : List (Event Unit Look) :=
  [.interrupt .ready, .call 0 (), .go 0 true, .go 0 true, .go 0 true, .go 0 true, .go 0 true,
    .go 0 true]

theorem Idle.round {n : Nat} {ch : Byte} (h : Idle n s) (hb : input.bytes n = some ch) :
    ∃ s', runChecked (SynchDevice.step (interface input)) (fun _ _ => true) s round = some s' ∧
      s'.stopped = none ∧ s'.lock = ⟨1, []⟩ ∧ s'.waitFor = ⟨0, []⟩ ∧ s'.place 0 = .outside ∧
      s'.device = getChar { s.device with polls := 0, incoming := ch, position := n + 1 } 0 := by
  obtain ⟨⟨incoming, polls, position, taken⟩, lock, lockHolder, waitFor, place, stopped, acquisitions,
    performed, signals, woken⟩ := s
  obtain ⟨hst, hlk, hwf, hpl, hin, hpo, hps, hln⟩ := h
  simp only at hst hlk hwf hpl hin hpo hps hln
  subst hst hlk hwf hin hpo hps
  simp [ConsoleInput.round, runChecked, SynchDevice.step, next, State.callBack, interface,
    callBack_eq_polled, polled, Input.key, hb, hpl, State.go, State.goto, State.acquire, State.acquired,
    State.wait, State.request, State.release, Semaphore.p, Semaphore.v, SynchDevice.assert, body]

theorem Input.none_of_le {i j : Nat} (h : input.bytes i = none) (hij : i ≤ j) :
    input.bytes j = none := by
  induction hij with
  | refl => exact h
  | step _ ih => exact input.ends _ ih

theorem exists_idle {n : Nat} (h : ∀ j < n, ∃ ch, input.bytes j = some ch ∧ ch ≠ eof) :
    ∃ s, Reachable (interface input) new s ∧ Idle n s := by
  induction n with
  | zero => exact ⟨start new, .start, rfl, rfl, rfl, rfl, rfl, rfl, rfl, rfl⟩
  | succ n ih =>
    obtain ⟨s, hs, hidle⟩ := ih fun j hj => h j (hj.trans (Nat.lt_succ_self n))
    obtain ⟨ch, hb, hne⟩ := h n (Nat.lt_succ_self n)
    obtain ⟨s', hrun, hstopped, hlock, hwait, hplace, hdevice⟩ := hidle.round hb
    refine ⟨s', Runs.trans hs (runs_of_runChecked (fun _ _ _ => trivial) hrun), hstopped, hlock, hwait,
      hplace, ?_, ?_, ?_, ?_⟩
    · rw [hdevice]
      rfl
    · rw [hdevice, getChar, if_pos hne]
    · rw [hdevice]
      rfl
    · rw [hdevice]
      simp [getChar, hidle.length]

theorem exists_not_fed {i : Nat} (hb : input.bytes i = some eof) (hmore : input.bytes (i + 1) ≠ none) :
    ∃ s, Reachable (interface input) new s ∧ ¬ Fed input s := by
  classical
  have hex : ∃ i, input.bytes i = some eof := ⟨i, hb⟩
  obtain ⟨n, hn, hni, hmin⟩ : ∃ n, input.bytes n = some eof ∧ n ≤ i ∧
      ∀ j < n, input.bytes j ≠ some eof :=
    ⟨Nat.find hex, Nat.find_spec hex, Nat.find_min' hex hb, fun j hj => Nat.find_min hex hj⟩
  have hbefore : ∀ j < n, ∃ ch, input.bytes j = some ch ∧ ch ≠ eof := by
    intro j hj
    cases hj' : input.bytes j with
    | none => exact absurd ((Input.none_of_le hj' hj.le).symm.trans hn) nofun
    | some ch => exact ⟨ch, rfl, fun he => hmin j hj (he ▸ hj')⟩
  obtain ⟨s, hs, hidle⟩ := exists_idle hbefore
  obtain ⟨s', hrun, -, -, -, -, hdevice⟩ := hidle.round hn
  refine ⟨s', Runs.trans hs (runs_of_runChecked (fun _ _ _ => trivial) hrun), fun hfed => ?_⟩
  have hlen : s'.device.taken.length = n + 1 := by
    rw [hdevice]
    simp [getChar, hidle.length]
  have hpos : s'.device.position = n + 1 := by
    rw [hdevice]
    rfl
  have hpolls : s'.device.polls = 0 := by
    rw [hdevice, getChar, if_neg (not_not.2 rfl)]
  -- everything read was taken, and nothing is scheduled
  have halive := hfed.alive (by
    rw [hlen]
    exact fun hnone => hmore (Input.none_of_le hnone (Nat.succ_le_succ hni)))
  rw [hlen, hpos, hpolls] at halive
  rcases halive with ⟨hc, -⟩ | hc
  · omega
  · omega

/-- **The keyboard.** The readers are fed in every run of any threads exactly when the byte of `EOF` is
the last one of the input, if it is one at all. -/
theorem fed_iff (input : Input) : (∀ s, Reachable (interface input) new s → Fed input s) ↔
    ∀ i, input.bytes i = some eof → input.bytes (i + 1) = none := by
  constructor
  · intro h i hb
    by_contra hmore
    obtain ⟨s, hs, hn⟩ := exists_not_fed hb hmore
    exact hn (h s hs)
  · intro hc s hs
    exact (Reachable.inv hs).fed hc

def Input.ofList (l : List Byte) : Input where
  bytes i := l[i]?
  ends i h := List.getElem?_eq_none ((List.getElem?_eq_none_iff.1 h).trans (Nat.le_succ i))

/-- The second byte is never read. -/
theorem eof_byte_not_fed : ∃ s, Reachable (interface (.ofList [255, 65])) new s ∧
    ¬ Fed (.ofList [255, 65]) s :=
  exists_not_fed (show (Input.ofList [255, 65]).bytes 0 = some eof from rfl) nofun

end ConsoleInput

end Nachos
