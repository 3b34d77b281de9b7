import Nachos.Base.Except
import Nachos.Threads.SynchDevice

/-!
# Synchronous access to a device: what holds of every device

* `Stepped`: what a step does.
* `Locked`: one thread at a time is between `Acquire` and `Release`, and it is the lock's holder.
* `Reachable.operations_eq`: the device does the operations of the calls one call after the other, in
  the order in which the calls took the lock.
* `Served`, for a device that is busy until its interrupt (`Busy`) and calls that wait after every
  operation (`Synchronous`): the device is never asked when it is busy, and a thread goes on with the
  signal of its own operation.
-/

namespace Nachos.SynchDevice

open Base

variable {δ ω κ ι : Type} {f : Interface δ ω κ ι} {d : δ} {s s' : State δ ω κ} {t u : Tid}
    {c : Prop} {body : List (Action ω)}

/-! ## Steps -/

inductive Stepped (f : Interface δ ω κ ι) (s : State δ ω κ) : State δ ω κ → Prop
  | call {t : Tid} {call : κ} (ht : s.place t = .outside) : Stepped f s (s.goto t (.acquire call))
  | lockAsleep {queue : List Tid} :
      Stepped f s { s with lock := { s.lock with queue } }
  | lockTaken {t : Tid} {call : κ} (ht : s.place t = .acquire call) (hv : s.lock.value ≠ 0) :
      Stepped f s ({ s with lock := s.lock.decrement }.goto t
        (.acquired call))
  | acquired {t : Tid} {call : κ} (ht : s.place t = .acquired call) :
      Stepped f s (s.acquired f t call)
  | performed {t : Tid} {op : ω} {hostOk : Bool} {body : List (Action ω)} {device : δ}
      (ht : s.place t = .inside (.device op :: body))
      (hd : f.request s.device t op hostOk = .ok device) :
      Stepped f s ({ s with device, performed := s.performed ++ [(t, op)] }.goto t (.inside body))
  | refused {t : Tid} {op : ω} {hostOk : Bool} {body : List (Action ω)} {stop : Stop}
      (ht : s.place t = .inside (.device op :: body))
      (hd : f.request s.device t op hostOk = .error stop) :
      Stepped f s { s with stopped := some stop }
  | asleep {queue : List Tid} :
      Stepped f s { s with waitFor := { s.waitFor with queue } }
  | woken {t : Tid} {body : List (Action ω)} (ht : s.place t = .inside (.wait :: body))
      (hv : s.waitFor.value ≠ 0) :
      Stepped f s ({ s with
        waitFor := s.waitFor.decrement
        signals := s.signals.tail
        woken := s.woken ++ s.signals.head?.toList.map (t, ·) }.goto t (.inside body))
  | released {t : Tid} (ht : s.place t = .inside []) (hl : s.lockHolder = some t) :
      Stepped f s ({ s with lockHolder := none }.goto t .release)
  | notHeld {t : Tid} (ht : s.place t = .inside []) (hl : s.lockHolder ≠ some t) :
      Stepped f s { s with stopped := some .isHeldByCurrentThread }
  | lockFreed {t : Tid} (ht : s.place t = .release) :
      Stepped f s ({ s with lock := s.lock.v.1 }.goto t .outside)
  | interrupted {i : ι} {device : δ} (hd : f.callBack s.device i = some (.ok (device, none))) :
      Stepped f s { s with device }
  | signalled {i : ι} {device : δ} {signal : Nat}
      (hd : f.callBack s.device i = some (.ok (device, some signal))) :
      Stepped f s { s with
        device, waitFor := s.waitFor.v.1, signals := s.signals ++ [signal] }
  | failed {i : ι} {stop : Stop} (hd : f.callBack s.device i = some (.error stop)) :
      Stepped f s { s with stopped := some stop }

theorem p_asleep {sem : Semaphore Nat} (h : sem.value = 0) (t : Tid) :
    sem.p t = (sem.append t, false) := if_pos h

theorem p_taken {sem : Semaphore Nat} (h : sem.value ≠ 0) (t : Tid) :
    sem.p t = (sem.decrement, true) := if_neg h

theorem assert_of [Decidable c] (h : c) (stop : Stop) : assert c stop = .ok () := if_pos h

theorem assert_not [Decidable c] (h : ¬ c) (stop : Stop) : assert c stop = .error stop := if_neg h

theorem assert_ok [Decidable c] {stop : Stop} {u : Unit} (h : assert c stop = .ok u) : c := by
  by_contra hc
  rw [assert_not hc] at h
  cases h

theorem acquire_stepped {call : κ} (ht : s.place t = .acquire call) :
    Stepped f s (s.acquire t call) := by
  unfold State.acquire
  by_cases hv : s.lock.value = 0
  · rw [p_asleep hv]
    exact .lockAsleep
  · rw [p_taken hv]
    exact .lockTaken ht hv

theorem wait_stepped (ht : s.place t = .inside (.wait :: body)) : Stepped f s (s.wait t body) := by
  unfold State.wait
  by_cases hv : s.waitFor.value = 0
  · rw [p_asleep hv]
    exact .asleep
  · rw [p_taken hv]
    exact .woken ht hv

def after (s : State δ ω κ) : Except Stop (State δ ω κ) → State δ ω κ
  | .ok s' => s'
  | .error stop => { s with stopped := some stop }

theorem request_stepped {op : ω} {hostOk : Bool} (ht : s.place t = .inside (.device op :: body)) :
    Stepped f s (after s (s.request f t op hostOk body)) := by
  unfold State.request
  cases hd : f.request s.device t op hostOk with
  | ok device => exact .performed ht hd
  | error stop => exact .refused ht hd

theorem release_stepped (ht : s.place t = .inside []) : Stepped f s (after s (s.release t)) := by
  unfold State.release
  by_cases hl : s.lockHolder = some t
  · rw [assert_of hl]
    exact .released ht hl
  · rw [assert_not hl]
    exact .notHeld ht hl

theorem go_stepped {hostOk : Bool} {result : Except Stop (State δ ω κ)}
    (h : s.go f t hostOk = some result) : Stepped f s (after s result) := by
  unfold State.go at h
  split at h
  · cases h
  · obtain ⟨-, h⟩ := Option.ite_none_left_eq_some.1 h
    cases h
    exact acquire_stepped ‹_›
  · cases h
    exact .acquired ‹_›
  · cases h
    exact release_stepped ‹_›
  · cases h
    exact request_stepped ‹_›
  · obtain ⟨-, h⟩ := Option.ite_none_left_eq_some.1 h
    cases h
    exact wait_stepped ‹_›
  · cases h
    exact .lockFreed ‹_›

theorem callBack_stepped {i : ι} {result : Except Stop (State δ ω κ)}
    (h : s.callBack f i = some result) : Stepped f s (after s result) := by
  unfold State.callBack at h
  obtain ⟨called, hd, rfl⟩ := Option.map_eq_some_iff.1 h
  match called, hd with
  | .ok (device, none), hd => exact .interrupted hd
  | .ok (device, some signal), hd => exact .signalled hd
  | .error stop, hd => exact .failed hd

theorem step_stepped {event : Event κ ι} (h : step f s event = some s') : Stepped f s s' := by
  unfold step at h
  obtain ⟨-, h⟩ := Option.ite_none_left_eq_some.1 h
  obtain ⟨result, hn, rfl⟩ := Option.map_eq_some_iff.1 h
  change Stepped f s (after s result)
  cases event with
  | call t call =>
    rw [next] at hn
    split at hn
    · cases hn
      exact .call ‹_›
    · cases hn
  | go t hostOk => exact go_stepped hn
  | interrupt i => exact callBack_stepped hn

theorem Reachable.invariant {I : State δ ω κ → Prop} (h : Reachable f d s) (h0 : I (start d))
    (hstep : ∀ s s', Reachable f d s → I s → Stepped f s s' → I s') : I s := by
  refine (Runs.invariant (I := fun s => Reachable f d s ∧ I s) h ⟨.start, h0⟩ ?_).2
  intro s event s' hi _ hs
  exact ⟨.step hi.1 trivial hs, hstep s s' hi.1 hi.2 (step_stepped hs)⟩

/-! ## The lock -/

def Place.holds : Place κ ω → Prop
  | .acquired _ | .inside _ | .release => True
  | .outside | .acquire _ => False

def Action.op? : Action ω → Option ω
  | .device op => some op
  | .wait => none

def operations (t : Tid) (body : List (Action ω)) : List (Tid × ω) :=
  (body.filterMap Action.op?).map (t, ·)

def State.toDo (s : State δ ω κ) : List (Tid × ω) :=
  match s.lockHolder with
  | none => []
  | some t =>
    match s.place t with
    | .inside body => operations t body
    | _ => []

structure Locked (f : Interface δ ω κ ι) (s : State δ ω κ) : Prop where
  exclusive : Exclusive (fun t => (s.place t).holds) s.lock.value
  holder : ∀ t, s.lockHolder = some t ↔ ∃ body, s.place t = .inside body
  order : s.acquisitions.flatMap (fun a => operations a.1 (f.body a.2)) = s.performed ++ s.toDo

@[simp] theorem goto_same (s : State δ ω κ) (t : Tid) (place : Place κ ω) :
    (s.goto t place).place t = place := Function.update_self ..

theorem goto_ne (h : u ≠ t) (place : Place κ ω) : (s.goto t place).place u = s.place u :=
  Function.update_of_ne h ..

theorem operations_device (t : Tid) (op : ω) (body : List (Action ω)) :
    operations t (.device op :: body) = (t, op) :: operations t body := rfl

theorem operations_wait (t : Tid) (body : List (Action ω)) :
    operations t (.wait :: body) = operations t body := rfl

theorem exclusive_goto {value : Nat} {place : Place κ ω} (hp : place.holds ↔ (s.place t).holds)
    (h : Exclusive (fun t => (s.place t).holds) value) :
    Exclusive (fun u => ((s.goto t place).place u).holds) value := by
  refine h.congr fun u => ?_
  rcases eq_or_ne u t with rfl | hu
  · rw [goto_same, hp]
  · rw [goto_ne hu]

namespace Locked

theorem init (f : Interface δ ω κ ι) (d : δ) : Locked f (start d) where
  exclusive := .free fun _ => id
  holder _ := ⟨nofun, nofun⟩
  order := rfl

variable {body : List (Action ω)}

theorem unique {body' : List (Action ω)} (h : Locked f s) (ht : s.place t = .inside body)
    (hu : s.place u = .inside body') : t = u :=
  h.exclusive.unique (by rw [ht]; trivial) (by rw [hu]; trivial)

theorem toDo_eq (h : Locked f s) (ht : s.place t = .inside body) : s.toDo = operations t body := by
  simp only [State.toDo, (h.holder t).2 ⟨body, ht⟩, ht]

theorem toDo_congr (h : Locked f s) (hl : s'.lockHolder = s.lockHolder)
    (hp : ∀ u body, s.place u = .inside body → s'.place u = s.place u) : s'.toDo = s.toDo := by
  unfold State.toDo
  rw [hl]
  cases hs : s.lockHolder with
  | none => rfl
  | some u =>
    obtain ⟨body, hu⟩ := (h.holder u).1 hs
    simp only [hp u body hu]

theorem same (h : Locked f s) (hp : s'.place = s.place) (hv : s'.lock.value = s.lock.value)
    (hl : s'.lockHolder = s.lockHolder) (ha : s'.acquisitions = s.acquisitions)
    (hd : s'.performed = s.performed) : Locked f s' where
  exclusive := by rw [hp, hv]; exact h.exclusive
  holder := by rw [hp, hl]; exact h.holder
  order := by rw [ha, hd, h.toDo_congr hl fun u _ _ => by rw [hp], h.order]

theorem move {place : Place κ ω} {s1 : State δ ω κ} (h : Locked f s)
    (hout : ∀ body, s.place t ≠ .inside body) (hin : ∀ body, place ≠ .inside body)
    (hp : s1.place = s.place) (hl : s1.lockHolder = s.lockHolder)
    (ha : s1.acquisitions = s.acquisitions) (hd : s1.performed = s.performed)
    (hex : Exclusive (fun u => ((s1.goto t place).place u).holds) s1.lock.value) :
    Locked f (s1.goto t place) where
  exclusive := hex
  holder u := by
    show s1.lockHolder = some u ↔ _
    rw [hl, h.holder]
    rcases eq_or_ne u t with rfl | hu
    · rw [goto_same]
      exact ⟨fun ⟨body, hb⟩ => absurd hb (hout body), fun ⟨body, hb⟩ => absurd hb (hin body)⟩
    · rw [goto_ne hu, hp]
  order := by
    have htodo : (s1.goto t place).toDo = s.toDo := h.toDo_congr hl fun u body hu => by
      have hne : u ≠ t := fun e => hout body (e ▸ hu)
      rw [goto_ne hne, hp]
    show s1.acquisitions.flatMap _ = s1.performed ++ _
    rw [ha, hd, htodo, h.order]

theorem inside {body' : List (Action ω)} {s1 : State δ ω κ} {ops : List (Tid × ω)}
    (h : Locked f s) (ht : s.place t = .inside body) (hp : s1.place = s.place)
    (hv : s1.lock = s.lock) (hl : s1.lockHolder = s.lockHolder)
    (ha : s1.acquisitions = s.acquisitions) (hd : s1.performed = s.performed ++ ops)
    (hops : operations t body = ops ++ operations t body') :
    Locked f (s1.goto t (.inside body')) := by
  have hholder : ∀ u, (s1.goto t (.inside body')).lockHolder = some u ↔
      ∃ b, (s1.goto t (.inside body')).place u = .inside b := by
    intro u
    show s1.lockHolder = some u ↔ _
    rw [hl, h.holder]
    rcases eq_or_ne u t with rfl | hu
    · rw [goto_same]
      exact ⟨fun _ => ⟨body', rfl⟩, fun _ => ⟨body, ht⟩⟩
    · rw [goto_ne hu, hp]
  refine ⟨?_, hholder, ?_⟩
  · refine exclusive_goto (s := s1) ?_ ?_
    · rw [hp, ht]
      exact Iff.rfl
    · show Exclusive _ s1.lock.value
      rw [hp, hv]
      exact h.exclusive
  · have htodo : (s1.goto t (.inside body')).toDo = operations t body' := by
      simp only [State.toDo, (hholder t).2 ⟨body', goto_same ..⟩, goto_same]
    show s1.acquisitions.flatMap _ = s1.performed ++ _
    rw [ha, hd, htodo, h.order, h.toDo_eq ht, hops, List.append_assoc]

theorem step (h : Locked f s) (hs : Stepped f s s') : Locked f s' := by
  cases hs with
  | lockAsleep | refused | asleep | notHeld | interrupted | signalled | failed =>
    exact h.same rfl rfl rfl rfl rfl
  | call ht =>
    refine h.move (by rw [ht]; nofun) nofun rfl rfl rfl rfl (exclusive_goto ?_ h.exclusive)
    rw [ht]
    exact Iff.rfl
  | @lockTaken t call ht hv =>
    refine h.move (by rw [ht]; nofun) nofun rfl rfl rfl rfl (h.exclusive.take (t := t) hv fun u => ?_)
    rcases eq_or_ne u t with rfl | hu
    · simp [Place.holds]
    · rw [goto_ne hu]
      simp [hu]
  | @lockFreed t ht =>
    refine h.move (by rw [ht]; nofun) nofun rfl rfl rfl rfl
      (h.exclusive.give (t := t) (by rw [ht]; trivial) fun u => ?_)
    rcases eq_or_ne u t with rfl | hu
    · simp [Place.holds]
    · rw [goto_ne hu]
      simp [hu]
  | @acquired t call ht =>
    -- the thread has the lock, so no other one is inside
    have hnone : ∀ u body, s.place u ≠ .inside body := by
      intro u body hu
      have e := h.exclusive.unique (t := t) (u := u) (by rw [ht]; trivial) (by rw [hu]; trivial)
      rw [← e, ht] at hu
      cases hu
    have hholder : s.lockHolder = none := by
      cases hl : s.lockHolder with
      | none => rfl
      | some u =>
        obtain ⟨body, hu⟩ := (h.holder u).1 hl
        exact absurd hu (hnone u body)
    refine ⟨exclusive_goto (by rw [ht]; exact Iff.rfl) h.exclusive, fun u => ?_, ?_⟩
    · show some t = some u ↔ ∃ body, ((s.goto t _).place u) = _
      rcases eq_or_ne u t with rfl | hu
      · simp
      · rw [goto_ne hu]
        exact ⟨fun e => absurd (Option.some.inj e).symm hu, fun ⟨body, hb⟩ => absurd hb (hnone u body)⟩
    · have hbefore : s.toDo = [] := by simp only [State.toDo, hholder]
      have hafter : (s.acquired f t call).toDo = operations t (f.body call) := by
        simp [State.toDo, State.acquired, State.goto]
      show (s.acquisitions ++ [(t, call)]).flatMap _ = s.performed ++ _
      rw [List.flatMap_append, h.order, hbefore, hafter, List.append_nil]
      simp
  | performed ht _ =>
    exact h.inside ht rfl rfl rfl rfl rfl (operations_device ..)
  | woken ht hv =>
    exact h.inside ht rfl rfl rfl rfl (List.append_nil _).symm (operations_wait ..)
  | @released t ht hl =>
    refine ⟨exclusive_goto (s := { s with lockHolder := none }) (by rw [ht]; exact Iff.rfl) h.exclusive,
      fun u => ⟨nofun, ?_⟩, ?_⟩
    · rintro ⟨body, hu⟩
      rcases eq_or_ne u t with rfl | hne
      · rw [goto_same] at hu
        cases hu
      · rw [goto_ne hne] at hu
        exact absurd (h.unique hu ht) hne
    · show s.acquisitions.flatMap _ = s.performed ++ []
      rw [h.order, h.toDo_eq ht]
      rfl

end Locked

theorem Reachable.locked (h : Reachable f d s) : Locked f s :=
  h.invariant (Locked.init f d) fun _ _ _ hl hs => hl.step hs

theorem Reachable.isSuffix (h : Reachable f d s)
    (ht : s.place t = .inside body) : ∃ call, body <:+ f.body call := by
  refine h.invariant (I := fun s => ∀ t body, s.place t = .inside body → ∃ call, body <:+ f.body call)
    nofun (fun s s' _ hi hs => ?_) t body ht
  -- one thread moves
  have hgoto : ∀ (s1 : State δ ω κ) (t : Tid) (place : Place κ ω), s1.place = s.place →
      (∀ body, place = .inside body → ∃ call, body <:+ f.body call) →
      ∀ u body, (s1.goto t place).place u = .inside body → ∃ call, body <:+ f.body call := by
    intro s1 t place hp hnew u body hu
    rcases eq_or_ne u t with rfl | hut
    · exact hnew body (goto_same s1 u place ▸ hu)
    · rw [goto_ne hut, hp] at hu
      exact hi u body hu
  have hrest : ∀ {t a body}, s.place t = .inside (a :: body) →
      ∀ b, Place.inside (κ := κ) body = .inside b → ∃ call, b <:+ f.body call := by
    rintro t a body ht b ⟨⟩
    obtain ⟨call, hc⟩ := hi t _ ht
    exact ⟨call, (List.suffix_cons a body).trans hc⟩
  cases hs with
  | lockAsleep | refused | asleep | notHeld | interrupted | signalled | failed => exact hi
  | call | lockTaken | released | lockFreed => exact hgoto _ _ _ rfl nofun
  | @acquired t call ht =>
    refine hgoto _ _ _ rfl ?_
    rintro body ⟨⟩
    exact ⟨call, List.suffix_rfl⟩
  | performed ht _ | woken ht _ => exact hgoto _ _ _ rfl (hrest ht)

/-- **The order of the operations.** The device has done the operations of the calls that took the lock,
one call after the other and in that order, but for those that the last one has still to do. -/
theorem Reachable.operations_eq (h : Reachable f d s) :
    s.acquisitions.flatMap (fun a => operations a.1 (f.body a.2)) = s.performed ++ s.toDo :=
  h.locked.order

/-! ## Devices that are busy until their interrupt -/

inductive Paired : List (Action ω) → Prop
  | nil : Paired []
  | cons {op : ω} {body : List (Action ω)} : Paired body → Paired (.device op :: .wait :: body)

structure Synchronous {ε : Type} (f : Interface (Busy ε) ω κ Nat) : Prop where
  request : ∀ d t op hostOk, ∃ work, work ≠ .error .notReady ∧
    f.request d t op hostOk = d.perform work
  callBack : ∀ d i, f.callBack d i = d.callBack i
  body : ∀ call, Paired (f.body call)

section

variable {ε : Type} {f : Interface (Busy ε) ω κ Nat} {s s' : State (Busy ε) ω κ} {data : ε}

inductive Phase (s : State (Busy ε) ω κ) : Prop
  | idle (hb : s.device.busy = false) (hp : s.device.pending = []) (hs : s.signals = [])
      (hv : s.waitFor.value = 0) (hw : ∀ t body, s.place t ≠ .inside (.wait :: body))
  /-- the last operation is not completed, and its thread will wait -/
  | running {t : Tid} {body : List (Action ω)} {op : ω} {r : Nat}
      (ht : s.place t = .inside (.wait :: body)) (hr : s.performed.length = r + 1)
      (ho : s.performed[r]? = some (t, op)) (hb : s.device.busy = true)
      (hp : s.device.pending = [r]) (hs : s.signals = []) (hv : s.waitFor.value = 0)
  /-- it is completed, and the signal waits for its thread -/
  | done {t : Tid} {body : List (Action ω)} {op : ω} {r : Nat}
      (ht : s.place t = .inside (.wait :: body)) (hr : s.performed.length = r + 1)
      (ho : s.performed[r]? = some (t, op)) (hb : s.device.busy = false)
      (hp : s.device.pending = []) (hc : r ∈ s.device.completed) (hs : s.signals = [r])
      (hv : s.waitFor.value = 1)

structure Served (s : State (Busy ε) ω κ) : Prop where
  ready : s.stopped ≠ some .notReady
  count : s.device.operations = s.performed.length
  paired : ∀ t body, s.place t = .inside body →
    Paired body ∨ ∃ rest, body = .wait :: rest ∧ Paired rest
  phase : Phase s
  /-- who was woken was so by the interrupt of an operation of its own -/
  own : ∀ w ∈ s.woken, w.2 ∈ s.device.completed ∧ ∃ op, s.performed[w.2]? = some (w.1, op)
  /-- who has done an operation was woken by its interrupt, or waits for it -/
  woken : ∀ r t op, s.performed[r]? = some (t, op) →
    (t, r) ∈ s.woken ∨ r + 1 = s.performed.length ∧ ∃ body, s.place t = .inside (.wait :: body)

theorem Served.init (data : ε) : Served (start (.new data) : State (Busy ε) ω κ) where
  ready := nofun
  count := rfl
  paired := nofun
  phase := .idle rfl rfl rfl rfl nofun
  own := nofun
  woken := nofun

theorem Paired.ne_wait {body rest : List (Action ω)} (h : Paired body) : body ≠ .wait :: rest := by
  rintro rfl
  cases h

namespace Served

theorem same (h : Served s) (hready : s'.stopped ≠ some .notReady) (hp : s'.place = s.place)
    (hd : s'.device = s.device) (hv : s'.waitFor.value = s.waitFor.value)
    (hs : s'.signals = s.signals) (hw : s'.woken = s.woken) (ho : s'.performed = s.performed) :
    Served s' where
  ready := hready
  count := by rw [hd, ho, h.count]
  paired := by rw [hp]; exact h.paired
  phase := by
    cases h.phase with
    | idle hb hp' hs' hv' hw' =>
      exact .idle (hd ▸ hb) (hd ▸ hp') (hs ▸ hs') (hv ▸ hv') (hp ▸ hw')
    | running ht hr hop hb hp' hs' hv' =>
      exact .running (hp ▸ ht) (ho ▸ hr) (ho ▸ hop) (hd ▸ hb) (hd ▸ hp') (hs ▸ hs') (hv ▸ hv')
    | done ht hr hop hb hp' hc hs' hv' =>
      exact .done (hp ▸ ht) (ho ▸ hr) (ho ▸ hop) (hd ▸ hb) (hd ▸ hp') (hd ▸ hc) (hs ▸ hs') (hv ▸ hv')
  own := by rw [hw, hd, ho]; exact h.own
  woken := by rw [hw, hp, ho]; exact h.woken

theorem move {place : Place κ ω} (h : Served s) (hold : ∀ body, s.place t ≠ .inside (.wait :: body))
    (hnew : ∀ body, place = .inside body → Paired body) : Served (s.goto t place) := by
  have hkeep : ∀ {u body}, s.place u = .inside (.wait :: body) →
      (s.goto t place).place u = .inside (.wait :: body) := by
    intro u body hu
    have hne : u ≠ t := fun e => hold body (e ▸ hu)
    rw [goto_ne hne, hu]
  refine ⟨h.ready, h.count, fun u body hu => ?_, ?_, h.own, fun r u op ho => ?_⟩
  · rcases eq_or_ne u t with rfl | hut
    · rw [goto_same] at hu
      exact .inl (hnew body hu)
    · rw [goto_ne hut] at hu
      exact h.paired u body hu
  · cases h.phase with
    | idle hb hp hs hv hw =>
      refine .idle hb hp hs hv fun u body hu => ?_
      rcases eq_or_ne u t with rfl | hut
      · rw [goto_same] at hu
        exact (hnew _ hu).ne_wait rfl
      · rw [goto_ne hut] at hu
        exact hw u body hu
    | running ht hr ho hb hp hs hv => exact .running (hkeep ht) hr ho hb hp hs hv
    | done ht hr ho hb hp hc hs hv => exact .done (hkeep ht) hr ho hb hp hc hs hv
  · rcases h.woken r u op ho with hw | ⟨hr, body, hu⟩
    · exact .inl hw
    · exact .inr ⟨hr, body, hkeep hu⟩

theorem idle_of_device {op : ω} {body : List (Action ω)} (h : Served s) (hl : Locked f s)
    (ht : s.place t = .inside (.device op :: body)) :
    s.device.busy = false ∧ s.device.pending = [] ∧ s.signals = [] ∧ s.waitFor.value = 0 ∧
      ∀ u rest, s.place u ≠ .inside (.wait :: rest) := by
  have hother : ∀ {u rest}, s.place u ≠ .inside (.wait :: rest) := by
    intro u rest hu
    rw [hl.unique ht hu, hu] at ht
    cases ht
  cases h.phase with
  | idle hb hp hs hv hw => exact ⟨hb, hp, hs, hv, hw⟩
  | running hu | done hu => exact absurd hu hother

end Served

theorem Busy.perform_ok {d d' : Busy ε} {work : Except Stop ε} (h : d.perform work = .ok d') :
    work = .ok d'.data := by
  obtain ⟨_, -, h⟩ := bind_ok h
  obtain ⟨data, hw, h⟩ := bind_ok h
  cases h
  exact hw

theorem Busy.perform_idle {d : Busy ε} {work : Except Stop ε} (h : d.busy = false) :
    d.perform work = work.map fun data =>
      { d with
        busy := true
        pending := d.pending ++ [d.operations]
        operations := d.operations + 1
        data } := by
  unfold Busy.perform
  rw [assert_of h, ok_bind]
  cases work <;> rfl

namespace Served

theorem perform {op : ω} {body : List (Action ω)} {hostOk : Bool} {device : Busy ε}
    (h : Served s) (hl : Locked f s) (hf : Synchronous f)
    (ht : s.place t = .inside (.device op :: body))
    (hd : f.request s.device t op hostOk = .ok device) :
    Served ({ s with device, performed := s.performed ++ [(t, op)] }.goto t (.inside body)) := by
  obtain ⟨hb, hp, hs, hv, hw⟩ := h.idle_of_device hl ht
  obtain ⟨work, -, hreq⟩ := hf.request s.device t op hostOk
  rw [hreq, Busy.perform_idle hb] at hd
  cases work with
  | error stop => cases hd
  | ok data =>
  cases hd
  obtain ⟨rest, rfl, hrest⟩ : ∃ rest, body = .wait :: rest ∧ Paired rest := by
    rcases h.paired t _ ht with hpair | ⟨rest, hbad, -⟩
    · cases hpair with
      | cons hrest => exact ⟨_, rfl, hrest⟩
    · cases hbad
  have hlen : (s.performed ++ [(t, op)]).length = s.performed.length + 1 := by simp
  refine ⟨h.ready, ?_, fun u body hu => ?_, ?_, fun w hw' => ?_, fun r u op' ho => ?_⟩
  · show s.device.operations + 1 = (s.performed ++ [(t, op)]).length
    rw [hlen, h.count]
  · rcases eq_or_ne u t with rfl | hut
    · rw [goto_same] at hu
      cases hu
      exact .inr ⟨rest, rfl, hrest⟩
    · rw [goto_ne hut] at hu
      exact h.paired u body hu
  · have hpending : s.device.pending ++ [s.device.operations] = [s.performed.length] := by
      rw [hp, h.count, List.nil_append]
    exact .running (goto_same ..) hlen List.getElem?_concat_length rfl hpending hs hv
  · obtain ⟨hc, op', ho⟩ := h.own w hw'
    exact ⟨hc, op', by rw [← ho]; exact List.getElem?_append_left (List.getElem?_eq_some_iff.1 ho).1⟩
  · rcases Nat.lt_or_ge r s.performed.length with hr | hr
    · rw [show (State.goto _ t _).performed = s.performed ++ [(t, op)] from rfl,
        List.getElem?_append_left hr] at ho
      rcases h.woken r u op' ho with hin | ⟨-, body, hu⟩
      · exact .inl hin
      · exact absurd hu (hw u body)
    · obtain ⟨hlt, he⟩ := List.getElem?_eq_some_iff.1 ho
      have hlt' : r < s.performed.length + 1 := hlen ▸ hlt
      obtain rfl : r = s.performed.length := by omega
      have he' : (t, op) = (u, op') := Option.some.inj (List.getElem?_concat_length.symm.trans ho)
      cases he'
      exact .inr ⟨hlen.symm, rest, goto_same ..⟩

theorem wake {body : List (Action ω)} (h : Served s) (hl : Locked f s)
    (ht : s.place t = .inside (.wait :: body)) (hv : s.waitFor.value ≠ 0) :
    Served ({ s with
      waitFor := s.waitFor.decrement
      signals := s.signals.tail
      woken := s.woken ++ s.signals.head?.toList.map (t, ·) }.goto t (.inside body)) := by
  have hpair : Paired body := by
    rcases h.paired t _ ht with hpair | ⟨rest, he, hrest⟩
    · exact absurd rfl hpair.ne_wait
    · cases he
      exact hrest
  cases h.phase with
  | idle _ _ _ hv' _ => exact absurd hv' hv
  | running _ _ _ _ _ _ hv' => exact absurd hv' hv
  | @done u body' op r hu hr ho hb hp hc hs hv' =>
    obtain rfl := hl.unique ht hu
    have hwoken : s.signals.head?.toList.map (t, ·) = [(t, r)] := by rw [hs]; rfl
    refine ⟨h.ready, h.count, fun u b hu' => ?_, ?_, fun w hw => ?_, fun r' u op' ho' => ?_⟩
    · rcases eq_or_ne u t with rfl | hut
      · rw [goto_same] at hu'
        cases hu'
        exact .inl hpair
      · rw [goto_ne hut] at hu'
        exact h.paired u b hu'
    · refine .idle hb hp ?_ ?_ fun u b hu' => ?_
      · show s.signals.tail = []
        rw [hs]
        rfl
      · show s.waitFor.value - 1 = 0
        rw [hv']
      · rcases eq_or_ne u t with rfl | hut
        · rw [goto_same] at hu'
          cases hu'
          exact hpair.ne_wait rfl
        · rw [goto_ne hut] at hu'
          exact hut (hl.unique hu' ht)
    · rcases List.mem_append.1 hw with hw | hw
      · exact h.own w hw
      · rw [hwoken, List.mem_singleton] at hw
        exact hw ▸ ⟨hc, op, ho⟩
    · show (u, r') ∈ s.woken ++ _ ∨ _
      rw [hwoken]
      rcases h.woken r' u op' ho' with hin | ⟨hlast, b, hu'⟩
      · exact .inl (List.mem_append_left _ hin)
      · obtain rfl := hl.unique ht hu'
        obtain rfl : r' = r := by omega
        exact .inl (List.mem_append_right _ (List.mem_singleton.2 rfl))

theorem signal {i signal : Nat} {device : Busy ε} (h : Served s)
    (hd : s.device.callBack i = some (.ok (device, some signal))) :
    Served { s with device, waitFor := s.waitFor.v.1, signals := s.signals ++ [signal] } := by
  unfold Busy.callBack at hd
  split at hd
  · rename_i hi
    cases hd
    cases h.phase with
    | idle _ hp _ _ _ | done _ _ _ _ hp _ _ _ =>
      exact absurd hi (by rw [hp]; exact List.not_mem_nil)
    | @running u body op r hu hr ho hb hp hs hv =>
      obtain rfl : i = r := List.mem_singleton.1 (hp ▸ hi)
      refine ⟨h.ready, h.count, h.paired, ?_, fun w hw => ?_, h.woken⟩
      · refine .done hu hr ho rfl ?_ (List.mem_append_right _ (List.mem_singleton.2 rfl)) ?_ ?_
        · show s.device.pending.erase i = []
          rw [hp, List.erase_cons_head]
        · show s.signals ++ [i] = [i]
          rw [hs, List.nil_append]
        · show s.waitFor.value + 1 = 1
          rw [hv]
      · obtain ⟨hc, hop⟩ := h.own w hw
        exact ⟨List.mem_append_left _ hc, hop⟩
  · cases hd

theorem step (h : Served s) (hl : Locked f s) (hf : Synchronous f) (hs : Stepped f s s') :
    Served s' := by
  cases hs with
  | lockAsleep | asleep => exact h.same h.ready rfl rfl rfl rfl rfl rfl
  | notHeld => exact h.same nofun rfl rfl rfl rfl rfl rfl
  | @refused t op hostOk body stop ht hd =>
    refine h.same ?_ rfl rfl rfl rfl rfl rfl
    rintro ⟨⟩
    obtain ⟨hb, -⟩ := h.idle_of_device hl ht
    obtain ⟨work, hwork, hreq⟩ := hf.request s.device t op hostOk
    rw [hreq, Busy.perform_idle hb] at hd
    cases work with
    | ok data => cases hd
    | error stop =>
      cases hd
      exact hwork rfl
  | call ht => exact h.move (by rw [ht]; nofun) nofun
  | lockTaken ht hv | lockFreed ht | released ht hl =>
    refine move ?_ (by rw [ht]; nofun) nofun
    exact h.same h.ready rfl rfl rfl rfl rfl rfl
  | acquired ht =>
    refine move ?_ (by rw [ht]; nofun) ?_
    · exact h.same h.ready rfl rfl rfl rfl rfl rfl
    · rintro body ⟨⟩
      exact hf.body _
  | performed ht hd => exact h.perform hl hf ht hd
  | woken ht hv => exact h.wake hl ht hv
  | @interrupted i device hd | @failed i stop hd =>
    rw [hf.callBack, Busy.callBack] at hd
    split at hd <;> cases hd
  | signalled hd => exact h.signal (hf.callBack _ _ ▸ hd)

end Served

theorem Reachable.served (hf : Synchronous f) (h : Reachable f (.new data) s) : Served s :=
  h.invariant (.init data) fun _ _ hr hi hs => hi.step hr.locked hf hs

theorem Reachable.data_invariant {P : List (Tid × ω) → ε → Prop} (hf : Synchronous f)
    (h : Reachable f (.new data) s) (h0 : P [] data)
    (hstep : ∀ (d d' : Busy ε) log t op hostOk, d.operations = log.length → P log d.data →
      f.request d t op hostOk = .ok d' → P (log ++ [(t, op)]) d'.data) :
    P s.performed s.device.data := by
  refine h.invariant (I := fun s : State (Busy ε) ω κ => P s.performed s.device.data) h0
    fun s s' hr hi hs => ?_
  cases hs with
  | call | lockAsleep | lockTaken | acquired | refused | asleep | woken | released | notHeld
  | lockFreed | failed => exact hi
  | performed ht hd => exact hstep _ _ _ _ _ _ (Reachable.served hf hr).count hi hd
  | interrupted hd =>
    rw [hf.callBack, Busy.callBack] at hd
    split at hd <;> cases hd
  | signalled hd =>
    rw [hf.callBack, Busy.callBack] at hd
    split at hd
    · cases hd
      exact hi
    · cases hd

end

end Nachos.SynchDevice
