import Nachos.Threads.Proof.SynchList

/-!
# The calls of a synchronized list

What a thread has still to append (`appends`) and to return (`returns`), against the history of the list
(`Went`); and that a call of `Append` does not get stuck: as long as it has not returned, some thread in
the list can go on (`someone_goes`).
-/

namespace Nachos.SynchList

open Base

variable {α : Type}

namespace Frame

def append? : Frame α → Option α
  | .append item => some item
  | _ => none

def returned? : Frame α → Option α
  | .returned item => some item
  | _ => none

def appending : Frame α → Bool
  | .p .lock | .v _ | .acquired | .release | .signal | .append _ => true
  | _ => false

def final : Frame α → Bool
  | .whileEmpty | .removeFront | .returned _ => true
  | _ => false

end Frame

def Last : List (Frame α) → Prop
  | [] => True
  | f :: code => (f.final = true → code = []) ∧ Last code

def appends (code : List (Frame α)) : List α := code.filterMap Frame.append?

def returns (code : List (Frame α)) : List α := code.filterMap Frame.returned?

def removedBy (log : List (QueueOp Tid α)) (t : Tid) : List α := log.filterMap (QueueOp.removedBy? t)

variable {s s' : State α} {t u : Tid} {f : Frame α} {code : List (Frame α)}

/-! ## A step of a call -/

structure Went (s : State α) (t : Tid) (s' : State α) : Prop where
  others : ∀ u, u ≠ t → s'.code u = s.code u
  items : s'.items = s.items
  appended : appended s'.log ++ appends (s'.code t) = appended s.log ++ appends (s.code t)
  fewer : ∀ item ∈ appends (s'.code t), item ∈ appends (s.code t)
  removedOthers : ∀ u, u ≠ t → removedBy s'.log u = removedBy s.log u
  removed : (∀ item, (s.code t).head? ≠ some (.returned item)) →
    ∃ new, removedBy s'.log t = removedBy s.log t ++ new ∧
      returns (s'.code t) = returns (s.code t) ++ new
  returned : ∀ item, (s.code t).head? = some (.returned item) →
    s'.code t = (s.code t).tail ∧ removedBy s'.log t = removedBy s.log t
  appending : (s.code t).all Frame.appending = true → (s'.code t).all Frame.appending = true
  last : Last (s.code t) → Last (s'.code t)

theorem returns_eq_nil (h : ∀ item, .returned item ∉ code) : returns code = [] := by
  refine List.filterMap_eq_nil_iff.2 fun g hg => ?_
  cases g with
  | returned item => exact absurd hg (h item)
  | _ => rfl

theorem Went.of_log (hothers : ∀ u, u ≠ t → s'.code u = s.code u) (hitems : s'.items = s.items)
    (hlog : s'.log = s.log) (hn : ∀ item, (s.code t).head? ≠ some (.returned item))
    (ha : appends (s'.code t) = appends (s.code t)) (hr : returns (s'.code t) = returns (s.code t))
    (hall : (s.code t).all Frame.appending = true → (s'.code t).all Frame.appending = true)
    (hlast : Last (s.code t) → Last (s'.code t)) : Went s t s' where
  others := hothers
  items := hitems
  appended := by rw [hlog, ha]
  fewer item hm := ha ▸ hm
  removedOthers u _ := by rw [hlog]
  removed _ := ⟨[], by rw [hlog, List.append_nil], by rw [hr, List.append_nil]⟩
  returned item he := absurd he (hn item)
  appending := hall
  last := hlast

theorem Went.of_goto {s1 : State α} {code' : List (Frame α)} (hc : s.code t = f :: code)
    (hcode : s1.code = s.code) (hitems : s1.items = s.items) (hlog : s1.log = s.log)
    (hf : f.append? = none) (hf' : f.returned? = none) (ha : appends code' = appends code)
    (hr : returns code' = returns code)
    (hall : (f :: code).all Frame.appending = true → code'.all Frame.appending = true)
    (hlast : Last (f :: code) → Last code') : Went s t (s1.goto t code') := by
  refine .of_log (fun u hu => ?_) hitems hlog (fun item he => ?_) ?_ ?_ ?_ ?_
  · rw [State.code_goto_of_ne hu, hcode]
  · rw [hc] at he
    cases he
    cases hf'
  · rw [State.code_goto_self, hc, ha, appends, appends, List.filterMap_cons_none hf]
  · rw [State.code_goto_self, hc, hr, returns, returns, List.filterMap_cons_none hf']
  · rw [State.code_goto_self, hc]
    exact hall
  · rw [State.code_goto_self, hc]
    exact hlast

section

variable [DecidableEq α]

theorem goOn_went (hfits : Fits (f :: code)) (hc : s.code t = f :: code)
    (h : s.goOn t code f = .ok s') : Went s t s' := by
  have htail (ha : (f :: code).all Frame.appending = true) : code.all Frame.appending = true :=
    (Bool.and_eq_true_iff.1 ha).2
  cases f with
  | p k =>
    obtain ⟨-, -, h⟩ := bind_ok h
    unfold Semaphore.p at h
    split at h
    · rename_i he
      split at he
      · cases he
      · cases he
        cases h
        exact .of_goto hc rfl rfl rfl rfl rfl rfl rfl htail And.right
    · cases h
      refine .of_log (fun _ _ => rfl) rfl rfl (fun item he => ?_) rfl rfl id id
      rw [hc] at he
      cases he
  | v k =>
    obtain ⟨-, -, h⟩ := bind_ok h
    cases h
    exact .of_goto hc rfl rfl rfl rfl rfl rfl rfl htail And.right
  | acquired | delete w =>
    cases h
    exact .of_goto hc rfl rfl rfl rfl rfl rfl rfl htail And.right
  | release =>
    obtain ⟨-, -, h⟩ := bind_ok h
    cases h
    exact .of_goto hc rfl rfl rfl rfl rfl rfl rfl htail fun hl => ⟨nofun, hl.2⟩
  | wait =>
    obtain ⟨-, -, h⟩ := bind_ok h
    obtain ⟨-, -, h⟩ := bind_ok h
    cases h
    exact .of_goto hc rfl rfl rfl rfl rfl rfl rfl nofun
      fun hl => ⟨nofun, nofun, nofun, nofun, nofun, hl.2⟩
  | signal =>
    obtain ⟨-, -, h⟩ := bind_ok h
    split at h <;> cases h
    · exact .of_goto hc rfl rfl rfl rfl rfl rfl rfl htail And.right
    · exact .of_goto hc rfl rfl rfl rfl rfl rfl rfl htail fun hl => ⟨nofun, hl.2⟩
  | append item =>
    obtain ⟨-, -, h⟩ := bind_ok h
    cases h
    refine ⟨fun u hu => State.code_goto_of_ne hu, rfl, ?_, fun i hi => ?_, fun u _ => ?_,
      fun _ => ⟨[], ?_, ?_⟩, fun i he => ?_, fun ha => ?_, fun hl => ?_⟩
    · rw [State.code_goto_self, hc]
      simp [State.goto, Base.appended, appends, QueueOp.appended?, Frame.append?]
    · rw [State.code_goto_self] at hi
      rw [hc]
      exact List.mem_cons_of_mem _ hi
    · simp [State.goto, removedBy, QueueOp.removedBy?]
    · simp [State.goto, removedBy, QueueOp.removedBy?]
    · rw [State.code_goto_self, hc]
      simp [returns, Frame.returned?, List.filterMap_cons]
    · rw [hc] at he
      cases he
    · rw [State.code_goto_self]
      exact htail (hc ▸ ha)
    · rw [hc] at hl
      rw [State.code_goto_self]
      exact hl.2
  | whileEmpty =>
    unfold State.goOn at h
    dsimp only at h
    split at h <;> cases h
    · exact .of_goto hc rfl rfl rfl rfl rfl rfl rfl (by simp [Frame.appending])
        fun hl => ⟨by simp [Frame.final], hl⟩
    · exact .of_goto hc rfl rfl rfl rfl rfl rfl rfl (by simp [Frame.appending]) id
  | removeFront =>
    have hnone : returns code = [] := returns_eq_nil hfits.2.1
    unfold State.goOn State.removeFront at h
    dsimp only at h
    split at h
    · cases h
    · rename_i item list hl
      cases h
      refine ⟨fun u hu => State.code_goto_of_ne hu, rfl, ?_, fun i hi => ?_, fun u hu => ?_,
        fun _ => ⟨[item], ?_, ?_⟩, fun i he => ?_, fun ha => ?_, fun hl => ?_⟩
      · rw [State.code_goto_self, hc]
        simp [State.goto, Base.appended, appends, QueueOp.appended?, Frame.append?, List.filterMap_cons]
      · rw [State.code_goto_self] at hi
        rw [hc]
        exact hi
      · simp [State.goto, removedBy, QueueOp.removedBy?, hu.symm]
      · simp [State.goto, removedBy, QueueOp.removedBy?]
      · rw [State.code_goto_self, hc]
        simp only [returns, Frame.returned?, List.filterMap_cons] at hnone ⊢
        rw [hnone]
        rfl
      · rw [hc] at he
        cases he
      · rw [hc] at ha
        cases ha
      · rw [hc] at hl
        rw [State.code_goto_self]
        exact ⟨by simp [Frame.final], hl.1, hl.2⟩
  | returned item =>
    cases h
    refine ⟨fun u hu => State.code_goto_of_ne hu, rfl, ?_, fun i hi => ?_, fun _ _ => rfl, fun hn => ?_,
      fun i he => ?_, fun ha => ?_, fun hl => ?_⟩
    · rw [State.code_goto_self, hc]
      rfl
    · rw [State.code_goto_self] at hi
      rw [hc]
      exact hi
    · exact absurd (by rw [hc]; rfl) (hn item)
    · rw [State.code_goto_self, hc]
      exact ⟨rfl, rfl⟩
    · rw [State.code_goto_self]
      exact htail (hc ▸ ha)
    · rw [hc] at hl
      rw [State.code_goto_self]
      exact hl.2

theorem step_goOn (h : Reachable s) (hs : step s (.go t) = some s') :
    ∃ f code, s.code t = f :: code ∧ s.asleep t = false ∧ s.goOn t code f = .ok s' := by
  obtain ⟨hi, -⟩ := reachable_inv h
  unfold step at hs
  split at hs
  · cases hs
  obtain ⟨r, hr, hs⟩ := Option.map_eq_some_iff.1 hs
  cases hc : s.code t with
  | nil => simp [State.next, hc] at hr
  | cons f code =>
    simp only [State.next, hc] at hr
    split at hr
    · cases hr
    · rename_i ha
      cases hr
      obtain ⟨s1, hok, -⟩ := goOn_moves hi hc
      rw [hok] at hs
      cases hs
      exact ⟨f, code, rfl, Bool.eq_false_iff.2 ha, hok⟩

theorem step_went (h : Reachable s) (hs : step s (.go t) = some s') : Went s t s' := by
  obtain ⟨f, code, hc, -, hok⟩ := step_goOn h hs
  exact goOn_went (hc ▸ (reachable_inv h).1.locking.fits t) hc hok

theorem step_append {item : α} (hs : step s (.append t item) = some s') :
    s.code t = [] ∧ s' = { s with items := s.items ++ [item] }.goto t
      (acquire [.append item, .signal, .release]) := by
  unfold step at hs
  split at hs
  · cases hs
  obtain ⟨r, hr, hs⟩ := Option.map_eq_some_iff.1 hs
  cases hc : s.code t with
  | nil =>
    simp only [State.next, hc, Option.some.injEq] at hr
    subst hr
    cases hs
    exact ⟨rfl, rfl⟩
  | cons f code => simp [State.next, hc] at hr

theorem step_removeFront (hs : step s (.removeFront t) = some s') :
    s.code t = [] ∧ s' = s.goto t (acquire [.whileEmpty]) := by
  unfold step at hs
  split at hs
  · cases hs
  obtain ⟨r, hr, hs⟩ := Option.map_eq_some_iff.1 hs
  cases hc : s.code t with
  | nil =>
    simp only [State.next, hc, Option.some.injEq] at hr
    subst hr
    cases hs
    exact ⟨rfl, rfl⟩
  | cons f code => simp [State.next, hc] at hr

theorem go_possible (h : Reachable s) (hc : s.code t ≠ []) (ha : s.asleep t = false) :
    ∃ s', step s (.go t) = some s' := by
  obtain ⟨-, hstop⟩ := reachable_inv h
  unfold step
  rw [hstop]
  cases hc' : s.code t with
  | nil => exact absurd hc' hc
  | cons f code => simp [State.next, hc', ha]

/-! ## The queue of the lock -/

omit [DecidableEq α] in
theorem sems_setSem_self (k : SemId) (sem : Semaphore Nat) : (s.setSem k sem).sems k = sem :=
  Function.update_self ..

omit [DecidableEq α] in
theorem sems_setSem_of_ne {k k' : SemId} (sem : Semaphore Nat) (h : k ≠ k') :
    (s.setSem k' sem).sems k = s.sems k := Function.update_of_ne h _ _

/-- The threads in the queue of the lock are in its `P`; when the lock is free, a thread that was woken is
there too. -/
structure Sleepers (s : State α) : Prop where
  asleep : ∀ t ∈ (s.sems .lock).queue, (s.code t).head? = some (.p .lock)
  once : (s.sems .lock).queue.Nodup
  woken : (s.sems .lock).queue ≠ [] → (s.sems .lock).value ≠ 0 →
    ∃ t, t ∉ (s.sems .lock).queue ∧ (s.code t).head? = some (.p .lock)

omit [DecidableEq α] in
theorem Sleepers.of_other (h : Sleepers s) (hlock : s'.sems .lock = s.sems .lock)
    (hothers : ∀ u, u ≠ t → s'.code u = s.code u) (ht : (s.code t).head? ≠ some (.p .lock)) :
    Sleepers s' := by
  have hne {u : Tid} (hu : (s.code u).head? = some (.p .lock)) : u ≠ t := by
    rintro rfl
    exact ht hu
  refine ⟨?_, ?_, ?_⟩ <;> rw [hlock]
  · intro u hu
    rw [hothers u (hne (h.asleep u hu))]
    exact h.asleep u hu
  · exact h.once
  · intro hq hv
    obtain ⟨u, hu, hp⟩ := h.woken hq hv
    exact ⟨u, hu, by rw [hothers u (hne hp)]; exact hp⟩

theorem goOn_lock (hf : f ≠ .p .lock) (hf' : f ≠ .v .lock) (h : s.goOn t code f = .ok s') :
    s'.sems .lock = s.sems .lock := by
  cases f with
  | p k =>
    have hk : SemId.lock ≠ k := fun hk => hf (hk ▸ rfl)
    obtain ⟨-, -, h⟩ := bind_ok h
    split at h <;> cases h <;> exact sems_setSem_of_ne _ hk
  | v k =>
    have hk : SemId.lock ≠ k := fun hk => hf' (hk ▸ rfl)
    obtain ⟨-, -, h⟩ := bind_ok h
    cases h
    exact sems_setSem_of_ne _ hk
  | wait =>
    obtain ⟨-, -, h⟩ := bind_ok h
    obtain ⟨-, -, h⟩ := bind_ok h
    cases h
    have hk : SemId.lock ≠ .waiter s.waiters := nofun
    exact sems_setSem_of_ne (s := s) (.new 0) hk
  | release | append item =>
    obtain ⟨-, -, h⟩ := bind_ok h
    cases h
    rfl
  | signal =>
    obtain ⟨-, -, h⟩ := bind_ok h
    split at h <;> cases h <;> rfl
  | whileEmpty =>
    unfold State.goOn at h
    dsimp only at h
    split at h <;> cases h <;> rfl
  | removeFront =>
    unfold State.goOn State.removeFront at h
    dsimp only at h
    split at h <;> cases h
    rfl
  | acquired | delete w | returned item =>
    cases h
    rfl

theorem Sleepers.p (h : Sleepers s) (hlock : (s.sems .lock).value ≤ 1) (hc : s.code t = .p .lock :: code)
    (ha : s.asleep t = false) (hok : s.goOn t code (.p .lock) = .ok s') : Sleepers s' := by
  have ht : t ∉ (s.sems .lock).queue := by simpa [State.asleep, hc] using ha
  obtain ⟨-, -, hok⟩ := bind_ok hok
  unfold Semaphore.p at hok
  by_cases hv : (s.sems .lock).value = 0
  · rw [if_pos hv] at hok
    cases hok
    have hsem : (s.setSem .lock ((s.sems .lock).append t)).sems .lock =
        (s.sems .lock).append t := sems_setSem_self _ _
    refine ⟨?_, ?_, ?_⟩ <;> rw [hsem]
    · intro u hu
      rcases List.mem_append.1 hu with hu | hu
      · exact h.asleep u hu
      · rw [List.mem_singleton.1 hu]
        exact congrArg List.head? hc
    · exact h.once.append (List.nodup_singleton t) (by simpa using ht)
    · intro _ hn
      exact absurd hv hn
  · rw [if_neg hv] at hok
    cases hok
    have hsem : ((s.setSem .lock (s.sems .lock).decrement).goto t code).sems .lock =
        (s.sems .lock).decrement := sems_setSem_self (s := s) .lock (s.sems .lock).decrement
    refine ⟨?_, ?_, ?_⟩ <;> rw [hsem]
    · intro u hu
      have hne : u ≠ t := fun he => ht (he ▸ hu)
      rw [State.code_goto_of_ne hne]
      exact h.asleep u hu
    · exact h.once
    · intro _ hn
      exact absurd (Nat.sub_eq_zero_of_le hlock) hn

theorem Sleepers.v (h : Sleepers s) (hc : s.code t = .v .lock :: code)
    (hok : s.goOn t code (.v .lock) = .ok s') : Sleepers s' := by
  have hne {u : Tid} (hu : u ∈ (s.sems .lock).queue) : u ≠ t := by
    rintro rfl
    have hp := h.asleep u hu
    rw [hc] at hp
    cases hp
  obtain ⟨-, -, hok⟩ := bind_ok hok
  cases hok
  have hsem : ((s.setSem .lock (s.sems .lock).v.1).goto t code).sems .lock =
      ⟨(s.sems .lock).value + 1, (s.sems .lock).queue.tail⟩ :=
    sems_setSem_self (s := s) .lock (s.sems .lock).v.1
  refine ⟨?_, ?_, ?_⟩ <;> rw [hsem]
  · intro u hu
    have hu := List.mem_of_mem_tail hu
    rw [State.code_goto_of_ne (hne hu)]
    exact h.asleep u hu
  · exact h.once.tail
  · intro hq _
    cases hqueue : (s.sems .lock).queue with
    | nil =>
      rw [hqueue] at hq
      exact absurd rfl hq
    | cons u queue =>
      have hu : u ∈ (s.sems .lock).queue := hqueue ▸ List.mem_cons_self
      refine ⟨u, (List.nodup_cons.1 (hqueue ▸ h.once)).1, ?_⟩
      rw [State.code_goto_of_ne (hne hu)]
      exact h.asleep u hu

theorem step_sleepers (hr : Reachable s) (h : Sleepers s) {choice : Choice α}
    (hs : step s choice = some s') : Sleepers s' := by
  obtain ⟨hi, -⟩ := reachable_inv hr
  cases choice with
  | append t item =>
    obtain ⟨hc, rfl⟩ := step_append hs
    exact h.of_other (t := t) rfl (fun u hu => State.code_goto_of_ne hu) (by simp [hc])
  | removeFront t =>
    obtain ⟨hc, rfl⟩ := step_removeFront hs
    exact h.of_other (t := t) rfl (fun u hu => State.code_goto_of_ne hu) (by simp [hc])
  | go t =>
    obtain ⟨f, code, hc, ha, hok⟩ := step_goOn hr hs
    by_cases hp : f = .p .lock
    · subst hp
      exact h.p hi.locking.lock.le_one hc ha hok
    by_cases hv : f = .v .lock
    · subst hv
      exact h.v hc hok
    · refine h.of_other (goOn_lock hp hv hok) (goOn_went (hc ▸ hi.locking.fits t) hc hok).others ?_
      rw [hc]
      exact fun he => hp (Option.some.inj he)

theorem reachable_sleepers (h : Reachable s) : Sleepers s := by
  have hstart : Sleepers (start : State α) := ⟨nofun, List.nodup_nil, fun hq => absurd rfl hq⟩
  refine (Runs.invariant (I := fun s => Reachable s ∧ Sleepers s) h ⟨.start, hstart⟩ ?_).2
  intro s choice s' ⟨hr, hsleep⟩ hd hs
  exact ⟨hr.step hd hs, step_sleepers hr hsleep hs⟩

theorem someone_goes (h : Reachable s) (hc : s.code t ≠ [])
    (hall : (s.code t).all Frame.appending = true) : ∃ u, s.code u ≠ [] ∧ s.asleep u = false := by
  by_cases ha : s.asleep t = false
  · exact ⟨t, hc, ha⟩
  obtain ⟨hi, -⟩ := reachable_inv h
  have hsleep := reachable_sleepers h
  have hq : (s.sems .lock).queue ≠ [] := by
    cases hcode : s.code t with
    | nil => exact absurd hcode hc
    | cons f code =>
      rw [hcode] at hall
      unfold State.asleep at ha
      rw [hcode] at ha
      cases f with
      | p k =>
        cases k with
        | lock =>
          intro hnil
          simp [hnil] at ha
        | waiter w => cases hall
      | _ => simp at ha
  by_cases hv : (s.sems .lock).value = 0
  · -- the thread that has the lock is not in a `P`
    obtain ⟨u, hu⟩ : ∃ u, s.Holds u := by
      have hlock := hi.locking.lock
      rw [hv] at hlock
      cases hlock with
      | taken u hu => exact ⟨u, (hu u).2 rfl⟩
    refine ⟨u, fun hnil => hu (by rw [hnil]; rfl), ?_⟩
    unfold State.asleep
    split
    · rename_i k code hcode
      exact absurd (by rw [hcode]; rfl) hu
    · rfl
  · obtain ⟨u, hu, hp⟩ := hsleep.woken hq hv
    obtain ⟨code, hcode⟩ := List.head?_eq_some_iff.1 hp
    exact ⟨u, by rw [hcode]; exact List.cons_ne_nil _ _, by simp [State.asleep, hcode, hu]⟩

end

end Nachos.SynchList
