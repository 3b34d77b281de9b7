import Mathlib.Data.List.Count
import Nachos.Threads.Proof.Switch

/-!
# Semaphores

`V` makes the first thread of the queue ready and increments the value; the thread tests the value
again when it runs, and may find that another one has taken it. What is kept (`Sem.Sound`) is that the
value is what the `P`s and `V`s make it, and that while threads are queued at least as many threads are
on their way from the queue to the test as the value says.

`Counted` says where these threads are: the code of a thread shows in which `P` it has slept
(`sleeps`), and for each such `P` the thread is in the queue or on its way.
-/

namespace Nachos.Threads

open Base Function

/-! ## One semaphore -/

namespace Sem

def count (s : Sem) : Int := s.initial.toInt + s.completedV - s.completedP

def Below (s : Sem) : Prop := 0 ≤ s.initial.toInt ∧ s.initial.toInt + s.completedV < 2 ^ 31

structure Sound (s : Sem) : Prop where
  conserved : s.value = BitVec.ofInt 32 s.count
  nonneg : s.Below → 0 ≤ s.count
  woken : s.Below → s.queue ≠ [] → s.count ≤ s.woken.length
  once : s.woken.Nodup

variable {s : Sem} {t : Tid}

theorem sound_new (n : Word) : (new n).Sound where
  conserved := by simp [new, Semaphore.new, count]
  nonneg h := by simpa [new, count] using h.1
  woken _ h := absurd rfl h
  once := List.nodup_nil

theorem Sound.toInt_value (h : s.Sound) (hb : s.Below) : s.value.toInt = s.count := by
  have hn := h.nonneg hb
  have hlt : s.count < 2 ^ 31 := by
    have := hb.2
    unfold count
    omega
  rw [h.conserved, BitVec.toInt_ofInt]
  exact Int.bmod_eq_of_le (by omega) (by omega)

theorem Sound.count_ne_zero (h : s.Sound) (hv : s.value ≠ 0) : s.count ≠ 0 := by
  intro h0
  rw [h.conserved, h0] at hv
  exact hv rfl

theorem Sound.count_eq_zero (h : s.Sound) (hb : s.Below) (hv : s.value = 0) : s.count = 0 := by
  rw [← h.toInt_value hb, hv]
  rfl

theorem Below.of_increment (hb : s.removeFront.increment.Below) : s.Below := by
  obtain ⟨h0, hlt⟩ := hb
  simp only [increment, removeFront] at h0 hlt
  exact ⟨h0, by omega⟩

theorem Sound.post (h : s.Sound) (hw : ∀ t ∈ s.queue, t ∉ s.woken) :
    s.removeFront.increment.Sound where
  conserved := by
    have hc : s.removeFront.increment.count = s.count + 1 := by
      simp only [count, increment, removeFront]
      omega
    rw [hc, BitVec.ofInt_add, ← h.conserved]
    rfl
  nonneg hb := by
    have hn := h.nonneg hb.of_increment
    simp only [count, increment, removeFront] at hn ⊢
    omega
  woken := by
    intro hb hq
    have hle := h.woken hb.of_increment
    cases hs : s.queue with
    | nil => simp [increment, removeFront, hs] at hq
    | cons u us =>
      have hu := hle (by simp [hs])
      simp only [count, increment, removeFront, hs, List.head?_cons, Option.toList_some,
        List.length_append, List.length_singleton] at hu ⊢
      omega
  once := by
    cases hs : s.queue with
    | nil => simpa [increment, removeFront, hs] using h.once
    | cons u us =>
      have hu := hw u (by simp [hs])
      simp only [increment, removeFront, hs, List.head?_cons, Option.toList_some]
      rw [List.nodup_append]
      exact ⟨h.once, List.nodup_singleton u, by grind⟩

theorem Sound.append (h : s.Sound) (hv : s.value = 0) : (s.append t).Sound where
  conserved := h.conserved
  nonneg := h.nonneg
  woken hb _ := by
    have h0 : (s.append t).count = 0 := h.count_eq_zero hb hv
    omega
  once := h.once

theorem Sound.decrement (h : s.Sound) (hv : s.value ≠ 0) : s.decrement.Sound where
  conserved := by
    have hc : s.decrement.count = s.count - 1 := by
      simp only [count, Sem.decrement]
      omega
    rw [hc, Int.sub_eq_add_neg, BitVec.ofInt_add, ← h.conserved]
    exact BitVec.sub_eq_add_neg s.value 1
  nonneg hb := by
    have hn := h.nonneg hb
    have h0 := h.count_ne_zero hv
    simp only [count, Sem.decrement] at hn h0 ⊢
    omega
  woken hb hq := by
    have hw := h.woken hb hq
    simp only [count, Sem.decrement] at hw ⊢
    omega
  once := h.once

theorem Sound.retest_append (h : s.Sound) (hv : s.value = 0) : ((s.retest t).append t).Sound where
  conserved := h.conserved
  nonneg := h.nonneg
  woken hb _ := by
    have h0 : ((s.retest t).append t).count = 0 := h.count_eq_zero hb hv
    omega
  once := h.once.erase t

theorem Sound.retest_decrement (h : s.Sound) (hv : s.value ≠ 0) (ht : t ∈ s.woken) :
    (s.retest t).decrement.Sound where
  conserved := (h.decrement hv).conserved
  nonneg := (h.decrement hv).nonneg
  woken hb hq := by
    have hw := h.woken hb hq
    have hpos := List.length_pos_of_mem ht
    simp only [count, Sem.decrement, retest, List.length_erase_of_mem ht] at hw ⊢
    omega
  once := h.once.erase t

end Sem

/-! ## Where the threads of a semaphore are -/

/-- The code has slept in `P` of `k`, and will test the value. -/
def Frame.sleptOn (k : SemId) : Frame → Bool
  | .slept k' _ => k' = k
  | _ => false

def sleeps (k : SemId) (code : List Frame) : Nat := code.countP (Frame.sleptOn k)

@[simp] theorem sleeps_nil (k : SemId) : sleeps k [] = 0 := rfl

@[simp] theorem sleeps_cons (k : SemId) (f : Frame) (code : List Frame) :
    sleeps k (f :: code) = sleeps k code + if f.sleptOn k then 1 else 0 := List.countP_cons

attribute [simp] Frame.sleptOn

/-- The thread is blocked in `P` of `k`. -/
inductive AsleepIn (k : SemId) : List Frame → Prop
  | sleeping (oldLevel : IntStatus) (code : List Frame) :
      AsleepIn k (.sleeping false :: .slept k oldLevel :: code)
  | switched (out : Cpu) (oldLevel : IntStatus) (code : List Frame) :
      AsleepIn k (.switched out :: .slept k oldLevel :: code)

structure Counted (initial : SemId → Word) (s : State) : Prop where
  sound : ∀ k, (s.queues.sems k).Sound
  initial : ∀ k, (s.queues.sems k).initial = initial k
  frames : ∀ t k, sleeps k (s.stack t) =
    (s.queues.sems k).woken.count t + (s.queues.sems k).queue.count t
  asleep : ∀ k, ∀ t ∈ (s.queues.sems k).queue, AsleepIn k (s.stack t)
  once : ∀ t n, sleeps (.sem n) (s.stack t) ≤ 1

variable {initial : SemId → Word} {s s' : State} {code : List Frame} {k : SemId}

theorem Counted.of_eq (h : Counted initial s) (hsems : s'.queues.sems = s.queues.sems)
    (hstack : s'.stack = s.stack) : Counted initial s' where
  sound := hsems ▸ h.sound
  initial := hsems ▸ h.initial
  frames := hsems ▸ hstack ▸ h.frames
  asleep := hsems ▸ hstack ▸ h.asleep
  once := hstack ▸ h.once

theorem Counted.goto (h : Counted initial s) (hcur : ∀ k, s.currentThread ∉ (s.queues.sems k).queue)
    (hc : ∀ k, sleeps k code = sleeps k s.code) : Counted initial (s.goto code) := by
  have hsleeps (t : Tid) (k : SemId) : sleeps k ((s.goto code).stack t) = sleeps k (s.stack t) := by
    by_cases ht : t = s.currentThread
    · subst ht
      have hcode : (s.goto code).stack s.currentThread = code := update_self ..
      rw [hcode]
      exact hc k
    · rw [State.stack_goto_of_ne ht]
  refine ⟨h.sound, h.initial, fun t k => (hsleeps t k).trans (h.frames t k), ?_, ?_⟩
  · intro k t ht
    have hne : t ≠ s.currentThread := by
      rintro rfl
      exact hcur k ht
    rw [State.stack_goto_of_ne hne]
    exact h.asleep k t ht
  · intro t n
    rw [hsleeps]
    exact h.once t n

theorem Counted.switchTo (h : Counted initial s) {nextThread : Tid} {f : Bool}
    (hc : ∀ k, sleeps k code = sleeps k s.code)
    (ha : ∀ k, s.currentThread ∈ (s.queues.sems k).queue → ∃ oldLevel rest,
      code = .slept k oldLevel :: rest) : Counted initial (s.switchTo nextThread f code) := by
  have hsleeps (t : Tid) (k : SemId) :
      sleeps k ((s.switchTo nextThread f code).stack t) = sleeps k (s.stack t) := by
    by_cases ht : t = s.currentThread
    · subst ht
      have hcode : (s.switchTo nextThread f code).stack s.currentThread =
          .switched s.cpu :: code := update_self ..
      rw [hcode]
      show _ = sleeps k s.code
      simpa using hc k
    · have hstack : (s.switchTo nextThread f code).stack t = s.stack t :=
        update_of_ne ht _ _
      rw [hstack]
  refine ⟨h.sound, h.initial, fun t k => (hsleeps t k).trans (h.frames t k), ?_, ?_⟩
  · intro k t ht
    by_cases hne : t = s.currentThread
    · subst hne
      obtain ⟨oldLevel, rest, rfl⟩ := ha k ht
      have hcode : (s.switchTo nextThread f (.slept k oldLevel :: rest)).stack s.currentThread =
          .switched s.cpu :: .slept k oldLevel :: rest := update_self ..
      rw [hcode]
      exact .switched _ _ _
    · have hstack : (s.switchTo nextThread f code).stack t = s.stack t :=
        update_of_ne hne _ _
      rw [hstack]
      exact h.asleep k t ht
  · intro t n
    rw [hsleeps]
    exact h.once t n

theorem post_sems (q : Queues) (k : SemId) :
    (q.post k).sems = update q.sems k (q.sems k).removeFront.increment := by
  unfold Queues.post
  dsimp only
  split <;> rfl

theorem Counted.post (h : Counted initial s) (hk : ∀ t ∈ (s.queues.sems k).queue,
    sleeps k (s.stack t) ≤ 1) (hsems : s'.queues.sems = (s.queues.post k).sems)
    (hstack : s'.stack = s.stack) : Counted initial s' := by
  have hpost (k' : SemId) : s'.queues.sems k' =
      if k' = k then (s.queues.sems k).removeFront.increment else s.queues.sems k' := by
    rw [hsems, post_sems, update_apply]
  have hwoken : ∀ t ∈ (s.queues.sems k).queue, t ∉ (s.queues.sems k).woken := by
    intro t ht hw
    have h1 := List.count_pos_iff.2 ht
    have h2 := List.count_pos_iff.2 hw
    have h3 := h.frames t k
    have h4 := hk t ht
    omega
  refine ⟨?_, ?_, ?_, ?_, hstack ▸ h.once⟩
  · intro k'
    rw [hpost]
    split
    · exact (h.sound k).post hwoken
    · exact h.sound k'
  · intro k'
    rw [hpost]
    split
    · rename_i hkk
      exact hkk ▸ h.initial k
    · exact h.initial k'
  · intro t k'
    rw [hpost, hstack, h.frames]
    split
    · rename_i hkk
      subst hkk
      cases hq : (s.queues.sems k').queue with
      | nil => simp [Sem.increment, Sem.removeFront, hq]
      | cons u us =>
        simp only [Sem.increment, Sem.removeFront, Semaphore.increment, Semaphore.removeFront, hq,
          List.head?_cons, Option.toList_some, List.tail_cons, List.count_append, List.count_cons,
          List.count_nil]
        omega
    · rfl
  · intro k' t ht
    rw [hstack]
    rw [hpost] at ht
    split at ht
    · rename_i hkk
      subst hkk
      exact h.asleep k' t (List.mem_of_mem_tail ht)
    · exact h.asleep k' t ht

theorem Counted.acts (h : Counted initial s) (actions : List State.Action)
    (hsems : s'.queues.sems = (actions.foldl Queues.act s.queues).sems)
    (hstack : s'.stack = s.stack) : Counted initial s' := by
  induction actions generalizing s with
  | nil => exact h.of_eq hsems hstack
  | cons a actions ih =>
    refine ih (s := { s with queues := s.queues.act a }) ?_ hsems hstack
    cases a with
    | v n => exact h.post (k := .sem n) (fun t _ => h.once t n) rfl rfl
    | yieldOnReturn => exact h

theorem Counted.interrupted (h : Counted initial s) (due : Option (List State.Action))
    (hsems : s'.queues.sems = (s.interrupted due).queues.sems)
    (hstack : s'.stack = (s.interrupted due).stack) : Counted initial s' := by
  cases due with
  | none => exact h.of_eq hsems hstack
  | some actions => exact h.acts actions hsems hstack

structure Testing (initial : SemId → Word) (s : State) (k : SemId) (code : List Frame) : Prop where
  blocks : (s.queues.sems k).value = 0 → ((s.queues.sems k).append s.currentThread).Sound
  takes : (s.queues.sems k).value ≠ 0 → (s.queues.sems k).decrement.Sound
  sound : ∀ k', k' ≠ k → (s.queues.sems k').Sound
  initial : ∀ k', (s.queues.sems k').initial = initial k'
  frames : ∀ k', sleeps k' code = (s.queues.sems k').woken.count s.currentThread
  otherFrames : ∀ t, t ≠ s.currentThread → ∀ k', sleeps k' (s.stack t) =
    (s.queues.sems k').woken.count t + (s.queues.sems k').queue.count t
  asleep : ∀ k', ∀ t ∈ (s.queues.sems k').queue, t ≠ s.currentThread ∧ AsleepIn k' (s.stack t)
  once : ∀ n, sleeps (.sem n) code ≤ 1 ∧ (k = .sem n → sleeps (.sem n) code = 0)
  otherOnce : ∀ t, t ≠ s.currentThread → ∀ n, sleeps (.sem n) (s.stack t) ≤ 1

theorem Testing.notMem (h : Testing initial s k code) (k' : SemId) :
    s.currentThread ∉ (s.queues.sems k').queue := fun hm => (h.asleep k' _ hm).1 rfl

/-- What a test leads to: a semaphore that is sound, with the current thread in its queue or not, and
code that says so. -/
theorem Testing.counted_of (h : Testing initial s k code) {sem : Sem} {code' : List Frame}
    (hsems : ∀ k', s'.queues.sems k' = if k' = k then sem else s.queues.sems k')
    (hcur : s'.stack s.currentThread = code')
    (hstack : ∀ t, t ≠ s.currentThread → s'.stack t = s.stack t)
    (hsound : sem.Sound) (hinitial : sem.initial = (s.queues.sems k).initial)
    (hwoken : sem.woken = (s.queues.sems k).woken)
    (hqueue : ∀ t, t ≠ s.currentThread → sem.queue.count t = (s.queues.sems k).queue.count t)
    (hcode : ∀ k', sleeps k' code' =
      sleeps k' code + if k' = k then sem.queue.count s.currentThread else 0)
    (hasleep : s.currentThread ∈ sem.queue → AsleepIn k code')
    (hle : sem.queue.count s.currentThread ≤ 1) : Counted initial s' := by
  refine ⟨?_, ?_, ?_, ?_, ?_⟩
  · intro k'
    rw [hsems]
    split
    · exact hsound
    · rename_i hk
      exact h.sound k' hk
  · intro k'
    rw [hsems]
    split
    · rename_i hk
      subst hk
      exact hinitial.trans (h.initial k')
    · exact h.initial k'
  · intro t k'
    by_cases ht : t = s.currentThread
    · subst ht
      rw [hcur, hcode, h.frames, hsems]
      by_cases hk : k' = k
      · subst hk
        simp [hwoken]
      · simp [hk, List.count_eq_zero_of_not_mem (h.notMem k')]
    · rw [hstack t ht, h.otherFrames t ht, hsems]
      by_cases hk : k' = k
      · subst hk
        simp [hwoken, hqueue t ht]
      · simp [hk]
  · intro k' t ht
    rw [hsems] at ht
    by_cases hne : t = s.currentThread
    · subst hne
      rw [hcur]
      split at ht
      · rename_i hk
        subst hk
        exact hasleep ht
      · exact absurd ht (h.notMem k')
    · rw [hstack t hne]
      split at ht
      · rename_i hk
        subst hk
        have hc := hqueue t hne
        have hpos := List.count_pos_iff.2 ht
        exact (h.asleep k' t (List.count_pos_iff.1 (by omega))).2
      · exact (h.asleep k' t ht).2
  · intro t n
    by_cases ht : t = s.currentThread
    · subst ht
      rw [hcur, hcode]
      obtain ⟨h1, h0⟩ := h.once n
      split
      · rename_i hk
        have := h0 hk.symm
        omega
      · omega
    · rw [hstack t ht]
      exact h.otherOnce t ht n

theorem Testing.counted (h : Testing initial s k code) (oldLevel : IntStatus) :
    Counted initial (s.tested k oldLevel code) := by
  have hzero : (s.queues.sems k).queue.count s.currentThread = 0 :=
    List.count_eq_zero_of_not_mem (h.notMem k)
  unfold State.tested
  split
  · rename_i hv
    apply h.counted_of
    · exact fun k' => update_apply ..
    · exact update_self ..
    · exact fun t ht => update_of_ne ht _ _
    · exact h.blocks hv
    · rfl
    · rfl
    · intro t ht
      simp [Sem.append, List.count_append, Ne.symm ht]
    · intro k'
      by_cases hk : k' = k
      · subst hk
        simp [Sem.append, List.count_append, hzero]
      · simp [hk, Ne.symm hk]
    · exact fun _ => .sleeping _ _
    · simp [Sem.append, List.count_append, hzero]
  · rename_i hv
    apply h.counted_of
    · exact fun k' => update_apply ..
    · exact update_self ..
    · exact fun t ht => update_of_ne ht _ _
    · exact h.takes hv
    · rfl
    · rfl
    · exact fun _ _ => rfl
    · intro k'
      simp [Sem.decrement, hzero]
    · exact fun hm => absurd hm (h.notMem k)
    · exact hzero.le.trans (Nat.zero_le 1)

theorem Counted.testing (h : Counted initial s)
    (hcur : ∀ k, s.currentThread ∉ (s.queues.sems k).queue)
    (hc : ∀ k, sleeps k code = sleeps k s.code) (hk : ∀ n, k = .sem n → sleeps k code = 0) :
    Testing initial s k code where
  blocks hv := (h.sound k).append hv
  takes hv := (h.sound k).decrement hv
  sound k' _ := h.sound k'
  initial := h.initial
  frames k' := by
    have hf := h.frames s.currentThread k'
    rw [List.count_eq_zero_of_not_mem (hcur k'), Nat.add_zero] at hf
    exact (hc k').trans hf
  otherFrames t _ := h.frames t
  asleep k' t ht := by
    refine ⟨?_, h.asleep k' t ht⟩
    rintro rfl
    exact hcur k' ht
  once n := ⟨hc (.sem n) ▸ h.once s.currentThread n, fun hn => hn ▸ hk n hn⟩
  otherOnce t _ := h.once t

theorem Counted.retesting (h : Counted initial s)
    (hcur : ∀ k, s.currentThread ∉ (s.queues.sems k).queue) {oldLevel : IntStatus}
    (hc : s.code = .slept k oldLevel :: code) :
    Testing initial { s with
      queues := s.queues.setSem k ((s.queues.sems k).retest s.currentThread) } k code := by
  have hsems (k' : SemId) :
      (s.queues.setSem k ((s.queues.sems k).retest s.currentThread)).sems k' =
        if k' = k then (s.queues.sems k).retest s.currentThread else s.queues.sems k' :=
    update_apply ..
  have hself : (s.queues.setSem k ((s.queues.sems k).retest s.currentThread)).sems k =
      (s.queues.sems k).retest s.currentThread := by simp [hsems]
  have hqueue (k' : SemId) :
      ((s.queues.setSem k ((s.queues.sems k).retest s.currentThread)).sems k').queue =
        (s.queues.sems k').queue := by
    rw [hsems]
    split
    · rename_i hk
      rw [hk]
      rfl
    · rfl
  -- the code says that the thread is on its way
  have hcount (k' : SemId) : sleeps k' code + (if k = k' then 1 else 0) =
      (s.queues.sems k').woken.count s.currentThread := by
    have hf := h.frames s.currentThread k'
    rw [List.count_eq_zero_of_not_mem (hcur k'), Nat.add_zero,
      show s.stack s.currentThread = _ from hc] at hf
    simpa using hf
  have hmem : s.currentThread ∈ (s.queues.sems k).woken := by
    have hf := hcount k
    rw [if_pos rfl] at hf
    exact List.count_pos_iff.1 (by omega)
  have honce (n : Nat) : sleeps (.sem n) code + (if k = .sem n then 1 else 0) ≤ 1 := by
    have ho := h.once s.currentThread n
    rw [show s.stack s.currentThread = _ from hc] at ho
    simpa using ho
  refine ⟨?_, ?_, ?_, ?_, ?_, ?_, ?_, ?_, fun t _ => h.once t⟩
  · show ((s.queues.setSem k _).sems k).value = 0 → (((s.queues.setSem k _).sems k).append _).Sound
    rw [hself]
    exact (h.sound k).retest_append
  · show ((s.queues.setSem k _).sems k).value ≠ 0 → ((s.queues.setSem k _).sems k).decrement.Sound
    rw [hself]
    exact fun hv => (h.sound k).retest_decrement hv hmem
  · intro k' hk
    show ((s.queues.setSem k _).sems k').Sound
    rw [hsems, if_neg hk]
    exact h.sound k'
  · intro k'
    show ((s.queues.setSem k _).sems k').initial = _
    rw [hsems]
    split
    · rename_i hk
      exact hk ▸ h.initial k
    · exact h.initial k'
  · intro k'
    show _ = ((s.queues.setSem k _).sems k').woken.count s.currentThread
    have hf := hcount k'
    rw [hsems]
    split
    · rename_i hk
      subst hk
      rw [if_pos rfl] at hf
      simp only [Sem.retest, List.count_erase_self]
      omega
    · rename_i hk
      rw [if_neg (Ne.symm hk)] at hf
      exact hf
  · intro t ht k'
    show _ = ((s.queues.setSem k _).sems k').woken.count t + ((s.queues.setSem k _).sems k').queue.count t
    rw [hqueue, hsems]
    split
    · rename_i hk
      subst hk
      simp only [Sem.retest, List.count_erase_of_ne ht]
      exact h.frames t k'
    · exact h.frames t k'
  · intro k' t ht
    rw [show State.queues _ = s.queues.setSem k _ from rfl, hqueue] at ht
    refine ⟨?_, h.asleep k' t ht⟩
    rintro rfl
    exact hcur k' ht
  · intro n
    have ho := honce n
    refine ⟨by omega, fun hk => ?_⟩
    rw [if_pos hk] at ho
    omega

/-! ## Every move keeps the count -/

theorem notMem_queue (hb : s.queues.board.Inv (some s.currentThread)) (k : SemId) :
    s.currentThread ∉ (s.queues.sems k).queue := by
  have hrun : s.queues.board.place s.currentThread = .running := (hb.running _).2 rfl
  exact hb.notMem_waiting (by simp [hrun]) k

theorem Counted.goesOn (h : Counted initial s) (hb : s.queues.board.Inv (some s.currentThread))
    (hc : ∀ k, sleeps k code = sleeps k s.code) (hsems : s'.queues.sems = s.queues.sems)
    (hstack : s'.stack = s.stack) (hcur : s'.currentThread = s.currentThread) :
    Counted initial (s'.goto code) := by
  apply Counted.goto (h.of_eq hsems hstack)
  · rw [hsems, hcur]
    exact notMem_queue hb
  · rw [State.code, hstack, hcur]
    exact hc

theorem Away.sleeps_le {t : Tid} (h : Away s t code) (k : SemId) : sleeps k code ≤ 1 := by
  cases h with
  | @switched out code hc =>
    have hle : sleeps k code ≤ code.countP Frame.isSlept := by
      apply List.countP_mono_left
      intro f _ hf
      cases f <;> simp_all [Frame.isSlept]
    simpa using hle.trans hc.once
  | begin => simp

theorem Counted.yieldTo (h : Counted initial s) (hb : s.queues.board.Inv (some s.currentThread))
    (hc : ∀ k, sleeps k code = sleeps k s.code) : Counted initial (s.yieldTo code) := by
  unfold State.yieldTo
  split
  · exact h.goesOn hb (by simpa using hc) rfl rfl rfl
  · apply Counted.switchTo
    · exact h.of_eq rfl rfl
    · intro k
      show _ = sleeps k s.code
      simpa using hc k
    · intro k hm
      exact absurd hm (notMem_queue hb k)

theorem Counted.posted (h : Counted initial s) (hb : s.queues.board.Inv (some s.currentThread))
    (hk : ∀ t ∈ (s.queues.sems k).queue, sleeps k (s.stack t) ≤ 1)
    (hc : ∀ k, sleeps k code = sleeps k s.code) : Counted initial (s.posted k code) := by
  have hb' : (s.queues.post k).board.Inv (some s.currentThread) := by
    rw [Queues.board_post hb]
    exact hb.wake k
  have hposted : Counted initial { s with queues := s.queues.post k } := h.post hk rfl rfl
  refine hposted.goesOn hb' (fun k => ?_) rfl rfl rfl
  show _ = sleeps k s.code
  simpa using hc k

theorem Orderly.sleeps_le (ho : Orderly s) (hb : s.queues.board.Inv (some s.currentThread))
    (k : SemId) : ∀ t ∈ (s.queues.sems k).queue, sleeps k (s.stack t) ≤ 1 := by
  intro t ht
  have hne : t ≠ s.currentThread := by
    rintro rfl
    exact notMem_queue hb k ht
  exact (ho.others t hne).sleeps_le k

theorem Orderly.of_not_trapped (ho : Orderly s ∨ Stuck s) (ht : ¬ Trapped s.code) : Orderly s := by
  rcases ho with ho | ho
  · exact ho
  · exact absurd ho.trapped ht

theorem State.interrupted_code (due : Option (List State.Action)) :
    (s.interrupted due).code = s.code := by
  cases due <;> rfl

theorem move_counted (hi : Inv s) (ho : Orderly s ∨ Stuck s) (h : Counted initial s)
    (hm : Move s s') : Counted initial s' := by
  cases hm with
  | returned hc | yielded hc | switched hc | restore hc | resumed hc | begin hc
  | noneDestroyed hc hn | destroyed hc hd hs | deleted hc =>
    exact h.goesOn (hi.top hc (by simp)).1 (by simp [hc]) rfl rfl rfl
  | setLevel hc =>
    refine h.goesOn (hi.top hc (by simp)).1 (fun k => ?_) rfl rfl rfl
    split <;> simp [hc]
  | @oneTick code due hc hy =>
    have hb := State.interrupted_board (hi.top hc (by simp)).1 due
    rw [← State.interrupted_currentThread due] at hb
    have hticked : Counted initial (s.interrupted due) := h.interrupted due rfl rfl
    exact hticked.goesOn hb (by simp [State.interrupted_code, hc]) rfl rfl rfl
  | @tickYield code due hc hy =>
    have hb := State.interrupted_board (hi.top hc (by simp)).1 due
    rw [← State.interrupted_currentThread due] at hb
    apply Counted.yieldTo
    · exact h.interrupted due rfl rfl
    · exact hb
    · intro k
      show _ = sleeps k (s.interrupted due).code
      simp [State.interrupted_code, hc]
  | slept hc => exact (h.retesting (notMem_queue (hi.top hc (by simp)).1) hc).counted _
  | idle hc hr => exact h.interrupted _ rfl rfl
  | switch hc hr =>
    apply Counted.switchTo
    · exact h.of_eq rfl rfl
    · intro k
      show _ = sleeps k s.code
      simp [hc]
    · -- a thread in a queue is in the `Sleep` of `P`
      intro k hm
      have ha : AsleepIn k s.code := h.asleep k _ hm
      rw [hc] at ha
      cases ha
      exact ⟨_, _, rfl⟩
  | destroy hc hd hs =>
    have hoff : Counted initial { s with level := .intOff } := h.of_eq rfl rfl
    have hb := (hi.top hc (by simp)).1
    refine (hoff.testing (notMem_queue hb) ?_ (by simp)).counted s.level
    intro k
    show _ = sleeps k s.code
    simp [hc]
  | clearSpace hc =>
    have hb := (hi.top hc (by simp)).1
    have ho' : Orderly s := .of_not_trapped ho (by rw [hc]; nofun)
    exact h.posted hb (ho'.sleeps_le hb _) (by simp [hc])
  | fork hc hm ht | finish hc hm | instruction hc hm | handled hc hm =>
    exact h.goesOn (hi.own hc).1 (by simp [hc]) rfl rfl rfl
  | yield hc hm => exact h.yieldTo (hi.own hc).1 (by simp [hc])
  | p hc hm =>
    have hoff : Counted initial { s with level := .intOff } := h.of_eq rfl rfl
    refine (hoff.testing (notMem_queue (hi.own hc).1) ?_ (by simp)).counted s.level
    intro k
    show _ = sleeps k s.code
    simp [hc]
  | v hc hm =>
    have hb := (hi.own hc).1
    have ho' : Orderly s := .of_not_trapped ho (by rw [hc]; nofun)
    exact h.posted hb (ho'.sleeps_le hb _) (by simp [hc])
  | ownLevel hc hm =>
    refine h.goesOn (hi.own hc).1 (fun k => ?_) rfl rfl rfl
    split <;> simp [hc]
  | setSpace hc hm ht | writeRegisters hc hm | execute hc hm | raise hc hm => exact h.of_eq rfl rfl

/-! ## Runs -/

theorem start_counted (initial : SemId → Word) (cpu : Cpu) : Counted initial (start initial cpu) := by
  have hsleeps (t : Tid) (k : SemId) : sleeps k ((start initial cpu).stack t) = 0 := by
    by_cases ht : t = 0 <;> simp [start, ht]
  refine ⟨fun k => Sem.sound_new (initial k), fun _ => rfl, hsleeps, by simp [start, Sem.new, Semaphore.new], ?_⟩
  intro t n
  rw [hsleeps]
  exact Nat.zero_le 1

theorem reachable_counted {cpu : Cpu} (h : Reachable initial cpu s) : Counted initial s := by
  have hall : Inv s ∧ Tidy s ∧ Counted initial s := by
    apply Runs.invariant (I := fun s => Inv s ∧ Tidy s ∧ Counted initial s) h
    · exact ⟨start_inv initial cpu, .of_orderly (.inl (start_orderly initial cpu)),
        start_counted initial cpu⟩
    · intro s choice s' hs _ hstep
      obtain ⟨hi, ht, hc⟩ := hs
      refine ⟨step_inv hi hstep, step_tidy hi ht hstep, ?_⟩
      rcases step_cases hi hstep with hm | ⟨reason, rfl⟩
      · exact move_counted hi (ht.running (not_stopped_of_step hstep)) hc hm
      · exact hc.of_eq rfl rfl
  exact hall.2.2

theorem Inv.blocked_of_queue (h : Inv s) {t : Tid} (ht : t ∈ (s.queues.sems k).queue) :
    s.queues.status t = .blocked := by
  have hp : s.queues.place t = .waiting := h.board.place_waiting ht
  rw [Queues.place, Queues.finished_of_place hp (by simp)] at hp
  cases hs : s.queues.status t <;> simp_all [ThreadStatus.place]

/-- **Semaphores lose no permit and no wakeup.** In every state of every run in which the `V`s have not
brought the value past the largest `int`, the value of a semaphore is the initial one with the `V`s
added and the `P`s subtracted, and is not negative. A thread is in the queue once, blocked in this `P`,
and the assertion of `List::Append` does not fail. While threads are queued, at least as many threads as
the value says are woken and will test it; these are the threads that have slept in this `P` and are not
in the queue. -/
theorem semaphore_conservation {initial : SemId → Word} {cpu : Cpu} {s : State}
    (h : Reachable initial cpu s) (k : SemId) (h0 : 0 ≤ (initial k).toInt)
    (hmax : (initial k).toInt + (s.queues.sems k).completedV < 2 ^ 31) :
    (s.queues.sems k).value.toInt =
      (initial k).toInt + (s.queues.sems k).completedV - (s.queues.sems k).completedP ∧
    0 ≤ (s.queues.sems k).value.toInt ∧
    (s.queues.sems k).queue.Nodup ∧
    (∀ choice, s.next choice ≠ some (.error (.assertion .append))) ∧
    (∀ t ∈ (s.queues.sems k).queue, s.queues.status t = .blocked ∧ AsleepIn k (s.stack t)) ∧
    ((s.queues.sems k).queue ≠ [] →
      (s.queues.sems k).value.toInt ≤ (s.queues.sems k).woken.length) ∧
    (s.queues.sems k).woken.Nodup ∧
    ∀ t, sleeps k (s.stack t) =
      (s.queues.sems k).woken.count t + (s.queues.sems k).queue.count t := by
  have hi := reachable_inv h
  have hc := reachable_counted h
  have hs := hc.sound k
  have hb : (s.queues.sems k).Below := by
    rw [Sem.Below, hc.initial]
    exact ⟨h0, hmax⟩
  rw [hs.toInt_value hb]
  refine ⟨?_, hs.nonneg hb, hi.board.waitingOnce k, ?_, ?_, hs.woken hb, hs.once, fun t => hc.frames t k⟩
  · rw [Sem.count, hc.initial]
  · intro choice hn
    cases next_outcome hi hn with
    | stops he => rcases he with he | he | he <;> cases he
  · exact fun t ht => ⟨hi.blocked_of_queue ht, hc.asleep k t ht⟩

def twoWaiters : List Choice :=
  let fork (t : Tid) : List Choice := [.call (.fork t), .go none, .go none, .go none]
  let wait : List Choice :=
    [.go none, .go none, .go none, .go none, .call (.p (.sem 0)), .go none]
  [.call (.setLevel .intOn), .go none] ++ fork 1 ++ fork 2 ++ [.call .yield] ++ wait ++ wait ++
    List.replicate 7 (.go none) ++ [.call (.v (.sem 0))]

theorem semaphore_conservation_twoWaiters : ∃ s, Reachable (fun _ => 0) ⟨0, none, 0⟩ s ∧
    (s.queues.sems (.sem 0)).queue = [2] ∧ (s.queues.sems (.sem 0)).value = 1 ∧
    (s.queues.sems (.sem 0)).woken.length = 1 ∧
    (s.queues.sems (.sem 0)).value.toInt ≤ (s.queues.sems (.sem 0)).woken.length ∧
    AsleepIn (.sem 0) (s.stack 2) := by
  obtain ⟨s, hrun, hq, hv, hw, hmax⟩ := exists_runs step (fun _ _ => True)
    (start (fun _ => 0) ⟨0, none, 0⟩) twoWaiters
    (fun s => (s.queues.sems (.sem 0)).queue = [2] ∧ (s.queues.sems (.sem 0)).value = 1 ∧
      (s.queues.sems (.sem 0)).woken = [1] ∧ (s.queues.sems (.sem 0)).completedV = 1) (by decide +kernel)
  obtain ⟨-, -, -, -, hasleep, hwoken, -⟩ :=
    semaphore_conservation hrun (.sem 0) (by decide) (by rw [hmax]; decide)
  exact ⟨s, hrun, hq, hv, by simp [hw], hwoken (by simp [hq]), (hasleep 2 (by simp [hq])).2⟩

/-- One `V` on a semaphore with the largest initial value. -/
theorem semaphore_negative : ∃ s, Reachable (fun _ => 2147483647) ⟨0, none, 0⟩ s ∧
    (s.queues.sems (.sem 0)).completedV = 1 ∧ (s.queues.sems (.sem 0)).completedP = 0 ∧
    (s.queues.sems (.sem 0)).value.toInt = -2147483648 :=
  exists_runs step (fun _ _ => True) (start (fun _ => 2147483647) ⟨0, none, 0⟩)
    [.call (.v (.sem 0))] _ (by decide +kernel)

end Nachos.Threads
