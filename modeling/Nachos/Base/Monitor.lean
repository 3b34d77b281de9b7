import Mathlib.Data.List.Nodup
import Mathlib.Data.List.Infix
import Mathlib.Logic.Function.Basic
import Mathlib.Tactic.Common

/-!
# Monitors

What the proof of a monitor with a queue rests on, for threads `τ`:

* a semaphore as a lock: its value says whether a thread has the lock (`Exclusive`);
* a first-in first-out queue and the history of the operations on it (`QueueOp`, `replay`);
* waiters, each with a semaphore of its own, which a signaller takes off a queue and posts
  (`Waiters.Inv`).
-/

namespace Base

variable {τ α : Type}

/-! ## Locks -/

/-- The value of a lock's semaphore, and the threads that have the lock. -/
inductive Exclusive (holds : τ → Prop) : Nat → Prop
  | free : (∀ t, ¬ holds t) → Exclusive holds 1
  | taken (t : τ) : (∀ u, holds u ↔ u = t) → Exclusive holds 0

namespace Exclusive

variable {holds holds' : τ → Prop} {value : Nat} {t u : τ}

theorem unique (h : Exclusive holds value) (ht : holds t) (hu : holds u) : t = u := by
  cases h with
  | free hn => exact absurd ht (hn t)
  | taken v hv => rw [(hv t).1 ht, (hv u).1 hu]

theorem not_holds (h : Exclusive holds value) (hv : value ≠ 0) (t : τ) : ¬ holds t := by
  cases h with
  | free hn => exact hn t
  | taken => exact absurd rfl hv

theorem le_one (h : Exclusive holds value) : value ≤ 1 := by
  cases h with
  | free => exact Nat.le_refl 1
  | taken => exact Nat.zero_le 1

theorem congr (h : Exclusive holds value) (hh : ∀ t, holds' t ↔ holds t) :
    Exclusive holds' value := by
  obtain rfl : holds' = holds := funext fun t => propext (hh t)
  exact h

theorem take (h : Exclusive holds value) (hv : value ≠ 0)
    (hh : ∀ u, holds' u ↔ u = t ∨ holds u) : Exclusive holds' (value - 1) := by
  cases h with
  | free hn => exact .taken t fun u => by simp [hh, hn]
  | taken => exact absurd rfl hv

theorem give (h : Exclusive holds value) (ht : holds t)
    (hh : ∀ u, holds' u ↔ u ≠ t ∧ holds u) : Exclusive holds' (value + 1) := by
  cases h with
  | free hn => exact absurd ht (hn t)
  | taken v hv =>
    obtain rfl := (hv t).1 ht
    exact .free fun u => by simp [hh, hv]

end Exclusive

/-! ## Queues -/

/-- An operation on a queue, and who has done it. -/
inductive QueueOp (τ α : Type)
  | append (t : τ) (item : α)
  | removeFront (t : τ) (item : α)
  deriving DecidableEq

namespace QueueOp

def appended? : QueueOp τ α → Option α
  | .append _ item => some item
  | .removeFront _ _ => none

def removed? : QueueOp τ α → Option α
  | .append _ _ => none
  | .removeFront _ item => some item

def removedBy? [DecidableEq τ] (t : τ) : QueueOp τ α → Option α
  | .append _ _ => none
  | .removeFront u item => if u = t then some item else none

/-- What the operation does to a queue; a removal is of the first item. -/
def apply [DecidableEq α] (items : List α) : QueueOp τ α → Option (List α)
  | .append _ item => some (items ++ [item])
  | .removeFront _ item =>
    match items with
    | [] => none
    | first :: rest => if first = item then some rest else none

end QueueOp

/-- The items that a history appended, and those that it removed, in order. -/
def appended (log : List (QueueOp τ α)) : List α := log.filterMap QueueOp.appended?

def removed (log : List (QueueOp τ α)) : List α := log.filterMap QueueOp.removed?

/-- The last item that the thread removed. -/
def lastRemoved [DecidableEq τ] (log : List (QueueOp τ α)) (t : τ) : Option α :=
  (log.filterMap (QueueOp.removedBy? t)).getLast?

/-- The queue after a history, if the history is one of a queue. -/
def replay [DecidableEq α] (log : List (QueueOp τ α)) : Option (List α) :=
  log.foldlM QueueOp.apply []

section

variable [DecidableEq α] {log : List (QueueOp τ α)} {items : List α} {op : QueueOp τ α}

theorem removed_append_of_foldlM {start : List α} (h : log.foldlM QueueOp.apply start = some items) :
    removed log ++ items = start ++ appended log := by
  induction log generalizing start with
  | nil =>
    cases h
    simp [removed, appended]
  | cons op log ih =>
    rw [List.foldlM_cons] at h
    obtain ⟨mid, hop, h⟩ := Option.bind_eq_some_iff.1 h
    have ih := ih h
    cases op with
    | append t item =>
      cases hop
      simpa [removed, appended, List.filterMap_cons, QueueOp.appended?, QueueOp.removed?] using ih
    | removeFront t item =>
      cases start with
      | nil => cases hop
      | cons first rest =>
        simp only [QueueOp.apply] at hop
        split at hop
        · rename_i hi
          cases hop
          simpa [removed, appended, List.filterMap_cons, QueueOp.appended?, QueueOp.removed?, hi]
            using ih
        · cases hop

/-- What was removed and what is left are together what was appended, in order. -/
theorem removed_append_of_replay (h : replay log = some items) :
    removed log ++ items = appended log := by
  simpa using removed_append_of_foldlM h

theorem replay_concat (h : replay log = some items) : replay (log ++ [op]) = op.apply items := by
  unfold replay at h ⊢
  rw [List.foldlM_append, h]
  cases h : op.apply items <;> simp [h]

end

section

variable [DecidableEq τ] {log : List (QueueOp τ α)} {t u : τ} {item : α}

@[simp] theorem lastRemoved_append : lastRemoved (log ++ [.append u item]) t = lastRemoved log t := by
  simp [lastRemoved, QueueOp.removedBy?]

@[simp] theorem lastRemoved_removeFront_self :
    lastRemoved (log ++ [.removeFront t item]) t = some item := by
  simp [lastRemoved, QueueOp.removedBy?]

theorem lastRemoved_removeFront_of_ne (h : u ≠ t) :
    lastRemoved (log ++ [.removeFront u item]) t = lastRemoved log t := by
  simp [lastRemoved, QueueOp.removedBy?, h]

end

/-! ## Waiters -/

/-- Waiters, numbered as they are made. -/
structure Waiters (τ : Type) where
  /-- the thread has still to pass the semaphore of the waiter -/
  waits : τ → Nat → Prop
  /-- the thread has taken the waiter off the queue, and has still to post it -/
  posts : τ → Nat → Prop
  /-- the thread has made the waiter, and has still to drop it -/
  owns : τ → Nat → Prop
  value : Nat → Nat
  queue : List Nat
  signalled : List Nat
  next : Nat
  dropped : Nat → Bool

namespace Waiters

structure Inv (s : Waiters τ) : Prop where
  unmade : ∀ w, s.next ≤ w → s.dropped w = false
  owned : ∀ t w, s.owns t w → w < s.next ∧ s.dropped w = false
  one : ∀ t u w, s.owns t w → s.owns u w → t = u
  waiting : ∀ t w, s.waits t w → s.owns t w
  queued : ∀ w ∈ s.queue, (∃ t, s.waits t w) ∧ s.value w = 0 ∧ ∀ t, ¬ s.posts t w
  once : s.queue.Nodup
  posting : ∀ t w, s.posts t w →
    (∃ u, s.waits u w) ∧ s.value w = 0 ∧ ∀ u, s.posts u w → u = t
  posted : ∀ w, s.value w ≠ 0 → s.value w = 1 ∧ ∃ t, s.waits t w
  signalled : ∀ w, w ∈ s.signalled ↔ w ∉ s.queue ∧ ∃ t, s.owns t w
  signalledOnce : s.signalled.Nodup

variable {s s' : Waiters τ} {t : τ} {w : Nat}

theorem Inv.lt_next (h : s.Inv) (hw : w ∈ s.queue) : w < s.next := by
  obtain ⟨⟨t, ht⟩, -⟩ := h.queued w hw
  exact (h.owned t w (h.waiting t w ht)).1

theorem Inv.value_next (h : s.Inv) (hw : s.next ≤ w) : s.value w = 0 := by
  apply Classical.byContradiction
  intro hv
  obtain ⟨-, t, ht⟩ := h.posted w hv
  exact absurd (h.owned t w (h.waiting t w ht)).1 (by omega)

theorem Inv.congr (h : s.Inv) (hwaits : ∀ u v, s'.waits u v ↔ s.waits u v)
    (hposts : ∀ u v, s'.posts u v ↔ s.posts u v) (howns : ∀ u v, s'.owns u v ↔ s.owns u v)
    (hvalue : ∀ v, s'.value v = s.value v) (hqueue : s'.queue = s.queue)
    (hsignalled : s'.signalled = s.signalled) (hnext : s'.next = s.next)
    (hdropped : s'.dropped = s.dropped) : s'.Inv := by
  cases s
  cases s'
  obtain rfl := funext fun u => funext fun v => propext (hwaits u v)
  obtain rfl := funext fun u => funext fun v => propext (hposts u v)
  obtain rfl := funext fun u => funext fun v => propext (howns u v)
  obtain rfl := funext hvalue
  cases hqueue
  cases hsignalled
  cases hnext
  cases hdropped
  exact h

/-- A thread makes a waiter and puts it in the queue. -/
def enlist (s : Waiters τ) (t : τ) : Waiters τ :=
  { s with
    waits u v := s.waits u v ∨ u = t ∧ v = s.next
    owns u v := s.owns u v ∨ u = t ∧ v = s.next
    queue := s.queue ++ [s.next]
    next := s.next + 1 }

theorem Inv.enlist (h : s.Inv) (t : τ) : (s.enlist t).Inv := by
  have hnone (u : τ) : ¬ s.owns u s.next := fun ho => absurd (h.owned u _ ho).1 (by omega)
  have hpost (u : τ) : ¬ s.posts u s.next := by
    intro hp
    obtain ⟨⟨v, hv⟩, -⟩ := h.posting u _ hp
    exact hnone v (h.waiting v _ hv)
  have hout : s.next ∉ s.queue := fun hm => absurd (h.lt_next hm) (by omega)
  refine ⟨?_, ?_, ?_, ?_, ?_, ?_, ?_, ?_, ?_, h.signalledOnce⟩
  · exact fun v hv => h.unmade v (Nat.le_of_succ_le hv)
  · rintro u v (ho | ⟨-, rfl⟩)
    · obtain ⟨hlt, hd⟩ := h.owned u v ho
      exact ⟨Nat.lt_succ_of_lt hlt, hd⟩
    · exact ⟨Nat.lt_succ_self _, h.unmade _ (Nat.le_refl _)⟩
  · rintro u u' v (hu | ⟨rfl, rfl⟩) (hu' | ⟨rfl, hv⟩)
    · exact h.one u u' v hu hu'
    · exact absurd (hv ▸ hu) (hnone u)
    · exact absurd hu' (hnone u')
    · rfl
  · exact fun u v hw => hw.imp_left (h.waiting u v)
  · intro v hv
    rcases List.mem_append.1 hv with hv | hv
    · obtain ⟨⟨u, hu⟩, h0, hp⟩ := h.queued v hv
      exact ⟨⟨u, .inl hu⟩, h0, hp⟩
    · obtain rfl := List.mem_singleton.1 hv
      exact ⟨⟨t, .inr ⟨rfl, rfl⟩⟩, h.value_next (Nat.le_refl _), hpost⟩
  · refine List.nodup_append.2 ⟨h.once, List.nodup_singleton _, ?_⟩
    grind
  · intro u v hp
    obtain ⟨⟨u', hu'⟩, h0, h1⟩ := h.posting u v hp
    exact ⟨⟨u', .inl hu'⟩, h0, h1⟩
  · intro v hv
    obtain ⟨h1, u, hu⟩ := h.posted v hv
    exact ⟨h1, u, .inl hu⟩
  · intro v
    refine (h.signalled v).trans ?_
    by_cases hv : v = s.next
    · subst hv
      simp [Waiters.enlist, hnone]
    · simp [Waiters.enlist, hv]

/-- A signaller takes the first waiter off the queue. -/
def pick (s : Waiters τ) (t : τ) (w : Nat) (ws : List Nat) : Waiters τ :=
  { s with
    posts u v := s.posts u v ∨ u = t ∧ v = w
    queue := ws
    signalled := s.signalled ++ [w] }

theorem Inv.pick (h : s.Inv) {ws : List Nat} (hq : s.queue = w :: ws) (t : τ) :
    (s.pick t w ws).Inv := by
  have hw : w ∈ s.queue := by simp [hq]
  have honce := h.once
  rw [hq, List.nodup_cons] at honce
  obtain ⟨hwaiting, hzero, hnone⟩ := h.queued w hw
  have hnot : w ∉ s.signalled := fun hm => ((h.signalled w).1 hm).1 hw
  refine { h with once := honce.2, queued := ?_, posting := ?_, signalled := ?_, signalledOnce := ?_ }
  · intro v hv
    obtain ⟨hu, h0, hp⟩ := h.queued v (by rw [hq]; exact .tail _ hv)
    refine ⟨hu, h0, ?_⟩
    rintro u (hu' | ⟨-, rfl⟩)
    · exact hp u hu'
    · exact honce.1 hv
  · rintro u v (hp | ⟨rfl, rfl⟩)
    · obtain ⟨hu, h0, h1⟩ := h.posting u v hp
      refine ⟨hu, h0, ?_⟩
      rintro u' (hu' | ⟨rfl, rfl⟩)
      · exact h1 u' hu'
      · exact absurd hp (hnone u)
    · refine ⟨hwaiting, hzero, ?_⟩
      rintro u' (hu' | ⟨rfl, -⟩)
      · exact absurd hu' (hnone u')
      · rfl
  · intro v
    show v ∈ s.signalled ++ [w] ↔ v ∉ ws ∧ _
    rw [List.mem_append, List.mem_singleton, h.signalled, hq, List.mem_cons]
    by_cases hv : v = w
    · subst hv
      obtain ⟨u, hu⟩ := hwaiting
      simp only [or_true, true_iff]
      exact ⟨honce.1, u, h.waiting u v hu⟩
    · simp [hv, Waiters.pick]
  · refine List.nodup_append.2 ⟨h.signalledOnce, List.nodup_singleton w, ?_⟩
    grind

/-- The signaller posts the waiter. -/
def post (s : Waiters τ) (t : τ) (w : Nat) : Waiters τ :=
  { s with
    posts u v := s.posts u v ∧ ¬ (u = t ∧ v = w)
    value v := if v = w then s.value w + 1 else s.value v }

theorem Inv.post (h : s.Inv) (ht : s.posts t w) : (s.post t w).Inv := by
  obtain ⟨hwaiting, hzero, hone⟩ := h.posting t w ht
  refine { h with queued := ?_, posting := ?_, posted := ?_ }
  · intro v hv
    obtain ⟨hu, h0, hp⟩ := h.queued v hv
    have hvw : v ≠ w := by
      rintro rfl
      exact hp t ht
    exact ⟨hu, (if_neg hvw).trans h0, fun u hu' => hp u hu'.1⟩
  · rintro u v ⟨hp, hne⟩
    obtain ⟨hu, h0, h1⟩ := h.posting u v hp
    have hvw : v ≠ w := by
      rintro rfl
      exact hne ⟨hone u hp, rfl⟩
    exact ⟨hu, (if_neg hvw).trans h0, fun u' hu' => h1 u' hu'.1⟩
  · intro v hv
    by_cases hvw : v = w
    · subst hvw
      exact ⟨by simp [Waiters.post, hzero], hwaiting⟩
    · simp only [Waiters.post, if_neg hvw] at hv ⊢
      exact h.posted v hv

/-- The thread that waits passes the semaphore. -/
def pass (s : Waiters τ) (t : τ) (w : Nat) : Waiters τ :=
  { s with
    waits u v := s.waits u v ∧ ¬ (u = t ∧ v = w)
    value v := if v = w then s.value w - 1 else s.value v }

theorem Inv.pass (h : s.Inv) (t : τ) (hv : s.value w ≠ 0) : (s.pass t w).Inv := by
  have hkeep {v : Nat} (hvw : v ≠ w) (hu : ∃ u, s.waits u v) : ∃ u, (s.pass t w).waits u v := by
    obtain ⟨u, hu⟩ := hu
    exact ⟨u, hu, fun he => hvw he.2⟩
  refine { h with
    waiting := fun u v hu => h.waiting u v hu.1, queued := ?_, posting := ?_, posted := ?_ }
  · intro v hm
    obtain ⟨hu, h0, hp⟩ := h.queued v hm
    have hvw : v ≠ w := by
      rintro rfl
      exact hv h0
    exact ⟨hkeep hvw hu, (if_neg hvw).trans h0, hp⟩
  · intro u v hp
    obtain ⟨hu, h0, hone⟩ := h.posting u v hp
    have hvw : v ≠ w := by
      rintro rfl
      exact hv h0
    exact ⟨hkeep hvw hu, (if_neg hvw).trans h0, hone⟩
  · intro v hne
    have h1 := (h.posted w hv).1
    by_cases hvw : v = w
    · simp [Waiters.pass, hvw, h1] at hne
    · have hval : (s.pass t w).value v = s.value v := if_neg hvw
      rw [hval] at hne ⊢
      exact (h.posted v hne).imp_right (hkeep hvw)

/-- The thread drops its waiter. -/
def drop (s : Waiters τ) (t : τ) (w : Nat) : Waiters τ :=
  { s with
    owns u v := s.owns u v ∧ ¬ (u = t ∧ v = w)
    signalled := s.signalled.erase w
    dropped := Function.update s.dropped w true }

theorem Inv.drop (h : s.Inv) (ht : s.owns t w) (hpassed : ¬ s.waits t w) : (s.drop t w).Inv := by
  have hdropped {v : Nat} (hv : v ≠ w) : (s.drop t w).dropped v = s.dropped v :=
    Function.update_of_ne hv ..
  refine { h with
    unmade := ?_, owned := ?_, one := ?_, waiting := ?_, signalled := ?_
    signalledOnce := h.signalledOnce.erase w }
  · intro v hv
    have hvw : v ≠ w := by
      rintro rfl
      exact absurd (h.owned t v ht).1 (Nat.not_lt_of_le hv)
    rw [hdropped hvw]
    exact h.unmade v hv
  · rintro u v ⟨hu, hne⟩
    have hvw : v ≠ w := by
      rintro rfl
      exact hne ⟨h.one u t v hu ht, rfl⟩
    rw [hdropped hvw]
    exact h.owned u v hu
  · exact fun u u' v hu hu' => h.one u u' v hu.1 hu'.1
  · intro u v hu
    refine ⟨h.waiting u v hu, ?_⟩
    rintro ⟨rfl, rfl⟩
    exact hpassed hu
  · intro v
    refine h.signalledOnce.mem_erase_iff.trans ?_
    rw [h.signalled]
    by_cases hvw : v = w
    · subst hvw
      have hone : ∀ u, s.owns u v → u = t := fun u hu => h.one u t v hu ht
      simpa [Waiters.drop] using fun _ => hone
    · simp [Waiters.drop, hvw]

end Waiters

end Base
