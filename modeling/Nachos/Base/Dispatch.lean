import Mathlib.Data.List.Nodup
import Mathlib.Logic.Function.Basic
import Mathlib.Tactic.Common

/-!
# Dispatchers

Tasks `τ` that share one processor: a ready list, and queues `κ` on which tasks wait. A `Board` has
the lists, the place that is noted for each task, and the history of the ready list.

`Board.Inv b cpu`: the notes agree with the lists, every task is on one list at most and once, `cpu`
is the one that is noted as running (`none` between two tasks), and the ready list is served in order.
Each operation of a dispatcher keeps it.
-/

namespace Base

open Function

/-- What is noted for a task. -/
inductive Place
  | fresh
  | running
  | ready
  | waiting
  | retired
  deriving DecidableEq, Repr

@[ext]
structure Board (τ κ : Type) where
  ready : List τ
  waiting : κ → List τ
  place : τ → Place
  /-- the tasks that were made ready, and those that were taken off the ready list, in order -/
  readied : List τ
  served : List τ

namespace Board

variable {τ κ : Type}

/-! ## The invariant -/

structure Inv (b : Board τ κ) (cpu : Option τ) : Prop where
  running : ∀ t, b.place t = .running ↔ cpu = some t
  ready : ∀ t, t ∈ b.ready ↔ b.place t = .ready
  readyOnce : b.ready.Nodup
  waiting : ∀ t, (∃ k, t ∈ b.waiting k) ↔ b.place t = .waiting
  waitingOnce : ∀ k, (b.waiting k).Nodup
  oneQueue : ∀ t k k', t ∈ b.waiting k → t ∈ b.waiting k' → k = k'
  fifo : b.readied = b.served ++ b.ready

variable {b : Board τ κ} {cpu : Option τ} {t : τ}

theorem Inv.place_waiting (h : b.Inv cpu) {k : κ} (ht : t ∈ b.waiting k) :
    b.place t = .waiting := (h.waiting t).1 ⟨k, ht⟩

theorem Inv.notMem_ready (h : b.Inv cpu) (ht : b.place t ≠ .ready) : t ∉ b.ready :=
  fun hm => ht ((h.ready t).1 hm)

theorem Inv.notMem_waiting (h : b.Inv cpu) (ht : b.place t ≠ .waiting) (k : κ) :
    t ∉ b.waiting k := fun hm => ht (h.place_waiting hm)

variable [DecidableEq τ]

/-- Where a task is that is neither fresh nor retired: on the processor, or on one list, once. -/
theorem Inv.exactly_one (h : b.Inv cpu) (hf : b.place t ≠ .fresh) (hr : b.place t ≠ .retired) :
    (cpu = some t ∧ b.place t = .running ∧ t ∉ b.ready ∧ ∀ k, t ∉ b.waiting k) ∨
    (cpu ≠ some t ∧ b.place t = .ready ∧ b.ready.count t = 1 ∧ ∀ k, t ∉ b.waiting k) ∨
    (cpu ≠ some t ∧ b.place t = .waiting ∧ t ∉ b.ready ∧
      ∃ k, (b.waiting k).count t = 1 ∧ ∀ k', k' ≠ k → t ∉ b.waiting k') := by
  have hcpu : b.place t ≠ .running → cpu ≠ some t := fun hn hc => hn ((h.running t).2 hc)
  cases hp : b.place t with
  | fresh => exact absurd hp hf
  | retired => exact absurd hp hr
  | running =>
    refine .inl ⟨(h.running t).1 hp, rfl, h.notMem_ready (by simp [hp]), ?_⟩
    exact h.notMem_waiting (by simp [hp])
  | ready =>
    refine .inr (.inl ⟨hcpu (by simp [hp]), rfl, ?_, h.notMem_waiting (by simp [hp])⟩)
    exact List.count_eq_one_of_mem h.readyOnce ((h.ready t).2 hp)
  | waiting =>
    obtain ⟨k, hk⟩ := (h.waiting t).2 hp
    refine .inr (.inr ⟨hcpu (by simp [hp]), rfl, h.notMem_ready (by simp [hp]), k, ?_, ?_⟩)
    · exact List.count_eq_one_of_mem (h.waitingOnce k) hk
    · intro k' hne hk'
      exact hne (h.oneQueue t k' k hk' hk)

/-! ## The ready list and the processor -/

def makeReady (b : Board τ κ) (t : τ) : Board τ κ :=
  { b with
    ready := b.ready ++ [t]
    place := update b.place t .ready
    readied := b.readied ++ [t] }

/-- The first task of the ready list runs. -/
def dispatch (b : Board τ κ) : Board τ κ :=
  match b.ready with
  | [] => b
  | t :: ts =>
    { b with ready := ts, place := update b.place t .running, served := b.served ++ [t] }

def retire (b : Board τ κ) (t : τ) : Board τ κ :=
  { b with place := update b.place t .retired }

theorem Inv.makeReady (h : b.Inv cpu) (hr : b.place t ≠ .ready) (hw : b.place t ≠ .waiting) :
    (b.makeReady t).Inv (if cpu = some t then none else cpu) where
  running u := by
    by_cases hu : u = t
    · subst hu
      by_cases hc : cpu = some u <;> simp [Board.makeReady, hc]
    · have := h.running u
      by_cases hc : cpu = some t
      · simp_all [Board.makeReady, Ne.symm hu]
      · simp_all [Board.makeReady]
  ready u := by
    by_cases hu : u = t
    · simp [Board.makeReady, hu]
    · simpa [Board.makeReady, hu] using h.ready u
  readyOnce := by
    have hm := h.notMem_ready hr
    rw [Board.makeReady, List.nodup_append]
    exact ⟨h.readyOnce, List.nodup_singleton t, by grind⟩
  waiting u := by
    by_cases hu : u = t
    · subst hu
      simpa [Board.makeReady] using h.notMem_waiting hw
    · simpa [Board.makeReady, hu] using h.waiting u
  waitingOnce := h.waitingOnce
  oneQueue := h.oneQueue
  fifo := by simp [Board.makeReady, h.fifo]

theorem Inv.dispatch (h : b.Inv none) {ts : List τ} (hb : b.ready = t :: ts) :
    b.dispatch.Inv (some t) := by
  have hp : b.place t = .ready := (h.ready t).1 (by simp [hb])
  have hts : t ∉ ts ∧ ts.Nodup := List.nodup_cons.1 (hb ▸ h.readyOnce)
  unfold Board.dispatch
  rw [hb]
  refine ⟨?_, ?_, hts.2, ?_, h.waitingOnce, h.oneQueue, ?_⟩
  · intro u
    by_cases hu : u = t
    · simp [hu]
    · simpa [hu, Ne.symm hu] using h.running u
  · intro u
    by_cases hu : u = t
    · subst hu
      simpa using hts.1
    · simpa [hu, hb] using h.ready u
  · intro u
    by_cases hu : u = t
    · subst hu
      simpa using h.notMem_waiting (t := u) (by simp [hp])
    · simpa [hu] using h.waiting u
  · simp [h.fifo, hb]

theorem Inv.retire (h : b.Inv (some t)) : (b.retire t).Inv none := by
  have hrun : b.place t = .running := (h.running t).2 rfl
  refine ⟨?_, ?_, h.readyOnce, ?_, h.waitingOnce, h.oneQueue, h.fifo⟩
  · intro u
    by_cases hu : u = t
    · simp [Board.retire, hu]
    · simpa [Board.retire, hu, Ne.symm hu] using h.running u
  · intro u
    by_cases hu : u = t
    · subst hu
      simpa [Board.retire] using h.notMem_ready (by simp [hrun])
    · simpa [Board.retire, hu] using h.ready u
  · intro u
    by_cases hu : u = t
    · subst hu
      simpa [Board.retire] using h.notMem_waiting (t := u) (by simp [hrun])
    · simpa [Board.retire, hu] using h.waiting u

/-! ## The queues -/

variable [DecidableEq κ]

/-- The task waits on a queue. -/
def wait (b : Board τ κ) (t : τ) (k : κ) : Board τ κ :=
  { b with
    waiting := update b.waiting k (b.waiting k ++ [t])
    place := update b.place t .waiting }

/-- The first task of a queue is made ready. -/
def wake (b : Board τ κ) (k : κ) : Board τ κ :=
  match b.waiting k with
  | [] => b
  | t :: ts => { b with waiting := update b.waiting k ts }.makeReady t

theorem Inv.wait (h : b.Inv (some t)) (k : κ) : (b.wait t k).Inv none := by
  have hrun : b.place t = .running := (h.running t).2 rfl
  have hmem (u : τ) (k' : κ) :
      u ∈ (b.wait t k).waiting k' ↔ u ∈ b.waiting k' ∨ (k' = k ∧ u = t) := by
    by_cases hk : k' = k
    · subst hk
      simp [Board.wait]
    · simp [Board.wait, hk]
  refine ⟨?_, ?_, h.readyOnce, ?_, ?_, ?_, h.fifo⟩
  · intro u
    by_cases hu : u = t
    · simp [Board.wait, hu]
    · simpa [Board.wait, hu, Ne.symm hu] using h.running u
  · intro u
    by_cases hu : u = t
    · subst hu
      simpa [Board.wait] using h.notMem_ready (by simp [hrun])
    · simpa [Board.wait, hu] using h.ready u
  · intro u
    simp only [hmem]
    by_cases hu : u = t
    · subst hu
      simp only [Board.wait, update_self, iff_true]
      exact ⟨k, .inr ⟨rfl, trivial⟩⟩
    · simpa [Board.wait, hu] using h.waiting u
  · intro k'
    by_cases hk : k' = k
    · subst hk
      have hm := h.notMem_waiting (t := t) (by simp [hrun]) k'
      simp only [Board.wait, update_self, List.nodup_append]
      exact ⟨h.waitingOnce k', List.nodup_singleton t, by grind⟩
    · simpa [Board.wait, hk] using h.waitingOnce k'
  · intro u k1 k2 h1 h2
    have hno := h.notMem_waiting (t := t) (by simp [hrun])
    rw [hmem] at h1 h2
    rcases h1 with h1 | ⟨rfl, rfl⟩
    · rcases h2 with h2 | ⟨rfl, rfl⟩
      · exact h.oneQueue u k1 k2 h1 h2
      · exact absurd h1 (hno k1)
    · rcases h2 with h2 | ⟨rfl, -⟩
      · exact absurd h2 (hno k2)
      · rfl

theorem Inv.wake (h : b.Inv cpu) (k : κ) : (b.wake k).Inv cpu := by
  unfold Board.wake
  split
  · exact h
  rename_i t ts hk
  have ht : t ∈ b.waiting k := by simp [hk]
  have hp : b.place t = .waiting := h.place_waiting ht
  have hts : t ∉ ts ∧ ts.Nodup := List.nodup_cons.1 (hk ▸ h.waitingOnce k)
  have hcpu : cpu ≠ some t := fun hc => by simp [(h.running t).2 hc] at hp
  have hmem (u : τ) (k' : κ) :
      u ∈ update b.waiting k ts k' ↔ u ∈ b.waiting k' ∧ u ≠ t := by
    by_cases hkk : k' = k
    · subst hkk
      rw [update_self, hk, List.mem_cons]
      grind
    · rw [update_of_ne hkk]
      refine ⟨fun hu => ⟨hu, ?_⟩, And.left⟩
      rintro rfl
      exact hkk (h.oneQueue u k' k hu ht)
  refine ⟨?_, ?_, ?_, ?_, ?_, ?_, ?_⟩
  · intro u
    by_cases hu : u = t
    · subst hu
      simp [Board.makeReady, hcpu]
    · simpa [Board.makeReady, hu] using h.running u
  · intro u
    by_cases hu : u = t
    · simp [Board.makeReady, hu]
    · simpa [Board.makeReady, hu] using h.ready u
  · have hm := h.notMem_ready (t := t) (by simp [hp])
    simp only [Board.makeReady, List.nodup_append]
    exact ⟨h.readyOnce, List.nodup_singleton t, by grind⟩
  · intro u
    simp only [Board.makeReady, hmem]
    by_cases hu : u = t
    · simp [hu]
    · simpa [hu] using h.waiting u
  · intro k'
    by_cases hkk : k' = k
    · subst hkk
      simpa [Board.makeReady] using hts.2
    · simpa [Board.makeReady, hkk] using h.waitingOnce k'
  · intro u k1 k2 h1 h2
    simp only [Board.makeReady, hmem] at h1 h2
    exact h.oneQueue u k1 k2 h1.1 h2.1
  · simp [Board.makeReady, h.fifo]

end Board

end Base
