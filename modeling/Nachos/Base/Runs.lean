import Mathlib.Logic.Relation
import Mathlib.Tactic.Common

/-!
# Runs of a step function

A system is a function `step s i`: the state after input `i`, or `none` when the input is not possible
in `s`. `Runs step C s0 s`: a run from `s0` to `s` whose steps all meet the condition `C`. The rule for
them is `Runs.invariant`; `runChecked` executes a list of inputs. `RunsOut step i s s'`: with the input
`i` again and again, the system comes to `s'`, where `i` is not possible.
-/

namespace Base

variable {σ ι : Type}

/-- The states of the runs from `s0` whose steps meet `C`. -/
inductive Runs (step : σ → ι → Option σ) (C : σ → ι → Prop) (s0 : σ) : σ → Prop
  | start : Runs step C s0 s0
  | step {s s' : σ} {i : ι} : Runs step C s0 s → C s i → step s i = some s' → Runs step C s0 s'

variable {step : σ → ι → Option σ} {C C' : σ → ι → Prop} {s0 s s' : σ}

/-- **The rule of invariants**: what the first state has and every step keeps holds in every run. -/
theorem Runs.invariant {I : σ → Prop} (h : Runs step C s0 s) (h0 : I s0)
    (hstep : ∀ s i s', I s → C s i → step s i = some s' → I s') : I s := by
  induction h with
  | start => exact h0
  | step _ hC hs ih => exact hstep _ _ _ ih hC hs

theorem Runs.mono (h : Runs step C s0 s) (hC : ∀ s i, C s i → C' s i) : Runs step C' s0 s := by
  induction h with
  | start => exact .start
  | step _ hc hs ih => exact .step ih (hC _ _ hc) hs

theorem Runs.trans (h : Runs step C s0 s) (h' : Runs step C s s') : Runs step C s0 s' := by
  induction h' with
  | start => exact h
  | step _ hc hs ih => exact .step ih hc hs

/-- A list of inputs, each of which has to pass the check. -/
def runChecked (step : σ → ι → Option σ) (check : σ → ι → Bool) (s : σ) : List ι → Option σ
  | [] => some s
  | i :: inputs => if check s i then (step s i).bind (runChecked step check · inputs) else none

theorem runs_of_runChecked {check : σ → ι → Bool} (hC : ∀ s i, check s i = true → C s i)
    {inputs : List ι} (h : runChecked step check s inputs = some s') : Runs step C s s' := by
  induction inputs generalizing s with
  | nil =>
    cases h
    exact .start
  | cons i inputs ih =>
    rw [runChecked] at h
    split at h
    · rename_i hc
      obtain ⟨s1, hs, h⟩ := Option.bind_eq_some_iff.1 h
      exact (Runs.step .start (hC _ _ hc) hs).trans (ih h)
    · cases h

theorem exists_runs (step : σ → ι → Option σ) (C : σ → ι → Prop) [∀ s i, Decidable (C s i)] (s0 : σ)
    (inputs : List ι) (Q : σ → Prop) [DecidablePred Q]
    (h : (runChecked step (fun s i => decide (C s i)) s0 inputs).any (fun s => decide (Q s)) = true) :
    ∃ s, Runs step C s0 s ∧ Q s := by
  obtain ⟨s, hs, hQ⟩ := (Option.any_eq_true _ _).1 h
  exact ⟨s, runs_of_runChecked (fun _ _ => of_decide_eq_true) hs, of_decide_eq_true hQ⟩

theorem exists_runs_of_ok {ε : Type} (start : Except ε σ) (step : σ → ι → Option σ)
    (C : σ → ι → Prop) [∀ s i, Decidable (C s i)] (inputs : List ι) (Q : σ → Prop) [DecidablePred Q]
    (h : (do
      let s0 ← start
      return (runChecked step (fun s i => decide (C s i)) s0 inputs).any fun s => decide (Q s) :
        Except ε Bool) = .ok true) : ∃ s0 s, start = .ok s0 ∧ Runs step C s0 s ∧ Q s := by
  cases start with
  | error => cases h
  | ok s0 =>
    obtain ⟨s, hrun, hQ⟩ := exists_runs step C s0 inputs Q (Except.ok.inj h)
    exact ⟨s0, s, rfl, hrun, hQ⟩

/-! ## One input, again and again -/

/-- From `s` to `s'` with the input `i` only. -/
def Repeats (step : σ → ι → Option σ) (i : ι) : σ → σ → Prop :=
  Relation.ReflTransGen fun s s' => step s i = some s'

/-- From `s` to `s'` with the input `i`, until it is not possible any more. -/
def RunsOut (step : σ → ι → Option σ) (i : ι) (s s' : σ) : Prop :=
  Repeats step i s s' ∧ step s' i = none

variable {i : ι} {s1 : σ}

theorem RunsOut.head (hs : step s i = some s1) (h : RunsOut step i s1 s') : RunsOut step i s s' :=
  ⟨.head hs h.1, h.2⟩

theorem RunsOut.start (h : step s i = none) : RunsOut step i s s := ⟨.refl, h⟩

/-- **The rule of invariants** for one input. -/
theorem Repeats.invariant {I : σ → Prop} (h : Repeats step i s s') (h0 : I s)
    (hstep : ∀ s s', I s → step s i = some s' → I s') : I s' := by
  induction h with
  | refl => exact h0
  | tail _ hs ih => exact hstep _ _ ih hs

theorem repeats_of_runChecked {check : σ → ι → Bool} {k : Nat}
    (h : runChecked step check s (List.replicate k i) = some s') : Repeats step i s s' := by
  induction k generalizing s with
  | zero =>
    cases h
    exact .refl
  | succ k ih =>
    rw [List.replicate_succ, runChecked] at h
    split at h
    · obtain ⟨s1, hs, h⟩ := Option.bind_eq_some_iff.1 h
      exact .head hs (ih h)
    · cases h

theorem Repeats.eq_of_none (h : Repeats step i s s') (hs : step s i = none) : s' = s := by
  rcases h.cases_head with rfl | ⟨_, hs', _⟩
  · rfl
  · cases hs.symm.trans hs'

theorem RunsOut.unique (h : RunsOut step i s s1) (h' : RunsOut step i s s') : s1 = s' := by
  have hunique : Relator.RightUnique fun s s' => step s i = some s' :=
    fun _ _ _ ha hb => Option.some.inj (ha.symm.trans hb)
  rcases h.1.total_of_right_unique hunique h'.1 with h1 | h1
  · exact (Repeats.eq_of_none h1 h.2).symm
  · exact Repeats.eq_of_none h1 h'.2

end Base
