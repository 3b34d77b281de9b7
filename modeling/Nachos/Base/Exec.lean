import Mathlib.Order.Defs.Unbundled
import Mathlib.Tactic.Common

/-!
# State-passing code that can stop

`EStateM ε σ` runs on a state and either returns or stops with an `ε`; the state reached is kept in
both cases. `Triple P x Q E`: from a state with `P`, `x` returns with `Q` or stops with `E`. `Keeps`
is the case of an invariant. The rules follow the structure of the code, so that a property of a
long routine is a property of each of its steps.
-/

namespace Base

variable {ε σ α β : Type} {x y : EStateM ε σ α} {f : α → EStateM ε σ β} {s s1 s' : σ} {a : α}

/-- The state a run ends in, returned or stopped. -/
def final : EStateM.Result ε σ α → σ
  | .ok _ s => s
  | .error _ s => s

/-- The value or the stop a run ends with. -/
def outcome : EStateM.Result ε σ α → Except ε α
  | .ok a _ => .ok a
  | .error e _ => .error e

theorem run_bind_ok {b : β} (h : (x >>= f).run s = .ok b s') :
    ∃ a s1, x.run s = .ok a s1 ∧ (f a).run s1 = .ok b s' := by
  rw [EStateM.run_bind] at h
  cases hx : x.run s with
  | ok a s1 =>
    rw [hx] at h
    exact ⟨a, s1, rfl, h⟩
  | error e s1 =>
    rw [hx] at h
    cases h

theorem run_step (h : x.run s = .ok a s1) : (x >>= f).run s = (f a).run s1 := by
  rw [EStateM.run_bind, h]

theorem run_get_bind {f : σ → EStateM ε σ β} :
    ((MonadState.get : EStateM ε σ σ) >>= f).run s = (f s).run s := rfl

theorem run_discard (x : EStateM ε σ α) (s : σ) : (discard x : EStateM ε σ PUnit).run s =
    match x.run s with
    | .ok _ s' => .ok ⟨⟩ s'
    | .error e s' => .error e s' := rfl

theorem run_discard_bind {f : PUnit → EStateM ε σ β} (h : x.run s = .ok a s1) :
    (discard x >>= f).run s = (f ⟨⟩).run s1 := by
  rw [EStateM.run_bind, run_discard, h]

theorem run_forM_unchanged {l : List α} {f : α → EStateM ε σ PUnit}
    (h : ∀ a ∈ l, (f a).run s = .ok ⟨⟩ s) : (l.forM f).run s = .ok ⟨⟩ s := by
  induction l with
  | nil => rfl
  | cons a l ih =>
    rw [List.forM, EStateM.run_bind, h a (.head _)]
    exact ih fun b hb => h b (.tail _ hb)

/-- What holds of a result: `Q` of a value returned, `E` of a stop. -/
def Post (Q : α → σ → Prop) (E : ε → σ → Prop) : EStateM.Result ε σ α → Prop
  | .ok a s => Q a s
  | .error e s => E e s

/-- From a state with `P`, code returns with `Q` or stops with `E`. -/
def Triple (P : σ → Prop) (x : EStateM ε σ α) (Q : α → σ → Prop) (E : ε → σ → Prop) : Prop :=
  ∀ s, P s → Post Q E (x.run s)

namespace Triple

variable {P P' : σ → Prop} {Q : α → σ → Prop} {E : ε → σ → Prop}

theorem pre (hp : ∀ s, P' s → P s) (h : Triple P x Q E) : Triple P' x Q E :=
  fun s hs => h s (hp s hs)

theorem returns (h : Triple P x Q E) {s' : σ} {a : α} (hs : P s)
    (hr : x.run s = .ok a s') : Q a s' := by
  have := h s hs
  rw [hr] at this
  exact this

theorem stops (h : Triple P x Q E) {s' : σ} {e : ε} (hs : P s)
    (hr : x.run s = .error e s') : E e s' := by
  have := h s hs
  rw [hr] at this
  exact this

theorem at_state (h : Triple P x Q E) (hs : P s) : Triple (· = s) x Q E :=
  pre (by rintro _ rfl; exact hs) h

theorem post {Q' : α → σ → Prop} (hq : ∀ a s, Q a s → Q' a s)
    (h : Triple P x Q E) : Triple P x Q' E := by
  intro s hs
  have := h s hs
  cases hr : x.run s with
  | ok a s' =>
    rw [hr] at this
    exact hq a s' this
  | error e s' =>
    rw [hr] at this
    exact this

theorem stop {E' : ε → σ → Prop} (he : ∀ e s, E e s → E' e s)
    (h : Triple P x Q E) : Triple P x Q E' := by
  intro s hs
  have := h s hs
  cases hr : x.run s with
  | ok a s' =>
    rw [hr] at this
    exact this
  | error e s' =>
    rw [hr] at this
    exact he e s' this

theorem pure (h : ∀ s, P s → Q a s) : Triple P (Pure.pure a : EStateM ε σ α) Q E := h

theorem throw {e : ε} (h : ∀ s, P s → E e s) :
    Triple P (MonadExcept.throw e : EStateM ε σ α) Q E := h

theorem modify {f : σ → σ} {Q : PUnit → σ → Prop} (h : ∀ s, P s → Q ⟨⟩ (f s)) :
    Triple P (MonadStateOf.modifyGet fun s => (PUnit.unit, f s) : EStateM ε σ PUnit) Q E := h

theorem bind {Q' : β → σ → Prop} (hx : Triple P x Q E)
    (hf : ∀ a, Triple (Q a) (f a) Q' E) : Triple P (x >>= f) Q' E := by
  intro s hs
  rw [EStateM.run_bind]
  have := hx s hs
  cases hr : x.run s with
  | ok a s' =>
    rw [hr] at this
    exact hf a s' this
  | error e s' =>
    rw [hr] at this
    exact this

theorem get_bind {f : σ → EStateM ε σ β} {Q : β → σ → Prop}
    (h : ∀ s, P s → Triple (· = s) (f s) Q E) :
    Triple P ((MonadState.get : EStateM ε σ σ) >>= f) Q E := fun s hs => h s hs s rfl

theorem get_bind' {f : σ → EStateM ε σ β} {Q : β → σ → Prop} (h : ∀ s, Triple P (f s) Q E) :
    Triple P ((MonadState.get : EStateM ε σ σ) >>= f) Q E := fun s hs => h s s hs

theorem of_and {c : Prop} (h : c → Triple P x Q E) : Triple (fun s => P s ∧ c) x Q E :=
  fun s hs => h hs.2 s hs.1

theorem ite {c : Prop} [Decidable c] (hx : c → Triple P x Q E)
    (hy : ¬ c → Triple P y Q E) : Triple P (if c then x else y) Q E := by
  split
  · exact hx ‹_›
  · exact hy ‹_›

end Triple

/-- Code keeps the invariant `I`, or stops with `E`. -/
def Keeps (I : σ → Prop) (E : ε → σ → Prop) (x : EStateM ε σ α) : Prop :=
  Triple I x (fun _ => I) E

namespace Keeps

variable {I : σ → Prop} {E : ε → σ → Prop}

theorem pure (a : α) : Keeps I E (Pure.pure a : EStateM ε σ α) := fun _ h => h

theorem get_bind {f : σ → EStateM ε σ β} (h : ∀ s, I s → Triple (· = s) (f s) (fun _ => I) E) :
    Keeps I E ((MonadState.get : EStateM ε σ σ) >>= f) := Triple.get_bind h

theorem get_bind' {f : σ → EStateM ε σ β} (h : ∀ s, Keeps I E (f s)) :
    Keeps I E ((MonadState.get : EStateM ε σ σ) >>= f) := Triple.get_bind' h

theorem throw {e : ε} (h : ∀ s, I s → E e s) : Keeps I E (MonadExcept.throw e : EStateM ε σ α) := h

theorem modify {f : σ → σ} (h : ∀ s, I s → I (f s)) :
    Keeps I E (MonadStateOf.modifyGet fun s => (PUnit.unit, f s) : EStateM ε σ PUnit) := h

theorem bind (hx : Keeps I E x) (hf : ∀ a, Keeps I E (f a)) : Keeps I E (x >>= f) :=
  Triple.bind hx hf

theorem ite {c : Prop} [Decidable c] (hx : Keeps I E x) (hy : Keeps I E y) :
    Keeps I E (if c then x else y) := Triple.ite (fun _ => hx) (fun _ => hy)

theorem map (f : α → β) (hx : Keeps I E x) : Keeps I E (f <$> x) := by
  intro s hs
  have := hx s hs
  change Post _ _ (EStateM.map f x s)
  rw [EStateM.map]
  rw [EStateM.run] at this
  cases hr : x s with
  | ok a s' | error e s' =>
    rw [hr] at this
    exact this

theorem forM {l : List α} {f : α → EStateM ε σ PUnit} (h : ∀ a ∈ l, Keeps I E (f a)) :
    Keeps I E (l.forM f) := by
  induction l with
  | nil => exact Keeps.pure _
  | cons a l ih =>
    rw [List.forM]
    exact Keeps.bind (h a (.head _)) fun _ => ih fun b hb => h b (.tail _ hb)

theorem at_state (h : Keeps I E x) (hs : I s) : Triple (· = s) x (fun _ => I) E :=
  Triple.at_state h hs

theorem of_returns (h : ∀ s s' a, I s → x.run s = .ok a s' → I s') :
    Keeps I (fun _ _ => True) x := by
  intro s hs
  cases hr : x.run s with
  | ok a s' => exact h s s' a hs hr
  | error e s' => trivial

theorem of_final (h : ∀ s, I s → I (final (x.run s))) : Keeps I (fun _ => I) x := by
  intro s hs
  have := h s hs
  cases hr : x.run s with
  | ok a s' | error e s' =>
    rw [hr] at this
    exact this

theorem of_rel {R : σ → σ → Prop} [IsTrans σ R]
    (h : ∀ s, R s (final (x.run s))) (s0 : σ) : Keeps (R s0) (fun _ => R s0) x :=
  of_final fun s hs => trans_of R hs (h s)

theorem final_of (h : Keeps I (fun _ => I) x) (hs : I s) : I (final (x.run s)) := by
  have := h s hs
  cases hr : x.run s with
  | ok a s' | error e s' =>
    rw [hr] at this
    exact this

end Keeps

/-! ## Code that does not see a change of the state -/

/-- A result, in a changed state. -/
def onState (c : σ → σ) : EStateM.Result ε σ α → EStateM.Result ε σ α
  | .ok a s => .ok a (c s)
  | .error e s => .error e (c s)

/-- Code does in the changed state what it does in the other one. -/
def Commutes (c : σ → σ) (x : EStateM ε σ α) : Prop := ∀ s, x.run (c s) = onState c (x.run s)

namespace Commutes

variable {c : σ → σ}

theorem pure (a : α) : Commutes c (Pure.pure a : EStateM ε σ α) := fun _ => rfl

theorem throw (e : ε) : Commutes c (MonadExcept.throw e : EStateM ε σ α) := fun _ => rfl

theorem modify {f : σ → σ} (h : ∀ s, f (c s) = c (f s)) :
    Commutes c (MonadStateOf.modifyGet fun s => (PUnit.unit, f s) : EStateM ε σ PUnit) :=
  fun s => congrArg (EStateM.Result.ok PUnit.unit) (h s)

theorem bind (hx : Commutes c x) (hf : ∀ a, Commutes c (f a)) : Commutes c (x >>= f) := by
  intro s
  rw [EStateM.run_bind, EStateM.run_bind, hx s]
  cases x.run s with
  | ok a s' => exact hf a s'
  | error e s' => rfl

theorem run_get_bind {f : σ → EStateM ε σ β} (h : f (c s) = f s) (hf : Commutes c (f s)) :
    ((MonadState.get : EStateM ε σ σ) >>= f).run (c s) =
      onState c (((MonadState.get : EStateM ε σ σ) >>= f).run s) := by
  change (f (c s)).run (c s) = _
  rw [h]
  exact hf s

theorem get_bind {f : σ → EStateM ε σ β} (h : ∀ s, f (c s) = f s) (hf : ∀ s, Commutes c (f s)) :
    Commutes c ((MonadState.get : EStateM ε σ σ) >>= f) :=
  fun s => run_get_bind (h s) (hf s)

theorem ite {p : Prop} [Decidable p] (hx : Commutes c x) (hy : Commutes c y) :
    Commutes c (if p then x else y) := by
  split
  · exact hx
  · exact hy

end Commutes

end Base
