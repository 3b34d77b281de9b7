import Mathlib.Data.List.TakeWhile
import Mathlib.Tactic.Common

/-!
# Fallible computations

`Except` as the monad of the functions that stop on an error: what a `bind` or a fold that returned
went through, and the invariant rule of a fold.
-/

namespace Base

variable {ε α β : Type}

@[simp] theorem ok_bind (a : α) (f : α → Except ε β) : (Except.ok a >>= f) = f a := rfl

@[simp] theorem error_bind (e : ε) (f : α → Except ε β) :
    (Except.error e >>= f) = Except.error e := rfl

@[simp] theorem pure_eq_ok (a : α) : (pure a : Except ε α) = Except.ok a := rfl

/-- A sequence that returned: its first part returned, and so did the rest from there. -/
theorem bind_ok {x : Except ε α} {f : α → Except ε β} {b : β} (h : (x >>= f) = .ok b) :
    ∃ a, x = .ok a ∧ f a = .ok b := by
  cases x with
  | error e => cases h
  | ok a => exact ⟨a, rfl, h⟩

theorem exists_ok {x : Except ε α} (h : x.toBool = true) : ∃ a, x = .ok a := by
  cases x with
  | error e => cases h
  | ok a => exact ⟨a, rfl⟩

theorem mapM_ok {f : α → Except ε β} {g : α → β} {l : List α} (h : ∀ a ∈ l, f a = .ok (g a)) :
    l.mapM f = .ok (l.map g) := by
  induction l with
  | nil => rfl
  | cons a l ih =>
    rw [List.mapM_cons, h a (.head _), ih fun b hb => h b (.tail _ hb)]
    rfl

theorem forM_ok {f : α → Except ε Unit} {l : List α} (h : ∀ a ∈ l, f a = .ok ()) :
    l.forM f = .ok () := by
  induction l with
  | nil => rfl
  | cons a l ih =>
    show (f a >>= fun _ => l.forM f) = .ok ()
    rw [h a (.head _), ok_bind]
    exact ih fun b hb => h b (.tail _ hb)

theorem findSomeM?_none {f : α → Except ε (Option β)} {l : List α} (h : ∀ a ∈ l, f a = .ok none) :
    l.findSomeM? f = .ok none := by
  induction l with
  | nil => rfl
  | cons a l ih =>
    obtain ⟨ha, hl⟩ := List.forall_mem_cons.1 h
    rw [List.findSomeM?, ha, ok_bind, ih hl]

section
variable {f : β → α → Except ε β}

theorem foldlM_ok {g : β → α → β} {l : List α} (h : ∀ a ∈ l, ∀ b, f b a = .ok (g b a)) (b : β) :
    l.foldlM f b = .ok (l.foldl g b) := by
  induction l generalizing b with
  | nil => rfl
  | cons a l ih =>
    rw [List.foldlM_cons, h a (.head _), ok_bind, List.foldl_cons]
    exact ih (fun c hc => h c (.tail _ hc)) _

@[simp] theorem foldlM_nil (b : β) : ([] : List α).foldlM f b = Except.ok b := rfl

theorem foldlM_cons_ok {a : α} {l : List α} {b b' : β} (h : (a :: l).foldlM f b = .ok b') :
    ∃ c, f b a = .ok c ∧ l.foldlM f c = .ok b' := by
  rw [List.foldlM_cons] at h
  exact bind_ok h

/-- **A fold keeps what each of its steps keeps.** -/
theorem foldlM_inv (P : β → Prop) :
    ∀ (l : List α) {b b' : β}, (∀ a ∈ l, ∀ b b', P b → f b a = .ok b' → P b') → P b →
      l.foldlM f b = .ok b' → P b'
  | [], _, _, _, hb, h => by
    rw [foldlM_nil, Except.ok.injEq] at h
    exact h ▸ hb
  | a :: l, b, b', hs, hb, h => by
    obtain ⟨c, hc, hl⟩ := foldlM_cons_ok h
    exact foldlM_inv P l (fun x hx => hs x (.tail _ hx)) (hs a (.head _) b c hb hc) hl

end

theorem mapError_ok {ε' : Type} {f : ε → ε'} {x : Except ε α} {a : α} (h : x.mapError f = .ok a) :
    x = .ok a := by
  cases x with
  | ok b =>
    cases h
    rfl
  | error e => cases h

/-! ## Code that keeps its state when it stops -/

section

variable {γ : Type}

/-- The state reached, returned or stopped. -/
def reached : Except (ε × β) β → β
  | .ok b => b
  | .error (_, b) => b

/-- From a state that the elements `pre` led to, a computation has gone through `xs` up to the first
element without `q`, and returns if there is none. -/
structure Until (P : List γ → β → Prop) (q : γ → Bool) (pre xs : List γ) (r : Except (ε × β) β) :
    Prop where
  upTo : P (pre ++ xs.takeWhile q) (reached r)
  returns : (∃ b, r = .ok b) ↔ ∀ x ∈ xs, q x = true

variable {P : List γ → β → Prop} {q : γ → Bool} {pre xs ys : List γ} {x : γ} {b : β}

theorem Until.single_ok (hq : q x = true) (hb : P (pre ++ [x]) b) :
    Until P q pre [x] (.ok b : Except (ε × β) β) :=
  ⟨by simpa [hq, reached] using hb, by simp [hq]⟩

theorem Until.single_error {e : ε} (hq : q x = false) (hb : P pre b) :
    Until P q pre [x] (.error (e, b)) :=
  ⟨by simpa [hq, reached] using hb, by simp [hq]⟩

theorem Until.ok {r : Except (ε × β) β} (h : Until P q pre xs r) (hq : ∀ x ∈ xs, q x = true) :
    ∃ b, r = .ok b ∧ P (pre ++ xs) b := by
  obtain ⟨b, rfl⟩ := h.returns.2 hq
  have hb := h.upTo
  rw [List.takeWhile_eq_self_iff.2 hq] at hb
  exact ⟨b, rfl, hb⟩

theorem takeWhile_append_of_not_all (h : ¬ ∀ x ∈ xs, q x = true) :
    (xs ++ ys).takeWhile q = xs.takeWhile q := by
  rw [List.takeWhile_append, if_neg]
  intro hlen
  exact h (List.takeWhile_eq_self_iff.1 ((List.takeWhile_prefix q).eq_of_length hlen))

/-- **A fold goes as far as its steps do**, where the step for `a` goes through `elements a`. -/
theorem foldlM_until {f : β → α → Except (ε × β) β} (elements : α → List γ)
    (h : ∀ pre b a, P pre b → Until P q pre (elements a) (f b a)) :
    ∀ (l : List α) (pre : List γ) (b : β), P pre b →
      Until P q pre (l.flatMap elements) (l.foldlM f b)
  | [], pre, b, hb => ⟨by simpa [reached] using hb, by simp⟩
  | a :: l, pre, b, hb => by
    have ha := h pre b a hb
    rw [List.foldlM_cons, List.flatMap_cons]
    cases hr : f b a with
    | ok c =>
      rw [hr] at ha
      have hall := ha.returns.1 ⟨c, rfl⟩
      obtain ⟨_, ⟨⟩, hc⟩ := ha.ok hall
      have hrest := foldlM_until elements h l (pre ++ elements a) c hc
      rw [ok_bind]
      refine ⟨?_, ?_⟩
      · rw [List.takeWhile_append_of_pos hall, ← List.append_assoc]
        exact hrest.upTo
      · rw [hrest.returns, List.forall_mem_append]
        exact ⟨fun hl => ⟨hall, hl⟩, fun hl => hl.2⟩
    | error e =>
      rw [hr] at ha
      have hnot : ¬ ∀ x ∈ elements a, q x = true := by
        intro hall
        obtain ⟨b, hb⟩ := ha.returns.2 hall
        cases hb
      refine ⟨?_, iff_of_false ?_ fun hall => hnot fun x hx => hall x (List.mem_append_left _ hx)⟩
      · rw [takeWhile_append_of_not_all hnot]
        exact ha.upTo
      · rintro ⟨_, h⟩
        cases h

end

end Base
