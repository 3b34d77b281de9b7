import Nachos.Base.Except

/-!
# Sequences of calls

`runCalls` makes calls on an object one after the other and keeps their answers. `Spec` is an abstract
object: the calls it allows, what they answer and what becomes of it. If each allowed call does what the
abstract object does (`Implements`), so does every sequence of allowed calls (`Implements.runs`).
-/

namespace Base

variable {S C A M ε : Type}

/-- Calls one after the other, with their answers. -/
def runCalls (call : S → C → Except ε (A × S)) (s : S) : List C → Except ε (List A × S)
  | [] => .ok ([], s)
  | c :: cs => do
    let (a, s) ← call s c
    let (as, s) ← runCalls call s cs
    return (a :: as, s)

/-- An abstract object. -/
structure Spec (M C A : Type) where
  allows : M → C → Prop
  answer : M → C → A
  next : M → C → M

namespace Spec

/-- Each of the calls is allowed when it is made. -/
def Allows (spec : Spec M C A) : M → List C → Prop
  | _, [] => True
  | m, c :: cs => spec.allows m c ∧ spec.Allows (spec.next m c) cs

def answers (spec : Spec M C A) : M → List C → List A
  | _, [] => []
  | m, c :: cs => spec.answer m c :: spec.answers (spec.next m c) cs

def final (spec : Spec M C A) (m : M) (cs : List C) : M := cs.foldl spec.next m

variable {spec : Spec M C A} {m : M} {c : C} {cs : List C}

theorem allows_of_forall (h : ∀ m, ∀ c ∈ cs, spec.allows m c) : spec.Allows m cs := by
  induction cs generalizing m with
  | nil => trivial
  | cons c cs ih => exact ⟨h m c List.mem_cons_self, ih fun m c hc => h m c (List.mem_cons_of_mem _ hc)⟩

@[simp] theorem length_answers : (spec.answers m cs).length = cs.length := by
  induction cs generalizing m with
  | nil => rfl
  | cons c cs ih => rw [answers, List.length_cons, List.length_cons, ih]

end Spec

/-- Each allowed call on `s` does what it does on `m`, if `R m s`. -/
def Implements (spec : Spec M C A) (call : S → C → Except ε (A × S)) (R : M → S → Prop) : Prop :=
  ∀ m s c, R m s → spec.allows m c → ∃ s', call s c = .ok (spec.answer m c, s') ∧ R (spec.next m c) s'

/-- **Every sequence of allowed calls** does what it does on the abstract object. -/
theorem Implements.runs {spec : Spec M C A} {call : S → C → Except ε (A × S)} {R : M → S → Prop}
    (h : Implements spec call R) {cs : List C} {m : M} {s : S} (hR : R m s) (hcs : spec.Allows m cs) :
    ∃ s', runCalls call s cs = .ok (spec.answers m cs, s') ∧ R (spec.final m cs) s' := by
  induction cs generalizing m s with
  | nil => exact ⟨s, rfl, hR⟩
  | cons c cs ih =>
    obtain ⟨s1, hc, hR1⟩ := h m s c hR hcs.1
    obtain ⟨s', hcs', hR'⟩ := ih hR1 hcs.2
    refine ⟨s', ?_, hR'⟩
    rw [runCalls, hc, ok_bind]
    dsimp only
    rw [hcs']
    rfl

end Base
