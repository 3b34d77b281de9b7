import Mathlib.Data.List.Sort

/-!
# Sorted lists

`List.orderedInsert` by a test that is not an order: what it takes for the list to stay sorted.
-/

namespace Base

variable {α : Type} {r R : α → α → Prop} [DecidableRel r] {a : α} {l : List α}

/-- **Insertion into a sorted list.** The test `r` need only say, of the item and those in the list, which
comes first. -/
theorem pairwise_orderedInsert (hl : l.Pairwise R) (hbefore : ∀ b ∈ l, r a b → R a b)
    (hafter : ∀ b ∈ l, ¬ r a b → R b a) (htrans : ∀ b c, R a b → R b c → R a c) :
    (l.orderedInsert r a).Pairwise R := by
  induction l with
  | nil => exact List.pairwise_singleton R a
  | cons b l ih =>
    obtain ⟨hb, hl⟩ := List.pairwise_cons.1 hl
    rw [List.orderedInsert_cons]
    split
    · rename_i hr
      have hab := hbefore b (List.mem_cons_self ..) hr
      refine List.pairwise_cons.2 ⟨fun c hc => ?_, List.pairwise_cons.2 ⟨hb, hl⟩⟩
      rcases List.mem_cons.1 hc with rfl | hc
      · exact hab
      · exact htrans b c hab (hb c hc)
    · rename_i hr
      refine List.pairwise_cons.2 ⟨fun c hc => ?_, ?_⟩
      · rcases (List.mem_orderedInsert r).1 hc with rfl | hc
        · exact hafter b (List.mem_cons_self ..) hr
        · exact hb c hc
      · exact ih hl (fun c hc => hbefore c (List.mem_cons_of_mem b hc))
          fun c hc => hafter c (List.mem_cons_of_mem b hc)

theorem orderedInsert_append_of_forall {l' : List α} (h : ∀ b ∈ l, ¬ r a b) :
    (l ++ l').orderedInsert r a = l ++ l'.orderedInsert r a := by
  induction l with
  | nil => rfl
  | cons b l ih =>
    rw [List.forall_mem_cons] at h
    rw [List.cons_append, List.orderedInsert_cons, if_neg h.1, ih h.2, List.cons_append]

/-- **Insertion is stable**: of the items with a property that no bigger one has, the new one is the last. -/
theorem filter_orderedInsert {p : α → Bool} (hl : l.Pairwise R)
    (hbig : ∀ b c, r a b → b = c ∨ R b c → p a = true → p c = false) :
    (l.orderedInsert r a).filter p = l.filter p ++ [a].filter p := by
  induction l with
  | nil => rfl
  | cons b l ih =>
    obtain ⟨hb, hl⟩ := List.pairwise_cons.1 hl
    rw [List.orderedInsert_cons]
    split
    · rename_i hr
      cases ha : p a with
      | false => simp [ha]
      | true =>
        have hnone : (b :: l).filter p = [] := List.filter_eq_nil_iff.2 fun c hc => by
          rw [hbig b c hr ((List.mem_cons.1 hc).imp Eq.symm (hb c)) ha]
          decide
        simp [hnone, ha]
    · rw [List.filter_cons, List.filter_cons, ih hl]
      split <;> rfl

end Base
