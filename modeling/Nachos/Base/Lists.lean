import Mathlib.Data.List.Forall2
import Mathlib.Tactic.Common

/-!
# Lists related element by element, and lists as tables
-/

namespace Base

variable {α β : Type} {R : α → β → Prop}

theorem exists_left_of_mem {l1 : List α} {l2 : List β} (h : List.Forall₂ R l1 l2) {b : β}
    (hb : b ∈ l2) : ∃ a ∈ l1, R a b := by
  induction h with
  | nil => exact absurd hb List.not_mem_nil
  | @cons a b' l1 l2 hab _ ih =>
    rcases List.mem_cons.1 hb with rfl | hb
    · exact ⟨a, .head _, hab⟩
    · obtain ⟨a', ha', hr⟩ := ih hb
      exact ⟨a', .tail _ ha', hr⟩

theorem exists_right_of_mem {l1 : List α} {l2 : List β} (h : List.Forall₂ R l1 l2) {a : α}
    (ha : a ∈ l1) : ∃ b ∈ l2, R a b :=
  exists_left_of_mem (R := fun b a => R a b) h.flip ha

theorem getD_of_forall {P : α → Prop} {l : List α} {d : α} (h : ∀ a ∈ l, P a) (hd : P d)
    (i : Nat) : P (l.getD i d) := by
  rw [List.getD_eq_getElem?_getD]
  cases hi : l[i]? with
  | none => exact hd
  | some a => exact h a (List.mem_of_getElem? hi)

theorem map_getElem?_filter_range (l : List α) (p : α → Bool) {n : Nat} (hn : n ≤ l.length) :
    ((List.range n).filter fun a => l[a]?.any p).map (fun a => l[a]?) =
      ((l.take n).filter p).map some := by
  induction n with
  | zero => rfl
  | succ n ih =>
    have hlt : n < l.length := hn
    rw [List.range_succ, List.filter_append, List.map_append, ih (Nat.le_of_lt hlt),
      List.take_succ_eq_append_getElem hlt, List.filter_append, List.map_append]
    congr 1
    rw [List.filter_singleton, List.filter_singleton, List.getElem?_eq_getElem hlt]
    cases hp : p l[n] <;> simp [hp, List.getElem?_eq_getElem hlt]

theorem filterMap_perm_cons [DecidableEq α] {l : List α} (hl : l.Nodup) {f f' : α → Option β} {a : α}
    {b : β} (ha : a ∈ l) (hf : f a = none) (hf' : f' a = some b) (h : ∀ c ∈ l, c ≠ a → f' c = f c) :
    (l.filterMap f').Perm (b :: l.filterMap f) := by
  have herase : (l.erase a).filterMap f' = (l.erase a).filterMap f :=
    List.filterMap_congr fun c hc =>
      h c (List.mem_of_mem_erase hc) (hl.mem_erase_iff.1 hc).1
  have hnew := (List.perm_cons_erase ha).filterMap f'
  have hold := (List.perm_cons_erase ha).filterMap f
  rw [List.filterMap_cons_some hf', herase] at hnew
  rw [List.filterMap_cons_none hf] at hold
  exact hnew.trans (hold.symm.cons b)

theorem find?_eq_some_of_nodup [DecidableEq β] {f : α → β} {l : List α} (hl : (l.map f).Nodup) {a : α}
    {b : β} : l.find? (f · = b) = some a ↔ a ∈ l ∧ f a = b := by
  constructor
  · intro h
    have hb := List.find?_some h
    exact ⟨List.mem_of_find?_eq_some h, by simpa using hb⟩
  · rintro ⟨ha, rfl⟩
    induction l with
    | nil => cases ha
    | cons c l ih =>
      rw [List.map_cons, List.nodup_cons] at hl
      rcases List.mem_cons.1 ha with rfl | ha
      · simp
      · have hne : f c ≠ f a := fun heq => hl.1 (heq ▸ List.mem_map_of_mem ha)
        simp [hne, ih hl.2 ha]

/-- The last element with `P`. -/
theorem exists_last {P : α → Prop} {l : List α} (h : ∃ a ∈ l, P a) :
    ∃ pre a post, l = pre ++ a :: post ∧ P a ∧ ∀ b ∈ post, ¬ P b := by
  induction l with
  | nil => simp at h
  | cons c l ih =>
    by_cases hl : ∃ a ∈ l, P a
    · obtain ⟨pre, a, post, rfl, ha, hpost⟩ := ih hl
      exact ⟨c :: pre, a, post, rfl, ha, hpost⟩
    · push Not at hl
      obtain ⟨a, ha, hP⟩ := h
      rcases List.mem_cons.1 ha with rfl | ha
      · exact ⟨[], a, l, rfl, hP, hl⟩
      · exact absurd hP (hl a ha)

theorem flatten_set_perm {ls : List (List α)} {i : Nat} {l : List α} (h : ls[i]? = some l) (l' : List α) :
    (l ++ (ls.set i l').flatten).Perm (l' ++ ls.flatten) := by
  induction ls generalizing i with
  | nil => cases h
  | cons k ls ih =>
    cases i with
    | zero =>
      cases h
      rw [List.set_cons_zero, List.flatten_cons, List.flatten_cons]
      exact List.perm_append_comm_assoc ..
    | succ i =>
      rw [List.set_cons_succ, List.flatten_cons, List.flatten_cons]
      exact (List.perm_append_comm_assoc ..).trans
        (((ih h).append_left k).trans (List.perm_append_comm_assoc ..))

theorem forall₂_getElem? {l1 : List α} {l2 : List β} {i : Nat} {a : α} (h : List.Forall₂ R l1 l2)
    (hi : l1[i]? = some a) : ∃ b, l2[i]? = some b ∧ R a b := by
  obtain ⟨hlt, rfl⟩ := List.getElem?_eq_some_iff.1 hi
  exact ⟨_, List.getElem?_eq_getElem (h.length_eq ▸ hlt), h.get hlt (h.length_eq ▸ hlt)⟩

theorem forall₂_set {l1 : List α} {l2 : List β} {a : α} {b : β} (h : List.Forall₂ R l1 l2) (hab : R a b)
    (i : Nat) : List.Forall₂ R (l1.set i a) (l2.set i b) := by
  induction h generalizing i with
  | nil => exact .nil
  | cons hR h ih =>
    cases i with
    | zero => exact .cons hab h
    | succ i => exact .cons hR (ih i)

end Base
