import Mathlib.Algebra.GroupWithZero.Nat
import Mathlib.Data.Finset.Card
import Mathlib.Data.List.Nodup
import Mathlib.Tactic.Common

/-!
# A pool of resources and their holders

`Pool α`: the set of resources in use and, for each holder, the list of what it holds. In an `Owned`
pool every resource in use has exactly one holder. Taking free resources and giving back all that a
holder has keep a pool `Owned`. `Shares` is the same for holders that have names.
-/

namespace Base

open Function (update update_of_ne update_self)

structure Pool (α : Type) where
  used : Finset α
  held : List (List α)

namespace Pool

variable {α : Type} {i : Nat} {p : Pool α}

/-- Every resource in use is held once, by one holder. -/
structure Owned (p : Pool α) : Prop where
  nodup : p.held.flatten.Nodup
  mem_used : ∀ a, a ∈ p.used ↔ a ∈ p.held.flatten

theorem Owned.empty : Owned (⟨∅, []⟩ : Pool α) := ⟨by simp, by simp⟩

theorem eraseIdx_flatten {l : List (List α)} (hl : l.flatten.Nodup) (hi : i < l.length) :
    (l.eraseIdx i).flatten.Nodup ∧
      ∀ a, a ∈ (l.eraseIdx i).flatten ↔ a ∈ l.flatten ∧ a ∉ l.getD i [] := by
  have hd : l.getD i [] = l[i] := by simp [List.getD_eq_getElem?_getD, List.getElem?_eq_getElem hi]
  have hs : l = l.take i ++ l[i] :: l.drop (i + 1) := by simp
  have he : l.eraseIdx i = l.take i ++ l.drop (i + 1) := List.eraseIdx_eq_take_drop_succ ..
  rw [hd, he]
  generalize l[i] = x at hs ⊢
  generalize l.take i = pre at hs ⊢
  generalize l.drop (i + 1) = post at hs ⊢
  subst hs
  simp only [List.flatten_append, List.flatten_cons] at hl ⊢
  rw [List.nodup_append', List.nodup_append'] at hl
  obtain ⟨hpre, ⟨-, hpost, hxp⟩, hpx⟩ := hl
  refine ⟨List.nodup_append'.2 ⟨hpre, hpost, fun a ha hb => hpx ha (List.mem_append_right _ hb)⟩,
    fun a => ?_⟩
  simp only [List.mem_append]
  constructor
  · rintro (ha | ha)
    · exact ⟨.inl ha, fun hx => hpx ha (List.mem_append_left _ hx)⟩
    · exact ⟨.inr (.inr ha), fun hx => hxp hx ha⟩
  · rintro ⟨ha | ha | ha, hx⟩
    · exact .inl ha
    · exact absurd ha hx
    · exact .inr ha

theorem Owned.disjoint (h : p.Owned) {j : Nat} {xs ys : List α} (hij : i ≠ j)
    (hi : p.held[i]? = some xs) (hj : p.held[j]? = some ys) : xs.Disjoint ys := by
  obtain ⟨hilt, rfl⟩ := List.getElem?_eq_some_iff.1 hi
  obtain ⟨hjlt, rfl⟩ := List.getElem?_eq_some_iff.1 hj
  have hpair := (List.nodup_flatten.1 h.nodup).2
  rcases Nat.lt_or_gt_of_ne hij with hlt | hlt
  · exact List.pairwise_iff_getElem.1 hpair i j hilt hjlt hlt
  · exact (List.pairwise_iff_getElem.1 hpair j i hjlt hilt hlt).symm

variable [DecidableEq α]

def take (p : Pool α) (xs : List α) : Pool α := ⟨p.used ∪ xs.toFinset, p.held ++ [xs]⟩

def give (p : Pool α) (i : Nat) : Pool α :=
  ⟨p.used \ (p.held.getD i []).toFinset, p.held.eraseIdx i⟩

theorem Owned.take (h : p.Owned) {xs : List α} (hx : xs.Nodup)
    (hfree : ∀ x ∈ xs, x ∉ p.used) : (p.take xs).Owned where
  nodup := by
    simp only [Pool.take, List.flatten_append, List.flatten_singleton]
    refine h.nodup.append hx fun a ha hax => ?_
    exact hfree a hax ((h.mem_used a).2 ha)
  mem_used a := by
    simp [Pool.take, h.mem_used]

theorem Owned.give (h : p.Owned) (hi : i < p.held.length) : (p.give i).Owned := by
  obtain ⟨hnd, hmem⟩ := eraseIdx_flatten h.nodup hi
  refine ⟨hnd, fun a => ?_⟩
  simp only [Pool.give, Finset.mem_sdiff, List.mem_toFinset, h.mem_used, hmem]

/-- **The number of resources in use** is the number held. -/
theorem Owned.card (h : p.Owned) : p.used.card = (p.held.map List.length).sum := by
  have he : p.used = p.held.flatten.toFinset := by ext a; simp [h.mem_used]
  rw [he, List.toFinset_card_of_nodup h.nodup, List.length_flatten]

end Pool

/-! ## Named holders -/

/-- Every resource in use is held once, by one of the holders named by `ι`. -/
structure Shares {α ι : Type} (used : Finset α) (held : ι → List α) : Prop where
  nodup : ∀ i, (held i).Nodup
  disjoint : ∀ i j, i ≠ j → (held i).Disjoint (held j)
  mem_used : ∀ a, a ∈ used ↔ ∃ i, a ∈ held i

namespace Shares

variable {α ι : Type} [DecidableEq α] [DecidableEq ι] {used : Finset α} {held : ι → List α} {i : ι}

omit [DecidableEq α] [DecidableEq ι] in
theorem empty : Shares (∅ : Finset α) (fun _ : ι => []) :=
  ⟨fun _ => List.nodup_nil, fun _ _ _ => List.disjoint_nil_left _, by simp⟩

theorem take (h : Shares used held) (hi : held i = []) {xs : List α} (hx : xs.Nodup)
    (hfree : ∀ x ∈ xs, x ∉ used) : Shares (used ∪ xs.toFinset) (update held i xs) where
  nodup j := by
    by_cases hj : j = i
    · rw [hj, update_self]
      exact hx
    · rw [update_of_ne hj]
      exact h.nodup j
  disjoint j k hjk := by
    have hout : ∀ l, xs.Disjoint (held l) := fun l a ha hl => hfree a ha ((h.mem_used a).2 ⟨l, hl⟩)
    by_cases hj : j = i
    · rw [hj, update_self, update_of_ne (fun hk => hjk (hj.trans hk.symm))]
      exact hout k
    · by_cases hk : k = i
      · rw [hk, update_self, update_of_ne hj]
        exact (hout j).symm
      · rw [update_of_ne hj, update_of_ne hk]
        exact h.disjoint j k hjk
  mem_used a := by
    rw [Finset.mem_union, List.mem_toFinset, h.mem_used]
    constructor
    · rintro (⟨j, hj⟩ | ha)
      · refine ⟨j, ?_⟩
        have : j ≠ i := fun he => by rw [he, hi] at hj; cases hj
        rwa [update_of_ne this]
      · exact ⟨i, by rwa [update_self]⟩
    · rintro ⟨j, hj⟩
      by_cases he : j = i
      · rw [he, update_self] at hj
        exact .inr hj
      · rw [update_of_ne he] at hj
        exact .inl ⟨j, hj⟩

theorem give (h : Shares used held) (i : ι) :
    Shares (used \ (held i).toFinset) (update held i []) where
  nodup j := by
    by_cases hj : j = i
    · rw [hj, update_self]
      exact List.nodup_nil
    · rw [update_of_ne hj]
      exact h.nodup j
  disjoint j k hjk := by
    by_cases hj : j = i
    · rw [hj, update_self]
      exact List.disjoint_nil_left _
    · by_cases hk : k = i
      · rw [hk, update_self]
        exact List.disjoint_nil_right _
      · rw [update_of_ne hj, update_of_ne hk]
        exact h.disjoint j k hjk
  mem_used a := by
    rw [Finset.mem_sdiff, List.mem_toFinset, h.mem_used]
    constructor
    · rintro ⟨⟨j, hj⟩, hn⟩
      have hne : j ≠ i := fun he => hn (he ▸ hj)
      exact ⟨j, by rwa [update_of_ne hne]⟩
    · rintro ⟨j, hj⟩
      by_cases he : j = i
      · rw [he, update_self] at hj
        cases hj
      · rw [update_of_ne he] at hj
        exact ⟨⟨j, hj⟩, fun ha => h.disjoint j i he hj ha⟩

omit [DecidableEq α] in
theorem iff_flatMap {held : Nat → List α} {n : Nat} (hout : ∀ i, n ≤ i → held i = []) :
    Shares used held ↔ ((List.range n).flatMap held).Nodup ∧
      ∀ a, a ∈ used ↔ a ∈ (List.range n).flatMap held := by
  have hlt : ∀ a i, a ∈ held i → i < n := by
    intro a i ha
    by_contra hi
    rw [hout i (by omega)] at ha
    cases ha
  have hmem : ∀ a, a ∈ (List.range n).flatMap held ↔ ∃ i, a ∈ held i := by
    intro a
    simp only [List.mem_flatMap, List.mem_range]
    exact ⟨fun ⟨i, _, hi⟩ => ⟨i, hi⟩, fun ⟨i, hi⟩ => ⟨i, hlt a i hi, hi⟩⟩
  rw [List.nodup_flatMap]
  constructor
  · intro h
    refine ⟨⟨fun i _ => h.nodup i, List.nodup_range.pairwise_of_forall_ne ?_⟩, fun a => ?_⟩
    · exact fun i _ j _ hij => h.disjoint i j hij
    · rw [hmem, h.mem_used]
  · rintro ⟨⟨hnd, hpw⟩, hu⟩
    have hin : ∀ i, i < n → (held i).Nodup := fun i hi => hnd i (List.mem_range.2 hi)
    have hord : ∀ i j, i < j → j < n → (held i).Disjoint (held j) := by
      intro i j hij hj
      have := List.pairwise_iff_getElem.1 hpw i j (by simp; omega) (by simpa using hj) hij
      simpa [Function.onFun] using this
    refine ⟨fun i => ?_, fun i j hij a hi hj => ?_, fun a => by rw [hu, hmem]⟩
    · by_cases hi : i < n
      · exact hin i hi
      · rw [hout i (by omega)]
        exact List.nodup_nil
    · rcases Nat.lt_or_gt_of_ne hij with hl | hl
      · exact hord i j hl (hlt a j hj) hi hj
      · exact hord j i hl (hlt a i hi) hj hi

end Shares

end Base
