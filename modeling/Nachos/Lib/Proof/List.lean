import Nachos.Lib.List
import Mathlib.Data.List.Sort

/-!
# Insertion into a sorted list

`Insert` puts the item before the first one that is bigger.
-/

namespace Nachos.SortedList

open Base

variable {T : Type} {compare : T → T → Int} {item : T} {list list' : List T}

theorem insertBehind_eq (ptr : T) : insertBehind compare item ptr list =
    ptr :: list.orderedInsert (fun a b => compare a b < 0) item := by
  induction list generalizing ptr with
  | nil => rfl
  | cons next rest ih =>
    rw [insertBehind, List.orderedInsert_cons]
    split
    · rfl
    · rw [ih]

theorem place_eq : place compare item list =
    list.orderedInsert (fun a b => compare a b < 0) item := by
  cases list with
  | nil => rfl
  | cons first rest =>
    rw [place, List.orderedInsert_cons]
    split
    · rfl
    · rw [insertBehind_eq]

variable [DecidableEq T]

theorem insert_ok (h : insert compare item list = .ok list') :
    item ∉ list ∧ list' = list.orderedInsert (fun a b => compare a b < 0) item := by
  unfold insert at h
  obtain ⟨_, hnot, h⟩ := bind_ok h
  obtain ⟨_, -, h⟩ := bind_ok h
  cases h
  exact ⟨assert_ok hnot, place_eq⟩

theorem insert_eq (h : item ∉ list) : insert compare item list =
    .ok (list.orderedInsert (fun a b => compare a b < 0) item) := by
  have hmem : item ∈ place compare item list := by
    rw [place_eq]
    exact (List.mem_orderedInsert _).2 (.inl rfl)
  unfold insert
  rw [assert_of h, assert_of hmem, place_eq]
  rfl

end Nachos.SortedList
