import Mathlib.Data.List.Basic
import Mathlib.Tactic.Common

/-!
# Lists in blocks

A list made of blocks of one size (`flatMap` of a function whose values all have that length): a number
of blocks is dropped or taken as so many elements are. `patch l i bs` has `bs` in the place of what `l`
has from index `i` on, and is as long as `l`.
-/

namespace Base

open Function

variable {α β : Type} {l bs : List α} {f : α → List β} {k i : Nat}

/-! ## Blocks -/

theorem length_flatMap_const (hf : ∀ a ∈ l, (f a).length = k) :
    (l.flatMap f).length = l.length * k := by
  induction l with
  | nil => simp
  | cons a l ih =>
    rw [List.flatMap_cons, List.length_append, hf a (.head _), ih fun b hb => hf b (.tail _ hb),
      List.length_cons, Nat.succ_mul, Nat.add_comm]

theorem drop_flatMap_const (hf : ∀ a ∈ l, (f a).length = k)
    (n : Nat) : (l.flatMap f).drop (n * k) = (l.drop n).flatMap f := by
  induction l generalizing n with
  | nil => simp
  | cons a l ih =>
    cases n with
    | zero => simp
    | succ n =>
      rw [List.flatMap_cons, List.drop_succ_cons, ← ih (fun b hb => hf b (.tail _ hb)) n, Nat.succ_mul,
        Nat.add_comm, ← List.drop_drop, List.drop_left' (hf a (.head _))]

theorem take_flatMap_const (hf : ∀ a ∈ l, (f a).length = k)
    (n : Nat) : (l.flatMap f).take (n * k) = (l.take n).flatMap f := by
  induction l generalizing n with
  | nil => simp
  | cons a l ih =>
    cases n with
    | zero => simp
    | succ n =>
      have hlen := hf a (.head _)
      rw [List.flatMap_cons, List.take_succ_cons, List.flatMap_cons,
        ← ih (fun b hb => hf b (.tail _ hb)) n, Nat.succ_mul, Nat.add_comm, ← hlen,
        List.take_length_add_append]

theorem getElem?_flatMap_const (hk : 0 < k) (hf : ∀ a ∈ l, (f a).length = k) (j : Nat) :
    (l.flatMap f)[j]? = (l[j / k]?).bind fun a => (f a)[j % k]? := by
  have hj : (l.flatMap f)[j]? = ((l.flatMap f).drop (j / k * k))[j % k]? := by
    rw [List.getElem?_drop, Nat.mul_comm, Nat.div_add_mod]
  rw [hj, drop_flatMap_const hf]
  cases hd : l.drop (j / k) with
  | nil =>
    rw [List.getElem?_eq_none (List.drop_eq_nil_iff.1 hd)]
    rfl
  | cons a l' =>
    have ha : l[j / k]? = some a := by rw [← Nat.add_zero (j / k), ← List.getElem?_drop, hd]; rfl
    have hlt : j % k < (f a).length := by
      rw [hf a (List.mem_of_getElem? ha)]
      exact Nat.mod_lt _ hk
    rw [ha, List.flatMap_cons, List.getElem?_append_left hlt]
    rfl

theorem map_getD_range {n : Nat} (h : i + n ≤ l.length) (d : α) :
    (List.range n).map (fun k => l.getD (i + k) d) = (l.drop i).take n := by
  apply List.ext_getElem?
  intro j
  rw [List.getElem?_map]
  by_cases hj : j < n
  · rw [List.getElem?_range hj, List.getElem?_take_of_lt hj, List.getElem?_drop, Option.map_some,
      List.getD_eq_getElem?_getD, List.getElem?_eq_getElem (by omega), Option.getD_some]
  · rw [List.getElem?_eq_none (by rw [List.length_range]; omega),
      List.getElem?_eq_none (by rw [List.length_take]; omega)]
    rfl

/-! ## Patches -/

/-- The list with `bs` from index `i` on, as far as it reaches. -/
def patch (l : List α) (i : Nat) (bs : List α) : List α :=
  l.mapIdx fun j a => if i ≤ j then (bs[j - i]?).getD a else a

@[simp] theorem length_patch (l : List α) (i : Nat) (bs : List α) : (patch l i bs).length = l.length :=
  List.length_mapIdx

theorem getElem?_patch_of_not {j : Nat} (h : j < i ∨ i + bs.length ≤ j) :
    (patch l i bs)[j]? = l[j]? := by
  rw [patch, List.getElem?_mapIdx]
  cases hj : l[j]? with
  | none => rfl
  | some a =>
    rw [Option.map_some]
    split
    · rw [List.getElem?_eq_none (by omega)]
      rfl
    · rfl

theorem getElem?_patch_of_mem {j : Nat} (hl : i + bs.length ≤ l.length) (h : i ≤ j)
    (h' : j < i + bs.length) : (patch l i bs)[j]? = bs[j - i]? := by
  have hj : j < l.length := by omega
  have hb : j - i < bs.length := by omega
  rw [patch, List.getElem?_mapIdx, List.getElem?_eq_getElem hj, List.getElem?_eq_getElem hb,
    Option.map_some, if_pos h]
  rfl

theorem patch_eq (h : i + bs.length ≤ l.length) :
    patch l i bs = l.take i ++ bs ++ l.drop (i + bs.length) := by
  apply List.ext_getElem?
  intro j
  by_cases hj : j < i
  · rw [getElem?_patch_of_not (.inl hj), List.append_assoc,
      List.getElem?_append_left (by rw [List.length_take]; omega), List.getElem?_take_of_lt hj]
  by_cases hb : j < i + bs.length
  · have hlen : (l.take i).length = i := by rw [List.length_take]; omega
    rw [getElem?_patch_of_mem h (by omega) hb, List.getElem?_append_left (by
      rw [List.length_append, hlen]; omega), List.getElem?_append_right (by omega), hlen]
  · have hlen : (l.take i ++ bs).length = i + bs.length := by
      rw [List.length_append, List.length_take]
      omega
    rw [getElem?_patch_of_not (.inr (by omega)), List.getElem?_append_right (by omega), hlen,
      List.getElem?_drop]
    congr 1
    omega

@[simp] theorem patch_nil (l : List α) (i : Nat) : patch l i [] = l :=
  List.ext_getElem? fun j => getElem?_patch_of_not (by simp; omega)

theorem patch_all (h : bs.length = l.length) : patch l 0 bs = bs := by
  rw [patch_eq (by omega), h]
  simp

theorem slice_patch (h : i + bs.length ≤ l.length) :
    ((patch l i bs).drop i).take bs.length = bs := by
  have hlen : (l.take i).length = i := by
    rw [List.length_take]
    omega
  rw [patch_eq h, List.append_assoc, List.drop_left' hlen, List.take_left' rfl]

/-! ## Updates -/

section
variable {γ δ : Type} [DecidableEq γ] {key : α → γ} {val : α → δ}

theorem foldl_update_of_not {l : List α} {f : γ → δ} {c : γ} (h : ∀ a ∈ l, key a ≠ c) :
    l.foldl (fun f a => update f (key a) (val a)) f c = f c := by
  induction l generalizing f with
  | nil => rfl
  | cons a l ih =>
    rw [List.foldl_cons, ih fun b hb => h b (.tail _ hb),
      update_of_ne (h a (.head _)).symm]

theorem foldl_update_of_mem {l : List α} (hl : (l.map key).Nodup) {f : γ → δ} {a : α} (ha : a ∈ l) :
    l.foldl (fun f a => update f (key a) (val a)) f (key a) = val a := by
  induction l generalizing f with
  | nil => cases ha
  | cons b l ih =>
    rw [List.map_cons, List.nodup_cons] at hl
    rw [List.foldl_cons]
    rcases List.mem_cons.1 ha with rfl | ha
    · have hne : ∀ c ∈ l, key c ≠ key a := fun c hc he => hl.1 (he ▸ List.mem_map_of_mem hc)
      rw [foldl_update_of_not hne, update_self]
    · exact ih hl.2 ha

end

end Base
