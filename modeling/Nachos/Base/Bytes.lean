import Mathlib.Data.BitVec
import Mathlib.Data.List.Forall2
import Mathlib.Logic.Function.Basic
import Mathlib.Tactic.Common

/-!
# Byte stores

A store gives each address a value. Writing a block of values at an address changes the addresses of
the block; after several writes an address holds what the last write that reaches it put there.
-/

namespace Base

open Function

variable {α : Type} {mem : Nat → α} {d a p : Nat} {bs xs : List α} {ws : List (Nat × List α)}
    {z : α}

/-- Write the block `bs` from address `d` on. -/
def writeBlock (mem : Nat → α) (d : Nat) (bs : List α) : Nat → α := fun a =>
  if d ≤ a then (bs[a - d]?).getD (mem a) else mem a

/-- Address `a` is in the block `bs` written at `d`. -/
def InBlock (d : Nat) (bs : List α) (a : Nat) : Prop := d ≤ a ∧ a < d + bs.length

instance (d : Nat) (bs : List α) (a : Nat) : Decidable (InBlock d bs a) :=
  inferInstanceAs (Decidable (_ ∧ _))

theorem writeBlock_of_not (h : ¬ InBlock d bs a) : writeBlock mem d bs a = mem a := by
  unfold writeBlock
  split
  · rename_i hd
    rw [List.getElem?_eq_none (by unfold InBlock at h; omega)]
    rfl
  · rfl

theorem writeBlock_of_mem (h : InBlock d bs a) : bs[a - d]? = some (writeBlock mem d bs a) := by
  obtain ⟨h1, h2⟩ := h
  have hl : a - d < bs.length := by omega
  simp [writeBlock, h1, List.getElem?_eq_getElem hl]

@[simp] theorem writeBlock_nil (mem : Nat → α) (d : Nat) : writeBlock mem d [] = mem := by
  funext a
  exact writeBlock_of_not fun h => by
    obtain ⟨h1, h2⟩ := h
    simp only [List.length_nil] at h2
    omega

theorem writeBlock_cons (mem : Nat → α) (d : Nat) (b : α) (bs : List α) :
    writeBlock mem d (b :: bs) = writeBlock (update mem d b) (d + 1) bs := by
  funext a
  unfold writeBlock
  rcases Nat.lt_trichotomy a d with h | rfl | h
  · rw [if_neg (by omega), if_neg (by omega), update_of_ne (by omega)]
  · rw [if_pos (Nat.le_refl a), if_neg (by omega), update_self, Nat.sub_self]
    rfl
  · rw [if_pos (by omega), if_pos (by omega), update_of_ne (by omega),
      show a - d = (a - (d + 1)) + 1 by omega, List.getElem?_cons_succ]

/-- The store has the block `bs` from address `d` on. -/
def HoldsBlock (mem : Nat → α) (d : Nat) (bs : List α) : Prop :=
  ∀ i, i < bs.length → bs[i]? = some (mem (d + i))

instance [DecidableEq α] (mem : Nat → α) (d : Nat) (bs : List α) : Decidable (HoldsBlock mem d bs) :=
  inferInstanceAs (Decidable (∀ i, i < bs.length → _))

theorem holdsBlock_cons {b : α} :
    HoldsBlock mem d (b :: bs) ↔ mem d = b ∧ HoldsBlock mem (d + 1) bs := by
  constructor
  · intro h
    refine ⟨(Option.some.inj (h 0 (Nat.succ_pos _))).symm, fun i hi => ?_⟩
    have := h (i + 1) (Nat.succ_lt_succ hi)
    rwa [List.getElem?_cons_succ, show d + (i + 1) = d + 1 + i by omega] at this
  · rintro ⟨rfl, h⟩ i hi
    cases i with
    | zero => rfl
    | succ i =>
      rw [List.getElem?_cons_succ, show d + (i + 1) = d + 1 + i by omega]
      exact h i (Nat.lt_of_succ_lt_succ hi)

theorem HoldsBlock.take (h : HoldsBlock mem d bs) (n : Nat) : HoldsBlock mem d (bs.take n) := by
  intro i hi
  rw [List.length_take] at hi
  rw [List.getElem?_take_of_lt (by omega)]
  exact h i (by omega)

theorem writeBlock_eq_iff {old bs' : List α} (h : HoldsBlock mem d old)
    (hbs : bs.length ≤ old.length) (hbs' : bs'.length ≤ old.length) :
    writeBlock mem d bs = writeBlock mem d bs' ↔
      bs ++ old.drop bs.length = bs' ++ old.drop bs'.length := by
  -- what a write leaves at the addresses of the block
  have hread : ∀ cs : List α, cs.length ≤ old.length → ∀ i < old.length,
      (cs ++ old.drop cs.length)[i]? = some (writeBlock mem d cs (d + i)) := by
    intro cs hcs i hi
    by_cases hc : i < cs.length
    · rw [List.getElem?_append_left hc, ← writeBlock_of_mem ⟨Nat.le_add_right d i, by omega⟩,
        Nat.add_sub_cancel_left]
    · rw [List.getElem?_append_right (by omega), List.getElem?_drop,
        show cs.length + (i - cs.length) = i by omega, h i hi, writeBlock_of_not]
      rintro ⟨h1, h2⟩
      omega
  constructor
  · intro heq
    refine List.ext_getElem? fun i => ?_
    by_cases hi : i < old.length
    · rw [hread bs hbs i hi, hread bs' hbs' i hi, heq]
    · rw [List.getElem?_eq_none, List.getElem?_eq_none]
      · rw [List.length_append, List.length_drop]
        omega
      · rw [List.length_append, List.length_drop]
        omega
  · intro heq
    funext a
    by_cases ha : d ≤ a ∧ a < d + old.length
    · obtain ⟨i, rfl⟩ := Nat.exists_eq_add_of_le ha.1
      have hi : i < old.length := by omega
      have := (hread bs hbs i hi).symm.trans (heq ▸ hread bs' hbs' i hi)
      exact Option.some.inj this
    · rw [writeBlock_of_not, writeBlock_of_not]
      · rintro ⟨h1, h2⟩
        omega
      · rintro ⟨h1, h2⟩
        omega

theorem writeBlock_range_eq_iff {n : Nat} {f g : Nat → α} :
    writeBlock mem d ((List.range n).map f) = writeBlock mem d ((List.range n).map g) ↔
      ∀ i < n, f i = g i := by
  have hread : ∀ (f : Nat → α), ∀ i < n, writeBlock mem d ((List.range n).map f) (d + i) = f i := by
    intro f i hi
    unfold writeBlock
    rw [if_pos (Nat.le_add_right d i), Nat.add_sub_cancel_left, List.getElem?_map,
      List.getElem?_range hi]
    rfl
  constructor
  · intro h i hi
    rw [← hread f i hi, ← hread g i hi, h]
  · intro h
    congr 1
    exact List.map_congr_left fun i hi => h i (List.mem_range.1 hi)

/-- A sequence of block writes, in order. -/
def writeBlocks (mem : Nat → α) (ws : List (Nat × List α)) : Nat → α :=
  ws.foldl (fun m w => writeBlock m w.1 w.2) mem

theorem writeBlocks_singleton (mem : Nat → α) (w : Nat × List α) :
    writeBlocks mem [w] = writeBlock mem w.1 w.2 := rfl

theorem writeBlocks_append (mem : Nat → α) (ws ws' : List (Nat × List α)) :
    writeBlocks mem (ws ++ ws') = writeBlocks (writeBlocks mem ws) ws' := by
  simp [writeBlocks]

/-- **What no block reaches keeps its value.** -/
theorem writeBlocks_of_not (h : ∀ w ∈ ws, ¬ InBlock w.1 w.2 a) : writeBlocks mem ws a = mem a := by
  induction ws generalizing mem with
  | nil => rfl
  | cons w ws ih =>
    change writeBlocks (writeBlock mem w.1 w.2) ws a = _
    rw [ih (fun w' hw' => h w' (.tail _ hw')), writeBlock_of_not (h w (.head _))]

/-- The last block that reaches an address. -/
def lastBlock (ws : List (Nat × List α)) (a : Nat) : Option (Nat × List α) :=
  ws.reverse.find? fun w => decide (InBlock w.1 w.2 a)

theorem inBlock_of_lastBlock {w : Nat × List α}
    (h : lastBlock ws a = some w) : w ∈ ws ∧ InBlock w.1 w.2 a :=
  ⟨List.mem_reverse.1 (List.mem_of_find?_eq_some h), by simpa using List.find?_some h⟩

theorem lastBlock_eq_none : lastBlock ws a = none ↔ ∀ w ∈ ws, ¬ InBlock w.1 w.2 a := by
  simp [lastBlock]

/-- **The last block that reaches an address** decides what it holds. -/
theorem some_writeBlocks (mem : Nat → α) (ws : List (Nat × List α)) (a : Nat) :
    some (writeBlocks mem ws a) =
      match lastBlock ws a with
      | none => some (mem a)
      | some w => w.2[a - w.1]? := by
  induction ws using List.reverseRecOn with
  | nil => rfl
  | append_singleton ws w ih =>
    rw [writeBlocks_append, writeBlocks_singleton]
    by_cases hw : InBlock w.1 w.2 a
    · simp only [lastBlock, List.reverse_append, List.reverse_singleton, List.singleton_append,
        List.find?_cons, hw, decide_true]
      exact (writeBlock_of_mem hw).symm
    · rw [writeBlock_of_not hw, ih]
      simp only [lastBlock, List.reverse_append, List.reverse_singleton, List.singleton_append,
        List.find?_cons, hw, decide_false]

theorem writeBlocks_reached (mem mem' : Nat → α)
    (h : ∃ w ∈ ws, InBlock w.1 w.2 a) : writeBlocks mem ws a = writeBlocks mem' ws a := by
  obtain ⟨w, hw, ha⟩ := h
  apply Option.some.inj
  rw [some_writeBlocks, some_writeBlocks]
  cases hl : lastBlock ws a with
  | none => exact absurd ha (lastBlock_eq_none.1 hl w hw)
  | some w => rfl

theorem writeBlocks_congr {ws' : List (Nat × List α)}
    (h : List.Forall₂ (fun w w' => w.2 = w'.2 ∧ (w.2 ≠ [] → w.1 = w'.1)) ws ws') :
    writeBlocks mem ws = writeBlocks mem ws' := by
  induction h generalizing mem with
  | nil => rfl
  | @cons w w' ws ws' hw _ ih =>
    obtain ⟨d, bs⟩ := w
    obtain ⟨d', bs'⟩ := w'
    obtain ⟨rfl, hd⟩ := hw
    change writeBlocks (writeBlock mem d bs) ws = writeBlocks (writeBlock mem d' bs) ws'
    rw [ih]
    cases bs with
    | nil => rw [writeBlock_nil, writeBlock_nil]
    | cons b bs =>
      have hdd : d = d' := hd (List.cons_ne_nil _ _)
      rw [hdd]

/-! ## Lists as stores -/

/-- A list with the block `bs` written from index `p` on; a gap before `p` is filled with `z`. -/
def overwrite (z : α) (xs : List α) (p : Nat) (bs : List α) : List α :=
  if bs = [] then xs
  else xs.take p ++ List.replicate (p - xs.length) z ++ bs ++ xs.drop (p + bs.length)

@[simp] theorem overwrite_nil (z : α) (xs : List α) (p : Nat) : overwrite z xs p [] = xs := if_pos rfl

theorem getElem?_overwrite (hbs : bs ≠ []) (i : Nat) : (overwrite z xs p bs)[i]? =
      if p ≤ i ∧ i < p + bs.length then bs[i - p]?
      else if i < p ∧ xs.length ≤ i then some z else xs[i]? := by
  have hlen : (xs.take p ++ List.replicate (p - xs.length) z).length = p := by
    rw [List.length_append, List.length_take, List.length_replicate]
    omega
  rw [overwrite, if_neg hbs]
  rcases Nat.lt_or_ge i p with hi | hi
  · rw [if_neg (by omega), List.append_assoc, List.getElem?_append_left (by omega)]
    by_cases hc : xs.length ≤ i
    · rw [if_pos ⟨hi, hc⟩, List.getElem?_append_right (by rw [List.length_take]; omega),
        List.getElem?_replicate, if_pos (by rw [List.length_take]; omega)]
    · rw [if_neg (by omega), List.getElem?_append_left (by rw [List.length_take]; omega),
        List.getElem?_take_of_lt hi]
  · rw [List.append_assoc, List.getElem?_append_right (by omega), hlen]
    by_cases hb : i < p + bs.length
    · rw [if_pos ⟨hi, hb⟩, List.getElem?_append_left (by omega)]
    · rw [if_neg (by omega), if_neg (by omega), List.getElem?_append_right (by omega),
        List.getElem?_drop]
      congr 1
      omega

theorem overwrite_injective {bs' : List α} (hlen : bs.length = bs'.length)
    (h : overwrite z xs p bs = overwrite z xs p bs') : bs = bs' := by
  by_cases hbs : bs = []
  · subst hbs
    exact (List.eq_nil_of_length_eq_zero hlen.symm).symm
  · have hbs' : bs' ≠ [] := fun h' => hbs (List.eq_nil_of_length_eq_zero (by rw [hlen, h']; rfl))
    refine List.ext_getElem? fun i => ?_
    have hi := congrArg (·[p + i]?) h
    simp only [getElem?_overwrite hbs, getElem?_overwrite hbs'] at hi
    by_cases hb : i < bs.length
    · rwa [if_pos (by omega), if_pos (by omega), Nat.add_sub_cancel_left] at hi
    · rw [List.getElem?_eq_none (by omega), List.getElem?_eq_none (by omega)]

theorem take_drop_overwrite {n : Nat} (h : a + n ≤ p) (hl : ((xs.drop a).take n).length = n) :
    ((overwrite z xs p bs).drop a).take n = (xs.drop a).take n := by
  by_cases hbs : bs = []
  · rw [hbs, overwrite_nil]
  · refine List.ext_getElem? fun i => ?_
    rw [List.getElem?_take, List.getElem?_take, List.getElem?_drop, List.getElem?_drop]
    by_cases hi : i < n
    · rw [List.length_take, List.length_drop] at hl
      rw [if_pos hi, if_pos hi, getElem?_overwrite hbs, if_neg (by omega), if_neg (by omega)]
    · rw [if_neg hi, if_neg hi]

theorem take_drop_overwrite_self : ((overwrite z xs p bs).drop p).take bs.length = bs := by
  by_cases hbs : bs = []
  · rw [hbs]
    rfl
  · refine List.ext_getElem? fun i => ?_
    rw [List.getElem?_take, List.getElem?_drop]
    by_cases hi : i < bs.length
    · rw [if_pos hi, getElem?_overwrite hbs, if_pos (by omega), Nat.add_sub_cancel_left]
    · rw [if_neg hi, List.getElem?_eq_none (by omega)]

theorem overwrite_zero : overwrite z xs 0 bs = bs ++ xs.drop bs.length := by
  by_cases hbs : bs = []
  · rw [hbs]
    rfl
  · rw [overwrite, if_neg hbs]
    simp

/-- One value written at two places: the list has it at both, or they are one place. -/
theorem overwrite_place {x : α} {q : Nat} (hz : x ≠ z) (hx : xs[p]? ≠ some x)
    (h : overwrite z xs p [x] = overwrite z xs q [x]) : p = q := by
  by_contra hne
  have hi := congrArg (·[p]?) h
  simp only [getElem?_overwrite (List.cons_ne_nil x []), List.length_singleton] at hi
  rw [if_pos (by omega), if_neg (by omega), Nat.sub_self] at hi
  split at hi
  · exact hz (Option.some.inj hi)
  · exact hx hi.symm

end Base
