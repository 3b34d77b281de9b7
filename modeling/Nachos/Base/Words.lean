import Mathlib.Data.BitVec
import Mathlib.Tactic.Common

/-!
# Bits in an array of words

A list of `w`-bit words as a sequence of bits: bit `i` is bit `i % w` of word `i / w`. Setting or
clearing a bit by an `or` or an `and` with a shifted one changes that bit and no other.
-/

namespace Base.Words

variable {w j i : Nat}

/-- Bit `i` of the word list. -/
def bit (ws : List (BitVec w)) (i : Nat) : Bool := (ws.getD (i / w) 0).getLsbD (i % w)

/-- The word with only bit `k` set. -/
def one (w k : Nat) : BitVec w := 1#w <<< k

theorem getLsbD_one {k : Nat} (hk : k < w) (hj : j < w) : (one w k).getLsbD j = decide (j = k) := by
  unfold one
  rw [BitVec.getLsbD_shiftLeft, BitVec.getLsbD_one]
  by_cases h : j = k
  · subst h; simp [hk]; omega
  · rcases Nat.lt_or_gt_of_ne h with hl | hg
    · simp [hl, h]
    · have : j - k ≠ 0 := by omega
      simp [this, h]

theorem and_one_ne_zero {x : BitVec w} {k : Nat} (hk : k < w) :
    (x &&& one w k ≠ 0) ↔ x.getLsbD k = true := by
  constructor
  · intro h
    by_contra hx
    apply h
    apply BitVec.eq_of_getLsbD_eq
    intro j hj
    rw [BitVec.getLsbD_and, getLsbD_one hk hj]
    by_cases hjk : j = k
    · subst hjk; simp [hx]
    · simp [hjk]
  · intro hx h
    have := congrArg (·.getLsbD k) h
    simp [hx, getLsbD_one hk hk] at this

/-- Set bit `i`. -/
def set (ws : List (BitVec w)) (i : Nat) : List (BitVec w) :=
  ws.modify (i / w) (· ||| one w (i % w))

/-- Clear bit `i`. -/
def clear (ws : List (BitVec w)) (i : Nat) : List (BitVec w) :=
  ws.modify (i / w) (· &&& ~~~ one w (i % w))

@[simp] theorem length_set (ws : List (BitVec w)) (i : Nat) : (set ws i).length = ws.length := by
  simp [set]

@[simp] theorem length_clear (ws : List (BitVec w)) (i : Nat) :
    (clear ws i).length = ws.length := by simp [clear]

theorem getD_modify (ws : List (BitVec w)) (f : BitVec w → BitVec w) (h : i < ws.length) :
    (ws.modify i f).getD j 0 = if i = j then f (ws.getD j 0) else ws.getD j 0 := by
  rw [List.getD_eq_getElem?_getD, List.getElem?_modify, List.getD_eq_getElem?_getD]
  split
  · rename_i hij
    subst hij
    simp [List.getElem?_eq_getElem h]
  · simp

theorem eq_of_div_mod (hd : i / w = j / w) (hm : i % w = j % w) : i = j := by
  rw [← Nat.div_add_mod i w, ← Nat.div_add_mod j w, hd, hm]

/-- **Setting a bit** adds it to the bits that are set. -/
theorem bit_set (ws : List (BitVec w)) (hw : 0 < w) (h : i / w < ws.length) :
    bit (set ws i) j = (decide (j = i) || bit ws j) := by
  unfold bit set
  rw [getD_modify ws _ h]
  by_cases hd : i / w = j / w
  · rw [if_pos hd, BitVec.getLsbD_or, getLsbD_one (Nat.mod_lt _ hw) (Nat.mod_lt _ hw),
      Bool.or_comm]
    have : j % w = i % w ↔ j = i := ⟨fun hm => eq_of_div_mod hd.symm hm, fun he => by rw [he]⟩
    simp [this]
  · have : j ≠ i := fun he => hd (by rw [he])
    simp [hd, this]

/-- **Clearing a bit** removes it from the bits that are set. -/
theorem bit_clear (ws : List (BitVec w)) (hw : 0 < w) (h : i / w < ws.length) :
    bit (clear ws i) j = (decide (j ≠ i) && bit ws j) := by
  unfold bit clear
  rw [getD_modify ws _ h]
  by_cases hd : i / w = j / w
  · rw [if_pos hd, BitVec.getLsbD_and, BitVec.getLsbD_not,
      getLsbD_one (Nat.mod_lt _ hw) (Nat.mod_lt _ hw), Bool.and_comm]
    have : j % w = i % w ↔ j = i := ⟨fun hm => eq_of_div_mod hd.symm hm, fun he => by rw [he]⟩
    simp [this, Nat.mod_lt _ hw]
  · have : j ≠ i := fun he => hd (by rw [he])
    simp [hd, this]

theorem bit_replicate_zero (n i : Nat) : bit (List.replicate n (0#w)) i = false := by
  unfold bit
  rw [List.getD_eq_getElem?_getD, List.getElem?_replicate]
  split <;> simp

end Base.Words
