import Mathlib.Data.BitVec
import Mathlib.Tactic.Ring

/-!
# Numbers of two words

A high and a low word of `w` bits as one number of `2 * w` bits, and the arithmetic done on the two
words: addition with a carry that a comparison finds, doubling, and negation.
-/

namespace Base.DoubleWord

variable {w : Nat}

/-- The number with these two words. -/
def pair (hi lo : BitVec w) : BitVec (w + w) := hi ++ lo

theorem toNat_pair (hi lo : BitVec w) : (pair hi lo).toNat = hi.toNat * 2 ^ w + lo.toNat := by
  unfold pair
  rw [BitVec.toNat_append, ← Nat.shiftLeft_add_eq_or_of_lt lo.isLt, Nat.shiftLeft_eq]

/-- A carry out of the high word is lost in the number too. -/
theorem pair_ofNat (n : Nat) (lo : BitVec w) :
    pair (BitVec.ofNat w n) lo = BitVec.ofNat (w + w) (n * 2 ^ w + lo.toNat) := by
  have hlo : (n * 2 ^ w + lo.toNat) % 2 ^ w = lo.toNat := by
    rw [Nat.mul_add_mod_self_right, Nat.mod_eq_of_lt lo.isLt]
  have hhi : (n * 2 ^ w + lo.toNat) / 2 ^ w = n := by
    rw [Nat.mul_comm, Nat.mul_add_div (Nat.two_pow_pos w), Nat.div_eq_of_lt lo.isLt, Nat.add_zero]
  refine BitVec.eq_of_toNat_eq ?_
  rw [toNat_pair, BitVec.toNat_ofNat, BitVec.toNat_ofNat, Nat.pow_add, Nat.mod_mul, hlo, hhi]
  ring

theorem pair_eq (hi lo : BitVec w) :
    pair hi lo = BitVec.ofNat (w + w) (hi.toNat * 2 ^ w + lo.toNat) := by
  rw [← pair_ofNat, BitVec.ofNat_toNat, BitVec.setWidth_eq]

/-- **Addition**: there is a carry where the sum of the low words is less than a summand. -/
theorem pair_add (hi lo hi' lo' : BitVec w) :
    pair ((if lo + lo' < lo' then hi + 1 else hi) + hi') (lo + lo') = pair hi lo + pair hi' lo' := by
  have hlt := lo.isLt
  have hlt' := lo'.isLt
  have hsum : pair hi lo + pair hi' lo' =
      BitVec.ofNat (w + w) ((hi.toNat + hi'.toNat) * 2 ^ w + (lo.toNat + lo'.toNat)) := by
    rw [pair_eq, pair_eq, ← BitVec.ofNat_add]
    ring_nf
  have hword (x : BitVec w) : x = BitVec.ofNat w x.toNat := by simp
  rw [hsum]
  by_cases hc : lo.toNat + lo'.toNat < 2 ^ w
  · have hlo : (lo + lo').toNat = lo.toNat + lo'.toNat := by
      rw [BitVec.toNat_add, Nat.mod_eq_of_lt hc]
    have hno : ¬ lo + lo' < lo' := by
      rw [BitVec.lt_def, hlo]
      omega
    rw [if_neg hno, hword hi, hword hi', ← BitVec.ofNat_add, pair_ofNat, hlo]
    simp
  · have hlo : (lo + lo').toNat = lo.toNat + lo'.toNat - 2 ^ w := by
      rw [BitVec.toNat_add, Nat.mod_eq_sub_mod (by omega), Nat.mod_eq_of_lt (by omega)]
    have hcarry : lo + lo' < lo' := by
      rw [BitVec.lt_def, hlo]
      omega
    have hhi : hi + 1 + hi' = BitVec.ofNat w (hi.toNat + 1 + hi'.toNat) := by
      rw [BitVec.ofNat_add, BitVec.ofNat_add, ← hword, ← hword]
      rfl
    rw [if_pos hcarry, hhi, pair_ofNat, hlo]
    congr 1
    have : (hi.toNat + 1 + hi'.toNat) * 2 ^ w = (hi.toNat + hi'.toNat) * 2 ^ w + 2 ^ w := by ring
    omega

/-- **Doubling**: the top bit of the low word moves into the high one. -/
theorem pair_double (hi lo : BitVec w) :
    pair (if lo.msb then hi <<< 1 ||| 1 else hi <<< 1) (lo <<< 1) = pair hi lo + pair hi lo := by
  have hmsb : lo.msb = true ↔ lo + lo < lo := by
    have hlt := lo.isLt
    rw [BitVec.lt_def, BitVec.toNat_add, BitVec.msb_eq_decide, decide_eq_true_eq]
    cases w with
    | zero => omega
    | succ n =>
      rw [Nat.pow_succ] at hlt ⊢
      rw [Nat.add_sub_cancel]
      by_cases h : 2 ^ n ≤ lo.toNat
      · rw [Nat.mod_eq_sub_mod (by omega), Nat.mod_eq_of_lt (by omega)]
        omega
      · rw [Nat.mod_eq_of_lt (by omega)]
        omega
  have hshift (x : BitVec w) : x <<< 1 = x + x := by
    refine BitVec.eq_of_toNat_eq ?_
    rw [BitVec.toNat_shiftLeft, BitVec.toNat_add, Nat.shiftLeft_eq, Nat.pow_one, Nat.mul_two]
  have hodd : hi <<< 1 ||| 1 = hi + 1 + hi := by
    rw [← BitVec.add_eq_or_of_and_eq_zero, hshift]
    · ring
    · ext i h
      simp +contextual
  rw [← pair_add, ← hshift lo, hodd, hshift hi, hshift lo]
  by_cases h : lo.msb = true
  · rw [if_pos h, if_pos (hmsb.1 h)]
  · rw [if_neg h, if_neg fun hc => h (hmsb.2 hc)]

/-- **Negation**: the complement of both words, and one. -/
theorem pair_neg (hw : 0 < w) (hi lo : BitVec w) :
    pair (if ~~~lo + 1 = 0 then ~~~hi + 1 else ~~~hi) (~~~lo + 1) = -pair hi lo := by
  have hone : (1 : BitVec w).toNat = 1 := BitVec.toNat_one hw
  have hcarry : ~~~lo + 1 < 1 ↔ ~~~lo + 1 = 0 := by
    rw [BitVec.lt_def, hone, Nat.lt_one_iff, BitVec.toNat_eq]
    rfl
  have hpair : pair 0 (1 : BitVec w) = 1#(w + w) := by
    refine BitVec.eq_of_toNat_eq ?_
    rw [toNat_pair, hone, BitVec.toNat_one (by omega)]
    simp
  have hnot : ~~~pair hi lo = pair (~~~hi) (~~~lo) := BitVec.not_append
  rw [BitVec.neg_eq_not_add, hnot, ← hpair, ← pair_add, add_zero]
  by_cases h : ~~~lo + 1 = 0
  · rw [if_pos h, if_pos (hcarry.2 h)]
  · rw [if_neg h, if_neg fun hc => h (hcarry.1 hc)]

end Base.DoubleWord
