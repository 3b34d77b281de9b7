import Nachos.Base.Words
import Mathlib.Data.Nat.Digits.Defs
import Mathlib.Tactic.IntervalCases

/-!
# Numbers as little-endian bytes

The number that a list of bytes stands for, least significant byte first, and the bytes of a number.
-/

namespace Base.LittleEndian

variable {w n : Nat}

/-- The number with these bytes. -/
def number (bytes : List (BitVec 8)) : Nat := Nat.ofDigits 256 (bytes.map BitVec.toNat)

/-- Byte `k` of a number. -/
def byte (v : BitVec w) (k : Nat) : BitVec 8 := v.extractLsb' (8 * k) 8

/-- The bits of the bytes. -/
def joined (bytes : List (BitVec 8)) : BitVec (8 * bytes.length) := BitVec.ofNat _ (number bytes)

/-- The bytes as an unsigned number of `w` bits. -/
def zeroExtended (w : Nat) (bytes : List (BitVec 8)) : BitVec w := (joined bytes).setWidth w

/-- The bytes as a signed number of `w` bits. -/
def signExtended (w : Nat) (bytes : List (BitVec 8)) : BitVec w := (joined bytes).signExtend w

theorem number_cons (b : BitVec 8) (bs : List (BitVec 8)) :
    number (b :: bs) = b.toNat + 256 * number bs := by
  simp [number, Nat.ofDigits_cons]

theorem number_lt (bytes : List (BitVec 8)) : number bytes < 2 ^ (8 * bytes.length) := by
  induction bytes with
  | nil => simp [number]
  | cons b bs ih =>
    have hb := b.isLt
    rw [number_cons, List.length_cons, Nat.mul_succ, Nat.pow_add]
    omega

theorem toNat_joined (bytes : List (BitVec 8)) : (joined bytes).toNat = number bytes := by
  rw [joined, BitVec.toNat_ofNat, Nat.mod_eq_of_lt (number_lt bytes)]

theorem joined_cons (b : BitVec 8) (bs : List (BitVec 8)) :
    joined (b :: bs) = (joined bs ++ b).cast (by simp [Nat.mul_succ]) := by
  refine BitVec.eq_of_toNat_eq ?_
  rw [toNat_joined, BitVec.toNat_cast, BitVec.toNat_append, toNat_joined, number_cons,
    ← Nat.shiftLeft_add_eq_or_of_lt b.isLt, Nat.shiftLeft_eq]
  omega

theorem joined_one (b : BitVec 8) : joined [b] = b := by
  refine BitVec.eq_of_toNat_eq ?_
  rw [toNat_joined]
  simp [number]

theorem joined_two (b b' : BitVec 8) : joined [b, b'] = b' ++ b := by
  rw [joined_cons, joined_one]
  rfl

theorem joined_four (b b' b'' b''' : BitVec 8) : joined [b, b', b'', b'''] = b''' ++ b'' ++ b' ++ b := by
  rw [joined_cons, joined_cons, joined_two]
  rfl

theorem getLsbD_byte {v : BitVec w} {k i : Nat} (hi : i < 8) :
    (byte v k).getLsbD i = v.getLsbD (8 * k + i) := by
  simp [byte, hi]

/-- **The bytes of the number** are the bytes it was made of. -/
theorem byte_joined {bytes : List (BitVec 8)} {k : Nat} {b : BitVec 8} (h : bytes[k]? = some b) :
    byte (joined bytes) k = b := by
  induction bytes generalizing k with
  | nil => simp at h
  | cons c bs ih =>
    refine BitVec.eq_of_getLsbD_eq fun i hi => ?_
    rw [getLsbD_byte hi, joined_cons, BitVec.getLsbD_cast, BitVec.getLsbD_append]
    cases k with
    | zero =>
      simp only [List.getElem?_cons_zero, Option.some.injEq] at h
      simp [hi, h]
    | succ k =>
      rw [if_neg (by omega), show 8 * (k + 1) + i - 8 = 8 * k + i by omega, ← getLsbD_byte hi, ih h]

theorem eq_of_byte_eq {v v' : BitVec (8 * n)} (h : ∀ k < n, byte v k = byte v' k) : v = v' := by
  refine BitVec.eq_of_getLsbD_eq fun i hi => ?_
  have hbit := congrArg (·.getLsbD (i % 8)) (h (i / 8) (by omega))
  simpa only [getLsbD_byte (Nat.mod_lt i (by decide : 0 < 8)), Nat.div_add_mod] using hbit

theorem joined_byte_two (v : BitVec 16) : joined [byte v 0, byte v 1] = v := by
  refine eq_of_byte_eq (n := 2) fun k hk => byte_joined ?_
  interval_cases k <;> rfl

theorem joined_byte_four (v : BitVec 32) : joined [byte v 0, byte v 1, byte v 2, byte v 3] = v := by
  refine eq_of_byte_eq (n := 4) fun k hk => byte_joined ?_
  interval_cases k <;> rfl

/-! ## Extension by masks -/

/-- The word with the low `n` bits set. -/
def lowMask (n w : Nat) : BitVec w := (BitVec.allOnes n).setWidth w

theorem getLsbD_lowMask {i : Nat} (hi : i < w) : (lowMask n w).getLsbD i = decide (i < n) := by
  simp [lowMask, hi]

theorem and_lowMask (n : Nat) (v : BitVec w) : v &&& lowMask n w = (v.setWidth n).setWidth w := by
  refine BitVec.eq_of_getLsbD_eq fun i hi => ?_
  rw [BitVec.getLsbD_and, getLsbD_lowMask hi]
  simp [hi, Bool.and_comm]

theorem or_not_lowMask {v : BitVec w} (h : (v.setWidth n).msb = true) :
    v ||| ~~~lowMask n w = (v.setWidth n).signExtend w := by
  refine BitVec.eq_of_getLsbD_eq fun i hi => ?_
  rw [BitVec.getLsbD_or, BitVec.getLsbD_not, getLsbD_lowMask hi, BitVec.getLsbD_signExtend, h]
  by_cases hn : i < n <;> simp [hi, hn]

theorem setWidth_signExtend (h : n ≤ w) (x : BitVec n) : (x.signExtend w).setWidth n = x := by
  refine BitVec.eq_of_getLsbD_eq fun i hi => ?_
  rw [BitVec.getLsbD_setWidth, BitVec.getLsbD_signExtend]
  simp [hi, show i < w by omega]

/-- **Sign extension** by a test of the sign bit and two masks. -/
theorem signExtend_by_masks (hn : 0 < n) (hw : n ≤ w) (v : BitVec w) :
    (if v &&& Words.one w (n - 1) ≠ 0 then v ||| ~~~lowMask n w else v &&& lowMask n w) =
      (v.setWidth n).signExtend w := by
  have hsign : v &&& Words.one w (n - 1) ≠ 0 ↔ (v.setWidth n).msb = true := by
    rw [Words.and_one_ne_zero (by omega), BitVec.msb_eq_getLsbD_last, BitVec.getLsbD_setWidth]
    simp [hn]
  by_cases h : (v.setWidth n).msb = true
  · rw [if_pos (hsign.2 h), or_not_lowMask h]
  · rw [if_neg (mt hsign.1 h), and_lowMask,
      BitVec.signExtend_eq_setWidth_of_msb_false (by simpa using h)]

end Base.LittleEndian
