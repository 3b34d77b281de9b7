import Nachos.Base.DoubleWord
import Nachos.Base.Words
import Nachos.Machine.Proof.Fetch
import Mathlib.Algebra.Order.Ring.Int

/-!
# Multiplication, division and shifts

`Mult` adds shifted copies of one factor: after the rounds that are left, the two result words are the
sum so far and the product of the bits that are left (`multLoop_eq`).
-/

namespace Nachos

open Base Base.DoubleWord

/-! ## `Mult` -/

variable {a rt : Word} {n : Nat}

theorem and_one_ne_zero : a &&& 1#32 ≠ 0 ↔ a.toNat % 2 = 1 := by
  rw [show (1#32) = Words.one 32 0 from rfl, Words.and_one_ne_zero (by decide), BitVec.getLsbD,
    Nat.testBit_zero, decide_eq_true_eq]

theorem sign_ne_zero : a &&& 0x80000000#32 ≠ 0 ↔ a.msb = true := by
  rw [ne_eq, show (0x80000000#32) = signBit from rfl, Machine.and_signBit, Bool.not_eq_false]

theorem toNat_of_and_eq_zero (h : a &&& 0xfffffffe#32 = 0) : a.toNat = a.toNat % 2 := by
  have hlow : a = a &&& 1#32 := by
    refine BitVec.eq_of_getLsbD_eq fun i hi => ?_
    have hbit := congrArg (·.getLsbD i) h
    simp only [show (0xfffffffe#32) = ~~~1#32 from rfl, BitVec.getLsbD_and, BitVec.getLsbD_not] at hbit
    rw [BitVec.getLsbD_and]
    cases hb : (1#32).getLsbD i <;> simp_all
  conv_lhs => rw [hlow, BitVec.toNat_and]
  exact Nat.and_one_is_mod _

theorem toNat_sshiftRight_one_mod (hn : n < 32) :
    (a.sshiftRight 1).toNat % 2 ^ n = a.toNat / 2 % 2 ^ n := by
  refine Nat.eq_of_testBit_eq fun i => ?_
  rw [Nat.testBit_mod_two_pow, Nat.testBit_mod_two_pow, Nat.testBit_div_two]
  by_cases hi : i < n
  · change (_ && (a.sshiftRight 1).getLsbD i) = (_ && a.getLsbD (i + 1))
    rw [BitVec.getLsbD_sshiftRight]
    simp [Nat.add_comm 1 i, show ¬ 32 ≤ i by omega, show i + 1 < 32 by omega]
  · simp [hi]

theorem multLoop_eq (hn : n ≤ 32) (a bLo bHi lo hi : Word) :
    pair (multLoop n a bLo bHi lo hi).1 (multLoop n a bLo bHi lo hi).2 =
      pair hi lo + BitVec.ofNat 64 (a.toNat % 2 ^ n) * pair bHi bLo := by
  induction n generalizing a bLo bHi lo hi with
  | zero => simp [multLoop, Nat.mod_one]
  | succ n ih =>
    have hdouble : pair (if bLo &&& 0x80000000#32 ≠ 0 then bHi <<< 1 ||| 1 else bHi <<< 1) (bLo <<< 1) =
        pair bHi bLo + pair bHi bLo := by
      rw [← pair_double]
      simp only [sign_ne_zero]
    have hbits : BitVec.ofNat 64 (a.toNat % 2 ^ (n + 1)) =
        BitVec.ofNat 64 (a.toNat % 2) + 2 * BitVec.ofNat 64 ((a.sshiftRight 1).toNat % 2 ^ n) := by
      rw [toNat_sshiftRight_one_mod (by omega), Nat.pow_succ', Nat.mod_mul, BitVec.ofNat_add,
        BitVec.ofNat_mul]
      rfl
    have hagain (lo hi : Word) := ih (by omega) (a.sshiftRight 1) (bLo <<< 1)
      (if bLo &&& 0x80000000#32 ≠ 0 then bHi <<< 1 ||| 1 else bHi <<< 1) lo hi
    unfold multLoop
    dsimp only
    by_cases ha : a &&& 1#32 ≠ 0
    · have hodd := and_one_ne_zero.1 ha
      rw [if_pos ha]
      by_cases hexit : a &&& 0xfffffffe#32 = 0
      · have hone : a.toNat % 2 ^ (n + 1) = 1 := by
          rw [toNat_of_and_eq_zero hexit, hodd]
          exact Nat.mod_eq_of_lt (Nat.one_lt_two_pow (by omega))
        rw [if_pos hexit, hone, pair_add]
        simp
      · rw [if_neg hexit, hagain, pair_add, hdouble, hbits, hodd, show BitVec.ofNat 64 1 = 1 from rfl]
        ring
    · have heven : a.toNat % 2 = 0 := by
        have := mt and_one_ne_zero.2 ha
        omega
      rw [if_neg ha, hagain, hdouble, hbits, heven, show BitVec.ofNat 64 0 = 0 from rfl]
      ring

theorem multLoop_start (a b : Word) :
    pair (multLoop 32 a b 0 0 0).1 (multLoop 32 a b 0 0 0).2 =
      BitVec.ofNat 64 (a.toNat * b.toNat) := by
  rw [multLoop_eq le_rfl, Nat.mod_eq_of_lt a.isLt, BitVec.ofNat_mul]
  have hzero : pair (0 : Word) 0 = 0 := rfl
  have hb : pair (0 : Word) b = BitVec.ofNat 64 b.toNat := by
    rw [pair_eq]
    simp
  rw [hzero, hb, zero_add]

theorem toNat_magnitude (a : Word) :
    (if a.slt 0 = true then -a else a).toNat = a.toInt.natAbs := by
  have hlt := a.isLt
  have hsign : a.slt 0 = true ↔ a.toInt < 0 := decide_eq_true_iff
  have hint := BitVec.toInt_eq_toNat_cond a
  by_cases h : a.toInt < 0
  · rw [if_pos (hsign.2 h), BitVec.toNat_neg]
    split at hint <;> omega
  · rw [if_neg (mt hsign.1 h)]
    split at hint <;> omega

theorem mult_signs {b : Word} (h : ¬ (a = 0 ∨ b = 0)) (signedArith : Bool) :
    pair (mult a b signedArith).1 (mult a b signedArith).2 =
      let negA := signedArith && a.slt 0
      let negB := signedArith && b.slt 0
      let product := BitVec.ofNat 64
        ((if negA = true then -a else a).toNat * (if negB = true then -b else b).toNat)
      if (negA != negB) = true then -product else product := by
  unfold mult
  rw [if_neg h]
  dsimp only
  split
  · rw [pair_neg (by decide), multLoop_start]
  · exact multLoop_start _ _

theorem mult_signed {b : Word} (h : ¬ (a = 0 ∨ b = 0)) :
    pair (mult a b true).1 (mult a b true).2 = BitVec.ofInt 64 (a.toInt * b.toInt) := by
  have hsign (a : Word) : a.slt 0 = decide (a.toInt < 0) := rfl
  have hpos (h : 0 ≤ a.toInt * b.toInt) :
      BitVec.ofNat 64 (a.toInt * b.toInt).natAbs = BitVec.ofInt 64 (a.toInt * b.toInt) := by
    rw [← BitVec.ofInt_natCast, Int.natAbs_of_nonneg h]
  have hneg (h : a.toInt * b.toInt ≤ 0) :
      -BitVec.ofNat 64 (a.toInt * b.toInt).natAbs = BitVec.ofInt 64 (a.toInt * b.toInt) := by
    rw [← BitVec.ofInt_natCast, ← BitVec.ofInt_neg, Int.ofNat_natAbs_of_nonpos h, Int.neg_neg]
  rw [mult_signs h]
  simp only [Bool.true_and]
  rw [toNat_magnitude, toNat_magnitude, ← Int.natAbs_mul, hsign, hsign]
  by_cases ha : a.toInt < 0 <;> by_cases hb : b.toInt < 0
  · simpa [ha, hb] using hpos (mul_nonneg_of_nonpos_of_nonpos ha.le hb.le)
  · simpa [ha, hb] using hneg (mul_nonpos_of_nonpos_of_nonneg ha.le (not_lt.1 hb))
  · simpa [ha, hb] using hneg (mul_nonpos_of_nonneg_of_nonpos (not_lt.1 ha) hb.le)
  · simpa [ha, hb] using hpos (mul_nonneg (not_lt.1 ha) (not_lt.1 hb))

/-- **`Mult`** multiplies, as signed and as unsigned numbers. -/
theorem mult_product (a b : Word) :
    ((mult a b true).1 ++ (mult a b true).2 : BitVec 64).toInt = a.toInt * b.toInt ∧
      ((mult a b false).1 ++ (mult a b false).2 : BitVec 64).toNat = a.toNat * b.toNat := by
  by_cases h : a = 0 ∨ b = 0
  · have hmult (signedArith : Bool) : mult a b signedArith = (0, 0) := if_pos h
    rw [hmult, hmult]
    rcases h with rfl | rfl <;> simp
  · constructor
    · have hsize (a : Word) : a.toInt.natAbs ≤ 2 ^ 31 := by
        have hlt := BitVec.toInt_lt (x := a)
        have hle := BitVec.le_toInt a
        omega
      have hbound : (a.toInt * b.toInt).natAbs ≤ 2 ^ 31 * 2 ^ 31 := by
        rw [Int.natAbs_mul]
        exact Nat.mul_le_mul (hsize a) (hsize b)
      rw [show ((mult a b true).1 ++ (mult a b true).2 : BitVec 64) = _ from mult_signed h,
        BitVec.toInt_ofInt_eq_self (by decide) (by omega) (by omega)]
    · have hbound : a.toNat * b.toNat < 2 ^ 32 * 2 ^ 32 := Nat.mul_lt_mul'' a.isLt b.isLt
      have hvalue := mult_signs h false
      simp only [Bool.false_and, bne_self_eq_false] at hvalue
      rw [show ((mult a b false).1 ++ (mult a b false).2 : BitVec 64) = _ from hvalue]
      simp
      omega

/-! ## Division -/

/-- The quotient and the remainder of signed numbers; zeros for the divisor zero. -/
structure SignedQuotient (rs rt lo hi : Word) : Prop where
  zero : rt = 0 → lo = 0 ∧ hi = 0
  equation : rt ≠ 0 → rs = lo * rt + hi
  bound : rt ≠ 0 → hi.toInt.natAbs < rt.toInt.natAbs
  sign : rt ≠ 0 → hi = 0 ∨ hi.toInt.sign = rs.toInt.sign

/-- The quotient and the remainder of unsigned numbers; zeros for the divisor zero. -/
structure UnsignedQuotient (rs rt lo hi : Word) : Prop where
  zero : rt = 0 → lo = 0 ∧ hi = 0
  quotient : rt ≠ 0 → lo.toNat = rs.toNat / rt.toNat
  remainder : rt ≠ 0 → hi.toNat = rs.toNat % rt.toNat

theorem signedQuotient_host {rs : Word} (h : rt ≠ 0) :
    SignedQuotient rs rt (rs.sdiv rt) (rs.srem rt) := by
  have hdiv : rs.sdiv rt = BitVec.ofInt 32 (rs.toInt.tdiv rt.toInt) :=
    BitVec.eq_of_toInt_eq (by rw [BitVec.toInt_sdiv, BitVec.toInt_ofInt])
  have hrem : rs.srem rt = BitVec.ofInt 32 (rs.toInt.tmod rt.toInt) := by
    rw [← BitVec.toInt_srem, BitVec.ofInt_toInt]
  have hne : rt.toInt.natAbs ≠ 0 := fun h0 =>
    h (BitVec.eq_of_toInt_eq (by rw [Int.natAbs_eq_zero.1 h0]; rfl))
  refine ⟨fun h0 => absurd h0 h, fun _ => ?_, fun _ => ?_, fun _ => ?_⟩
  · calc rs = BitVec.ofInt 32 (rt.toInt * rs.toInt.tdiv rt.toInt + rs.toInt.tmod rt.toInt) := by
          rw [Int.mul_tdiv_add_tmod, BitVec.ofInt_toInt]
      _ = rs.sdiv rt * rt + rs.srem rt := by
          rw [BitVec.ofInt_add, BitVec.ofInt_mul, BitVec.ofInt_toInt, ← hdiv, ← hrem, mul_comm]
  · rw [BitVec.toInt_srem, Int.natAbs_tmod]
    exact Nat.mod_lt _ (Nat.pos_of_ne_zero hne)
  · rw [BitVec.toInt_srem, Int.sign_tmod]
    by_cases hdvd : rt.toInt ∣ rs.toInt
    · refine .inl (BitVec.eq_of_toInt_eq ?_)
      rw [BitVec.toInt_srem, Int.tmod_eq_zero_of_dvd hdvd]
      rfl
    · exact .inr (if_neg hdvd)

theorem unsignedQuotient_host {rs : Word} (h : rt ≠ 0) : UnsignedQuotient rs rt (rs / rt) (rs % rt) :=
  ⟨fun h0 => absurd h0 h, fun _ => BitVec.toNat_udiv, fun _ => BitVec.toNat_umod⟩

namespace Machine

variable {cfg : Build} {m m1 : Machine} {instr : Instruction}

/-- The instruction runs to its end, and leaves quotient and remainder in `Lo` and `Hi`. -/
def DivisionDone (cfg : Build) (instr : Instruction) (m : Machine) : Prop :=
  ∃ m', (oneInstruction cfg).run m = .ok () m' ∧
    (instr.opCode = .div →
      SignedQuotient (m.gp instr.rs) (m.gp instr.rt) (m'.registers loReg) (m'.registers hiReg)) ∧
    (instr.opCode = .divu →
      UnsignedQuotient (m.gp instr.rs) (m.gp instr.rt) (m'.registers loReg) (m'.registers hiReg))

theorem execute_division (cfg : Build) (hop : instr.opCode = .div ∨ instr.opCode = .divu)
    (h : ¬ DivOverflow instr m) (pcAfter : Word) :
    ∃ lo hi, (execute cfg instr pcAfter).run m =
        .ok ⟨pcAfter, 0, 0⟩ ((m.setReg loReg lo).setReg hiReg hi) ∧
      (instr.opCode = .div → SignedQuotient (m.gp instr.rs) (m.gp instr.rt) lo hi) ∧
      (instr.opCode = .divu → UnsignedQuotient (m.gp instr.rs) (m.gp instr.rt) lo hi) := by
  by_cases h0 : m.gp instr.rt = 0
  · refine ⟨0, 0, ?_, fun _ => ?_, fun _ => ?_⟩
    · unfold execute
      rcases hop with hop | hop <;> simp only [hop, EStateM.run_bind, EStateM.run_get, if_pos h0] <;> rfl
    · exact ⟨fun _ => ⟨rfl, rfl⟩, fun h => absurd h0 h, fun h => absurd h0 h, fun h => absurd h0 h⟩
    · exact ⟨fun _ => ⟨rfl, rfl⟩, fun h => absurd h0 h, fun h => absurd h0 h⟩
  · rcases hop with hop | hop
    · refine ⟨_, _, ?_, fun _ => signedQuotient_host h0, fun hu => ?_⟩
      · have hno : ¬ (m.gp instr.rs = signBit ∧ m.gp instr.rt = -1) := fun hov => h ⟨hop, hov⟩
        unfold execute
        simp only [hop, EStateM.run_bind, EStateM.run_get, if_neg h0, if_neg hno]
        rfl
      · rw [hop] at hu
        cases hu
    · refine ⟨_, _, ?_, fun hs => ?_, fun _ => unsignedQuotient_host h0⟩
      · unfold execute
        simp only [hop, EStateM.run_bind, EStateM.run_get, if_neg h0]
        rfl
      · rw [hop] at hs
        cases hs

theorem execute_overflowing (h : DivOverflow instr m) (pcAfter : Word) :
    (execute cfg instr pcAfter).run m = .error (.fault .undefined) m := by
  obtain ⟨hop, hov⟩ := h
  have hne : m.gp instr.rt ≠ 0 := by
    rw [hov.2]
    decide
  unfold execute
  simp only [hop, EStateM.run_bind, EStateM.run_get, if_neg hne, if_pos hov]
  rfl

theorem Fetches.divOverflow (hf : Fetches cfg m instr m1) :
    DivOverflow instr m1 ↔ DivOverflow instr m := by
  unfold DivOverflow
  rw [hf.gp, hf.gp]

/-- **`DIV` and `DIVU`** divide, but for the one quotient that is no `int`. -/
theorem division_iff (hl : m.LoadsGeneral) (hf : Fetches cfg m instr m1)
    (hop : instr.opCode = .div ∨ instr.opCode = .divu) :
    DivisionDone cfg instr m ↔ ¬ DivOverflow instr m := by
  unfold DivisionDone
  rw [oneInstruction_fetched hl hf]
  constructor
  · rintro ⟨m', hrun, -⟩ hov
    rw [execute_overflowing (hf.divOverflow.2 hov)] at hrun
    cases hrun
  · intro hno
    obtain ⟨lo, hi, hrun, hsigned, hunsigned⟩ :=
      execute_division cfg hop (mt hf.divOverflow.1 hno) (m1.registers nextPCReg + 4)
    rw [hf.gp, hf.gp] at hsigned hunsigned
    refine ⟨_, by rw [hrun], ?_⟩
    rw [hiLo_finished (.inl rfl), hiLo_finished (.inr rfl), registers_setReg, registers_setReg,
      registers_setReg, if_neg (by decide), if_pos rfl, if_pos rfl]
    exact ⟨hsigned, hunsigned⟩

def divPage (rs rt : Word) : Machine :=
  programPage [0x0022001a] fun r => if r = gpr 1 then rs else if r = gpr 2 then rt else 0

theorem division_divPage : DivisionDone buildLinux ⟨.div, 1, 2, 0, 0⟩ (divPage (-7) 2) := by
  refine (division_iff ?_ ⟨0x0022001a, rfl, by decide⟩ (.inl rfl)).2 ?_
  · unfold LoadsGeneral
    decide
  · unfold DivOverflow
    decide

/-- The least `int` by `-1`: the host's division is undefined. -/
theorem divPage_undefined :
    (∃ m1, Fetches buildLinux (divPage signBit (-1)) ⟨.div, 1, 2, 0, 0⟩ m1) ∧
      ¬ DivisionDone buildLinux ⟨.div, 1, 2, 0, 0⟩ (divPage signBit (-1)) := by
  have hf : ∃ m1, Fetches buildLinux (divPage signBit (-1)) ⟨.div, 1, 2, 0, 0⟩ m1 :=
    ⟨_, 0x0022001a, rfl, by decide⟩
  refine ⟨hf, ?_⟩
  obtain ⟨m1, hf⟩ := hf
  rintro ⟨m', hrun, -⟩
  rw [oneInstruction_fetched ?_ hf, execute_overflowing (hf.divOverflow.2 ?_)] at hrun
  · cases hrun
  · unfold DivOverflow
    decide
  · unfold LoadsGeneral
    decide

/-! ## Shifts -/

end Machine

def OpCode.isShift : OpCode → Bool
  | .sll | .sllv | .srl | .srlv | .sra | .srav => true
  | _ => false

/-- The word a shift is to give: `SRL` and `SRLV` fill with zeros, `SRA` and `SRAV` with the sign. -/
def shifted (opCode : OpCode) (rt : Word) (count : Nat) : Word :=
  match opCode with
  | .sll | .sllv => rt <<< count
  | .srl | .srlv => rt >>> count
  | _ => rt.sshiftRight count

def hostShifted (opCode : OpCode) (rt : Word) (count : Nat) : Word :=
  match opCode with
  | .sll | .sllv => rt <<< count
  | _ => rt.sshiftRight count

theorem sshiftRight_eq_iff {x : Word} (hn : n < 32) :
    x.sshiftRight n = x >>> n ↔ n = 0 ∨ x.msb = false := by
  constructor
  · intro h
    by_contra hno
    rw [not_or, Bool.not_eq_false] at hno
    have htop := congrArg (·.getLsbD 31) h
    simp only [BitVec.getLsbD_sshiftRight, BitVec.getLsbD_ushiftRight] at htop
    rw [BitVec.getLsbD_of_ge x (n + 31) (by omega)] at htop
    simp [show ¬ n + 31 < 32 by omega, hno.2] at htop
  · rintro (rfl | h)
    · simp
    · exact BitVec.sshiftRight_eq_of_msb_false h

theorem hostShifted_eq_iff {opCode : OpCode} {count : Nat} (hn : count < 32) :
    hostShifted opCode rt count = shifted opCode rt count ↔
      (opCode = .srl ∨ opCode = .srlv → count = 0 ∨ rt.msb = false) := by
  cases opCode with
  | srl | srlv => simpa [hostShifted, shifted] using sshiftRight_eq_iff hn
  | _ => simp [hostShifted, shifted]

def shiftFormat : TableCode × Format → Bool
  | (.op opCode, _) => !opCode.isShift
  | (.special, format) => format == .rFmt
  | (.bcond, _) => true

theorem opTable_shiftFormat : ∀ entry ∈ opTable, shiftFormat entry = true := by decide

theorem decode_extra {raw : Word} (h : (Instruction.decode raw).opCode.isShift = true) :
    (Instruction.decode raw).extra = (raw >>> 6) &&& 0x1f#32 := by
  have hentry := getD_of_forall (d := (.op .res, .iFmt)) opTable_shiftFormat (by decide)
    ((raw >>> 26) &&& 0x3f#32).toNat
  unfold Instruction.decode at h ⊢
  cases he : opTable.getD ((raw >>> 26) &&& 0x3f#32).toNat (.op .res, .iFmt) with
  | mk code format =>
    rw [he] at h hentry
    cases code with
    | op opCode =>
      dsimp only [shiftFormat] at h hentry
      rw [h] at hentry
      cases hentry
    | special =>
      have hformat : format = .rFmt := by simpa [shiftFormat] using hentry
      subst hformat
      rfl
    | bcond =>
      dsimp only at h
      split_ifs at h <;> cases h

namespace Machine

variable {cfg : Build} {m m1 : Machine} {raw : Word}

/-- The shift amount: the bits 10:6 of the instruction, or the low five bits of `rs`. -/
def shiftCount (raw : Word) (m : Machine) : Nat :=
  match (Instruction.decode raw).opCode with
  | .sll | .srl | .sra => raw.toNat / 2 ^ 6 % 32
  | _ => (m.gp (Instruction.decode raw).rs).toNat % 32

theorem shiftCount_lt (raw : Word) (m : Machine) : shiftCount raw m < 32 := by
  unfold shiftCount
  split <;> exact Nat.mod_lt _ (by decide)

theorem toNat_and_31 (x : Word) : (x &&& 0x1f#32).toNat = x.toNat % 32 := by
  rw [BitVec.toNat_and, show (0x1f#32).toNat = 2 ^ 5 - 1 from rfl, Nat.and_two_pow_sub_one_eq_mod]

theorem execute_shift (h : (Instruction.decode raw).opCode.isShift = true) (pcAfter : Word) :
    (execute cfg (Instruction.decode raw) pcAfter).run m =
      .ok ⟨pcAfter, 0, 0⟩ (m.setReg (gpr (Instruction.decode raw).rd)
        (hostShifted (Instruction.decode raw).opCode (m.gp (Instruction.decode raw).rt)
          (shiftCount raw m))) := by
  have hextra : (Instruction.decode raw).extra.toNat = raw.toNat / 2 ^ 6 % 32 := by
    rw [decode_extra h, toNat_and_31, BitVec.toNat_ushiftRight, Nat.shiftRight_eq_div_pow]
  have hset (r : Fin 32) (v : Word) :
      (setResult r v pcAfter).run m = .ok ⟨pcAfter, 0, 0⟩ (m.setReg (gpr r) v) := rfl
  unfold shiftCount execute
  rw [run_get_bind]
  generalize Instruction.decode raw = instr at *
  cases hop : instr.opCode with
  | sll => simp only [hset, hostShifted, BitVec.shiftLeft_eq', hextra]
  | sllv => simp only [hset, hostShifted, BitVec.shiftLeft_eq', toNat_and_31]
  | srl | sra => simp only [hset, hostShifted, BitVec.sshiftRight', hextra]
  | srlv | srav => simp only [hset, hostShifted, BitVec.sshiftRight', toNat_and_31]
  | _ =>
    rw [hop] at h
    cases h

/-- The instruction leaves the shifted word in `rd`, and of the other general registers it changes at most
the one the pending load is for. -/
def ShiftDone (cfg : Build) (raw : Word) (m : Machine) : Prop :=
  let instr := Instruction.decode raw
  ∃ m', (oneInstruction cfg).run m = .ok () m' ∧
    (instr.rd ≠ 0 → m'.gp instr.rd = shifted instr.opCode (m.gp instr.rt) (shiftCount raw m)) ∧
    ∀ r, r ≠ instr.rd →
      m'.gp r = if r ≠ 0 ∧ r = m.loadTarget then m.registers loadValueReg else m.gp r

/-- Where shifts are right: a word with the top bit set is not shifted right with zero fill, and no pending
load comes in over the result. -/
def ShiftsRight (raw : Word) (m : Machine) : Prop :=
  let instr := Instruction.decode raw
  instr.rd = 0 ∨
    if instr.rd = m.loadTarget then
      m.registers loadValueReg = shifted instr.opCode (m.gp instr.rt) (shiftCount raw m)
    else instr.opCode = .srl ∨ instr.opCode = .srlv →
      shiftCount raw m = 0 ∨ (m.gp instr.rt).msb = false

theorem oneInstruction_shift (hreg : RegisterFile m.registers)
    (hraw : (readMem cfg (m.registers pcReg) 4).run m = .ok raw m1)
    (hop : (Instruction.decode raw).opCode.isShift = true) :
    ∃ m', (oneInstruction cfg).run m = .ok () m' ∧ ∀ r, m'.gp r =
      if r = 0 then 0 else if r = m.loadTarget then m.registers loadValueReg
      else if r = (Instruction.decode raw).rd then
        hostShifted (Instruction.decode raw).opCode (m.gp (Instruction.decode raw).rt) (shiftCount raw m)
      else m.gp r := by
  have hf : Fetches cfg m (Instruction.decode raw) m1 := ⟨raw, hraw, rfl⟩
  have hcount : shiftCount raw m1 = shiftCount raw m := by
    unfold shiftCount
    rw [hf.gp]
  have hload : loadReg ≠ gpr (Instruction.decode raw).rd := (gpr_ne (by decide)).symm
  have hvalue : loadValueReg ≠ gpr (Instruction.decode raw).rd := (gpr_ne (by decide)).symm
  refine ⟨_, by rw [oneInstruction_fetched hreg.load hf, execute_shift hop], fun r => ?_⟩
  rw [gp_finished, hcount, hf.gp]
  unfold loadTarget gp
  simp only [registers_setReg, hf.contents.registers, gpr_injective.eq_iff, if_neg hload,
    if_neg hvalue]

/-- **The shifts.** -/
theorem shift_iff (hreg : RegisterFile m.registers)
    (hraw : (readMem cfg (m.registers pcReg) 4).run m = .ok raw m1)
    (hop : (Instruction.decode raw).opCode.isShift = true) :
    ShiftDone cfg raw m ↔ ShiftsRight raw m := by
  obtain ⟨m', hrun, hgp⟩ := oneInstruction_shift hreg hraw hop
  have hdest (h0 : (Instruction.decode raw).rd ≠ 0) :
      m'.gp (Instruction.decode raw).rd =
          shifted (Instruction.decode raw).opCode (m.gp (Instruction.decode raw).rt) (shiftCount raw m) ↔
        ShiftsRight raw m := by
    rw [hgp, if_neg h0, if_pos rfl]
    unfold ShiftsRight
    dsimp only
    rw [or_iff_right h0]
    by_cases ht : (Instruction.decode raw).rd = m.loadTarget
    · rw [if_pos ht, if_pos ht]
    · rw [if_neg ht, if_neg ht]
      exact hostShifted_eq_iff (shiftCount_lt raw m)
  constructor
  · rintro ⟨m'', hrun', hrd, -⟩
    rw [hrun] at hrun'
    cases hrun'
    by_cases h0 : (Instruction.decode raw).rd = 0
    · exact .inl h0
    · exact (hdest h0).1 (hrd h0)
  · intro h
    refine ⟨m', hrun, fun h0 => (hdest h0).2 h, fun r hr => ?_⟩
    rw [hgp, if_neg hr]
    by_cases h0 : r = 0
    · rw [if_pos h0, if_neg fun hc => hc.1 h0, h0]
      exact hreg.zero.symm
    · rw [if_neg h0]
      simp only [h0, ne_eq, not_false_eq_true, true_and]

def srlPage (rt : Word) : Machine :=
  programPage [0x00011902] fun r => if r = gpr 1 then rt else 0

theorem shift_srlPage : ShiftDone buildLinux 0x00011902 (srlPage 0x70000010) := by
  have hraw : ∃ m1, (readMem buildLinux 0 4).run (srlPage 0x70000010) = .ok 0x00011902 m1 := ⟨_, rfl⟩
  obtain ⟨m1, hraw⟩ := hraw
  exact (shift_iff ⟨by decide, by decide⟩ hraw (by decide)).2 (.inr (by decide))

/-- The least `int`, by 4: the sign comes in from the left. -/
theorem srlPage_sign : Instruction.decode 0x00011902 = ⟨.srl, 0, 1, 3, 4⟩ ∧
    ¬ ShiftDone buildLinux 0x00011902 (srlPage signBit) := by
  have hraw : ∃ m1, (readMem buildLinux ((srlPage signBit).registers pcReg) 4).run (srlPage signBit) =
      .ok 0x00011902 m1 := ⟨_, rfl⟩
  obtain ⟨m1, hraw⟩ := hraw
  obtain ⟨m', hrun, hgp⟩ := oneInstruction_shift ⟨by decide, by decide⟩ hraw (by decide)
  refine ⟨by decide, ?_⟩
  rintro ⟨m'', hrun', hrd, -⟩
  rw [hrun] at hrun'
  cases hrun'
  exact absurd ((hgp 3).symm.trans (hrd (by decide))) (by decide)

end Machine

end Nachos
