import Nachos.Machine.Translate

/-!
# The MIPS simulator (`machine/mipssim.h`, `machine/mipssim.cc`)

Decoding, the instructions, and `OneInstruction`. Registers hold `int`s; signed overflow and shifts of
negative numbers wrap, as the host's do. `execute` is the `switch` of `OneInstruction`: it returns the
values that the end of the function uses.
-/

namespace Nachos

open Base

/-! ## Decoding -/

inductive OpCode
  | add | addi | addiu | addu | and | andi | beq | bgez | bgezal | bgtz | blez | bltz | bltzal | bne
  | div | divu | j | jal | jalr | jr | lb | lbu | lh | lhu | lui | lw | lwl | lwr
  | mfhi | mflo | mthi | mtlo | mult | multu | nor | or | ori | rfe | sb | sh | sll | sllv
  | slt | slti | sltiu | sltu | sra | srav | srl | srlv | sub | subu | sw | swl | swr
  | xor | xori | syscall | unimp | res
  deriving DecidableEq, Repr

def OpCode.number : OpCode → Nat
  | .add => 1 | .addi => 2 | .addiu => 3 | .addu => 4 | .and => 5 | .andi => 6 | .beq => 7
  | .bgez => 8 | .bgezal => 9 | .bgtz => 10 | .blez => 11 | .bltz => 12 | .bltzal => 13 | .bne => 14
  | .div => 16 | .divu => 17 | .j => 18 | .jal => 19 | .jalr => 20 | .jr => 21 | .lb => 22
  | .lbu => 23 | .lh => 24 | .lhu => 25 | .lui => 26 | .lw => 27 | .lwl => 28 | .lwr => 29
  | .mfhi => 31 | .mflo => 32 | .mthi => 34 | .mtlo => 35 | .mult => 36 | .multu => 37 | .nor => 38
  | .or => 39 | .ori => 40 | .rfe => 41 | .sb => 42 | .sh => 43 | .sll => 44 | .sllv => 45
  | .slt => 46 | .slti => 47 | .sltiu => 48 | .sltu => 49 | .sra => 50 | .srav => 51 | .srl => 52
  | .srlv => 53 | .sub => 54 | .subu => 55 | .sw => 56 | .swl => 57 | .swr => 58 | .xor => 59
  | .xori => 60 | .syscall => 61 | .unimp => 62 | .res => 63

def maxOpcode : Nat := 63

/-- An entry of `opTable`: an opcode, or one of the two codes that are decoded further. -/
inductive TableCode
  | op (opCode : OpCode)
  | special
  | bcond
  deriving DecidableEq, Repr

inductive Format
  | iFmt | jFmt | rFmt
  deriving DecidableEq, Repr

/-- `opTable`, by bits 31:26 of the instruction. -/
def opTable : List (TableCode × Format) := [
  (.special, .rFmt), (.bcond, .iFmt), (.op .j, .jFmt), (.op .jal, .jFmt),
  (.op .beq, .iFmt), (.op .bne, .iFmt), (.op .blez, .iFmt), (.op .bgtz, .iFmt),
  (.op .addi, .iFmt), (.op .addiu, .iFmt), (.op .slti, .iFmt), (.op .sltiu, .iFmt),
  (.op .andi, .iFmt), (.op .ori, .iFmt), (.op .xori, .iFmt), (.op .lui, .iFmt),
  (.op .unimp, .iFmt), (.op .unimp, .iFmt), (.op .unimp, .iFmt), (.op .unimp, .iFmt),
  (.op .res, .iFmt), (.op .res, .iFmt), (.op .res, .iFmt), (.op .res, .iFmt),
  (.op .res, .iFmt), (.op .res, .iFmt), (.op .res, .iFmt), (.op .res, .iFmt),
  (.op .res, .iFmt), (.op .res, .iFmt), (.op .res, .iFmt), (.op .res, .iFmt),
  (.op .lb, .iFmt), (.op .lh, .iFmt), (.op .lwl, .iFmt), (.op .lw, .iFmt),
  (.op .lbu, .iFmt), (.op .lhu, .iFmt), (.op .lwr, .iFmt), (.op .res, .iFmt),
  (.op .sb, .iFmt), (.op .sh, .iFmt), (.op .swl, .iFmt), (.op .sw, .iFmt),
  (.op .res, .iFmt), (.op .res, .iFmt), (.op .swr, .iFmt), (.op .res, .iFmt),
  (.op .unimp, .iFmt), (.op .unimp, .iFmt), (.op .unimp, .iFmt), (.op .unimp, .iFmt),
  (.op .res, .iFmt), (.op .res, .iFmt), (.op .res, .iFmt), (.op .res, .iFmt),
  (.op .unimp, .iFmt), (.op .unimp, .iFmt), (.op .unimp, .iFmt), (.op .unimp, .iFmt),
  (.op .res, .iFmt), (.op .res, .iFmt), (.op .res, .iFmt), (.op .res, .iFmt)]

/-- `specialTable`, by the low six bits of the instruction. -/
def specialTable : List OpCode := [
  .sll, .res, .srl, .sra, .sllv, .res, .srlv, .srav,
  .jr, .jalr, .res, .res, .syscall, .unimp, .res, .res,
  .mfhi, .mthi, .mflo, .mtlo, .res, .res, .res, .res,
  .mult, .multu, .div, .divu, .res, .res, .res, .res,
  .add, .addu, .sub, .subu, .and, .or, .xor, .nor,
  .res, .res, .slt, .sltu, .res, .res, .res, .res,
  .res, .res, .res, .res, .res, .res, .res, .res,
  .res, .res, .res, .res, .res, .res, .res, .res]

structure Instruction where
  opCode : OpCode
  rs : Fin 32
  rt : Fin 32
  rd : Fin 32
  extra : Word
  deriving DecidableEq, Repr

def registerField (value : Word) (shift : Nat) : Fin 32 :=
  Fin.ofNat 32 ((value >>> shift) &&& 0x1f#32).toNat

def Instruction.decode (value : Word) : Instruction :=
  let (code, format) := opTable.getD ((value >>> 26) &&& 0x3f#32).toNat (.op .res, .iFmt)
  let extra := match format with
    | .iFmt =>
      let extra := value &&& 0xffff#32
      if extra &&& 0x8000#32 ≠ 0 then extra ||| 0xffff0000#32 else extra
    | .rFmt => (value >>> 6) &&& 0x1f#32
    | .jFmt => value &&& 0x3ffffff#32
  let opCode := match code with
    | .op opCode => opCode
    | .special => specialTable.getD (value &&& 0x3f#32).toNat .res
    | .bcond =>
      let i := value &&& 0x1f0000#32
      if i = 0 then .bltz
      else if i = 0x10000#32 then .bgez
      else if i = 0x100000#32 then .bltzal
      else if i = 0x110000#32 then .bgezal
      else .unimp
  { opCode, extra, rs := registerField value 21, rt := registerField value 16,
    rd := registerField value 11 }

def signBit : Word := 0x80000000

def indexToAddr (x : Word) : Word := x <<< 2

/-! ## Multiplication -/

/-- The loop of `Mult`, with `n` rounds to go; the high and the low word. -/
def multLoop : Nat → (a bLo bHi lo hi : Word) → Word × Word
  | 0, _, _, _, lo, hi => (hi, lo)
  | n + 1, a, bLo, bHi, lo, hi =>
    let again (lo hi : Word) :=
      let bHi := bHi <<< 1
      let bHi := if bLo &&& 0x80000000#32 ≠ 0 then bHi ||| 1 else bHi
      multLoop n (a.sshiftRight 1) (bLo <<< 1) bHi lo hi
    if a &&& 1#32 ≠ 0 then
      let lo := lo + bLo
      let hi := if lo < bLo then hi + 1 else hi
      let hi := hi + bHi
      if a &&& 0xfffffffe#32 = 0 then (hi, lo) else again lo hi
    else again lo hi

/-- `Mult`: the words it stores through `hiPtr` and `loPtr`. -/
def mult (a b : Word) (signedArith : Bool) : Word × Word :=
  if a = 0 ∨ b = 0 then (0, 0)
  else
    let negA := signedArith && a.slt 0
    let negB := signedArith && b.slt 0
    let negative := negA != negB
    let a := if negA then -a else a
    let b := if negB then -b else b
    let (hi, lo) := multLoop 32 a b 0 0 0
    if negative then
      let hi := ~~~hi
      let lo := ~~~lo + 1
      (if lo = 0 then hi + 1 else hi, lo)
    else (hi, lo)

/-! ## The instructions -/

/-- The local variables the end of `OneInstruction` uses. -/
structure Pending where
  pcAfter : Word
  nextLoadReg : Word
  nextLoadValue : Word
  deriving DecidableEq, Repr

namespace Machine

/-- The machine's register `r`, of the 32. -/
def gp (m : Machine) (r : Fin 32) : Word := m.registers (gpr r)

def done (pcAfter : Word) : MachineM Pending := return ⟨pcAfter, 0, 0⟩

/-- `registers[r] = value; break;` -/
def setResult (r : Fin 32) (value pcAfter : Word) : MachineM Pending := do
  writeRegister (gpr r) value
  done pcAfter

/-- `if (taken) pcAfter = registers[NextPCReg] + IndexToAddr(instr->extra); break;` -/
def branchIf (taken : Machine → Bool) (instr : Instruction) (pcAfter : Word) : MachineM Pending := do
  let m ← get
  done (if taken m then m.registers nextPCReg + indexToAddr instr.extra else pcAfter)

/-- `registers[R31] = registers[NextPCReg] + 4;` -/
def link : MachineM Unit := do
  writeRegister retAddrReg ((← get).registers nextPCReg + 4)

/-- The aligned word that `LWL`, `LWR`, `SWL` and `SWR` work on: its address, its value and the case
of the `switch` behind it. Without `SIM_FIX` only aligned addresses pass. -/
def alignedWord (cfg : Build) (tmp : Word) : MachineM (Word × Word × Word) := do
  if cfg.simFix then
    let byte := tmp &&& 0x3#32
    let value ← readMem cfg (tmp - byte) 4
    return (tmp - byte, value, 3 - byte)
  else
    assertM (tmp &&& 0x3#32 = 0)
    let value ← readMem cfg (tmp &&& ~~~0x3#32) 4
    return (tmp &&& ~~~0x3#32, value, tmp &&& 0x3#32)

/-- The value `LWL` and `LWR` merge into: the one a pending load brings to the register. -/
def mergeTarget (m : Machine) (rt : Fin 32) : Word :=
  if m.registers loadReg = BitVec.ofNat 32 rt then m.registers loadValueReg else m.gp rt

/-- The word `LWL` loads. -/
def mergeLeft (which old value : Word) : Word :=
  if which = 0 then value
  else if which = 1 then (old &&& 0xff#32) ||| (value <<< 8)
  else if which = 2 then (old &&& 0xffff#32) ||| (value <<< 16)
  else if which = 3 then (old &&& 0xffffff#32) ||| (value <<< 24)
  else old

/-- The word `LWR` loads. -/
def mergeRight (which old value : Word) : Word :=
  if which = 0 then (old &&& 0xffffff00#32) ||| ((value.sshiftRight 24) &&& 0xff#32)
  else if which = 1 then (old &&& 0xffff0000#32) ||| ((value.sshiftRight 16) &&& 0xffff#32)
  else if which = 2 then (old &&& 0xff000000#32) ||| ((value.sshiftRight 8) &&& 0xffffff#32)
  else if which = 3 then value
  else old

/-- The word `SWL` stores. -/
def storeLeft (which value rt : Word) : Word :=
  if which = 0 then rt
  else if which = 1 then (value &&& 0xff000000#32) ||| ((rt.sshiftRight 8) &&& 0xffffff#32)
  else if which = 2 then (value &&& 0xffff0000#32) ||| ((rt.sshiftRight 16) &&& 0xffff#32)
  else if which = 3 then (value &&& 0xffffff00#32) ||| ((rt.sshiftRight 24) &&& 0xff#32)
  else value

/-- The word `SWR` stores. -/
def storeRight (which value rt : Word) : Word :=
  if which = 0 then (value &&& 0xffffff#32) ||| (rt <<< 24)
  else if which = 1 then (value &&& 0xffff#32) ||| (rt <<< 16)
  else if which = 2 then (value &&& 0xff#32) ||| (rt <<< 8)
  else if which = 3 then rt
  else value

def flag (b : Bool) : Word := if b then 1 else 0

/-- The `switch` of `OneInstruction`. -/
def execute (cfg : Build) (instr : Instruction) (pcAfter : Word) : MachineM Pending := do
  let m ← get
  let rs := m.gp instr.rs
  let rt := m.gp instr.rt
  let extra := instr.extra
  let rtReg := BitVec.ofNat 32 instr.rt
  match instr.opCode with
  | .add =>
    let sum := rs + rt
    if (rs ^^^ rt) &&& signBit = 0 ∧ (rs ^^^ sum) &&& signBit ≠ 0 then
      throw (.raise .overflowException 0)
    setResult instr.rd sum pcAfter
  | .addi =>
    let sum := rs + extra
    if (rs ^^^ extra) &&& signBit = 0 ∧ (extra ^^^ sum) &&& signBit ≠ 0 then
      throw (.raise .overflowException 0)
    setResult instr.rt sum pcAfter
  | .addiu => setResult instr.rt (rs + extra) pcAfter
  | .addu => setResult instr.rd (rs + rt) pcAfter
  | .and => setResult instr.rd (rs &&& rt) pcAfter
  | .andi => setResult instr.rt (rs &&& (extra &&& 0xffff#32)) pcAfter
  | .beq => branchIf (fun m => m.gp instr.rs = m.gp instr.rt) instr pcAfter
  | .bgezal =>
    link
    branchIf (fun m => m.gp instr.rs &&& signBit = 0) instr pcAfter
  | .bgez => branchIf (fun m => m.gp instr.rs &&& signBit = 0) instr pcAfter
  | .bgtz => branchIf (fun m => (0 : Word).slt (m.gp instr.rs)) instr pcAfter
  | .blez => branchIf (fun m => (m.gp instr.rs).sle 0) instr pcAfter
  | .bltzal =>
    link
    branchIf (fun m => m.gp instr.rs &&& signBit ≠ 0) instr pcAfter
  | .bltz => branchIf (fun m => m.gp instr.rs &&& signBit ≠ 0) instr pcAfter
  | .bne => branchIf (fun m => m.gp instr.rs ≠ m.gp instr.rt) instr pcAfter
  | .div =>
    if rt = 0 then
      writeRegister loReg 0
      writeRegister hiReg 0
    else
      -- the quotient of `INT_MIN / -1` is no `int`
      if rs = signBit ∧ rt = -1 then throw (.fault .undefined)
      writeRegister loReg (rs.sdiv rt)
      writeRegister hiReg (rs.srem rt)
    done pcAfter
  | .divu =>
    if rt = 0 then
      writeRegister loReg 0
      writeRegister hiReg 0
    else
      writeRegister loReg (rs / rt)
      writeRegister hiReg (rs % rt)
    done pcAfter
  | .jal =>
    link
    done ((pcAfter &&& 0xf0000000#32) ||| indexToAddr extra)
  | .j => done ((pcAfter &&& 0xf0000000#32) ||| indexToAddr extra)
  | .jalr =>
    writeRegister (gpr instr.rd) (m.registers nextPCReg + 4)
    done ((← get).gp instr.rs)
  | .jr => done rs
  | .lb =>
    let value ← readMem cfg (rs + extra) 1
    return ⟨pcAfter, rtReg,
      if value &&& 0x80#32 ≠ 0 then value ||| 0xffffff00#32 else value &&& 0xff#32⟩
  | .lbu =>
    let value ← readMem cfg (rs + extra) 1
    return ⟨pcAfter, rtReg, value &&& 0xff#32⟩
  | .lh =>
    if (rs + extra) &&& 0x1#32 ≠ 0 then throw (.raise .addressErrorException (rs + extra))
    let value ← readMem cfg (rs + extra) 2
    return ⟨pcAfter, rtReg,
      if value &&& 0x8000#32 ≠ 0 then value ||| 0xffff0000#32 else value &&& 0xffff#32⟩
  | .lhu =>
    if (rs + extra) &&& 0x1#32 ≠ 0 then throw (.raise .addressErrorException (rs + extra))
    let value ← readMem cfg (rs + extra) 2
    return ⟨pcAfter, rtReg, value &&& 0xffff#32⟩
  | .lui => setResult instr.rt (extra <<< 16) pcAfter
  | .lw =>
    if (rs + extra) &&& 0x3#32 ≠ 0 then throw (.raise .addressErrorException (rs + extra))
    let value ← readMem cfg (rs + extra) 4
    return ⟨pcAfter, rtReg, value⟩
  | .lwl =>
    let (_, value, which) ← alignedWord cfg (rs + extra)
    return ⟨pcAfter, rtReg, mergeLeft which ((← get).mergeTarget instr.rt) value⟩
  | .lwr =>
    let (_, value, which) ← alignedWord cfg (rs + extra)
    return ⟨pcAfter, rtReg, mergeRight which ((← get).mergeTarget instr.rt) value⟩
  | .mfhi => setResult instr.rd (m.registers hiReg) pcAfter
  | .mflo => setResult instr.rd (m.registers loReg) pcAfter
  | .mthi =>
    writeRegister hiReg rs
    done pcAfter
  | .mtlo =>
    writeRegister loReg rs
    done pcAfter
  | .mult =>
    let (hi, lo) := mult rs rt true
    writeRegister hiReg hi
    writeRegister loReg lo
    done pcAfter
  | .multu =>
    let (hi, lo) := mult rs rt false
    writeRegister hiReg hi
    writeRegister loReg lo
    done pcAfter
  | .nor => setResult instr.rd (~~~(rs ||| rt)) pcAfter
  | .or => setResult instr.rd (rs ||| rt) pcAfter
  | .ori => setResult instr.rt (rs ||| (extra &&& 0xffff#32)) pcAfter
  | .sb =>
    writeMem cfg (rs + extra) 1 rt
    done pcAfter
  | .sh =>
    writeMem cfg (rs + extra) 2 rt
    done pcAfter
  | .sll => setResult instr.rd (rt <<< extra) pcAfter
  | .sllv => setResult instr.rd (rt <<< (rs &&& 0x1f#32)) pcAfter
  | .slt => setResult instr.rd (flag (rs.slt rt)) pcAfter
  | .slti => setResult instr.rt (flag (rs.slt extra)) pcAfter
  | .sltiu => setResult instr.rt (flag (rs.ult extra)) pcAfter
  | .sltu => setResult instr.rd (flag (rs.ult rt)) pcAfter
  | .sra => setResult instr.rd (rt.sshiftRight' extra) pcAfter
  | .srav => setResult instr.rd (rt.sshiftRight' (rs &&& 0x1f#32)) pcAfter
  -- `tmp` is an `int`: the shift brings in the sign
  | .srl => setResult instr.rd (rt.sshiftRight' extra) pcAfter
  | .srlv => setResult instr.rd (rt.sshiftRight' (rs &&& 0x1f#32)) pcAfter
  | .sub =>
    let diff := rs - rt
    if (rs ^^^ rt) &&& signBit ≠ 0 ∧ (rs ^^^ diff) &&& signBit ≠ 0 then
      throw (.raise .overflowException 0)
    setResult instr.rd diff pcAfter
  | .subu => setResult instr.rd (rs - rt) pcAfter
  | .sw =>
    writeMem cfg (rs + extra) 4 rt
    done pcAfter
  | .swl =>
    let (addr, value, which) ← alignedWord cfg (rs + extra)
    writeMem cfg addr 4 (storeLeft which value rt)
    done pcAfter
  | .swr =>
    let (addr, value, which) ← alignedWord cfg (rs + extra)
    writeMem cfg addr 4 (storeRight which value rt)
    done pcAfter
  | .syscall => throw (.raise .syscallException 0)
  | .xor => setResult instr.rd (rs ^^^ rt) pcAfter
  | .xori => setResult instr.rt (rs ^^^ (extra &&& 0xffff#32)) pcAfter
  | .res | .unimp => throw (.raise .illegalInstrException 0)
  -- `default: ASSERT(FALSE)`
  | .rfe => throw (.fault .assertion)

/-- `Machine::OneInstruction`, up to a call of `RaiseException`. -/
def oneInstruction (cfg : Build) : MachineM Unit := do
  let raw ← readMem cfg ((← get).registers pcReg) 4
  let instr := Instruction.decode raw
  let p ← execute cfg instr ((← get).registers nextPCReg + 4)
  delayedLoad p.nextLoadReg p.nextLoadValue
  writeRegister prevPCReg ((← get).registers pcReg)
  writeRegister pcReg ((← get).registers nextPCReg)
  writeRegister nextPCReg p.pcAfter

/-- `OneInstruction` with the part of `RaiseException` that the machine does itself. -/
def runInstruction (cfg : Build) : MachineM Unit := fun m =>
  match oneInstruction cfg m with
  | .error (.raise which badVAddr) m => (do
      trap badVAddr
      throw (Stop.raise which badVAddr)) m
  | r => r

end Machine

end Nachos
