import Nachos.Base.Exec
import Nachos.Lib.Debug
import Mathlib.Data.BitVec
import Mathlib.Logic.Function.Basic

/-!
# The simulated machine (`machine/machine.h`, `machine/machine.cc`, `machine/translate.h`)

The registers, main memory and translation tables of the simulated MIPS, and the conversions between
the host's and the machine's byte order. Host and register words are `int`s: 32-bit vectors, read as
signed or unsigned where the code does.

Machine code runs in `MachineM`: it returns, or stops in the machine it has reached, by calling
`RaiseException` (`Stop.raise`) or by ending the simulator (`Stop.fault`).
-/

namespace Nachos

open Base

abbrev Byte := BitVec 8
abbrev Word := BitVec 32

def pageSize : Nat := 128
def numPhysPages : Nat := 128
def memorySize : Nat := numPhysPages * pageSize
def tlbSize : Nat := 4

/-- The preprocessor symbols the simulator's code depends on. -/
structure Build where
  hostIsBigEndian : Bool
  simFix : Bool
  deriving DecidableEq, Repr

/-- `build.linux/Makefile`: an Intel host, `-DSIM_FIX`. -/
def buildLinux : Build := ⟨false, true⟩

/-- `TranslationEntry`, of a page table or the TLB. -/
structure TranslationEntry where
  virtualPage : Word
  physicalPage : Word
  valid : Bool
  readOnly : Bool
  use : Bool
  dirty : Bool
  deriving DecidableEq, Repr

/-- `ExceptionType`, without the bound `NumExceptionTypes`, which nothing raises. -/
inductive ExceptionType
  | noException
  | syscallException
  | pageFaultException
  | readOnlyException
  | busErrorException
  | addressErrorException
  | overflowException
  | illegalInstrException
  deriving DecidableEq, Repr

def numTotalRegs : Nat := 40

abbrev Reg := Fin numTotalRegs

def stackReg : Reg := ⟨29, by decide⟩
def retAddrReg : Reg := ⟨31, by decide⟩
def hiReg : Reg := ⟨32, by decide⟩
def loReg : Reg := ⟨33, by decide⟩
def pcReg : Reg := ⟨34, by decide⟩
def nextPCReg : Reg := ⟨35, by decide⟩
def prevPCReg : Reg := ⟨36, by decide⟩
def loadReg : Reg := ⟨37, by decide⟩
def loadValueReg : Reg := ⟨38, by decide⟩
def badVAddrReg : Reg := ⟨39, by decide⟩

instance neZero_gprs : NeZero 32 := ⟨by decide⟩

def gpr (r : Fin 32) : Reg := ⟨r, Nat.lt_trans r.isLt (by decide)⟩

/-- Bytes by their offset from the start of `mainMemory`; offsets from `memorySize` on lie outside
the array, in the host's memory. -/
abbrev Memory := Nat → Byte

/-- `Machine`. A null table is `none`; the entries a table pointer refers to are part of the
value. -/
structure Machine where
  registers : Reg → Word
  mainMemory : Memory
  tlb : Option (List TranslationEntry)
  pageTable : Option (List TranslationEntry)
  pageTableSize : Nat

inductive Stop
  | raise (which : ExceptionType) (badVAddr : Word)
  | fault (f : Fault)
  deriving DecidableEq, Repr

abbrev MachineM := EStateM Stop Machine

/-- `ASSERT` in machine code. -/
def assertM (condition : Prop) [Decidable condition] : MachineM Unit :=
  if condition then pure () else throw (.fault .assertion)

namespace Machine

def setReg (m : Machine) (r : Reg) (v : Word) : Machine :=
  { m with registers := Function.update m.registers r v }

@[simp] theorem registers_setReg (m : Machine) (r r' : Reg) (v : Word) :
    (m.setReg r v).registers r' = if r' = r then v else m.registers r' :=
  Function.update_apply ..

def readRegister (num : Reg) : MachineM Word := do return (← get).registers num

def writeRegister (num : Reg) (value : Word) : MachineM Unit := modify (·.setReg num value)

/-- `registers[num] = value`, where the code does not check the index. -/
def storeRegister (num value : Word) : MachineM Unit :=
  if h : num.toNat < numTotalRegs then writeRegister ⟨num.toNat, h⟩ value
  else throw (.fault .undefined)

def delayedLoad (nextReg nextValue : Word) : MachineM Unit := do
  let m ← get
  storeRegister (m.registers loadReg) (m.registers loadValueReg)
  writeRegister loadReg nextReg
  writeRegister loadValueReg nextValue
  writeRegister (gpr 0) 0

/-- The part of `Machine::RaiseException` before the kernel's handler runs. -/
def trap (badVAddr : Word) : MachineM Unit := do
  writeRegister badVAddrReg badVAddr
  delayedLoad 0 0

end Machine

/-! ## Byte order -/

/-- `WordToHost`, which `WordToMachine` is too. -/
def wordToHost (cfg : Build) (word : Word) : Word :=
  if cfg.hostIsBigEndian then
    ((word >>> 24) &&& 0x000000ff#32) ||| ((word >>> 8) &&& 0x0000ff00#32) |||
      ((word <<< 8) &&& 0x00ff0000#32) ||| ((word <<< 24) &&& 0xff000000#32)
  else word

/-- `ShortToHost`, which `ShortToMachine` is too. -/
def shortToHost (cfg : Build) (shortword : BitVec 16) : BitVec 16 :=
  if cfg.hostIsBigEndian then
    ((shortword <<< 8) &&& 0xff00#16) ||| ((shortword >>> 8) &&& 0x00ff#16)
  else shortword

/-- The `unsigned int` the host reads at an address. -/
def hostWord (cfg : Build) (mem : Memory) (a : Nat) : Word :=
  if cfg.hostIsBigEndian then mem a ++ mem (a + 1) ++ mem (a + 2) ++ mem (a + 3)
  else mem (a + 3) ++ mem (a + 2) ++ mem (a + 1) ++ mem a

/-- The `unsigned short` the host reads at an address. -/
def hostShort (cfg : Build) (mem : Memory) (a : Nat) : BitVec 16 :=
  if cfg.hostIsBigEndian then mem a ++ mem (a + 1) else mem (a + 1) ++ mem a

/-- The bytes of an `unsigned int` in the host's memory. -/
def hostWordBytes (cfg : Build) (v : Word) : List Byte :=
  let bytes := [v.extractLsb' 0 8, v.extractLsb' 8 8, v.extractLsb' 16 8, v.extractLsb' 24 8]
  if cfg.hostIsBigEndian then bytes.reverse else bytes

/-- The bytes of an `unsigned short` in the host's memory. -/
def hostShortBytes (cfg : Build) (v : BitVec 16) : List Byte :=
  let bytes := [v.extractLsb' 0 8, v.extractLsb' 8 8]
  if cfg.hostIsBigEndian then bytes.reverse else bytes

end Nachos
