import Nachos.Base.Bytes
import Nachos.Machine.Machine

/-!
# Memory accesses of user programs (`machine/translate.cc`)

`ReadMem` and `WriteMem` translate each address through the page table or the TLB. A failed access
calls `RaiseException`, and stops in the machine it is called in (`Stop.raise`).
-/

namespace Nachos.Machine

open Base

/-- The end of `Translate`, on the entry that was found; `update` puts the entry back. -/
def useEntry (entry : TranslationEntry) (update : TranslationEntry → Machine → Machine)
    (offset size : Nat) (writing : Bool) : MachineM (Except ExceptionType Nat) := do
  if entry.readOnly && writing then return .error .readOnlyException
  let pageFrame := entry.physicalPage.toNat
  if numPhysPages ≤ pageFrame then return .error .busErrorException
  modify (update { entry with use := true, dirty := entry.dirty || writing })
  let physAddr := pageFrame * pageSize + offset
  assertM (physAddr + size ≤ memorySize)
  return .ok physAddr

/-- `Machine::Translate`: the exception it returns, or the physical address. -/
def translate (virtAddr : Word) (size : Nat) (writing : Bool) :
    MachineM (Except ExceptionType Nat) := do
  if (size = 4 ∧ virtAddr &&& 0x3#32 ≠ 0) ∨ (size = 2 ∧ virtAddr &&& 0x1#32 ≠ 0) then
    return .error .addressErrorException
  let m ← get
  assertM (m.tlb = none ∨ m.pageTable = none)
  assertM (m.tlb ≠ none ∨ m.pageTable ≠ none)
  let vpn := virtAddr.toNat / pageSize
  let offset := virtAddr.toNat % pageSize
  match m.tlb with
  | none =>
    if m.pageTableSize ≤ vpn then return .error .addressErrorException
    match (m.pageTable.getD [])[vpn]? with
    -- `pageTableSize` promises more entries than the table has
    | none => throw (.fault .undefined)
    | some entry =>
      if !entry.valid then return .error .pageFaultException
      useEntry entry
        (fun entry m => { m with pageTable := m.pageTable.map (·.set vpn entry) })
        offset size writing
  | some tlb =>
    match (tlb.take tlbSize).findIdx?
        (fun e => e.valid && e.virtualPage == BitVec.ofNat 32 vpn) with
    | none => return .error .pageFaultException
    | some i =>
      match tlb[i]? with
      | none => throw (.fault .undefined)
      | some entry =>
        useEntry entry (fun entry m => { m with tlb := m.tlb.map (·.set i entry) })
          offset size writing

/-- The value `ReadMem` finds at a physical address; a `char` is signed on the host. -/
def readPhys (cfg : Build) (mem : Memory) (physicalAddress size : Nat) : Except Fault Word :=
  match size with
  | 1 => .ok ((mem physicalAddress).signExtend 32)
  | 2 => .ok ((shortToHost cfg (hostShort cfg mem physicalAddress)).zeroExtend 32)
  | 4 => .ok (wordToHost cfg (hostWord cfg mem physicalAddress))
  | _ => .error .assertion

def writtenBytes (cfg : Build) (size : Nat) (value : Word) : Except Fault (List Byte) :=
  match size with
  | 1 => .ok [(value &&& 0xff#32).truncate 8]
  | 2 => .ok (hostShortBytes cfg (shortToHost cfg ((value &&& 0xffff#32).truncate 16)))
  | 4 => .ok (hostWordBytes cfg (wordToHost cfg value))
  | _ => .error .assertion

def liftFault {α : Type} : Except Fault α → MachineM α
  | .ok a => pure a
  | .error f => throw (.fault f)

def readMem (cfg : Build) (addr : Word) (size : Nat) : MachineM Word := do
  match (← translate addr size false) with
  | .error exception => throw (.raise exception addr)
  | .ok physicalAddress => liftFault (readPhys cfg (← get).mainMemory physicalAddress size)

def writeMem (cfg : Build) (addr : Word) (size : Nat) (value : Word) : MachineM Unit := do
  match (← translate addr size true) with
  | .error exception => throw (.raise exception addr)
  | .ok physicalAddress =>
    let bytes ← liftFault (writtenBytes cfg size value)
    modify fun m => { m with mainMemory := writeBlock m.mainMemory physicalAddress bytes }

end Nachos.Machine
