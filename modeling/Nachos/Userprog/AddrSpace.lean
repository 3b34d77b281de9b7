import Nachos.Lib.Bitmap
import Nachos.Userprog.Noff

/-!
# Address spaces (`userprog/addrspace.cc`)

The constructor that allocates the frames of a program, the destructor that gives them back, the
kernel's own `Translate` and the loader. The functions here run to their end: `addrLock`, which
serialises them, is part of the thread models.

`&mainMemory[translatedAddr]` is not checked against the array, and `translatedAddr` keeps the value
it had (none, at first: `stale`) when `Translate` returns an exception; both are as in the source.
-/

namespace Nachos

open Base

def userStackSize : Word := 1024

/-- The part of `Kernel` that address spaces use. -/
structure Kernel where
  machine : Machine
  gPhysPageBitMap : Bitmap

def Kernel.mainMemory (k : Kernel) : Memory := k.machine.mainMemory

def Kernel.setMemory (k : Kernel) (mem : Memory) : Kernel :=
  { k with machine := { k.machine with mainMemory := mem } }

/-- `AddrSpace`; `numPages` is the length of the page table. -/
structure AddrSpace where
  executable : OpenFile
  pageTable : List TranslationEntry
  deriving DecidableEq

namespace AddrSpace

def numPages (s : AddrSpace) : Nat := s.pageTable.length

/-- The number of pages the constructor computes from the header. -/
def pagesFor (noffH : NoffHeader) : Nat :=
  let size := noffH.code.size + noffH.readonlyData.size + noffH.initData.size +
    noffH.uninitData.size + userStackSize
  divRoundUp size.toNat pageSize

/-- The constructor's entry for virtual page `i` in frame `temp`. -/
def newEntry (i : Nat) (temp : Int) : TranslationEntry where
  virtualPage := BitVec.ofNat 32 i
  physicalPage := BitVec.ofInt 32 temp
  valid := true
  use := false
  dirty := false
  readOnly := false

/-- The constructor's loop from page `i` on, with `n` pages to go. -/
def allocPages : Bitmap → Nat → Nat → Except Fault (List TranslationEntry × Bitmap)
  | bitmap, _, 0 => return ([], bitmap)
  | bitmap, i, n + 1 => do
    let (temp, bitmap) ← bitmap.findAndSet
    assert (temp ≠ -1)
    let (rest, bitmap) ← allocPages bitmap (i + 1) n
    return (newEntry i temp :: rest, bitmap)

/-- `bzero` on the frame of each page. -/
def zeroPages (pageTable : List TranslationEntry) (mem : Memory) : Memory :=
  pageTable.foldl
    (fun mem e => writeBlock mem (e.physicalPage.toNat * pageSize) (List.replicate pageSize 0)) mem

def new (cfg : Build) (junk : Memory) (executable : OpenFile) (k : Kernel) :
    Except Fault (AddrSpace × Kernel) := do
  let noffH ← readHeader cfg junk executable
  let (pageTable, bitmap) ← allocPages k.gPhysPageBitMap 0 (pagesFor noffH)
  let k := k.setMemory (zeroPages pageTable k.mainMemory)
  return (⟨executable, pageTable⟩, { k with gPhysPageBitMap := bitmap })

def clearPages (s : AddrSpace) (bitmap : Bitmap) : Except Fault Bitmap :=
  s.pageTable.foldlM (fun bitmap e => bitmap.clear e.physicalPage.toInt) bitmap

/-- `AddrSpace::~AddrSpace`. -/
def delete (s : AddrSpace) (k : Kernel) : Except Fault Kernel := do
  let bitmap ← s.clearPages k.gPhysPageBitMap
  return { k with gPhysPageBitMap := bitmap }

/-- `AddrSpace::Translate`: an exception, or the physical address and the space with the use and
dirty bits set. -/
def translate (s : AddrSpace) (vaddr : Word) (isReadWrite : Bool) :
    Except Fault (Except ExceptionType (Word × AddrSpace)) := do
  let vpn := vaddr.toNat / pageSize
  let offset := vaddr.toNat % pageSize
  match s.pageTable[vpn]? with
  | none => return .error .addressErrorException
  | some pte =>
    if isReadWrite && pte.readOnly then return .error .readOnlyException
    let pfn := pte.physicalPage
    -- a signed comparison: a negative frame number passes it
    if (numPhysPages : Int) ≤ pfn.toInt then return .error .busErrorException
    let pte := { pte with use := true, dirty := pte.dirty || isReadWrite }
    let paddr := pfn * BitVec.ofNat 32 pageSize + BitVec.ofNat 32 offset
    assert (paddr.toNat < memorySize)
    return .ok (paddr, { s with pageTable := s.pageTable.set vpn pte })

/-- One `ReadAt` of the loader: what the translation of its address returned, where it went and what
it brought. -/
structure Copy where
  translation : ExceptionType
  dest : Word
  bytes : List Byte
  deriving DecidableEq, Repr

/-- The loader at work: the space, the variable `translatedAddr`, main memory, and the copies made so
far (which the code does not record). -/
structure Loading where
  space : AddrSpace
  translatedAddr : Word
  mem : Memory
  copies : List Copy

/-- `Translate(vaddr, &translatedAddr, 1)`: the variable keeps its value on an exception. -/
def Loading.translate (l : Loading) (vaddr : Word) : Except Fault (ExceptionType × Loading) := do
  match (← l.space.translate vaddr true) with
  | .error e => return (e, l)
  | .ok (paddr, space) => return (.noException, { l with space, translatedAddr := paddr })

/-- The body of the loop of `LoadIntoMemory`. A fault leaves the copies made before it. -/
def loadPage (executable : OpenFile) (startAddr virtualAddr : Word) (l : Loading) (i : Nat) :
    Except (Fault × Loading) Loading := do
  let (translation, l) ← (l.translate (virtualAddr + BitVec.ofNat 32 (i * pageSize))).mapError (·, l)
  let bytes ← (executable.readAt pageSize (startAddr + BitVec.ofNat 32 (i * pageSize))).mapError (·, l)
  return { l with mem := writeBlock l.mem l.translatedAddr.toNat bytes,
                  copies := l.copies ++ [⟨translation, l.translatedAddr, bytes⟩] }

def loadIntoMemory (executable : OpenFile) (startAddr size virtualAddr stale : Word) (l : Loading) :
    Except (Fault × Loading) Loading :=
  let pageCount := divRoundUp size.toNat pageSize
  (List.range pageCount).foldlM (loadPage executable startAddr virtualAddr)
    { l with translatedAddr := stale }

/-- `Load`'s treatment of one segment, with the uninitialised `translatedAddr` of the call. -/
def loadSegment (executable : OpenFile) (l : Loading) (seg : Segment × Word) :
    Except (Fault × Loading) Loading :=
  if 0 < seg.1.size.toInt then
    loadIntoMemory executable seg.1.inFileAddr seg.1.size seg.1.virtualAddr seg.2 l
  else return l

/-- The segments `Load` copies, in its order. -/
def loadedSegments (noffH : NoffHeader) : List Segment :=
  [noffH.code, noffH.initData, noffH.readonlyData]

/-- `AddrSpace::Load(OpenFile*)`; `stale i` is the uninitialised `translatedAddr` of the call for
segment `i`. -/
def load (cfg : Build) (junk : Memory) (stale : Nat → Word) (s : AddrSpace) (executable : OpenFile)
    (mem : Memory) : Except (Fault × Loading) Loading := do
  let l : Loading := ⟨s, stale 0, mem, []⟩
  (assert (s.numPages ≤ numPhysPages)).mapError (·, l)
  let noffH ← (readHeader cfg junk executable).mapError (·, l)
  ((loadedSegments noffH).zip [stale 0, stale 1, stale 2]).foldlM (loadSegment executable) l

def restoreState (s : AddrSpace) (m : Machine) : Machine :=
  { m with pageTable := some s.pageTable, pageTableSize := s.numPages }

def initRegisters (s : AddrSpace) (m : Machine) : Machine :=
  (({ m with registers := fun _ => 0 }.setReg pcReg 0).setReg nextPCReg 4).setReg stackReg
    (BitVec.ofNat 32 (s.numPages * pageSize) - 16)

end AddrSpace

end Nachos
