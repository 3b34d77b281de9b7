import Nachos.Userprog.Noff

/-!
# COFF to NOFF (`coff2noff/coff2noff.c`)

The converter that makes the executables: from the bytes of a COFF file to those of a NOFF file. The only
error is `exit(1)`. It is compiled for 32 bits (`-m32`), so that a `long` is a word, and `RDATA` is
defined. What the host decides is a parameter (`Host`); what is printed is left out.
-/

namespace Nachos.Coff2noff

open Base

/-! ## The files -/

structure Host where
  /-- whether `malloc` has this many bytes, and `read` and `write` take them at once -/
  fits : Nat → Bool
  /-- how long the output can become: nothing for one that was not opened -/
  room : Nat
  /-- no file is opened with `O_LARGEFILE` -/
  room_lt : room < 2 ^ 31
  /-- whether `read` at this position returns -1 for `2 ^ 32 - 1` bytes at a null pointer -/
  nullRead : Nat → Bool
  nullWrite : Bool

/-- A call that may end in `exit(1)`. -/
abbrev Exits := Except Unit

def require (condition : Prop) [Decidable condition] : Exits Unit :=
  if condition then .ok () else .error ()

/-- `Read` of these bytes of a file. -/
def readBytes (file : List Byte) (pos n : Nat) : Exits (List Byte) := do
  require (pos + n ≤ file.length)
  return (file.drop pos).take n

/-! ## COFF (`coff.h`) -/

def mipselMagic : BitVec 16 := 0x0162
def omagic : BitVec 16 := 263

def sizeofFilehdr : Nat := 20
def sizeofAouthdr : Nat := 56
def sizeofScnhdr : Nat := 40

def sectionTable : Nat := sizeofFilehdr + sizeofAouthdr

def shortAt (cfg : Build) (coff : List Byte) (a : Nat) : BitVec 16 :=
  shortToHost cfg (hostShort cfg (fun i => coff.getD i 0) a)

def wordAt (cfg : Build) (coff : List Byte) (a : Nat) : Word :=
  wordToHost cfg (hostWord cfg (fun i => coff.getD i 0) a)

/-- `struct scnhdr`, as far as it is used. -/
structure Scnhdr where
  name : List Byte
  paddr : Word
  size : Word
  scnptr : Word
  deriving DecidableEq, Repr

def scnhdrAt (cfg : Build) (coff : List Byte) (a : Nat) : Scnhdr where
  name := (coff.drop a).take 8
  paddr := wordAt cfg coff (a + 8)
  size := wordAt cfg coff (a + 16)
  scnptr := wordAt cfg coff (a + 20)

def numsections (cfg : Build) (coff : List Byte) : Nat := (shortAt cfg coff 2).toNat

def sections (cfg : Build) (coff : List Byte) : List Scnhdr :=
  (List.range (numsections cfg coff)).map fun i => scnhdrAt cfg coff (sectionTable + sizeofScnhdr * i)

inductive Stored
  | text | data | rdata
  deriving DecidableEq, Repr

inductive Kind
  | stored (k : Stored)
  | bss
  deriving DecidableEq, Repr

def chars (s : String) : List Byte := s.toList.map (BitVec.ofNat 8 ·.toNat)

/-- The names `s_name` is compared with; none of them fills the array. -/
def Scnhdr.kind (sec : Scnhdr) : Option Kind :=
  let name := sec.name.takeWhile (· ≠ 0)
  if name = chars ".text" then some (.stored .text)
  else if name = chars ".data" then some (.stored .data)
  else if name = chars ".rdata" then some (.stored .rdata)
  else if name = chars ".bss" then some .bss
  else none

/-! ## The conversion -/

def segment (noffH : NoffHeader) : Stored → Segment
  | .text => noffH.code
  | .data => noffH.initData
  | .rdata => noffH.readonlyData

def setSegment (noffH : NoffHeader) (seg : Segment) : Stored → NoffHeader
  | .text => { noffH with code := seg }
  | .data => { noffH with initData := seg }
  | .rdata => { noffH with readonlyData := seg }

structure State where
  noffH : NoffHeader
  inNoffFile : Word
  /-- the position in the COFF file -/
  pos : Nat
  out : List Byte
  /-- the position in the NOFF file -/
  outPos : Nat

/-- `malloc` and `Read` for a section: the bytes and the new position. -/
def readSection (host : Host) (coff : List Byte) (pos : Nat) (nBytes : Word) :
    Exits (List Byte × Nat) := do
  if 0 ≤ nBytes.toInt then
    require (host.fits nBytes.toNat)
    return (← readBytes coff pos nBytes.toNat, pos + nBytes.toNat)
  else
    -- `read` never returns less than -1, and there is no buffer for so many bytes
    require (nBytes = -1 ∧ host.nullRead pos)
    return ([], pos)

def writeSection (host : Host) (s : State) (buffer : List Byte) (nBytes : Word) : Exits State := do
  if 0 ≤ nBytes.toInt then
    require (s.outPos + nBytes.toNat ≤ host.room)
    return { s with out := overwrite 0 s.out s.outPos buffer, outPos := s.outPos + nBytes.toNat }
  else
    require (nBytes = -1 ∧ host.nullWrite)
    return s

/-- A section with bytes: the segment is noted in the header, and the bytes are copied. -/
def copySection (host : Host) (coff : List Byte) (s : State) (sec : Scnhdr) (k : Stored) :
    Exits State := do
  let noffH := setSegment s.noffH ⟨sec.paddr, s.inNoffFile, sec.size⟩ k
  -- `lseek` does not move to a negative position
  let pos := if 0 ≤ sec.scnptr.toInt then sec.scnptr.toNat else s.pos
  let (buffer, pos) ← readSection host coff pos sec.size
  let s ← writeSection host { s with noffH, pos } buffer sec.size
  return { s with inNoffFile := s.inNoffFile + sec.size }

/-- A `.bss` section behind another one. -/
def mergeBss (s : State) (sec : Scnhdr) : Exits State := do
  let bss := s.noffH.uninitData
  if bss.size ≠ 0 then
    -- the comparison is the wrong way round
    require (sec.paddr ≠ bss.virtualAddr + bss.size)
    return { s with noffH.uninitData.size := bss.size + sec.size }
  else return { s with noffH.uninitData := { bss with virtualAddr := sec.paddr, size := sec.size } }

def loadSection (host : Host) (coff : List Byte) (s : State) (sec : Scnhdr) : Exits State :=
  if sec.size = 0 then .ok s
  else
    match sec.kind with
    | some (.stored k) => copySection host coff s sec k
    | some .bss => mergeBss s sec
    | none => .error ()

/-- The header before the loop, over the memory it is declared in. -/
def initialHeader (memory : NoffHeader) : NoffHeader :=
  { memory with
    noffMagic := noffMagicNumber
    code.size := 0
    initData.size := 0
    readonlyData.size := 0
    uninitData.size := 0 }

/-- `main`: the NOFF file, or `exit(1)`. -/
def main (cfg : Build) (host : Host) (memory : NoffHeader) (coff : List Byte) :
    Exits (List Byte) := do
  -- `open` refuses a longer file
  require (coff.length < 2 ^ 31)
  require (sizeofFilehdr ≤ coff.length)
  require (shortAt cfg coff 0 = mipselMagic)
  require (sectionTable ≤ coff.length)
  require (shortAt cfg coff sizeofFilehdr = omagic)
  let table := sizeofScnhdr * numsections cfg coff
  require (host.fits table)
  require (sectionTable + table ≤ coff.length)
  let s ← (sections cfg coff).foldlM (loadSection host coff)
    ⟨initialHeader memory, BitVec.ofNat 32 sizeofNoffHeader, sectionTable + table, [], sizeofNoffHeader⟩
  require (sizeofNoffHeader ≤ host.room)
  return overwrite 0 s.out 0 (s.noffH.toBytes cfg)

end Nachos.Coff2noff
