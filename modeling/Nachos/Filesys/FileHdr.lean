import Nachos.Base.Blocks
import Nachos.Lib.Bitmap
import Nachos.Machine.Interrupt
import Nachos.Machine.Network

/-!
# Files on the disk (`filesys/filehdr.cc`, `filesys/openfile.cc`, `machine/disk.h`)

The file system of a build without `FILESYS_STUB`. A file header fills one sector: the length in bytes,
the number of data sectors, and an array with their numbers. It is kept as the bytes that `FetchFrom`
and `WriteBack` copy between the object and the disk, and its fields are the words at their offsets.
`ReadAt` and `WriteAt` move whole sectors through a buffer; their arithmetic is that of `int`.
-/

namespace Nachos.FileSystem

open Base Interrupt

def sectorSize : Nat := 128

/-- `NumSectors`: `SectorsPerTrack * NumTracks`. -/
def numSectors : Nat := 32 * 32

abbrev Sector := { bytes : List Byte // bytes.length = sectorSize }

abbrev Disk := Nat → Sector

/-- `SynchDisk::ReadSector`, with the assertion of `Disk::ReadRequest`. -/
def readSector (disk : Disk) (sectorNumber : Int) : Except Fault Sector := do
  assert (0 ≤ sectorNumber ∧ sectorNumber < numSectors)
  return disk sectorNumber.toNat

/-- `SynchDisk::WriteSector`, with the assertion of `Disk::WriteRequest`. -/
def writeSector (disk : Disk) (sectorNumber : Int) (data : Sector) : Except Fault Disk := do
  assert (0 ≤ sectorNumber ∧ sectorNumber < numSectors)
  return Function.update disk sectorNumber.toNat data

/-! ## File headers -/

/-- `NumDirect`: the numbers of data sectors behind the two other `int`s of a header. -/
def numDirect : Nat := (sectorSize - 2 * 4) / 4

def maxFileSize : Nat := numDirect * sectorSize

abbrev FileHeader := Sector

namespace FileHeader

/-- The `int` at an offset of the object. -/
def field (cfg : Build) (hdr : FileHeader) (offset : Nat) : Int := (wordAt cfg hdr.1 offset).toInt

def setField (cfg : Build) (hdr : FileHeader) (offset : Nat) (value : Int) : FileHeader :=
  ⟨patch hdr.1 offset (hostWordBytes cfg (BitVec.ofInt 32 value)), (length_patch ..).trans hdr.2⟩

/-- `numBytes`, which `FileLength` returns. -/
def numBytes (cfg : Build) (hdr : FileHeader) : Int := field cfg hdr 0

def numSectors (cfg : Build) (hdr : FileHeader) : Int := field cfg hdr 4

/-- Where `dataSectors[i]` is: in front of the array are `numBytes` and `numSectors`, behind it is the
end of the object. -/
def place (i : Int) : Except Fault Nat :=
  if -2 ≤ i ∧ i < numDirect then .ok (8 + 4 * i).toNat else .error .undefined

def dataSectors (cfg : Build) (hdr : FileHeader) (i : Int) : Except Fault Int := do
  return field cfg hdr (← place i)

def setDataSectors (cfg : Build) (hdr : FileHeader) (i sector : Int) : Except Fault FileHeader := do
  return setField cfg hdr (← place i) sector

/-- A round of the loop of `Allocate`. -/
def allocateSector (cfg : Build) (st : FileHeader × Bitmap) (i : Nat) :
    Except Fault (FileHeader × Bitmap) := do
  let (sector, freeMap) ← st.2.findAndSet
  let hdr ← setDataSectors cfg st.1 i sector
  assert ((← dataSectors cfg hdr i) ≥ 0)
  return (hdr, freeMap)

/-- `divRoundUp(fileSize, SectorSize)`. -/
def sectorsFor (fileSize : Int) : Int :=
  fileSize.tdiv sectorSize + if fileSize.tmod sectorSize > 0 then 1 else 0

def allocate (cfg : Build) (hdr : FileHeader) (freeMap : Bitmap) (fileSize : Int) :
    Except Fault (Bool × FileHeader × Bitmap) := do
  let hdr := setField cfg (setField cfg hdr 0 fileSize) 4 (sectorsFor fileSize)
  if ((← freeMap.numClear) : Int) < sectorsFor fileSize then return (false, hdr, freeMap)
  return (true, ← (List.range (sectorsFor fileSize).toNat).foldlM (allocateSector cfg) (hdr, freeMap))

def deallocate (cfg : Build) (hdr : FileHeader) (freeMap : Bitmap) : Except Fault Bitmap :=
  (List.range (numSectors cfg hdr).toNat).foldlM (fun freeMap (i : Nat) => do
    let sector ← dataSectors cfg hdr i
    assert ((← freeMap.test sector) = true)
    freeMap.clear sector) freeMap

def byteToSector (cfg : Build) (hdr : FileHeader) (offset : Int) : Except Fault Int :=
  dataSectors cfg hdr (offset.tdiv sectorSize)

end FileHeader

/-! ## Open files -/

/-- What `ReadAt` and `WriteAt` compute of a request: the bytes that there are, the sectors they are in,
and the size of the buffer. -/
structure Span where
  numBytes : Int
  firstSector : Int
  lastSector : Int
  size : Nat
  deriving DecidableEq, Repr

/-- The beginning of `ReadAt` and of `WriteAt`, up to `buf = new char[numSectors * SectorSize]`; `none`
where they return 0. -/
def span (cfg : Build) (hdr : FileHeader) (numBytes position : Int) : Except Fault (Option Span) :=
  let fileLength := FileHeader.numBytes cfg hdr
  if numBytes ≤ 0 ∨ position ≥ fileLength then .ok none
  else
    let numBytes :=
      if int (position + numBytes) > fileLength then int (fileLength - position) else numBytes
    let firstSector := position.tdiv sectorSize
    let lastSector := (int (int (position + numBytes) - 1)).tdiv sectorSize
    let numSectors := int (int (1 + lastSector) - firstSector)
    let size := int (numSectors * sectorSize)
    -- there is no array of that size when it is negative
    if 0 ≤ size then .ok (some ⟨numBytes, firstSector, lastSector, size.toNat⟩)
    else .error .undefined

/-- The rounds of `for (i = firstSector; i <= lastSector; i++)`. -/
def Span.rounds (sp : Span) : Nat := (sp.lastSector + 1 - sp.firstSector).toNat

def Span.sectorAt (cfg : Build) (hdr : FileHeader) (sp : Span) (k : Nat) : Except Fault Int :=
  FileHeader.byteToSector cfg hdr (int ((sp.firstSector + k) * sectorSize))

/-- The `n` bytes of a buffer from `offset` on. -/
def slice (buf : List Byte) (offset n : Int) : Except Fault (List Byte) :=
  if 0 ≤ offset ∧ 0 ≤ n ∧ offset + n ≤ buf.length then .ok ((buf.drop offset.toNat).take n.toNat)
  else .error .undefined

/-- `OpenFile::ReadAt`: the bytes that are copied to the caller. -/
def readAt (cfg : Build) (disk : Disk) (hdr : FileHeader) (numBytes position : Int) :
    Except Fault (List Byte) := do
  match ← span cfg hdr numBytes position with
  | none => return []
  | some sp =>
    -- the loop fills `buf` from its start
    let sectors ← (List.range sp.rounds).mapM fun k => do readSector disk (← sp.sectorAt cfg hdr k)
    let buf := sectors.flatMap (·.1)
    if buf.length ≤ sp.size then slice buf (position - sp.firstSector * sectorSize) sp.numBytes
    else .error .undefined

/-- `bcopy(src, &buf[offset], n)`. -/
def copyTo (src buf : List Byte) (offset n : Int) : Except Fault (List Byte) :=
  if 0 ≤ offset ∧ 0 ≤ n then bcopy src buf offset.toNat n.toNat else .error .undefined

/-- `WriteSector` of a part of a buffer. -/
def writeSlice (disk : Disk) (sectorNumber : Int) (buf : List Byte) (offset : Nat) :
    Except Fault Disk := do
  let data ← slice buf offset sectorSize
  if h : data.length = sectorSize then writeSector disk sectorNumber ⟨data, h⟩
  else .error .undefined

/-- `if (condition) ReadAt(&buf[offset], SectorSize, sector * SectorSize)`. -/
def readPart (cfg : Build) (disk : Disk) (hdr : FileHeader) (condition : Prop) [Decidable condition]
    (buf : List Byte) (offset sector : Int) : Except Fault (List Byte) :=
  if condition then do
    let bytes ← readAt cfg disk hdr sectorSize (int (sector * sectorSize))
    copyTo bytes buf offset bytes.length
  else .ok buf

/-- The buffer of `WriteAt` before the loop: the sectors that are written in part are read first.
`memory` is what the new array holds. -/
def fillBuffer (cfg : Build) (disk : Disk) (hdr : FileHeader) (data : List Byte) (position : Int)
    (sp : Span) (memory : Nat → Byte) : Except Fault (List Byte) := do
  let firstAligned := position = int (sp.firstSector * sectorSize)
  let lastAligned := int (position + sp.numBytes) = int ((sp.lastSector + 1) * sectorSize)
  let buf ← readPart cfg disk hdr (¬ firstAligned) ((List.range sp.size).map memory) 0 sp.firstSector
  let buf ← readPart cfg disk hdr (¬ lastAligned ∧ (sp.firstSector ≠ sp.lastSector ∨ firstAligned))
    buf ((sp.lastSector - sp.firstSector) * sectorSize) sp.lastSector
  copyTo data buf (position - sp.firstSector * sectorSize) sp.numBytes

/-- `OpenFile::WriteAt` of the caller's buffer `data`: the result and the disk. -/
def writeAt (cfg : Build) (disk : Disk) (hdr : FileHeader) (data : List Byte) (numBytes position : Int)
    (memory : Nat → Byte) : Except Fault (Int × Disk) := do
  match ← span cfg hdr numBytes position with
  | none => return (0, disk)
  | some sp =>
    let buf ← fillBuffer cfg disk hdr data position sp memory
    let disk ← (List.range sp.rounds).foldlM (fun disk k => do
      writeSlice disk (← sp.sectorAt cfg hdr k) buf (k * sectorSize)) disk
    return (sp.numBytes, disk)

/-- The header of an `OpenFile` and its `seekPosition`. -/
structure SeekFile where
  hdr : FileHeader
  seekPosition : Int
  deriving DecidableEq

namespace SeekFile

def seek (f : SeekFile) (position : Int) : SeekFile := { f with seekPosition := position }

/-- `OpenFile::Read`: the bytes that are copied to the caller; the result is their number. -/
def read (cfg : Build) (disk : Disk) (f : SeekFile) (numBytes : Int) :
    Except Fault (List Byte × SeekFile) := do
  let bytes ← readAt cfg disk f.hdr numBytes f.seekPosition
  return (bytes, f.seek (int (f.seekPosition + bytes.length)))

/-- `OpenFile::Write`: the result, the disk and the file. -/
def write (cfg : Build) (disk : Disk) (f : SeekFile) (data : List Byte) (numBytes : Int)
    (memory : Nat → Byte) : Except Fault (Int × Disk × SeekFile) := do
  let (result, disk) ← writeAt cfg disk f.hdr data numBytes f.seekPosition memory
  return (result, disk, f.seek (int (f.seekPosition + result)))

end SeekFile

/-- A call of one of the operations on an open file; `memory` is what the buffer of `WriteAt` holds. -/
inductive FileCall
  | readAt (numBytes position : Int)
  | writeAt (data : List Byte) (numBytes position : Int) (memory : Nat → Byte)
  | seek (position : Int)
  | read (numBytes : Int)
  | write (data : List Byte) (numBytes : Int) (memory : Nat → Byte)

inductive Answer
  | bytes (bytes : List Byte)
  | count (result : Int)
  | nothing
  deriving DecidableEq, Repr

def SeekFile.call (cfg : Build) (disk : Disk) (f : SeekFile) :
    FileCall → Except Fault (Answer × Disk × SeekFile)
  | .readAt numBytes position => do
    return (.bytes (← FileSystem.readAt cfg disk f.hdr numBytes position), disk, f)
  | .writeAt data numBytes position memory => do
    let (result, disk) ← FileSystem.writeAt cfg disk f.hdr data numBytes position memory
    return (.count result, disk, f)
  | .seek position => return (.nothing, disk, f.seek position)
  | .read numBytes => do
    let (bytes, f) ← f.read cfg disk numBytes
    return (.bytes bytes, disk, f)
  | .write data numBytes memory => do
    let (result, disk, f) ← f.write cfg disk data numBytes memory
    return (.count result, disk, f)

/-- Calls one after the other: the answers, the disk and the file. -/
def SeekFile.calls (cfg : Build) (disk : Disk) (f : SeekFile) :
    List FileCall → Except Fault (List Answer × Disk × SeekFile)
  | [] => return ([], disk, f)
  | c :: cs => do
    let (answer, disk, f) ← f.call cfg disk c
    let (answers, disk, f) ← SeekFile.calls cfg disk f cs
    return (answer :: answers, disk, f)

end Nachos.FileSystem
