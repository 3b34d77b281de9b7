import Nachos.Filesys.FileHdr

/-!
# The file system (`filesys/filesys.cc`, `filesys/directory.cc`, `filesys/pbitmap.cc`)

The free map and the directory are themselves files, with their headers in sectors 0 and 1. Every
operation reads them into memory, changes them there, and writes them back when it succeeds. What the
memory of a new object holds is a parameter: `memory k` is that of the `k`-th `new` of a call.
-/

namespace Nachos.FileSystem

open Base Interrupt

/-! ## The free map -/

namespace PersistentBitmap

/-- A word of `map`, an `unsigned int`. -/
def ofWord (v : Word) : BitVec bitsInWord := v

def toWord (v : BitVec bitsInWord) : Word := v

def bytes (cfg : Build) (map : List (BitVec bitsInWord)) : List Byte :=
  map.flatMap fun v => hostWordBytes cfg (toWord v)

def words (cfg : Build) (n : Nat) (bs : List Byte) : List (BitVec bitsInWord) :=
  (List.range n).map fun i => ofWord (wordAt cfg bs (4 * i))

def fetchFrom (cfg : Build) (disk : Disk) (file : FileHeader) (b : Bitmap) : Except Fault Bitmap := do
  let read ← readAt cfg disk file (b.map.length * 4) 0
  return b.withMap (words cfg b.map.length (patch (bytes cfg b.map) 0 read))
    (by rw [words, List.length_map, List.length_range])

/-- The constructor `PersistentBitmap::PersistentBitmap(file, numItems)`. -/
def ofFile (cfg : Build) (disk : Disk) (file : FileHeader) (numItems : Int) : Except Fault Bitmap := do
  fetchFrom cfg disk file (← Bitmap.new numItems)

def writeBack (cfg : Build) (disk : Disk) (file : FileHeader) (b : Bitmap) (memory : Nat → Byte) :
    Except Fault Disk := do
  return (← writeAt cfg disk file (bytes cfg b.map) (b.map.length * 4) 0 memory).2

end PersistentBitmap

/-! ## The directory -/

def fileNameMaxLen : Nat := 9

/-- `sizeof(DirectoryEntry)`: `inUse` at offset 0, `sector` at 4, `name` at 8, rounded up to an `int`. -/
def entrySize : Nat := 20

/-- The characters that `strncmp` and `strncpy` look at. -/
def firstChars (n : Nat) (s : List Byte) : List Byte := (s.take n).takeWhile (· ≠ 0)

/-- What `strncpy` stores: the rest is filled with 0. -/
def strncpy (s : List Byte) (n : Nat) : List Byte :=
  firstChars n s ++ List.replicate (n - (firstChars n s).length) 0

/-- `Directory`: the bytes of `table`. -/
structure Directory where
  tableSize : Nat
  table : List Byte
  size : table.length = tableSize * entrySize
  deriving DecidableEq, Repr

namespace Directory

def inUse (d : Directory) (i : Nat) : Bool := d.table.getD (i * entrySize) 0 ≠ 0

def sector (cfg : Build) (d : Directory) (i : Nat) : Int :=
  (wordAt cfg d.table (i * entrySize + 4)).toInt

def name (d : Directory) (i : Nat) : List Byte :=
  (d.table.drop (i * entrySize + 8)).take (fileNameMaxLen + 1)

/-- The directory with bytes stored at an offset of entry `i`. -/
def store (d : Directory) (i offset : Nat) (bs : List Byte) : Directory :=
  ⟨d.tableSize, patch d.table (i * entrySize + offset) bs, (length_patch ..).trans d.size⟩

def new (size : Nat) (memory : Nat → Byte) : Directory :=
  (List.range size).foldl (fun d i => d.store i 0 [0])
    ⟨size, (List.range (size * entrySize)).map memory, by rw [List.length_map, List.length_range]⟩

def fetchFrom (cfg : Build) (disk : Disk) (file : FileHeader) (d : Directory) :
    Except Fault Directory := do
  return d.store 0 0 (← readAt cfg disk file (d.tableSize * entrySize) 0)

def writeBack (cfg : Build) (disk : Disk) (file : FileHeader) (d : Directory) (memory : Nat → Byte) :
    Except Fault Disk := do
  return (← writeAt cfg disk file d.table (d.tableSize * entrySize) 0 memory).2

/-- `Directory::FindIndex`; `none` for `-1`. -/
def findIndex (d : Directory) (name : List Byte) : Option Nat :=
  (List.range d.tableSize).find? fun i =>
    d.inUse i && decide (firstChars fileNameMaxLen (d.name i) = firstChars fileNameMaxLen name)

def find (cfg : Build) (d : Directory) (name : List Byte) : Int :=
  match d.findIndex name with
  | some i => d.sector cfg i
  | none => -1

def add (cfg : Build) (d : Directory) (name : List Byte) (newSector : Int) : Bool × Directory :=
  if (d.findIndex name).isSome then (false, d)
  else
    match (List.range d.tableSize).find? (!d.inUse ·) with
    | some i =>
      (true, ((d.store i 0 [1]).store i 8 (strncpy name fileNameMaxLen)).store i 4
        (hostWordBytes cfg (BitVec.ofInt 32 newSector)))
    | none => (false, d)

def remove (d : Directory) (name : List Byte) : Bool × Directory :=
  match d.findIndex name with
  | some i => (true, d.store i 0 [0])
  | none => (false, d)

end Directory

/-- A call of one of the operations on a directory. `reload` is `WriteBack` followed by `FetchFrom` into a
new directory of the same size, whose memory holds `fresh`. -/
inductive DirCall
  | add (name : List Byte) (newSector : Word)
  | remove (name : List Byte)
  | find (name : List Byte)
  | reload (file : FileHeader) (buffer fresh : Nat → Byte)

inductive DirAnswer
  | done (result : Bool)
  | sector (sector : Int)
  | nothing
  deriving DecidableEq, Repr

namespace Directory

def call (cfg : Build) (disk : Disk) (d : Directory) : DirCall → Except Fault (DirAnswer × Disk × Directory)
  | .add name newSector =>
    let (result, d) := d.add cfg name newSector.toInt
    return (.done result, disk, d)
  | .remove name =>
    let (result, d) := d.remove name
    return (.done result, disk, d)
  | .find name => return (.sector (d.find cfg name), disk, d)
  | .reload file buffer fresh => do
    let disk ← d.writeBack cfg disk file buffer
    let d ← (Directory.new d.tableSize fresh).fetchFrom cfg disk file
    return (.nothing, disk, d)

/-- Calls one after the other: the answers, the disk and the directory. -/
def calls (cfg : Build) (disk : Disk) (d : Directory) :
    List DirCall → Except Fault (List DirAnswer × Disk × Directory)
  | [] => return ([], disk, d)
  | c :: cs => do
    let (answer, disk, d) ← d.call cfg disk c
    let (answers, disk, d) ← calls cfg disk d cs
    return (answer :: answers, disk, d)

end Directory

/-! ## The file system -/

def freeMapSector : Nat := 0

def directorySector : Nat := 1

def freeMapFileSize : Nat := numSectors / 8

def numDirEntries : Nat := 10

def directoryFileSize : Nat := entrySize * numDirEntries

/-- `OpenFile`: the header, and the sector that the constructor fetched it from. -/
structure OpenFile where
  sector : Int
  hdr : FileHeader
  deriving DecidableEq

def OpenFile.new (disk : Disk) (sector : Int) : Except Fault OpenFile := do
  return ⟨sector, ← readSector disk sector⟩

/-- The file system and the files that are open; `stopped` when the simulator has stopped. -/
structure State where
  disk : Disk
  freeMapFile : OpenFile
  directoryFile : OpenFile
  openFiles : List OpenFile
  stopped : Option Fault

/-- `new FileHeader`. -/
def newHeader (memory : Nat → Byte) : FileHeader :=
  ⟨(List.range sectorSize).map memory, by rw [List.length_map, List.length_range]⟩

/-- The constructor `FileSystem::FileSystem(TRUE)`. -/
def format (cfg : Build) (disk : Disk) (memory : Nat → Nat → Byte) : Except Fault State := do
  let freeMap ← Bitmap.new numSectors
  let directory := Directory.new numDirEntries (memory 0)
  let freeMap ← freeMap.mark freeMapSector
  let freeMap ← freeMap.mark directorySector
  let (done, mapHdr, freeMap) ← FileHeader.allocate cfg (newHeader (memory 1)) freeMap freeMapFileSize
  assert (done = true)
  let (done, dirHdr, freeMap) ← FileHeader.allocate cfg (newHeader (memory 2)) freeMap directoryFileSize
  assert (done = true)
  let disk ← writeSector disk freeMapSector mapHdr
  let disk ← writeSector disk directorySector dirHdr
  let freeMapFile ← OpenFile.new disk freeMapSector
  let directoryFile ← OpenFile.new disk directorySector
  let disk ← PersistentBitmap.writeBack cfg disk freeMapFile.hdr freeMap (memory 3)
  let disk ← directory.writeBack cfg disk directoryFile.hdr (memory 4)
  return ⟨disk, freeMapFile, directoryFile, [], none⟩

/-- The constructor `FileSystem::FileSystem(FALSE)`. -/
def mount (disk : Disk) : Except Fault State := do
  let freeMapFile ← OpenFile.new disk freeMapSector
  let directoryFile ← OpenFile.new disk directorySector
  return ⟨disk, freeMapFile, directoryFile, [], none⟩

namespace State

def directory (cfg : Build) (s : State) (memory : Nat → Byte) : Except Fault Directory :=
  (Directory.new numDirEntries memory).fetchFrom cfg s.disk s.directoryFile.hdr

def freeMap (cfg : Build) (s : State) : Except Fault Bitmap :=
  PersistentBitmap.ofFile cfg s.disk s.freeMapFile.hdr numSectors

/-- `FileSystem::Create`: the result and the disk. -/
def create (cfg : Build) (s : State) (name : List Byte) (initialSize : Int)
    (memory : Nat → Nat → Byte) : Except Fault (Bool × Disk) := do
  let directory ← s.directory cfg (memory 0)
  if directory.find cfg name ≠ -1 then return (false, s.disk)
  let freeMap ← s.freeMap cfg
  let (sector, freeMap) ← freeMap.findAndSet
  if sector = -1 then return (false, s.disk)
  let (done, directory) := directory.add cfg name sector
  if ¬ done then return (false, s.disk)
  let (done, hdr, freeMap) ← FileHeader.allocate cfg (newHeader (memory 1)) freeMap initialSize
  if ¬ done then return (false, s.disk)
  let disk ← writeSector s.disk sector hdr
  let disk ← directory.writeBack cfg disk s.directoryFile.hdr (memory 2)
  let disk ← PersistentBitmap.writeBack cfg disk s.freeMapFile.hdr freeMap (memory 3)
  return (true, disk)

/-- `FileSystem::Open`. -/
def openNamed (cfg : Build) (s : State) (name : List Byte) (memory : Nat → Nat → Byte) :
    Except Fault (Option OpenFile) := do
  let directory ← s.directory cfg (memory 0)
  let sector := directory.find cfg name
  if sector ≥ 0 then return some (← OpenFile.new s.disk sector)
  return none

/-- `FileSystem::Remove`: the result and the disk. -/
def remove (cfg : Build) (s : State) (name : List Byte) (memory : Nat → Nat → Byte) :
    Except Fault (Bool × Disk) := do
  let directory ← s.directory cfg (memory 0)
  let sector := directory.find cfg name
  if sector = -1 then return (false, s.disk)
  let fileHdr ← readSector s.disk sector
  let freeMap ← s.freeMap cfg
  let freeMap ← FileHeader.deallocate cfg fileHdr freeMap
  let freeMap ← freeMap.clear sector
  let directory := (directory.remove name).2
  let disk ← PersistentBitmap.writeBack cfg s.disk s.freeMapFile.hdr freeMap (memory 1)
  let disk ← directory.writeBack cfg disk s.directoryFile.hdr (memory 2)
  return (true, disk)

end State

/-! ## Runs -/

/-- An operation. `close k` deletes the `k`-th open file, `writeAt k …` is a `WriteAt` on it. -/
inductive Event
  | create (name : List Byte) (initialSize : Int) (memory : Nat → Nat → Byte)
  | remove (name : List Byte) (memory : Nat → Nat → Byte)
  | openNamed (name : List Byte) (memory : Nat → Nat → Byte)
  | close (k : Nat)
  | writeAt (k : Nat) (data : List Byte) (numBytes position : Int) (memory : Nat → Byte)

namespace State

/-- The state after an operation that returned, or that stopped the simulator. -/
def after {α : Type} (s : State) (result : Except Fault α) (next : α → State) : State :=
  match result with
  | .ok a => next a
  | .error fault => { s with stopped := some fault }

/-- The state after one operation; none when it is not possible. -/
def step (cfg : Build) (s : State) (event : Event) : Option State :=
  if s.stopped.isSome then none
  else
    match event with
    | .create name initialSize memory =>
      some (s.after (s.create cfg name initialSize memory) fun r => { s with disk := r.2 })
    | .remove name memory => some (s.after (s.remove cfg name memory) fun r => { s with disk := r.2 })
    | .openNamed name memory =>
      some (s.after (s.openNamed cfg name memory) fun r =>
        { s with openFiles := s.openFiles ++ r.toList })
    | .close k => some { s with openFiles := s.openFiles.eraseIdx k }
    | .writeAt k data numBytes position memory =>
      (s.openFiles[k]?).map fun file =>
        s.after (writeAt cfg s.disk file.hdr data numBytes position memory) fun r =>
          { s with disk := r.2 }

end State

end Nachos.FileSystem
