import Nachos.Filesys.FileHdr

/-!
# How long the disk takes (`machine/disk.cc`)

The times of the requests to the simulated disk: the head moves over one track in `SeekTime` ticks, and
one sector passes under it in `RotationTime` ticks. While the head stays on a track the sectors that pass
are read into the track buffer; the build is one without `NOTRACKBUF`. What the sectors hold is in
`filesys/synchdisk.cc`.
-/

namespace Nachos

open Interrupt (int)
open FileSystem (numSectors)

def rotationTime : Int := 500

def seekTime : Int := 500

def sectorsPerTrack : Int := 32

def moduloDiff (target position : Int) : Int :=
  let targetOffset := target.tmod sectorsPerTrack
  let positionOffset := position.tmod sectorsPerTrack
  ((targetOffset - positionOffset) + sectorsPerTrack).tmod sectorsPerTrack

/-- The fields of `Disk` that the time of a request depends on. -/
structure DiskHead where
  lastSector : Int
  bufferInit : Int
  deriving DecidableEq, Repr

namespace DiskHead

def new : DiskHead := ⟨0, 0⟩

/-- `Disk::TimeToSeek`: the time of the seek, and `*rotation`. -/
def timeToSeek (h : DiskHead) (totalTicks newSector : Int) : Int × Int :=
  let newTrack := newSector.tdiv sectorsPerTrack
  let oldTrack := h.lastSector.tdiv sectorsPerTrack
  let seek := int ((newTrack - oldTrack).natAbs * seekTime)
  let past := (int (totalTicks + seek)).tmod rotationTime
  (seek, if past > 0 then rotationTime - past else 0)

/-- `timeAfter` of `Disk::ComputeLatency`, and what `UpdateLast` computes for `bufferInit`. -/
def timeAfter (h : DiskHead) (totalTicks newSector : Int) : Int :=
  let (seek, rotation) := h.timeToSeek totalTicks newSector
  int (int (totalTicks + seek) + rotation)

def trackBufferApplies (h : DiskHead) (totalTicks newSector : Int) (writing : Bool) : Bool :=
  writing == false && (h.timeToSeek totalTicks newSector).1 == 0 &&
    decide ((int (h.timeAfter totalTicks newSector - h.bufferInit)).tdiv rotationTime >
      moduloDiff newSector (h.bufferInit.tdiv rotationTime))

def computeLatency (h : DiskHead) (totalTicks newSector : Int) (writing : Bool) : Int :=
  let (seek, rotation) := h.timeToSeek totalTicks newSector
  if h.trackBufferApplies totalTicks newSector writing then rotationTime
  else
    let rotation := rotation +
      moduloDiff newSector ((h.timeAfter totalTicks newSector).tdiv rotationTime) * rotationTime
    seek + rotation + rotationTime

def updateLast (h : DiskHead) (totalTicks newSector : Int) : DiskHead :=
  let (seek, _) := h.timeToSeek totalTicks newSector
  { lastSector := newSector
    bufferInit := if seek ≠ 0 then h.timeAfter totalTicks newSector else h.bufferInit }

end DiskHead

/-! ## Requests one after the other -/

structure DiskClock where
  head : DiskHead
  totalTicks : Int
  /-- when the interrupt is due of the request that is in progress: `active` -/
  due : Option Int
  deriving DecidableEq, Repr

inductive DiskEvent
  | pass (ticks : Nat)
  | request (sectorNumber : Int) (writing : Bool)
  | callBack
  deriving DecidableEq, Repr

namespace DiskClock

def start : DiskClock := ⟨.new, 0, none⟩

/-- A step; `none` when an `ASSERT` fails, of `Disk::ReadRequest` and `WriteRequest` or of `Schedule`. -/
def step (c : DiskClock) : DiskEvent → Option DiskClock
  | .pass ticks => some { c with totalTicks := c.totalTicks + ticks }
  | .request sectorNumber writing =>
    let ticks := c.head.computeLatency c.totalTicks sectorNumber writing
    if c.due = none ∧ 0 ≤ sectorNumber ∧ sectorNumber < numSectors ∧ ticks > 0 then
      some { c with
        head := c.head.updateLast c.totalTicks sectorNumber
        due := some (int (c.totalTicks + ticks)) }
    else none
  | .callBack =>
    match c.due with
    | some due => if due ≤ c.totalTicks then some { c with due := none } else none
    | none => none

end DiskClock

end Nachos
