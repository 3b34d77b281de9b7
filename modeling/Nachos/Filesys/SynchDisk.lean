import Nachos.Filesys.FileHdr
import Nachos.Threads.SynchDevice

/-!
# The synchronous disk (`filesys/synchdisk.cc`, `machine/disk.cc`)

A request reads or writes the sector at once, in the host's file that is the disk, and schedules the
interrupt. How long the disk takes is left out: the interrupt may occur at any time after the request.
-/

namespace Nachos.SynchDisk

open FileSystem (Sector Disk numSectors)
open SynchDevice

inductive Request
  | read (sectorNumber : Int)
  | write (sectorNumber : Int) (data : Sector)
  deriving DecidableEq

structure Contents where
  sectors : Disk
  /-- what each read put into its caller's buffer, with the number of the request -/
  delivered : List (Nat × Sector)

/-- `Disk::ReadRequest`; `active` is the flag. -/
def readRequest (disk : Busy Contents) (sectorNumber : Int) (hostOk : Bool) :
    Except SynchDevice.Stop (Busy Contents) :=
  disk.perform do
    SynchDevice.assert (0 ≤ sectorNumber ∧ sectorNumber < numSectors) .argument
    SynchDevice.assert (hostOk = true) .host
    return { disk.data with
      delivered := disk.data.delivered ++ [(disk.operations, disk.data.sectors sectorNumber.toNat)] }

def writeRequest (disk : Busy Contents) (sectorNumber : Int) (data : Sector) (hostOk : Bool) :
    Except SynchDevice.Stop (Busy Contents) :=
  disk.perform do
    SynchDevice.assert (0 ≤ sectorNumber ∧ sectorNumber < numSectors) .argument
    SynchDevice.assert (hostOk = true) .host
    return { disk.data with
      sectors := Function.update disk.data.sectors sectorNumber.toNat data }

inductive Call
  | readSector (sectorNumber : Int)
  | writeSector (sectorNumber : Int) (data : Sector)

/-- `SynchDisk::ReadSector` and `SynchDisk::WriteSector`, between `Acquire` and `Release`. -/
def body : Call → List (Action Request)
  | .readSector sectorNumber => [.device (.read sectorNumber), .wait]
  | .writeSector sectorNumber data => [.device (.write sectorNumber data), .wait]

/-- `Disk::CallBack` and `SynchDisk::CallBack` are what every busy device does. -/
def interface : Interface (Busy Contents) Request Call Nat where
  request disk _ request hostOk :=
    match request with
    | .read sectorNumber => readRequest disk sectorNumber hostOk
    | .write sectorNumber data => writeRequest disk sectorNumber data hostOk
  callBack := Busy.callBack
  body := body

end Nachos.SynchDisk
