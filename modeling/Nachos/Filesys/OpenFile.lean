import Nachos.Machine.Machine

/-!
# Open files of the stub file system (`filesys/openfile.h`, `lib/sysdep.cc`)

An open file is a file of the host; `ReadAt` seeks and then reads as much as the file has.
-/

namespace Nachos

open Base

/-- `OpenFile` (`FILESYS_STUB`), by the bytes of the host file. -/
structure OpenFile where
  bytes : List Byte
  deriving DecidableEq, Repr

/-- `OpenFile::ReadAt`: `Lseek` asserts that the position is one, `ReadPartial` returns what is
there. -/
def OpenFile.readAt (f : OpenFile) (numBytes : Nat) (position : Word) : Except Fault (List Byte) := do
  assert (0 ≤ position.toInt)
  return (f.bytes.drop position.toNat).take numBytes

end Nachos
