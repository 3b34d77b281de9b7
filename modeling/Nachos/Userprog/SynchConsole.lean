import Nachos.Machine.Devices
import Nachos.Threads.SynchDevice

/-!
# The console (`userprog/synchconsole.cc`, `machine/console.cc`)

`SynchConsoleOutput` and `SynchConsoleInput`, over the devices. The interrupts may occur at any time
after they are scheduled.
-/

namespace Nachos

open SynchDevice (Action Busy Interface)

/-! ## Output -/

namespace ConsoleOutput

/-- `ConsoleOutput::PutChar`; `putBusy` is the flag, and the data are the characters on the display. -/
def putChar (console : Busy (List Byte)) (ch : Byte) (hostOk : Bool) :
    Except SynchDevice.Stop (Busy (List Byte)) :=
  console.perform do
    SynchDevice.assert (hostOk = true) .host
    return console.data ++ [ch]

/-- The calls of `SynchConsoleOutput`; a string is what the memory has from an address on. -/
inductive Call
  | putChar (ch : Byte)
  | putString (s : Nat → Byte) (size : Int)

/-- `SynchConsoleOutput::PutChar` and `PutString`, between `Acquire` and `Release`; the operations are
the `PutChar`s of the device. -/
def body : Call → List (Action Byte)
  | .putChar ch => [.device ch, .wait]
  | .putString s size => (List.range size.toNat).flatMap fun i => [.device (s i), .wait]

/-- `ConsoleOutput::CallBack` and `SynchConsoleOutput::CallBack` are what every busy device does. -/
def interface : Interface (Busy (List Byte)) Byte Call Nat where
  request console _ ch hostOk := putChar console ch hostOk
  callBack := Busy.callBack
  body := body

end ConsoleOutput

/-! ## Input -/

namespace ConsoleInput

open Interrupt (Key eof)

/-- What the keyboard gives, byte by byte, until the end of the file if it has one. -/
structure Input where
  bytes : Nat → Option Byte
  ends : ∀ i, bytes i = none → bytes (i + 1) = none

structure Device where
  incoming : Byte
  /-- how many `ConsoleReadInt`s are scheduled -/
  polls : Nat
  /-- how many bytes were read from the file -/
  position : Nat
  /-- what `GetChar` returned -/
  taken : List (Tid × Byte)

/-- What `PollFile` and `ReadPartial` say: nothing yet, the next byte or the end, or an error. -/
inductive Look
  | nothing
  | ready
  | failed

def Input.key (input : Input) (position : Nat) : Look → Key
  | .nothing => .nothing
  | .failed => .failed
  | .ready =>
    match input.bytes position with
    | none => .endOfFile
    | some c => .char c

def new : Device := ⟨eof, 1, 0, []⟩

/-- `ConsoleInput::CallBack`, when a `ConsoleReadInt` is scheduled. -/
def callBack (input : Input) (console : Device) (look : Look) :
    Option (Except SynchDevice.Stop (Device × Option Nat)) :=
  if console.polls = 0 then none
  else some do
    let console := { console with polls := console.polls - 1 }
    SynchDevice.assert (console.incoming = eof) .notReady
    match input.key console.position look with
    | .nothing => return ({ console with polls := console.polls + 1 }, none)
    | .endOfFile => return (console, some console.position)
    | .char c =>
      return ({ console with incoming := c, position := console.position + 1 }, some console.position)
    | .failed => throw .host

def getChar (console : Device) (t : Tid) : Device :=
  { console with
    polls := if console.incoming ≠ eof then console.polls + 1 else console.polls
    incoming := eof
    taken := console.taken ++ [(t, console.incoming)] }

/-- `SynchConsoleInput::GetChar`, between `Acquire` and `Release`. -/
def body : List (Action Unit) := [.wait, .device ()]

def interface (input : Input) : Interface Device Unit Unit Look where
  request console t _ _ := .ok (getChar console t)
  callBack := callBack input
  body _ := body

end ConsoleInput

end Nachos
