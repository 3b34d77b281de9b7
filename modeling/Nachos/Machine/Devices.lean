import Nachos.Machine.Interrupt
import Nachos.Machine.Network

/-!
# The handlers of the devices (`machine/timer.cc`, `machine/console.cc`, `machine/network.cc`,
`machine/disk.cc`)

What the devices keep, and what each of them does when its interrupt occurs. Of the objects that the
devices call in turn only `Alarm` uses the interrupt hardware; the others wake a thread.
-/

namespace Nachos.Interrupt

/-- The objects with a `CallBack` that schedule interrupts. -/
inductive Device
  | timer
  | consoleInput
  | consoleOutput
  | networkInput
  | networkOutput
  | disk
  deriving DecidableEq, Repr

/-- What `PollFile` and `ReadPartial` say of the keyboard. -/
inductive Key
  | nothing
  | endOfFile
  | char (c : Byte)
  | failed

def eof : Byte := 255

/-- `TimerTicks`, `ConsoleTime`, `NetworkTime`. -/
def timerTicks : Int := 100

def consoleTime : Int := 100

def networkTime : Int := 100

structure Devices where
  randomize : Bool
  disable : Bool
  incoming : Byte
  putBusy : Bool
  hostName : Word
  network : NetworkInput
  sendBusy : Bool
  active : Bool
  /-- what the next calls of `rand` return -/
  random : Nat → Nat
  /-- what the next looks at the keyboard find -/
  keyboard : Nat → Key
  /-- what the next looks at the socket find -/
  socket : Nat → Option (List Byte)

def setInterrupt (d : Devices) : Devices × List (Action Device) :=
  if d.disable then (d, [])
  else if d.randomize then
    ({ d with random := fun n => d.random (n + 1) },
      [.schedule .timer (1 + (d.random 0 % (timerTicks * 2).toNat : Nat)) .timerInt])
  else (d, [.schedule .timer timerTicks .timerInt])

/-- `Alarm::CallBack`. -/
def alarm (status : Threads.MachineStatus) : List (Action Device) :=
  if status ≠ .idleMode then [.yieldOnReturn] else []

/-- `ConsoleInput::CallBack`. -/
def consoleInput (d : Devices) : Except Fault (Devices × List (Action Device)) := do
  assert (d.incoming = eof)
  let d' := { d with keyboard := fun n => d.keyboard (n + 1) }
  match d.keyboard 0 with
  | .nothing => return (d', [.schedule .consoleInput consoleTime .consoleReadInt])
  | .endOfFile => return (d', [])
  | .char c => return ({ d' with incoming := c }, [])
  | .failed => throw .assertion

/-- `NetworkInput::CallBack`. -/
def networkInput (d : Devices) : Except Fault (Devices × List (Action Device)) := do
  let (network, _) ← d.network.callBack buildLinux d.hostName (d.socket 0)
  -- the socket is looked at when there is no packet in the inbox
  let socket := if d.network.inHdr.length ≠ 0 then d.socket else fun n => d.socket (n + 1)
  return ({ d with network, socket }, [.schedule .networkInput networkTime .networkRecvInt])

/-- `CallBack` of each device. -/
def callBack : Handlers Device Devices := fun device s =>
  match device with
  | .timer =>
    let (d, actions) := setInterrupt s.world
    .ok (d, alarm s.status ++ actions)
  | .consoleInput => consoleInput s.world
  | .consoleOutput => .ok ({ s.world with putBusy := false }, [])
  | .networkInput => networkInput s.world
  | .networkOutput => .ok ({ s.world with sendBusy := false }, [])
  | .disk => .ok ({ s.world with active := false }, [])

end Nachos.Interrupt
