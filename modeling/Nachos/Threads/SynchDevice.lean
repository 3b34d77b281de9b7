import Nachos.Base.Monitor
import Nachos.Base.Runs
import Nachos.Threads.Synch

/-!
# Synchronous access to a device (`threads/synch.cc`, and what `filesys/synchdisk.cc` and
`userprog/synchconsole.cc` have in common)

A device starts an operation and interrupts later. `SynchDisk`, `SynchConsoleInput` and
`SynchConsoleOutput` each have a lock, so that one thread at a time uses the device, and a semaphore
that the device's interrupt signals. A call takes the lock, does operations of the device and waits for
the semaphore, and gives the lock back; `Interface` is what the three differ in.

Any thread may take the next step, unless it is asleep in `P`, and the device may interrupt between any
two steps: the code is interrupted in more places here than it can be with interrupts that are enabled in
`P` and `V` only.
-/

namespace Nachos.SynchDevice

open Base

variable {δ ω κ ι : Type}

/-- A statement of a call, between `Acquire` and `Release`. -/
inductive Action (ω : Type)
  /-- an operation of the device -/
  | device (op : ω)
  | wait
  deriving DecidableEq, Repr

inductive Place (κ ω : Type)
  | outside
  /-- in `Lock::Acquire`, at the head of the loop of `P` -/
  | acquire (call : κ)
  | acquired (call : κ)
  /-- in the call, with these statements before `Release` -/
  | inside (body : List (Action ω))
  /-- in `Lock::Release`, before its `V` -/
  | release
  deriving DecidableEq, Repr

inductive Stop
  /-- the assertion of `Lock::Release` -/
  | isHeldByCurrentThread
  /-- the assertion of a device that it is ready for what it has to do -/
  | notReady
  /-- the assertion of a device about its arguments -/
  | argument
  /-- a call of the host has failed -/
  | host
  deriving DecidableEq, Repr

/-- A device, and the calls that are made of its operations. -/
structure Interface (δ ω κ ι : Type) where
  /-- an operation, with the thread that does it and whether the host's calls succeed -/
  request : δ → Tid → ω → Bool → Except Stop δ
  /-- the interrupt, when it is pending; a number when it signals the semaphore, to tell the signals
  apart -/
  callBack : δ → ι → Option (Except Stop (δ × Option Nat))
  body : κ → List (Action ω)

structure State (δ ω κ : Type) where
  device : δ
  lock : Semaphore Nat
  lockHolder : Option Tid
  /-- the semaphore that the interrupt signals -/
  waitFor : Semaphore Nat
  place : Tid → Place κ ω
  stopped : Option Stop
  /-- the calls, in the order in which their threads took the lock -/
  acquisitions : List (Tid × κ)
  /-- the operations of the device -/
  performed : List (Tid × ω)
  /-- the signals that no thread has taken -/
  signals : List Nat
  /-- the threads that took one -/
  woken : List (Tid × Nat)

def assert (condition : Prop) [Decidable condition] (stop : Stop) : Except Stop Unit :=
  if condition then .ok () else .error stop

namespace State

def goto (s : State δ ω κ) (t : Tid) (place : Place κ ω) : State δ ω κ :=
  { s with place := Function.update s.place t place }

/-- A round of `P` in `Lock::Acquire`. -/
def acquire (s : State δ ω κ) (t : Tid) (call : κ) : State δ ω κ :=
  match s.lock.p t with
  | (lock, true) => { s with lock }.goto t (.acquired call)
  | (lock, false) => { s with lock }

/-- The rest of `Lock::Acquire`. -/
def acquired (f : Interface δ ω κ ι) (s : State δ ω κ) (t : Tid) (call : κ) : State δ ω κ :=
  { s with lockHolder := some t, acquisitions := s.acquisitions ++ [(t, call)] }.goto t
    (.inside (f.body call))

/-- A round of `P` of the semaphore. -/
def wait (s : State δ ω κ) (t : Tid) (body : List (Action ω)) : State δ ω κ :=
  match s.waitFor.p t with
  | (waitFor, true) =>
    { s with
      waitFor
      signals := s.signals.tail
      woken := s.woken ++ s.signals.head?.toList.map (t, ·) }.goto t (.inside body)
  | (waitFor, false) => { s with waitFor }

def request (f : Interface δ ω κ ι) (s : State δ ω κ) (t : Tid) (op : ω) (hostOk : Bool)
    (body : List (Action ω)) : Except Stop (State δ ω κ) := do
  let device ← f.request s.device t op hostOk
  return { s with device, performed := s.performed ++ [(t, op)] }.goto t (.inside body)

/-- `Lock::Release` up to its `V`. -/
def release (s : State δ ω κ) (t : Tid) : Except Stop (State δ ω κ) := do
  assert (s.lockHolder = some t) .isHeldByCurrentThread
  return { s with lockHolder := none }.goto t .release

def go (f : Interface δ ω κ ι) (s : State δ ω κ) (t : Tid) (hostOk : Bool) :
    Option (Except Stop (State δ ω κ)) :=
  match s.place t with
  | .outside => none
  | .acquire call => if t ∈ s.lock.queue then none else some (.ok (s.acquire t call))
  | .acquired call => some (.ok (s.acquired f t call))
  | .inside [] => some (s.release t)
  | .inside (.device op :: body) => some (s.request f t op hostOk body)
  | .inside (.wait :: body) => if t ∈ s.waitFor.queue then none else some (.ok (s.wait t body))
  | .release => some (.ok ({ s with lock := s.lock.v.1 }.goto t .outside))

/-- `CallBack` of the device, and of the object that it calls in turn. -/
def callBack (f : Interface δ ω κ ι) (s : State δ ω κ) (i : ι) :
    Option (Except Stop (State δ ω κ)) :=
  (f.callBack s.device i).map fun result => do
    match ← result with
    | (device, none) => return { s with device }
    | (device, some signal) =>
      return { s with device, waitFor := s.waitFor.v.1, signals := s.signals ++ [signal] }

end State

inductive Event (κ ι : Type)
  | call (t : Tid) (call : κ)
  | go (t : Tid) (hostOk : Bool)
  | interrupt (i : ι)

def next (f : Interface δ ω κ ι) (s : State δ ω κ) : Event κ ι → Option (Except Stop (State δ ω κ))
  | .call t call =>
    match s.place t with
    | .outside => some (.ok (s.goto t (.acquire call)))
    | _ => none
  | .go t hostOk => s.go f t hostOk
  | .interrupt i => s.callBack f i

def step (f : Interface δ ω κ ι) (s : State δ ω κ) (event : Event κ ι) : Option (State δ ω κ) :=
  if s.stopped.isSome then none
  else (next f s event).map fun
    | .ok s' => s'
    | .error stop => { s with stopped := some stop }

def start (device : δ) : State δ ω κ where
  device
  lock := .new 1
  lockHolder := none
  waitFor := .new 0
  place := fun _ => .outside
  stopped := none
  acquisitions := []
  performed := []
  signals := []
  woken := []

/-- The states of the runs of any threads, with the device in any state at first. -/
def Reachable (f : Interface δ ω κ ι) (device : δ) (s : State δ ω κ) : Prop :=
  Runs (step f) (fun _ _ => True) (start device) s

/-! ## Devices that do one operation at a time -/

/-- A device with a flag that says whether it is busy (`Disk::active`, `ConsoleOutput::putBusy`). -/
structure Busy (ε : Type) where
  busy : Bool
  /-- the operations whose interrupt is scheduled, numbered in the order of the operations -/
  pending : List Nat
  operations : Nat
  /-- the operations whose interrupt has occurred -/
  completed : List Nat
  data : ε

namespace Busy

variable {ε : Type}

def new (data : ε) : Busy ε := ⟨false, [], 0, [], data⟩

/-- An operation: the work is done at once, and the interrupt is scheduled. -/
def perform (d : Busy ε) (work : Except Stop ε) : Except Stop (Busy ε) := do
  assert (d.busy = false) .notReady
  let data ← work
  return { d with
    busy := true
    pending := d.pending ++ [d.operations]
    operations := d.operations + 1
    data }

def callBack (d : Busy ε) (operation : Nat) : Option (Except Stop (Busy ε × Option Nat)) :=
  if operation ∈ d.pending then
    some (.ok ({ d with
      busy := false
      pending := d.pending.erase operation
      completed := d.completed ++ [operation] }, some operation))
  else none

end Busy

end Nachos.SynchDevice
