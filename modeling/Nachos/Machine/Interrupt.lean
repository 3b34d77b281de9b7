import Nachos.Base.Runs
import Nachos.Lib.List
import Nachos.Threads.Thread

/-!
# Pending interrupts and simulated time (`machine/interrupt.cc`, `machine/stats.cc`)

The queue of the interrupts that devices have scheduled, and the clock. The handlers are a parameter:
what a handler does is a list of calls of `Schedule` and `YieldOnReturn`, and a change of what the
handlers work on.

`CheckIfDue` calls handlers in a loop that may not end, so a step of the model is one round of that loop,
or a call from outside of it. `caller` says that the loop is running, and who called `CheckIfDue`.
`OneTick` is followed here up to its `Yield`; that it sets `status` when the thread runs again is a
`setStatus` of its own.
-/

namespace Nachos.Interrupt

open Base Threads

inductive IntType
  | timerInt
  | diskInt
  | consoleWriteInt
  | consoleReadInt
  | networkSendInt
  | networkRecvInt
  deriving DecidableEq, Repr

def int (x : Int) : Int := x.bmod (2 ^ 32)

/-- `PendingInterrupt`; `κ` are the objects with a `CallBack`. -/
structure PendingInterrupt (κ : Type) where
  callOnInterrupt : κ
  when : Int
  type : IntType
  /-- which of the calls of `Schedule` made it -/
  id : Nat
  /-- the time that call was made for, before it was put in an `int` -/
  due : Int
  deriving DecidableEq

def pendingCompare {κ : Type} (x y : PendingInterrupt κ) : Int :=
  if x.when < y.when then -1
  else if x.when > y.when then 1
  else 0

structure Statistics where
  totalTicks : Int
  idleTicks : Int
  systemTicks : Int
  userTicks : Int
  deriving DecidableEq

def systemTick : Int := 10

def userTick : Int := 1

inductive Caller
  | oneTick
  | idle
  deriving DecidableEq

structure State (κ σ : Type) where
  level : IntStatus
  pending : List (PendingInterrupt κ)
  inHandler : Bool
  yieldOnReturn : Bool
  status : MachineStatus
  stats : Statistics
  /-- what the handlers work on -/
  world : σ
  /-- the loop of `CheckIfDue` is running -/
  caller : Option Caller
  halted : Bool
  /-- how many interrupts were scheduled -/
  scheduled : Nat
  /-- the interrupts whose handler was called, and the times -/
  calls : List (PendingInterrupt κ × Int)

inductive Action (κ : Type)
  | schedule (toCall : κ) (fromNow : Int) (type : IntType)
  | yieldOnReturn

/-- The handlers: `CallBack` of an object. -/
abbrev Handlers (κ σ : Type) := κ → State κ σ → Except Fault (σ × List (Action κ))

namespace State

variable {κ σ : Type}

/-- `Interrupt::Interrupt` and `Statistics::Statistics`. -/
def new (world : σ) : State κ σ where
  level := .intOff
  pending := []
  inHandler := false
  yieldOnReturn := false
  status := .systemMode
  stats := ⟨0, 0, 0, 0⟩
  world := world
  caller := none
  halted := false
  scheduled := 0
  calls := []

/-- The rest of the function that called `CheckIfDue`. -/
def returned (s : State κ σ) : Caller → Bool → State κ σ
  | .oneTick, _ =>
    if s.yieldOnReturn then
      { s with level := .intOn, yieldOnReturn := false, status := .systemMode }
    else { s with level := .intOn }
  | .idle, true => { s with status := .systemMode }
  | .idle, false => { s with halted := true }

def advanceTo (s : State κ σ) (when : Int) : State κ σ :=
  { s with
    stats := { s.stats with
      idleTicks := int (s.stats.idleTicks + int (when - s.stats.totalTicks))
      totalTicks := when } }

/-- `CheckIfDue` before its loop. -/
def enterLoop (s : State κ σ) (caller : Caller) : State κ σ :=
  { s with inHandler := true, caller := some caller }

/-- `Interrupt::CheckIfDue`, up to its loop. -/
def checkIfDue (s : State κ σ) (advanceClock : Bool) (caller : Caller) : Except Fault (State κ σ) := do
  assert (s.level = .intOff)
  match s.pending with
  | [] => return s.returned caller false
  | next :: _ =>
    if next.when > s.stats.totalTicks then
      if !advanceClock then return s.returned caller false
      else return (s.advanceTo next.when).enterLoop caller
    else return s.enterLoop caller

/-- `OneTick` advances simulated time. -/
def tick (s : State κ σ) : State κ σ :=
  if s.status = .systemMode then
    { s with stats := { s.stats with
        totalTicks := int (s.stats.totalTicks + systemTick)
        systemTicks := int (s.stats.systemTicks + systemTick) } }
  else
    { s with stats := { s.stats with
        totalTicks := int (s.stats.totalTicks + userTick)
        userTicks := int (s.stats.userTicks + userTick) } }

def oneTick (s : State κ σ) : Except Fault (State κ σ) :=
  { s.tick with level := .intOff }.checkIfDue false .oneTick

def setLevel (s : State κ σ) (now : IntStatus) : Except Fault (State κ σ) := do
  assert (now = .intOff ∨ s.inHandler = false)
  if now = .intOn ∧ s.level = .intOff then ({ s with level := now } : State κ σ).oneTick
  else return { s with level := now }

def idle (s : State κ σ) : Except Fault (State κ σ) :=
  { s with status := .idleMode }.checkIfDue true .idle

section

variable [DecidableEq κ]

def schedule (s : State κ σ) (toCall : κ) (fromNow : Int) (type : IntType) :
    Except Fault (State κ σ) := do
  let toOccur : PendingInterrupt κ :=
    ⟨toCall, int (s.stats.totalTicks + fromNow), type, s.scheduled, s.stats.totalTicks + fromNow⟩
  assert (fromNow > 0)
  let pending ← SortedList.insert pendingCompare toOccur s.pending
  return { s with pending, scheduled := s.scheduled + 1 }

def perform (s : State κ σ) : Action κ → Except Fault (State κ σ)
  | .schedule toCall fromNow type => s.schedule toCall fromNow type
  | .yieldOnReturn => do
    assert (s.inHandler = true)
    return { s with yieldOnReturn := true }

/-- The test at the end of the loop of `CheckIfDue`. -/
def again (s : State κ σ) : Bool :=
  match s.pending with
  | [] => false
  | front :: _ => decide (front.when ≤ s.stats.totalTicks)

/-- The loop goes on, or `CheckIfDue` returns. -/
def endRound (s : State κ σ) (caller : Caller) : State κ σ :=
  if s.again then s else { s with inHandler := false, caller := none }.returned caller true

/-- `RemoveFront`, which the loop keeps in `next`. -/
def removed (s : State κ σ) (next : PendingInterrupt κ) (rest : List (PendingInterrupt κ)) :
    State κ σ :=
  { s with pending := rest, calls := s.calls ++ [(next, s.stats.totalTicks)] }

/-- A round of the loop of `CheckIfDue`. -/
def callNext (callBack : Handlers κ σ) (s : State κ σ) (caller : Caller) :
    Except Fault (State κ σ) :=
  match s.pending with
  | [] => .error .assertion
  | next :: rest => do
    let s := s.removed next rest
    let (world, actions) ← callBack next.callOnInterrupt s
    let s ← actions.foldlM perform { s with world }
    return s.endRound caller

end

end State

inductive Event (κ σ : Type)
  | setLevel (now : Threads.IntStatus)
  /-- behind a user instruction -/
  | oneTick
  | idle
  | setStatus (status : MachineStatus)
  /-- by a device that the kernel uses -/
  | schedule (toCall : κ) (fromNow : Int) (type : IntType)
  /-- a round of the loop of `CheckIfDue` -/
  | callNext
  /-- what the kernel and the world outside do to `world` -/
  | outside (world : σ)

variable {κ σ : Type} [DecidableEq κ]

/-- A step. The machine has stopped when an `ASSERT` fails. -/
def step (callBack : Handlers κ σ) (s : State κ σ) (event : Event κ σ) : Option (State κ σ) :=
  if s.halted then none
  else
    match s.caller, event with
    | some caller, .callNext => (s.callNext callBack caller).toOption
    | none, .setLevel now => (s.setLevel now).toOption
    | none, .oneTick => s.oneTick.toOption
    | none, .idle => s.idle.toOption
    | none, .setStatus status => some { s with status }
    | none, .schedule toCall fromNow type => (s.schedule toCall fromNow type).toOption
    | none, .outside world => some { s with world }
    | _, _ => none

end Nachos.Interrupt
