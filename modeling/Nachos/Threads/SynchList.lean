import Nachos.Base.Monitor
import Nachos.Base.Runs
import Nachos.Threads.Synch

/-!
# Synchronized lists (`threads/synchlist.cc`, `threads/synch.cc`)

`Lock` and `Condition` are made of semaphores, and `SynchList` is a monitor made of them. The code that
a thread has still to run is a list of `Frame`s, innermost call first; a step runs the first one. Any
thread may take the next step, unless it is asleep in `P`: the code is preempted in more places here
than it can be with interrupts that are enabled in `P` and `V` only.

A waiter of the condition is a semaphore that `Wait` allocates and deletes; they are numbered.
-/

namespace Nachos.SynchList

open Base

/-- The semaphores: the one of the lock, and those of the waiters. -/
inductive SemId
  | lock
  | waiter (w : Nat)
  deriving DecidableEq, Repr

inductive Frame (α : Type)
  /-- `Semaphore::P`, at the head of its loop -/
  | p (k : SemId)
  | v (k : SemId)
  /-- `Lock::Acquire` behind `P` -/
  | acquired
  | release
  | wait
  /-- the end of `Wait`, `delete waiter` -/
  | delete (w : Nat)
  | signal
  | append (item : α)
  /-- `RemoveFront` at the head of its loop -/
  | whileEmpty
  /-- `item = list->RemoveFront()`, and the rest of `RemoveFront` -/
  | removeFront
  | returned (item : α)
  deriving DecidableEq, Repr

inductive Stop
  /-- the assertions that the current thread holds the lock (`Release`, `Wait`, `Signal`) -/
  | isHeldByCurrentThread
  /-- the item is not in the list (`List::Append`) -/
  | append
  /-- the list is not empty (`List::RemoveFront`) -/
  | removeFront
  /-- a semaphore is used that was deleted -/
  | undefined
  deriving DecidableEq, Repr

structure State (α : Type) where
  list : List α
  lockHolder : Option Tid
  sems : SemId → Semaphore Nat
  waitQueue : List Nat
  /-- the number of waiters allocated, and which of them are deleted -/
  waiters : Nat
  deleted : Nat → Bool
  code : Tid → List (Frame α)
  stopped : Option Stop
  /-- the items of the calls of `Append` -/
  items : List α
  /-- the operations on the list, by thread -/
  log : List (QueueOp Tid α)
  /-- the waiters that `Signal` took off the queue and whose `Wait` has not ended -/
  signalled : List Nat

variable {α : Type}

abbrev Result := Except Stop

def assert (condition : Prop) [Decidable condition] (stop : Stop) : Result Unit :=
  if condition then pure () else throw stop

namespace State

def goto (s : State α) (t : Tid) (code : List (Frame α)) : State α :=
  { s with code := Function.update s.code t code }

def setSem (s : State α) (k : SemId) (sem : Semaphore Nat) : State α :=
  { s with sems := Function.update s.sems k sem }

/-! ## Semaphores -/

def usable (s : State α) : SemId → Bool
  | .lock => true
  | .waiter w => !s.deleted w

/-- A round of `Semaphore::P`. A thread that goes to sleep will take another one. -/
def p (s : State α) (t : Tid) (k : SemId) (code : List (Frame α)) : Result (State α) := do
  assert (s.usable k = true) .undefined
  match (s.sems k).p t with
  | (sem, true) => pure ((s.setSem k sem).goto t code)
  | (sem, false) => pure (s.setSem k sem)

def v (s : State α) (t : Tid) (k : SemId) (code : List (Frame α)) : Result (State α) := do
  assert (s.usable k = true) .undefined
  pure ((s.setSem k ((s.sems k).v).1).goto t code)

def asleep (s : State α) (t : Tid) : Bool :=
  match s.code t with
  | .p k :: _ => decide (t ∈ (s.sems k).queue)
  | _ => false

end State

/-! ## Locks and conditions -/

def acquire (code : List (Frame α)) : List (Frame α) := .p .lock :: .acquired :: code

namespace State

/-- `Lock::Release` up to its `V`. -/
def release (s : State α) (t : Tid) (code : List (Frame α)) : Result (State α) := do
  assert (s.lockHolder = some t) .isHeldByCurrentThread
  pure ({ s with lockHolder := none }.goto t (.v .lock :: code))

/-- `Condition::Wait` up to its `Release`. -/
def wait (s : State α) (t : Tid) (code : List (Frame α)) : Result (State α) := do
  assert (s.lockHolder = some t) .isHeldByCurrentThread
  let waiter := s.waiters
  assert (waiter ∉ s.waitQueue) .append
  pure ({ s.setSem (.waiter waiter) (.new 0) with
    waiters := s.waiters + 1
    waitQueue := s.waitQueue ++ [waiter] }.goto t
      (.release :: .p (.waiter waiter) :: acquire (.delete waiter :: code)))

/-- `Condition::Signal` up to its `V`. -/
def signal (s : State α) (t : Tid) (code : List (Frame α)) : Result (State α) := do
  assert (s.lockHolder = some t) .isHeldByCurrentThread
  match s.waitQueue with
  | [] => pure (s.goto t code)
  | waiter :: waitQueue =>
    pure ({ s with waitQueue, signalled := s.signalled ++ [waiter] }.goto t
      (.v (.waiter waiter) :: code))

/-! ## The list -/

variable [DecidableEq α]

def append (s : State α) (t : Tid) (item : α) (code : List (Frame α)) : Result (State α) := do
  assert (item ∉ s.list) .append
  pure ({ s with list := s.list ++ [item], log := s.log ++ [QueueOp.append t item] }.goto t code)

def removeFront (s : State α) (t : Tid) (code : List (Frame α)) : Result (State α) :=
  match s.list with
  | [] => throw .removeFront
  | item :: list =>
    pure ({ s with list, log := s.log ++ [QueueOp.removeFront t item] }.goto t
      (.release :: .returned item :: code))

/-! ## Steps -/

/-- The first frame of the code of thread `t`, with `code` behind it. -/
def goOn (s : State α) (t : Tid) (code : List (Frame α)) : Frame α → Result (State α)
  | .p k => s.p t k code
  | .v k => s.v t k code
  | .acquired => pure ({ s with lockHolder := some t }.goto t code)
  | .release => s.release t code
  | .wait => s.wait t code
  | .delete waiter =>
    pure ({ s with
      deleted := Function.update s.deleted waiter true
      signalled := s.signalled.erase waiter }.goto t code)
  | .signal => s.signal t code
  | .append item => s.append t item code
  | .whileEmpty =>
    if s.list.isEmpty then pure (s.goto t (.wait :: .whileEmpty :: code))
    else pure (s.goto t (.removeFront :: code))
  | .removeFront => s.removeFront t code
  | .returned _ => pure (s.goto t code)

end State

/-- What happens next: a thread calls `Append` or `RemoveFront`, or goes on. -/
inductive Choice (α : Type)
  | append (t : Tid) (item : α)
  | removeFront (t : Tid)
  | go (t : Tid)

section

variable [DecidableEq α]

def State.next (s : State α) : Choice α → Option (Result (State α))
  | .append t item =>
    match s.code t with
    | [] => some (pure ({ s with items := s.items ++ [item] }.goto t
        (acquire [.append item, .signal, .release])))
    | _ :: _ => none
  | .removeFront t =>
    match s.code t with
    | [] => some (pure (s.goto t (acquire [.whileEmpty])))
    | _ :: _ => none
  | .go t =>
    match s.code t with
    | [] => none
    | frame :: code => if s.asleep t then none else some (s.goOn t code frame)

def step (s : State α) (choice : Choice α) : Option (State α) :=
  if s.stopped.isSome then none
  else (s.next choice).map fun
    | .ok s' => s'
    | .error stop => { s with stopped := some stop }

end

def start : State α where
  list := []
  lockHolder := none
  sems
    | .lock => .new 1
    | .waiter _ => .new 0
  waitQueue := []
  waiters := 0
  deleted := fun _ => false
  code := fun _ => []
  stopped := none
  items := []
  log := []
  signalled := []

/-- The items of the calls of `Append` are distinct. -/
def Distinct (s : State α) : Choice α → Prop
  | .append _ item => item ∉ s.items
  | .removeFront _ | .go _ => True

/-- The states of the runs of any threads that append distinct items. -/
def Reachable [DecidableEq α] (s : State α) : Prop := Runs step Distinct start s

end Nachos.SynchList
