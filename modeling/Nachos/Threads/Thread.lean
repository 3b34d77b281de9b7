import Nachos.Machine.Machine
import Nachos.Threads.Synch

/-!
# Kernel threads under interrupts (`threads/thread.cc`, `threads/scheduler.cc`, `machine/interrupt.cc`)

The thread operations with the interrupt level, the clock tick that enabling interrupts causes, the
idle loop, and the switching of the machine's user state. `threads/synch.cc` gives `P` and `V`.

A thread that is not in its own code has a stack of `Frame`s: the code it still has to run, innermost
call first. A step runs the code at the top of the current thread's stack, or a call that its own code
makes. Between two steps interrupts may be due, a thread may idle, and another thread may have been
switched to: the states between the steps are the scheduling points.

`Scheduler.State` is the same code seen from the deletion of threads, with the address spaces in full
and without the interrupt level.
-/

namespace Nachos.Threads

open Function

inductive IntStatus
  | intOff
  | intOn
  deriving DecidableEq, Repr

inductive MachineStatus
  | idleMode
  | systemMode
  | userMode
  deriving DecidableEq, Repr

inductive ThreadStatus
  | justCreated
  | running
  | ready
  | blocked
  deriving DecidableEq, Repr

/-- The semaphores: `addrLock`, which `~AddrSpace` takes, and the others. -/
inductive SemId
  | addrLock
  | sem (n : Nat)
  deriving DecidableEq, Repr

/-- A semaphore and its history: the initial value, the `V`s and `P`s that have changed the value, and
the threads that a `V` has taken off the queue and that have not looked at the value again. -/
structure Sem extends Semaphore Word where
  initial : Word
  completedV : Nat
  completedP : Nat
  woken : List Tid

namespace Sem

def new (initial : Word) : Sem := ⟨.new initial, initial, 0, 0, []⟩

def append (s : Sem) (t : Tid) : Sem := { s with toSemaphore := s.toSemaphore.append t }

def removeFront (s : Sem) : Sem :=
  { s with toSemaphore := s.toSemaphore.removeFront, woken := s.woken ++ s.queue.head?.toList }

def decrement (s : Sem) : Sem :=
  { s with toSemaphore := s.toSemaphore.decrement, completedP := s.completedP + 1 }

def increment (s : Sem) : Sem :=
  { s with toSemaphore := s.toSemaphore.increment, completedV := s.completedV + 1 }

/-- A woken thread is back at the loop of `P`. -/
def retest (s : Sem) (t : Tid) : Sem := { s with woken := s.woken.erase t }

end Sem

/-- An address space as a context switch sees it: where its page table is, and `numPages`. -/
structure Space where
  pageTable : Nat
  numPages : Nat
  deriving DecidableEq, Repr

/-- The part of the machine that belongs to the user program. `pageTable` is a pointer. -/
structure Cpu where
  registers : Reg → Word
  pageTable : Option Nat
  pageTableSize : Nat

/-- What a thread's own code is: kernel code outside a user program, a user program, or the handler of
an exception of its program. -/
inductive Mode
  | kernel
  | user
  | exception
  deriving DecidableEq, Repr

inductive Frame
  /-- the end of a call of `P`, `V`, `Fork` or `Yield` that was entered at this level -/
  | returned (entered : IntStatus)
  | setLevel (now : IntStatus)
  | oneTick
  /-- `OneTick` behind its `Yield` -/
  | yielded (oldStatus : MachineStatus)
  /-- `P` behind `Sleep`, at the head of its loop -/
  | slept (k : SemId) (oldLevel : IntStatus)
  /-- `Sleep`, at the head of its loop -/
  | sleeping (finishing : Bool)
  /-- `Run` behind `SWITCH`; `out`: the user state when the thread was switched out -/
  | switched (out : Cpu)
  /-- `Run` behind `CheckToBeDestroyed` -/
  | restore (out : Cpu)
  | resumed (out : Cpu)
  | begin
  | checkToBeDestroyed
  /-- `~AddrSpace` behind `addrLock->P()` -/
  | clearSpace
  /-- `CheckToBeDestroyed` behind `delete` -/
  | deleted

/-- The lists of threads, the threads' statuses, and their history: which threads have called
`Finish`, the order in which threads became ready and the order in which they were taken. -/
structure Queues where
  readyList : List Tid
  sems : SemId → Sem
  status : Tid → ThreadStatus
  finished : Tid → Bool
  readied : List Tid
  served : List Tid

namespace Queues

def setStatus (q : Queues) (t : Tid) (status : ThreadStatus) : Queues :=
  { q with status := update q.status t status }

def setSem (q : Queues) (k : SemId) (s : Sem) : Queues :=
  { q with sems := update q.sems k s }

def makeReady (q : Queues) (t : Tid) : Queues :=
  { q.setStatus t .ready with readyList := q.readyList ++ [t], readied := q.readied ++ [t] }

def removeFront (q : Queues) : Queues :=
  { q with readyList := q.readyList.tail, served := q.served ++ q.readyList.head?.toList }

def post (q : Queues) (k : SemId) : Queues :=
  let front := (q.sems k).queue.head?
  let q := q.setSem k (q.sems k).removeFront.increment
  match front with
  | none => q
  | some t => q.makeReady t

end Queues

inductive Assertion
  /-- the level is `IntOff` in `ReadyToRun`, `FindNextToRun`, `Run`, `Sleep`, `CheckIfDue` -/
  | readyToRun
  | findNextToRun
  | run
  | sleep
  | checkIfDue
  /-- a handler does not enable interrupts (`SetLevel`) -/
  | setLevel
  /-- `YieldOnReturn` is called by a handler -/
  | yieldOnReturn
  /-- the item is not in the list (`List::Append`) -/
  | append
  /-- `toBeDestroyed == NULL` (`Run`) -/
  | toBeDestroyed
  /-- a thread does not delete itself (`~Thread`) -/
  | deleteCurrent
  deriving DecidableEq, Repr

inductive StopReason
  | assertion (a : Assertion)
  /-- `Halt`, when the machine is idle and nothing is pending -/
  | halt
  deriving DecidableEq, Repr

structure State where
  currentThread : Tid
  queues : Queues
  toBeDestroyed : Option Tid
  level : IntStatus
  inHandler : Bool
  yieldOnReturn : Bool
  status : MachineStatus
  cpu : Cpu
  /-- of each thread: the code it has to run, its own code, its space and its saved registers -/
  stack : Tid → List Frame
  mode : Tid → Mode
  space : Tid → Option Space
  userRegisters : Tid → Reg → Word
  stopped : Option StopReason

abbrev Result := Except StopReason State

def assert (condition : Prop) [Decidable condition] (a : Assertion) : Except StopReason Unit :=
  if condition then pure () else throw (.assertion a)

namespace State

def code (s : State) : List Frame := s.stack s.currentThread

def goto (s : State) (code : List Frame) : State :=
  { s with stack := update s.stack s.currentThread code }

/-! ## The scheduler -/

def readyToRun (s : State) (t : Tid) : Result := do
  assert (s.level = .intOff) .readyToRun
  assert (t ∉ s.queues.readyList) .append
  pure { s with queues := s.queues.makeReady t }

def findNextToRun (s : State) : Except StopReason (Option Tid × State) := do
  assert (s.level = .intOff) .findNextToRun
  pure (s.queues.readyList.head?, { s with queues := s.queues.removeFront })

/-- `SaveUserState` and `AddrSpace::SaveState`, for a thread with an address space. -/
def saveUserState (s : State) : State :=
  { s with
    userRegisters :=
      match s.space s.currentThread with
      | none => s.userRegisters
      | some _ => update s.userRegisters s.currentThread s.cpu.registers }

/-- `RestoreUserState` and `AddrSpace::RestoreState`, for a thread with an address space. -/
def restoreUserState (s : State) : State :=
  { s with
    cpu :=
      match s.space s.currentThread with
      | none => s.cpu
      | some space => ⟨s.userRegisters s.currentThread, some space.pageTable, space.numPages⟩ }

/-- What `Run` does up to `SWITCH`; `code` is what its caller has still to run. -/
def switchTo (s : State) (nextThread : Tid) (finishing : Bool) (code : List Frame) : State :=
  let toBeDestroyed := if finishing then some s.currentThread else s.toBeDestroyed
  { s.saveUserState.goto (.switched s.cpu :: code) with
    toBeDestroyed
    currentThread := nextThread
    queues := s.queues.setStatus nextThread .running }

/-- `Scheduler::Run` up to `SWITCH`. -/
def run (s : State) (nextThread : Tid) (finishing : Bool) (code : List Frame) : Result := do
  assert (s.level = .intOff) .run
  assert (finishing = true → s.toBeDestroyed = none) .toBeDestroyed
  pure (s.switchTo nextThread finishing code)

/-! ## Threads and semaphores -/

/-- `Thread::Sleep` up to its loop. -/
def sleep (s : State) (finishing : Bool) (code : List Frame) : Result := do
  assert (s.level = .intOff) .sleep
  pure ({ s with queues := s.queues.setStatus s.currentThread .blocked }.goto
    (.sleeping finishing :: code))

/-- `Thread::Yield` up to its second `SetLevel`. -/
def yield (s : State) (code : List Frame) : Result := do
  let oldLevel := s.level
  let code := .setLevel oldLevel :: .returned oldLevel :: code
  let s := { s with level := .intOff }
  match ← s.findNextToRun with
  | (none, s) => pure (s.goto code)
  | (some nextThread, s) => do
    let s ← s.readyToRun s.currentThread
    s.run nextThread false code

/-- `Thread::Fork` up to its second `SetLevel`. -/
def fork (s : State) (t : Tid) (code : List Frame) : Result := do
  let oldLevel := s.level
  let s := { s with level := .intOff }
  let s ← s.readyToRun t
  pure (s.goto (.setLevel oldLevel :: .returned oldLevel :: code))

def finish (s : State) : Result :=
  { s with
    level := .intOff
    queues := { s.queues with
      finished := update s.queues.finished s.currentThread true } }.sleep true []

/-- The loop of `Semaphore::P` up to a `Sleep` or the second `SetLevel`. -/
def pLoop (s : State) (k : SemId) (oldLevel : IntStatus) (code : List Frame) : Result := do
  let sem := s.queues.sems k
  if sem.value = 0 then
    assert (s.currentThread ∉ sem.queue) .append
    sleep { s with queues := s.queues.setSem k (sem.append s.currentThread) } false
      (.slept k oldLevel :: code)
  else
    pure ({ s with queues := s.queues.setSem k sem.decrement }.goto (.setLevel oldLevel :: code))

def p (s : State) (k : SemId) (code : List Frame) : Result :=
  { s with level := .intOff }.pLoop k s.level (.returned s.level :: code)

/-- `Semaphore::V` between its two `SetLevel`s. -/
def vBody (s : State) (k : SemId) : Result := do
  let sem := s.queues.sems k
  let front := sem.queue.head?
  let s := { s with queues := s.queues.setSem k sem.removeFront }
  let s ← match front with
    | none => pure s
    | some t => s.readyToRun t
  pure { s with queues := s.queues.setSem k (s.queues.sems k).increment }

/-- `Semaphore::V` up to its second `SetLevel`. -/
def v (s : State) (k : SemId) (code : List Frame) : Result := do
  let oldLevel := s.level
  let s ← { s with level := .intOff }.vBody k
  pure (s.goto (.setLevel oldLevel :: .returned oldLevel :: code))

/-- `CheckToBeDestroyed`, up to what `~AddrSpace` does behind `addrLock->P()`. -/
def checkToBeDestroyed (s : State) (code : List Frame) : Result :=
  match s.toBeDestroyed with
  | none => pure (s.goto code)
  | some t => do
    assert (t ≠ s.currentThread) .deleteCurrent
    match s.space t with
    | none => pure ({ s with toBeDestroyed := none }.goto code)
    | some _ => s.p .addrLock (.clearSpace :: code)

/-! ## Interrupts -/

/-- What an interrupt handler does to threads. No handler uses `addrLock`. -/
inductive Action
  | v (n : Nat)
  | yieldOnReturn

/-- `Interrupt::SetLevel`, up to its `OneTick`. -/
def setLevel (s : State) (now : IntStatus) (code : List Frame) : Result := do
  assert (now = .intOff ∨ s.inHandler = false) .setLevel
  let ticks := now = .intOn ∧ s.level = .intOff
  pure ({ s with level := now }.goto (if ticks then .oneTick :: code else code))

/-- What a handler does. The level is off before and after its `V`, which therefore does not tick. -/
def handle (s : State) : Action → Result
  | .v n => do
    let oldLevel := s.level
    let s ← { s with level := .intOff }.vBody (.sem n)
    assert (oldLevel = .intOff ∨ s.inHandler = false) .setLevel
    pure { s with level := oldLevel }
  | .yieldOnReturn => do
    assert (s.inHandler = true) .yieldOnReturn
    pure { s with yieldOnReturn := true }

/-- The registers after `DelayedLoad(0, 0)`. -/
def flush (registers : Reg → Word) : Reg → Word :=
  match Machine.delayedLoad 0 0 ⟨registers, fun _ => 0, none, none, 0⟩ with
  | .ok _ m | .error _ m => m.registers

def delayedLoad (s : State) : State :=
  { s with cpu := { s.cpu with registers := flush s.cpu.registers } }

/-- `Interrupt::CheckIfDue`: what the handlers do that are due, or that nothing is. -/
def checkIfDue (s : State) (due : Option (List Action)) : Result := do
  assert (s.level = .intOff) .checkIfDue
  match due with
  | none => pure s
  | some actions =>
    let s ← actions.foldlM handle { s.delayedLoad with inHandler := true }
    pure { s with inHandler := false }

/-- `Interrupt::OneTick`, up to its `Yield`. -/
def oneTick (s : State) (due : Option (List Action)) (code : List Frame) : Result := do
  let oldStatus := s.status
  let s ← { s with level := .intOff }.checkIfDue due
  let s := { s with level := .intOn }
  if s.yieldOnReturn then
    yield { s with yieldOnReturn := false, status := .systemMode } (.yielded oldStatus :: code)
  else pure (s.goto code)

def idle (s : State) (due : Option (List Action)) : Result := do
  let s ← { s with status := .idleMode }.checkIfDue due
  match due with
  | none => throw .halt
  | some _ => pure { s with status := .systemMode }

/-- The loop of `Thread::Sleep`. -/
def sleepLoop (s : State) (finishing : Bool) (due : Option (List Action)) (code : List Frame) :
    Result := do
  match ← s.findNextToRun with
  | (none, s) => s.idle due
  | (some nextThread, s) => s.run nextThread finishing code

/-! ## Steps -/

def goOn (s : State) (due : Option (List Action)) (code : List Frame) : Frame → Result
  | .returned _ => pure (s.goto code)
  | .setLevel now => s.setLevel now code
  | .oneTick => s.oneTick due code
  | .yielded oldStatus => pure ({ s with status := oldStatus }.goto code)
  | .slept k oldLevel =>
    { s with
      queues := s.queues.setSem k ((s.queues.sems k).retest s.currentThread) }.pLoop k oldLevel code
  | .sleeping finishing => s.sleepLoop finishing due code
  | .switched out => do
    assert (s.level = .intOff) .run
    pure (s.goto (.checkToBeDestroyed :: .restore out :: code))
  | .restore out => pure (s.restoreUserState.goto (.resumed out :: code))
  | .resumed _ => pure (s.goto code)
  | .begin => pure (s.goto (.checkToBeDestroyed :: .setLevel .intOn :: code))
  | .checkToBeDestroyed => s.checkToBeDestroyed code
  | .clearSpace => s.v .addrLock (.deleted :: code)
  | .deleted => pure ({ s with toBeDestroyed := none }.goto code)

end State

inductive Call
  | fork (t : Tid)
  | yield
  | p (k : SemId)
  | v (k : SemId)
  | finish
  | setLevel (now : IntStatus)
  /-- `t->space = space`, for a thread that is not forked yet -/
  | setSpace (t : Tid) (space : Space)
  | execute (space : Space)
  /-- the kernel writes user registers -/
  | writeRegisters (registers : Reg → Word)
  /-- a user instruction without an exception -/
  | instruction (registers : Reg → Word)
  /-- a user instruction that raises an exception -/
  | raise (registers : Reg → Word)
  /-- the handler of the exception returns, and the instruction ends -/
  | handled (registers : Reg → Word)

namespace State

def initRegisters (numPages : Nat) : Reg → Word :=
  update (update (update (fun _ => 0) pcReg 0) nextPCReg 4) stackReg
    (BitVec.ofNat 32 (numPages * pageSize) - 16)

def setMode (s : State) (mode : Mode) : State :=
  { s with mode := update s.mode s.currentThread mode }

def setRegisters (s : State) (registers : Reg → Word) : State :=
  { s with cpu := { s.cpu with registers } }

/-- `AddrSpace::Execute`, and `Machine::Run` up to its loop. -/
def execute (s : State) (space : Space) : State :=
  { s with
    space := update s.space s.currentThread (some space)
    cpu := ⟨initRegisters space.numPages, some space.pageTable, space.numPages⟩
    status := .userMode }.setMode .user

def kernelCall (s : State) : Call → Option Result
  | .fork t => if s.queues.status t = .justCreated then some (s.fork t []) else none
  | .yield => some (s.yield [])
  | .p k => some (s.p k [])
  | .v k => some (s.v k [])
  | .finish => some s.finish
  | .setLevel now => some (s.setLevel now [])
  | .setSpace t space =>
    if s.queues.status t = .justCreated then
      some (pure { s with space := update s.space t (some space) })
    else none
  | .writeRegisters registers => some (pure (s.setRegisters registers))
  | .execute _ | .instruction _ | .raise _ | .handled _ => none

def call (s : State) (call : Call) : Option Result :=
  match s.mode s.currentThread, call with
  | .user, .instruction registers => some (pure ((s.setRegisters registers).goto [.oneTick]))
  | .user, .raise registers =>
    some (pure ({ s.setRegisters registers with status := .systemMode }.setMode .exception))
  | .user, _ => none
  | .exception, .handled registers =>
    some (pure (({ s.setRegisters registers with status := .userMode }.setMode .user).goto
      [.oneTick]))
  | .exception, call => s.kernelCall call
  | .kernel, .execute space => some (pure (s.execute space))
  | .kernel, call => s.kernelCall call

end State

inductive Choice
  /-- the code at the top of the stack runs, with these interrupts due -/
  | go (due : Option (List State.Action))
  /-- the thread's own code makes a call -/
  | call (call : Call)

def State.next (s : State) (choice : Choice) : Option Result :=
  match s.code, choice with
  | frame :: code, .go due => some (s.goOn due code frame)
  | [], .call call => s.call call
  | _, _ => none

/-- One step of the kernel. The simulator stops at a failed assertion. -/
def step (s : State) (choice : Choice) : Option State :=
  if s.stopped.isSome then none
  else (s.next choice).map fun
    | .ok s' => s'
    | .error reason => { s with stopped := some reason }

/-- The first thread runs with interrupts off, and the others are not forked. -/
def start (initial : SemId → Word) (cpu : Cpu) : State where
  currentThread := 0
  queues :=
    { readyList := []
      sems := fun k => Sem.new (initial k)
      status := update (fun _ => .justCreated) 0 .running
      finished := fun _ => false
      readied := []
      served := [] }
  toBeDestroyed := none
  level := .intOff
  inHandler := false
  yieldOnReturn := false
  status := .systemMode
  cpu := cpu
  stack := update (fun _ => [.begin]) 0 []
  mode := fun _ => .kernel
  space := fun _ => none
  userRegisters := fun _ _ => 0
  stopped := none

end Nachos.Threads
