import Nachos.Threads.Synch
import Nachos.Userprog.AddrSpace

/-!
# Threads, the scheduler and the destruction of threads (`threads/thread.cc`, `threads/scheduler.cc`)

The threads of the kernel as a step function. Between two switches a thread makes the moves that
matter here: it builds an address space and forks a thread for it, it loads a segment (both under
`addrLock`), it waits for something else, it finishes. A context switch is possible where interrupts
are enabled again: at the end of each `P` and `V`, in user code, and where a thread sleeps.

`Scheduler::Run` marks a finishing thread in `toBeDestroyed`, and the thread that runs next deletes it
(`CheckToBeDestroyed`), with interrupts off and still inside `Run`. The destructor of the address
space takes `addrLock`. When that blocks, other threads come back from `Run` in between, so that a
thread has a stack of deletions in progress (`destroys`).
-/

namespace Nachos.Scheduler

open Base

/-- The two functions that run under `addrLock`, but for the destructor. -/
inductive Section
  /-- the constructor's loop over the pages -/
  | construct (executable : OpenFile) (numPages : Nat)
  | load (executable : OpenFile) (startAddr size virtualAddr stale : Word)

inductive Activity
  | created
  /-- in user code, or in kernel code that does not use `addrLock` -/
  | user
  | acquiring (sec : Section)
  /-- between `addrLock->P()` and `addrLock->V()` -/
  | holding (sec : Section)
  /-- behind the constructor, before `Fork` -/
  | forking (space : AddrSpace)
  /-- asleep for another reason -/
  | elsewhere
  | finished

structure Thread where
  activity : Activity
  /-- the threads whose deletion is waiting in `addrLock->P()` on this thread's stack -/
  destroys : List Tid
  space : Option AddrSpace
  userRegisters : Reg → Word

inductive Phase
  | running
  /-- behind `SWITCH`, before `CheckToBeDestroyed` -/
  | switched
  /-- in the loop of `Thread::Sleep` -/
  | sleeping (finishing : Bool)
  deriving DecidableEq

inductive StopReason
  /-- `ASSERT(toBeDestroyed == NULL)` in `Scheduler::Run` -/
  | toBeDestroyedSet
  | fault (f : Fault)
  deriving DecidableEq

structure State where
  currentThread : Tid
  phase : Phase
  readyList : List Tid
  toBeDestroyed : Option Tid
  addrLock : Semaphore Nat
  kernel : Kernel
  threads : Tid → Thread
  /-- the next thread to be created -/
  next : Tid
  /-- the simulator has stopped -/
  stopped : Option StopReason
  /-- how often each thread has been deleted, and its frames cleared -/
  deletes : Tid → Nat
  clears : Tid → Nat

namespace State

def stop (s : State) (reason : StopReason) : State := { s with stopped := some reason }

def activity (s : State) (t : Tid) : Activity := (s.threads t).activity
def destroys (s : State) (t : Tid) : List Tid := (s.threads t).destroys
def space (s : State) (t : Tid) : Option AddrSpace := (s.threads t).space

def setThread (s : State) (t : Tid) (f : Thread → Thread) : State :=
  { s with threads := Function.update s.threads t (f (s.threads t)) }

def setActivity (s : State) (t : Tid) (activity : Activity) : State :=
  s.setThread t fun thread => { thread with activity }

def readyToRun (s : State) (t : Tid) : State := { s with readyList := s.readyList ++ [t] }

/-- `ReadyToRun(queue->RemoveFront())`, if there is one. -/
def wake (s : State) : Option Tid → State
  | none => s
  | some t => s.readyToRun t

/-- `Thread::SaveUserState`, for a thread with an address space. -/
def saveUserState (s : State) (t : Tid) : State :=
  if s.space t = none then s
  else s.setThread t fun thread => { thread with userRegisters := s.kernel.machine.registers }

/-- `Thread::RestoreUserState` and `AddrSpace::RestoreState`, for a thread with an address space. -/
def restoreUserState (s : State) (t : Tid) : State :=
  match s.space t with
  | none => s
  | some space =>
    let machine := { s.kernel.machine with registers := (s.threads t).userRegisters }
    { s with kernel := { s.kernel with machine := space.restoreState machine } }

/-- `Scheduler::Run` up to `SWITCH`. -/
def run (s : State) (nextThread : Tid) (finishing : Bool) : State :=
  if finishing && s.toBeDestroyed.isSome then s.stop .toBeDestroyedSet
  else
    let s := if finishing then { s with toBeDestroyed := some s.currentThread } else s
    let s := s.saveUserState s.currentThread
    { s with currentThread := nextThread, phase := .switched }

def yield (s : State) : State :=
  match s.readyList with
  | [] => s
  | nextThread :: readyList =>
    run ({ s with readyList }.readyToRun s.currentThread) nextThread false

/-- Interrupts are enabled, and the timer may ask for a context switch. -/
def tick (s : State) (timer : Bool) : State := if timer then s.yield else s

/-- `Thread::Sleep`, up to its loop. -/
def sleep (s : State) (finishing : Bool) : State := { s with phase := .sleeping finishing }

/-- The end of `Run` for a thread that runs again, and of `Begin` for a new one. -/
def resume (s : State) : State :=
  let s := { s with phase := .running }
  match s.activity s.currentThread with
  | .created => s.setActivity s.currentThread .user
  | _ => s.restoreUserState s.currentThread

/-- The end of `CheckToBeDestroyed`. A deletion that is still waiting on the stack goes on first. -/
def deleted (s : State) : State :=
  let s := { s with toBeDestroyed := none, phase := .running }
  if s.destroys s.currentThread = [] then s.resume else s

/-- `~AddrSpace` of thread `t` behind its `P`, and the rest of the deletion. -/
def clearSpace (s : State) (t : Tid) (space : AddrSpace) : State :=
  match space.delete s.kernel with
  | .error f => s.stop (.fault f)
  | .ok kernel =>
    let (addrLock, woken) := s.addrLock.v
    let clears := Function.update s.clears t (s.clears t + 1)
    ({ s with kernel, addrLock, clears }.wake woken).deleted

/-- `~Thread` of `t`, on the stack of the current thread. -/
def destroy (s : State) (t : Tid) : State :=
  match s.space t with
  | none => s.deleted
  | some space =>
    match s.addrLock.p s.currentThread with
    | (addrLock, true) => { s with addrLock }.clearSpace t space
    | (addrLock, false) =>
      ({ s with addrLock }.setThread s.currentThread fun thread =>
        { thread with destroys := t :: thread.destroys }).sleep false

/-- `CheckToBeDestroyed`, and what follows it in `Run` or `Begin`. -/
def checkToBeDestroyed (s : State) : State :=
  match s.toBeDestroyed with
  | none => if s.destroys s.currentThread = [] then s.resume else { s with phase := .running }
  | some t => { s with deletes := Function.update s.deletes t (s.deletes t + 1) }.destroy t

/-- One round of `addrLock->P()` at the start of a section. -/
def acquire (s : State) (sec : Section) (timer : Bool) : State :=
  match s.addrLock.p s.currentThread with
  | (addrLock, true) =>
    ({ s with addrLock }.setActivity s.currentThread (.holding sec)).tick timer
  | (addrLock, false) => { s with addrLock }.sleep false

/-- `addrLock->V()` at the end of a section. -/
def release (s : State) (activity : Activity) (timer : Bool) : State :=
  let (addrLock, woken) := s.addrLock.v
  (({ s with addrLock }.wake woken).setActivity s.currentThread activity).tick timer

/-- The body of a section, and its `V`. -/
def work (s : State) (timer : Bool) : Section → State
  | .construct executable numPages =>
    match AddrSpace.allocPages s.kernel.gPhysPageBitMap 0 numPages with
    | .error f => s.stop (.fault f)
    | .ok (pageTable, gPhysPageBitMap) =>
      { s with kernel := { s.kernel with gPhysPageBitMap } }.release
        (.forking ⟨executable, pageTable⟩) timer
  | .load executable startAddr size virtualAddr stale =>
    match s.space s.currentThread with
    | none => s.stop (.fault .undefined)
    | some space =>
      match AddrSpace.loadIntoMemory executable startAddr size virtualAddr stale
          ⟨space, stale, s.kernel.mainMemory, []⟩ with
      | .error (f, _) => s.stop (.fault f)
      | .ok l =>
        ({ s with kernel := s.kernel.setMemory l.mem }.setThread s.currentThread fun thread =>
          { thread with space := some l.space }).release .user timer

/-- The end of the constructor, and `Fork` of a thread for the space. -/
def fork (s : State) (space : AddrSpace) (timer : Bool) : State :=
  let kernel := s.kernel.setMemory (AddrSpace.zeroPages space.pageTable s.kernel.mainMemory)
  let child := s.next
  let s := ({ s with kernel, next := child + 1 }.setThread child fun _ =>
    ⟨.created, [], some space, 0⟩).readyToRun child
  (s.setActivity s.currentThread .user).tick timer

/-- The end of the constructor, for a space that the thread itself runs in. -/
def execute (s : State) (space : AddrSpace) : State :=
  let kernel := s.kernel.setMemory (AddrSpace.zeroPages space.pageTable s.kernel.mainMemory)
  { s with kernel }.setThread s.currentThread fun thread =>
    { thread with activity := .user, space := some space }

end State

/-- What the environment decides: whether the timer is due, and what a thread does in its own code. -/
inductive Choice
  /-- the next lines of the code; `timer`: the timer is due when interrupts are enabled -/
  | go (timer : Bool)
  /-- the thread enters a section under `addrLock` -/
  | enter (sec : Section)
  /-- `P` on another semaphore, which blocks -/
  | wait
  /-- `V` on another semaphore, by a thread or an interrupt handler -/
  | wake (t : Tid)
  /-- the thread takes the space it has built for itself (`StartMainThread`) -/
  | execute
  | finish

namespace State

def wakeOther (s : State) (t : Tid) : Option State :=
  match s.activity t with
  | .elsewhere => some ((s.setActivity t .user).readyToRun t)
  | _ => none

/-- The loop of `Thread::Sleep`. With nobody ready it idles, until an interrupt wakes a thread. -/
def leaveSleep (s : State) (finishing : Bool) : Option State :=
  match s.readyList with
  | [] => none
  | nextThread :: readyList => some ({ s with readyList }.run nextThread finishing)

def goOn (s : State) (timer : Bool) : Option State :=
  match s.destroys s.currentThread with
  | t :: destroys =>
    some ((s.setThread s.currentThread fun thread => { thread with destroys }).destroy t)
  | [] =>
    match s.activity s.currentThread with
    | .acquiring sec => some (s.acquire sec timer)
    | .holding sec => some (s.work timer sec)
    | .forking space => some (s.fork space timer)
    | .user => some (s.tick timer)
    | .created | .elsewhere | .finished => none

def enterFrom (s : State) : Choice → Option State
  | .enter sec => some (s.setActivity s.currentThread (.acquiring sec))
  | .wait => some ((s.setActivity s.currentThread .elsewhere).sleep false)
  | .finish => some ((s.setActivity s.currentThread .finished).sleep true)
  | .go _ | .wake _ | .execute => none

def ownStep (s : State) (choice : Choice) : Option State :=
  match choice with
  | .go timer => s.goOn timer
  | .wake t => s.wakeOther t
  | .execute =>
    match s.destroys s.currentThread, s.activity s.currentThread with
    | [], .forking space => some (s.execute space)
    | _, _ => none
  | choice =>
    match s.destroys s.currentThread, s.activity s.currentThread with
    | [], .user => s.enterFrom choice
    | _, _ => none

end State

def step (s : State) (choice : Choice) : Option State :=
  if s.stopped.isSome then none
  else match s.phase with
  | .running => s.ownStep choice
  | .switched =>
    match choice with
    | .go _ => some s.checkToBeDestroyed
    | _ => none
  | .sleeping finishing =>
    match choice with
    | .go _ => s.leaveSleep finishing
    | .wake t => s.wakeOther t
    | _ => none

/-- The first thread, with the machine and the bitmap as they are. -/
def start (kernel : Kernel) : State where
  currentThread := 0
  phase := .running
  readyList := []
  toBeDestroyed := none
  addrLock := Semaphore.new 1
  kernel := kernel
  threads := fun _ => ⟨.user, [], none, 0⟩
  next := 1
  stopped := none
  deletes := 0
  clears := 0

end Nachos.Scheduler
