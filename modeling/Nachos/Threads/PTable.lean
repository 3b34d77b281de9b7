import Nachos.Base.Runs
import Nachos.Threads.Synch
import Nachos.Userprog.AddrSpace

/-!
# Processes (`threads/ptable.cc`, `threads/pcb.cc`)

The process table and the threads of the processes as a step function. A step of a thread is its code
up to the next operation that enables interrupts again (`P`, `V`, `Fork`), that operation included:
these are the places where another thread can run next, and any thread that is not asleep may.

The PCB and the thread of a process have one number, in the order in which the PCBs are made, and
numbers are not used again. What a deleted PCB holds stays there, so that a run goes on when a thread
uses one; `freedUse` records that it has happened. The number of a PCB's parent is its own record
too (`parent`): the code has only `parentID`, which may be given to another process later.
-/

namespace Nachos.PTable

open Base Function

/-- `MAX_PROCESS`, the size of the table. -/
def maxProcess : Nat := 10

/-- `MAX_ARG_NUM`, the length of `userArgs`. -/
def maxArgNum : Nat := 10

abbrev Name := List Byte

/-- An element of the array `pcb`, which the constructor does not initialise. -/
inductive Entry
  | null
  | wild
  | obj (p : Tid)
  deriving DecidableEq, Repr

inductive Sem
  | bmsem
  | addrLock
  | joinsem (p : Tid)
  | exitsem (p : Tid)
  | multex (p : Tid)
  | shouldExit (p : Tid)
  deriving DecidableEq, Repr

def Sem.owner : Sem → Option Tid
  | .bmsem | .addrLock => none
  | .joinsem p | .exitsem p | .multex p | .shouldExit p => some p

def Sem.initial : Sem → Semaphore Nat
  | .joinsem _ | .exitsem _ => .new 0
  | .bmsem | .addrLock | .multex _ | .shouldExit _ => .new 1

structure PCB where
  parentID : Int
  pID : Nat
  exitcode : Int
  numwait : Int
  /-- `userArgs` and its length `userArgc` -/
  userArgs : List Name
  /-- `PTable::Remove` has deleted it -/
  deleted : Bool
  /-- the process whose thread made it -/
  parent : Option Tid
  deriving DecidableEq, Repr

/-- `PCB::PCB(id)`, by thread `t` with the number `currentId`, and `SetArgvs`; `uninit` are the values of
`exitcode` and `numwait`. -/
def PCB.new (id : Nat) (t : Tid) (currentId : Nat) (uninit : Int × Int) (argv : List Name) : PCB where
  parentID := if id = 0 then -1 else currentId
  pID := id
  exitcode := uninit.1
  numwait := uninit.2
  userArgs := argv
  deleted := false
  parent := some t

/-! ## Where a thread is

Each place is named after what is behind the thread, and has the variables that are still used. -/

/-- In `ExecUpdate` or `ExecVUpdate`. -/
inductive ExecPc
  /-- `GetFreeSlot`, behind its `P` -/
  | finding
  | found (freeSlot : Int)
  /-- behind the second `bmsem->P()` -/
  | creating (freeSlot : Int)
  /-- behind `bmsem->V()`, with the new PCB in the table -/
  | created (aNewPcb : Tid) (freeSlot : Nat)
  /-- `IncNumWait` of the parent, behind `multex->P()` -/
  | incNumWait (parent aNewPcb : Tid) (freeSlot : Nat)
  /-- behind `shouldExit->P()` -/
  | firstChild (parent aNewPcb : Tid) (freeSlot : Nat)
  | counted (aNewPcb : Tid) (freeSlot : Nat)
  /-- `PCB::Exec`, behind `multex->P()` -/
  | opening (aNewPcb : Tid) (freeSlot : Nat)
  /-- the constructor of `AddrSpace`, behind `addrLock->P()` -/
  | allocating (aNewPcb : Tid) (freeSlot : Nat) (executable : OpenFile) (noffH : NoffHeader)
  | forking (aNewPcb : Tid) (freeSlot : Nat) (space : AddrSpace) (noffH : NoffHeader)
  | forked (aNewPcb : Tid) (freeSlot : Nat)
  deriving DecidableEq

inductive JoinPc
  /-- `IsExist`, behind its `P` -/
  | checking
  | checked (exist : Bool)
  | joined (childPcb : Tid)
  deriving DecidableEq

inductive ExitPc
  /-- `IsExist`, behind its `P` -/
  | checking
  | checked (exist : Bool)
  | joinReleased (curPcb : Tid) (parentID : Int)
  | exitReleased (curPcb : Tid) (parentID : Int)
  /-- `DecNumWait` of the parent, behind `multex->P()` -/
  | decNumWait (curPcb parent : Tid)
  /-- behind `shouldExit->V()` -/
  | lastChild (curPcb parent : Tid)
  | counted (curPcb parent : Tid)
  /-- `ExitWait` of the parent, behind `exitsem->P()` -/
  | accepted (curPcb parent : Tid)
  | waited (curPcb : Tid)
  | exited
  /-- `Remove`, behind its `P` -/
  | removing
  | removed
  deriving DecidableEq

inductive Place
  | unborn
  | user
  /-- `processCreator`, with this many calls of `LoadIntoMemory` to go -/
  | loading (segments : Nat)
  /-- `LoadIntoMemory`, behind its `P` -/
  | copying (segments : Nat)
  /-- without arguments in a call of `ExecUpdate` -/
  | exec (filename : Name) (argv : List Name) (pc : ExecPc)
  /-- `child`: what the table had at `pID` when `JoinUpdate` was called -/
  | join (pID : Int) (child : Entry) (pc : JoinPc)
  | exit (exitCode : Int) (pc : ExitPc)
  /-- behind `Thread::Finish` -/
  | finished (exitCode : Int)
  deriving DecidableEq

structure Thread where
  id : Nat
  place : Place
  /-- the thread is still in this `P`, asleep or woken, on its way to `place` -/
  waiting : Option Sem
  space : Option AddrSpace
  /-- what the last system call wrote to register 2 -/
  result : Int

inductive StopReason
  | halt
  | fault (f : Fault)
  deriving DecidableEq

structure State where
  pcb : Nat → Entry
  bm : Bitmap
  sems : Sem → Semaphore Nat
  pcbs : Tid → PCB
  threads : Tid → Thread
  /-- the next process to be created -/
  next : Tid
  gPhysPageBitMap : Bitmap
  toBeDestroyed : Option Tid
  files : Name → Option OpenFile
  /-- the memory `noffH` is declared in -/
  junk : Memory
  /-- `exitcode` and `numwait` as the constructor of a PCB finds them -/
  uninit : Tid → Int × Int
  /-- a thread has used a PCB after its deletion -/
  freedUse : Bool
  stopped : Option StopReason

namespace State

def stop (s : State) (reason : StopReason) : State := { s with stopped := some reason }

def setThread (s : State) (t : Tid) (f : Thread → Thread) : State :=
  { s with threads := update s.threads t (f (s.threads t)) }

def setPCB (s : State) (p : Tid) (f : PCB → PCB) : State :=
  { s with pcbs := update s.pcbs p (f (s.pcbs p)) }

def setSem (s : State) (sem : Sem) (semaphore : Semaphore Nat) : State :=
  { s with sems := update s.sems sem semaphore }

def use (s : State) (p : Option Tid) : State :=
  { s with freedUse := s.freedUse || p.any fun p => (s.pcbs p).deleted }

def goto (s : State) (t : Tid) (place : Place) : State :=
  s.setThread t fun thread => { thread with place, waiting := none }

/-- The thread is in `sem->P()`, behind which it goes on at `place`. -/
def enter (s : State) (t : Tid) (sem : Sem) (place : Place) : State :=
  s.setThread t fun thread => { thread with place, waiting := some sem }

/-- One round of the loop of `sem->P()`. -/
def round (s : State) (t : Tid) (sem : Sem) : State :=
  match (s.sems sem).p t with
  | (semaphore, true) =>
    ((s.use sem.owner).setSem sem semaphore).setThread t fun thread => { thread with waiting := none }
  | (semaphore, false) => (s.use sem.owner).setSem sem semaphore

/-- `sem->P()`, and then `place`. -/
def p (s : State) (t : Tid) (sem : Sem) (place : Place) : State := (s.enter t sem place).round t sem

/-- `sem->V()`, and then `place`. -/
def v (s : State) (t : Tid) (sem : Sem) (place : Place) : State :=
  ((s.use sem.owner).setSem sem (s.sems sem).v.1).goto t place

def writeResult (s : State) (t : Tid) (result : Int) : State :=
  s.setThread t fun thread => { thread with result }

/-- A new PCB in the table, made by thread `t`. -/
def newPCB (s : State) (t : Tid) (id : Nat) (argv : List Name) : State :=
  { s with
    next := s.next + 1
    pcb := update s.pcb id (.obj s.next)
    pcbs := update s.pcbs s.next (.new id t (s.threads t).id (s.uninit s.next) argv)
    sems := fun sem => if sem.owner = some s.next then sem.initial else s.sems sem }

def addNumwait (s : State) (p : Tid) (k : Int) : State :=
  s.setPCB p fun pcb => { pcb with numwait := pcb.numwait + k }

def setExitCode (s : State) (p : Tid) (exitCode : Int) : State :=
  s.setPCB p fun pcb => { pcb with exitcode := exitCode }

/-- `new Thread(tname, pid)` and `Fork`: the thread will load its program. -/
def fork (s : State) (p : Tid) (pid : Nat) (space : AddrSpace) (noffH : NoffHeader) : State :=
  let segments := (AddrSpace.loadedSegments noffH).countP fun seg => 0 < seg.size.toInt
  s.setThread p fun _ => ⟨pid, .loading segments, none, some space, 0⟩

/-- The element of `pcb` for an index that may be outside of it. -/
def entry (s : State) (pid : Int) : Entry :=
  if 0 ≤ pid ∧ pid < maxProcess then s.pcb pid.toNat else .null

def isExist (s : State) (pid : Int) : Bool := s.entry pid ≠ .null

/-! ## The code of a thread -/

def getFreeSlot (s : State) (t : Tid) (found : Int → Place) : State :=
  match s.bm.findAndSet with
  | .error f => s.stop (.fault f)
  | .ok (freeSlot, bm) => { s with bm }.v t .bmsem (found freeSlot)

/-- The body of the second section under `bmsem`. -/
def create (s : State) (t : Tid) (argv : List Name) (freeSlot : Int) (created : Tid → Nat → Place) :
    State :=
  if freeSlot = -1 then (s.v t .bmsem .user).writeResult t (-1)
  -- `SetArgvs` writes past the end of `userArgs`
  else if maxArgNum < argv.length then s.stop (.fault .undefined)
  else (s.newPCB t freeSlot.toNat argv).v t .bmsem (created s.next freeSlot.toNat)

/-- `parent->multex->P()` on an element of `pcb`. -/
def lockParent (s : State) (t : Tid) (parent : Entry) (locked : Tid → Place) : State :=
  match parent with
  | .obj parent => s.p t (.multex parent) (locked parent)
  | .null | .wild => s.stop (.fault .undefined)

/-- The end of `IncNumWait`. -/
def countChild (s : State) (t : Tid) (parent : Tid) (place : Place) : State :=
  (s.addNumwait parent 1).v t (.multex parent) place

/-- `PCB::Exec` up to the `P` in the constructor of `AddrSpace`. -/
def openExecutable (s : State) (t : Tid) (filename : Name)
    (allocating : OpenFile → NoffHeader → Place) : State :=
  match s.files filename with
  | none => s.stop (.fault .assertion)
  | some executable =>
    match readHeader buildLinux s.junk executable with
    | .error f => s.stop (.fault f)
    | .ok noffH => s.p t .addrLock (allocating executable noffH)

def allocate (s : State) (t : Tid) (executable : OpenFile) (noffH : NoffHeader)
    (forking : AddrSpace → Place) : State :=
  match AddrSpace.allocPages s.gPhysPageBitMap 0 (AddrSpace.pagesFor noffH) with
  | .error f => s.stop (.fault f)
  | .ok (pageTable, gPhysPageBitMap) =>
    { s with gPhysPageBitMap }.v t .addrLock (forking ⟨executable, pageTable⟩)

def execStep (s : State) (t : Tid) (filename : Name) (argv : List Name) : ExecPc → State
  | .finding => s.getFreeSlot t fun freeSlot => .exec filename argv (.found freeSlot)
  | .found freeSlot => s.p t .bmsem (.exec filename argv (.creating freeSlot))
  | .creating freeSlot => s.create t argv freeSlot fun p i => .exec filename argv (.created p i)
  | .created p i =>
    s.lockParent t (s.pcb (s.threads t).id) fun parent => .exec filename argv (.incNumWait parent p i)
  | .incNumWait parent p i =>
    if (s.pcbs parent).numwait = 0 then
      s.p t (.shouldExit parent) (.exec filename argv (.firstChild parent p i))
    else s.countChild t parent (.exec filename argv (.counted p i))
  | .firstChild parent p i => s.countChild t parent (.exec filename argv (.counted p i))
  | .counted p i => s.p t (.multex p) (.exec filename argv (.opening p i))
  | .opening p i =>
    s.openExecutable t filename fun executable noffH =>
      .exec filename argv (.allocating p i executable noffH)
  | .allocating p i executable noffH =>
    s.allocate t executable noffH fun space => .exec filename argv (.forking p i space noffH)
  | .forking p i space noffH =>
    -- the constructor of `Thread`
    if filename.length + 1 ≤ 32 then
      (s.fork p i space noffH).goto t (.exec filename argv (.forked p i))
    else s.stop (.fault .assertion)
  | .forked p i => (s.v t (.multex p) .user).writeResult t i

/-- `JoinWait` on an element of `pcb` that is asserted not to be null. -/
def joinWait (s : State) (t : Tid) (child : Entry) (joined : Tid → Place) : State :=
  match child with
  | .null => s.stop (.fault .assertion)
  | .wild => s.stop (.fault .undefined)
  | .obj childPcb => s.p t (.joinsem childPcb) (joined childPcb)

def joinStep (s : State) (t : Tid) (pID : Int) (child : Entry) : JoinPc → State
  | .checking => s.v t .bmsem (.join pID child (.checked (s.isExist pID)))
  | .checked exist =>
    if exist then s.joinWait t (s.entry pID) fun childPcb => .join pID child (.joined childPcb)
    else s.stop (.fault .assertion)
  | .joined childPcb =>
    ((s.use (some childPcb)).goto t .user).writeResult t (s.pcbs childPcb).exitcode

/-- `SetExitCode` and `JoinRelease` on an element of `pcb` that is asserted not to be null. -/
def joinRelease (s : State) (t : Tid) (exitCode : Int) (cur : Entry) : State :=
  match cur with
  | .null => s.stop (.fault .assertion)
  | .wild => s.stop (.fault .undefined)
  | .obj curPcb =>
    (s.setExitCode curPcb exitCode).v t (.joinsem curPcb)
      (.exit exitCode (.joinReleased curPcb (s.pcbs curPcb).parentID))

/-- `ExitUpdate` behind the wait for the parent. -/
def leave (s : State) (t : Tid) (exitCode : Int) (curPcb : Tid) : State :=
  if (s.threads t).id = 0 then s.stop .halt
  else s.p t (.shouldExit curPcb) (.exit exitCode .exited)

def remove (s : State) (t : Tid) (exitCode : Int) (pid : Nat) : State :=
  match s.bm.clear pid, s.pcb pid with
  | .error f, _ => s.stop (.fault f)
  | .ok _, .null => s.stop (.fault .assertion)
  | .ok _, .wild => s.stop (.fault .undefined)
  | .ok bm, .obj curPcb =>
    ({ s with bm, pcb := update s.pcb pid .null }.setPCB curPcb fun pcb =>
      { pcb with deleted := true }).v t .bmsem (.exit exitCode .removed)

def exitStep (s : State) (t : Tid) (exitCode : Int) : ExitPc → State
  | .checking => s.v t .bmsem (.exit exitCode (.checked (s.isExist (s.threads t).id)))
  | .checked exist =>
    if exist then s.joinRelease t exitCode (s.pcb (s.threads t).id)
    else s.stop (.fault .assertion)
  | .joinReleased curPcb parentID =>
    s.v t (.exitsem curPcb) (.exit exitCode (.exitReleased curPcb parentID))
  | .exitReleased curPcb parentID =>
    if parentID = -1 then s.leave t exitCode curPcb
    else s.lockParent t (s.pcb parentID.toNat) fun parent => .exit exitCode (.decNumWait curPcb parent)
  | .decNumWait curPcb parent =>
    if (s.pcbs parent).numwait + -1 = 0 then
      (s.addNumwait parent (-1)).v t (.shouldExit parent) (.exit exitCode (.lastChild curPcb parent))
    else (s.addNumwait parent (-1)).v t (.multex parent) (.exit exitCode (.counted curPcb parent))
  | .lastChild curPcb parent => s.v t (.multex parent) (.exit exitCode (.counted curPcb parent))
  | .counted curPcb parent => s.p t (.exitsem parent) (.exit exitCode (.accepted curPcb parent))
  | .accepted curPcb parent => s.v t (.exitsem parent) (.exit exitCode (.waited curPcb))
  | .waited curPcb => s.leave t exitCode curPcb
  | .exited => s.p t .bmsem (.exit exitCode .removing)
  | .removing => s.remove t exitCode (s.threads t).id
  | .removed => { s.goto t (.finished exitCode) with toBeDestroyed := some t }

def run (s : State) (t : Tid) : Place → Option State
  | .unborn | .user | .finished _ => none
  | .loading 0 => some (s.goto t .user)
  | .loading (segments + 1) => some (s.p t .addrLock (.copying segments))
  | .copying segments => some (s.v t .addrLock (.loading segments))
  | .exec filename argv pc => some (s.execStep t filename argv pc)
  | .join pID child pc => some (s.joinStep t pID child pc)
  | .exit exitCode pc => some (s.exitStep t exitCode pc)

def go (s : State) (t : Tid) : Option State :=
  match (s.threads t).waiting with
  | some sem => if t ∈ (s.sems sem).queue then none else some (s.round t sem)
  | none => s.run t (s.threads t).place

end State

/-- The system calls `SC_Exec`, `SC_ExecV`, `SC_Join` and `SC_Exit`. -/
inductive Call
  | exec (filename : Name)
  | execV (argv : List Name)
  | join (pID : Int)
  | exit (exitCode : Int)
  deriving DecidableEq

namespace State

/-- A system call. The first thing each of them does is `bmsem->P()`. -/
def call (s : State) (t : Tid) (c : Call) : Option State :=
  match (s.threads t).place with
  | .user =>
    match c with
    | .exec filename => some (s.enter t .bmsem (.exec filename [] .finding))
    -- `ASSERT(argc>0)` in `SysExecV`
    | .execV [] => some (s.stop (.fault .assertion))
    | .execV (filename :: argv) =>
      some (s.enter t .bmsem (.exec filename (filename :: argv) .finding))
    | .join pID => some (s.enter t .bmsem (.join pID (s.entry pID) .checking))
    | .exit exitCode => some (s.enter t .bmsem (.exit exitCode .checking))
  | _ => none

/-- `CheckToBeDestroyed`, by the next thread that runs. When `addrLock` is taken, that thread sleeps in
the destructor and so does every other (`Nachos.Threads.Scheduler`): nothing happens any more. -/
def destroy (s : State) (t : Tid) : Option State :=
  if (s.sems .addrLock).value = 0 then none
  else
    match (s.threads t).space with
    | none => some { s with toBeDestroyed := none }
    | some space =>
      match space.clearPages s.gPhysPageBitMap with
      | .error f => some (s.stop (.fault f))
      | .ok gPhysPageBitMap => some { s with gPhysPageBitMap, toBeDestroyed := none }

end State

inductive Choice
  | call (t : Tid) (c : Call)
  | go (t : Tid)
  | destroy
  /-- what other parts of the system may change -/
  | outside (files : Name → Option OpenFile) (junk : Memory)

def step (s : State) (choice : Choice) : Option State :=
  if s.stopped.isSome then none
  else
    match s.toBeDestroyed, choice with
    | some t, .destroy => s.destroy t
    | none, .call t c => s.call t c
    | none, .go t => s.go t
    | none, .outside files junk => some { s with files, junk }
    | _, _ => none

/-- What the kernel finds when it starts: the files, and the values of what nobody initialises. -/
structure Env where
  files : Name → Option OpenFile
  junk : Memory
  uninit : Tid → Int × Int
  wild : Nat → Bool

/-- The kernel with the PCB of the main thread in the table. -/
def initial (env : Env) (bm gPhysPageBitMap : Bitmap) : State where
  pcb i := if i = 0 then .obj 0 else if env.wild i then .wild else .null
  bm := bm
  sems := Sem.initial
  pcbs _ := ⟨-1, 0, (env.uninit 0).1, (env.uninit 0).2, [], false, none⟩
  threads _ := ⟨0, .unborn, none, none, 0⟩
  next := 1
  gPhysPageBitMap := gPhysPageBitMap
  toBeDestroyed := none
  files := env.files
  junk := env.junk
  uninit := env.uninit
  freedUse := false
  stopped := none

/-- `PTable::StartMainThread` on an empty table and memory, up to `Load`. -/
def startMainThread (env : Env) (filename : Name) : Except Fault State := do
  let bm ← Bitmap.new maxProcess
  let gPhysPageBitMap ← Bitmap.new numPhysPages
  match env.files filename with
  | none => .error .assertion
  | some executable =>
    let noffH ← readHeader buildLinux env.junk executable
    let (pageTable, gPhysPageBitMap) ←
      AddrSpace.allocPages gPhysPageBitMap 0 (AddrSpace.pagesFor noffH)
    let bm ← bm.mark 0
    return (initial env bm gPhysPageBitMap).fork 0 0 ⟨executable, pageTable⟩ noffH

end Nachos.PTable
