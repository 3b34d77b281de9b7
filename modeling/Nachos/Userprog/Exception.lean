import Nachos.Machine.MipsSim

/-!
# System calls (`userprog/exception.cc`, `userprog/ksyscall.h`)

`ExceptionHandler` with all its system calls. A handler reads its arguments from registers and user
memory, calls a routine of the kernel, writes the result to `r2` and steps over the instruction.

The routines themselves (`Services`) are parameters: they act on a kernel `κ` this file knows nothing
of, may let other threads run, and may not return. The null checks after `new` are left out: `new`
throws and never returns `NULL`.
-/

namespace Nachos

open Base

inductive HandlerStop
  | fault (f : Fault)
  /-- an exception of `new` that nothing catches -/
  | uncaught
  | halted
  /-- `Thread::Finish`, or a wait for something that does not come -/
  | finished
  | hangs
  deriving DecidableEq, Repr

structure KernelState (κ : Type) where
  machine : Machine
  kernel : κ

abbrev HandlerM (κ : Type) := EStateM HandlerStop (KernelState κ)

/-- A routine of the kernel: a value, with the kernel and the machine as they are left, or no
return. -/
abbrev Service (κ α : Type) := κ → Machine → Except HandlerStop (α × κ × Machine)

/-- The kernel as the handlers see it. `char*` arguments are the buffers they point to; a routine that
fills a buffer returns its new contents. -/
structure Services (κ : Type) where
  /-- whether `new` finds this many bytes -/
  fits : Nat → Bool
  /-- what is in a buffer fresh from `new` -/
  junk : Nat → Byte
  /-- `currentThread->getId()` -/
  getId : κ → Int
  /-- `pTab->GetPcb(id)` with its arguments -/
  getArgv : κ → Int → Option (List (List Byte))
  putString : List Byte → Nat → Service κ Unit
  sysCreate : List Byte → Service κ Word
  sysRemove : List Byte → Service κ Word
  sysOpen : List Byte → Word → Service κ Word
  sysClose : Word → Service κ Word
  sysRead : List Byte → Word → Word → Service κ (Word × List Byte)
  sysWrite : List Byte → Word → Word → Service κ Word
  sysSeek : Word → Word → Service κ Word
  sysSocketTCP : Service κ Word
  sysConnect : Word → List Byte → Word → Service κ Word
  sysSend : Word → List Byte → Word → Service κ Word
  sysReceive : Word → List Byte → Word → Service κ (Word × List Byte)
  sysServerCreate : Word → Service κ Word
  sysServerListen : Word → Service κ Word
  sysExec : List Byte → Service κ Word
  execVUpdate : Word → List (List Byte) → Service κ Word
  sysJoin : Word → Service κ Word
  /-- `ExitUpdate` ends in `Halt` or in `Finish`: there is nothing it returns -/
  sysExit : Word → Service κ Empty
  sysCreateSem : List Byte → Word → Service κ Word
  sysWait : List Byte → Service κ Word
  sysSignal : List Byte → Service κ Word

/-- What `Scheduler::Run` makes of the machine `m'` that other threads left, for a thread that was
switched out at `m`: `RestoreUserState` and `RestoreState`. -/
def Machine.restored (m m' : Machine) : Machine :=
  { m' with registers := m.registers, pageTable := m.pageTable, pageTableSize := m.pageTableSize }

variable {κ α : Type}

def onMachine (x : MachineM α) : HandlerM κ α := fun s =>
  match x s.machine with
  | .ok a m => .ok a { s with machine := m }
  | .error (.fault f) m => .error (.fault f) { s with machine := m }
  -- `ExceptionHandler` asserts false for every exception that an access can raise
  | .error (.raise _ _) m => .error (.fault .assertion) { s with machine := m }

/-- A call of a routine: if it gives up the processor, `Scheduler::Run` restores the machine. -/
def call (service : Service κ α) : HandlerM κ α := fun s =>
  match service s.kernel s.machine with
  | .ok (a, kernel, m) => .ok a ⟨s.machine.restored m, kernel⟩
  | .error e => .error e s

def assertK (condition : Prop) [Decidable condition] : HandlerM κ Unit :=
  if condition then pure () else throw (.fault .assertion)

def readReg (r : Fin 32) : HandlerM κ Word := onMachine (Machine.readRegister (gpr r))

def increasePC : HandlerM κ Unit := onMachine do
  Machine.writeRegister prevPCReg (← Machine.readRegister pcReg)
  Machine.writeRegister pcReg ((← Machine.readRegister pcReg) + 4)
  Machine.writeRegister nextPCReg ((← Machine.readRegister pcReg) + 4)

/-- The end of a handler: the result goes to `r2`. -/
def finish (res : Word) : HandlerM κ Word := do
  onMachine (Machine.writeRegister (gpr 2) res)
  increasePC
  return res

/-! ## Strings -/

def fileNameMaxLen : Word := 32
def semNameMaxLen : Word := 64
def maxStringLen : Word := 64
def maxAllowedBufferSize : Nat := 64

def strnlen (s : List Byte) (n : Nat) : Nat := (s.take n).findIdx (· == 0)

section Handlers

variable (cfg : Build) (sys : Services κ)

/-- `new T[n]` with elements of `width` bytes. -/
def newArray (n : Word) (width : Nat) : HandlerM κ Unit :=
  if 0 ≤ n.toInt ∧ sys.fits (n.toNat * width) then pure () else throw .uncaught

/-- The loop of `User2System`, with `n` characters to go. -/
def readChars : Word → Nat → HandlerM κ (List Byte)
  | _, 0 => return []
  | addr, n + 1 => do
    let oneChar ← onMachine (Machine.readMem cfg addr 1)
    if oneChar = 0 then return [0]
    return oneChar.truncate 8 :: (← readChars (addr + 1) n)

/-- `User2System`: a new buffer of `limit + 1` bytes. -/
def user2System (virtAddr limit : Word) : HandlerM κ (List Byte) := do
  newArray sys (limit + 1) 1
  -- `kernelBuf[limit] = '\0'` with `limit = -1`
  if limit + 1 = 0 then throw (.fault .undefined)
  let chars ← readChars cfg virtAddr limit.toNat
  return chars ++ List.replicate (limit.toNat + 1 - chars.length) 0

/-- The loop of `System2User`, with `n` characters to go. -/
def writeChars : Word → List Byte → Nat → HandlerM κ Nat
  | _, _, 0 => return 0
  -- behind the end of the buffer
  | _, [], _ + 1 => throw (.fault .undefined)
  | addr, c :: buffer, n + 1 => do
    onMachine (Machine.writeMem cfg addr 1 (c.signExtend 32))
    if c = 0 then return 1
    return (← writeChars (addr + 1) buffer n) + 1

def system2User (virtAddr len : Word) (buffer : List Byte) : HandlerM κ Word := do
  if len.toInt < 0 then return -1
  if len = 0 then return len
  return BitVec.ofNat 32 (← writeChars cfg virtAddr buffer len.toNat)

/-! ## Families of handlers -/

def wordCall (service : Word → Service κ Word) : HandlerM κ Word := do
  finish (← call (service (← readReg 4)))

def nameCall (limit : Word) (service : List Byte → Service κ Word) : HandlerM κ Word := do
  let virtAddr ← readReg 4
  let name ← user2System cfg sys virtAddr limit
  finish (← call (service name))

/-! ## Routines with a body of their own -/

def sysHalt : HandlerM κ α := throw .halted

def sysAdd (op1 op2 : Word) : Word := op1 + op2

def sysPrintString (string : List Byte) : HandlerM κ Word := do
  let size := strnlen string maxAllowedBufferSize
  call (sys.putString string size)
  return BitVec.ofNat 32 size

def exitWithError (msg : String) : HandlerM κ α := do
  let _ ← sysPrintString sys (msg.toList.map (BitVec.ofNat 8 ·.toNat) ++ [0])
  sysHalt

def sysDisconnect (_socketID : Word) : HandlerM κ Word := do
  exitWithError sys "Disconnect is not implemented"

def sysExecV (argc : Word) (argv : List (List Byte)) : HandlerM κ Word := do
  assertK (argc.toInt > 0)
  call (sys.execVUpdate argc argv)

/-! ## The handlers -/

def scHalt : HandlerM κ Word := sysHalt

def scCreate : HandlerM κ Word := nameCall cfg sys fileNameMaxLen sys.sysCreate

def scExec : HandlerM κ Word := nameCall cfg sys fileNameMaxLen sys.sysExec

/-- The only handler that leaves `r2` alone: it does not return. -/
def scExit : HandlerM κ Word := do
  let exitStatus ← readReg 4
  let never ← call (sys.sysExit exitStatus)
  nomatch never

def scJoin : HandlerM κ Word := wordCall sys.sysJoin

def scCreateSem : HandlerM κ Word := do
  let virtAddr ← readReg 4
  let permits ← readReg 5
  let semName ← user2System cfg sys virtAddr semNameMaxLen
  finish (← call (sys.sysCreateSem semName permits))

def scWaitSem : HandlerM κ Word := nameCall cfg sys semNameMaxLen sys.sysWait

def scSignalSem : HandlerM κ Word := nameCall cfg sys semNameMaxLen sys.sysSignal

/-- The loop of `SC_ExecV` that looks for the end of an argument. Without a zero in memory it has
read every address after `fuel = 2 ^ 32` rounds, and starts again. -/
def argLength : Nat → Word → HandlerM κ Nat
  | 0, _ => throw .hangs
  | fuel + 1, addr => do
    let value ← onMachine (Machine.readMem cfg addr 1)
    if (value.truncate 8 : Byte) = 0 then return 1
    return (← argLength fuel (addr + 1)) + 1

def addressCount : Nat := 2 ^ 32

/-- The loop of `SC_ExecV` over the arguments. -/
def readArgs : Word → Nat → HandlerM κ (List (List Byte))
  | _, 0 => return []
  | virtAddr, n + 1 => do
    let argAddr ← onMachine (Machine.readMem cfg virtAddr 4)
    let offset ← argLength cfg addressCount argAddr
    let arg ← user2System cfg sys argAddr (BitVec.ofNat 32 offset)
    return arg :: (← readArgs (virtAddr + 4) n)

def scExecV : HandlerM κ Word := do
  let argc ← readReg 4
  let virtAddr ← readReg 5
  newArray sys argc 4
  let argv ← readArgs cfg sys virtAddr argc.toNat
  finish (← sysExecV sys argc argv)

/-- The loop of `SC_GetArgvs` over the arguments behind the file name: each goes to the next slot of
`size` bytes of a buffer of `len` bytes. -/
def copyArgs (size len count : Nat) :
    List (List Byte) → Nat → (Nat → Byte) → Except Fault (Nat × (Nat → Byte))
  | [], result, temp => .ok (result, temp)
  | arg :: args, result, temp =>
    if result = count then .ok (result, temp)
    else
      let chars := arg.take (strnlen arg size)
      if chars ≠ [] ∧ len < result * size + chars.length then .error .undefined
      else copyArgs size len count args (result + 1) (writeBlock temp (result * size) chars)

/-- The loop of `SC_GetArgvs` that writes the buffer to user memory, from byte `i` on. -/
def writeArgs (virtAddr : Word) (temp : Nat → Byte) : Nat → Nat → HandlerM κ Unit
  | _, 0 => return
  | i, n + 1 => do
    onMachine (Machine.writeMem cfg (virtAddr + BitVec.ofNat 32 i) 1 ((temp i).signExtend 32))
    writeArgs virtAddr temp (i + 1) n

def scGetArgvs : HandlerM κ Word := do
  let count ← readReg 4
  let virtAddr ← readReg 5
  let size ← readReg 6
  assertK (count.toInt > 0)
  let kernel := (← get).kernel
  assertK (sys.getId kernel > -1)
  let some argv := sys.getArgv kernel (sys.getId kernel) | throw (.fault .undefined)
  newArray sys (size * count) 1
  let len := (size * count).toNat
  -- `memset(temp, 0, size)`
  if len < size.toNat then throw (.fault .undefined)
  let temp := writeBlock sys.junk 0 (List.replicate size.toNat 0)
  match copyArgs size.toNat len count.toNat argv.tail 0 temp with
  | .error f => throw (.fault f)
  | .ok (result, temp) =>
    -- a `do … while`: one byte is written even from an empty buffer
    writeArgs cfg virtAddr temp 0 (max len 1)
    finish (BitVec.ofNat 32 result)

def readOnlyMode : Word := 0
def readWriteMode : Word := 1

/-- A wrong mode returns at once, without `increasePC`. -/
def scOpen : HandlerM κ Word := do
  let virtAddr ← readReg 4
  let mode ← readReg 5
  let filename ← user2System cfg sys virtAddr fileNameMaxLen
  if mode ≠ readOnlyMode ∧ mode ≠ readWriteMode then
    onMachine (Machine.writeRegister (gpr 2) (-1))
    return -1
  finish (← call (sys.sysOpen filename mode))

def scClose : HandlerM κ Word := wordCall sys.sysClose

def scRead : HandlerM κ Word := do
  let virtAddr ← readReg 4
  let size ← readReg 5
  let fd ← readReg 6
  newArray sys (size + 1) 1
  let sysBuffer := List.replicate (size + 1).toNat 0
  let (readCount, sysBuffer) ← call (sys.sysRead sysBuffer size fd)
  let _ ← system2User cfg virtAddr size sysBuffer
  finish readCount

def scWrite : HandlerM κ Word := do
  let virtAddr ← readReg 4
  let size ← readReg 5
  let fd ← readReg 6
  let sysBuffer ← user2System cfg sys virtAddr size
  finish (← call (sys.sysWrite sysBuffer size fd))

def scSeek : HandlerM κ Word := do
  let pos ← readReg 4
  let fd ← readReg 5
  finish (← call (sys.sysSeek pos fd))

def scRemove : HandlerM κ Word := nameCall cfg sys fileNameMaxLen sys.sysRemove

def scSocketTCP : HandlerM κ Word := do finish (← call sys.sysSocketTCP)

def scConnect : HandlerM κ Word := do
  let socketID ← readReg 4
  let virtAddr ← readReg 5
  let port ← readReg 6
  let ip ← user2System cfg sys virtAddr fileNameMaxLen
  finish (← call (sys.sysConnect socketID ip port))

def scSend : HandlerM κ Word := do
  let socketID ← readReg 4
  let virtAddr ← readReg 5
  let size ← readReg 6
  let buffer ← user2System cfg sys virtAddr size
  finish (← call (sys.sysSend socketID buffer size))

def scReceive : HandlerM κ Word := do
  let socketID ← readReg 4
  let virtAddr ← readReg 5
  let size ← readReg 6
  let buffer ← user2System cfg sys virtAddr size
  let (res, buffer) ← call (sys.sysReceive socketID buffer size)
  let _ ← system2User cfg virtAddr res buffer
  finish res

def scAdd : HandlerM κ Word := do finish (sysAdd (← readReg 4) (← readReg 5))

def scDisconnect : HandlerM κ Word := do
  finish (← sysDisconnect sys (← readReg 4))

def scPrintStrn : HandlerM κ Word := do
  let virtAddr ← readReg 4
  let strn ← user2System cfg sys virtAddr maxStringLen
  finish (← sysPrintString sys strn)

def scServerCreate : HandlerM κ Word := wordCall sys.sysServerCreate

def scServerListen : HandlerM κ Word := wordCall sys.sysServerListen

/-! ## Dispatch -/

/-- The system calls of `ExceptionHandler`. -/
inductive Syscall
  | halt | exit | exec | join | create | remove | openFile | read | write | seek | close | execV
  | getArgvs | add | printStrn | socketTCP | connect | send | receive | disconnect | serverCreate
  | serverListen | createSem | waitSem | signalSem
  deriving DecidableEq, Repr

/-- The `SC_` codes of `userprog/syscall.h` that have a case in the handler. -/
def Syscall.ofType (type : Word) : Option Syscall :=
  match type.toNat with
  | 0 => some .halt
  | 1 => some .exit
  | 2 => some .exec
  | 3 => some .join
  | 4 => some .create
  | 5 => some .remove
  | 6 => some .openFile
  | 7 => some .read
  | 8 => some .write
  | 9 => some .seek
  | 10 => some .close
  | 13 => some .execV
  | 20 => some .getArgvs
  | 42 => some .add
  | 50 => some .printStrn
  | 60 => some .socketTCP
  | 61 => some .connect
  | 62 => some .send
  | 63 => some .receive
  | 64 => some .disconnect
  | 65 => some .serverCreate
  | 66 => some .serverListen
  | 69 => some .createSem
  | 70 => some .waitSem
  | 71 => some .signalSem
  | _ => none

def Syscall.handler : Syscall → HandlerM κ Word
  | .halt => scHalt
  | .exit => scExit sys
  | .exec => scExec cfg sys
  | .join => scJoin sys
  | .create => scCreate cfg sys
  | .remove => scRemove cfg sys
  | .openFile => scOpen cfg sys
  | .read => scRead cfg sys
  | .write => scWrite cfg sys
  | .seek => scSeek sys
  | .close => scClose sys
  | .execV => scExecV cfg sys
  | .getArgvs => scGetArgvs cfg sys
  | .add => scAdd
  | .printStrn => scPrintStrn cfg sys
  | .socketTCP => scSocketTCP sys
  | .connect => scConnect cfg sys
  | .send => scSend cfg sys
  | .receive => scReceive cfg sys
  | .disconnect => scDisconnect sys
  | .serverCreate => scServerCreate sys
  | .serverListen => scServerListen sys
  | .createSem => scCreateSem cfg sys
  | .waitSem => scWaitSem cfg sys
  | .signalSem => scSignalSem cfg sys

/-- `ExceptionHandler`: the result of the system call. Everything else ends in an assertion. -/
def exceptionHandler (which : ExceptionType) : HandlerM κ Word := do
  let type ← readReg 2
  match which with
  | .syscallException =>
    match Syscall.ofType type with
    | some syscall => syscall.handler cfg sys
    | none => throw (.fault .assertion)
  | _ => throw (.fault .assertion)

def raiseException (which : ExceptionType) (badVAddr : Word) : HandlerM κ Word := do
  onMachine (Machine.trap badVAddr)
  exceptionHandler cfg sys which

/-- `Machine::OneInstruction` with the kernel: the result of the system call, if the instruction is
one. -/
def userInstruction : HandlerM κ (Option Word) := fun s =>
  match Machine.oneInstruction cfg s.machine with
  | .ok _ m => .ok none { s with machine := m }
  | .error (.fault f) m => .error (.fault f) { s with machine := m }
  | .error (.raise which badVAddr) m =>
    (some <$> raiseException cfg sys which badVAddr) { s with machine := m }

end Handlers

end Nachos
