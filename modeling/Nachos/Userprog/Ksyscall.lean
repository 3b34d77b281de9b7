import Nachos.Base.Runs
import Nachos.Filesys.Streams

/-!
# The routines behind the file and socket calls (`userprog/ksyscall.h`)

The routines for files and sockets, the services the handlers of `ExceptionHandler` see
(`Services.withFiles`), and the descriptor table under any sequence of calls (`Files.step`).
-/

namespace Nachos

open Base Streams

/-- `exitWithError`: `SysPrintString` and `Halt`. -/
def exitWithErrorF {α : Type} (msg : String) : FilesM α := do
  let string := (msg.toList.map (BitVec.ofNat 8 ·.toNat) ++ [0])
  modify fun s => { s with console := s.console ++ string.take (strnlen string maxAllowedBufferSize) }
  throw .halted

def sysCreate (filename : CString) : FilesM Int := do
  match (← get).host.openForWrite filename with
  -- `ASSERT(fd >= 0)` in `OpenForWrite`
  | none => throw (.fault .assertion)
  | some host =>
    modify ({ · with host })
    return 0

def sysOpen (filename : CString) (mode : Int) : FilesM Int := do
  if (← isOpen filename) then return -1
  else if !(← get).hasFreeFileDescriptor then return -1
  -- `file_name` has no zero then
  else if maxFileNameLength ≤ filename.length then undefinedF
  else
    match (← get).host.openForReadWrite filename with
    | none => return -1
    | some file => addStream (.file (.new filename mode file))

def sysClose (id : Int) : FilesM Int := closeDescriptor (maxFileDescriptor + 1) id

def getChar : FilesM Byte := do
  match (← get).typed with
  | [] => throw .finished
  | c :: typed =>
    modify ({ · with typed })
    return c

/-- The loop of `consoleRead`, with `n` characters to go: the characters before the end of the string,
and whether the end was found. -/
def readTyped : Nat → FilesM (List Byte × Bool)
  | 0 => return ([], false)
  | n + 1 => do
    let c ← getChar
    -- `EOF`, zero and newline
    if c = 0xff ∨ c = 0 ∨ c = 10 then return ([], true)
    let (cs, ended) ← readTyped n
    return (c :: cs, ended)

def consoleRead (buffer : List Byte) (size : Int) : FilesM (Int × List Byte) := do
  let (cs, ended) ← readTyped size.toNat
  let buffer ← fillBuffer buffer (if ended then cs ++ [0] else cs)
  if cs.length > maxAllowedBufferSize then exitWithErrorF "String is too large"
  else return (cs.length, buffer)

/-- `SysRead`: the result and the buffer. -/
def sysRead (buffer : List Byte) (size fd : Int) : FilesM (Int × List Byte) := do
  if size > maxAllowedBufferSize then exitWithErrorF "Buffer size is too large"
  else if fd = 0 then consoleRead buffer size
  else
    match (← get).getStream fd with
    | none => return (-1, buffer)
    | some stream =>
      let (res, buffer, stream) ← stream.read buffer size
      modify (·.setStream fd.toNat (some stream))
      if res > maxAllowedBufferSize then exitWithErrorF "String is too large"
      else return (res, buffer)

def consoleWrite (buffer : List Byte) (size : Int) : FilesM Int := do
  let string := cString (buffer.take size.toNat)
  modify fun s => { s with console := s.console ++ string }
  return string.length

def sysWrite (buffer : List Byte) (size fd : Int) : FilesM Int := do
  if size > maxAllowedBufferSize then exitWithErrorF "Buffer size is too large"
  else if fd = 1 then consoleWrite buffer size
  else
    match (← get).getStream fd with
    | none => return -1
    | some stream =>
      if !stream.canWrite then return -1
      -- `buffer[size] = '\0'`
      else if size < 0 ∨ (buffer.length : Int) ≤ size then undefinedF
      else
        let (res, stream) ← stream.write (buffer.take size.toNat)
        modify (·.setStream fd.toNat (some stream))
        return res

/-- The position `SysSeek` seeks to: -1 stands for the end. -/
def Streams.Stream.seekTarget (stream : Stream) (pos : Int) : FilesM Int :=
  if pos = -1 then stream.length else return pos

def sysSeek (pos fd : Int) : FilesM Int := do
  if fd = 0 ∨ fd = 1 then exitWithErrorF "Cannot seek on STDIN or STDOUT"
  else
    match (← get).getStream fd with
    | none => return -1
    | some stream =>
      let pos ← stream.seekTarget pos
      let (_, stream) ← stream.seek pos
      modify (·.setStream fd.toNat (some stream))
      return pos

def sysRemove (filename : CString) : FilesM Int := do
  if (← isOpen filename) then return -1
  else
    match (← get).host.unlink filename with
    | none => return -1
    | some host =>
      modify ({ · with host })
      return 0

def sysSocketTCP : FilesM Int := do addStream (.socket ⟨none, ← newMemory maxFileNameLength⟩)

def sysConnect (fd : Int) (ip : CString) (port : Int) : FilesM Int := do
  match (← get).getStream fd with
  | none => return -1
  | some (.socket socket) =>
    let (res, socket) ← socket.connect ip port
    modify (·.setStream fd.toNat (some (.socket socket)))
    return res
  -- `Socket::connect` is not virtual: it writes over the fields of an object of another class
  | some _ => undefinedF

def sysSend (fd : Int) (buffer : List Byte) (len : Int) : FilesM Int := do
  if len > maxAllowedBufferSize then exitWithErrorF "Buffer size is too large"
  else
    match (← get).getStream fd with
    | none => return -1
    | some stream =>
      if len < 0 ∨ (buffer.length : Int) < len then undefinedF
      else
        let (res, stream) ← stream.write (buffer.take len.toNat)
        modify (·.setStream fd.toNat (some stream))
        return res

/-- `SysReceive`: the result and the buffer. -/
def sysReceive (socketID : Int) (buffer : List Byte) (size : Int) : FilesM (Int × List Byte) := do
  if size > maxAllowedBufferSize then exitWithErrorF "Buffer size is too large"
  else
    match (← get).getStream socketID with
    | none => return (-1, buffer)
    | some stream =>
      let (res, buffer, stream) ← stream.read buffer size
      modify (·.setStream socketID.toNat (some stream))
      return (res, buffer)

/-- `SysServerCreate`; a server has no list of clients before `listen`. -/
def sysServerCreate (_port : Int) : FilesM Int := do
  addStream (.serverSocket ⟨-1, ← newMemory maxFileNameLength, [], 0⟩)

def sysServerListen (ssID : Int) : FilesM Int := do
  match (← get).getStream ssID with
  | none => return -1
  | some (.serverSocket serverSocket) =>
    let (res, serverSocket) ← serverSocket.listen
    modify (·.setStream ssID.toNat (some (.serverSocket serverSocket)))
    return res
  -- `ServerSocket::listen` is not virtual
  | some _ => undefinedF

/-! ## The kernel of the handlers -/

/-- A routine of the streams: it does not give up the processor. -/
def FilesM.service {α β : Type} (x : FilesM α) (f : α → β) : Service Files β := fun k m =>
  match x.run k with
  | .ok a k => .ok (f a, k, m)
  | .error e _ => .error e

def toWord (n : Int) : Word := BitVec.ofInt 32 n

/-- The file and socket routines, in a kernel whose other routines are arbitrary. -/
def Services.withFiles (sys : Services Files) : Services Files :=
  { sys with
    sysCreate := fun name => (Nachos.sysCreate (cString name)).service toWord
    sysRemove := fun name => (Nachos.sysRemove (cString name)).service toWord
    sysOpen := fun name mode => (Nachos.sysOpen (cString name) mode.toInt).service toWord
    sysClose := fun fd => (Nachos.sysClose fd.toInt).service toWord
    sysRead := fun buffer size fd =>
      (Nachos.sysRead buffer size.toInt fd.toInt).service fun r => (toWord r.1, r.2)
    sysWrite := fun buffer size fd => (Nachos.sysWrite buffer size.toInt fd.toInt).service toWord
    sysSeek := fun pos fd => (Nachos.sysSeek pos.toInt fd.toInt).service toWord
    sysSocketTCP := Nachos.sysSocketTCP.service toWord
    sysConnect := fun fd ip port =>
      (Nachos.sysConnect fd.toInt (cString ip) port.toInt).service toWord
    sysSend := fun fd buffer len => (Nachos.sysSend fd.toInt buffer len.toInt).service toWord
    sysReceive := fun fd buffer size =>
      (Nachos.sysReceive fd.toInt buffer size.toInt).service fun r => (toWord r.1, r.2)
    sysServerCreate := fun port => (Nachos.sysServerCreate port.toInt).service toWord
    sysServerListen := fun fd => (Nachos.sysServerListen fd.toInt).service toWord }

/-! ## Sequences of calls -/

inductive FilesCall
  | create (filename : CString)
  | openFile (filename : CString) (mode : Int)
  | close (id : Int)
  | read (buffer : List Byte) (size fd : Int)
  | write (buffer : List Byte) (size fd : Int)
  | seek (pos fd : Int)
  | remove (filename : CString)
  | socketTCP
  | connect (fd : Int) (ip : CString) (port : Int)
  | send (fd : Int) (buffer : List Byte) (len : Int)
  | receive (socketID : Int) (buffer : List Byte) (size : Int)
  | serverCreate (port : Int)
  | serverListen (ssID : Int)

def FilesCall.run : FilesCall → FilesM Int
  | .create filename => sysCreate filename
  | .openFile filename mode => sysOpen filename mode
  | .close id => sysClose id
  | .read buffer size fd => do return (← sysRead buffer size fd).1
  | .write buffer size fd => sysWrite buffer size fd
  | .seek pos fd => sysSeek pos fd
  | .remove filename => sysRemove filename
  | .socketTCP => sysSocketTCP
  | .connect fd ip port => sysConnect fd ip port
  | .send fd buffer len => sysSend fd buffer len
  | .receive socketID buffer size => do return (← sysReceive socketID buffer size).1
  | .serverCreate port => sysServerCreate port
  | .serverListen ssID => sysServerListen ssID

namespace Files

def step (s : Files) (call : FilesCall) : Option Files :=
  match call.run.run s with
  | .ok _ s => some s
  | .error _ _ => none

/-- `FileDescriptorTable::FileDescriptorTable`, on any host. -/
def initial (host : Host) (answers : List Answer) (junk : List (List Byte)) (typed : List Byte) :
    Files := ⟨fun _ => none, host, answers, junk, typed, [], []⟩

def Reachable (s : Files) : Prop :=
  ∃ host answers junk typed,
    Runs step (fun _ _ => True) (initial host answers junk typed) s

end Files

end Nachos
