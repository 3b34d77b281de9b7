import Nachos.Userprog.Exception

/-!
# Streams and the descriptor table (`filesys/`, `network/`)

Files, client sockets and server sockets behind one interface, and the table of the open ones. The
files of the host are a directory and the contents of each file; what the host answers to the socket
calls is a list the environment has fixed (`answers`), taken in the order of the calls. When it is used
up a call does not return.

Objects are values of the table, which is the only place that has a pointer to them. A method called
through a pointer of the wrong class is undefined, unless it is virtual.
-/

namespace Nachos

open Base Function

abbrev CString := List Byte

def maxFileNameLength : Nat := 32
def maxFileDescriptor : Nat := 20
def maxClients : Nat := 30

def cString (array : List Byte) : CString := array.takeWhile (· ≠ 0)

/-- `strncpy` into an array of `n` characters. -/
def strncpy (src : CString) (n : Nat) : List Byte := src.take n ++ List.replicate (n - src.length) 0

/-- `toupper` of the host's library in the "C" locale. Bytes that are no letters are left, also those
above 127, which are negative as a `char`. -/
def toupper (c : Byte) : Byte := if 97 ≤ c ∧ c ≤ 122 then c - 32 else c

/-- `strcmp(array, name) == 0`. Without a zero in it, the array is left when all of it agrees. -/
def strcmpEq (array : List Byte) (name : CString) : Except Fault Bool :=
  if 0 ∈ array then .ok (decide (cString array = name))
  else if array <+: name then .error .undefined
  else .ok false

/-! ## The host -/

structure Host where
  dir : CString → Option Nat
  contents : Nat → List Byte
  /-- the number of the next new file -/
  next : Nat
  /-- the names it lets be opened, created and removed -/
  permits : CString → Bool

namespace Host

/-- `OpenForWrite`, which creates or truncates; `none` when the host refuses. -/
def openForWrite (host : Host) (name : CString) : Option Host :=
  if host.permits name then
    match host.dir name with
    | some file => some { host with contents := update host.contents file [] }
    | none => some { host with
        dir := update host.dir name (some host.next)
        contents := update host.contents host.next []
        next := host.next + 1 }
  else none

def openForReadWrite (host : Host) (name : CString) : Option Nat :=
  if host.permits name then host.dir name else none

/-- `Unlink`; `none` when the host refuses. -/
def unlink (host : Host) (name : CString) : Option Host :=
  if host.permits name ∧ (host.dir name).isSome then
    some { host with dir := update host.dir name none }
  else none

end Host

structure Answer where
  value : Int
  bytes : List Byte
  /-- the descriptors `select` leaves in its set -/
  ready : Int → Bool

/-! ## Objects -/

namespace Streams

/-- `OpenFile` on a file of the host. -/
structure OpenFile where
  file : Nat
  currentOffset : Int

/-- `DyOpenFile`, with its file open. -/
structure DyOpenFile where
  fileName : List Byte
  openfile : OpenFile
  readPos : Int
  writePos : Int
  openMode : Int

structure Socket where
  /-- not set by the constructor -/
  socketFd : Option Int
  ipAddress : List Byte

structure ServerSocket where
  ssFd : Int
  ipAddress : List Byte
  clientOpenfileID : List Int
  errorCode : Int

inductive Stream
  | file (f : DyOpenFile)
  | socket (s : Socket)
  | serverSocket (s : ServerSocket)

end Streams

open Streams

structure Files where
  fdt : Nat → Option Stream
  host : Host
  answers : List Answer
  /-- what is in the memory of the next objects -/
  junk : List (List Byte)
  /-- the characters that will be typed -/
  typed : List Byte
  /-- the characters that have been printed -/
  console : List Byte
  /-- what has been written to sockets, and to which -/
  sent : List (Int × List Byte)

abbrev FilesM := EStateM HandlerStop Files

/-- `ASSERT` in the code of the streams. -/
def assertF (condition : Prop) [Decidable condition] : FilesM Unit :=
  if condition then pure () else throw (.fault .assertion)

def undefinedF {α : Type} : FilesM α := throw (.fault .undefined)

def answer : FilesM Answer := do
  match (← get).answers with
  | [] => throw .finished
  | a :: answers =>
    modify ({ · with answers })
    return a

/-- `new char[n]` inside a new object. -/
def newMemory (n : Nat) : FilesM (List Byte) := do
  let junk := (← get).junk
  modify fun s => { s with junk := junk.tail }
  return (junk.headD [] ++ List.replicate n 0).take n

/-- The buffer after `data` has been written to its start. -/
def fillBuffer (buffer data : List Byte) : FilesM (List Byte) :=
  if buffer.length < data.length then undefinedF else return data ++ buffer.drop data.length

namespace Streams

/-! ## Files -/

namespace OpenFile

def readAt (f : OpenFile) (numBytes position : Int) : FilesM (List Byte) := do
  assertF (0 ≤ position)
  if numBytes < 0 then undefinedF
  else return (((← get).host.contents f.file).drop position.toNat).take numBytes.toNat

def writeAt (f : OpenFile) (data : List Byte) (position : Int) : FilesM Int := do
  assertF (0 ≤ position)
  modify fun s =>
    let contents := overwrite 0 (s.host.contents f.file) position.toNat data
    { s with host.contents := update s.host.contents f.file contents }
  return data.length

def length (f : OpenFile) : FilesM Int := do return ((← get).host.contents f.file).length

def seek (f : OpenFile) (position : Int) : FilesM (Int × OpenFile) := do
  if position < 0 then return (-1, f)
  if position > (← f.length) then return (-1, f)
  return (position, { f with currentOffset := position })

end OpenFile

namespace DyOpenFile

/-- The constructor and `open`, on the file that was found. -/
def new (name : CString) (mode : Int) (file : Nat) : DyOpenFile where
  fileName := strncpy name maxFileNameLength
  openfile := ⟨file, 0⟩
  readPos := 0
  writePos := 0
  openMode := mode

def read (f : DyOpenFile) (buffer : List Byte) (size : Int) :
    FilesM (Int × List Byte × DyOpenFile) := do
  let data ← f.openfile.readAt size f.readPos
  let buffer ← fillBuffer buffer data
  return (data.length, buffer, { f with readPos := f.readPos + data.length })

def write (f : DyOpenFile) (data : List Byte) : FilesM (Int × DyOpenFile) := do
  if f.openMode = 0 then return (-1, f)
  let writeSize ← f.openfile.writeAt data f.writePos
  return (writeSize, { f with writePos := f.writePos + writeSize })

def seek (f : DyOpenFile) (pos : Int) : FilesM (Int × DyOpenFile) := do
  let (res, openfile) ← f.openfile.seek pos
  if res = -1 then return (-1, { f with openfile })
  return (pos, { f with openfile, readPos := pos })

end DyOpenFile

/-! ## Sockets -/

namespace Socket

/-- `socket_fd`, where it is used. -/
def fd (s : Socket) : FilesM Int :=
  match s.socketFd with
  | some fd => return fd
  | none => undefinedF

def read (s : Socket) (buffer : List Byte) (size : Int) : FilesM (Int × List Byte) := do
  discard s.fd
  if size < 0 then undefinedF
  else
    let a ← answer
    if a.value < 0 then return (-1, buffer)
    else
      let data := a.bytes.take size.toNat
      return (data.length, ← fillBuffer buffer data)

def write (s : Socket) (data : List Byte) : FilesM Int := do
  let fd ← s.fd
  modify fun s => { s with sent := s.sent ++ [(fd, data)] }
  return (← answer).value

/-- `Socket::connect`; whether `ip` is an address is an answer of the host too. -/
def connect (_s : Socket) (ip : CString) (_port : Int) : FilesM (Int × Socket) := do
  let socketFd := (← answer).value
  let s : Socket := ⟨some socketFd, strncpy ip maxFileNameLength⟩
  if socketFd < 0 then return (-1, s)
  if (← answer).value ≤ 0 then return (-1, s)
  if (← answer).value < 0 then return (-1, s)
  return (socketFd, s)

def delete (s : Socket) : FilesM Unit := do
  if (← s.fd) = -1 then return
  discard answer

end Socket

/-! ## The interface -/

namespace Stream

def read (stream : Stream) (buffer : List Byte) (size : Int) : FilesM (Int × List Byte × Stream) :=
  match stream with
  | .file f => do
    let (res, buffer, f) ← f.read buffer size
    return (res, buffer, .file f)
  | .socket s => do
    let (res, buffer) ← s.read buffer size
    return (res, buffer, .socket s)
  | .serverSocket s => return (-1, buffer, .serverSocket s)

def write (stream : Stream) (data : List Byte) : FilesM (Int × Stream) :=
  match stream with
  | .file f => do
    let (res, f) ← f.write data
    return (res, .file f)
  | .socket s => do return (← s.write data, .socket s)
  | .serverSocket s => return (-1, .serverSocket s)

def seek (stream : Stream) (pos : Int) : FilesM (Int × Stream) :=
  match stream with
  | .file f => do
    let (res, f) ← f.seek pos
    return (res, .file f)
  | .socket s => return (-1, .socket s)
  | .serverSocket s => return (-1, .serverSocket s)

def length : Stream → FilesM Int
  | .file f => f.openfile.length
  | .socket _ | .serverSocket _ => return -1

def canWrite : Stream → Bool
  | .file f => f.openMode = 1
  | .socket _ => true
  | .serverSocket _ => false

/-- `getName(buffer, MAX_FILE_NAME_LENGTH)`: the array `buffer`. -/
def getName : Stream → List Byte
  | .file f => strncpy (cString f.fileName) maxFileNameLength
  | .socket s => strncpy (cString s.ipAddress) maxFileNameLength
  | .serverSocket s => strncpy (cString s.ipAddress) maxFileNameLength

end Stream

end Streams

/-! ## The descriptor table -/

/-- The descriptors the table gives out: 0 and 1 are reserved. -/
def descriptors : List Nat := List.range' 2 (maxFileDescriptor - 2)

namespace Files

def setStream (s : Files) (fd : Nat) (stream : Option Stream) : Files :=
  { s with fdt := update s.fdt fd stream }

@[simp] theorem fdt_setStream (s : Files) (fd : Nat) (stream : Option Stream) :
    (s.setStream fd stream).fdt = update s.fdt fd stream := rfl
@[simp] theorem host_setStream (s : Files) (fd : Nat) (stream : Option Stream) :
    (s.setStream fd stream).host = s.host := rfl

def getStream (s : Files) (fd : Int) : Option Stream :=
  if fd < 0 ∨ fd ≥ maxFileDescriptor ∨ fd = 0 ∨ fd = 1 then none else s.fdt fd.toNat

def getFreeFileDescriptor (s : Files) : Option Nat := descriptors.find? fun fd => (s.fdt fd).isNone

def hasFreeFileDescriptor (s : Files) : Bool := s.getFreeFileDescriptor.isSome

/-- The loop of `isOpen(name)`. -/
def isOpenIn (s : Files) (name : CString) : List Nat → Except Fault Bool
  | [] => .ok false
  | fd :: fds =>
    match s.fdt fd with
    | none => s.isOpenIn name fds
    | some stream => do
      if (← strcmpEq stream.getName name) then return true
      s.isOpenIn name fds

def isOpen (s : Files) (name : CString) : Except Fault Bool := s.isOpenIn name descriptors

end Files

def isOpen (name : CString) : FilesM Bool := do
  match (← get).isOpen name with
  | .ok res => return res
  | .error f => throw (.fault f)

def addStream (stream : Stream) : FilesM Int := do
  match (← get).getFreeFileDescriptor with
  | none => return -1
  | some fd =>
    modify (·.setStream fd (some stream))
    return fd

/-- `delete` on a stream; `close` is what a server socket does to the descriptors of its clients. -/
def deleteStream (close : Int → FilesM Int) : Stream → FilesM Unit
  | .file _ => return
  | .socket s => s.delete
  | .serverSocket s => do
    if s.ssFd = -1 then return
    s.clientOpenfileID.forM fun id => if id = -1 then return else discard (close id)
    discard answer

/-- `FileDescriptorTable::close`, with at most `depth` objects under deletion: with more than there are
descriptors, one is deleted twice. -/
def closeDescriptor : Nat → Int → FilesM Int
  | 0, _ => undefinedF
  | depth + 1, fd => do
    match (← get).getStream fd with
    | none => return -1
    | some stream =>
      deleteStream (closeDescriptor depth) stream
      modify (·.setStream fd.toNat none)
      return 0

/-! ## The server -/

/-- The client socket behind a descriptor, as the server recovers it. -/
def clientOf (id : Int) : FilesM Socket := do
  match (← get).getStream id with
  | some (.socket client) => return client
  | _ => undefinedF

namespace Streams.ServerSocket

def init (ss : ServerSocket) : FilesM (Int × ServerSocket) := do
  let ss := { ss with clientOpenfileID := List.replicate maxClients (-1) }
  let ss := { ss with ssFd := (← answer).value }
  if ss.ssFd = 0 then return (-1, { ss with errorCode := -1 })
  if (← answer).value < 0 then return (-2, { ss with errorCode := -2 })
  if (← answer).value < 0 then return (-3, { ss with errorCode := -3 })
  if (← answer).value < 0 then return (-4, { ss with errorCode := -4 })
  return (0, ss)

def handleClientNewConnection (ss : ServerSocket) (newSocket : Int) : FilesM ServerSocket := do
  match ss.clientOpenfileID.findIdx? (· < 0) with
  | none => return ss
  | some i =>
    let client : Socket := ⟨some newSocket, ← newMemory maxFileNameLength⟩
    let addRes ← addStream (.socket client)
    if addRes < 0 then
      client.delete
      return ss
    return { ss with clientOpenfileID := ss.clientOpenfileID.set i addRes }

def handleClientCommingMessage (ss : ServerSocket) (index : Nat) (id : Int) : FilesM ServerSocket := do
  let client ← clientOf id
  let (valread, buffer) ← client.read (List.replicate maxAllowedBufferSize 0) maxAllowedBufferSize
  if valread = 0 then
    discard (closeDescriptor (maxFileDescriptor + 1) id)
    return { ss with clientOpenfileID := ss.clientOpenfileID.set index (-1) }
  -- `printf` of a buffer without a zero
  else if 0 ∉ buffer then undefinedF
  else
    let buffer := (buffer.take valread.toNat).map toupper ++ buffer.drop valread.toNat
    -- `strlen`
    if 0 ∉ buffer then undefinedF
    else
      discard (client.write (cString buffer))
      return ss

/-- The loop of `listen` over the clients with input. -/
def serveClients (ready : Int → Bool) (ss : ServerSocket) : List Nat → FilesM ServerSocket
  | [] => return ss
  | i :: rest => do
    let id := ss.clientOpenfileID.getD i (-1)
    if id = -1 then serveClients ready ss rest
    else
      let sd ← (← clientOf id).fd
      if ready sd then serveClients ready (← ss.handleClientCommingMessage i id) rest
      else serveClients ready ss rest

/-- The descriptor of the host that `listen` adds to its set for a client. -/
def watchClient (id : Int) : FilesM Unit :=
  if id = -1 then return else do discard (← clientOf id).fd

/-- The part of `listen` for a new connection: the server, or its error. -/
def acceptClient (ready : Int → Bool) (ss : ServerSocket) : FilesM (Except Int ServerSocket) := do
  if ready ss.ssFd then
    let newSocket := (← answer).value
    if newSocket < 0 then return .error (-5)
    return .ok (← ss.handleClientNewConnection newSocket)
  else return .ok ss

/-- One round of the loop of `listen`. -/
def listenRound (ss : ServerSocket) : FilesM (Except Int ServerSocket) := do
  ss.clientOpenfileID.forM watchClient
  let select ← answer
  match (← acceptClient select.ready ss) with
  | .error e => return .error e
  | .ok ss => return .ok (← serveClients select.ready ss (List.range maxClients))

/-- The loop of `listen`; each round takes an answer. -/
def listenLoop (ss : ServerSocket) : Nat → FilesM (Int × ServerSocket)
  | 0 => throw .finished
  | rounds + 1 => do
    match (← ss.listenRound) with
    | .error e => return (e, { ss with errorCode := e })
    | .ok ss => listenLoop ss rounds

def listen (ss : ServerSocket) : FilesM (Int × ServerSocket) := do
  let (res, ss) ← ss.init
  if res < 0 then return (ss.errorCode, ss)
  listenLoop ss ((← get).answers.length + 1)

end Streams.ServerSocket

end Nachos
