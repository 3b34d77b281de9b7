import Nachos.Network.Post
import Nachos.Threads.SynchList

/-!
# The post office of a host (`network/post.cc`)

The network's interrupt reads packets from the socket, the postal worker takes them out of the inbox and
puts them into the mailboxes, and any number of threads receive. A mailbox is a `SynchList` of addresses
of `Mail`; the addresses are numbered. Kernel code is interrupted, and another thread runs, between any
two steps here; in the code that is so only where interrupts are enabled.
-/

namespace Nachos.PostOffice

open Base

/-- What does not change: the host, and what the memory of each new `Mail` has before. -/
structure Host where
  cfg : Build
  hostName : Word
  numBoxes : Nat
  memory : Nat → Vector Byte maxMailSize

/-- The thread that `PostOfficeInput` forks. -/
def postalWorker : Tid := 0

/-- Where the postal worker is in the loop of `PostalDelivery`. -/
inductive Work
  /-- in `messageAvailable->P()`, at the head of its loop -/
  | p
  | receive
  /-- behind `network->Receive(buffer)` -/
  | received (pktHdr : Header)
  /-- in the `Append` of `boxes[mailHdr.to].Put` -/
  | put (box : Nat)
  deriving DecidableEq

/-- Where another thread is; `data` is the buffer that it gave to `Receive`. -/
inductive Place
  | outside
  /-- in the `RemoveFront` of `boxes[box].Get` -/
  | get (box : Nat) (data : List Byte)
  | got (box : Nat) (data : List Byte) (mail : Nat)
  deriving DecidableEq

/-- A call of `Receive` that has returned. -/
structure Receipt where
  thread : Tid
  box : Nat
  address : Nat
  mail : Mail

structure State where
  socket : List (List Byte)
  network : NetworkInput
  messageAvailable : Semaphore Nat
  work : Work
  buffer : List Byte
  /-- the `Mail` objects, by address -/
  mails : List Mail
  boxes : Nat → SynchList.State Nat
  place : Tid → Place
  stopped : Option Fault
  /-- the packets that were read from the socket -/
  read : List (List Byte)
  /-- the packets that the postal worker has copied out of the inbox -/
  copied : List (Header × List Byte)
  receipts : List Receipt

namespace State

/-- `NetworkInput::CallBack`, and `PostOfficeInput::CallBack` when a packet was read. -/
def poll (host : Host) (s : State) : Except Fault State := do
  let (network, available) ← s.network.callBack host.cfg host.hostName s.socket.head?
  if available then
    return { s with
      network
      socket := s.socket.tail
      read := s.read ++ s.socket.head?.toList
      messageAvailable := s.messageAvailable.v.1 }
  else return { s with network }

def inBox (s : State) (box : Nat) (choice : SynchList.Choice Nat) : Option State :=
  (SynchList.step (s.boxes box) choice).map fun messages =>
    { s with
      boxes := Function.update s.boxes box messages
      stopped := messages.stopped.map fun _ => .assertion }

def postalDelivery (host : Host) (s : State) : Option (Except Fault State) :=
  match s.work with
  | .p =>
    if postalWorker ∈ s.messageAvailable.queue then none
    else
      match s.messageAvailable.p postalWorker with
      | (messageAvailable, true) => some (.ok { s with messageAvailable, work := .receive })
      | (messageAvailable, false) => some (.ok { s with messageAvailable })
  | .receive => some do
    let (pktHdr, buffer, network) ← s.network.receive s.buffer
    return { s with
      network
      buffer
      work := .received pktHdr
      copied := s.copied ++ [(pktHdr, buffer.take pktHdr.length.toNat)] }
  | .received pktHdr =>
    match PostOfficeInput.postalDelivery host.cfg host.numBoxes pktHdr s.buffer
      (host.memory s.mails.length).toList with
    | .error fault => some (.error fault)
    | .ok (box, mail) =>
      (({ s with mails := s.mails ++ [mail], work := .put box } : State).inBox box
        (.append postalWorker s.mails.length)).map .ok
  | .put box =>
    (s.inBox box (.go postalWorker)).map fun s =>
      .ok (if ((s.boxes box).code postalWorker).isEmpty then { s with work := .p } else s)

def setPlace (s : State) (t : Tid) (place : Place) : State :=
  { s with place := Function.update s.place t place }

/-- `PostOfficeInput::Receive` up to the `RemoveFront` of `Get`. -/
def receive (host : Host) (s : State) (t : Tid) (box : Int) (data : List Byte) :
    Option (Except Fault State) :=
  if t = postalWorker ∨ s.place t ≠ .outside then none
  else if 0 ≤ box ∧ box < host.numBoxes then
    ((s.setPlace t (.get box.toNat data)).inBox box.toNat (.removeFront t)).map .ok
  else some (.error .assertion)

def finish (s : State) (t : Tid) (box : Nat) (data : List Byte) (address : Nat) : Except Fault State :=
  match s.mails[address]? with
  | none => .error .undefined
  | some mail => do
    let mail ← mail.get data
    assert (mail.mailHdr.length.toNat ≤ maxMailSize)
    return { s.setPlace t .outside with receipts := s.receipts ++ [⟨t, box, address, mail⟩] }

def go (s : State) (t : Tid) : Option (Except Fault State) :=
  match s.place t with
  | .outside => none
  | .get box data =>
    match (s.boxes box).code t with
    | [.returned address] => ((s.setPlace t (.got box data address)).inBox box (.go t)).map .ok
    | _ => (s.inBox box (.go t)).map .ok
  | .got box data address => some (s.finish t box data address)

end State

inductive Event
  /-- a packet arrives at the socket -/
  | arrives (packet : List Byte)
  /-- the network's interrupt -/
  | poll
  /-- the postal worker goes on -/
  | deliver
  /-- a thread calls `Receive` -/
  | receive (t : Tid) (box : Int) (data : Vector Byte maxMailSize)
  /-- a thread in `Receive` goes on -/
  | go (t : Tid)

def next (host : Host) (s : State) : Event → Option (Except Fault State)
  | .arrives packet => some (.ok { s with socket := s.socket ++ [packet] })
  | .poll => some (s.poll host)
  | .deliver => s.postalDelivery host
  | .receive t box data => s.receive host t box data.toList
  | .go t => s.go t

/-- One step. The simulator stops at a failed `ASSERT`. -/
def step (host : Host) (s : State) (event : Event) : Option State :=
  if s.stopped.isSome then none
  else (next host s event).map fun
    | .ok s' => s'
    | .error fault => { s with stopped := some fault }

/-- `PostOfficeInput::PostOfficeInput`, when the worker has run up to its first `P`. The constructor of
`NetworkInput` sets the length in `inHdr`, and no more. -/
def start (inHdr : Header) (inbox buffer : Vector Byte maxPacketSize) : State where
  socket := []
  network := ⟨{ inHdr with length := 0 }, inbox.toList⟩
  messageAvailable := .new 0
  work := .p
  buffer := buffer.toList
  mails := []
  boxes := fun _ => SynchList.start
  place := fun _ => .outside
  stopped := none
  read := []
  copied := []
  receipts := []

/-- A packet that `PostOfficeOutput::Send` of some host has made, for a mailbox of this one. -/
def Sent (host : Host) (packet : List Byte) : Prop :=
  ∃ (sender : Word) (pktHdr mailHdr : Header) (data : List Byte) (buffer : Vector Byte maxPacketSize)
    (memory : Vector Byte maxWireSize),
    PostOfficeOutput.send host.cfg sender false pktHdr mailHdr data buffer.toList memory.toList =
      .ok packet ∧ data.length = mailHdr.length.toNat ∧ pktHdr.toAddr = host.hostName ∧
      mailHdr.toAddr.toInt < host.numBoxes

/-- The packets are mail for this host, and threads receive from mailboxes that exist. -/
def Legal (host : Host) (_ : State) : Event → Prop
  | .arrives packet => Sent host packet
  | .receive _ box _ => 0 ≤ box ∧ box < host.numBoxes
  | .poll | .deliver | .go _ => True

/-! ## What a packet says -/

def payload (cfg : Build) (packet : List Byte) : Header × List Byte :=
  let pktHdr : Header := ⟨wordAt cfg packet 0, wordAt cfg packet 4, wordAt cfg packet 8⟩
  (pktHdr, (packet.drop Header.size).take pktHdr.length.toNat)

def mailIn (cfg : Build) (p : Header × List Byte) : Mail :=
  ⟨p.1, ⟨wordAt cfg p.2 0, wordAt cfg p.2 4, wordAt cfg p.2 8⟩, p.2.drop Header.size⟩

def mailOf (cfg : Build) (packet : List Byte) : Mail := mailIn cfg (payload cfg packet)

def boxOf (mail : Mail) : Nat := mail.mailHdr.toAddr.toNat

def contents (mail : Mail) : Mail := { mail with data := mail.data.take mail.mailHdr.length.toNat }

namespace State

def addressed (s : State) (box : Nat) : List Nat :=
  (List.range s.mails.length).filter fun a => s.mails[a]?.any fun mail => decide (boxOf mail = box)

/-- The addresses of the mail that a thread has received from a mailbox. -/
def receivedBy (s : State) (t : Tid) (box : Nat) : List Nat :=
  (s.receipts.filter fun r => decide (r.thread = t ∧ r.box = box)).map Receipt.address

end State

end Nachos.PostOffice
