import Nachos.Machine.Machine

/-!
# The network device (`machine/network.cc`)

A packet on the wire is `MaxWireSize` bytes: a packet header, the data, and whatever was in the rest of
the sender's buffer. Buffers are lists of bytes; a copy that reads or writes outside of one is undefined.
-/

namespace Nachos

def bcopy (src dst : List Byte) (offset n : Nat) : Except Fault (List Byte) :=
  if n ≤ src.length ∧ offset + n ≤ dst.length then
    .ok (dst.take offset ++ src.take n ++ dst.drop (offset + n))
  else .error .undefined

/-- The word at an offset of a buffer, which is read as a structure. -/
def wordAt (cfg : Build) (buffer : List Byte) (offset : Nat) : Word :=
  hostWord cfg (fun a => buffer.getD a 0) offset

/-- `PacketHeader`, and `MailHeader`: `to`, `from` and `length`. -/
structure Header where
  toAddr : Word
  fromAddr : Word
  length : Word
  deriving DecidableEq, Repr

namespace Header

/-- `sizeof(PacketHeader)`, `sizeof(MailHeader)`. -/
def size : Nat := 12

def toBytes (cfg : Build) (hdr : Header) : List Byte :=
  hostWordBytes cfg hdr.toAddr ++ hostWordBytes cfg hdr.fromAddr ++ hostWordBytes cfg hdr.length

/-- `*(PacketHeader *)buffer`. -/
def ofBytes (cfg : Build) (buffer : List Byte) : Except Fault Header :=
  if Header.size ≤ buffer.length then
    .ok ⟨wordAt cfg buffer 0, wordAt cfg buffer 4, wordAt cfg buffer 8⟩
  else .error .undefined

/-- `*(PacketHeader *)buffer = hdr`. -/
def store (cfg : Build) (hdr : Header) (buffer : List Byte) : Except Fault (List Byte) :=
  bcopy (hdr.toBytes cfg) buffer 0 Header.size

end Header

def maxWireSize : Nat := 64

def maxPacketSize : Nat := maxWireSize - Header.size

/-- `NetworkInput`; the packet in `inbox` has been read if the length in `inHdr` is 0. -/
structure NetworkInput where
  inHdr : Header
  inbox : List Byte
  deriving DecidableEq, Repr

namespace NetworkInput

/-- `NetworkInput::CallBack` behind its `Schedule`: `packet` is what the socket has. The second result:
`callWhenAvail` is called. -/
def callBack (cfg : Build) (hostName : Word) (network : NetworkInput) (packet : Option (List Byte)) :
    Except Fault (NetworkInput × Bool) :=
  if network.inHdr.length ≠ 0 then return (network, false)
  else
    match packet with
    | none => return (network, false)
    | some buffer => do
      -- `ReadFromSocket`
      assert (buffer.length = maxWireSize)
      let inHdr ← Header.ofBytes cfg buffer
      assert (inHdr.toAddr = hostName ∧ inHdr.length.toNat ≤ maxPacketSize)
      let inbox ← bcopy (buffer.drop Header.size) network.inbox 0 inHdr.length.toNat
      return (⟨inHdr, inbox⟩, true)

def receive (network : NetworkInput) (data : List Byte) :
    Except Fault (Header × List Byte × NetworkInput) := do
  let hdr := network.inHdr
  let network := { network with inHdr := { network.inHdr with length := 0 } }
  if hdr.length ≠ 0 then
    let data ← bcopy network.inbox data 0 hdr.length.toNat
    return (hdr, data, network)
  else return (hdr, data, network)

end NetworkInput

/-- `NetworkOutput::Send`, when the packet is not lost: what goes to the socket. `sendBusy` is never set,
and `memory` is what the buffer has before. -/
def NetworkOutput.send (cfg : Build) (hostName : Word) (sendBusy : Bool) (hdr : Header) (data : List Byte)
    (memory : List Byte) : Except Fault (List Byte) := do
  assert (sendBusy = false ∧ 0 < hdr.length.toNat ∧ hdr.length.toNat ≤ maxPacketSize ∧
    hdr.fromAddr = hostName)
  let buffer ← hdr.store cfg memory
  bcopy data buffer Header.size hdr.length.toNat

end Nachos
