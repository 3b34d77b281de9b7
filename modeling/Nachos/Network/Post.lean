import Nachos.Machine.Network

/-!
# Mail (`network/post.cc`)

What the post office does with the bytes of a message: `Send` puts a mail header in front of the data,
and the postal worker takes it off again. The mailboxes and the threads are in `PostOffice`.
-/

namespace Nachos

def maxMailSize : Nat := maxPacketSize - Header.size

structure Mail where
  pktHdr : Header
  mailHdr : Header
  data : List Byte
  deriving DecidableEq, Repr

/-- `Mail::Mail`; `memory` is what the array of the new object has before. -/
def Mail.new (pktH mailH : Header) (msgData memory : List Byte) : Except Fault Mail := do
  assert (mailH.length.toNat ≤ maxMailSize)
  let data ← bcopy msgData memory 0 mailH.length.toNat
  return ⟨pktH, mailH, data⟩

/-- `MailBox::Get` behind its `RemoveFront`: the two headers, and the data in the caller's buffer. -/
def Mail.get (mail : Mail) (data : List Byte) : Except Fault Mail := do
  let data ← bcopy mail.data data 0 mail.mailHdr.length.toNat
  return ⟨mail.pktHdr, mail.mailHdr, data⟩

/-- `PostOfficeOutput::Send`, with the `NetworkOutput::Send` that it calls: what goes to the socket.
`buffer` and `memory` are what the buffers of the two functions have before. -/
def PostOfficeOutput.send (cfg : Build) (hostName : Word) (sendBusy : Bool) (pktHdr mailHdr : Header)
    (data buffer memory : List Byte) : Except Fault (List Byte) := do
  assert (mailHdr.length.toNat ≤ maxMailSize)
  assert (0 ≤ mailHdr.toAddr.toInt)
  let pktHdr := { pktHdr with
    fromAddr := hostName
    length := mailHdr.length + BitVec.ofNat 32 Header.size }
  let buffer ← bcopy (mailHdr.toBytes cfg) buffer 0 Header.size
  let buffer ← bcopy data buffer Header.size mailHdr.length.toNat
  NetworkOutput.send cfg hostName sendBusy pktHdr buffer memory

namespace PostOfficeInput

/-- A round of `PostalDelivery` behind its `Receive`, up to the `Append` of `MailBox::Put`: the number of
the mailbox, and the mail. -/
def postalDelivery (cfg : Build) (numBoxes : Nat) (pktHdr : Header) (buffer memory : List Byte) :
    Except Fault (Nat × Mail) := do
  let mailHdr ← Header.ofBytes cfg buffer
  assert (0 ≤ mailHdr.toAddr.toInt ∧ mailHdr.toAddr.toInt < numBoxes)
  assert (mailHdr.length.toNat ≤ maxMailSize)
  let mail ← Mail.new pktHdr mailHdr (buffer.drop Header.size) memory
  return (mailHdr.toAddr.toNat, mail)

/-- The way of a packet through a post office: the network's interrupt, the postal worker, and a thread
that gets the mail out of the mailbox. -/
def pass (cfg : Build) (hostName : Word) (numBoxes : Nat) (network : NetworkInput)
    (packet buffer memory data : List Byte) : Except Fault (Nat × Mail) := do
  let (network, _) ← network.callBack cfg hostName (some packet)
  let (pktHdr, buffer, _) ← network.receive buffer
  let (box, mail) ← postalDelivery cfg numBoxes pktHdr buffer memory
  let mail ← mail.get data
  return (box, mail)

end PostOfficeInput

end Nachos
