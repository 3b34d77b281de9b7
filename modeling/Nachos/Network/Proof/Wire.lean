import Nachos.Network.Post
import Nachos.Userprog.Proof.Noff
import Mathlib.Data.List.GetD

/-!
# Mail on the wire

A packet of `PostOfficeOutput::Send` is a packet header, a mail header, the data, and bytes that nobody
reads (`Packed`). The receiving host takes the packet header off (`callBack_packed`), moves the rest to
the postal worker's buffer (`receive_holds`), and finds the mail header in front of the data
(`postalDelivery_holds`).
-/

namespace Nachos

open Base

variable {cfg : Build} {hostName : Word} {numBoxes : Nat} {pktHdr mailHdr : Header}
  {data buffer memory packet : List Byte}

/-! ## Copies -/

theorem bcopy_append {b c f d : List Byte} {offset n : Nat} (hoffset : f.length = offset)
    (hn : b.length = n) (h : n ≤ d.length) :
    bcopy (b ++ c) (f ++ d) offset n = .ok (f ++ b ++ d.drop n) := by
  subst hoffset hn
  unfold bcopy
  rw [if_pos (by simp [h])]
  simp [List.drop_append]

theorem bcopy_front {b c d : List Byte} {n : Nat} (hn : b.length = n) (h : n ≤ d.length) :
    bcopy (b ++ c) d 0 n = .ok (b ++ d.drop n) :=
  bcopy_append (f := []) rfl hn h

/-! ## Headers -/

namespace Header

@[simp] theorem length_toBytes (hdr : Header) : (hdr.toBytes cfg).length = Header.size := by
  simp [toBytes, Header.size]

theorem wordAt_append {f rest : List Byte} {v : Word} {offset : Nat} (h : f.length = offset) :
    wordAt cfg (f ++ (hostWordBytes cfg v ++ rest)) offset = v := by
  subst h
  refine hostWord_hostWordBytes fun i hi => ?_
  have hlen : i < (hostWordBytes cfg v).length := by rwa [length_hostWordBytes]
  rw [List.getD_append_right _ _ _ _ (Nat.le_add_right _ _), Nat.add_sub_cancel_left,
    List.getD_append _ _ _ _ hlen, List.getD_eq_getElem _ _ hlen, List.getElem?_eq_getElem hlen]

theorem ofBytes_append (hdr : Header) (rest : List Byte) :
    Header.ofBytes cfg (hdr.toBytes cfg ++ rest) = .ok hdr := by
  unfold Header.ofBytes
  rw [if_pos (by simp)]
  have h0 : wordAt cfg (hdr.toBytes cfg ++ rest) 0 = hdr.toAddr := by
    unfold toBytes
    rw [List.append_assoc, List.append_assoc]
    exact wordAt_append (f := []) rfl
  have h4 : wordAt cfg (hdr.toBytes cfg ++ rest) 4 = hdr.fromAddr := by
    unfold toBytes
    rw [List.append_assoc, List.append_assoc]
    exact wordAt_append (by simp)
  have h8 : wordAt cfg (hdr.toBytes cfg ++ rest) 8 = hdr.length := by
    unfold toBytes
    rw [List.append_assoc]
    exact wordAt_append (by simp)
  rw [h0, h4, h8]

end Header

/-! ## The sender -/

def HoldsMail (cfg : Build) (buffer : List Byte) (mailHdr : Header) (data : List Byte) : Prop :=
  ∃ rest, buffer = mailHdr.toBytes cfg ++ data ++ rest

structure Packed (cfg : Build) (packet : List Byte) (pktHdr mailHdr : Header) (data : List Byte) :
    Prop where
  size : packet.length = maxWireSize
  bytes : ∃ rest, packet = pktHdr.toBytes cfg ++ (mailHdr.toBytes cfg ++ data ++ rest)
  pktLength : pktHdr.length.toNat = Header.size + data.length
  mailLength : mailHdr.length.toNat = data.length
  fits : data.length ≤ maxMailSize
  legal : 0 ≤ mailHdr.toAddr.toInt

def sentHeader (hostName : Word) (pktHdr mailHdr : Header) : Header :=
  ⟨pktHdr.toAddr, hostName, mailHdr.length + BitVec.ofNat 32 Header.size⟩

theorem toNat_sentLength (h : mailHdr.length.toNat ≤ maxMailSize) :
    (sentHeader hostName pktHdr mailHdr).length.toNat = Header.size + mailHdr.length.toNat := by
  have hmax : mailHdr.length.toNat ≤ 40 := h
  show (mailHdr.length + 12#32).toNat = 12 + mailHdr.length.toNat
  rw [BitVec.toNat_add, BitVec.toNat_ofNat]
  omega

theorem networkSend_eq {hdr : Header} {bytes rest : List Byte} (hlength : hdr.length.toNat = bytes.length)
    (hpos : 0 < bytes.length) (hmax : bytes.length ≤ maxPacketSize) (hfrom : hdr.fromAddr = hostName)
    (hmemory : memory.length = maxWireSize) :
    NetworkOutput.send cfg hostName false hdr (bytes ++ rest) memory =
      .ok (hdr.toBytes cfg ++ bytes ++ (memory.drop Header.size).drop bytes.length) := by
  have hwire : memory.length = 64 := hmemory
  have hroom : bytes.length ≤ 52 := hmax
  have hhdr := bcopy_front (b := hdr.toBytes cfg) (c := []) (d := memory)
    (Header.length_toBytes hdr) (by rw [hwire]; decide)
  rw [List.append_nil] at hhdr
  have hdata := bcopy_append (b := bytes) (c := rest) (f := hdr.toBytes cfg)
    (d := memory.drop Header.size) (Header.length_toBytes hdr) hlength.symm (by
      rw [List.length_drop, hwire, hlength]
      show _ ≤ 64 - 12
      omega)
  unfold NetworkOutput.send Header.store
  rw [assert_of ⟨rfl, hlength ▸ hpos, hlength ▸ hmax, hfrom⟩, ok_bind, hhdr, ok_bind, hdata, hlength]

theorem send_packed (cfg : Build) (hostName : Word) (pktHdr : Header)
    (hfits : mailHdr.length.toNat ≤ maxMailSize) (hlegal : 0 ≤ mailHdr.toAddr.toInt)
    (hdata : mailHdr.length.toNat = data.length) (hbuffer : buffer.length = maxPacketSize)
    (hmemory : memory.length = maxWireSize) :
    ∃ packet, PostOfficeOutput.send cfg hostName false pktHdr mailHdr data buffer memory = .ok packet ∧
      Packed cfg packet (sentHeader hostName pktHdr mailHdr) mailHdr data := by
  have hmax : data.length ≤ 40 := hdata ▸ hfits
  have hroom : buffer.length = 52 := hbuffer
  have hwire : memory.length = 64 := hmemory
  have hhdr := bcopy_front (b := mailHdr.toBytes cfg) (c := []) (d := buffer)
    (Header.length_toBytes mailHdr) (by rw [hroom]; decide)
  rw [List.append_nil] at hhdr
  have hcopy := bcopy_append (b := data) (c := []) (f := mailHdr.toBytes cfg)
    (d := buffer.drop Header.size) (Header.length_toBytes mailHdr) hdata.symm (by
      rw [List.length_drop, hroom, hdata]
      exact hmax)
  rw [List.append_nil] at hcopy
  have hmail : (mailHdr.toBytes cfg ++ data).length = 12 + data.length := by
    rw [List.length_append, Header.length_toBytes]
    rfl
  have hlength : (sentHeader hostName pktHdr mailHdr).length.toNat =
      (mailHdr.toBytes cfg ++ data).length := by
    rw [toNat_sentLength hfits, hmail, hdata]
    rfl
  refine ⟨(sentHeader hostName pktHdr mailHdr).toBytes cfg ++ (mailHdr.toBytes cfg ++ data) ++
    (memory.drop Header.size).drop (mailHdr.toBytes cfg ++ data).length, ?_, ?_⟩
  · unfold PostOfficeOutput.send
    rw [assert_of hfits, ok_bind, assert_of hlegal, ok_bind, hhdr, ok_bind, hcopy, ok_bind]
    refine networkSend_eq hlength ?_ ?_ rfl hmemory
    · rw [hmail]
      exact Nat.add_pos_left (by decide) _
    · rw [hmail]
      show _ ≤ 52
      omega
  · refine ⟨?_, ⟨_, List.append_assoc _ _ _⟩, ?_, hdata, hmax, hlegal⟩
    · rw [List.length_append, List.length_append, List.length_drop, List.length_drop, hmail, hwire,
        Header.length_toBytes]
      show 12 + (12 + _) + (64 - 12 - (12 + _)) = 64
      omega
    · rw [hlength, hmail]
      rfl

/-! ## The receiver -/

theorem callBack_packed {network : NetworkInput} (h : Packed cfg packet pktHdr mailHdr data)
    (hempty : network.inHdr.length = 0) (hinbox : network.inbox.length = maxPacketSize)
    (hto : pktHdr.toAddr = hostName) :
    ∃ inbox, network.callBack cfg hostName (some packet) = .ok (⟨pktHdr, inbox⟩, true) ∧
      inbox.length = maxPacketSize ∧ HoldsMail cfg inbox mailHdr data := by
  obtain ⟨rest, hbytes⟩ := h.bytes
  have hmax : data.length ≤ 40 := h.fits
  have hlength : pktHdr.length.toNat = 12 + data.length := h.pktLength
  have hroom : network.inbox.length = 52 := hinbox
  have hread : Header.ofBytes cfg packet = .ok pktHdr := by
    rw [hbytes]
    exact Header.ofBytes_append _ _
  have hok : pktHdr.toAddr = hostName ∧ pktHdr.length.toNat ≤ maxPacketSize := by
    refine ⟨hto, ?_⟩
    rw [hlength]
    show _ ≤ 52
    omega
  have hcopy := bcopy_front (b := mailHdr.toBytes cfg ++ data) (c := rest)
    (d := network.inbox) (n := pktHdr.length.toNat)
    (by rw [List.length_append, Header.length_toBytes, h.pktLength]) (by omega)
  have hdrop : packet.drop Header.size = mailHdr.toBytes cfg ++ data ++ rest := by
    rw [hbytes]
    exact List.drop_left' (Header.length_toBytes _)
  refine ⟨mailHdr.toBytes cfg ++ data ++ network.inbox.drop pktHdr.length.toNat, ?_, ?_, _, rfl⟩
  · unfold NetworkInput.callBack
    rw [if_neg (not_not.2 hempty)]
    simp only [assert_of h.size, hread, assert_of hok, ok_bind, hdrop, hcopy]
    rfl
  · simp only [List.length_append, Header.length_toBytes, List.length_drop, hroom, hlength]
    show 12 + _ + (52 - (12 + _)) = 52
    omega

theorem receive_holds (network : NetworkInput) (h : HoldsMail cfg network.inbox mailHdr data)
    (hlength : network.inHdr.length.toNat = Header.size + data.length) (hfits : data.length ≤ maxMailSize)
    (hbuffer : buffer.length = maxPacketSize) :
    ∃ buffer', network.receive buffer = .ok (network.inHdr, buffer',
        { network with inHdr := { network.inHdr with length := 0 } }) ∧
      buffer'.length = maxPacketSize ∧ HoldsMail cfg buffer' mailHdr data := by
  obtain ⟨rest, hbytes⟩ := h
  have hmax : data.length ≤ 40 := hfits
  have hroom : buffer.length = 52 := hbuffer
  have hlen : network.inHdr.length.toNat = 12 + data.length := hlength
  have hsome : network.inHdr.length ≠ 0 := by
    intro hzero
    rw [hzero] at hlen
    exact absurd hlen (by show (0 : Nat) ≠ _; omega)
  have hcopy := bcopy_front (b := mailHdr.toBytes cfg ++ data) (c := rest) (d := buffer)
    (n := network.inHdr.length.toNat)
    (by rw [List.length_append, Header.length_toBytes, hlength]) (by omega)
  refine ⟨mailHdr.toBytes cfg ++ data ++ buffer.drop network.inHdr.length.toNat, ?_, ?_, _, rfl⟩
  · unfold NetworkInput.receive
    simp only [if_pos hsome, hbytes, hcopy, ok_bind]
    rfl
  · simp only [List.length_append, Header.length_toBytes, List.length_drop, hroom, hlen]
    show 12 + _ + (52 - (12 + _)) = 52
    omega

theorem postalDelivery_holds (h : HoldsMail cfg buffer mailHdr data)
    (hlength : mailHdr.length.toNat = data.length) (hfits : data.length ≤ maxMailSize)
    (hlegal : 0 ≤ mailHdr.toAddr.toInt) (hbox : mailHdr.toAddr.toInt < numBoxes)
    (hmemory : memory.length = maxMailSize) :
    PostOfficeInput.postalDelivery cfg numBoxes pktHdr buffer memory =
      .ok (mailHdr.toAddr.toNat, ⟨pktHdr, mailHdr, data ++ memory.drop data.length⟩) := by
  obtain ⟨rest, rfl⟩ := h
  have hread : Header.ofBytes cfg (mailHdr.toBytes cfg ++ (data ++ rest)) = .ok mailHdr :=
    Header.ofBytes_append _ _
  rw [← List.append_assoc] at hread
  have hdrop : (mailHdr.toBytes cfg ++ data ++ rest).drop Header.size = data ++ rest := by
    rw [List.append_assoc]
    exact List.drop_left' (Header.length_toBytes _)
  have hshort : mailHdr.length.toNat ≤ maxMailSize := hlength ▸ hfits
  have hcopy := bcopy_front (c := rest) (d := memory) hlength.symm (by rw [hmemory]; exact hshort)
  unfold PostOfficeInput.postalDelivery Mail.new
  simp only [hread, ok_bind, assert_of (And.intro hlegal hbox), assert_of hshort, hdrop, hcopy]
  rw [hlength]
  rfl

theorem postalDelivery_error (h : HoldsMail cfg buffer mailHdr data)
    (hbox : ¬ mailHdr.toAddr.toInt < numBoxes) :
    PostOfficeInput.postalDelivery cfg numBoxes pktHdr buffer memory = .error .assertion := by
  obtain ⟨rest, rfl⟩ := h
  have hread : Header.ofBytes cfg (mailHdr.toBytes cfg ++ (data ++ rest)) = .ok mailHdr :=
    Header.ofBytes_append _ _
  rw [← List.append_assoc] at hread
  have hillegal : ¬ (0 ≤ mailHdr.toAddr.toInt ∧ mailHdr.toAddr.toInt < numBoxes) :=
    fun hlegal => hbox hlegal.2
  unfold PostOfficeInput.postalDelivery
  simp only [hread, ok_bind, assert_not hillegal]
  rfl

theorem get_eq {rest : List Byte} (hlength : mailHdr.length.toNat = data.length)
    (hbuffer : data.length ≤ buffer.length) :
    (Mail.mk pktHdr mailHdr (data ++ rest)).get buffer =
      .ok ⟨pktHdr, mailHdr, data ++ buffer.drop data.length⟩ := by
  unfold Mail.get
  rw [bcopy_front hlength.symm (hlength ▸ hbuffer), hlength]
  rfl

theorem pass_packed (numBoxes : Nat) (network : NetworkInput) {out : List Byte}
    (h : Packed cfg packet pktHdr mailHdr data) (hempty : network.inHdr.length = 0)
    (hinbox : network.inbox.length = maxPacketSize) (hbuffer : buffer.length = maxPacketSize)
    (hmemory : memory.length = maxMailSize) (hout : out.length = maxMailSize) :
    PostOfficeInput.pass cfg pktHdr.toAddr numBoxes network packet buffer memory out =
      if mailHdr.toAddr.toInt < numBoxes then
        .ok (mailHdr.toAddr.toNat, ⟨pktHdr, mailHdr, data ++ out.drop data.length⟩)
      else .error .assertion := by
  obtain ⟨inbox, hcall, -, hholds⟩ := callBack_packed h hempty hinbox (rfl : _ = pktHdr.toAddr)
  obtain ⟨buffer', hreceive, -, hholds'⟩ :=
    receive_holds ⟨pktHdr, inbox⟩ hholds h.pktLength h.fits hbuffer
  unfold PostOfficeInput.pass
  simp only [hcall, hreceive, ok_bind]
  split
  · rename_i hbox
    rw [postalDelivery_holds hholds' h.mailLength h.fits h.legal hbox hmemory]
    simp only [ok_bind]
    rw [get_eq h.mailLength (hout ▸ h.fits)]
    rfl
  · rename_i hbox
    rw [postalDelivery_error hholds' hbox]
    rfl

/-- **Mail comes back out as it was sent**, exactly when the receiving host has the mailbox: `Send` makes a
packet, no copy leaves its buffer, and the receiver finds the mail header, the data, and a packet header
with the sender's name and the length of the mail. Without the mailbox it stops at its assertion. -/
theorem mail_round_trip_iff (cfg : Build) (hostName : Word) (numBoxes : Nat) (pktHdr mailHdr : Header)
    (data : List Byte) (hfits : mailHdr.length.toNat ≤ maxMailSize) (hlegal : 0 ≤ mailHdr.toAddr.toInt)
    (hdata : data.length = mailHdr.length.toNat) (network : NetworkInput)
    (hempty : network.inHdr.length = 0) (hinbox : network.inbox.length = maxPacketSize)
    (buffer workBuffer : Vector Byte maxPacketSize) (memory : Vector Byte maxWireSize)
    (mailMemory out : Vector Byte maxMailSize) :
    ∃ packet pktHdr', PostOfficeOutput.send cfg hostName false pktHdr mailHdr data buffer.toList
        memory.toList = .ok packet ∧ packet.length = maxWireSize ∧
      pktHdr'.toAddr = pktHdr.toAddr ∧ pktHdr'.fromAddr = hostName ∧
      pktHdr'.length.toNat = mailHdr.length.toNat + Header.size ∧
      (PostOfficeInput.pass cfg pktHdr.toAddr numBoxes network packet workBuffer.toList
          mailMemory.toList out.toList =
        .ok (mailHdr.toAddr.toNat, ⟨pktHdr', mailHdr, data ++ out.toList.drop data.length⟩) ↔
        mailHdr.toAddr.toInt < numBoxes) ∧
      (¬ mailHdr.toAddr.toInt < numBoxes → PostOfficeInput.pass cfg pktHdr.toAddr numBoxes network packet
        workBuffer.toList mailMemory.toList out.toList = .error .assertion) := by
  obtain ⟨packet, hsend, hpacked⟩ := send_packed cfg hostName pktHdr
    hfits hlegal hdata.symm buffer.length_toList memory.length_toList
  refine ⟨packet, sentHeader hostName pktHdr mailHdr, hsend, hpacked.size, rfl, rfl,
    (toNat_sentLength hfits).trans (Nat.add_comm _ _), ?_⟩
  have hpass := pass_packed numBoxes network hpacked hempty hinbox workBuffer.length_toList
    mailMemory.length_toList out.length_toList
  rw [show pktHdr.toAddr = (sentHeader hostName pktHdr mailHdr).toAddr from rfl, hpass]
  split
  · rename_i hbox
    exact ⟨iff_of_true rfl hbox, fun h => absurd hbox h⟩
  · rename_i hbox
    exact ⟨iff_of_false nofun hbox, fun _ => rfl⟩

def zeros (n : Nat) : Vector Byte n := Vector.replicate n 0

/-- Five bytes to mailbox 3 of host 1, which has ten mailboxes. -/
theorem mail_round_trip_five : ∃ packet pktHdr',
    PostOfficeOutput.send buildLinux 0 false ⟨1, 0, 0⟩ ⟨3, 2, 5⟩ [1, 2, 3, 4, 5]
      (zeros maxPacketSize).toList (zeros maxWireSize).toList = .ok packet ∧
    PostOfficeInput.pass buildLinux 1 10 ⟨⟨0, 0, 0⟩, (zeros maxPacketSize).toList⟩ packet
      (zeros maxPacketSize).toList (zeros maxMailSize).toList (zeros maxMailSize).toList =
        .ok (3, ⟨pktHdr', ⟨3, 2, 5⟩, [1, 2, 3, 4, 5] ++ (zeros maxMailSize).toList.drop 5⟩) := by
  obtain ⟨packet, pktHdr', hsend, -, -, -, -, hpass, -⟩ :=
    mail_round_trip_iff buildLinux 0 10 ⟨1, 0, 0⟩ ⟨3, 2, 5⟩ [1, 2, 3, 4, 5] (by decide) (by decide) rfl
      ⟨⟨0, 0, 0⟩, (zeros maxPacketSize).toList⟩ rfl (Vector.length_toList) (zeros _) (zeros _) (zeros _)
      (zeros _) (zeros _)
  exact ⟨packet, pktHdr', hsend, hpass.2 (by decide)⟩

/-- A mail to mailbox 10 of a host with ten mailboxes is sent, and stops the host that receives it. -/
theorem mail_no_round_trip : ∃ packet,
    PostOfficeOutput.send buildLinux 0 false ⟨1, 0, 0⟩ ⟨10, 2, 5⟩ [1, 2, 3, 4, 5]
      (zeros maxPacketSize).toList (zeros maxWireSize).toList = .ok packet ∧
    PostOfficeInput.pass buildLinux 1 10 ⟨⟨0, 0, 0⟩, (zeros maxPacketSize).toList⟩ packet
      (zeros maxPacketSize).toList (zeros maxMailSize).toList (zeros maxMailSize).toList =
        .error .assertion := by
  obtain ⟨packet, hsend, hpacked⟩ := send_packed buildLinux 0 ⟨1, 0, 0⟩
    (show (⟨10, 2, 5⟩ : Header).length.toNat ≤ maxMailSize by decide) (by decide)
    (show _ = [1, 2, 3, 4, 5].length from rfl) (zeros maxPacketSize).length_toList
    (zeros maxWireSize).length_toList
  have hpass := pass_packed 10 ⟨⟨0, 0, 0⟩, (zeros maxPacketSize).toList⟩ hpacked rfl
    (Vector.length_toList) (zeros maxPacketSize).length_toList (zeros maxMailSize).length_toList
    (zeros maxMailSize).length_toList
  exact ⟨packet, hsend, hpass⟩

end Nachos
