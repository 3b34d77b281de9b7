import Nachos.Base.Lists
import Nachos.Network.PostOffice
import Nachos.Network.Proof.Wire
import Nachos.Threads.Proof.SynchCalls

/-!
# Mail is delivered

The packets that were read are, in order, those that the postal worker has copied out of the inbox and the
one that is in it; the value of `messageAvailable` says whether there is one (`Receiving`). The mail that
the worker has made are the packets that it has copied, but for the one in its hand. A mailbox has the
mail that is for it, in order (`Box`).
-/

namespace Nachos

open Base
open Function (forall_update_iff update update_of_ne update_self)

namespace PostOffice

variable {host : Host} {s s' : State} {mailHdr pktHdr : Header} {data : List Byte} {b : Nat}
    {m m' : SynchList.State Nat} {t : Tid} {r : Except Fault State}

/-! ## What a packet says -/

theorem words_append (cfg : Build) (hdr : Header) (rest : List Byte) :
    (⟨wordAt cfg (hdr.toBytes cfg ++ rest) 0, wordAt cfg (hdr.toBytes cfg ++ rest) 4,
      wordAt cfg (hdr.toBytes cfg ++ rest) 8⟩ : Header) = hdr := by
  have h : Header.ofBytes cfg (hdr.toBytes cfg ++ rest) = .ok hdr := Header.ofBytes_append _ _
  unfold Header.ofBytes at h
  rw [if_pos (by simp)] at h
  exact Except.ok.inj h

structure Genuine (host : Host) (p : Header × List Byte) (mailHdr : Header) (data : List Byte) :
    Prop where
  bytes : p.2 = mailHdr.toBytes host.cfg ++ data
  pktLength : p.1.length.toNat = Header.size + data.length
  mailLength : mailHdr.length.toNat = data.length
  fits : data.length ≤ maxMailSize
  legal : 0 ≤ mailHdr.toAddr.toInt
  box : mailHdr.toAddr.toInt < host.numBoxes

theorem Sent.packed {packet : List Byte} (h : Sent host packet) : ∃ pktHdr mailHdr data,
    Packed host.cfg packet pktHdr mailHdr data ∧ pktHdr.toAddr = host.hostName ∧
      payload host.cfg packet = (pktHdr, mailHdr.toBytes host.cfg ++ data) ∧
      Genuine host (payload host.cfg packet) mailHdr data := by
  obtain ⟨sender, pktHdr, mailHdr, data, buffer, memory, hsend, hdata, hto, hbox⟩ := h
  obtain ⟨hfits, hlegal⟩ : mailHdr.length.toNat ≤ maxMailSize ∧ 0 ≤ mailHdr.toAddr.toInt := by
    unfold PostOfficeOutput.send at hsend
    obtain ⟨_, hfits, h⟩ := bind_ok hsend
    obtain ⟨_, hlegal, -⟩ := bind_ok h
    exact ⟨assert_ok hfits, assert_ok hlegal⟩
  obtain ⟨packet', hsend', hpacked⟩ := send_packed host.cfg sender pktHdr
    hfits hlegal hdata.symm buffer.length_toList memory.length_toList
  rw [hsend] at hsend'
  cases hsend'
  obtain ⟨rest, hbytes⟩ := hpacked.bytes
  have hpayload : payload host.cfg packet =
      (sentHeader sender pktHdr mailHdr, mailHdr.toBytes host.cfg ++ data) := by
    have hwords := words_append host.cfg (sentHeader sender pktHdr mailHdr)
      (mailHdr.toBytes host.cfg ++ data ++ rest)
    rw [← hbytes] at hwords
    have hdrop : packet.drop Header.size = mailHdr.toBytes host.cfg ++ data ++ rest := by
      rw [hbytes]
      exact List.drop_left' (Header.length_toBytes _)
    refine Prod.ext hwords ?_
    show (packet.drop Header.size).take (wordAt host.cfg packet 8).toNat = _
    rw [show wordAt host.cfg packet 8 = (sentHeader sender pktHdr mailHdr).length from
      congrArg Header.length hwords, hpacked.pktLength, hdrop]
    exact List.take_left' (by rw [List.length_append, Header.length_toBytes])
  exact ⟨_, mailHdr, data, hpacked, hto, hpayload, by rw [hpayload], by rw [hpayload]; exact hpacked.pktLength,
    hpacked.mailLength, hpacked.fits, hpacked.legal, hbox⟩

theorem Genuine.mailIn_eq {p : Header × List Byte}
    (h : Genuine host p mailHdr data) : mailIn host.cfg p = ⟨p.1, mailHdr, data⟩ := by
  unfold mailIn
  rw [h.bytes, words_append, List.drop_left' (Header.length_toBytes _)]

theorem Genuine.holds {buffer : List Byte}
    (h : Genuine host (pktHdr, buffer.take pktHdr.length.toNat) mailHdr data) :
    HoldsMail host.cfg buffer mailHdr data :=
  ⟨buffer.drop pktHdr.length.toNat, by
    rw [← h.bytes]
    exact (List.take_append_drop _ _).symm⟩

theorem Genuine.nonempty {p : Header × List Byte}
    (h : Genuine host p mailHdr data) : p.1.length ≠ 0 := by
  intro hzero
  have hlength := h.pktLength
  rw [hzero] at hlength
  exact absurd hlength (by show (0 : Nat) ≠ 12 + _; omega)

theorem take_of_holds {cfg : Build} {buffer : List Byte} {n : Nat}
    (h : HoldsMail cfg buffer mailHdr data) (hn : n = Header.size + data.length) :
    buffer.take n = mailHdr.toBytes cfg ++ data := by
  obtain ⟨rest, rfl⟩ := h
  exact List.take_left' (by rw [List.length_append, Header.length_toBytes, hn])

/-! ## The inbox and the worker's buffer -/

def State.inInbox (s : State) : List (Header × List Byte) :=
  if s.network.inHdr.length = 0 then []
  else [(s.network.inHdr, s.network.inbox.take s.network.inHdr.length.toNat)]

def State.inHand (s : State) : List (Header × List Byte) :=
  match s.work with
  | .received pktHdr => [(pktHdr, s.buffer.take pktHdr.length.toNat)]
  | .p | .receive | .put _ => []

theorem State.inHand_eq_nil (h : ∀ pktHdr, s.work ≠ .received pktHdr) : s.inHand = [] := by
  unfold State.inHand
  split
  · rename_i hw
    exact absurd hw (h _)
  all_goals rfl

structure Receiving (host : Host) (s : State) : Prop where
  socket : ∀ packet ∈ s.socket, Sent host packet
  sent : ∀ packet ∈ s.read, Sent host packet
  inbox : s.network.inbox.length = maxPacketSize
  buffer : s.buffer.length = maxPacketSize
  value : s.messageAvailable.value + (if s.work = .receive then 1 else 0) = s.inInbox.length
  queue : s.messageAvailable.queue = [] ∨
    s.messageAvailable.queue = [postalWorker] ∧ s.work = .p ∧ s.inInbox = []
  copied : s.copied ++ s.inInbox = s.read.map (payload host.cfg)
  hand : ∀ p ∈ s.inHand, p ∈ s.copied
  mails : s.mails.map contents ++ s.inHand.map (mailIn host.cfg) = s.copied.map (mailIn host.cfg)

theorem Receiving.queue_eq_nil (h : Receiving host s) (hw : s.work ≠ .p) :
    s.messageAvailable.queue = [] := by
  rcases h.queue with hq | ⟨-, hp, -⟩
  · exact hq
  · exact absurd hp hw

theorem Receiving.genuine (h : Receiving host s) {p : Header × List Byte} (hp : p ∈ s.copied ++ s.inInbox) :
    ∃ mailHdr data, Genuine host p mailHdr data := by
  rw [h.copied] at hp
  obtain ⟨packet, hpacket, rfl⟩ := List.mem_map.1 hp
  obtain ⟨-, mailHdr, data, -, -, -, hg⟩ := (h.sent packet hpacket).packed
  exact ⟨mailHdr, data, hg⟩

structure Aside (s s' : State) : Prop where
  mails : s'.mails = s.mails
  boxes : s'.boxes = s.boxes
  place : s'.place = s.place
  stopped : s'.stopped = s.stopped
  receipts : s'.receipts = s.receipts
  work : ∀ b, s'.work = .put b ↔ s.work = .put b

theorem poll_receiving (h : Receiving host s) :
    ∃ s', s.poll host = .ok s' ∧ Receiving host s' ∧ Aside s s' := by
  by_cases hempty : s.network.inHdr.length = 0
  · have hnone : s.inInbox = [] := if_pos hempty
    cases hhead : s.socket.head? with
    | none =>
      have hcall : s.network.callBack host.cfg host.hostName none = .ok (s.network, false) := by
        unfold NetworkInput.callBack
        rw [if_neg (not_not.2 hempty)]
        rfl
      exact ⟨s, by rw [State.poll, hhead, hcall]; rfl, h, rfl, rfl, rfl, rfl, rfl, fun _ => .rfl⟩
    | some packet =>
      have hsent := h.socket packet (List.mem_of_mem_head? hhead)
      obtain ⟨pktHdr, mailHdr, data, hpacked, hto, hpayload, hg⟩ := hsent.packed
      obtain ⟨inbox, hcall, hlength, hholds⟩ := callBack_packed hpacked hempty h.inbox hto
      generalize hs' : ({ s with
        network := ⟨pktHdr, inbox⟩
        socket := s.socket.tail
        read := s.read ++ [packet]
        messageAvailable := s.messageAvailable.v.1 } : State) = s'
      have hin : s'.inInbox = [payload host.cfg packet] := by
        have hne : pktHdr.length ≠ 0 := by
          have := hg.nonempty
          rwa [hpayload] at this
        rw [hpayload, ← hs']
        exact (if_neg hne).trans (by rw [take_of_holds hholds hpacked.pktLength])
      have hvalue := h.value
      have hcopied := h.copied
      rw [hnone] at hvalue hcopied
      have hpoll : s.poll host = .ok s' := by
        rw [State.poll, hhead, hcall, ← hs']
        rfl
      subst hs'
      refine ⟨_, hpoll, ⟨?_, ?_, hlength, h.buffer, ?_, .inl ?_, ?_, h.hand, h.mails⟩, rfl, rfl, rfl,
        rfl, rfl, fun _ => .rfl⟩
      · exact fun packet' hm => h.socket packet' (List.mem_of_mem_tail hm)
      · intro packet' hm
        rcases List.mem_append.1 hm with hm | hm
        · exact h.sent packet' hm
        · rw [List.mem_singleton.1 hm]
          exact hsent
      · rw [hin]
        show s.messageAvailable.value + 1 + _ = 1
        rw [Nat.add_right_comm]
        exact congrArg (· + 1) hvalue
      · show s.messageAvailable.queue.tail = []
        rcases h.queue with hq | ⟨hq, -, -⟩ <;> rw [hq] <;> rfl
      · rw [hin]
        show s.copied ++ _ = (s.read ++ [packet]).map _
        rw [List.map_append, ← hcopied, List.append_nil]
        rfl
  · have hcall : s.network.callBack host.cfg host.hostName s.socket.head? = .ok (s.network, false) := by
      unfold NetworkInput.callBack
      rw [if_pos hempty]
      rfl
    exact ⟨s, by rw [State.poll, hcall]; rfl, h, rfl, rfl, rfl, rfl, rfl, fun _ => .rfl⟩

theorem p_receiving (h : Receiving host s) (hw : s.work = .p) (hs : postalWorker ∉ s.messageAvailable.queue) :
    ∃ s', s.postalDelivery host = some (.ok s') ∧ Receiving host s' ∧ Aside s s' := by
  have hq : s.messageAvailable.queue = [] := by
    rcases h.queue with hq | ⟨hq, -, -⟩
    · exact hq
    · rw [hq] at hs
      exact absurd (List.mem_singleton.2 rfl) hs
  have hvalue := h.value
  have hhand : s.inHand = [] := State.inHand_eq_nil (by rw [hw]; nofun)
  have hmails := h.mails
  rw [hw] at hvalue
  rw [hhand] at hmails
  unfold State.postalDelivery
  rw [hw]
  dsimp only
  rw [if_neg hs]
  unfold Semaphore.p
  by_cases hv : s.messageAvailable.value = 0
  · rw [if_pos hv]
    refine ⟨_, rfl, ⟨h.socket, h.sent, h.inbox, h.buffer, hvalue, .inr ⟨?_, rfl, ?_⟩, h.copied, nofun,
      hmails⟩, rfl, rfl, rfl, rfl, rfl, fun b => by rw [hw]⟩
    · rw [Semaphore.append, hq]
      rfl
    · rw [hv] at hvalue
      exact List.eq_nil_of_length_eq_zero hvalue.symm
  · rw [if_neg hv]
    refine ⟨_, rfl, ⟨h.socket, h.sent, h.inbox, h.buffer, ?_, .inl hq, h.copied, nofun, hmails⟩,
      rfl, rfl, rfl, rfl, rfl, fun b => ?_⟩
    · show s.messageAvailable.value - 1 + 1 = s.inInbox.length
      rw [Nat.sub_add_cancel (Nat.pos_of_ne_zero hv)]
      exact hvalue
    · rw [hw]
      exact iff_of_false nofun nofun

theorem receive_receiving (h : Receiving host s) (hw : s.work = .receive) :
    ∃ s', s.postalDelivery host = some (.ok s') ∧ Receiving host s' ∧ Aside s s' := by
  have hvalue := h.value
  rw [hw, if_pos rfl] at hvalue
  have hfull : s.network.inHdr.length ≠ 0 := by
    intro hempty
    rw [State.inInbox, if_pos hempty] at hvalue
    cases hvalue
  have hin : s.inInbox = [(s.network.inHdr, s.network.inbox.take s.network.inHdr.length.toNat)] :=
    if_neg hfull
  have hcopied := h.copied
  have hmails := h.mails
  have hhand : s.inHand = [] := State.inHand_eq_nil (by rw [hw]; nofun)
  rw [hin] at hcopied hvalue
  rw [hhand, List.map_nil, List.append_nil] at hmails
  obtain ⟨mailHdr, data, hg⟩ := h.genuine (by rw [hin]; exact List.mem_append_right _ (.head _))
  obtain ⟨buffer, hreceive, hlength, hholds⟩ := receive_holds _ hg.holds hg.pktLength hg.fits h.buffer
  have htake : buffer.take s.network.inHdr.length.toNat =
      s.network.inbox.take s.network.inHdr.length.toNat := by
    rw [take_of_holds hholds hg.pktLength, ← hg.bytes]
  unfold State.postalDelivery
  rw [hw]
  dsimp only
  rw [hreceive]
  have hq := h.queue_eq_nil (by rw [hw]; nofun)
  refine ⟨_, rfl, ⟨h.socket, h.sent, h.inbox, hlength, Nat.succ.inj hvalue, .inl hq, ?_, ?_, ?_⟩,
    rfl, rfl, rfl, rfl, rfl, fun b => ?_⟩
  · show s.copied ++ [(s.network.inHdr, buffer.take s.network.inHdr.length.toNat)] ++ [] = _
    rw [htake, List.append_nil, hcopied]
  · intro p hp
    exact List.mem_append_right _ hp
  · show s.mails.map contents ++ [mailIn host.cfg (s.network.inHdr,
      buffer.take s.network.inHdr.length.toNat)] = (s.copied ++ _).map _
    rw [List.map_append, hmails]
    rfl
  · rw [hw]
    exact iff_of_false nofun nofun

theorem received_receiving (h : Receiving host s) (hw : s.work = .received pktHdr) :
    ∃ mail, PostOfficeInput.postalDelivery host.cfg host.numBoxes pktHdr s.buffer
        (host.memory s.mails.length).toList = .ok (boxOf mail, mail) ∧
      ∀ boxes, Receiving host { s with
        mails := s.mails ++ [mail], work := .put (boxOf mail), boxes, stopped := none } := by
  have hhand : s.inHand = [(pktHdr, s.buffer.take pktHdr.length.toNat)] := by
    unfold State.inHand
    rw [hw]
  have hmails := h.mails
  rw [hhand] at hmails
  obtain ⟨mailHdr, data, hg⟩ := h.genuine
    (List.mem_append_left _ (h.hand _ (by rw [hhand]; exact .head _)))
  refine ⟨⟨pktHdr, mailHdr, data ++ (host.memory s.mails.length).toList.drop data.length⟩,
    postalDelivery_holds hg.holds hg.mailLength hg.fits hg.legal hg.box Vector.length_toList,
    fun boxes => ⟨h.socket, h.sent, h.inbox, h.buffer, ?_,
      .inl (h.queue_eq_nil (by rw [hw]; nofun)), h.copied, nofun, ?_⟩⟩
  · have hvalue := h.value
    rw [hw] at hvalue
    exact hvalue
  · show (s.mails ++ [_]).map contents ++ [] = _
    rw [List.append_nil, List.map_append, ← hmails]
    congr 1
    show [contents _] = [mailIn host.cfg _]
    rw [hg.mailIn_eq, contents]
    dsimp only
    rw [hg.mailLength, List.take_left' rfl]

theorem put_receiving (h : Receiving host s) (hw : s.work = .put b) {work : Work}
    (hwork : work = .p ∨ work = .put b) (boxes : Nat → SynchList.State Nat) :
    Receiving host { s with boxes, stopped := none, work } := by
  have hhand : s.inHand = [] := State.inHand_eq_nil (by rw [hw]; nofun)
  have hvalue := h.value
  have hmails := h.mails
  rw [hw] at hvalue
  rw [hhand] at hmails
  have hq := h.queue_eq_nil (by rw [hw]; nofun)
  rcases hwork with rfl | rfl <;>
    exact ⟨h.socket, h.sent, h.inbox, h.buffer, hvalue, .inl hq, h.copied, nofun, hmails⟩

theorem Receiving.get_ok (h : Receiving host s) {mail : Mail} (hm : mail ∈ s.mails)
    (hdata : data.length = maxMailSize) : ∃ copy, mail.get data = .ok copy ∧
      copy.mailHdr.length.toNat ≤ maxMailSize ∧ contents copy = contents mail := by
  have hmem : contents mail ∈ s.copied.map (mailIn host.cfg) := by
    rw [← h.mails]
    exact List.mem_append_left _ (List.mem_map_of_mem hm)
  obtain ⟨p, hp, he⟩ := List.mem_map.1 hmem
  obtain ⟨mailHdr, bytes, hg⟩ := h.genuine (List.mem_append_left _ hp)
  rw [hg.mailIn_eq] at he
  have hhdr : mail.mailHdr = mailHdr := (congrArg Mail.mailHdr he).symm
  have hbytes : mail.data.take mail.mailHdr.length.toNat = bytes := (congrArg Mail.data he).symm
  have hlength : mail.mailHdr.length.toNat = bytes.length := by rw [hhdr, hg.mailLength]
  have hsplit : mail = ⟨mail.pktHdr, mail.mailHdr, bytes ++ mail.data.drop mail.mailHdr.length.toNat⟩ := by
    rw [← hbytes, List.take_append_drop]
  refine ⟨⟨mail.pktHdr, mail.mailHdr, bytes ++ data.drop bytes.length⟩, ?_, ?_, ?_⟩
  · rw [hsplit]
    exact get_eq hlength (hdata ▸ hg.fits)
  · show mail.mailHdr.length.toNat ≤ _
    rw [hlength]
    exact hg.fits
  · unfold contents
    dsimp only
    rw [hbytes, hlength, List.take_left' rfl]

/-! ## The mailboxes -/

open SynchList (appends returns removedBy Last)

def Place.gotFrom (b : Nat) : Place → List Nat
  | .got box _ address => if box = b then [address] else []
  | .outside | .get _ _ => []

structure Box (s : State) (b : Nat) (m : SynchList.State Nat) : Prop where
  reachable : SynchList.Reachable m
  items : m.items = s.addressed b
  put : appended m.log ++ appends (m.code postalWorker) = m.items
  pending : ∀ a ∈ appends (m.code postalWorker), a + 1 = s.mails.length
  working : m.code postalWorker ≠ [] ↔ s.work = .put b
  appending : (m.code postalWorker).all SynchList.Frame.appending = true
  last : ∀ t, Last (m.code t)
  readers : ∀ t, t ≠ postalWorker → appends (m.code t) = []
  reading : ∀ t, t ≠ postalWorker → m.code t ≠ [] → ∃ data, s.place t = .get b data
  taken : ∀ t, removedBy m.log t = s.receivedBy t b ++ (s.place t).gotFrom b ++ returns (m.code t)

theorem Box.congr (h : Box s b m) (hitems : s'.addressed b = s.addressed b)
    (hmails : s'.mails.length = s.mails.length ∨ m.code postalWorker = [])
    (hwork : s'.work = .put b ↔ s.work = .put b)
    (hplace : ∀ t, m.code t ≠ [] → s'.place t = s.place t)
    (htaken : ∀ t, s'.receivedBy t b ++ (s'.place t).gotFrom b =
      s.receivedBy t b ++ (s.place t).gotFrom b) : Box s' b m where
  reachable := h.reachable
  items := h.items.trans hitems.symm
  put := h.put
  pending a ha := by
    rcases hmails with hmails | hnil
    · rw [hmails]
      exact h.pending a ha
    · rw [hnil] at ha
      cases ha
  working := h.working.trans hwork.symm
  appending := h.appending
  last := h.last
  readers := h.readers
  reading t ht hc := by
    rw [hplace t hc]
    exact h.reading t ht hc
  taken t := by rw [h.taken t, htaken t]

theorem Box.aside (h : Box s b m) (ha : Aside s s') : Box s' b m := by
  refine h.congr ?_ (.inl (by rw [ha.mails])) (ha.work b) (fun t _ => by rw [ha.place]) (fun t => ?_)
  · rw [State.addressed, State.addressed, ha.mails]
  · rw [State.receivedBy, State.receivedBy, ha.receipts, ha.place]

theorem Box.went (h : Box s b m)
    (hw : SynchList.Went m t m') (hn : ∀ item, (m.code t).head? ≠ some (.returned item)) (u : Tid) :
    removedBy m'.log u = s.receivedBy u b ++ (s.place u).gotFrom b ++ returns (m'.code u) := by
  by_cases hu : u = t
  · subst hu
    obtain ⟨new, hremoved, hreturns⟩ := hw.removed hn
    rw [hremoved, h.taken u, hreturns, List.append_assoc]
  · rw [hw.removedOthers u hu, hw.others u hu]
    exact h.taken u

/-! ## Steps -/

def Place.Fits : Place → Prop
  | .outside => True
  | .get _ data | .got _ data _ => data.length = maxMailSize

structure Inv (host : Host) (s : State) : Prop where
  stopped : s.stopped = none
  receiving : Receiving host s
  boxes : ∀ b, Box s b (s.boxes b)
  worker : s.place postalWorker = .outside
  fits : ∀ t, (s.place t).Fits
  receipts : ∀ r ∈ s.receipts, s.mails[r.address]?.map contents = some (contents r.mail)

theorem Inv.aside (h : Inv host s) (hr : Receiving host s') (ha : Aside s s') : Inv host s' where
  stopped := ha.stopped.trans h.stopped
  receiving := hr
  boxes b := by
    rw [ha.boxes]
    exact (h.boxes b).aside ha
  worker := by rw [ha.place, h.worker]
  fits := by
    rw [ha.place]
    exact h.fits
  receipts := by
    rw [ha.receipts, ha.mails]
    exact h.receipts

theorem Inv.idle (h : Inv host s) (hw : s.work ≠ .put b) : (s.boxes b).code postalWorker = [] := by
  by_contra hne
  exact hw ((h.boxes b).working.1 hne)

theorem Inv.reader_of_place (h : Inv host s) (hplace : s.place t ≠ .outside) : t ≠ postalWorker := by
  rintro rfl
  exact hplace h.worker

theorem Inv.idle_of_got (h : Inv host s) {address : Nat} (hplace : s.place t = .got b data address)
    (b' : Nat) : (s.boxes b').code t = [] := by
  by_contra hne
  obtain ⟨data', hget⟩ := (h.boxes b').reading t (h.reader_of_place (by rw [hplace]; nofun)) hne
  cases hplace.symm.trans hget

theorem inBox_eq {choice : SynchList.Choice Nat}
    (hs : s.inBox b choice = some s') (hm : s.boxes b = m) (hr : SynchList.Reachable m)
    (hd : SynchList.Distinct m choice) :
    ∃ m', SynchList.step m choice = some m' ∧ SynchList.Reachable m' ∧
      s' = { s with boxes := update s.boxes b m', stopped := none } := by
  unfold State.inBox at hs
  rw [hm] at hs
  obtain ⟨m', hstep, rfl⟩ := Option.map_eq_some_iff.1 hs
  have hr' : SynchList.Reachable m' := hr.step hd hstep
  refine ⟨m', hstep, hr', ?_⟩
  rw [(SynchList.reachable_inv hr').2]
  rfl

theorem boxes_update {boxes : Nat → SynchList.State Nat}
    (hself : Box s' b m') (hothers : ∀ b', b' ≠ b → Box s' b' (boxes b')) (b' : Nat) :
    Box s' b' (update boxes b m' b') :=
  (forall_update_iff boxes (p := fun b' m => Box s' b' m)).2 ⟨hself, hothers⟩ b'

theorem addressed_concat {mail : Mail} (hmails : s'.mails = s.mails ++ [mail]) (b : Nat) :
    s'.addressed b = s.addressed b ++ if boxOf mail = b then [s.mails.length] else [] := by
  unfold State.addressed
  rw [hmails, List.length_append, List.length_singleton, List.range_succ, List.filter_append]
  congr 1
  · refine List.filter_congr fun a ha => ?_
    rw [List.getElem?_append_left (List.mem_range.1 ha)]
  · rw [List.filter_singleton, List.getElem?_append_right (Nat.le_refl _), Nat.sub_self]
    by_cases hb : boxOf mail = b <;> simp [hb]

theorem received_inv (h : Inv host s) (hw : s.work = .received pktHdr)
    (hs : s.postalDelivery host = some r) : ∃ s', r = .ok s' ∧ Inv host s' := by
  obtain ⟨mail, hmail, hreceiving⟩ := received_receiving h.receiving hw
  unfold State.postalDelivery at hs
  rw [hw] at hs
  dsimp only at hs
  rw [hmail] at hs
  obtain ⟨s', hin, rfl⟩ := Option.map_eq_some_iff.1 hs
  generalize hb : boxOf mail = b at hin hreceiving
  have hbox := h.boxes b
  have hnew : s.mails.length ∉ (s.boxes b).items := by
    rw [hbox.items]
    exact fun hm => absurd (List.mem_range.1 (List.mem_filter.1 hm).1) (Nat.lt_irrefl _)
  obtain ⟨m', hstep, hr', rfl⟩ := inBox_eq hin rfl hbox.reachable hnew
  obtain ⟨hc, rfl⟩ := SynchList.step_append hstep
  refine ⟨_, rfl, rfl, hreceiving _, ?_, h.worker, h.fits, ?_⟩
  · refine boxes_update ⟨hr', ?_, ?_, ?_, ?_, ?_, ?_, ?_, ?_, ?_⟩ fun b' hne => ?_
    · rw [addressed_concat rfl, if_pos hb]
      show (s.boxes b).items ++ _ = _
      rw [hbox.items]
    · rw [SynchList.State.code_goto_self]
      have hput := hbox.put
      rw [hc] at hput
      show appended (s.boxes b).log ++ [s.mails.length] = (s.boxes b).items ++ [s.mails.length]
      rw [← hput]
      exact congrArg (· ++ [s.mails.length]) (List.append_nil _).symm
    · intro a ha
      rw [SynchList.State.code_goto_self] at ha
      rw [List.mem_singleton.1 ha]
      show s.mails.length + 1 = (s.mails ++ [mail]).length
      rw [List.length_append]
      rfl
    · rw [SynchList.State.code_goto_self]
      exact iff_of_true (List.cons_ne_nil _ _) rfl
    · rw [SynchList.State.code_goto_self]
      rfl
    · refine SynchList.State.forall_goto (P := fun _ => Last) ?_ fun u _ => hbox.last u
      exact ⟨nofun, nofun, nofun, nofun, nofun, trivial⟩
    · intro t ht
      rw [SynchList.State.code_goto_of_ne ht]
      exact hbox.readers t ht
    · intro t ht hne
      rw [SynchList.State.code_goto_of_ne ht] at hne
      exact hbox.reading t ht hne
    · refine SynchList.State.forall_goto
        (P := fun t code => removedBy (s.boxes b).log t = s.receivedBy t b ++ (s.place t).gotFrom b ++
          returns code) ?_ fun u _ => hbox.taken u
      rw [hbox.taken postalWorker, hc]
      rfl
    · refine (h.boxes b').congr ?_ (.inr (h.idle (by rw [hw]; nofun))) ?_ (fun _ _ => rfl)
        fun _ => rfl
      · rw [addressed_concat rfl, hb, if_neg hne.symm, List.append_nil]
      · rw [hw]
        exact iff_of_false (fun he => hne (Work.put.inj he).symm) nofun
  · intro r hr
    have hold := h.receipts r hr
    have hlt : r.address < s.mails.length := by
      by_contra hge
      rw [List.getElem?_eq_none (Nat.not_lt.1 hge)] at hold
      cases hold
    show ((s.mails ++ [mail])[r.address]?).map contents = _
    rw [List.getElem?_append_left hlt]
    exact hold

theorem put_inv (h : Inv host s) (hw : s.work = .put b)
    (hs : s.postalDelivery host = some r) : ∃ s', r = .ok s' ∧ Inv host s' := by
  unfold State.postalDelivery at hs
  rw [hw] at hs
  obtain ⟨s1, hin, rfl⟩ := Option.map_eq_some_iff.1 hs
  have hbox := h.boxes b
  obtain ⟨m', hstep, hr', rfl⟩ := inBox_eq hin rfl hbox.reachable trivial
  have hwent := SynchList.step_went hbox.reachable hstep
  have hbusy : (s.boxes b).code postalWorker ≠ [] := hbox.working.2 hw
  have hnotReturned (item : Nat) : ((s.boxes b).code postalWorker).head? ≠ some (.returned item) := by
    intro hhead
    have hall := List.all_eq_true.1 hbox.appending _ (List.mem_of_mem_head? hhead)
    cases hall
  refine ⟨_, rfl, ?_⟩
  obtain ⟨work, hwork, hidle, hs'⟩ : ∃ work : Work, (work = .p ∨ work = .put b) ∧
      (m'.code postalWorker ≠ [] ↔ work = .put b) ∧
      (if (((update s.boxes b m') b).code postalWorker).isEmpty then
        { s with boxes := update s.boxes b m', stopped := none, work := .p }
      else { s with boxes := update s.boxes b m', stopped := none }) =
      { s with boxes := update s.boxes b m', stopped := none, work } := by
    split
    · rename_i hnil
      rw [update_self, List.isEmpty_iff] at hnil
      exact ⟨.p, .inl rfl, iff_of_false (fun hne => hne hnil) nofun, rfl⟩
    · rename_i hcons
      rw [update_self, List.isEmpty_iff] at hcons
      exact ⟨.put b, .inr rfl, iff_of_true hcons rfl, by rw [← hw]⟩
  dsimp only
  rw [hs']
  refine ⟨rfl, put_receiving h.receiving hw hwork _, ?_, h.worker, h.fits, h.receipts⟩
  refine boxes_update ⟨hr', ?_, ?_, ?_, hidle, ?_, ?_, ?_, ?_, ?_⟩ fun b' hne => ?_
  · exact hwent.items.trans hbox.items
  · rw [hwent.appended, hbox.put, hwent.items]
  · exact fun a ha => hbox.pending a (hwent.fewer a ha)
  · exact hwent.appending hbox.appending
  · intro t
    by_cases ht : t = postalWorker
    · subst ht
      exact hwent.last (hbox.last postalWorker)
    · rw [hwent.others t ht]
      exact hbox.last t
  · intro t ht
    rw [hwent.others t ht]
    exact hbox.readers t ht
  · intro t ht hne
    rw [hwent.others t ht] at hne
    exact hbox.reading t ht hne
  · exact hbox.went hwent hnotReturned
  · refine (h.boxes b').congr rfl (.inl rfl) ?_ (fun _ _ => rfl) fun _ => rfl
    rw [hw]
    refine iff_of_false (fun he => ?_) fun he => hne (Work.put.inj he).symm
    rcases hwork with rfl | rfl
    · cases he
    · exact hne (Work.put.inj he).symm

theorem Box.reader (h : Box s b m)
    (ht : t ≠ postalWorker) (hr : SynchList.Reachable m') (hothers : ∀ u, u ≠ t → m'.code u = m.code u)
    (hitems : m'.items = m.items) (happended : appended m'.log = appended m.log)
    (hnone : appends (m'.code t) = []) (hlast : Last (m'.code t))
    (hmails : s'.mails = s.mails) (hwork : s'.work = s.work)
    (hplace : ∀ u, u ≠ t → s'.place u = s.place u)
    (hreading : m'.code t ≠ [] → ∃ data, s'.place t = .get b data)
    (htaken : ∀ u, removedBy m'.log u =
      s'.receivedBy u b ++ (s'.place u).gotFrom b ++ returns (m'.code u)) : Box s' b m' := by
  have hworker := hothers postalWorker ht.symm
  refine ⟨hr, ?_, ?_, ?_, ?_, ?_, fun u => ?_, fun u hu => ?_, fun u hu hne => ?_, htaken⟩
  · rw [hitems, h.items, State.addressed, State.addressed, hmails]
  · rw [happended, hworker, hitems]
    exact h.put
  · rw [hworker, hmails]
    exact h.pending
  · rw [hworker, hwork]
    exact h.working
  · rw [hworker]
    exact h.appending
  all_goals by_cases hut : u = t
  · exact hut ▸ hlast
  · rw [hothers u hut]
    exact h.last u
  · exact hut ▸ hnone
  · rw [hothers u hut]
    exact h.readers u hu
  · subst hut
    exact hreading hne
  · rw [hothers u hut] at hne
    rw [hplace u hut]
    exact h.reading u hu hne

theorem Box.appended_eq (h : Box s b m) (ht : t ≠ postalWorker) (hw : SynchList.Went m t m') :
    appended m'.log = appended m.log ∧ appends (m'.code t) = [] := by
  have hnone : appends (m'.code t) = [] := by
    refine List.eq_nil_iff_forall_not_mem.2 fun a ha => ?_
    have hold := hw.fewer a ha
    rw [h.readers t ht] at hold
    cases hold
  have happended := hw.appended
  rw [hnone, h.readers t ht, List.append_nil, List.append_nil] at happended
  exact ⟨happended, hnone⟩

theorem Box.elsewhere {b' : Nat} (h : Box s b' m) (place : Place)
    (hne : b' ≠ b) (hold : s.place t = .outside ∨ (∃ data, s.place t = .get b data) ∨
      ∃ data address, s.place t = .got b data address)
    (hnew : place.gotFrom b' = []) (ht : t ≠ postalWorker) (hmails : s'.mails = s.mails)
    (hwork : s'.work = s.work) (hplace : s'.place = update s.place t place)
    (hreceived : ∀ u, s'.receivedBy u b' = s.receivedBy u b') : Box s' b' m := by
  have hgot : (s.place t).gotFrom b' = [] := by
    rcases hold with ho | ⟨data, ho⟩ | ⟨data, address, ho⟩ <;> rw [ho]
    · rfl
    · rfl
    · exact if_neg hne.symm
  refine h.congr ?_ (.inl (by rw [hmails])) (by rw [hwork]) (fun u hu => ?_) fun u => ?_
  · rw [State.addressed, State.addressed, hmails]
  · have hut : u ≠ t := by
      rintro rfl
      obtain ⟨data, hget⟩ := h.reading u ht hu
      rcases hold with ho | ⟨data', ho⟩ | ⟨data', address, ho⟩ <;> rw [ho] at hget
      · cases hget
      · exact hne (Place.get.inj hget).1.symm
      · cases hget
    rw [hplace, update_of_ne hut]
  · rw [hreceived, hplace]
    by_cases hut : u = t
    · subst hut
      rw [update_self, hnew, hgot]
    · rw [update_of_ne hut]

theorem Receiving.setPlace (h : Receiving host s) (t : Tid) (place : Place)
    (boxes : Nat → SynchList.State Nat) (receipts : List Receipt) :
    Receiving host { s.setPlace t place with boxes, receipts, stopped := none } :=
  ⟨h.socket, h.sent, h.inbox, h.buffer, h.value, h.queue, h.copied, h.hand, h.mails⟩

theorem receive_inv (h : Inv host s) {box : Int} {data : Vector Byte maxMailSize}
    (hbox : 0 ≤ box ∧ box < host.numBoxes)
    (hs : s.receive host t box data.toList = some r) : ∃ s', r = .ok s' ∧ Inv host s' := by
  unfold State.receive at hs
  rw [if_pos hbox] at hs
  split at hs
  · cases hs
  rename_i hout
  obtain ⟨ht, hplace⟩ := not_or.1 hout
  have hplace := not_not.1 hplace
  obtain ⟨s', hin, rfl⟩ := Option.map_eq_some_iff.1 hs
  generalize box.toNat = b at hin
  have hb := h.boxes b
  obtain ⟨m', hstep, hr', rfl⟩ := inBox_eq hin rfl hb.reachable trivial
  obtain ⟨hc, rfl⟩ := SynchList.step_removeFront hstep
  have hc : (s.boxes b).code t = [] := hc
  refine ⟨_, rfl, rfl, h.receiving.setPlace t _ _ _, ?_, ?_, ?_, h.receipts⟩
  · refine boxes_update ?_ fun b' hne => ?_
    · refine hb.reader ht hr' (fun u hu => SynchList.State.code_goto_of_ne hu) rfl rfl ?_ ?_ rfl rfl
        (fun u hu => update_of_ne hu _ _) (fun _ => ⟨data.toList, update_self ..⟩) ?_
      · rw [SynchList.State.code_goto_self]
        rfl
      · rw [SynchList.State.code_goto_self]
        exact ⟨nofun, nofun, fun _ => rfl, trivial⟩
      · intro u
        show removedBy (s.boxes b).log u = s.receivedBy u b ++ (update s.place t _ u).gotFrom b ++ _
        by_cases hu : u = t
        · subst hu
          rw [SynchList.State.code_goto_self, update_self, hb.taken u, hplace, hc]
          rfl
        · rw [SynchList.State.code_goto_of_ne hu, update_of_ne hu]
          exact hb.taken u
    · exact (h.boxes b').elsewhere (.get b data.toList) hne (.inl hplace) rfl ht rfl rfl rfl fun _ => rfl
  · exact (update_of_ne (Ne.symm ht) _ _).trans h.worker
  · exact (forall_update_iff s.place (p := fun _ => Place.Fits)).2
      ⟨data.length_toList, fun u _ => h.fits u⟩

theorem get_inv (h : Inv host s) (hplace : s.place t = .get b data)
    (hs : s.go t = some r) : ∃ s', r = .ok s' ∧ Inv host s' := by
  have hb := h.boxes b
  have ht := h.reader_of_place (t := t) (by rw [hplace]; nofun)
  have hfits : data.length = maxMailSize := by
    have := h.fits t
    rwa [hplace] at this
  unfold State.go at hs
  rw [hplace] at hs
  dsimp only at hs
  split at hs
  · rename_i address hc
    obtain ⟨s', hin, rfl⟩ := Option.map_eq_some_iff.1 hs
    obtain ⟨m', hstep, hr', rfl⟩ := inBox_eq hin rfl hb.reachable trivial
    have hw := SynchList.step_went hb.reachable hstep
    obtain ⟨happended, hnone⟩ := hb.appended_eq ht hw
    obtain ⟨hc', hremoved⟩ := hw.returned address (by rw [hc]; rfl)
    rw [hc] at hc'
    refine ⟨_, rfl, rfl, h.receiving.setPlace t _ _ _, ?_, ?_, ?_, h.receipts⟩
    · refine boxes_update ?_ fun b' hne => ?_
      · refine hb.reader ht hr' hw.others hw.items happended hnone (hw.last (hb.last t)) rfl rfl
          (fun u hu => update_of_ne hu _ _) (fun hne => absurd hc' hne) ?_
        intro u
        show removedBy m'.log u = s.receivedBy u b ++ (update s.place t _ u).gotFrom b ++ _
        by_cases hu : u = t
        · subst hu
          rw [update_self, hremoved, hb.taken u, hplace, hc, hc']
          simp [Place.gotFrom, returns, SynchList.Frame.returned?]
        · rw [update_of_ne hu, hw.removedOthers u hu, hw.others u hu]
          exact hb.taken u
      · exact (h.boxes b').elsewhere (.got b data address) hne (.inr (.inl ⟨data, hplace⟩))
          (if_neg hne.symm) ht rfl rfl rfl fun _ => rfl
    · exact (update_of_ne ht.symm _ _).trans h.worker
    · exact (forall_update_iff s.place (p := fun _ => Place.Fits)).2 ⟨hfits, fun u _ => h.fits u⟩
  · rename_i hnot
    obtain ⟨s', hin, rfl⟩ := Option.map_eq_some_iff.1 hs
    obtain ⟨m', hstep, hr', rfl⟩ := inBox_eq hin rfl hb.reachable trivial
    have hw := SynchList.step_went hb.reachable hstep
    obtain ⟨happended, hnone⟩ := hb.appended_eq ht hw
    have hhead (item : Nat) : ((s.boxes b).code t).head? ≠ some (.returned item) := by
      intro he
      obtain ⟨rest, hc⟩ := List.head?_eq_some_iff.1 he
      have hlast := hb.last t
      rw [hc] at hlast
      rw [hlast.1 rfl] at hc
      exact hnot item hc
    refine ⟨_, rfl, rfl, ?_, ?_, h.worker, h.fits, h.receipts⟩
    · have := h.receiving
      exact ⟨this.socket, this.sent, this.inbox, this.buffer, this.value, this.queue, this.copied, this.hand,
        this.mails⟩
    · refine boxes_update ?_ fun b' hne => ?_
      · exact hb.reader ht hr' hw.others hw.items happended hnone (hw.last (hb.last t)) rfl rfl
          (fun _ _ => rfl) (fun _ => ⟨data, hplace⟩) (hb.went hw hhead)
      · exact (h.boxes b').congr rfl (.inl rfl) .rfl (fun _ _ => rfl) fun _ => rfl

theorem Box.lt_of_removed (h : Box s b m) {a : Nat}
    (ha : a ∈ removedBy m.log t) : a < s.mails.length := by
  have hremoved : a ∈ removed m.log := by
    obtain ⟨op, hop, he⟩ := List.mem_filterMap.1 ha
    refine List.mem_filterMap.2 ⟨op, hop, ?_⟩
    cases op with
    | append u item => cases he
    | removeFront u item =>
      simp only [QueueOp.removedBy?, Option.ite_none_right_eq_some] at he
      exact he.2
  have hfifo := removed_append_of_replay (SynchList.reachable_inv h.reachable).1.items.queue
  have hitem : a ∈ m.items := by
    rw [← h.put, ← hfifo]
    exact List.mem_append_left _ (List.mem_append_left _ hremoved)
  rw [h.items] at hitem
  exact List.mem_range.1 (List.mem_filter.1 hitem).1

theorem receivedBy_concat {r : Receipt} (hr : s'.receipts = s.receipts ++ [r]) (t : Tid) (b : Nat) :
    s'.receivedBy t b = s.receivedBy t b ++ if r.thread = t ∧ r.box = b then [r.address] else [] := by
  unfold State.receivedBy
  rw [hr, List.filter_append, List.map_append, List.filter_singleton]
  by_cases hm : r.thread = t ∧ r.box = b
  · rw [if_pos hm, decide_eq_true hm]
    rfl
  · rw [if_neg hm, decide_eq_false hm]
    rfl

theorem finish_inv (h : Inv host s) {address : Nat}
    (hplace : s.place t = .got b data address) : ∃ s', s.finish t b data address = .ok s' ∧ Inv host s' := by
  have hb := h.boxes b
  have ht := h.reader_of_place (t := t) (by rw [hplace]; nofun)
  have hfits : data.length = maxMailSize := by
    have := h.fits t
    rwa [hplace] at this
  have hidle := h.idle_of_got hplace
  have htaken : removedBy (s.boxes b).log t = s.receivedBy t b ++ [address] := by
    rw [hb.taken t, hplace, hidle b, Place.gotFrom, if_pos rfl]
    exact List.append_nil _
  have hlt : address < s.mails.length :=
    hb.lt_of_removed (t := t) (by rw [htaken]; exact List.mem_append_right _ (.head _))
  obtain ⟨copy, hget, hlength, hcopy⟩ := h.receiving.get_ok (List.getElem_mem hlt) hfits
  have hstopped : s.stopped = none := h.stopped
  refine ⟨{ s.setPlace t .outside with receipts := s.receipts ++ [⟨t, b, address, copy⟩] }, ?_, ?_⟩
  · unfold State.finish
    rw [List.getElem?_eq_getElem hlt]
    dsimp only
    rw [hget, ok_bind, assert_of hlength]
    rfl
  · have hreceived (u : Tid) (b' : Nat) : State.receivedBy { s.setPlace t .outside with
        receipts := s.receipts ++ [⟨t, b, address, copy⟩] } u b' =
        s.receivedBy u b' ++ if t = u ∧ b = b' then [address] else [] :=
      receivedBy_concat (r := ⟨t, b, address, copy⟩) rfl u b'
    refine ⟨hstopped, ?_, fun b' => ?_, ?_, ?_, ?_⟩
    · have hr := h.receiving.setPlace t .outside s.boxes (s.receipts ++ [⟨t, b, address, copy⟩])
      rw [← hstopped] at hr
      exact hr
    · by_cases hne : b' = b
      · subst hne
        refine hb.reader ht hb.reachable (fun _ _ => rfl) rfl rfl (hb.readers t ht) (hb.last t) rfl rfl
          (fun u hu => update_of_ne hu _ _) (fun hc => absurd (hidle b') hc) fun u => ?_
        rw [hreceived]
        show removedBy (s.boxes b').log u = _ ++ (update s.place t .outside u).gotFrom b' ++
          returns ((s.boxes b').code u)
        by_cases hu : u = t
        · subst hu
          rw [update_self, htaken, if_pos ⟨rfl, rfl⟩, hidle b']
          simp [Place.gotFrom, returns]
        · rw [update_of_ne hu, if_neg (fun hc => hu hc.1.symm), List.append_nil]
          exact hb.taken u
      · refine (h.boxes b').elsewhere .outside hne (.inr (.inr ⟨data, address, hplace⟩)) rfl ht rfl rfl
          rfl fun u => ?_
        rw [hreceived, if_neg (fun hc => hne hc.2.symm), List.append_nil]
    · exact (update_of_ne ht.symm _ _).trans h.worker
    · exact (forall_update_iff s.place (p := fun _ => Place.Fits)).2
        ⟨trivial, fun u _ => h.fits u⟩
    · intro r hr
      rcases List.mem_append.1 hr with hr | hr
      · exact h.receipts r hr
      · rw [List.mem_singleton.1 hr]
        show (s.mails[address]?).map contents = some (contents copy)
        rw [List.getElem?_eq_getElem hlt, hcopy]
        rfl

/-! ## Runs -/

theorem start_inv (inHdr : Header) (inbox buffer : Vector Byte maxPacketSize) :
    Inv host (start inHdr inbox buffer) := by
  refine ⟨rfl, ⟨nofun, nofun, inbox.length_toList, buffer.length_toList, rfl, .inl rfl, rfl, nofun, rfl⟩,
    fun b => ?_, rfl, fun _ => trivial, nofun⟩
  exact ⟨.start, rfl, rfl, nofun, iff_of_false (fun h => h rfl) nofun, rfl, fun _ => trivial, fun _ _ => rfl,
    fun _ _ h => absurd rfl h, fun _ => rfl⟩

theorem next_inv (h : Inv host s) {event : Event} (hl : Legal host s event)
    (hs : next host s event = some r) : ∃ s', r = .ok s' ∧ Inv host s' := by
  cases event with
  | arrives packet =>
    cases hs
    have hr := h.receiving
    refine ⟨_, rfl, h.aside ⟨?_, hr.sent, hr.inbox, hr.buffer, hr.value, hr.queue, hr.copied, hr.hand,
      hr.mails⟩ ⟨rfl, rfl, rfl, rfl, rfl, fun _ => .rfl⟩⟩
    intro packet' hm
    rcases List.mem_append.1 hm with hm | hm
    · exact hr.socket packet' hm
    · rw [List.mem_singleton.1 hm]
      exact hl
  | poll =>
    obtain ⟨s', hpoll, hr, ha⟩ := poll_receiving h.receiving
    cases hs
    exact ⟨s', hpoll, h.aside hr ha⟩
  | deliver =>
    cases hw : s.work with
    | p =>
      by_cases hq : postalWorker ∈ s.messageAvailable.queue
      · have hnone : s.postalDelivery host = none := by
          unfold State.postalDelivery
          rw [hw]
          exact if_pos hq
        cases hnone.symm.trans hs
      · obtain ⟨s', hp, hr, ha⟩ := p_receiving h.receiving hw hq
        cases hp.symm.trans hs
        exact ⟨s', rfl, h.aside hr ha⟩
    | receive =>
      obtain ⟨s', hp, hr, ha⟩ := receive_receiving h.receiving hw
      cases hp.symm.trans hs
      exact ⟨s', rfl, h.aside hr ha⟩
    | received pktHdr => exact received_inv h hw hs
    | put b => exact put_inv h hw hs
  | receive t box data => exact receive_inv h hl hs
  | go t =>
    cases hplace : s.place t with
    | outside =>
      have hnone : s.go t = none := by rw [State.go, hplace]
      cases hnone.symm.trans hs
    | get b data => exact get_inv h hplace hs
    | got b data address =>
      obtain ⟨s', hfinish, hi⟩ := finish_inv h hplace
      have hgo : s.go t = some (s.finish t b data address) := by rw [State.go, hplace]
      cases hgo.symm.trans hs
      exact ⟨s', hfinish, hi⟩

theorem step_inv (h : Inv host s) {event : Event} (hl : Legal host s event)
    (hs : step host s event = some s') : Inv host s' := by
  unfold step at hs
  split at hs
  · cases hs
  obtain ⟨r, hr, hs⟩ := Option.map_eq_some_iff.1 hs
  obtain ⟨s1, rfl, hi⟩ := next_inv h hl hr
  cases hs
  exact hi

theorem runs_inv {inHdr : Header} {inbox buffer : Vector Byte maxPacketSize}
    (h : Runs (step host) (Legal host) (start inHdr inbox buffer) s) : Inv host s :=
  Runs.invariant h (start_inv inHdr inbox buffer) fun _ _ _ hi hl hs => step_inv hi hl hs

/-! ## Delivery -/

theorem Inv.exists_put (h : Inv host s) : ∃ n,
    (n = s.mails.length ∨ n + 1 = s.mails.length ∧ ∃ b, s.work = .put b) ∧
    ∀ b, appended (s.boxes b).log =
      (List.range n).filter fun a => s.mails[a]?.any fun mail => decide (boxOf mail = b) := by
  by_cases hall : ∀ b, appends ((s.boxes b).code postalWorker) = []
  · refine ⟨s.mails.length, .inl rfl, fun b => ?_⟩
    have hput := (h.boxes b).put
    rw [hall b, List.append_nil] at hput
    rw [hput, (h.boxes b).items]
    rfl
  · obtain ⟨b0, hne⟩ := not_forall.1 hall
    obtain ⟨n, rest, hn⟩ := List.exists_cons_of_ne_nil hne
    have hlast : n + 1 = s.mails.length := (h.boxes b0).pending n (by rw [hn]; exact .head _)
    have hbusy : s.work = .put b0 := by
      refine (h.boxes b0).working.1 fun hnil => hne ?_
      rw [hnil]
      rfl
    have hsplit (b : Nat) : s.addressed b =
        ((List.range n).filter fun a => s.mails[a]?.any fun mail => decide (boxOf mail = b)) ++
          [n].filter fun a => s.mails[a]?.any fun mail => decide (boxOf mail = b) := by
      rw [State.addressed, ← hlast, List.range_succ, List.filter_append]
    have hput := (h.boxes b0).put
    rw [hn, (h.boxes b0).items] at hput
    have hrest : rest = [] := by
      have hnodup : (appended (s.boxes b0).log ++ n :: rest).Nodup := by
        rw [hput]
        exact List.nodup_range.filter _
      have hnot : n ∉ rest := (List.nodup_cons.1 (List.nodup_append.1 hnodup).2.1).1
      refine List.eq_nil_iff_forall_not_mem.2 fun a ha => hnot ?_
      have hlast' := (h.boxes b0).pending a (by rw [hn]; exact .tail _ ha)
      have he : a = n := Nat.succ.inj (hlast'.trans hlast.symm)
      exact he ▸ ha
    have hmem : n ∈ s.addressed b0 := by
      rw [← hput]
      exact List.mem_append_right _ (.head _)
    have hbox := (List.mem_filter.1 hmem).2
    rw [hrest, hsplit, List.filter_singleton, hbox] at hput
    refine ⟨n, .inr ⟨hlast, b0, hbusy⟩, fun b => ?_⟩
    by_cases hb : b = b0
    · rw [hb]
      exact List.append_cancel_right hput
    · have hidle := h.idle (b := b) (by rw [hbusy]; exact fun he => hb (Work.put.inj he).symm)
      have hother : (s.mails[n]?.any fun mail => decide (boxOf mail = b)) = false := by
        obtain ⟨mail, hm, he⟩ := (Option.any_eq_true _ _).1 hbox
        rw [hm]
        refine decide_eq_false fun he' => hb ?_
        rw [← he', of_decide_eq_true he]
      have hput' := (h.boxes b).put
      rw [hidle, (h.boxes b).items, hsplit, List.filter_singleton, hother] at hput'
      simpa [appends] using hput'

theorem returns_le_one {code : List (SynchList.Frame Nat)} (h : Last code) : (returns code).length ≤ 1 := by
  induction code with
  | nil => exact Nat.zero_le 1
  | cons f code ih =>
    cases f with
    | returned item =>
      rw [h.1 rfl]
      exact Nat.le_refl 1
    | _ => exact ih h.2

/-- The worker, and the threads in `Receive`, can do nothing more. -/
def Quiet (host : Host) (s : State) : Prop :=
  step host s .deliver = none ∧ ∀ t, step host s (.go t) = none

theorem Inv.asleep_of_quiet (h : Inv host s) (hq : Quiet host s) :
    s.work = .p ∧ postalWorker ∈ s.messageAvailable.queue := by
  have hnext {event : Event} (hs : step host s event = none) : next host s event = none := by
    unfold step at hs
    rw [h.stopped] at hs
    exact Option.map_eq_none_iff.1 hs
  have hdeliver : s.postalDelivery host = none := hnext hq.1
  cases hw : s.work with
  | p =>
    by_contra hawake
    obtain ⟨s', hp, -⟩ := p_receiving h.receiving hw fun hm => hawake ⟨rfl, hm⟩
    cases hp.symm.trans hdeliver
  | receive =>
    obtain ⟨s', hp, -⟩ := receive_receiving h.receiving hw
    cases hp.symm.trans hdeliver
  | received pktHdr =>
    exfalso
    obtain ⟨mail, hmail, -⟩ := received_receiving h.receiving hw
    unfold State.postalDelivery at hdeliver
    rw [hw] at hdeliver
    dsimp only at hdeliver
    rw [hmail] at hdeliver
    have hnone := Option.map_eq_none_iff.1 (Option.map_eq_none_iff.1 hdeliver)
    have hidle := h.idle (b := boxOf mail) (by rw [hw]; nofun)
    have hgoing := (SynchList.reachable_inv (h.boxes (boxOf mail)).reachable).2
    simp [SynchList.step, SynchList.State.next, hidle, hgoing] at hnone
  | put b =>
    exfalso
    have hb := h.boxes b
    obtain ⟨u, hcode, hawake⟩ := SynchList.someone_goes hb.reachable (hb.working.2 hw) hb.appending
    obtain ⟨m', hgo⟩ := SynchList.go_possible hb.reachable hcode hawake
    have hin : s.inBox b (.go u) ≠ none := by
      unfold State.inBox
      rw [hgo]
      simp
    by_cases hu : u = postalWorker
    · subst hu
      unfold State.postalDelivery at hdeliver
      rw [hw] at hdeliver
      exact hin (Option.map_eq_none_iff.1 hdeliver)
    · obtain ⟨data, hplace⟩ := hb.reading u hu hcode
      have hnone : s.go u = none := hnext (hq.2 u)
      unfold State.go at hnone
      rw [hplace] at hnone
      dsimp only at hnone
      split at hnone
      · have hnone := Option.map_eq_none_iff.1 hnone
        unfold State.inBox at hnone
        rw [show (s.setPlace u _).boxes = s.boxes from rfl, hgo] at hnone
        cases hnone
      · exact hin (Option.map_eq_none_iff.1 hnone)

/-- The first `n` packets that were read are delivered, and no others. -/
structure Delivered (host : Host) (s : State) (n : Nat) : Prop where
  /-- one packet is in the inbox, and one in the worker's hands, at most -/
  underWay : n ≤ s.read.length ∧ s.read.length ≤ n + 2
  /-- what was put into a mailbox are the packets that name it, each once, in the order of their arrival -/
  put : ∀ b, (appended (s.boxes b).log).map (fun a => s.mails[a]?.map contents) =
    (((s.read.take n).map (mailOf host.cfg)).filter fun mail => decide (boxOf mail = b)).map some
  /-- mail is removed from a mailbox in the order in which it was put there -/
  order : ∀ b, removed (s.boxes b).log ++ (s.boxes b).list = appended (s.boxes b).log
  /-- a thread receives what it has removed, in that order -/
  received : ∀ t b, ∃ inHand, inHand.length ≤ 1 ∧
    removedBy (s.boxes b).log t = s.receivedBy t b ++ inHand
  contents : ∀ r ∈ s.receipts, s.mails[r.address]?.map contents = some (contents r.mail)
  all : Quiet host s → n = s.read.length

/-- **Mail is delivered.** In every state of every run of the network's interrupts, the postal worker and
any threads that receive, with mail for the mailboxes of this host: no `ASSERT` has failed; the packets
that were read are, in order, those that the worker has copied out of the inbox, and one more at most; and
all but two at most are delivered. -/
theorem mail_delivered {host : Host} {inHdr : Header} {inbox buffer : Vector Byte maxPacketSize} {s : State}
    (h : Runs (step host) (Legal host) (start inHdr inbox buffer) s) :
    s.stopped = none ∧
    (∃ inInbox, inInbox.length ≤ 1 ∧ s.copied ++ inInbox = s.read.map (payload host.cfg)) ∧
    ∃ n, Delivered host s n := by
  have hi := runs_inv h
  have hr := hi.receiving
  have hinbox : s.inInbox.length ≤ 1 := by
    unfold State.inInbox
    split
    · exact Nat.zero_le 1
    · exact Nat.le_refl 1
  have hcopied := congrArg List.length hr.copied
  have hmails := congrArg List.length hr.mails
  rw [List.length_append, List.length_map] at hcopied
  rw [List.length_append, List.length_map, List.length_map, List.length_map] at hmails
  have hhand : s.inHand.length ≤ 1 := by
    unfold State.inHand
    split
    · exact Nat.le_refl 1
    all_goals exact Nat.zero_le 1
  refine ⟨hi.stopped, ⟨s.inInbox, hinbox, hr.copied⟩, ?_⟩
  obtain ⟨n, hn, hput⟩ := hi.exists_put
  have hle : n ≤ s.mails.length := by
    rcases hn with hn | ⟨hn, -⟩ <;> omega
  have hread : (s.read.take n).map (mailOf host.cfg) = (s.mails.take n).map contents := by
    have hall : s.read.map (mailOf host.cfg) = s.mails.map contents ++
        (s.inHand.map (mailIn host.cfg) ++ s.inInbox.map (mailIn host.cfg)) := by
      have hmap : s.read.map (mailOf host.cfg) = (s.read.map (payload host.cfg)).map (mailIn host.cfg) := by
        rw [List.map_map]
        rfl
      rw [hmap, ← hr.copied, List.map_append, ← hr.mails, List.append_assoc]
    rw [List.map_take, hall, List.take_append_of_le_length (by rw [List.length_map]; exact hle),
      ← List.map_take]
  refine ⟨n, ⟨?_, ?_⟩, fun b => ?_, fun b => ?_, fun t b => ?_, hi.receipts, fun hq => ?_⟩
  · omega
  · rcases hn with hn | ⟨hn, b, hw⟩
    · omega
    · rw [State.inHand_eq_nil (by rw [hw]; nofun), List.length_nil] at hmails
      omega
  · have hlist := map_getElem?_filter_range s.mails (fun mail => decide (boxOf mail = b)) hle
    rw [hput b, hread, List.filter_map]
    have hmap := congrArg (List.map (Option.map contents)) hlist
    rw [List.map_map, List.map_map] at hmap
    rw [List.map_map]
    exact hmap
  · exact removed_append_of_replay (SynchList.reachable_inv (hi.boxes b).reachable).1.items.queue
  · refine ⟨(s.place t).gotFrom b ++ returns ((s.boxes b).code t), ?_, ?_⟩
    · rw [List.length_append]
      cases hplace : s.place t with
      | outside | get box data =>
        rw [Place.gotFrom, List.length_nil, Nat.zero_add]
        exact returns_le_one ((hi.boxes b).last t)
      | got box data address =>
        rw [hi.idle_of_got hplace b, Place.gotFrom]
        split
        · exact Nat.le_refl 1
        · exact Nat.zero_le 1
    · rw [(hi.boxes b).taken t, List.append_assoc]
  · obtain ⟨hw, hasleep⟩ := hi.asleep_of_quiet hq
    have hempty : s.inInbox = [] := by
      rcases hr.queue with hq | ⟨-, -, hempty⟩
      · rw [hq] at hasleep
        cases hasleep
      · exact hempty
    have hnone : s.inHand = [] := State.inHand_eq_nil (by rw [hw]; nofun)
    rw [hempty, List.length_nil] at hcopied
    rw [hnone, List.length_nil] at hmails
    rcases hn with hn | ⟨-, b, hput⟩
    · omega
    · rw [hw] at hput
      cases hput

def tenBoxes : Host := ⟨buildLinux, 1, 10, fun _ => zeros _⟩

def sentBytes (data : List Byte) : List Byte :=
  ((PostOfficeOutput.send buildLinux 0 false ⟨1, 0, 0⟩ ⟨3, 2, BitVec.ofNat 32 data.length⟩ data
    (zeros maxPacketSize).toList (zeros maxWireSize).toList).toOption).getD []

def fiveBytes : List Byte := sentBytes [1, 2, 3, 4, 5]

def twoBytes : List Byte := sentBytes [6, 7]

/-- Thread 1 sleeps until the worker delivers the first packet. The second is in the mailbox before it has
taken the first mail out; then it receives that too. -/
def twoMails : List Event :=
  [.receive 1 3 (zeros _)] ++ List.replicate 7 (.go 1) ++ [.arrives fiveBytes, .poll] ++
    List.replicate 11 .deliver ++ [.arrives twoBytes, .poll] ++ List.replicate 10 .deliver ++
    List.replicate 10 (.go 1) ++ [.receive 1 3 (zeros _)] ++ List.replicate 8 (.go 1)

theorem fiveBytes_sent : Sent tenBoxes fiveBytes :=
  ⟨0, ⟨1, 0, 0⟩, ⟨3, 2, 5⟩, [1, 2, 3, 4, 5], zeros _, zeros _, by decide +kernel, rfl, rfl, by decide⟩

theorem twoBytes_sent : Sent tenBoxes twoBytes :=
  ⟨0, ⟨1, 0, 0⟩, ⟨3, 2, 2⟩, [6, 7], zeros _, zeros _, by decide +kernel, rfl, rfl, by decide⟩

theorem mail_delivered_two : ∃ s : State,
    Runs (step tenBoxes) (Legal tenBoxes) (start ⟨0, 0, 0⟩ (zeros _) (zeros _)) s ∧
      s.receipts.map (fun r => contents r.mail) =
        [⟨⟨1, 0, 17⟩, ⟨3, 2, 5⟩, [1, 2, 3, 4, 5]⟩, ⟨⟨1, 0, 14⟩, ⟨3, 2, 2⟩, [6, 7]⟩] ∧
      s.stopped = none ∧ ∃ n, Delivered tenBoxes s n := by
  have h : (runChecked (step tenBoxes) (fun _ event => match event with
      | .arrives packet => decide (packet = fiveBytes ∨ packet = twoBytes)
      | .receive _ box _ => decide (0 ≤ box ∧ box < 10)
      | _ => true) (start ⟨0, 0, 0⟩ (zeros _) (zeros _)) twoMails).any (fun s =>
        decide (s.receipts.map (fun r => contents r.mail) =
          [⟨⟨1, 0, 17⟩, ⟨3, 2, 5⟩, [1, 2, 3, 4, 5]⟩, ⟨⟨1, 0, 14⟩, ⟨3, 2, 2⟩, [6, 7]⟩])) = true := by
    decide +kernel
  obtain ⟨s, hs, hmail⟩ := (Option.any_eq_true _ _).1 h
  have hrun : Runs (step tenBoxes) (Legal tenBoxes) (start ⟨0, 0, 0⟩ (zeros _) (zeros _)) s := by
    refine runs_of_runChecked (fun s event hc => ?_) hs
    cases event with
    | arrives packet =>
      rcases (show packet = fiveBytes ∨ packet = twoBytes from of_decide_eq_true hc) with rfl | rfl
      · exact fiveBytes_sent
      · exact twoBytes_sent
    | receive t box data => exact of_decide_eq_true (p := 0 ≤ box ∧ box < 10) hc
    | poll | deliver | go t => trivial
  obtain ⟨hstop, -, hdelivered⟩ := mail_delivered hrun
  exact ⟨s, hrun, of_decide_eq_true hmail, hstop, hdelivered⟩

end PostOffice

end Nachos
