import Nachos.Network.Relay
import Nachos.Machine.SendBusy

/-! # The mail of a relay

What a machine sends is what the machine it is addressed to receives: the packets between them
carry the message with its header, and a mailbox holds the letters of the packets for it that the
postal worker has put.
-/
namespace Nachos

theorem Buffer.header_eq {p : Packet} {hdr : PacketHeader} {bytes : List Byte}
    (h : PacketHeader.codec.encode hdr ++ bytes <+: p.bytes) : p.header = hdr := by
  obtain ⟨rest,hrest⟩ := h
  have hsize := PacketHeader.codec.length_encode hdr
  rw [PacketHeader.codec_size] at hsize
  rw [Buffer.header, ← hrest, List.append_assoc, List.take_left' hsize,
    PacketHeader.codec.decode_encode]

theorem Buffer.data_eq {p : Packet} {hdr : PacketHeader} {bytes : List Byte}
    (h : PacketHeader.codec.encode hdr ++ bytes <+: p.bytes)
    (hlen : hdr.length.toNat = bytes.length) : p.data = bytes := by
  have hhdr := Buffer.header_eq h
  obtain ⟨rest,hrest⟩ := h
  have hsize := PacketHeader.codec.length_encode hdr
  rw [PacketHeader.codec_size] at hsize
  rw [Buffer.data, hhdr, ← hrest, List.append_assoc, List.drop_left' hsize, hlen, List.take_left]

theorem PostOffice.send_lost {po : PostOffice} {mailHdr : MailHeader} {data : List Byte}
    (pktHdr : PacketHeader) (hlegal : mailHdr.Legal po.numBoxes)
    (hdata : mailHdr.length.toNat ≤ data.length) (buffer : Buffer maxPacketSize) (wire : Packet) :
    po.send pktHdr mailHdr data buffer wire true = .ok none := by
  have hlen := hlegal.2.2
  have hsize := MailHeader.codec.length_encode mailHdr
  rw [MailHeader.codec_size] at hsize
  have htake : (data.take mailHdr.length.toNat).length = mailHdr.length.toNat := by
    rw [List.length_take]
    omega
  obtain ⟨b₁,h₁,hp₁⟩ := Buffer.put_start buffer (MailHeader.codec.encode mailHdr)
    (by rw [hsize]; decide)
  obtain ⟨b₂,h₂,-⟩ := Buffer.put_prefix (data.take mailHdr.length.toNat) hp₁ (by
    unfold maxMailSize maxPacketSize maxWireSize at *
    omega)
  rw [hsize, ← MailHeader.codec_size] at h₂
  have hstamp : (po.stamp pktHdr mailHdr).length.toNat = _ := PostOffice.length_stamp hlen
  have hchecks : po.network.sendBusy = false ∧ 0 < (po.stamp pktHdr mailHdr).length.toNat ∧
      (po.stamp pktHdr mailHdr).length.toNat ≤ maxPacketSize ∧
      (po.stamp pktHdr mailHdr).fromAddr = po.network.ident := by
    refine ⟨po.sendBusy_eq,by omega,?_,po.ident_eq.symm⟩
    unfold maxMailSize maxPacketSize maxWireSize at *
    omega
  have hsend : po.network.send (po.stamp pktHdr mailHdr) b₂ wire true = .ok none := by
    rw [Network.send, if_neg (not_not.mpr hchecks)]
    rfl
  rw [PostOffice.send, if_neg (not_not.mpr hlegal)]
  simp only [h₁, firstBytes, if_pos hdata, h₂, Outcome.ok_bind]
  exact hsend

def Buffer.mailbox (p : Packet) : Word := (MailHeader.codec.decode (p.data.take 12)).toBox

theorem Buffer.mailbox_eq {p : Packet} {mailHdr : MailHeader} {body : List Byte}
    (h : p.data = MailHeader.codec.encode mailHdr ++ body) : p.mailbox = mailHdr.toBox := by
  have hsize := MailHeader.codec.length_encode mailHdr
  rw [MailHeader.codec_size] at hsize
  rw [Buffer.mailbox, h, List.take_left' hsize, MailHeader.codec.decode_encode]

theorem count_letters (box : Word) {ps : List Packet} {ls : List Letter}
    (h : List.Forall₂ Carries ps ls) :
    (ls.filter fun l => l.box = box.toInt).length = ps.countP fun p => p.mailbox = box := by
  induction h with
  | nil => rfl
  | @cons p l ps ls hcarries _ ih =>
    obtain ⟨body,hbody,-⟩ := hcarries.mail
    have hiff : l.box = box.toInt ↔ p.mailbox = box := by
      rw [Buffer.mailbox_eq hbody, Letter.box, BitVec.toInt_inj]
    by_cases hbox : p.mailbox = box
    · rw [List.filter_cons_of_pos (by simpa using hiff.mpr hbox),
        List.countP_cons_of_pos (by simpa using hbox), List.length_cons, ih]
    · rw [List.filter_cons_of_neg (by simpa using fun h => hbox (hiff.mp h)),
        List.countP_cons_of_neg (by simpa using hbox), ih]

/-- A letter that was put has come with a packet. -/
theorem exists_packet {ps : List Packet} {ls : List Letter} (h : List.Forall₂ Carries ps ls)
    {l : Letter} (hl : l ∈ ls) : ∃ p ∈ ps, Carries p l := by
  induction h with
  | nil => cases hl
  | @cons p l' ps ls hcarries _ ih =>
    rcases List.mem_cons.mp hl with rfl | hl
    · exact ⟨p,List.mem_cons_self,hcarries⟩
    · obtain ⟨q,hq,hcarries⟩ := ih hl
      exact ⟨q,List.mem_cons_of_mem _ hq,hcarries⟩

def Station.arrived (s : Station) : List Packet := s.read ++ s.socket

section Stations
variable {ident : Word} {numBoxes : ℤ} {s t : Station} {mem : Buffer maxMailSize}

theorem Station.work_eq (h : s.work mem = some t) :
    t.arrived = s.arrived ∧ t.taken = s.taken ∧
      t.network.sendBusy = s.network.sendBusy := by
  unfold Station.work at h
  cases hw : s.worker with
  | waiting =>
    rw [hw] at h
    simp only [] at h
    split_ifs at h
    cases h
    exact ⟨rfl,rfl,rfl⟩
  | receiving =>
    rw [hw] at h
    simp only [] at h
    cases hc : PostOffice.collect s.numBoxes s.network s.buffer with
    | error e =>
      rw [hc] at h
      cases h
      exact ⟨rfl,rfl,rfl⟩
    | ok r =>
      obtain ⟨pktHdr,mailHdr,buffer,network⟩ := r
      rw [hc] at h
      cases h
      obtain ⟨⟨hdr,bytes,net⟩,hreceive,hc⟩ := Outcome.bind_eq_ok.mp hc
      obtain ⟨bytes',-,hc⟩ := Outcome.bind_eq_ok.mp hc
      simp only [] at hc
      split_ifs at hc
      · cases hc
        exact ⟨rfl,rfl,Network.sendBusy_receive hreceive⟩
      · cases hc
  | putting pktHdr mailHdr =>
    rw [hw] at h
    simp only [] at h
    split at h
    · cases h
      exact ⟨rfl,rfl,rfl⟩
    · cases h
      exact ⟨rfl,rfl,rfl⟩

theorem Network.checkPktAvail_read {net net' : Network} {socket socket' : List Packet}
    (h : net.checkPktAvail socket = .ok (net',socket',true)) : ∃ p, socket = p :: socket' := by
  unfold checkPktAvail at h
  split_ifs at h
  · cases h
  · cases socket with
    | nil => cases h
    | cons buffer socket =>
      obtain ⟨_,-,h⟩ := Outcome.bind_eq_ok.mp h
      simp only [] at h
      split_ifs at h
      · obtain ⟨_,-,h⟩ := Outcome.bind_eq_ok.mp h
        obtain ⟨_,-,h⟩ := Outcome.bind_eq_ok.mp h
        cases h
        exact ⟨buffer,rfl⟩
      · cases h

theorem Station.poll_eq (s : Station) : s.poll = s ∨ s.poll.crashed = true ∨
    (∃ p socket, s.socket = p :: socket ∧ s.poll.socket = socket ∧ s.poll.read = s.read ++ [p] ∧
      s.poll.messageAvailable = s.messageAvailable + 1 ∧ s.poll.worker = s.worker ∧
      s.poll.taken = s.taken ∧ s.poll.network.sendBusy = s.network.sendBusy) := by
  unfold Station.poll
  cases hpoll : s.network.checkPktAvail s.socket with
  | error e => exact .inr (.inl rfl)
  | ok r =>
    obtain ⟨net,socket,b⟩ := r
    cases b with
    | false => exact .inl rfl
    | true =>
      refine .inr (.inr ?_)
      have hbusy := Network.sendBusy_checkPktAvail hpoll
      obtain ⟨p,hsocket⟩ := Network.checkPktAvail_read hpoll
      rw [hsocket]
      exact ⟨p,socket,rfl,rfl,rfl,rfl,rfl,rfl,hbusy⟩

end Stations

end Nachos
