import Nachos.Network.Post

/-! # A mail from one machine to another

Two headers are put in front of the payload and taken off again, through buffers of
three sizes. The lemmas follow the bytes from buffer to buffer: each holds what was copied
into its front, with something behind it.
-/
namespace Nachos

/-- Memory that is not initialised, one field for each buffer a mail goes through. -/
structure MailMemory where
  sendBuffer : Buffer maxPacketSize
  wire : Packet
  workerBuffer : Buffer maxPacketSize
  mail : Buffer maxMailSize
  data : Buffer maxMailSize

section Sending
variable {po : PostOffice} {pktHdr : PacketHeader} {mailHdr : MailHeader} {data : List Byte}

/-- The header that `Send` gives to the network. -/
def PostOffice.stamp (po : PostOffice) (pktHdr : PacketHeader) (mailHdr : MailHeader) :
    PacketHeader :=
  { pktHdr with
    fromAddr := po.netAddr
    length := mailHdr.length + BitVec.ofNat 32 MailHeader.codec.size }

theorem PostOffice.length_stamp (h : mailHdr.length.toNat ≤ maxMailSize) :
    (po.stamp pktHdr mailHdr).length.toNat = 12 + mailHdr.length.toNat := by
  unfold maxMailSize maxPacketSize maxWireSize at h
  simp only [stamp, MailHeader.codec_size, BitVec.toNat_add, BitVec.toNat_ofNat]
  omega

theorem Network.send_ok {net : Network} (hdr : PacketHeader) {b : Buffer maxPacketSize}
    {bytes : List Byte} (hbusy : net.sendBusy = false) (hident : hdr.fromAddr = net.ident)
    (hlen : hdr.length.toNat = bytes.length) (hpos : 0 < bytes.length)
    (hb : bytes <+: b.bytes) (wire : Packet) :
    ∃ packet, net.send hdr b wire false = .ok (some packet) ∧
      PacketHeader.codec.encode hdr ++ bytes <+: packet.bytes := by
  have hn := Buffer.length_le hb
  have hsize := PacketHeader.codec.length_encode hdr
  rw [PacketHeader.codec_size] at hsize
  obtain ⟨b₁,h₁,hp₁⟩ := Buffer.put_start wire (PacketHeader.codec.encode hdr)
    (by rw [hsize]; decide)
  obtain ⟨b₂,h₂,hp₂⟩ := Buffer.put_prefix bytes hp₁ (by
    unfold maxPacketSize maxWireSize at *
    omega)
  refine ⟨b₂,?_,hp₂⟩
  rw [hsize, ← PacketHeader.codec_size] at h₂
  have hget : b.get 0 hdr.length.toNat = .ok bytes := by
    rw [hlen]
    exact Buffer.get_start hb
  rw [send, if_neg (not_not.mpr ⟨hbusy,by omega,by omega,hident⟩)]
  simp [h₁, hget, h₂]

theorem PostOffice.send_ok (pktHdr : PacketHeader) (hlegal : mailHdr.Legal po.numBoxes)
    (hdata : mailHdr.length.toNat ≤ data.length) (buffer : Buffer maxPacketSize) (wire : Packet) :
    ∃ packet, po.send pktHdr mailHdr data buffer wire false = .ok (some packet) ∧
      PacketHeader.codec.encode (po.stamp pktHdr mailHdr) ++
        (MailHeader.codec.encode mailHdr ++ data.take mailHdr.length.toNat) <+: packet.bytes := by
  have hlen := hlegal.2.2
  have hsize := MailHeader.codec.length_encode mailHdr
  rw [MailHeader.codec_size] at hsize
  have htake : (data.take mailHdr.length.toNat).length = mailHdr.length.toNat := by
    rw [List.length_take]
    omega
  obtain ⟨b₁,h₁,hp₁⟩ := Buffer.put_start buffer (MailHeader.codec.encode mailHdr)
    (by rw [hsize]; decide)
  obtain ⟨b₂,h₂,hp₂⟩ := Buffer.put_prefix (data.take mailHdr.length.toNat) hp₁ (by
    unfold maxMailSize maxPacketSize maxWireSize at *
    omega)
  rw [hsize, ← MailHeader.codec_size] at h₂
  obtain ⟨packet,hsend,hp⟩ := Network.send_ok (po.stamp pktHdr mailHdr) po.sendBusy_eq
    po.ident_eq.symm (by
      rw [PostOffice.length_stamp hlen, List.length_append, htake, hsize])
    (by rw [List.length_append, hsize]; omega) hp₂ wire
  refine ⟨packet,?_,hp⟩
  rw [PostOffice.send, if_neg (not_not.mpr hlegal)]
  simp only [h₁, firstBytes, if_pos hdata, h₂, Outcome.ok_bind]
  exact hsend

end Sending

section Receiving
variable {net : Network} {hdr : PacketHeader} {bytes : List Byte}

theorem Network.checkPktAvail_ok {packet : Packet} (socket : List Packet)
    (hempty : net.inHdr.length = 0) (hto : hdr.toAddr = net.ident)
    (hlen : hdr.length.toNat = bytes.length) (hmax : bytes.length ≤ maxPacketSize)
    (hp : PacketHeader.codec.encode hdr ++ bytes <+: packet.bytes) :
    ∃ inbox, net.checkPktAvail (packet :: socket) =
        .ok ({ net with inHdr := hdr, inbox := inbox },socket,true) ∧ bytes <+: inbox.bytes := by
  have hsize := PacketHeader.codec.length_encode hdr
  have hhdr : packet.get 0 PacketHeader.codec.size = .ok (PacketHeader.codec.encode hdr) := by
    rw [← hsize]
    exact Buffer.get_start ((List.prefix_append _ _).trans hp)
  have hdata : packet.get PacketHeader.codec.size hdr.length.toNat = .ok bytes := by
    rw [← hsize, hlen]
    exact Buffer.get_prefix hp
  obtain ⟨inbox,hput,hin⟩ := Buffer.put_start net.inbox bytes hmax
  have hfits : ¬ maxPacketSize < hdr.length.toNat := by omega
  refine ⟨inbox,?_,hin⟩
  rw [checkPktAvail, if_neg (not_not.mpr hempty)]
  simp [hhdr, PacketHeader.codec.decode_encode, hto, hfits, hdata, hput]

theorem Network.receive_ok (hlen : net.inHdr.length.toNat = bytes.length)
    (hpos : 0 < bytes.length) (hin : bytes <+: net.inbox.bytes) (data : Buffer maxPacketSize) :
    ∃ buffer, net.receive data =
        .ok (net.inHdr,buffer,{ net with inHdr := { net.inHdr with length := 0 } }) ∧
      bytes <+: buffer.bytes := by
  have hne : net.inHdr.length ≠ 0 := fun h0 => by
    rw [h0] at hlen
    simp at hlen
    omega
  have hget : net.inbox.get 0 net.inHdr.length.toNat = .ok bytes := by
    rw [hlen]
    exact Buffer.get_start hin
  obtain ⟨buffer,hput,hb⟩ := Buffer.put_start data bytes (Buffer.length_le hin)
  refine ⟨buffer,?_,hb⟩
  simp only [receive, if_pos hne, hget, hput, Outcome.ok_bind, Outcome.pure_eq]

theorem PostOffice.collect_ok (net : Network) {mailHdr : MailHeader} {payload : List Byte}
    {numBoxes : ℤ} (hlegal : mailHdr.Legal numBoxes)
    (hlen : net.inHdr.length.toNat = (MailHeader.codec.encode mailHdr ++ payload).length)
    (hin : MailHeader.codec.encode mailHdr ++ payload <+: net.inbox.bytes)
    (data : Buffer maxPacketSize) :
    ∃ buffer, PostOffice.collect numBoxes net data =
        .ok (net.inHdr,mailHdr,buffer,{ net with inHdr := { net.inHdr with length := 0 } }) ∧
      MailHeader.codec.encode mailHdr ++ payload <+: buffer.bytes := by
  have hsize := MailHeader.codec.length_encode mailHdr
  have hpos : 0 < (MailHeader.codec.encode mailHdr ++ payload).length := by
    rw [List.length_append, hsize, MailHeader.codec_size]
    omega
  obtain ⟨buffer,hreceive,hb⟩ := Network.receive_ok hlen hpos hin data
  have hhdr : buffer.get 0 MailHeader.codec.size = .ok (MailHeader.codec.encode mailHdr) := by
    rw [← hsize]
    exact Buffer.get_start ((List.prefix_append _ _).trans hb)
  refine ⟨buffer,?_,hb⟩
  rw [collect, hreceive]
  simp [hhdr, MailHeader.codec.decode_encode, hlegal]

theorem PostOffice.deliver_ok {mailHdr : MailHeader} {payload : List Byte}
    (buffer : Buffer maxPacketSize) (pktHdr : PacketHeader)
    (hlen : mailHdr.length.toNat = payload.length) (hmax : payload.length ≤ maxMailSize)
    (hb : MailHeader.codec.encode mailHdr ++ payload <+: buffer.bytes) (mem : Buffer maxMailSize) :
    ∃ data, PostOffice.deliver pktHdr mailHdr buffer mem = .ok ⟨pktHdr,mailHdr,data⟩ ∧
      payload <+: data.bytes := by
  have hsize := MailHeader.codec.length_encode mailHdr
  have hget : buffer.get MailHeader.codec.size mailHdr.length.toNat = .ok payload := by
    rw [← hsize, hlen]
    exact Buffer.get_prefix hb
  obtain ⟨data,hput,hd⟩ := Buffer.put_start mem payload hmax
  refine ⟨data,?_,hd⟩
  rw [deliver, Mail.new, if_neg (not_not.mpr (hlen ▸ hmax))]
  simp [hget, hput]

theorem PostOffice.noBlockReceive_ok (mail : Mail) (rest : List Mail) {payload : List Byte}
    (hlen : mail.mailHdr.length.toNat = payload.length) (hd : payload <+: mail.data.bytes)
    (data : Buffer maxMailSize) :
    ∃ data', PostOffice.noBlockReceive (mail :: rest) data =
        .ok (some (mail.pktHdr,mail.mailHdr,data',rest)) ∧ payload <+: data'.bytes := by
  have hmax := Buffer.length_le hd
  have hget : mail.data.get 0 mail.mailHdr.length.toNat = .ok payload := by
    rw [hlen]
    exact Buffer.get_start hd
  obtain ⟨data',hput,hd'⟩ := Buffer.put_start data payload hmax
  have hfits : ¬ maxMailSize < mail.mailHdr.length.toNat := by omega
  refine ⟨data',?_,hd'⟩
  rw [noBlockReceive, MailBox.noBlockGet]
  simp [hget, hput, hfits]

end Receiving

/-- The way of a mail that the network does not lose, from the sender's `Send` through the
receiver's socket, inbox, worker and mailbox to the caller of `Receive`. -/
def PostOffice.exchange (po : PostOffice) (numBoxes : ℤ) (net : Network) (mem : MailMemory)
    (pktHdr : PacketHeader) (mailHdr : MailHeader) (data : List Byte) :
    Outcome (Option (PacketHeader × MailHeader × Buffer maxMailSize × List Mail)) := do
  let packet ← po.send pktHdr mailHdr data mem.sendBuffer mem.wire false
  let (net,_,_) ← net.checkPktAvail packet.toList
  let (pktHdr,mailHdr,buffer,_) ← collect numBoxes net mem.workerBuffer
  let mail ← deliver pktHdr mailHdr buffer mem.mail
  noBlockReceive (MailBox.put [] mail) mem.data

/-- What is sent is received, and no copy on the way leaves its buffer. -/
theorem mailRoundTrip (po : PostOffice) (numBoxes : ℤ) (net : Network) (mem : MailMemory)
    (pktHdr : PacketHeader) (mailHdr : MailHeader) (data : List Byte)
    (hlegal : mailHdr.Legal po.numBoxes) (hlegal' : mailHdr.Legal numBoxes)
    (hdata : mailHdr.length.toNat ≤ data.length) (hto : pktHdr.toAddr = net.ident)
    (hempty : net.inHdr.length = 0) :
    ∃ pktHdr' data', po.exchange numBoxes net mem pktHdr mailHdr data =
        .ok (some (pktHdr',mailHdr,data',[])) ∧
      pktHdr'.toAddr = pktHdr.toAddr ∧ pktHdr'.fromAddr = po.netAddr ∧
      data'.bytes.take mailHdr.length.toNat = data.take mailHdr.length.toNat := by
  have hlen := hlegal.2.2
  have htake : (data.take mailHdr.length.toNat).length = mailHdr.length.toNat := by
    rw [List.length_take]
    omega
  have hwhole : (po.stamp pktHdr mailHdr).length.toNat =
      (MailHeader.codec.encode mailHdr ++ data.take mailHdr.length.toNat).length := by
    rw [PostOffice.length_stamp hlen, List.length_append, htake, MailHeader.codec.length_encode]
    rfl
  obtain ⟨packet,hsend,hp⟩ := PostOffice.send_ok pktHdr hlegal hdata mem.sendBuffer
    mem.wire
  obtain ⟨inbox,hpoll,hin⟩ := Network.checkPktAvail_ok [] hempty
    (show (po.stamp pktHdr mailHdr).toAddr = _ from hto) hwhole (by
      rw [← hwhole, PostOffice.length_stamp hlen]
      unfold maxMailSize maxPacketSize maxWireSize at *
      omega) hp
  obtain ⟨buffer,hcollect,hb⟩ := PostOffice.collect_ok
    { net with inHdr := po.stamp pktHdr mailHdr, inbox := inbox } hlegal' hwhole hin
    mem.workerBuffer
  obtain ⟨stored,hdeliver,hd⟩ := PostOffice.deliver_ok buffer (po.stamp pktHdr mailHdr) htake.symm
    (by rw [htake]; exact hlen) hb mem.mail
  obtain ⟨data',hreceive,hd'⟩ := PostOffice.noBlockReceive_ok
    ⟨po.stamp pktHdr mailHdr,mailHdr,stored⟩ [] htake.symm hd mem.data
  refine ⟨po.stamp pktHdr mailHdr,data',?_,rfl,rfl,?_⟩
  · simp only [PostOffice.exchange, hsend, Option.toList_some, hpoll, hcollect, hdeliver,
      Outcome.ok_bind]
    exact hreceive
  · have := List.prefix_iff_eq_take.mp hd'
    rw [htake] at this
    exact this.symm

/-- Two bytes to mailbox 3 of machine 1. -/
theorem mailRoundTrip_two : ∃ pktHdr' data',
    (⟨0,10,⟨0,false,⟨0,0,0⟩,⟨List.replicate maxPacketSize 0,rfl⟩⟩,rfl,rfl⟩ : PostOffice).exchange
      10 ⟨1,false,⟨0,0,0⟩,⟨List.replicate maxPacketSize 0,rfl⟩⟩
      ⟨⟨List.replicate maxPacketSize 0,rfl⟩,⟨List.replicate maxWireSize 0,rfl⟩,
        ⟨List.replicate maxPacketSize 0,rfl⟩,⟨List.replicate maxMailSize 0,rfl⟩,
        ⟨List.replicate maxMailSize 0,rfl⟩⟩
      ⟨1,7,7⟩ ⟨3,4,2⟩ [72,105] = .ok (some (pktHdr',⟨3,4,2⟩,data',[])) ∧
    pktHdr'.toAddr = 1 ∧ pktHdr'.fromAddr = 0 ∧ data'.bytes.take 2 = [72,105] :=
  mailRoundTrip _ 10 _ _ ⟨1,7,7⟩ ⟨3,4,2⟩ [72,105] (by decide) (by decide) (by decide) rfl rfl

end Nachos
