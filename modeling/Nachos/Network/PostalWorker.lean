import Nachos.Network.MailRoundTrip
import Nachos.Library.Run
import Mathlib.Data.List.Forall2

/-! # From the socket to the mailboxes

The poll interrupt reads packets into the inbox, the postal worker takes them out and puts
them into mailboxes, threads take them from there. Interrupts come only where the kernel
enables them, so that `CheckPktAvail` and `Network::Receive` are one step each; between
the worker's `P` and its `Receive` anything can happen.
-/
namespace Nachos

namespace Buffer

def header (p : Packet) : PacketHeader := PacketHeader.codec.decode (p.bytes.take 12)

/-- What `header` says is the data of the packet. -/
def data (p : Packet) : List Byte := (p.bytes.drop 12).take p.header.length.toNat

/-- A packet for this machine whose data starts with the header of a legal mail. -/
structure Proper (ident : Word) (numBoxes : ℤ) (p : Packet) : Prop where
  addressed : p.header.toAddr = ident
  fits : p.header.length.toNat ≤ maxPacketSize
  mail : ∃ mailHdr body, p.data = MailHeader.codec.encode mailHdr ++ body ∧
    mailHdr.Legal numBoxes

end Buffer

/-- A mail as it is seen from outside of its buffer. -/
structure Letter where
  pktHdr : PacketHeader
  mailHdr : MailHeader
  payload : List Byte

def Mail.letter (m : Mail) : Letter :=
  ⟨m.pktHdr,m.mailHdr,m.data.bytes.take m.mailHdr.length.toNat⟩

def Letter.box (l : Letter) : ℤ := l.mailHdr.toBox.toInt

/-- The letter is what the packet holds, as far as the data of the packet goes. -/
structure Carries (p : Packet) (l : Letter) : Prop where
  pktHdr : l.pktHdr = p.header
  mail : ∃ body, p.data = MailHeader.codec.encode l.mailHdr ++ body ∧
    (l.payload <+: body ∨ body <+: l.payload)
  length : l.payload.length = l.mailHdr.length.toNat

inductive WorkerPhase where
  /-- `messageAvailable->P()` -/
  | waiting
  /-- `network->Receive` and the checks. -/
  | receiving
  /-- `boxes[mailHdr.to].Put` -/
  | putting (pktHdr : PacketHeader) (mailHdr : MailHeader)

/-- The last three fields record the packets read from the socket, the letters put into
mailboxes, and those the threads got out of each mailbox. -/
structure Station where
  numBoxes : ℤ
  network : Network
  socket : List Packet
  messageAvailable : ℕ
  worker : WorkerPhase
  buffer : Buffer maxPacketSize
  boxes : ℤ → List Mail
  crashed : Bool
  read : List Packet
  put : List Letter
  taken : ℤ → List Letter

inductive StationStep where
  | arrive (packet : Packet)
  | poll
  /-- With the memory for `new Mail`. -/
  | worker (mem : Buffer maxMailSize)
  | receive (box : ℤ) (data : Buffer maxMailSize)
  | noBlockReceive (box : ℤ) (data : Buffer maxMailSize)

namespace Station

def poll (s : Station) : Station :=
  match s.network.checkPktAvail s.socket with
  | .error _ => { s with crashed := true }
  | .ok (_,_,false) => s
  | .ok (network,socket,true) => { s with
      network := network
      socket := socket
      messageAvailable := s.messageAvailable + 1
      read := s.read ++ s.socket.head?.toList }

def work (s : Station) (mem : Buffer maxMailSize) : Option Station :=
  match s.worker with
  | .waiting =>
    if 0 < s.messageAvailable then
      some { s with messageAvailable := s.messageAvailable - 1, worker := .receiving }
    else none
  | .receiving =>
    match PostOffice.collect s.numBoxes s.network s.buffer with
    | .error _ => some { s with crashed := true }
    | .ok (pktHdr,mailHdr,buffer,network) => some { s with
        network := network
        buffer := buffer
        worker := .putting pktHdr mailHdr }
  | .putting pktHdr mailHdr =>
    match PostOffice.deliver pktHdr mailHdr s.buffer mem with
    | .error _ => some { s with crashed := true }
    | .ok mail => some { s with
        boxes := Function.update s.boxes mailHdr.toBox.toInt
          (MailBox.put (s.boxes mailHdr.toBox.toInt) mail)
        put := s.put ++ [mail.letter]
        worker := .waiting }

/-- A thread looks into a mailbox. -/
def take (s : Station) (box : ℤ) (data : Buffer maxMailSize) : Station :=
  match PostOffice.noBlockReceive (s.boxes box) data with
  | .error _ => { s with crashed := true }
  | .ok none => s
  | .ok (some (pktHdr,mailHdr,data,rest)) => { s with
      boxes := Function.update s.boxes box rest
      taken := Function.update s.taken box
        (s.taken box ++ [⟨pktHdr,mailHdr,data.bytes.take mailHdr.length.toNat⟩]) }

def step (s : Station) : StationStep → Option Station
  | .arrive packet => some { s with socket := s.socket ++ [packet] }
  | .poll => some s.poll
  | .worker mem => s.work mem
  | .receive box data => if s.boxes box = [] then none else some (s.take box data)
  | .noBlockReceive box data => some (s.take box data)

end Station

/-- Runs from an empty post office, on a socket where proper packets arrive, with calls
for its mailboxes. -/
def stations (ident : Word) (numBoxes : ℤ) : TransitionSystem Station StationStep where
  init s := s.numBoxes = numBoxes ∧ s.network.ident = ident ∧ s.network.inHdr.length = 0 ∧
    s.socket = [] ∧ s.messageAvailable = 0 ∧ s.worker = .waiting ∧ (∀ box, s.boxes box = []) ∧
    s.crashed = false ∧ s.read = [] ∧ s.put = [] ∧ ∀ box, s.taken box = []
  step s l t := s.crashed = false ∧
    (∀ p, l = .arrive p → p.Proper ident numBoxes) ∧
    (∀ box data, l = .receive box data ∨ l = .noBlockReceive box data →
      0 ≤ box ∧ box < numBoxes) ∧ s.step l = some t

section Packets
variable {ident : Word} {numBoxes : ℤ} {p : Packet}

theorem Buffer.header_prefix (p : Packet) : PacketHeader.codec.encode p.header =
    p.bytes.take 12 := by
  apply PacketHeader.codec.encode_decode
  rw [List.length_take, p.length_bytes]
  rfl

theorem Buffer.header_data (p : Packet) :
    PacketHeader.codec.encode p.header ++ p.data <+: p.bytes := by
  rw [Buffer.header_prefix]
  nth_rewrite 2 [← List.take_append_drop 12 p.bytes]
  exact List.prefix_append_right_inj _ |>.mpr (List.take_prefix _ _)

theorem Buffer.Proper.length_data (hp : p.Proper ident numBoxes) :
    p.header.length.toNat = p.data.length := by
  have hfits := hp.fits
  have hlen := p.length_bytes
  unfold maxPacketSize maxWireSize at *
  rw [Buffer.data, List.length_take, List.length_drop]
  omega

theorem Buffer.Proper.twelve_le (hp : p.Proper ident numBoxes) : 12 ≤ p.data.length := by
  obtain ⟨mailHdr,body,hdata,-⟩ := hp.mail
  have hsize := MailHeader.codec.length_encode mailHdr
  rw [MailHeader.codec_size] at hsize
  rw [hdata, List.length_append]
  omega

theorem Buffer.Proper.length_ne (hp : p.Proper ident numBoxes) : p.header.length ≠ 0 := by
  intro h0
  have hlen := hp.length_data
  have h12 := hp.twelve_le
  rw [h0, show (0 : Word).toNat = 0 from rfl] at hlen
  omega

end Packets

/-- A mail may be longer than the packet: what follows in the buffer is delivered too. -/
theorem PostOffice.deliver_carries {p : Packet} {mailHdr : MailHeader} {body : List Byte}
    {buffer : Buffer maxPacketSize} (hlen : mailHdr.length.toNat ≤ maxMailSize)
    (hdata : p.data = MailHeader.codec.encode mailHdr ++ body) (hb : p.data <+: buffer.bytes)
    (mem : Buffer maxMailSize) :
    ∃ mail, PostOffice.deliver p.header mailHdr buffer mem = .ok mail ∧
      mail.mailHdr = mailHdr ∧ Carries p mail.letter := by
  obtain ⟨tail,htail⟩ := hdata ▸ hb
  have hsize := MailHeader.codec.length_encode mailHdr
  have hbytes := buffer.length_bytes
  rw [MailHeader.codec_size] at hsize
  rw [← htail, List.append_assoc, List.length_append, hsize] at hbytes
  have htake : ((body ++ tail).take mailHdr.length.toNat).length = mailHdr.length.toNat := by
    rw [List.length_take]
    unfold maxMailSize maxPacketSize maxWireSize at *
    omega
  obtain ⟨data,hdeliver,hd⟩ := PostOffice.deliver_ok buffer p.header htake.symm
    (by rw [htake]; exact hlen) (by
      rw [← htail, List.append_assoc]
      exact (List.prefix_append_right_inj _).mpr (List.take_prefix _ _)) mem
  have hpayload := List.prefix_iff_eq_take.mp hd
  rw [htake] at hpayload
  refine ⟨_,hdeliver,rfl,rfl,⟨body,hdata,?_⟩,?_⟩
  · simp only [Mail.letter, ← hpayload]
    exact List.prefix_or_prefix_of_prefix (List.take_prefix _ _) (List.prefix_append _ _)
  · simp only [Mail.letter, ← hpayload, htake]

theorem PostOffice.noBlockReceive_letter {mail : Mail} (rest : List Mail)
    (hlen : mail.mailHdr.length.toNat ≤ maxMailSize) (data : Buffer maxMailSize) :
    ∃ data', PostOffice.noBlockReceive (mail :: rest) data =
        .ok (some (mail.pktHdr,mail.mailHdr,data',rest)) ∧
      (⟨mail.pktHdr,mail.mailHdr,data'.bytes.take mail.mailHdr.length.toNat⟩ : Letter) =
        mail.letter := by
  have htake : (mail.data.bytes.take mail.mailHdr.length.toNat).length =
      mail.mailHdr.length.toNat := by
    rw [List.length_take, mail.data.length_bytes]
    omega
  obtain ⟨data',hreceive,hd⟩ := PostOffice.noBlockReceive_ok mail rest htake.symm
    (List.take_prefix _ _) data
  have hpayload := List.prefix_iff_eq_take.mp hd
  rw [htake] at hpayload
  exact ⟨data',hreceive,by rw [← hpayload, Mail.letter]⟩

theorem Station.poll_read {numBoxes : ℤ} {s : Station} {p : Packet} {socket : List Packet}
    (hempty : s.network.inHdr.length = 0) (hsocket : s.socket = p :: socket)
    (hp : p.Proper s.network.ident numBoxes) :
    ∃ inbox : Buffer maxPacketSize, p.data <+: inbox.bytes ∧ s.poll = { s with
      network := { s.network with inHdr := p.header, inbox := inbox }
      socket := socket
      messageAvailable := s.messageAvailable + 1
      read := s.read ++ [p] } := by
  obtain ⟨inbox,hpoll,hbytes⟩ := Network.checkPktAvail_ok socket hempty
    hp.addressed hp.length_data (hp.length_data ▸ hp.fits) p.header_data
  refine ⟨inbox,hbytes,?_⟩
  simp only [Station.poll, hsocket, hpoll, List.head?_cons, Option.toList_some]

/-- The packets that stand in the inbox. -/
inductive InInbox (ident : Word) (numBoxes : ℤ) (net : Network) : List Packet → Prop
  | empty : net.inHdr.length = 0 → InInbox ident numBoxes net []
  | full {p : Packet} : p.Proper ident numBoxes → net.inHdr = p.header →
      p.data <+: net.inbox.bytes → InInbox ident numBoxes net [p]

/-- The packets the worker has taken out of the inbox and not yet put into a mailbox. -/
inductive InHand (numBoxes : ℤ) (buffer : Buffer maxPacketSize) : WorkerPhase → List Packet → Prop
  | waiting : InHand numBoxes buffer .waiting []
  | receiving : InHand numBoxes buffer .receiving []
  | putting {p : Packet} {mailHdr : MailHeader} {body : List Byte} : mailHdr.Legal numBoxes →
      p.data = MailHeader.codec.encode mailHdr ++ body → p.data <+: buffer.bytes →
      InHand numBoxes buffer (.putting p.header mailHdr) [p]

/-- The signals the worker has consumed without having emptied the inbox. -/
def WorkerPhase.consumed : WorkerPhase → ℕ
  | .receiving => 1
  | _ => 0

/-- Every packet read is, in this order, delivered, in the hand of the worker or in the
inbox, and there is one signal for each packet in the inbox. -/
structure Delivering (ident : Word) (numBoxes : ℤ) (s : Station) : Prop where
  crashed : s.crashed = false
  ident_eq : s.network.ident = ident
  boxes_eq : s.numBoxes = numBoxes
  socket : ∀ p ∈ s.socket, p.Proper ident numBoxes
  flow : ∃ done hand inbox, s.read = done ++ (hand ++ inbox) ∧ List.Forall₂ Carries done s.put ∧
    InHand numBoxes s.buffer s.worker hand ∧ InInbox ident numBoxes s.network inbox ∧
    s.messageAvailable + s.worker.consumed = inbox.length
  legal : ∀ box, ∀ m ∈ s.boxes box, m.mailHdr.length.toNat ≤ maxMailSize
  order : ∀ box, s.put.filter (fun l => l.box = box) =
    s.taken box ++ (s.boxes box).map Mail.letter

namespace Delivering
variable {ident : Word} {numBoxes : ℤ} {s t : Station}

theorem arrive (h : Delivering ident numBoxes s) {p : Packet} (hp : p.Proper ident numBoxes) :
    Delivering ident numBoxes { s with socket := s.socket ++ [p] } := by
  refine ⟨h.crashed,h.ident_eq,h.boxes_eq,?_,h.flow,h.legal,h.order⟩
  intro q hq
  rcases List.mem_append.mp hq with hq | hq
  · exact h.socket q hq
  · rw [List.mem_singleton.mp hq]
    exact hp

theorem poll (h : Delivering ident numBoxes s) : Delivering ident numBoxes s.poll := by
  obtain ⟨done,hand,inbox,hread,hdone,hhand,hin,hsignals⟩ := h.flow
  cases hin with
  | full hp hhdr _ =>
    have hne : s.network.inHdr.length ≠ 0 := hhdr ▸ hp.length_ne
    have hpoll : s.network.checkPktAvail s.socket = .ok (s.network,s.socket,false) := if_pos hne
    simp only [Station.poll, hpoll]
    exact h
  | empty hempty =>
    cases hsocket : s.socket with
    | nil =>
      have hpoll : s.network.checkPktAvail s.socket = .ok (s.network,[],false) := by
        rw [hsocket]
        exact if_neg (not_not.mpr hempty)
      simp only [Station.poll, hpoll]
      exact h
    | cons p socket =>
      have hp : p.Proper ident numBoxes := h.socket p (by simp [hsocket])
      obtain ⟨bytes,hbytes,hpoll⟩ := Station.poll_read hempty hsocket (h.ident_eq ▸ hp)
      rw [hpoll]
      refine ⟨h.crashed,h.ident_eq,h.boxes_eq,fun q hq => h.socket q (by simp [hsocket, hq]),
        ⟨done,hand,[p],?_,hdone,hhand,.full hp rfl hbytes,?_⟩,h.legal,h.order⟩
      · simp [hread]
      · simp only [List.length_nil, List.length_singleton] at hsignals ⊢
        omega

/-- The worker receives only when the inbox is full. -/
theorem full (h : Delivering ident numBoxes s) (hw : s.worker = .receiving) :
    ∃ p : Packet, p.Proper ident numBoxes ∧ s.network.inHdr = p.header ∧
      p.data <+: s.network.inbox.bytes := by
  obtain ⟨done,hand,inbox,-,-,-,hin,hsignals⟩ := h.flow
  cases hin with
  | empty => simp [hw, WorkerPhase.consumed] at hsignals
  | full hp hhdr hbytes => exact ⟨_,hp,hhdr,hbytes⟩

theorem work (h : Delivering ident numBoxes s) {mem : Buffer maxMailSize}
    (hs : s.work mem = some t) : Delivering ident numBoxes t := by
  obtain ⟨done,hand,inbox,hread,hdone,hhand,hin,hsignals⟩ := h.flow
  cases hw : s.worker with
  | waiting =>
    simp only [Station.work, hw] at hs
    split_ifs at hs with hpos
    obtain rfl := Option.some_inj.mp hs
    rw [hw] at hhand hsignals
    cases hhand
    refine ⟨h.crashed,h.ident_eq,h.boxes_eq,h.socket,
      ⟨done,[],inbox,hread,hdone,.receiving,hin,?_⟩,h.legal,h.order⟩
    simp only [WorkerPhase.consumed] at hsignals ⊢
    omega
  | receiving =>
    rw [hw] at hhand hsignals
    cases hhand
    cases hin with
    | empty => simp [WorkerPhase.consumed] at hsignals
    | @full p hp hhdr hbytes =>
      obtain ⟨mailHdr,body,hdata,hlegal⟩ := hp.mail
      obtain ⟨buffer,hcollect,hb⟩ := PostOffice.collect_ok s.network hlegal
        (hhdr ▸ hp.length_data.trans (congrArg _ hdata)) (hdata ▸ hbytes) s.buffer
      simp only [Station.work, hw, h.boxes_eq, hcollect] at hs
      obtain rfl := Option.some_inj.mp hs
      refine ⟨h.crashed,h.ident_eq,rfl,h.socket,
        ⟨done,[p],[],by simp [hread],hdone,?_,.empty rfl,?_⟩,h.legal,h.order⟩
      · rw [hhdr]
        exact .putting hlegal hdata (hdata ▸ hb)
      · simp only [WorkerPhase.consumed, List.length_singleton, List.length_nil] at hsignals ⊢
        omega
  | putting pktHdr mailHdr =>
    rw [hw] at hhand hsignals
    cases hhand with
    | @putting p _ body hlegal hdata hb =>
    obtain ⟨mail,hdeliver,hmail,hcarries⟩ := PostOffice.deliver_carries hlegal.2.2 hdata hb mem
    simp only [Station.work, hw, hdeliver] at hs
    obtain rfl := Option.some_inj.mp hs
    refine ⟨h.crashed,h.ident_eq,h.boxes_eq,h.socket,
      ⟨done ++ [p],[],inbox,by simp [hread],?_,.waiting,hin,hsignals⟩,?_,?_⟩
    · exact List.rel_append hdone (.cons hcarries .nil)
    · intro box m hm
      rcases eq_or_ne box mailHdr.toBox.toInt with rfl | hne
      · simp only [Function.update_self, MailBox.put, List.mem_append,
          List.mem_singleton] at hm
        rcases hm with hm | rfl
        · exact h.legal _ m hm
        · exact hmail ▸ hlegal.2.2
      · exact h.legal box m (by simpa [hne] using hm)
    · intro box
      have hbox : mail.letter.box = mailHdr.toBox.toInt := by rw [← hmail]; rfl
      simp only [List.filter_append, h.order box]
      rcases eq_or_ne box mailHdr.toBox.toInt with rfl | hne
      · simp [hbox, MailBox.put]
      · simp [hbox, hne, hne.symm]

theorem take (h : Delivering ident numBoxes s) (box : ℤ) (data : Buffer maxMailSize) :
    Delivering ident numBoxes (s.take box data) := by
  cases hmails : s.boxes box with
  | nil =>
    have hnone : PostOffice.noBlockReceive (s.boxes box) data = .ok none := by
      rw [hmails]
      rfl
    simp only [Station.take, hnone]
    exact h
  | cons mail rest =>
    obtain ⟨data',hreceive,hletter⟩ := PostOffice.noBlockReceive_letter rest
      (h.legal box mail (by simp [hmails])) data
    simp only [Station.take, hmails, hreceive, hletter]
    refine ⟨h.crashed,h.ident_eq,h.boxes_eq,h.socket,h.flow,?_,?_⟩
    · intro box' m hm
      rcases eq_or_ne box' box with rfl | hne
      · simp only [Function.update_self] at hm
        exact h.legal box' m (by simp [hmails, hm])
      · exact h.legal box' m (by simpa [hne] using hm)
    · intro box'
      rcases eq_or_ne box' box with rfl | hne
      · simp [h.order box', hmails]
      · simp [h.order box', hne]

theorem step {l : StationStep} (h : Delivering ident numBoxes s)
    (hs : (stations ident numBoxes).step s l t) : Delivering ident numBoxes t := by
  obtain ⟨-,harrive,-,hs⟩ := hs
  cases l with
  | arrive p =>
    obtain rfl := Option.some_inj.mp hs
    exact h.arrive (harrive p rfl)
  | poll =>
    obtain rfl := Option.some_inj.mp hs
    exact h.poll
  | worker mem => exact h.work hs
  | receive box data =>
    simp only [Station.step] at hs
    split_ifs at hs
    obtain rfl := Option.some_inj.mp hs
    exact h.take box data
  | noBlockReceive box data =>
    obtain rfl := Option.some_inj.mp hs
    exact h.take box data

theorem start (hs : (stations ident numBoxes).init s) : Delivering ident numBoxes s := by
  obtain ⟨hboxes,hident,hempty,hsocket,hsignals,hworker,hmails,hcrashed,hread,hput,htaken⟩ := hs
  refine ⟨hcrashed,hident,hboxes,by simp [hsocket],⟨[],[],[],?_⟩,by simp [hmails],by
    simp [hput, htaken, hmails]⟩
  rw [hread, hput, hworker, hsignals]
  exact ⟨rfl,.nil,.waiting,.empty hempty,rfl⟩

end Delivering

/-- The number of steps until the worker waits with no signal left. -/
def Station.remaining (s : Station) : ℕ :=
  3 * s.messageAvailable + match s.worker with
    | .waiting => 0
    | .receiving => 2
    | .putting _ _ => 1

namespace Delivering
variable {ident : Word} {numBoxes : ℤ} {s : Station}

theorem work_some (h : Delivering ident numBoxes s) (hrem : 0 < s.remaining)
    (mem : Buffer maxMailSize) :
    ∃ t, s.work mem = some t ∧ t.read = s.read ∧ t.remaining + 1 = s.remaining := by
  cases hw : s.worker with
  | waiting =>
    simp only [Station.remaining, hw] at hrem
    have hpos : 0 < s.messageAvailable := by omega
    simp only [Station.work, hw, if_pos hpos, Option.some_inj, exists_eq_left', true_and,
      Station.remaining]
    omega
  | receiving =>
    obtain ⟨p,hp,hhdr,hbytes⟩ := h.full hw
    obtain ⟨mailHdr,body,hdata,hlegal⟩ := hp.mail
    obtain ⟨buffer,hcollect,-⟩ := PostOffice.collect_ok s.network hlegal
      (hhdr ▸ hp.length_data.trans (congrArg _ hdata)) (hdata ▸ hbytes) s.buffer
    simp only [Station.work, hw, h.boxes_eq, hcollect, Option.some_inj, exists_eq_left',
      true_and, Station.remaining]
  | putting pktHdr mailHdr =>
    obtain ⟨done,hand,inbox,-,-,hhand,-,-⟩ := h.flow
    rw [hw] at hhand
    cases hhand with
    | @putting p _ body hlegal hdata hb =>
    obtain ⟨mail,hdeliver,-,-⟩ := PostOffice.deliver_carries hlegal.2.2 hdata hb mem
    simp only [Station.work, hw, hdeliver, Option.some_inj, exists_eq_left', true_and,
      Station.remaining]

/-- A worker that has nothing to do has delivered all that was read. -/
theorem all_delivered (h : Delivering ident numBoxes s) (hrem : s.remaining = 0) :
    List.Forall₂ Carries s.read s.put := by
  obtain ⟨done,hand,inbox,hread,hdone,hhand,hin,hsignals⟩ := h.flow
  simp only [Station.remaining] at hrem
  cases hw : s.worker with
  | waiting =>
    rw [hw] at hhand hsignals
    cases hhand
    have hnil : inbox = [] := List.eq_nil_of_length_eq_zero (by
      simp only [WorkerPhase.consumed] at hsignals
      omega)
    rw [hread, hnil, List.append_nil, List.append_nil]
    exact hdone
  | receiving => simp [hw] at hrem
  | putting => simp [hw] at hrem

theorem finish (h : Delivering ident numBoxes s) {ls : List StationStep}
    (hr : (stations ident numBoxes).Run ls s) (mem : Buffer maxMailSize) :
    ∃ t, (stations ident numBoxes).Run (ls ++ List.replicate s.remaining (.worker mem)) t ∧
      t.read = s.read ∧ List.Forall₂ Carries t.read t.put := by
  induction hn : s.remaining generalizing s ls with
  | zero => exact ⟨s,by simpa using hr,rfl,h.all_delivered hn⟩
  | succ n ih =>
    obtain ⟨t,hwork,hread,hrem⟩ := h.work_some (by omega) mem
    have hstep : (stations ident numBoxes).step s (.worker mem) t :=
      ⟨h.crashed,by simp,by simp,hwork⟩
    obtain ⟨u,hu,huread,hput⟩ := ih (h.step hstep) (hr.step hstep) (by omega)
    refine ⟨u,?_,huread.trans hread,hput⟩
    simpa [List.replicate_succ] using hu

end Delivering

/-- Nothing is lost, doubled or reordered on the way from the socket to the callers: the
packets read are, in order, those put into the mailboxes their headers name and then those
which the worker puts there by its next steps; it never receives from an empty inbox; and
a mailbox gives out its mails in the order in which they were put. -/
theorem packetsDelivered (ident : Word) (numBoxes : ℤ) (ls : List StationStep) (s : Station)
    (hr : (stations ident numBoxes).Run ls s) :
    s.crashed = false ∧
    (∃ done pending, s.read = done ++ pending ∧ List.Forall₂ Carries done s.put) ∧
    (∀ mem, ∃ t, (stations ident numBoxes).Run
        (ls ++ List.replicate s.remaining (.worker mem)) t ∧
      t.read = s.read ∧ List.Forall₂ Carries t.read t.put) ∧
    (s.worker = .receiving → ∃ pktHdr buffer network,
      s.network.receive s.buffer = .ok (pktHdr,buffer,network) ∧ pktHdr.length ≠ 0) ∧
    ∀ box, s.put.filter (fun l => l.box = box) = s.taken box ++ (s.boxes box).map Mail.letter := by
  have h : Delivering ident numBoxes s :=
    hr.invariant (fun _ => Delivering.start) fun _ _ _ => Delivering.step
  refine ⟨h.crashed,?_,h.finish hr,?_,h.order⟩
  · obtain ⟨done,hand,inbox,hread,hdone,-⟩ := h.flow
    exact ⟨done,_,hread,hdone⟩
  · intro hw
    obtain ⟨p,hp,hhdr,hbytes⟩ := h.full hw
    have h12 := hp.twelve_le
    obtain ⟨buffer,hreceive,-⟩ := Network.receive_ok (hhdr ▸ hp.length_data) (by omega) hbytes
      s.buffer
    exact ⟨_,buffer,_,hreceive,hhdr ▸ hp.length_ne⟩

/-- A packet with a mail of two bytes for mailbox 3 of machine 1. -/
theorem packetsDelivered_one :
    let packet : Packet := ⟨PacketHeader.codec.encode ⟨1,7,14⟩ ++
      (MailHeader.codec.encode ⟨3,4,2⟩ ++ List.replicate 40 7),rfl⟩
    let mem : Buffer maxMailSize := ⟨List.replicate maxMailSize 0,rfl⟩
    ∃ t, (stations 1 10).Run ([.arrive packet,.poll] ++ List.replicate 3 (.worker mem)) t ∧
      t.read = [packet] ∧ List.Forall₂ Carries [packet] t.put := by
  intro packet mem
  let s₀ : Station := ⟨10,⟨1,false,⟨0,0,0⟩,⟨List.replicate maxPacketSize 0,rfl⟩⟩,[],0,.waiting,
    ⟨List.replicate maxPacketSize 0,rfl⟩,fun _ => [],false,[],[],fun _ => []⟩
  let s₁ : Station := { s₀ with socket := [packet] }
  have hproper : packet.Proper 1 10 :=
    ⟨by decide,by decide,⟨⟨3,4,2⟩,[7,7],by decide,by decide⟩⟩
  have h₀ : (stations 1 10).Run [] s₀ :=
    .start ⟨rfl,rfl,rfl,rfl,rfl,rfl,fun _ => rfl,rfl,rfl,rfl,fun _ => rfl⟩
  have h₁ : (stations 1 10).Run [.arrive packet] s₁ := by
    refine h₀.step ⟨rfl,?_,by simp,rfl⟩
    rintro _ ⟨⟩
    exact hproper
  have h₂ : (stations 1 10).Run [.arrive packet,.poll] s₁.poll :=
    h₁.step ⟨rfl,by simp,by simp,rfl⟩
  obtain ⟨-,-,hfinish,-⟩ := packetsDelivered 1 10 _ s₁.poll h₂
  obtain ⟨t,ht,hread,hput⟩ := hfinish mem
  obtain ⟨inbox,-,hpoll⟩ := Station.poll_read (s := s₁) rfl rfl hproper
  have hs₂ : s₁.poll.read = [packet] := by rw [hpoll]; rfl
  have hrem : s₁.poll.remaining = 3 := by rw [hpoll]; rfl
  rw [hrem] at ht
  rw [hread, hs₂] at hput
  exact ⟨t,ht,hread.trans hs₂,hput⟩

end Nachos
