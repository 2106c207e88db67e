import Nachos.Network.RelayMail
import Mathlib.Algebra.BigOperators.Group.Finset.Basic

/-! # Runs of a relay

Whatever the order of the steps and whatever packets are lost, each machine does its errand, what
comes to it are the messages that were sent to it, and it never sends to a machine that has
halted. When none is lost some machine can go on until all have halted.
-/
namespace Nachos.Relay
variable {ι : Type} (R : Relay ι) (numBoxes : ℤ)

/-- A packet with a message for machine `a`. -/
structure Carrying (a : ι) (k : MailKind) (p : Packet) : Prop where
  toAddr : p.header.toAddr = R.addr a
  fromAddr : p.header.fromAddr = R.addr ((R.dest k).symm a)
  fits : p.header.length.toNat ≤ maxPacketSize
  data : p.data = MailHeader.codec.encode (R.header k) ++ R.text k

/-- A machine at which a thread has come this far. -/
structure Attends (a : ι) (m : PostalMachine) (g : Errand) : Prop where
  delivering : Delivering (R.addr a) numBoxes m.station
  sendBusy : m.station.network.sendBusy = false
  program : m.program.Sat (R.contract a) (fun _ _ => False) g
  straight : m.program.Straight
  sendLock : m.sendLock = g.locked
  awaiting : m.underWay + m.messageSent = g.awaiting.toNat
  printed : m.printed = g.lines
  running : m.crashed = false
  taken : ∀ k : MailKind, (m.station.taken k.box.toInt).length = (g.got k).toNat
  packets : ∀ p ∈ m.station.arrived, ∃ k, R.Carrying a k p
  halted : m.halted = true → g.lines = R.lines a ∧ ∀ k, g.sent k = true ∧ g.got k = true

/-- What a machine has to do yet, its polls of an empty socket apart. -/
def cost (m : PostalMachine) (g : Errand) : ℕ :=
  6 * g.left + 4 * m.station.socket.length + m.station.remaining + m.underWay +
    (!m.halted).toNat

/-- What a step of one machine is for its errand: at most one message goes out, and except for a
poll of an empty socket there is less to do. -/
structure Goes (a : ι) (m : PostalMachine) (g : Errand) (act : PostalAct) (m' : PostalMachine)
    (sent : Option Outgoing) (g' : Errand) : Prop where
  attends : R.Attends numBoxes a m' g'
  arrived : m'.station.arrived = m.station.arrived
  ident : m'.ident = m.ident
  effect : (sent = none ∧ g'.sent = g.sent) ∨ ∃ k, g.sent k = false ∧
    g'.sent = Function.update g.sent k true ∧ ((sent = none ∧ act.Loses) ∨
      ∃ p, sent = some (R.addr (R.dest k a),p) ∧ R.Carrying (R.dest k a) k p)
  cost : (m' = m ∧ g' = g ∧ sent = none ∧ act = .poll) ∨
    cost m' g' + 4 * sent.isSome.toNat < cost m g

variable {R numBoxes} {a : ι} {k : MailKind} {m m' : PostalMachine} {g : Errand} {p : Packet}

theorem legal (hboxes : 2 ≤ numBoxes) (k : MailKind) : (R.header k).Legal numBoxes := by
  have hfit := (said_spec (R := R) k).2
  refine ⟨?_,?_,?_⟩
  · change 0 ≤ k.box.toInt
    cases k <;> decide
  · have hbox : k.box.toInt < 2 := by cases k <;> decide
    exact lt_of_lt_of_le hbox hboxes
  · rw [toNat_length, length_text]
    exact hfit

namespace Carrying

theorem proper (h : R.Carrying a k p) (hboxes : 2 ≤ numBoxes) : p.Proper (R.addr a) numBoxes :=
  ⟨h.toAddr,h.fits,_,_,h.data,legal hboxes k⟩

theorem mailbox (h : R.Carrying a k p) : p.mailbox = k.box := Buffer.mailbox_eq h.data

theorem letter (h : R.Carrying a k p) {l : Letter} (hl : Carries p l) :
    l.pktHdr.fromAddr = R.addr ((R.dest k).symm a) ∧ l.mailHdr = R.header k ∧
      l.payload = R.text k := by
  obtain ⟨body,hbody,hpayload⟩ := hl.mail
  have hsize := MailHeader.codec.length_encode l.mailHdr
  have hsize' := MailHeader.codec.length_encode (R.header k)
  obtain ⟨hhdr,htext⟩ := List.append_inj (hbody.symm.trans h.data) (hsize.trans hsize'.symm)
  have hmail : l.mailHdr = R.header k := by
    rw [← MailHeader.codec.decode_encode l.mailHdr, hhdr, MailHeader.codec.decode_encode]
  have hlen : l.payload.length = body.length := by
    rw [hl.length, hmail, toNat_length, htext]
  refine ⟨by rw [hl.pktHdr, h.fromAddr],hmail,?_⟩
  rw [← htext]
  rcases hpayload with hp | hp
  · exact hp.eq_of_length hlen
  · exact (hp.eq_of_length hlen.symm).symm

end Carrying

theorem outgoing_eq (hident : m.ident = R.addr a) (hbusy : m.station.network.sendBusy = false)
    (hlegal : (R.header k).Legal m.station.numBoxes) {pktHdr : PacketHeader} {data : List Byte}
    (h : R.Sends a g pktHdr data k) (buffer : Buffer maxPacketSize) (wire : Packet) (lost : Bool) :
    (lost = true ∧ m.outgoing pktHdr (R.header k) data buffer wire lost = .ok none) ∨
      ∃ p, m.outgoing pktHdr (R.header k) data buffer wire lost =
        .ok (some (R.addr (R.dest k a),p)) ∧ R.Carrying (R.dest k a) k p := by
  have hlen := toNat_length (R := R) k
  have hdata : (R.header k).length.toNat ≤ data.length := by
    rw [hlen]
    exact h.text.length_le
  have htake : data.take (R.header k).length.toNat = R.text k := by
    rw [hlen, ← List.prefix_iff_eq_take.mp h.text]
  have hoffice : (R.header k).Legal (m.office hbusy).numBoxes := hlegal
  cases lost with
  | true =>
    have hsend := PostOffice.send_lost pktHdr hoffice hdata buffer wire
    refine .inl ⟨rfl,?_⟩
    rw [PostalMachine.outgoing, dif_pos hbusy, hsend]
    rfl
  | false =>
    obtain ⟨p,hsend,hp⟩ := PostOffice.send_ok pktHdr hoffice hdata buffer wire
    rw [htake] at hp
    have hstamp : ((m.office hbusy).stamp pktHdr (R.header k)).length.toNat = _ :=
      PostOffice.length_stamp hlegal.2.2
    have hhdr := Buffer.header_eq hp
    have hsize := MailHeader.codec.length_encode (R.header k)
    rw [MailHeader.codec_size] at hsize
    refine .inr ⟨p,?_,?_,?_,?_,?_⟩
    · rw [PostalMachine.outgoing, dif_pos hbusy, hsend, h.toAddr]
      rfl
    · rw [hhdr]
      exact h.toAddr
    · rw [hhdr, Equiv.symm_apply_apply]
      exact hident
    · have hmax := hlegal.2.2
      rw [hhdr, hstamp]
      unfold maxMailSize maxPacketSize maxWireSize at *
      omega
    · refine Buffer.data_eq hp ?_
      rw [hstamp, List.length_append, hsize, hlen]

theorem incoming_eq (h : R.Attends numBoxes a m g) (hboxes : 2 ≤ numBoxes) (k : MailKind)
    (data : Buffer maxMailSize) :
    (m.station.boxes k.box.toInt = [] ∧ m.incoming k.box.toInt data = .ok none) ∨
      ∃ r, m.incoming k.box.toInt data = .ok (some r) ∧ R.Brings a k r ∧
        ((m.station.take k.box.toInt data).taken =
          Function.update m.station.taken k.box.toInt
            (m.station.taken k.box.toInt ++
              [⟨r.1,r.2.1,r.2.2.bytes.take r.2.1.length.toNat⟩])) := by
  have hrange : 0 ≤ k.box.toInt ∧ k.box.toInt < m.station.numBoxes := by
    have hlegal := legal (R := R) hboxes k
    rw [h.delivering.boxes_eq]
    exact ⟨hlegal.1,hlegal.2.1⟩
  cases hmails : m.station.boxes k.box.toInt with
  | nil =>
    refine .inl ⟨rfl,?_⟩
    rw [PostalMachine.incoming, if_pos hrange, hmails]
    rfl
  | cons mail rest =>
    obtain ⟨data',hreceive,hletter⟩ := PostOffice.noBlockReceive_letter rest
      (h.delivering.legal k.box.toInt mail (by simp [hmails])) data
    have hput : mail.letter ∈ m.station.put := by
      have hmem : mail.letter ∈ m.station.put.filter fun l => l.box = k.box.toInt := by
        rw [h.delivering.order, hmails]
        simp
      exact (List.mem_filter.mp hmem).1
    have hbox : mail.letter.box = k.box.toInt := by
      have hmem : mail.letter ∈ m.station.put.filter fun l => l.box = k.box.toInt := by
        rw [h.delivering.order, hmails]
        simp
      simpa using (List.mem_filter.mp hmem).2
    obtain ⟨done,hand,inbox,hread,hdone,-⟩ := h.delivering.flow
    obtain ⟨p,hp,hcarries⟩ := exists_packet hdone hput
    obtain ⟨k',hk'⟩ := h.packets p (by
      rw [Station.arrived, hread]
      simp [hp])
    obtain ⟨hfrom,hmail,hpayload⟩ := hk'.letter hcarries
    obtain rfl : k' = k := by
      refine MailKind_box_inj (BitVec.toInt_inj.mp ?_)
      rw [← hbox, Letter.box, hmail]
      rfl
    have hletter' := congrArg Letter.payload hletter
    refine .inr ⟨(mail.pktHdr,mail.mailHdr,data'),?_,⟨hfrom,hmail,?_⟩,?_⟩
    · rw [PostalMachine.incoming, if_pos hrange, hmails, hreceive]
      rfl
    · rw [← hpayload, ← hletter']
      exact List.take_prefix _ _
    · rw [Station.take, hmails, hreceive]

section Acts
variable {act : PostalAct} {sent : Option Outgoing}

theorem Attends.withStation (h : R.Attends numBoxes a m g) {s : Station}
    (hs : Delivering (R.addr a) numBoxes s)
    (hbusy : s.network.sendBusy = m.station.network.sendBusy) (htaken : s.taken = m.station.taken)
    (harrived : s.arrived = m.station.arrived) :
    R.Attends numBoxes a { m with station := s } g :=
  { h with
    delivering := hs
    sendBusy := hbusy.trans h.sendBusy
    taken := by simpa only [htaken] using h.taken
    packets := by simpa only [harrived] using h.packets }

theorem Attends.poll (h : R.Attends numBoxes a m g) :
    R.Goes numBoxes a m g .poll { m with station := m.station.poll } none g := by
  rcases m.station.poll_eq with heq | hcrash | ⟨p,socket,hsocket,hrest,hread,havail,hworker,htaken,
    hbusy⟩
  · rw [heq]
    exact ⟨h,rfl,rfl,.inl ⟨rfl,rfl⟩,.inl ⟨rfl,rfl,rfl,rfl⟩⟩
  · have hrunning := h.delivering.poll.crashed
    rw [hcrash] at hrunning
    cases hrunning
  · have harrived : m.station.poll.arrived = m.station.arrived := by
      rw [Station.arrived, Station.arrived, hread, hrest, hsocket, List.append_assoc,
        List.singleton_append]
    have hident := h.delivering.poll.ident_eq.trans h.delivering.ident_eq.symm
    refine ⟨h.withStation h.delivering.poll hbusy htaken harrived,harrived,hident,.inl ⟨rfl,rfl⟩,
      .inr ?_⟩
    simp only [Relay.cost, hsocket, hrest, Station.remaining, havail, hworker, List.length_cons,
      Option.isSome_none, Bool.toNat_false]
    omega

theorem Attends.worker (h : R.Attends numBoxes a m g) {mem : Buffer maxMailSize} {s : Station}
    (hwork : m.station.work mem = some s) :
    R.Goes numBoxes a m g (.worker mem) { m with station := s } none g := by
  obtain ⟨harrived,htaken,hbusy⟩ := Station.work_eq hwork
  have hdel := h.delivering.work hwork
  have hrem : 0 < m.station.remaining := by
    rw [Nat.pos_iff_ne_zero]
    intro hzero
    simp only [Station.remaining] at hzero
    unfold Station.work at hwork
    cases hw : m.station.worker with
    | waiting =>
      rw [hw] at hwork hzero
      simp only [] at hwork
      rw [if_neg (by omega)] at hwork
      cases hwork
    | receiving => simp [hw] at hzero
    | putting => simp [hw] at hzero
  obtain ⟨t,ht,hread,hless⟩ := h.delivering.work_some hrem mem
  obtain rfl := Option.some_inj.mp (ht.symm.trans hwork)
  have hsocket : t.socket = m.station.socket := by
    rw [Station.arrived, Station.arrived, hread] at harrived
    exact List.append_cancel_left harrived
  refine ⟨h.withStation hdel hbusy htaken harrived,harrived,
    hdel.ident_eq.trans h.delivering.ident_eq.symm,.inl ⟨rfl,rfl⟩,.inr ?_⟩
  simp only [Relay.cost, hsocket, Option.isSome_none, Bool.toNat_false]
  omega

theorem Attends.sendDone (h : R.Attends numBoxes a m g) (hpos : 0 < m.underWay) :
    R.Goes numBoxes a m g .sendDone
      { m with underWay := m.underWay - 1, messageSent := m.messageSent + 1 } none g := by
  have hawaiting := h.awaiting
  refine ⟨{ h with awaiting := ?_ },rfl,rfl,.inl ⟨rfl,rfl⟩,.inr ?_⟩
  · show m.underWay - 1 + (m.messageSent + 1) = g.awaiting.toNat
    omega
  · simp only [Relay.cost, Option.isSome_none, Bool.toNat_false]
    omega

theorem Goes.goesOn {m' : PostalMachine} {g' : Errand} {buffer : Buffer maxPacketSize}
    {wire : Packet} {lost : Bool} (hm : R.Attends numBoxes a m' g')
    (hstation : m'.station.arrived = m.station.arrived ∧ m'.station.network = m.station.network ∧
      m'.station.remaining = m.station.remaining ∧ m'.station.socket = m.station.socket)
    (hunder : m'.underWay = m.underWay) (hhalted : m'.halted = m.halted)
    (hsent : g'.sent = g.sent) (hpos : 0 < g.left) (hleft : g'.left = g.left - 1) :
    R.Goes numBoxes a m g (.run buffer wire lost) m' none g' := by
  obtain ⟨harrived,hnetwork,hremaining,hsocket⟩ := hstation
  refine ⟨hm,harrived,congrArg Network.ident hnetwork,.inl ⟨rfl,hsent⟩,.inr ?_⟩
  simp only [Relay.cost, hsocket, hremaining, hunder, hhalted, hleft, Option.isSome_none,
    Bool.toNat_false]
  omega

theorem take_eq (s : Station) (box : ℤ) (data : Buffer maxMailSize) :
    (s.take box data).arrived = s.arrived ∧ (s.take box data).network = s.network ∧
      (s.take box data).remaining = s.remaining ∧ (s.take box data).socket = s.socket := by
  unfold Station.take
  split <;> exact ⟨rfl,rfl,rfl,rfl⟩

theorem chars_eq {data : List Byte} (h : 0 ∈ data) :
    PostalMachine.chars data = .ok (data.takeWhile (· ≠ 0)) := by
  refine if_neg fun hall => ?_
  simpa using List.all_eq_true.mp hall 0 h

/-- By cases on what the thread does next. -/
theorem Attends.run (h : R.Attends numBoxes a m g) (hboxes : 2 ≤ numBoxes)
    (hhalted : m.halted = false) {buffer : Buffer maxPacketSize} {wire : Packet} {lost : Bool}
    (hrun : m.run buffer wire lost = some (m',sent)) :
    ∃ g', R.Goes numBoxes a m g (.run buffer wire lost) m' sent g' := by
  have hsat := h.program
  have hstraight := h.straight
  have hsame : m.station.arrived = m.station.arrived ∧ m.station.network = m.station.network ∧
      m.station.remaining = m.station.remaining ∧ m.station.socket = m.station.socket :=
    ⟨rfl,rfl,rfl,rfl⟩
  have hnot : ∀ {P : Prop}, m.halted = true → P := fun ht =>
    absurd (ht.symm.trans hhalted) (by decide)
  unfold PostalMachine.run at hrun
  cases hp : m.program with
  | ret e => exact nomatch e
  | loop body x next =>
    rw [hp] at hstraight
    exact hstraight.elim
  | act op next =>
    rw [hp] at hsat hstraight hrun
    obtain ⟨⟨hpos,hpre⟩,hnext⟩ := hsat
    cases op with
    | acquire =>
      simp only [] at hrun
      split_ifs at hrun
      cases hrun
      exact ⟨_,.goesOn { h with
        program := hnext () _ rfl
        straight := hstraight ()
        sendLock := rfl } hsame rfl rfl rfl hpos rfl⟩
    | transmit pktHdr mailHdr data =>
      obtain ⟨hfree,k,rfl,hsends⟩ := hpre
      have hlegal : (R.header k).Legal m.station.numBoxes := by
        rw [h.delivering.boxes_eq]
        exact legal hboxes k
      have hinj : ∀ k', R.header k = R.header k' → g.send k = g.send k' :=
        fun k' hk' => by rw [header_inj hk']
      have hawaiting := h.awaiting
      rw [hfree] at hawaiting
      have hattends : R.Attends numBoxes a { m with
          underWay := m.underWay + 1, program := next () } (g.send k) := { h with
        program := hnext () _ hinj
        straight := hstraight ()
        awaiting := show m.underWay + 1 + m.messageSent = 1 by
          simp only [Bool.toNat_false] at hawaiting
          omega
        halted := hnot }
      rcases outgoing_eq h.delivering.ident_eq h.sendBusy hlegal hsends buffer wire lost with
        ⟨hlost,hout⟩ | ⟨p,hout,hp⟩
      · simp only [hout, PostalMachine.attempt] at hrun
        cases hrun
        refine ⟨_,hattends,rfl,rfl,.inr ⟨k,hsends.unsent,rfl,.inl ⟨rfl,hlost⟩⟩,.inr ?_⟩
        simp only [Relay.cost, Errand.send_left, Errand.tick_left, Option.isSome_none,
          Bool.toNat_false]
        omega
      · simp only [hout, PostalMachine.attempt] at hrun
        cases hrun
        refine ⟨_,hattends,rfl,rfl,.inr ⟨k,hsends.unsent,rfl,.inr ⟨p,rfl,hp⟩⟩,.inr ?_⟩
        simp only [Relay.cost, Errand.send_left, Errand.tick_left, Option.isSome_some,
          Bool.toNat_true]
        omega
    | awaitSent =>
      simp only [] at hrun
      split_ifs at hrun with hsent
      cases hrun
      have hawaiting := h.awaiting
      have hg : g.awaiting = true := hpre
      rw [hg] at hawaiting
      refine ⟨_,.goesOn { h with
        program := hnext () _ rfl
        straight := hstraight ()
        awaiting := ?_ } hsame rfl rfl rfl hpos rfl⟩
      show m.underWay + (m.messageSent - 1) = 0
      simp only [Bool.toNat_true] at hawaiting
      omega
    | release =>
      cases hrun
      exact ⟨_,.goesOn { h with
        program := hnext () _ rfl
        straight := hstraight ()
        sendLock := rfl } hsame rfl rfl rfl hpos rfl⟩
    | receive box data =>
      obtain ⟨k,rfl,hgot,-⟩ := hpre
      rcases incoming_eq h hboxes k data with ⟨-,hin⟩ | ⟨r,hin,hbrings,htaken⟩
      · simp only [hin, PostalMachine.attempt] at hrun
        cases hrun
      · simp only [hin, PostalMachine.attempt] at hrun
        cases hrun
        have hstation := take_eq m.station k.box.toInt data
        refine ⟨g.get k,.goesOn { h with
          delivering := h.delivering.take _ _
          sendBusy := (congrArg Network.sendBusy hstation.2.1).trans h.sendBusy
          program := hnext r _ fun k' hk' => ?_
          straight := hstraight r
          taken := ?_
          packets := by simpa only [hstation.1] using h.packets
          halted := hnot } hstation rfl rfl rfl hpos rfl⟩
        · obtain rfl := MailKind_box_inj (BitVec.toInt_inj.mp hk')
          exact ⟨hbrings,rfl⟩
        · intro k'
          have hk := h.taken k'
          simp only [htaken, Errand.get_got]
          by_cases hkk : k' = k
          · subst hkk
            rw [Function.update_self, Function.update_self, List.length_append, hk, hgot]
            rfl
          · have hbox : k'.box.toInt ≠ k.box.toInt :=
              fun hb => hkk (MailKind_box_inj (BitVec.toInt_inj.mp hb))
            rw [Function.update_of_ne hbox, Function.update_of_ne hkk, hk]
    | getNetAddr =>
      cases hrun
      exact ⟨_,.goesOn { h with
        program := hnext m.ident _ ⟨h.delivering.ident_eq,rfl⟩
        straight := hstraight m.ident } hsame rfl rfl rfl hpos rfl⟩
    | strlen data =>
      simp only [chars_eq hpre, PostalMachine.attempt] at hrun
      cases hrun
      exact ⟨_,.goesOn { h with
        program := hnext _ _ ⟨rfl,rfl⟩
        straight := hstraight _ } hsame rfl rfl rfl hpos rfl⟩
    | printMachine netAddr n =>
      cases hrun
      exact ⟨_,.goesOn { h with
        program := hnext () _ rfl
        straight := hstraight ()
        printed := congrArg (· ++ _) h.printed
        halted := hnot } hsame rfl rfl rfl hpos rfl⟩
    | printGot data fromAddr fromBox =>
      simp only [chars_eq hpre, PostalMachine.attempt] at hrun
      cases hrun
      exact ⟨_,.goesOn { h with
        program := hnext () _ rfl
        straight := hstraight ()
        printed := congrArg (· ++ _) h.printed
        halted := hnot } hsame rfl rfl rfl hpos rfl⟩
    | halt =>
      cases hrun
      refine ⟨g,{ h with
        program := ⟨⟨hpos,hpre⟩,hnext⟩
        straight := hstraight
        halted := fun _ => hpre },rfl,rfl,.inl ⟨rfl,rfl⟩,.inr ?_⟩
      simp only [Relay.cost, hhalted, Option.isSome_none, Bool.toNat_false, Bool.not_true,
        Bool.not_false, Bool.toNat_true]
      omega

theorem Attends.goes (h : R.Attends numBoxes a m g) (hboxes : 2 ≤ numBoxes)
    (hhalted : m.halted = false) (hact : m.act act = some (m',sent)) :
    ∃ g', R.Goes numBoxes a m g act m' sent g' := by
  cases act with
  | poll =>
    cases hact
    exact ⟨g,h.poll⟩
  | worker mem =>
    obtain ⟨s,hwork,heq⟩ := Option.map_eq_some_iff.mp hact
    cases heq
    exact ⟨g,h.worker hwork⟩
  | sendDone =>
    simp only [PostalMachine.act] at hact
    split_ifs at hact with hpos
    cases hact
    exact ⟨g,h.sendDone hpos⟩
  | run buffer wire lost => exact h.run hboxes hhalted hact

theorem Attends.arrive (h : R.Attends numBoxes a m g) (hboxes : 2 ≤ numBoxes)
    (hp : R.Carrying a k p) : R.Attends numBoxes a (m.arrive p) g :=
  { h with
    delivering := h.delivering.arrive (hp.proper hboxes)
    packets := by
      intro q hq
      rw [PostalMachine.arrive, Station.arrived, ← List.append_assoc, List.mem_append,
        List.mem_singleton] at hq
      rcases hq with hq | rfl
      · exact h.packets q hq
      · exact ⟨k,hp⟩ }

theorem arrived_arrive (m : PostalMachine) (p : Packet) :
    (m.arrive p).station.arrived = m.station.arrived ++ [p] := (List.append_assoc _ _ _).symm

theorem cost_arrive (m : PostalMachine) (g : Errand) (p : Packet) :
    cost (m.arrive p) g = cost m g + 4 := by
  simp only [cost, PostalMachine.arrive, List.length_append, List.length_singleton,
    Station.remaining]
  omega

theorem Attends.got_le (h : R.Attends numBoxes a m g) (k : MailKind) :
    (g.got k).toNat + (m.station.boxes k.box.toInt).length ≤
      m.station.arrived.countP fun p => p.mailbox = k.box := by
  obtain ⟨done,hand,inbox,hread,hdone,-⟩ := h.delivering.flow
  have hletters := count_letters k.box hdone
  rw [h.delivering.order, List.length_append, List.length_map, h.taken] at hletters
  rw [hletters, Station.arrived, hread, List.append_assoc, List.countP_append]
  exact Nat.le_add_right _ _

/-- When the worker has nothing to do, nothing is on the way from the socket to the mailboxes. -/
theorem Attends.got_eq (h : R.Attends numBoxes a m g) (hrem : m.station.remaining = 0)
    (hsocket : m.station.socket = []) (k : MailKind) :
    (g.got k).toNat + (m.station.boxes k.box.toInt).length =
      m.station.arrived.countP fun p => p.mailbox = k.box := by
  have hletters := count_letters k.box (h.delivering.all_delivered hrem)
  rw [h.delivering.order, List.length_append, List.length_map, h.taken] at hletters
  rw [hletters, Station.arrived, hsocket, List.append_nil]

end Acts

/-! A machine at which nothing can be done. -/

section Stuck

/-- A thread that cannot go on waits for a message that is not there. -/
theorem Attends.waits (h : R.Attends numBoxes a m g) (hboxes : 2 ≤ numBoxes)
    (hunder : m.underWay = 0) (hrun : ∀ buffer wire, m.run buffer wire false = none) :
    ∃ k, g.got k = false ∧ R.Waits a g k ∧ m.station.boxes k.box.toInt = [] := by
  have hsat := h.program
  have hstraight := h.straight
  have hstuck := hrun ⟨List.replicate _ 0,List.length_replicate⟩
    ⟨List.replicate _ 0,List.length_replicate⟩
  unfold PostalMachine.run at hstuck
  cases hp : m.program with
  | ret e => exact nomatch e
  | loop body x next =>
    rw [hp] at hstraight
    exact hstraight.elim
  | act op next =>
    rw [hp] at hsat hstuck
    obtain ⟨⟨-,hpre⟩,-⟩ := hsat
    cases op with
    | acquire =>
      have hfree : m.sendLock = false := h.sendLock.trans hpre
      simp [hfree] at hstuck
    | transmit pktHdr mailHdr data =>
      obtain ⟨-,k,rfl,hsends⟩ := hpre
      have hlegal : (R.header k).Legal m.station.numBoxes := by
        rw [h.delivering.boxes_eq]
        exact legal hboxes k
      rcases outgoing_eq h.delivering.ident_eq h.sendBusy hlegal hsends
        ⟨List.replicate _ 0,List.length_replicate⟩ ⟨List.replicate _ 0,List.length_replicate⟩ false
        with ⟨hlost,-⟩ | ⟨p,hout,-⟩
      · cases hlost
      · simp only [hout, PostalMachine.attempt] at hstuck
        cases hstuck
    | awaitSent =>
      have hawaiting := h.awaiting
      rw [hunder, show g.awaiting = true from hpre, Bool.toNat_true] at hawaiting
      simp only [] at hstuck
      rw [if_pos (by omega)] at hstuck
      cases hstuck
    | receive box data =>
      obtain ⟨k,rfl,hgot,hwaits⟩ := hpre
      rcases incoming_eq h hboxes k data with ⟨hempty,-⟩ | ⟨r,hin,-⟩
      · exact ⟨k,hgot,hwaits,hempty⟩
      · simp only [hin, PostalMachine.attempt] at hstuck
        cases hstuck
    | strlen data =>
      simp only [chars_eq hpre, PostalMachine.attempt] at hstuck
      cases hstuck
    | printGot data fromAddr fromBox =>
      simp only [chars_eq hpre, PostalMachine.attempt] at hstuck
      cases hstuck
    | release | getNetAddr | printMachine | halt => cases hstuck

theorem Attends.socket_eq (h : R.Attends numBoxes a m g) (hboxes : 2 ≤ numBoxes)
    (hrem : m.station.remaining = 0) (hpoll : m.station.poll = m.station) :
    m.station.socket = [] := by
  obtain ⟨done,hand,inbox,-,-,-,hin,hsignals⟩ := h.delivering.flow
  have hnone : inbox = [] := by
    refine List.eq_nil_of_length_eq_zero ?_
    rw [← hsignals]
    simp only [Station.remaining] at hrem
    cases hw : m.station.worker with
    | waiting =>
      simp only [WorkerPhase.consumed]
      omega
    | receiving => simp [hw] at hrem
    | putting => simp [hw] at hrem
  subst hnone
  cases hin with
  | empty hempty =>
    cases hsocket : m.station.socket with
    | nil => rfl
    | cons p rest =>
      obtain ⟨k,hk⟩ := h.packets p (by simp [Station.arrived, hsocket])
      have hproper := hk.proper hboxes
      rw [← h.delivering.ident_eq] at hproper
      obtain ⟨bytes,-,hread⟩ := Station.poll_read hempty hsocket hproper
      rw [hpoll] at hread
      have hlen := congrArg (fun s : Station => s.socket.length) hread
      simp [hsocket] at hlen

end Stuck

section Net
variable [DecidableEq ι]

/-- The machines and how far their threads have come: to each come the messages that were sent to
it, and all of them when none is lost. -/
structure InStep (R : Relay ι) (numBoxes : ℤ) (exact : Prop) (w : ι → PostalMachine)
    (g : ι → Errand) : Prop where
  attends : ∀ a, R.Attends numBoxes a (w a) (g a)
  count_le : ∀ a k, ((w a).station.arrived.countP fun p => p.mailbox = k.box) ≤
    ((g ((R.dest k).symm a)).sent k).toNat
  count_ge : exact → ∀ a k, ((g ((R.dest k).symm a)).sent k).toNat ≤
    (w a).station.arrived.countP fun p => p.mailbox = k.box

variable {exact : Prop} {w w' : ι → PostalMachine} {g : ι → Errand} {g₁ : Errand} {act : PostalAct}
  {sent : Option Outgoing}

theorem attends_update (h : InStep R numBoxes exact w g) (hm : R.Attends numBoxes a m g₁) (b : ι) :
    R.Attends numBoxes b (Function.update w a m b) (Function.update g a g₁ b) := by
  by_cases hb : b = a
  · subst hb
    rwa [Function.update_self, Function.update_self]
  · rw [Function.update_of_ne hb, Function.update_of_ne hb]
    exact h.attends b

theorem arrived_update (harrived : m.station.arrived = (w a).station.arrived) (b : ι) :
    (Function.update w a m b).station.arrived = (w b).station.arrived := by
  by_cases hb : b = a
  · subst hb
    rwa [Function.update_self]
  · rw [Function.update_of_ne hb]

theorem InStep.aside (h : InStep R numBoxes exact w g) (hm : R.Attends numBoxes a m g₁)
    (harrived : m.station.arrived = (w a).station.arrived) (hsent : g₁.sent = (g a).sent) :
    InStep R numBoxes exact (Function.update w a m) (Function.update g a g₁) := by
  have hsame : ∀ b, (Function.update g a g₁ b).sent = (g b).sent := by
    intro b
    by_cases hb : b = a
    · subst hb
      rwa [Function.update_self]
    · rw [Function.update_of_ne hb]
  refine ⟨attends_update h hm,fun b k => ?_,fun he b k => ?_⟩
  · rw [arrived_update harrived, hsame]
    exact h.count_le b k
  · rw [arrived_update harrived, hsame]
    exact h.count_ge he b k

theorem sent_update (hsent : g₁.sent = Function.update (g a).sent k true) (b : ι) (k' : MailKind) :
    ((Function.update g a g₁ ((R.dest k').symm b)).sent k') =
      if k' = k ∧ b = R.dest k a then true else (g ((R.dest k').symm b)).sent k' := by
  by_cases hb : (R.dest k').symm b = a
  · have hdest : b = R.dest k' a := (Equiv.symm_apply_eq _).mp hb
    rw [hb, Function.update_self, hsent, Function.update_apply]
    by_cases hk : k' = k
    · subst hk
      rw [if_pos rfl, if_pos ⟨rfl,hdest⟩]
    · rw [if_neg hk, if_neg fun hand => hk hand.1]
  · rw [Function.update_of_ne hb, if_neg]
    rintro ⟨rfl,rfl⟩
    exact hb (Equiv.symm_apply_apply _ _)

theorem InStep.loses (h : InStep R numBoxes exact w g) (hm : R.Attends numBoxes a m g₁)
    (harrived : m.station.arrived = (w a).station.arrived)
    (hsent : g₁.sent = Function.update (g a).sent k true) (hexact : ¬ exact) :
    InStep R numBoxes exact (Function.update w a m) (Function.update g a g₁) := by
  refine ⟨attends_update h hm,fun b k' => ?_,fun he => absurd he hexact⟩
  rw [arrived_update harrived, sent_update hsent]
  refine (h.count_le b k').trans ?_
  split_ifs
  · exact Bool.toNat_le _
  · exact Nat.le_refl _

theorem InStep.delivers (h : InStep R numBoxes exact w g) (hboxes : 2 ≤ numBoxes)
    (hm : R.Attends numBoxes a m g₁) (harrived : m.station.arrived = (w a).station.arrived)
    (hunsent : (g a).sent k = false) (hsent : g₁.sent = Function.update (g a).sent k true)
    (hp : R.Carrying (R.dest k a) k p) :
    InStep R numBoxes exact (Function.update (Function.update w a m) (R.dest k a)
      ((Function.update w a m (R.dest k a)).arrive p)) (Function.update g a g₁) := by
  have hcount : ∀ b k', ((Function.update (Function.update w a m) (R.dest k a)
      ((Function.update w a m (R.dest k a)).arrive p) b).station.arrived.countP
        fun p => p.mailbox = k'.box) =
      ((w b).station.arrived.countP fun p => p.mailbox = k'.box) +
        (if k' = k ∧ b = R.dest k a then 1 else 0) := by
    intro b k'
    by_cases hb : b = R.dest k a
    · subst hb
      rw [Function.update_self, arrived_arrive, arrived_update harrived, List.countP_append,
        List.countP_singleton, hp.mailbox]
      by_cases hk : k' = k
      · subst hk
        simp
      · have hne : k.box ≠ k'.box := fun hbox => hk (MailKind_box_inj hbox).symm
        simp [hk, hne]
    · rw [Function.update_of_ne hb, arrived_update harrived, if_neg fun hand => hb hand.2]
      rfl
  have hold : ((g ((R.dest k).symm (R.dest k a))).sent k).toNat = 0 := by
    rw [Equiv.symm_apply_apply, hunsent]
    rfl
  refine ⟨fun b => ?_,fun b k' => ?_,fun he b k' => ?_⟩
  · by_cases hb : b = R.dest k a
    · subst hb
      rw [Function.update_self]
      exact (attends_update h hm _).arrive hboxes hp
    · rw [Function.update_of_ne hb]
      exact attends_update h hm b
  · have hle := h.count_le b k'
    rw [hcount, sent_update hsent]
    split_ifs with hand
    · obtain ⟨rfl,rfl⟩ := hand
      rw [hold] at hle
      exact Nat.succ_le_succ hle
    · exact hle
  · have hge := h.count_ge he b k'
    rw [hcount, sent_update hsent]
    split_ifs with hand
    · exact Nat.le_add_left _ _
    · exact hge

variable [Fintype ι]

def total (w : ι → PostalMachine) (g : ι → Errand) : ℕ := ∑ a, cost (w a) (g a)

theorem total_update (w : ι → PostalMachine) (g : ι → Errand) (a : ι) (m : PostalMachine)
    (g₁ : Errand) :
    total (Function.update w a m) (Function.update g a g₁) + cost (w a) (g a) =
      total w g + cost m g₁ := by
  have hrest : ∑ c ∈ Finset.univ.erase a,
      cost (Function.update w a m c) (Function.update g a g₁ c) =
      ∑ c ∈ Finset.univ.erase a, cost (w c) (g c) := by
    refine Finset.sum_congr rfl fun c hc => ?_
    have hne := Finset.ne_of_mem_erase hc
    rw [Function.update_of_ne hne, Function.update_of_ne hne]
  rw [total, total, ← Finset.add_sum_erase _ _ (Finset.mem_univ a), hrest,
    ← Finset.add_sum_erase _ (fun c => cost (w c) (g c)) (Finset.mem_univ a),
    Function.update_self, Function.update_self]
  omega

theorem total_arrive (w : ι → PostalMachine) (g : ι → Errand) (b : ι) (p : Packet) :
    total (Function.update w b ((w b).arrive p)) g = total w g + 4 := by
  have h := total_update w g b ((w b).arrive p) (g b)
  rw [Function.update_eq_self, cost_arrive] at h
  omega

/-- A message goes to a machine that is there and has not halted. -/
theorem InStep.deliver_eq (h : InStep R numBoxes exact w g) (hm : R.Attends numBoxes a m g₁)
    (harrived : m.station.arrived = (w a).station.arrived) (hunsent : (g a).sent k = false)
    (p : Packet) :
    PostalNet.deliver w a m (some (R.addr (R.dest k a),p)) =
      Function.update (Function.update w a m) (R.dest k a)
        ((Function.update w a m (R.dest k a)).arrive p) := by
  have hident : ∀ b, (Function.update w a m b).ident = R.addr b := by
    intro b
    by_cases hb : b = a
    · subst hb
      rw [Function.update_self]
      exact hm.delivering.ident_eq
    · rw [Function.update_of_ne hb]
      exact (h.attends b).delivering.ident_eq
  have hawake : (Function.update w a m (R.dest k a)).halted = false := by
    by_contra hne
    have hattends := attends_update h hm (R.dest k a)
    have hdone := (hattends.halted (eq_true_of_ne_false hne)).2 k
    have hgot := hattends.got_le k
    have hcount := h.count_le (R.dest k a) k
    rw [Equiv.symm_apply_apply, hunsent] at hcount
    rw [hdone.2, arrived_update harrived] at hgot
    simp only [Bool.toNat_true, Bool.toNat_false] at hgot hcount
    omega
  rw [PostalNet.deliver, if_pos ⟨_,hident _,hawake⟩]
  funext b
  simp only [hident, R.addr_injective.eq_iff]
  by_cases hb : b = R.dest k a
  · subst hb
    rw [if_pos rfl, Function.update_self]
  · rw [if_neg hb, Function.update_of_ne hb]

/-- A step of the machines, which is an idle poll or leaves less to do. -/
theorem InStep.step (h : InStep R numBoxes exact w g) (hboxes : 2 ≤ numBoxes)
    (hstep : PostalNet.step w a act = some w') (hlossless : exact → ¬ act.Loses) :
    ∃ g', InStep R numBoxes exact w' g' ∧ (w' = w ∧ act = .poll ∨ total w' g' < total w g) := by
  unfold PostalNet.step at hstep
  split_ifs at hstep with hstop
  simp only [not_or, Bool.not_eq_true] at hstop
  obtain ⟨⟨m,sent⟩,hact,rfl⟩ := Option.map_eq_some_iff.mp hstep
  obtain ⟨g₁,hgoes⟩ := (h.attends a).goes hboxes hstop.1 hact
  have htotal := total_update w g a m g₁
  refine ⟨Function.update g a g₁,?_⟩
  rcases hgoes.effect with ⟨rfl,hsent⟩ | ⟨k,hunsent,hsent,⟨rfl,hlost⟩ | ⟨p,rfl,hp⟩⟩
  · refine ⟨h.aside hgoes.attends hgoes.arrived hsent,?_⟩
    rcases hgoes.cost with ⟨rfl,-,-,hpoll⟩ | hless
    · exact .inl ⟨Function.update_eq_self _ _,hpoll⟩
    · refine .inr ?_
      simp only [PostalNet.deliver, Option.isSome_none, Bool.toNat_false] at hless ⊢
      omega
  · have hexact : ¬ exact := fun he => hlossless he hlost
    refine ⟨h.loses hgoes.attends hgoes.arrived hsent hexact,.inr ?_⟩
    rcases hgoes.cost with ⟨-,-,-,rfl⟩ | hless
    · exact hlost.elim
    · simp only [PostalNet.deliver, Option.isSome_none, Bool.toNat_false] at hless ⊢
      omega
  · simp only [h.deliver_eq hgoes.attends hgoes.arrived hunsent]
    refine ⟨h.delivers hboxes hgoes.attends hgoes.arrived hunsent hsent hp,.inr ?_⟩
    rcases hgoes.cost with ⟨-,-,hnone,-⟩ | hless
    · cases hnone
    · rw [total_arrive]
      simp only [Option.isSome_some, Bool.toNat_true] at hless
      omega

/-- The step is not a poll of an empty socket or a full inbox. -/
def Busy (w : ι → PostalMachine) (l : ι × PostalAct) : Prop :=
  l.2 = .poll → (w l.1).station.poll ≠ (w l.1).station

/-- When no machine can go on, none waits: the thread that was to send the message would have to
wait for one itself, and so on up to one that sends first. -/
theorem InStep.all_halted (h : InStep R numBoxes True w g) (hboxes : 2 ≤ numBoxes)
    (hstuck : ∀ a act w', PostalNet.step w a act = some w' → ¬ act.Loses → ¬ Busy w (a,act)) :
    ∀ a, (w a).halted = true := by
  have hstep : ∀ {a}, (w a).halted = false → ∀ act r, (w a).act act = some r → ¬ act.Loses →
      ¬ Busy w (a,act) := by
    intro a hhalted act r hact
    refine hstuck a act (PostalNet.deliver w a r.1 r.2) ?_
    have hrunning := (h.attends a).running
    have hstation := (h.attends a).delivering.crashed
    rw [PostalNet.step, if_neg (by simp [hhalted, hrunning, hstation]), hact]
    rfl
  have hwaits : ∀ a, (w a).halted = false → ∃ k, R.Waits a (g a) k ∧
      (g ((R.dest k).symm a)).sent k = false := by
    intro a hhalted
    have ha := h.attends a
    have hidle : ∀ act, act ≠ .poll → ¬ act.Loses → (w a).act act = none := by
      intro act hne hlost
      by_contra hsome
      obtain ⟨r,hr⟩ := Option.ne_none_iff_exists'.mp hsome
      exact hstep hhalted act r hr hlost fun hpoll => absurd hpoll hne
    have hpoll : (w a).station.poll = (w a).station := by
      by_contra hne
      exact hstep hhalted .poll _ rfl id fun _ => hne
    have hrem : (w a).station.remaining = 0 := by
      by_contra hne
      obtain ⟨t,ht,-⟩ := ha.delivering.work_some (Nat.pos_of_ne_zero hne)
        ⟨List.replicate _ 0,List.length_replicate⟩
      have hnone := hidle (.worker ⟨List.replicate _ 0,List.length_replicate⟩) nofun id
      rw [PostalMachine.act, ht] at hnone
      cases hnone
    have hunder : (w a).underWay = 0 := by
      have hnone := hidle .sendDone nofun id
      simp only [PostalMachine.act] at hnone
      split_ifs at hnone with hpos
      omega
    obtain ⟨k,hgot,hwait,hempty⟩ := ha.waits hboxes hunder fun buffer wire =>
      hidle (.run buffer wire false) nofun Bool.false_ne_true
    have hnone := ha.got_eq hrem (ha.socket_eq hboxes hrem hpoll) k
    have hge := h.count_ge trivial a k
    rw [← hnone, hgot, hempty] at hge
    refine ⟨k,hwait,?_⟩
    by_contra hsent
    rw [eq_true_of_ne_false hsent] at hge
    exact absurd hge (by decide)
  have hdone : ∀ {a}, (w a).halted = true → ∀ k, (g a).sent k = true :=
    fun hhalted k => (((h.attends _).halted hhalted).2 k).1
  have hdata : ∀ a, (g a).sent .data = true := by
    intro a
    obtain ⟨b,n,hstarts,rfl⟩ := R.reached a
    induction n with
    | zero =>
      cases hhalted : (w b).halted with
      | true => exact hdone hhalted _
      | false =>
        obtain ⟨k,hwait,-⟩ := hwaits b hhalted
        cases k with
        | data => exact hwait hstarts
        | ack => exact hwait.1
    | succ n ih =>
      rw [Function.iterate_succ_apply']
      cases hhalted : (w (R.next (R.next^[n] b))).halted with
      | true => exact hdone hhalted _
      | false =>
        obtain ⟨k,hwait,hunsent⟩ := hwaits _ hhalted
        cases k with
        | data =>
          rw [show (R.dest .data).symm (R.next (R.next^[n] b)) = R.next^[n] b from
            Equiv.symm_apply_apply _ _, ih] at hunsent
          cases hunsent
        | ack => exact hwait.1
  intro a
  by_contra hne
  obtain ⟨k,hwait,hunsent⟩ := hwaits a (eq_false_of_ne_true hne)
  cases k with
  | data =>
    rw [hdata] at hunsent
    cases hunsent
  | ack =>
    cases hhalted : (w (R.next a)).halted with
    | true =>
      have hacked := hdone hhalted .ack
      rw [show R.next a = (R.dest .ack).symm a from rfl, hunsent] at hacked
      cases hacked
    | false =>
      obtain ⟨k',hwait',hunsent'⟩ := hwaits _ hhalted
      cases k' with
      | data =>
        rw [hdata] at hunsent'
        cases hunsent'
      | ack =>
        have hacked := hwait'.2
        rw [show R.next a = (R.dest .ack).symm a from rfl, hunsent] at hacked
        cases hacked

end Net

end Nachos.Relay
