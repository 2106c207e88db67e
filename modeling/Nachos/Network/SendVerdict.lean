import Nachos.Network.SendAttempt

/-! # The verdict of `SendWait`

From a state where nothing of an earlier message is left, `SendWait` returns `true` when the peer
has taken its message, and `false` when it has sent it as often as it may and no ack has come.
-/
namespace Nachos
open Prog

/-- The ack to the message: the message has been taken. -/
structure SendWaitCall.IsAck (S : SendWaitCall) (accepted : List TcpMail) (ack : TcpMail) : Prop where
  accepted : accepted ≠ []
  payload : ack.payload ≠ []
  token : firstChar ack.payload = S.token + 1

/-- What a thread of the peer has to answer is the message. -/
structure SendWaitCall.Owes (S : SendWaitCall) (accepted : List TcpMail) (duty : Duty) : Prop where
  due : duty.due = true → accepted ≠ [] ∧ ∃ box, duty.known = some (box,S.token)
  known : duty.known = some (S.out.type,S.token) → accepted ≠ []

def SendWaitCall.Engaged (S : SendWaitCall) (accepted : List TcpMail) {α : Type} (p : TcpProg α) :
    Prop :=
  ∃ duty, p.Sat answering (fun _ _ => True) duty ∧ S.Owes accepted duty

/-- A `SendWait` that began when nothing of an earlier message was left. -/
structure SendWaitCall.Waits (S : SendWaitCall) (m : TcpMail) (got : Option TcpMail) (s : Attempt) :
    Prop where
  user : (s.world.office S.a).user = some (S.call,s.rest >>= S.next)
  listener : ∀ p, (s.world.office S.a).listener = some p → p.Uses TcpOp.Listens
  mail : (s.world.office S.a).mail S.out = m
  sat : s.rest.Sat (sending S.out S.limit) (Verdict S.out S.limit)
    ⟨s.sent,s.missed,s.stopped,got⟩
  got_some : ∀ ack, got = some ack → S.IsAck s.accepted ack
  got_none : got = none → (s.world.office S.a).boxes .ack = s.arrived ∧
    (s.missed = S.limit → s.arrived = [])
  mails : ∀ box, box ≠ .ack → ∀ x ∈ s.world.underWay S.a S.b box, box = S.out.type ∧ x = m
  acks : ∀ x ∈ s.world.underWay S.b S.a .ack, S.IsAck s.accepted x
  accepted : ∀ x ∈ s.accepted, x = m
  peerUser : ∀ c p, (s.world.office S.b).user = some (c,p) → S.Engaged s.accepted p
  peerListener : ∀ p, (s.world.office S.b).listener = some p → S.Engaged s.accepted p

namespace SendWaitCall
variable {S : SendWaitCall} {m : TcpMail} {got : Option TcpMail} {s t : Attempt}
  {accepted accepted' : List TcpMail} {o : Office} {sent : Option Message}

theorem IsAck.mono {ack : TcpMail} (h : S.IsAck accepted ack)
    (ha : accepted ≠ [] → accepted' ≠ []) : S.IsAck accepted' ack :=
  ⟨ha h.accepted,h.payload,h.token⟩

theorem Owes.mono {duty : Duty} (h : S.Owes accepted duty) (ha : accepted ≠ [] → accepted' ≠ []) :
    S.Owes accepted' duty :=
  ⟨fun hdue => ⟨ha (h.due hdue).1,(h.due hdue).2⟩,fun hknown => ha (h.known hknown)⟩

theorem Engaged.mono {α : Type} {p : TcpProg α} (h : S.Engaged accepted p)
    (ha : accepted ≠ [] → accepted' ≠ []) : S.Engaged accepted' p := by
  obtain ⟨duty,hsat,howes⟩ := h
  exact ⟨duty,hsat,howes.mono ha⟩

/-- A thread that is concerned with nothing owes nothing. -/
theorem Engaged.of_unconcerned {α : Type} {p : TcpProg α} (h : Unconcerned S.out.type S.token p) :
    S.Engaged accepted p := by
  obtain ⟨known,hne,hsat⟩ := h
  exact ⟨_,hsat,nofun,fun hknown => absurd hknown hne⟩

theorem Engaged.begins {α : Type} {p : TcpProg α}
    (h : ∀ s, p.Sat answering (fun _ _ => True) s) : S.Engaged accepted p :=
  ⟨⟨none,false⟩,h _,nofun,nofun⟩

theorem Owes.take {duty : Duty} {box : PktType} {into : Destination} (h : S.Owes accepted duty)
    (hm : m.payload = S.out.payload) (hnil : S.out.payload ≠ [])
    {mail : TcpMail} (hmail : box ≠ .ack → box = S.out.type ∧ mail = m)
    (haccepted : accepted ≠ [] ∨ box ≠ .ack ∧ into = .message → accepted' ≠ []) :
    S.Owes accepted' (duty.take box into mail) := by
  by_cases hbox : box = .ack
  · subst hbox
    rw [Duty.take_ack]
    exact h.mono fun hne => haccepted (.inl hne)
  obtain ⟨rfl,rfl⟩ := hmail hbox
  have hfirst : firstChar mail.payload = S.token := congrArg firstChar hm
  cases into with
  | message =>
    rw [Duty.take_message hbox, hfirst]
    have hne := haccepted (.inr ⟨hbox,rfl⟩)
    exact ⟨fun _ => ⟨hne,_,rfl⟩,fun _ => hne⟩
  | dull =>
    rw [Duty.take_dull hbox]
    refine ⟨fun hdue => ?_,fun hknown => haccepted (.inl (h.known hknown))⟩
    rcases of_decide_eq_true hdue with hempty | hcopy
    · exact absurd (hm.symm.trans hempty) hnil
    · rw [hfirst] at hcopy
      exact ⟨haccepted (.inl (h.known hcopy)),_,hcopy⟩

theorem Engaged.act {α : Type} {op : TcpOp} {next : op.Resp → TcpProg α} {r : op.Resp}
    {thread : TcpThread} {answers : Answers} {o' : Office} (h : S.Engaged accepted (.act op next))
    (hop : o.perform thread answers op = some (r,o',sent)) (hm : m.payload = S.out.payload)
    (hnil : S.out.payload ≠ [])
    (hmails : ∀ box, box ≠ .ack → ∀ x ∈ o.boxes box, box = S.out.type ∧ x = m)
    (haccepted : accepted' = accepted ++ (o.mailFor S.out.type op).toList) :
    S.Engaged accepted' (next r) ∧ ∀ m', sent = some m' → m'.type = .ack →
      accepted' ≠ [] ∧ m'.payload ≠ [] ∧ firstChar m'.payload = S.token + 1 := by
  obtain ⟨duty,hsat,howes⟩ := h
  have hmono : accepted ≠ [] → accepted' ≠ [] := by
    intro hne
    rw [haccepted]
    exact List.append_ne_nil_of_left_ne_nil hne _
  -- a mail that is taken as new is the message
  have hnew : ∀ {box mail rest}, o.boxes box = mail :: rest → box ≠ .ack →
      (op = .noBlockReceive box .message ∨ op = .receive box) → accepted' ≠ [] := by
    intro box mail rest hbox hack hor
    obtain ⟨hout,-⟩ := hmails box hack mail (by rw [hbox]; exact List.mem_cons_self)
    have hfor : o.mailFor S.out.type op = some mail := by
      rcases hor with rfl | rfl
      · rw [Office.mailFor, if_pos hout, ← hout, hbox]
        rfl
      · rw [Office.mailFor, if_pos hout, ← hout, hbox]
        rfl
    rw [haccepted, hfor]
    exact List.append_ne_nil_of_right_ne_nil _ (List.cons_ne_nil _ _)
  cases op with
  | send m' =>
    cases hop
    refine ⟨⟨_,hsat.next rfl,?_⟩,?_⟩
    · split
      · exact ⟨nofun,fun hknown => hmono (howes.known hknown)⟩
      · exact howes.mono hmono
    · rintro _ ⟨⟩ htype
      obtain ⟨hdue,box,c,hknown,hne,hfirst⟩ := hsat.1 htype
      obtain ⟨hacc,box',hknown'⟩ := howes.due hdue
      obtain ⟨-,rfl⟩ := Prod.mk.inj (Option.some_inj.mp (hknown.symm.trans hknown'))
      exact ⟨hmono hacc,hne,hfirst⟩
  | noBlockReceive box into =>
    cases hbox : o.boxes box with
    | nil =>
      rw [Office.poll_nil hbox] at hop
      cases hop
      exact ⟨⟨duty,hsat.next rfl,howes.mono hmono⟩,nofun⟩
    | cons mail rest =>
      rw [Office.poll_cons hbox] at hop
      cases hop
      refine ⟨⟨_,hsat.next rfl,?_⟩,nofun⟩
      rw [Option.elim_some]
      refine howes.take hm hnil (fun hack => hmails box hack mail ?_) ?_
      · rw [hbox]
        exact List.mem_cons_self
      · rintro (hne | ⟨hack,rfl⟩)
        · exact hmono hne
        · exact hnew hbox hack (.inl rfl)
  | receive box =>
    cases hbox : o.boxes box with
    | nil =>
      rw [Office.receive_nil hbox] at hop
      cases hop
    | cons mail rest =>
      rw [Office.receive_cons hbox] at hop
      cases hop
      refine ⟨⟨_,hsat.next rfl,?_⟩,nofun⟩
      have hack : box ≠ .ack := hsat.1
      refine howes.take hm hnil (fun hack => hmails box hack r ?_) fun _ =>
        hnew hbox hack (.inr rfl)
      rw [hbox]
      exact List.mem_cons_self
  | stopSemP | waitSemP =>
    simp only [Office.perform] at hop
    split at hop <;> cases hop
    exact ⟨⟨duty,hsat.next rfl,howes.mono hmono⟩,nofun⟩
  | crash => cases hop
  | connectedID | setConnectedID | stoppingConnection | setStoppingConnection | schedule
    | stopSemV | fileOpen | fileLength | fileRead | fileCreate | fileWrite | memory | behind =>
    cases hop
    exact ⟨⟨duty,hsat.next rfl,howes.mono hmono⟩,nofun⟩

theorem Waits.left (h : S.Waits m got s) (hne : S.a ≠ S.b) {got' : Option TcpMail}
    (hworld : t.world = ⟨Function.update s.world.office S.a o,s.world.transmit S.a sent⟩)
    (huser : o.user = some (S.call,t.rest >>= S.next))
    (hlistener : ∀ p, o.listener = some p → p.Uses TcpOp.Listens) (hmail : o.mail S.out = m)
    (hsat : t.rest.Sat (sending S.out S.limit) (Verdict S.out S.limit)
      ⟨t.sent,t.missed,t.stopped,got'⟩)
    (hsome : ∀ ack, got' = some ack → S.IsAck t.accepted ack)
    (hnone : got' = none → o.boxes .ack = t.arrived ∧ (t.missed = S.limit → t.arrived = []))
    (hboxes : ∀ x ∈ o.boxes .ack, x ∈ (s.world.office S.a).boxes .ack)
    (hsent : ∀ m', sent = some m' → m'.type ≠ .ack → m' = S.out)
    (haccepted : t.accepted = s.accepted) : S.Waits m got' t where
  user := by
    rw [hworld, Machines.office_self]
    exact huser
  listener := by
    rw [hworld, Machines.office_self]
    exact hlistener
  mail := by
    rw [hworld, Machines.office_self]
    exact hmail
  sat := hsat
  got_some := hsome
  got_none := by
    rw [hworld, Machines.office_self]
    exact hnone
  mails box hbox x hx := by
    rw [hworld, Machines.underWay_out hne.symm] at hx
    replace hx := List.mem_append.mp hx
    rcases hx with hx | hx
    · exact h.mails box hbox x hx
    · cases sent with
      | none => cases hx
      | some m' =>
        rw [Machines.posted] at hx
        split_ifs at hx with hto
        · obtain ⟨-,rfl⟩ := hto
          obtain rfl := hsent m' rfl hbox
          rw [List.mem_singleton.mp hx]
          exact ⟨rfl,h.mail⟩
        · cases hx
  acks x hx := by
    rw [hworld, Machines.underWay_in hne.symm] at hx
    rw [haccepted]
    replace hx := List.mem_append.mp hx
    rcases hx with hx | hx
    · exact h.acks x (List.mem_append_left _ (hboxes x hx))
    · exact h.acks x (List.mem_append_right _ hx)
  accepted := by
    rw [haccepted]
    exact h.accepted
  peerUser := by
    rw [hworld, Machines.office_of_ne hne.symm, haccepted]
    exact h.peerUser
  peerListener := by
    rw [hworld, Machines.office_of_ne hne.symm, haccepted]
    exact h.peerListener

theorem Waits.right (h : S.Waits m got s) (hne : S.a ≠ S.b)
    (hboxes : ∀ box, ∀ x ∈ o.boxes box, x ∈ (s.world.office S.b).boxes box)
    (hsent : ∀ m', sent = some m' → m'.type = .ack →
      accepted ≠ [] ∧ m'.payload ≠ [] ∧ firstChar m'.payload = S.token + 1)
    (hmono : s.accepted ≠ [] → accepted ≠ []) (haccepted : ∀ x ∈ accepted, x = m)
    (huser : ∀ c p, o.user = some (c,p) → S.Engaged accepted p)
    (hlistener : ∀ p, o.listener = some p → S.Engaged accepted p) :
    S.Waits m got { s with
      world := ⟨Function.update s.world.office S.b o,s.world.transmit S.b sent⟩
      accepted := accepted } where
  user := by
    rw [Machines.office_of_ne hne]
    exact h.user
  listener := by
    rw [Machines.office_of_ne hne]
    exact h.listener
  mail := by
    rw [Machines.office_of_ne hne]
    exact h.mail
  sat := h.sat
  got_some ack hack := (h.got_some ack hack).mono hmono
  got_none := by
    rw [Machines.office_of_ne hne]
    exact h.got_none
  mails box hbox x hx := by
    rw [Machines.underWay_in hne] at hx
    replace hx := List.mem_append.mp hx
    rcases hx with hx | hx
    · exact h.mails box hbox x (List.mem_append_left _ (hboxes box x hx))
    · exact h.mails box hbox x (List.mem_append_right _ hx)
  acks x hx := by
    rw [Machines.underWay_out hne] at hx
    replace hx := List.mem_append.mp hx
    rcases hx with hx | hx
    · exact (h.acks x hx).mono hmono
    · cases sent with
      | none => cases hx
      | some m' =>
        rw [Machines.posted] at hx
        split_ifs at hx with hto
        · obtain ⟨hacc,hnil,hfirst⟩ := hsent m' rfl hto.2
          rw [List.mem_singleton.mp hx]
          exact ⟨hacc,hnil,hfirst⟩
        · cases hx
  accepted := haccepted
  peerUser := by
    rw [Machines.office_self]
    exact huser
  peerListener := by
    rw [Machines.office_self]
    exact hlistener

theorem Waits.network (h : S.Waits m got s) {w : Machines} {arrived : List TcpMail}
    (hoffice : ∀ x, x = S.a ∨ x = S.b → w.office x = s.world.office x ∨
      ∃ box mail, w.office x = (s.world.office x).put box mail)
    (hnone : got = none → (w.office S.a).boxes .ack = arrived ∧
      (s.missed = S.limit → arrived = []))
    (hmails : ∀ box, ∀ x ∈ w.underWay S.a S.b box, x ∈ s.world.underWay S.a S.b box)
    (hacks : ∀ x ∈ w.underWay S.b S.a .ack, x ∈ s.world.underWay S.b S.a .ack) :
    S.Waits m got { s with world := w, arrived := arrived } where
  user := by
    rcases hoffice S.a (.inl rfl) with ha | ⟨_,_,ha⟩ <;> rw [ha]
    · exact h.user
    · exact h.user
  listener := by
    rcases hoffice S.a (.inl rfl) with ha | ⟨_,_,ha⟩ <;> rw [ha]
    · exact h.listener
    · exact h.listener
  mail := by
    rcases hoffice S.a (.inl rfl) with ha | ⟨_,_,ha⟩ <;> rw [ha]
    · exact h.mail
    · exact h.mail
  sat := h.sat
  got_some := h.got_some
  got_none := hnone
  mails box hbox x hx := h.mails box hbox x (hmails box x hx)
  acks x hx := h.acks x (hacks x hx)
  accepted := h.accepted
  peerUser := by
    rcases hoffice S.b (.inr rfl) with hb | ⟨_,_,hb⟩ <;> rw [hb]
    · exact h.peerUser
    · exact h.peerUser
  peerListener := by
    rcases hoffice S.b (.inr rfl) with hb | ⟨_,_,hb⟩ <;> rw [hb]
    · exact h.peerListener
    · exact h.peerListener

theorem Waits.user_step (h : S.Waits m got s) (hne : S.a ≠ S.b) {answers : Answers}
    {q : TcpProg Bool}
    (hadv : (s.world.office S.a).advance .user answers s.rest = some (q,o,sent)) :
    ∃ got', S.Waits m got' { s.record (s.world.office S.a) with
      rest := q
      world := ⟨Function.update s.world.office S.a { o with user := some (S.call,q >>= S.next) },
        s.world.transmit S.a sent⟩ } := by
  have hsame := Office.advance_sameThreads hadv
  have hlistener : ∀ p, o.listener = some p → p.Uses TcpOp.Listens := by
    rw [hsame.listener]
    exact h.listener
  have hmail : o.pauses = (s.world.office S.a).pauses →
      Office.mail { o with user := some (S.call,q >>= S.next) } S.out = m := by
    intro hpauses
    rw [← h.mail, Office.mail, Office.mail, ← hsame.id, ← hsame.log, ← hpauses]
  have hsilent : ∀ m', (none : Option Message) = some m' → m'.type ≠ .ack → m' = S.out := by
    rintro _ ⟨⟩
  rcases Office.advance_cases hadv with ⟨op,next,r,hrest,rfl,hop⟩ | ⟨hq,rfl,rfl⟩
  · have hsat := h.sat
    rw [hrest] at hsat
    have hrecord : s.record (s.world.office S.a) = s.after (s.world.office S.a) op := by
      rw [Attempt.record, hrest]
    rw [hrecord]
    cases op with
    | setConnectedID | setStoppingConnection | stopSemV | receive => exact hsat.1.elim
    | crash => cases hop
    | send m' =>
      obtain rfl : m' = S.out := hsat.1
      cases hop
      refine ⟨got,h.left hne rfl rfl hlistener (hmail rfl) (hsat.next rfl) h.got_some h.got_none
        (fun _ hx => hx) ?_ rfl⟩
      rintro _ ⟨⟩ -
      rfl
    | noBlockReceive box into =>
      have hbox : box = .ack := by
        cases into with
        | message => exact hsat.1.1
        | dull => exact hsat.1.1
      subst hbox
      cases hcons : (s.world.office S.a).boxes .ack with
      | nil =>
        rw [Office.poll_nil hcons] at hop
        cases hop
        cases into with
        | message =>
          have hafter : s.after (s.world.office S.a) (.noBlockReceive .ack .message) =
              { s with missed := s.missed + 1 } := by
            rw [Attempt.after, if_pos hcons]
          rw [hafter]
          refine ⟨got,h.left hne rfl rfl hlistener (hmail rfl) (hsat.next rfl) h.got_some
            (fun hgot => ?_) (fun _ hx => hx) hsilent rfl⟩
          obtain ⟨hboxes,-⟩ := h.got_none hgot
          exact ⟨hboxes,fun _ => hboxes.symm.trans hcons⟩
        | dull =>
          exact ⟨got,h.left hne rfl rfl hlistener (hmail rfl) (hsat.next rfl) h.got_some h.got_none
            (fun _ hx => hx) hsilent rfl⟩
      | cons ack rest =>
        rw [Office.poll_cons hcons] at hop
        cases hop
        have hack : S.IsAck s.accepted ack := by
          refine h.acks ack (List.mem_append_left _ ?_)
          rw [hcons]
          exact List.mem_cons_self
        have hboxes : ∀ x ∈ ((s.world.office S.a).take .user .ack into ack rest).boxes .ack,
            x ∈ (s.world.office S.a).boxes .ack := fun _ hx => Office.mem_take hcons hx
        cases into with
        | message =>
          have hafter : s.after (s.world.office S.a) (.noBlockReceive .ack .message) = s := by
            rw [Attempt.after, if_neg (by rw [hcons]; exact List.cons_ne_nil _ _)]
          rw [hafter]
          refine ⟨some ack,h.left hne rfl rfl hlistener (hmail rfl) (hsat.next rfl) ?_ ?_ hboxes
            hsilent rfl⟩
          · rintro _ ⟨⟩
            exact hack
          · rintro ⟨⟩
        | dull =>
          refine ⟨got,h.left hne rfl rfl hlistener (hmail rfl) (hsat.next rfl) h.got_some
            (fun hgot => ?_) hboxes hsilent rfl⟩
          -- after the last look nothing has come
          obtain ⟨hboxes,hlast⟩ := h.got_none hgot
          rw [hlast (hsat.1.2 hgot), hcons] at hboxes
          cases hboxes
    | schedule ticks =>
      obtain rfl : ticks = tempo := hsat.1
      cases hop
      exact ⟨got,h.left hne rfl rfl hlistener (hmail rfl) (hsat.next rfl) h.got_some h.got_none
        (fun _ hx => hx) hsilent rfl⟩
    | stoppingConnection =>
      cases hop
      exact ⟨got,h.left hne rfl rfl hlistener (hmail rfl) (hsat.next rfl) h.got_some h.got_none
        (fun _ hx => hx) hsilent rfl⟩
    | stopSemP | waitSemP =>
      simp only [Office.perform] at hop
      split at hop <;> cases hop
      exact ⟨got,h.left hne rfl rfl hlistener (hmail rfl) (hsat.next rfl) h.got_some h.got_none
        (fun _ hx => hx) hsilent rfl⟩
    | connectedID | fileOpen | fileLength | fileRead | fileCreate | fileWrite | memory | behind =>
      cases hop
      exact ⟨got,h.left hne rfl rfl hlistener (hmail rfl) (hsat.next rfl) h.got_some h.got_none
        (fun _ hx => hx) hsilent rfl⟩
  · have hrecord : s.record (s.world.office S.a) = s := by
      rw [Attempt.record]
      split
      case h_1 op next hrest =>
        rw [hrest] at hq
        cases hq
      case h_2 => rfl
    rw [hrecord]
    exact ⟨got,h.left hne rfl rfl hlistener (hmail rfl) (h.sat.silent hq) h.got_some h.got_none
      (fun _ hx => hx) hsilent rfl⟩

theorem Waits.listener_step (h : S.Waits m got s) (hne : S.a ≠ S.b) {answers : Answers}
    {p q : TcpProg Unit} (hl : (s.world.office S.a).listener = some p)
    (hadv : (s.world.office S.a).advance .listener answers p = some (q,o,sent)) :
    S.Waits m got { s with
      world := ⟨Function.update s.world.office S.a { o with listener := some q },
        s.world.transmit S.a sent⟩ } := by
  have hsame := Office.advance_sameThreads hadv
  have hlistens := h.listener p hl
  obtain ⟨hboxes,hpauses,hsent⟩ := Office.advance_listens hlistens hadv
  refine h.left hne rfl (hsame.user.trans h.user) ?_ ?_ h.sat h.got_some ?_ ?_ ?_ rfl
  · rintro _ ⟨⟩
    exact Office.advance_uses hadv hlistens
  · rw [← h.mail, Office.mail, Office.mail, ← hsame.id, ← hsame.log, ← hpauses]
  · dsimp only
    rw [hboxes]
    exact h.got_none
  · dsimp only
    rw [hboxes]
    exact fun _ hx => hx
  · exact fun m' hm hack => absurd (hsent m' hm) hack

theorem Waits.sender_own (h : S.Waits m got s) (hne : S.a ≠ S.b) {l : OfficeStep}
    (harrive : ∀ box mail, l ≠ .arrive box mail)
    (hstep : (s.world.office S.a).step l = some (o,sent))
    (hs : s.sender (s.world.office S.a) (some l) = some t) :
    ∃ got', S.Waits m got' { t with
      world := ⟨Function.update s.world.office S.a o,s.world.transmit S.a sent⟩ } := by
  cases Office.step_cases hstep with
  | call c hnone => cases hnone.symm.trans h.user
  | arrive box mail => exact absurd rfl (harrive box mail)
  | userReturns => cases hs
  | user huser hadv =>
    obtain ⟨⟨q',o',sent'⟩,hrest,rfl⟩ := Option.map_eq_some_iff.mp hs
    obtain ⟨rfl,rfl⟩ := Prod.mk.inj (Option.some_inj.mp (huser.symm.trans h.user))
    have hret : ∀ r, s.rest ≠ .ret r := by
      intro r hr
      rw [hr] at hrest
      cases hrest
    rw [Office.advance_bind hret, hrest] at hadv
    cases hadv
    exact h.user_step hne hrest
  | listener hl hadv =>
    cases hs
    exact ⟨got,h.listener_step hne hl hadv⟩
  | listen =>
    cases hs
    refine ⟨got,h.left hne rfl h.user ?_ h.mail h.sat h.got_some h.got_none (fun _ hx => hx)
      nofun rfl⟩
    rintro _ ⟨⟩
    exact listens_listener
  | listenerReturns =>
    cases hs
    exact ⟨got,h.left hne rfl h.user nofun h.mail h.sat h.got_some h.got_none (fun _ hx => hx)
      nofun rfl⟩
  | wakeUp | elapse =>
    cases hs
    exact ⟨got,h.left hne rfl h.user h.listener h.mail h.sat h.got_some h.got_none
      (fun _ hx => hx) nofun rfl⟩

theorem Engaged.advance {α : Type} {p q : TcpProg α} {thread : TcpThread} {answers : Answers}
    {o' : Office} (h : S.Engaged accepted p)
    (hadv : o.advance thread answers p = some (q,o',sent)) (hm : m.payload = S.out.payload)
    (hnil : S.out.payload ≠ [])
    (hmails : ∀ box, box ≠ .ack → ∀ x ∈ o.boxes box, box = S.out.type ∧ x = m)
    {performed : Option TcpOp} (hact : ∀ op next, p = .act op next → performed = some op)
    (hsilent : p.silent = some q → performed = none)
    (haccepted : accepted' = accepted ++ (performed.bind (o.mailFor S.out.type)).toList) :
    S.Engaged accepted' q ∧ ∀ m', sent = some m' → m'.type = .ack →
      accepted' ≠ [] ∧ m'.payload ≠ [] ∧ firstChar m'.payload = S.token + 1 := by
  rcases Office.advance_cases hadv with ⟨op,next,r,rfl,rfl,hop⟩ | ⟨hq,-,rfl⟩
  · obtain rfl := hact op next rfl
    exact h.act hop hm hnil hmails haccepted
  · obtain rfl := hsilent hq
    obtain rfl : accepted' = accepted := haccepted.trans (List.append_nil _)
    obtain ⟨duty,hsat,howes⟩ := h
    exact ⟨⟨duty,hsat.silent hq,howes⟩,nofun⟩

theorem Waits.receiver_own (h : S.Waits m got s) (hne : S.a ≠ S.b) (hm : m.payload = S.out.payload)
    (hnil : S.out.payload ≠ []) (htype : S.out.type ≠ .ack) {l : OfficeStep}
    (harrive : ∀ box mail, l ≠ .arrive box mail)
    (hstep : (s.world.office S.b).step l = some (o,sent)) :
    S.Waits m got { s.receiver S.out.type (s.world.office S.b) (some l) with
      world := ⟨Function.update s.world.office S.b o,s.world.transmit S.b sent⟩ } := by
  have hmails : ∀ box, box ≠ .ack → ∀ x ∈ (s.world.office S.b).boxes box,
      box = S.out.type ∧ x = m := fun box hbox x hx => h.mails box hbox x (List.mem_append_left _ hx)
  have hmono : s.accepted ≠ [] → (s.receiver S.out.type (s.world.office S.b) (some l)).accepted ≠ [] :=
    fun hne => List.append_ne_nil_of_left_ne_nil hne _
  have haccepted : ∀ x ∈ (s.receiver S.out.type (s.world.office S.b) (some l)).accepted, x = m := by
    intro x hx
    rcases List.mem_append.mp hx with hx | hx
    · exact h.accepted x hx
    · obtain ⟨op,-,hop⟩ := Option.bind_eq_some_iff.mp (Option.mem_toList.mp hx)
      exact (hmails S.out.type htype x (Office.mem_of_mailFor hop)).2
  have hlisteners : ∀ p, (s.world.office S.b).listener = some p →
      S.Engaged (s.receiver S.out.type (s.world.office S.b) (some l)).accepted p :=
    fun p hp => (h.peerListener p hp).mono hmono
  have husers : ∀ c p, (s.world.office S.b).user = some (c,p) →
      S.Engaged (s.receiver S.out.type (s.world.office S.b) (some l)).accepted p :=
    fun c p hp => (h.peerUser c p hp).mono hmono
  cases Office.step_cases hstep with
  | arrive box mail => exact absurd rfl (harrive box mail)
  | call c hnone =>
    refine h.right hne (fun _ _ hx => hx) nofun hmono haccepted ?_ hlisteners
    rintro _ _ ⟨⟩
    exact .begins fun _ => Answering.sat_call _ _
  | listen =>
    refine h.right hne (fun _ _ hx => hx) nofun hmono haccepted husers ?_
    rintro _ ⟨⟩
    exact .begins fun _ => Answering.sat_listen
  | user huser hadv =>
    obtain ⟨hq,hsent⟩ := (h.peerUser _ _ huser).advance hadv hm hnil hmails
      (Office.operation_user huser) (Office.operation_user_silent huser) rfl
    refine h.right hne (fun box x hx => Office.advance_boxes hadv hx) hsent hmono haccepted ?_ ?_
    · rintro _ _ ⟨⟩
      exact hq
    · rw [(Office.advance_sameThreads hadv).listener]
      exact hlisteners
  | listener hl hadv =>
    obtain ⟨hq,hsent⟩ := (h.peerListener _ hl).advance hadv hm hnil hmails
      (Office.operation_listener hl) (Office.operation_listener_silent hl) rfl
    refine h.right hne (fun box x hx => Office.advance_boxes hadv hx) hsent hmono haccepted ?_ ?_
    · rw [(Office.advance_sameThreads hadv).user]
      exact husers
    · rintro _ ⟨⟩
      exact hq
  | userReturns => exact h.right hne (fun _ _ hx => hx) nofun hmono haccepted nofun hlisteners
  | listenerReturns => exact h.right hne (fun _ _ hx => hx) nofun hmono haccepted husers nofun
  | wakeUp | elapse =>
    exact h.right hne (fun _ _ hx => hx) nofun hmono haccepted husers hlisteners

theorem Waits.step (h : S.Waits m got s) (hne : S.a ≠ S.b) (hm : m.payload = S.out.payload)
    (hnil : S.out.payload ≠ []) (htype : S.out.type ≠ .ack) {l : MachinesStep} (hok : S.Orderly s l)
    (hstep : S.step s l = some t) : ∃ got', S.Waits m got' t := by
  obtain ⟨w,hw,hmap⟩ := Option.bind_eq_some_iff.mp hstep
  obtain ⟨t',ht',rfl⟩ := Option.map_eq_some_iff.mp hmap
  cases l with
  | own c l =>
    obtain ⟨harrive,o,sent,hown,rfl⟩ := Machines.own_eq hw
    by_cases ha : c = S.a
    · subst ha
      rw [Machines.stepOf, if_pos rfl] at ht'
      rw [Machines.stepOf, if_neg hne]
      exact h.sender_own hne harrive hown ht'
    rw [Machines.stepOf, if_neg ha] at ht'
    cases ht'
    by_cases hb : c = S.b
    · subst hb
      rw [Machines.stepOf, if_pos rfl]
      exact ⟨got,h.receiver_own hne hm hnil htype harrive hown⟩
    rw [Machines.stepOf, if_neg hb]
    refine ⟨got,h.network (fun x hx => .inl (Machines.office_of_ne ?_)) (fun hgot => ?_)
      (fun box x hx => ?_) fun x hx => ?_⟩
    · rcases hx with rfl | rfl
      · exact Ne.symm ha
      · exact Ne.symm hb
    · rw [Machines.office_of_ne (Ne.symm ha)]
      exact h.got_none hgot
    · rwa [Machines.underWay_aside (Ne.symm ha) (Ne.symm hb)] at hx
    · rwa [Machines.underWay_aside (Ne.symm hb) (Ne.symm ha)] at hx
  | lose c d k =>
    cases hw
    cases ht'
    exact ⟨got,h.network (fun x _ => .inl rfl) h.got_none
      (fun _ _ hx => (Machines.underWay_lose c d k).subset hx)
      fun _ hx => (Machines.underWay_lose c d k).subset hx⟩
  | deliver c d =>
    obtain ⟨box,mail,rest,hchannel,hdelivered⟩ := Machines.deliver_eq hw
    obtain ⟨hright,hleft,hlate⟩ := hok
    have hself : w.office d = (s.world.office d).put box mail := by
      rw [hdelivered, Machines.office_self]
    have hother : ∀ x, x ≠ d → w.office x = s.world.office x := by
      intro x hx
      rw [hdelivered, Machines.office_of_ne hx]
    -- the peer takes nothing at this step
    have hreceiver : t'.receiver S.out.type (s.world.office S.b)
        (s.world.stepOf S.b (.deliver c d)) = t' := by
      rw [Machines.stepOf, hchannel]
      split_ifs
      · exact congrArg (fun l => { t' with accepted := l }) (List.append_nil _)
      · rfl
    rw [hreceiver]
    have hnetwork : ∀ arrived, (got = none → (w.office S.a).boxes .ack = arrived ∧
        (s.missed = S.limit → arrived = [])) →
        S.Waits m got { s with world := w, arrived := arrived } := by
      intro arrived hnone
      refine h.network (fun x _ => ?_) hnone (fun box x hx => ?_) fun x hx => ?_
      · by_cases hx : x = d
        · subst hx
          exact .inr ⟨box,mail,hself⟩
        · exact .inl (hother x hx)
      · rwa [hdelivered, Machines.underWay_deliver hchannel hright] at hx
      · rwa [hdelivered, Machines.underWay_deliver hchannel hleft] at hx
    by_cases ha : d = S.a
    · rw [Machines.stepOf, if_pos ha, hchannel] at ht'
      rw [ha] at hself
      by_cases hack : box = .ack
      · subst hack
        cases ht'
        refine ⟨got,hnetwork _ fun hgot => ?_⟩
        obtain ⟨hboxes,-⟩ := h.got_none hgot
        rw [hself, Office.put]
        dsimp only
        rw [Function.update_self, hboxes]
        refine ⟨rfl,fun hmissed => absurd ?_ (hlate ha hmissed)⟩
        rw [hchannel]
        rfl
      · obtain rfl : s = t' := by
          cases box with
          | ack => exact absurd rfl hack
          | msg | stringInfo | fileInfo | processInfo | sync | stop => exact Option.some_inj.mp ht'
        refine ⟨got,hnetwork _ fun hgot => ?_⟩
        rw [hself, Office.put]
        dsimp only
        rw [Function.update_of_ne (Ne.symm hack)]
        exact h.got_none hgot
    · rw [Machines.stepOf, if_neg ha] at ht'
      cases ht'
      refine ⟨got,hnetwork _ fun hgot => ?_⟩
      rw [hother _ (Ne.symm ha)]
      exact h.got_none hgot

/-- Nothing of an earlier message is left when `SendWait` is called. -/
theorem Fresh.waits {w : Machines} (h : S.Fresh w) (hw : machines.Reachable w) (hbegins : S.Begins w) :
    S.Waits ((w.office S.a).mail S.out) none (S.begin w) where
  user := hbegins
  listener := Office.listens_of_reachable (reachable_office hw S.a)
  mail := rfl
  sat := Verdict.sat_sendWait S.inData h.payload
  got_some := nofun
  got_none _ := ⟨(List.append_eq_nil_iff.mp h.acks).1,fun _ => rfl⟩
  mails box hbox x hx := by
    rw [begin, h.mails box hbox] at hx
    cases hx
  acks x hx := by
    rw [begin, h.acks] at hx
    cases hx
  accepted := nofun
  peerUser c p hp := .of_unconcerned (h.user c p hp)
  peerListener p hp := .of_unconcerned (h.listener p hp)

theorem waits_of_run {w : Machines} (h : S.Fresh w) (hw : machines.Reachable w)
    (hbegins : S.Begins w) (hs : ((S.attempts w).guard S.Orderly).Reachable s) :
    ∃ got, S.Waits ((w.office S.a).mail S.out) got s := by
  refine hs.invariant (P := fun s => ∃ got, S.Waits ((w.office S.a).mail S.out) got s) ?_ ?_
  · rintro _ rfl
    exact ⟨none,h.waits hw hbegins⟩
  · rintro s l t ⟨got,hwaits⟩ ⟨hok,hstep⟩
    exact hwaits.step h.ne rfl h.payload h.type hok hstep

/-- `SendWait` called when nothing of an earlier message is left returns `true` only if the peer
has taken the message as a new one, and `false` only if it has sent all it may and no ack has
come, or has seen a `STOP`. -/
theorem sendWaitVerdict {w : Machines} (h : S.Fresh w) (hw : machines.Reachable w)
    (hbegins : S.Begins w) (hs : ((S.attempts w).guard S.Orderly).Reachable s) {r : Bool}
    (hret : s.rest = .ret r) :
    (r = true → (w.office S.a).mail S.out ∈ s.accepted) ∧
      (r = false → s.stopped = true ∨ s.sent = S.limit ∧ s.arrived = []) := by
  obtain ⟨got,hwaits⟩ := waits_of_run h hw hbegins hs
  have hverdict := hwaits.sat
  rw [hret] at hverdict
  constructor
  · intro hr
    obtain ⟨ack,hack⟩ := Option.ne_none_iff_exists'.mp (hverdict.of_true hr)
    obtain ⟨x,rest,hx⟩ := List.exists_cons_of_ne_nil (hwaits.got_some ack hack).accepted
    have hmem : x ∈ s.accepted := by
      rw [hx]
      exact List.mem_cons_self
    rw [← hwaits.accepted x hmem]
    exact hmem
  · intro hr
    rcases hverdict.of_false hr with hstopped | ⟨hgot,hsent,hmissed⟩ | ⟨ack,hack,hbad⟩
    · exact .inl hstopped
    · exact .inr ⟨hsent,(hwaits.got_none hgot).2 hmissed⟩
    · have hisAck := hwaits.got_some ack hack
      rcases hbad with hnil | hfollows
      · exact absurd hnil hisAck.payload
      · rw [hisAck.token] at hfollows
        exact absurd ((follows_succ _).mpr h.token) hfollows

/-! Runs of machines 0 and 1. -/

def steps (S : SendWaitCall) (s : Attempt) : List MachinesStep → Option Attempt
  | [] => some s
  | l :: ls => if S.Orderly s l then (S.step s l).bind fun t => S.steps t ls else none

theorem reachable_steps {w : Machines} {ls : List MachinesStep}
    (h : ((S.attempts w).guard S.Orderly).Reachable s) (hsteps : S.steps s ls = some t) :
    ((S.attempts w).guard S.Orderly).Reachable t := by
  induction ls generalizing s with
  | nil =>
    cases hsteps
    exact h
  | cons l ls ih =>
    rw [steps] at hsteps
    split_ifs at hsteps with hok
    obtain ⟨u,hstep,hrest⟩ := Option.bind_eq_some_iff.mp hsteps
    exact ih (h.step ⟨hok,hstep⟩) hrest

/-- What `EndConnection` does with the result. -/
def ended (acknowledged : Bool) : TcpProg ℤ := do
  let retVal ← retValue acknowledged
  if retVal = (← getConnectedID) then tcp (.setConnectedID (-1))
  return retVal

/-- The `SendWait` of `EndConnection`. -/
def ofEndConnection (a b : ℤ) : SendWaitCall where
  a := a
  b := b
  out := ⟨b,.stop,[Nachos.token a,0],2⟩
  inData := [0,0]
  limit := maxConnectionReemissions
  call := .endConnection
  next acknowledged := ended acknowledged >>= fun retVal => return .id retVal

theorem endConnection_eq (a : ℤ) {b : ℤ} (hb : b ≠ -1) : ∃ next,
    endConnection a = .act .connectedID next ∧ next b = .act .connectedID fun target =>
      .act (.setStoppingConnection false) fun _ =>
        sendWait ⟨target,.stop,[Nachos.token a,0],2⟩ .ack [0,0] maxConnectionReemissions >>= ended :=
  ⟨_,rfl,if_neg hb⟩

def endsBegin : List OfficeStep := .call .endConnection :: List.replicate 3 (.run .user ⟨true,0,[0]⟩)

theorem begins_ofEndConnection {a b : ℤ} {w w' : Machines}
    (h : w.steps (endsBegin.map (.own a)) = some w') (hid : (w.office a).id = a)
    (huser : (w.office a).user = none) (hconnected : (w.office a).connectedID = b) (hb : b ≠ -1) :
    (ofEndConnection a b).Begins w' := by
  obtain ⟨hsteps,-⟩ := Machines.steps_own h
  change (w'.office a).user = _
  generalize w.office a = o at *
  obtain ⟨next,hprog,hnext⟩ := endConnection_eq a hb
  have hcall : o.step (.call .endConnection) = some ({ o with
      user := some (.endConnection,.act .connectedID fun c => next c >>= fun r => return .id r)
      pauses := 0
      taken := [] },none) := by
    rw [Office.step, huser, hid, TcpCall.prog, hprog]
    rfl
  rw [endsBegin, Office.steps_cons hcall, List.replicate_succ,
    Office.steps_cons (Office.step_act rfl rfl), hconnected, hnext, List.replicate_succ,
    Office.steps_cons (Office.step_act rfl rfl)] at hsteps
  rw [List.replicate_succ, Office.steps_cons (Office.step_act rfl rfl)] at hsteps
  rw [← Option.some_inj.mp hsteps]
  exact congrArg (fun p => some (TcpCall.endConnection,p)) (bind_assoc' _ ended _)

theorem exists_ended (before during : List MachinesStep) {P : Machines → Machines → Attempt → Prop}
    [∀ w₀ w s, Decidable (P w₀ w s)]
    (h : ((Machines.new.steps before).any fun w₀ => (w₀.steps (endsBegin.map (.own 0))).any fun w =>
        ((ofEndConnection 0 1).steps ((ofEndConnection 0 1).begin w) during).any fun s =>
          decide (((w₀.office 0).user.isNone ∧ (w₀.office 0).connectedID = 1) ∧ P w₀ w s)) = true) :
    ∃ w₀ w s, Machines.new.steps before = some w₀ ∧
      w₀.steps (endsBegin.map (.own 0)) = some w ∧ machines.Reachable w ∧
      (ofEndConnection 0 1).Begins w ∧ (((ofEndConnection 0 1).attempts w).guard
        (ofEndConnection 0 1).Orderly).Reachable s ∧ P w₀ w s := by
  simp only [Option.any_eq_true, decide_eq_true_eq, Option.isNone_iff_eq_none] at h
  obtain ⟨w₀,hw₀,w,hw,s,hs,⟨huser,hconnected⟩,hP⟩ := h
  have h₀ : machines.Reachable w₀ := TransitionSystem.Reachable.startAt (.start Machines.new_new)
    (startAt_steps (.start rfl) hw₀)
  refine ⟨w₀,w,s,hw₀,hw,h₀.startAt (startAt_steps (.start rfl) hw),?_,
    reachable_steps (.start rfl) hs,hP⟩
  exact begins_ofEndConnection hw (Machines.id_of_reachable h₀ 0) huser hconnected (by decide)

open Machines in
/-- The peer listens and takes the `STOP`. -/
theorem sendWaitVerdict_stop : ∃ (w : Machines) (s : Attempt), machines.Reachable w ∧
    (ofEndConnection 0 1).Begins w ∧ s.rest = .ret true ∧
    (w.office 0).mail (ofEndConnection 0 1).out ∈ s.accepted := by
  obtain ⟨w₀,w,s,hw₀,hsteps,hw,hbegins,hs,hresult,huser,hlistener,hmails,hacks⟩ :=
    exists_ended (connects 0 1) (runs 0 .user 3 ++ [.own 1 .listen] ++ [.deliver 0 1] ++
      runs 1 .listener 3 ++ [.deliver 1 0] ++ wakes 0 tempo ++ runs 0 .user 6)
      (P := fun w₀ w s => s.result = some true ∧ (w₀.office 1).user.isNone ∧
        (w₀.office 1).listener.isNone ∧ (∀ box ∈ PktType.all, box ≠ .ack → w.underWay 0 1 box = []) ∧
        w.underWay 1 0 .ack = []) (by decide +kernel)
  have hother := (Machines.steps_own hsteps).2 1 (by decide)
  have hfresh : (ofEndConnection 0 1).Fresh w := by
    refine ⟨by decide,rfl,by decide,by decide,by decide,
      fun box hbox => hmails box box.mem_all hbox,hacks,?_,?_⟩
    · intro c p hp
      cases hp.symm.trans ((congrArg Office.user hother).trans
        (Option.isNone_iff_eq_none.mp huser))
    · intro p hp
      cases hp.symm.trans ((congrArg Office.listener hother).trans
        (Option.isNone_iff_eq_none.mp hlistener))
  have hrest := Attempt.rest_of_result hresult
  exact ⟨w,s,hw,hbegins,hrest,(sendWaitVerdict hfresh hw hbegins hs hrest).1 rfl⟩

/-- Both machines connect, with a copy of the `SYNC` whose ack comes late. -/
def connectsTwice : List MachinesStep :=
  [.own 0 (.call (.syncWithMachine 1)),.own 1 (.call .openConnection)] ++
    Machines.runs 0 .user 4 ++ Machines.wakes 0 tempo ++ Machines.runs 0 .user 7 ++
    [.deliver 0 1,.deliver 0 1] ++ Machines.runs 1 .user 6 ++ Machines.wakes 1 tempo ++
    Machines.runs 1 .user 5 ++ Machines.catchesNothing 1 .user ++ Machines.runs 1 .user 3 ++
    [.deliver 1 0] ++ Machines.wakes 0 tempo ++ Machines.runs 0 .user 4 ++
    Machines.catchesNothing 0 .user ++ Machines.runs 0 .user 3 ++ [.deliver 1 0,.deliver 1 0] ++
    Machines.wakes 0 tempo ++ Machines.runs 0 .user 6 ++ [.deliver 0 1] ++
    Machines.catchesNothing 0 .user ++ Machines.runs 0 .user 2 ++ [.own 0 (.finish .user)] ++
    Machines.wakes 1 tempo ++ Machines.runs 1 .user 8 ++ [.own 1 (.finish .user)]

/-- The late ack to the `SYNC` is taken for one to the `STOP`, which nobody has received. -/
theorem not_sendWaitVerdict : ∃ (S : SendWaitCall) (w : Machines) (s : Attempt),
    machines.Reachable w ∧ (w.office S.a).connectedID = S.b ∧ (w.office S.b).connectedID = S.a ∧
    S.Begins w ∧ ((S.attempts w).guard S.Orderly).Reachable s ∧ s.rest = .ret true ∧
    s.accepted = [] := by
  obtain ⟨w₀,w,s,-,-,hw,hbegins,hs,hresult,hleft,hright,haccepted⟩ :=
    exists_ended connectsTwice (Machines.runs 0 .user 3 ++ Machines.wakes 0 tempo ++
      Machines.runs 0 .user 6)
      (P := fun _ w s => s.result = some true ∧ (w.office 0).connectedID = 1 ∧
        (w.office 1).connectedID = 0 ∧ s.accepted = []) (by decide +kernel)
  exact ⟨ofEndConnection 0 1,w,s,hw,hleft,hright,hbegins,hs,Attempt.rest_of_result hresult,haccepted⟩

end SendWaitCall

end Nachos
