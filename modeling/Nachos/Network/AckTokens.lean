import Nachos.Network.BoundedWaiting

/-! # Acks and the messages they belong to

A receiver answers a message with its first character, incremented; the sender
compares with its own, and a receiver knows a message again by the same rule. The
sum is a `char` on one side and an `int` on the others, so that one character has no
successor.
-/
namespace Nachos
open Prog

theorem follows_succ (c : Byte) : Follows c (c + 1) ↔ c ≠ 127 := by
  have h : ∀ c : Byte, c.toInt + 1 = (c + 1).toInt ↔ c ≠ 127 := by decide +kernel
  exact h c

def Desk.quiet : Arrivals := fun _ _ => []

/-- A post office with one mail in one box. -/
def Desk.holding (connectedID : ℤ) (box : PktType) (mail : TcpMail) : Desk :=
  ⟨connectedID,Function.update (fun _ => []) box [mail],0,[],[]⟩

/-- The first message that a program sends, when `mail` is what it finds. -/
def FirstSent {α : Type} (p : TcpProg α) (box : PktType) (mail : TcpMail) (id : ℤ) (m : Message) :
    Prop :=
  Ends (Desk.world Desk.quiet) (fun _ t => t.sent.head? = some m) p (Desk.holding id box mail)

/-- `SendWait` takes the mail for the ack to its message. -/
def Accepts (out : Message) (ack : TcpMail) : Prop :=
  ∀ id inData limit, 0 < limit → Ends (Desk.world Desk.quiet) (fun b _ => b = true)
    (sendWait out .ack inData limit) (Desk.holding id .ack ack)

/-- `CatchWithAnswer` takes the mail for a copy and sends the answer again. -/
def AnswersAgain (answer : Message) (box : PktType) (mail : TcpMail) : Prop :=
  ∀ id, Ends (Desk.world Desk.quiet) (fun n t => n = 1 ∧ t.sent = [answer])
    (catchWithAnswer box answer) (Desk.holding id box mail)

/-- The receiver's answer to a message is accepted by its sender, and sent again for a copy. -/
def AcksMatch {α : Type} (p : TcpProg α) (box : PktType) (id : ℤ) (out : Message) : Prop :=
  ∀ mail : TcpMail, mail.payload = out.payload → ∃ answer, FirstSent p box mail id answer ∧
    (∀ ack : TcpMail, ack.payload = answer.payload → Accepts out ack) ∧
    AnswersAgain answer box mail

section Sender
variable {out : Message} {ack : TcpMail} {inData : List Byte} {limit : ℕ} {id : ℤ}

theorem arrive_quiet (s : Desk) : s.arrive Desk.quiet = s.boxes := by
  funext b
  simp [Desk.arrive, Desk.quiet]

theorem poll_holding (s : Desk) {box : PktType} {mail : TcpMail} (h : s.boxes box = [mail]) :
    s.poll Desk.quiet box = (some mail,{ s with
      boxes := Function.update s.boxes box []
      polls := s.polls + 1
      taken := s.taken ++ [(box,mail)] }) := by
  rw [Desk.poll, arrive_quiet, h]

theorem poll_empty (s : Desk) {box : PktType} (h : s.boxes box = []) :
    s.poll Desk.quiet box = (none,{ s with polls := s.polls + 1 }) := by
  rw [Desk.poll, arrive_quiet, h]

theorem ends_sendLoop_holding (hlimit : 0 < limit) :
    Ends (Desk.world Desk.quiet) (fun r _ => r = some (0,overwrite inData ack.payload))
      (sendLoop out .ack inData limit) (Desk.holding id .ack ack) := by
  refine .iterate (fun attempts t => attempts = 0 ∧ t = Desk.holding id .ack ack) (fun _ _ => 0)
    ⟨rfl,rfl⟩ ?_
  rintro _ t ⟨rfl,rfl⟩
  rw [if_pos hlimit]
  refine (ends_send out).bind ?_
  rintro _ _ rfl
  refine ends_wait.bind ?_
  rintro _ _ ⟨rfl,rfl⟩
  refine (ends_pollBox .ack .message).bind ?_
  intro r u hu
  have hbox : ((Desk.holding id .ack ack).send out).boxes .ack = [ack] := by
    simp [Desk.holding, Desk.send]
  rw [poll_holding _ hbox] at hu
  obtain rfl := congrArg Prod.fst hu
  exact .ret rfl

theorem ends_sendWait_holding {c : Byte} {rest : List Byte} (hdata : out.data = c :: rest)
    (hlimit : 0 < limit) :
    Ends (Desk.world Desk.quiet)
      (fun b _ => b = decide (Follows c (firstChar (overwrite inData ack.payload))))
      (sendWait out .ack inData limit) (Desk.holding id .ack ack) := by
  refine (ends_sendLoop_holding hlimit).bind ?_
  rintro _ t rfl
  refine (ends_catchMail Desk.quiet .ack _ t).bind ?_
  rintro _ u -
  refine ends_isStopping.bind ?_
  rintro _ _ ⟨rfl,rfl⟩
  rw [hdata]
  refine .ret ?_
  have h0 : 0 ≠ limit := hlimit.ne
  simp [h0]

/-- Without a character of its own the sender compares what lies behind its array. -/
theorem not_accepts_nil (hdata : out.data = []) : ¬ Accepts out ack := by
  intro h
  have h1 := ends_bind.mp (h 0 [0,0] 1 Nat.one_pos)
  obtain ⟨_,t,h1,rfl⟩ := h1.both (ends_sendLoop_holding Nat.one_pos)
  obtain ⟨n,u,h2,-⟩ := (ends_bind.mp h1).both (ends_catchMail Desk.quiet .ack _ t)
  obtain ⟨_,v,h3,rfl,rfl⟩ := (ends_bind.mp h2).both ends_isStopping
  simp only [Bool.false_eq_true, if_false, hdata] at h3
  have h4 := (ends_act.mp (ends_bind.mp h3)).2 [firstChar (overwrite [0,0] ack.payload)] v rfl
  have h5 := ends_ret.mp (ends_ret.mp h4)
  simp [firstChar, Follows] at h5

end Sender

section Receiver
variable {box : PktType} {mail : TcpMail} {answer out : Message} {id : ℤ}

/-- A mail that matches is answered once, and then nothing comes any more. -/
theorem answersAgain {c : Byte} {rest : List Byte} (hpayload : mail.payload = c :: rest)
    (hfollows : Follows c (firstChar answer.data)) : AnswersAgain answer box mail := by
  intro id
  refine ends_memory.bind ?_
  intro start t₀ ht₀
  subst ht₀
  refine .iterate (fun x t => (x = (0,0,start) ∧ t = Desk.holding id box mail) ∨
      (x.2.1 = 1 ∧ x.1 ≤ maxCatch ∧ t.polls = x.1 + 1 ∧ t.boxes box = [] ∧ t.sent = [answer]))
    (fun _ t => maxCatch + 2 - t.polls) (.inl ⟨rfl,rfl⟩) ?_
  rintro ⟨attempts,nbCatch,dull⟩ t (⟨hx,rfl⟩ | ⟨hcount,hattempts,hpolls,hbox,hsent⟩)
  · cases hx
    dsimp only
    split
    case isFalse hstop => exact absurd (by decide) hstop
    refine ends_wait.bind ?_
    rintro _ _ ⟨rfl,rfl⟩
    refine (ends_pollBox box .dull).bind ?_
    intro r u hu
    have hbox : (Desk.holding id box mail).boxes box = [mail] := by simp [Desk.holding]
    rw [poll_holding _ hbox] at hu
    cases hu
    have hchar : firstChar (overwrite start mail.payload) = c := by
      simp [hpayload, overwrite, firstChar]
    dsimp only
    split
    case isFalse hstop => exact absurd (hchar ▸ hfollows) hstop
    refine (ends_send answer).bind ?_
    rintro _ _ rfl
    refine .ret ⟨.inr ⟨rfl,Nat.zero_le _,rfl,?_,rfl⟩,?_⟩
    · simp [Desk.send]
    · simp [Desk.send, Desk.holding]
  · dsimp only at hcount hattempts hpolls ⊢
    split
    case isTrue hgo =>
      refine ends_wait.bind ?_
      rintro _ _ ⟨rfl,rfl⟩
      refine (ends_pollBox box .dull).bind ?_
      intro r u hu
      rw [poll_empty _ hbox] at hu
      cases hu
      refine .ret ⟨.inr ⟨hcount,hgo,?_,hbox,hsent⟩,?_⟩
      · simp [hpolls]
      · simp only [hpolls]
        omega
    case isFalse => exact .ret ⟨hcount,hsent⟩

theorem ends_catchWithAnswer_quiet (box : PktType) (out : Message) (s : Desk) :
    Ends (Desk.world Desk.quiet) (fun _ t => ∃ rest, t.sent = s.sent ++ rest)
      (catchWithAnswer box out) s := by
  have hk : ∀ n, (s.arrivals Desk.quiet box n).length ≤ (s.boxes box).length := by
    intro n
    simp [Desk.arrivals, Desk.quiet]
  refine (ends_catchWithAnswer Desk.quiet box out s hk).mono ?_
  rintro _ t ⟨_,_,_,_,_,hsent,_⟩
  exact ⟨_,hsent⟩

theorem ends_receiveLoop_holding (inData : List Byte) :
    Ends (Desk.world Desk.quiet) (fun r t =>
        r = some (overwrite inData mail.payload,out.answer (overwrite inData mail.payload)) ∧
          t.sent = [out.answer (overwrite inData mail.payload)])
      (receiveLoop box inData out) (Desk.holding id box mail) := by
  refine .iterate (fun _ t => t = Desk.holding id box mail) (fun _ _ => 0) rfl ?_
  rintro _ _ rfl
  refine ends_wait.bind ?_
  rintro _ _ ⟨rfl,rfl⟩
  refine (ends_pollBox box .message).bind ?_
  intro r u hu
  have hbox : (Desk.holding id box mail).boxes box = [mail] := by simp [Desk.holding]
  rw [poll_holding _ hbox] at hu
  cases hu
  refine (ends_send _).bind ?_
  rintro _ _ rfl
  exact .ret ⟨rfl,rfl⟩

/-- What `ReceiveWait` sends first is the ack to the mail it finds. -/
theorem firstSent_receiveWait (inData : List Byte) (hout : out.type = .ack) :
    FirstSent (receiveWait box inData out) box mail id
      { out with data := [firstChar (overwrite inData mail.payload) + 1,0] } := by
  refine (ends_receiveLoop_holding inData).bind ?_
  rintro _ t ⟨rfl,hsent⟩
  refine (ends_catchWithAnswer_quiet box _ t).bind ?_
  rintro _ u ⟨rest,hrest⟩
  refine .ret ?_
  rw [hrest, hsent, Message.answer, if_pos hout]
  rfl

theorem ends_getConnectedID {a : Arrivals} {s : Desk} :
    Ends (Desk.world a) (fun r t => r = s.connectedID ∧ t = s) getConnectedID s :=
  .act ⟨s.connectedID,_,rfl,rfl⟩ fun _ _ h => .ret h

theorem ends_receiveBox : Ends (Desk.world Desk.quiet)
    (fun r t => r = mail ∧ t.sent = [] ∧ t.connectedID = id) (receiveBox box)
    (Desk.holding id box mail) := by
  have hbox : (Desk.holding id box mail).boxes box = [mail] := by simp [Desk.holding]
  refine .act ⟨mail,_,[],hbox,rfl⟩ ?_
  rintro r _ ⟨rest,hr,rfl⟩
  rw [hbox] at hr
  cases hr
  exact .ret ⟨rfl,rfl,rfl⟩

/-- The ack of `OpenConnection` and of `ListenForEndConnection`. -/
def firstAck (mail : TcpMail) : Message :=
  ⟨mail.fromAddr,.ack,[firstChar (overwrite [0,0] mail.payload) + 1,0],2⟩

theorem firstSent_openConnection (self : ℤ) :
    FirstSent (openConnection self) .sync mail (-1) (firstAck mail) := by
  refine ends_getConnectedID.bind ?_
  rintro _ _ ⟨rfl,rfl⟩
  refine ends_receiveBox.bind ?_
  rintro r t ⟨hr,hsent,-⟩
  obtain rfl : mail = r := hr.symm
  refine (ends_send _).bind ?_
  rintro _ _ rfl
  refine (ends_catchWithAnswer_quiet .sync _ _).bind ?_
  rintro _ u ⟨rest,hrest⟩
  refine (ends_sendWait Desk.quiet _ .ack _ _ u).bind ?_
  rintro b v ⟨⟨m,-,hv⟩,-⟩
  have hfirst : v.sent.head? = some (firstAck mail) := by
    rw [hv, hrest, Desk.send, hsent]
    rfl
  cases b with
  | false =>
    refine ends_getConnectedID.bind ?_
    rintro _ _ ⟨rfl,rfl⟩
    exact .ret hfirst
  | true =>
    refine .act ⟨(),_,rfl⟩ ?_
    rintro _ _ rfl
    refine ends_getConnectedID.mono ?_
    rintro _ _ ⟨rfl,rfl⟩
    exact hfirst

theorem firstSent_listenForEndConnection :
    FirstSent listenForEndConnection .stop mail id (firstAck mail) := by
  refine ends_receiveBox.bind ?_
  rintro r t ⟨hr,hsent,-⟩
  obtain rfl : mail = r := hr.symm
  refine (ends_send _).bind ?_
  rintro _ _ rfl
  refine (ends_catchWithAnswer_quiet .stop _ _).bind ?_
  rintro _ u ⟨rest,hrest⟩
  refine .act ⟨(),_,rfl⟩ ?_
  rintro _ _ rfl
  refine .act ⟨(),_,rfl⟩ ?_
  rintro _ _ rfl
  refine .ret ?_
  rw [hrest, Desk.send, hsent]
  rfl

theorem FirstSent.unique {α : Type} {p : TcpProg α} {m m' : Message}
    (h : FirstSent p box mail id m) (h' : FirstSent p box mail id m') : m = m' := by
  obtain ⟨_,t,hm,hm'⟩ := Ends.both h h'
  exact Option.some_inj.mp (hm.symm.trans hm')

end Receiver

/-- A program that answers what it finds by the first character, incremented. -/
def AnswersWithToken {α : Type} (p : TcpProg α) (box : PktType) (id : ℤ) (inData : List Byte) : Prop :=
  ∀ mail, ∃ answer, FirstSent p box mail id answer ∧ 0 < answer.length ∧
    answer.data = [firstChar (overwrite inData mail.payload) + 1,0]

section Match
variable {α : Type} {p : TcpProg α} {box : PktType} {id : ℤ} {inData : List Byte} {out : Message}

theorem payload_head {m : Message} {c : Byte} {rest : List Byte} (hdata : m.data = c :: rest)
    (hlength : 0 < m.length) : ∃ rest', m.payload = c :: rest' := by
  obtain ⟨n,hn⟩ := Nat.exists_eq_succ_of_ne_zero hlength.ne'
  exact ⟨rest.take n,by rw [Message.payload, hdata, hn, List.take_succ_cons]⟩

/-- The ack to a message fits just when its first character has a successor among the
characters. -/
theorem AnswersWithToken.acksMatch_iff (h : AnswersWithToken p box id inData)
    (hlength : out.data ≠ [] → 0 < out.length) :
    AcksMatch p box id out ↔ ∃ c rest, out.data = c :: rest ∧ c ≠ 127 := by
  cases hdata : out.data with
  | nil =>
    simp only [List.nil_eq, reduceCtorEq, false_and, exists_false, iff_false]
    intro hmatch
    obtain ⟨answer,-,haccept,-⟩ := hmatch ⟨0,out.payload,0,0⟩ rfl
    exact not_accepts_nil hdata (haccept ⟨0,answer.payload,0,0⟩ rfl)
  | cons c rest =>
    obtain ⟨rest',hpayload⟩ := payload_head hdata (hlength (by simp [hdata]))
    have hchar : ∀ mail : TcpMail, mail.payload = out.payload →
        firstChar (overwrite inData mail.payload) = c := by
      intro mail hm
      simp [hm, hpayload, overwrite, firstChar]
    constructor
    · intro hmatch
      refine ⟨c,rest,rfl,?_⟩
      obtain ⟨answer,hfirst,haccept,-⟩ := hmatch ⟨0,out.payload,0,0⟩ rfl
      obtain ⟨answer',hfirst',hlen,hanswer⟩ := h ⟨0,out.payload,0,0⟩
      obtain rfl := hfirst.unique hfirst'
      rw [hchar _ rfl] at hanswer
      obtain ⟨rest'',hack⟩ := payload_head hanswer hlen
      obtain ⟨b,_,hb,hb'⟩ := (haccept ⟨0,answer.payload,0,0⟩ rfl 0 [0,0] 1 Nat.one_pos).both
        (ends_sendWait_holding hdata Nat.one_pos)
      have hfollows := of_decide_eq_true (hb'.symm.trans hb)
      simp only [hack, overwrite, firstChar, List.cons_append, List.headD_cons] at hfollows
      exact (follows_succ c).mp hfollows
    · rintro ⟨c',rest'',hc,h127⟩
      cases hc
      intro mail hm
      obtain ⟨answer,hfirst,hlen,hanswer⟩ := h mail
      rw [hchar mail hm] at hanswer
      obtain ⟨ack',hack⟩ := payload_head hanswer hlen
      have hfollows := (follows_succ c).mpr h127
      refine ⟨answer,hfirst,?_,?_⟩
      · intro ack hpay id inData limit hlimit
        refine (ends_sendWait_holding hdata hlimit).mono ?_
        rintro b _ rfl
        simpa [hpay, hack, overwrite, firstChar] using hfollows
      · refine answersAgain (hm.trans hpayload) ?_
        simpa [hanswer, firstChar] using hfollows

/-- The machines whose token has no successor. -/
theorem token_eq (id : ℤ) : token id = 127 ↔ id % 256 = 63 := by
  rw [token, ← BitVec.toNat_inj, BitVec.toNat_ofInt]
  have h127 : (127 : Byte).toNat = 127 := rfl
  rw [h127]
  omega

end Match

/-- The receivers of the messages: `ReceiveWait` as `ReceiveMessage` and `SyncWithMachine` call
it, `OpenConnection` and `ListenForEndConnection`. -/
theorem answersWithToken_receivers (toAddr id self : ℤ) (n : ℕ) :
    AnswersWithToken (receiveWait .msg (List.replicate maxMailSize 0) (Message.short toAddr .ack))
      .msg id (List.replicate maxMailSize 0) ∧
    AnswersWithToken (receiveWait .sync [0,0] ⟨toAddr,.ack,[0,0],n + 1⟩) .sync id [0,0] ∧
    AnswersWithToken (openConnection self) .sync (-1) [0,0] ∧
    AnswersWithToken listenForEndConnection .stop id [0,0] :=
  ⟨fun _ => ⟨_,firstSent_receiveWait _ rfl,Nat.succ_pos 1,rfl⟩,
    fun _ => ⟨_,firstSent_receiveWait _ rfl,Nat.succ_pos n,rfl⟩,
    fun _ => ⟨_,firstSent_openConnection self,Nat.succ_pos 1,rfl⟩,
    fun _ => ⟨_,firstSent_listenForEndConnection,Nat.succ_pos 1,rfl⟩⟩

/-- A payload of `SendMessage` is acknowledged as its sender expects just when it has a first
character and that is not the greatest one; a `SYNC` and a `STOP` just when the token of the
machine is not the greatest character. -/
theorem acksMatch (toAddr toAddr' id self : ℤ) (n n' : ℕ) :
    (∀ payload : List Byte, AcksMatch
      (receiveWait .msg (List.replicate maxMailSize 0) (Message.short toAddr' .ack)) .msg id
      ⟨toAddr,.msg,payload,payload.length⟩ ↔ ∃ c rest, payload = c :: rest ∧ c ≠ 127) ∧
    ∀ sender : ℤ,
      (AcksMatch (receiveWait .sync [0,0] ⟨toAddr',.ack,[0,0],n' + 1⟩) .sync id
        ⟨toAddr,.sync,[token sender,0],n + 1⟩ ↔ sender % 256 ≠ 63) ∧
      (AcksMatch (openConnection self) .sync (-1) ⟨toAddr,.sync,[token sender,0],n + 1⟩ ↔
        sender % 256 ≠ 63) ∧
      (AcksMatch listenForEndConnection .stop id ⟨toAddr,.stop,[token sender,0],2⟩ ↔
        sender % 256 ≠ 63) := by
  obtain ⟨hmsg,hsync,hopen,hstop⟩ := answersWithToken_receivers toAddr' id self n'
  have htoken : ∀ sender : ℤ, (∃ c rest, [token sender,(0 : Byte)] = c :: rest ∧ c ≠ 127) ↔
      sender % 256 ≠ 63 := by
    intro sender
    rw [ne_eq, ← token_eq]
    constructor
    · rintro ⟨c,rest,hc,h⟩
      cases hc
      exact h
    · intro h
      exact ⟨_,_,rfl,h⟩
  constructor
  · intro payload
    exact hmsg.acksMatch_iff fun h => List.length_pos_of_ne_nil h
  · intro sender
    refine ⟨?_,?_,?_⟩
    · exact (hsync.acksMatch_iff fun _ => Nat.succ_pos n).trans (htoken sender)
    · exact (hopen.acksMatch_iff fun _ => Nat.succ_pos n).trans (htoken sender)
    · exact (hstop.acksMatch_iff fun _ => Nat.succ_pos 1).trans (htoken sender)

/-- A message that starts with the greatest character. -/
theorem not_acksMatch : ¬ AcksMatch
    (receiveWait .msg (List.replicate maxMailSize 0) (Message.short 1 .ack)) .msg 1
    ⟨0,.msg,[127,65],2⟩ := by
  obtain ⟨hmsg,-⟩ := answersWithToken_receivers 1 1 0 0
  rw [hmsg.acksMatch_iff fun _ => Nat.succ_pos 1]
  rintro ⟨c,rest,hc,h⟩
  cases hc
  exact h rfl

end Nachos
