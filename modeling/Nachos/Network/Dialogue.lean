import Nachos.Library.TokenExchange
import Nachos.Network.Machines
import Nachos.Network.TransferSides
import Mathlib.Data.List.Infix

/-! # Two machines in a transfer

One machine sends and the other receives, step by step an exchange of messages known by their
first bytes. Beside each of them stands what its operations act on outside of the network.
-/
namespace Nachos

/-- The mails of one kind that machine `b` has or will get from machine `a`. -/
def Machines.underWay (w : Machines) (a b : ℤ) (box : PktType) : List TcpMail :=
  (w.office b).boxes box ++ ((w.channel (a,b)).filter (·.1 = box)).map (·.2)

/-- How far a machine has come with the one call that it makes. -/
inductive Stage {σ : Type} (C : Contract TcpOp TcpOp.Resp σ) (Q : CallResult → σ → Prop)
    (tied : Office → σ → Prop) (call : TcpCall) (log : List (TcpCall × CallResult)) (start : σ)
    (o : Office) (s : σ) : Prop
  | before : o.user = none → o.log = log → s = start → Stage C Q tied call log start o s
  | during {q : TcpProg CallResult} : o.user = some (call,q) → o.log = log → q.Sat C Q s →
      tied o s → Stage C Q tied call log start o s
  | after {r : CallResult} : o.user = none → o.log = log ++ [(call,r)] → Q r s → tied o s →
      Stage C Q tied call log start o s

section Stage
variable {σ : Type} {C : Contract TcpOp TcpOp.Resp σ} {Q : CallResult → σ → Prop}
  {tied : Office → σ → Prop} {call : TcpCall} {log : List (TcpCall × CallResult)} {start s : σ}
  {o o' : Office}

theorem Stage.congr (h : Stage C Q tied call log start o s) (huser : o'.user = o.user)
    (hlog : o'.log = o.log) (htied : tied o s → tied o' s) :
    Stage C Q tied call log start o' s := by
  cases h with
  | before hu hl hs => exact .before (huser.trans hu) (hlog.trans hl) hs
  | during hu hl hq ht => exact .during (huser.trans hu) (hlog.trans hl) hq (htied ht)
  | after hu hl hq ht => exact .after (huser.trans hu) (hlog.trans hl) hq (htied ht)

theorem Stage.start_eq (h : Stage C Q tied call log start o s) (hu : o.user = none)
    (hlog : o.log = log) : s = start := by
  cases h with
  | before _ _ hs => exact hs
  | during hu' => cases hu.symm.trans hu'
  | after _ hl => simpa using hlog.symm.trans hl

theorem Stage.returns (h : Stage C Q tied call log start o s) {c : TcpCall} {r : CallResult}
    (hu : o.user = some (c,.ret r)) (hu' : o'.user = none) (hlog : o'.log = o.log ++ [(c,r)])
    (htied : tied o s → tied o' s) : Stage C Q tied call log start o' s := by
  cases h with
  | before hnone => cases hu.symm.trans hnone
  | after hnone => cases hu.symm.trans hnone
  | during hq hl hsat ht =>
    cases hu.symm.trans hq
    exact .after hu' (hl ▸ hlog) hsat (htied ht)

theorem Stage.call_eq (h : Stage C Q tied call log start o s) {c : TcpCall}
    {p : TcpProg CallResult} (hu : o.user = some (c,p)) : c = call := by
  cases h with
  | before hnone => cases hu.symm.trans hnone
  | after hnone => cases hu.symm.trans hnone
  | during hq =>
    cases hu.symm.trans hq
    rfl

theorem Stage.result (h : Stage C Q tied call log start o s) {r : CallResult}
    (hlog : o.log = log ++ [(call,r)]) : Q r s ∧ tied o s := by
  cases h with
  | before _ hl => simpa using hlog.symm.trans hl
  | during _ hl => simpa using hlog.symm.trans hl
  | after _ hl hq ht =>
    obtain rfl : _ = r := by simpa using hl.symm.trans hlog
    exact ⟨hq,ht⟩

end Stage

namespace Machines
variable {w w' : Machines} {a b c : ℤ} {box : PktType} {o : Office} {sent : Option Message}

/-- What a machine sends to another one. -/
def posted (w : Machines) (a b : ℤ) (box : PktType) : Option Message → List TcpMail
  | none => []
  | some m => if m.toAddr = b ∧ m.type = box then [(w.office a).mail m] else []

theorem office_self {channel : ℤ × ℤ → List (PktType × TcpMail)} :
    (⟨Function.update w.office a o,channel⟩ : Machines).office a = o := Function.update_self ..

theorem office_of_ne {channel : ℤ × ℤ → List (PktType × TcpMail)} (hb : b ≠ a) :
    (⟨Function.update w.office a o,channel⟩ : Machines).office b = w.office b :=
  Function.update_of_ne hb ..

theorem underWay_in (hb : b ≠ a) :
    (⟨Function.update w.office a o,w.transmit a sent⟩ : Machines).underWay b a box =
      o.boxes box ++ ((w.channel (b,a)).filter (·.1 = box)).map (·.2) := by
  have hchannel : w.transmit a sent (b,a) = w.channel (b,a) := by
    cases sent with
    | none => rfl
    | some m =>
      refine Function.update_of_ne ?_ _ _
      intro h
      exact hb (Prod.mk.inj h).1
  simp only [underWay, Function.update_self, hchannel]

theorem underWay_out (hb : b ≠ a) :
    (⟨Function.update w.office a o,w.transmit a sent⟩ : Machines).underWay a b box =
      w.underWay a b box ++ w.posted a b box sent := by
  simp only [underWay, Function.update_of_ne hb]
  cases sent with
  | none => rw [posted, List.append_nil]; rfl
  | some m =>
    by_cases hto : m.toAddr = b
    · subst hto
      simp only [transmit, Function.update_self, List.filter_append, List.map_append,
        List.append_assoc, posted]
      by_cases hbox : m.type = box <;> simp [hbox]
    · have hne : (a,b) ≠ (a,m.toAddr) := fun h => hto (Prod.mk.inj h).2.symm
      simp only [transmit, Function.update_of_ne hne, posted]
      simp [hto]

theorem underWay_aside (ha : a ≠ c) (hb : b ≠ c) :
    (⟨Function.update w.office c o,w.transmit c sent⟩ : Machines).underWay a b box =
      w.underWay a b box := by
  have hchannel : w.transmit c sent (a,b) = w.channel (a,b) := by
    cases sent with
    | none => rfl
    | some m =>
      refine Function.update_of_ne ?_ _ _
      intro h
      exact ha (Prod.mk.inj h).1
  simp only [underWay, Function.update_of_ne hb, hchannel]

theorem underWay_lose (c d : ℤ) (k : ℕ) :
    ((⟨w.office,Function.update w.channel (c,d) ((w.channel (c,d)).eraseIdx k)⟩ :
      Machines).underWay a b box).Sublist (w.underWay a b box) := by
  simp only [underWay]
  refine (List.Sublist.refl _).append ?_
  by_cases h : (a,b) = (c,d)
  · rw [h, Function.update_self]
    exact ((List.eraseIdx_sublist _ _).filter _).map _
  · rw [Function.update_of_ne h]

theorem underWay_deliver {d : ℤ} {mail : TcpMail} {type : PktType}
    {rest : List (PktType × TcpMail)} (h : w.channel (c,d) = (type,mail) :: rest)
    (hcd : d = b → c = a) :
    (⟨Function.update w.office d ((w.office d).put type mail),
      Function.update w.channel (c,d) rest⟩ : Machines).underWay a b box = w.underWay a b box := by
  by_cases hd : d = b
  · obtain rfl := hcd hd
    subst hd
    simp only [underWay, Function.update_self, h, Office.put]
    by_cases hbox : type = box
    · subst hbox
      rw [Function.update_self, List.filter_cons_of_pos (by simp)]
      simp
    · rw [Function.update_of_ne (Ne.symm hbox), List.filter_cons_of_neg (by simpa using hbox)]
  · have hne : (a,b) ≠ (c,d) := fun h => hd (Prod.mk.inj h).2.symm
    simp only [underWay, Function.update_of_ne (Ne.symm hd), Function.update_of_ne hne]

end Machines

/-- No third machine sends to the two, and each of them makes one call. -/
def Machines.OneCallEach (a b : ℤ) (left right : TcpCall) (w₀ w : Machines) : MachinesStep → Prop
  | .own c (.call call) =>
    (c = a → call = left ∧ (w.office a).log = (w₀.office a).log) ∧
      (c = b → call = right ∧ (w.office b).log = (w₀.office b).log)
  | .deliver c d => (d = b → c = a) ∧ (d = a → c = b)
  | _ => True

def MachinesStep.Loses : MachinesStep → Prop
  | .lose _ _ _ => True
  | _ => False

instance : (l : MachinesStep) → Decidable l.Loses
  | .lose _ _ _ => .isTrue trivial
  | .own _ _ | .deliver _ _ => .isFalse id

instance (a b : ℤ) (left right : TcpCall) (w₀ w : Machines) :
    (l : MachinesStep) → Decidable (Machines.OneCallEach a b left right w₀ w l)
  | .own _ (.call _) => inferInstanceAs (Decidable ((_ → _ ∧ _) ∧ (_ → _ ∧ _)))
  | .deliver _ _ => inferInstanceAs (Decidable ((_ → _) ∧ (_ → _)))
  | .lose _ _ _ | .own _ .listen | .own _ (.run _ _) | .own _ (.finish _) | .own _ (.wakeUp _)
    | .own _ (.elapse _) | .own _ (.arrive _ _) => inferInstanceAs (Decidable True)

section Responds
variable {ε : Type} {E : Contract TcpOp TcpOp.Resp ε} {w : Machines} {a c : ℤ} {e e' : ε}

/-- The operation of the user thread of a machine in a step, with what is answered. -/
def Machines.acts (w : Machines) (a : ℤ) : MachinesStep → Option (Answers × TcpOp)
  | .own c (.run .user answers) =>
    if c = a then (w.office a).user.bind fun (_,p) => p.nextOp.map fun op => (answers,op) else none
  | _ => none

/-- What a machine acts on outside of the network goes from one state to another in a step. -/
def Machines.Responds (E : Contract TcpOp TcpOp.Resp ε) (w : Machines) (a : ℤ) (l : MachinesStep)
    (e e' : ε) : Prop :=
  match w.acts a l with
  | none => e' = e
  | some (answers,op) => ∀ r o sent, (w.office a).perform .user answers op = some (r,o,sent) →
      E.post op e r e'

theorem Machines.Responds.eq {l : MachinesStep} (h : w.Responds E a l e e')
    (hl : w.acts a l = none) : e' = e := by
  rwa [Responds, hl] at h

theorem Machines.responds_of_eq {l : MachinesStep} (hl : w.acts a l = none) (he : e' = e) :
    w.Responds E a l e e' := by
  rwa [Responds, hl]

theorem Machines.acts_of_ne {l : OfficeStep} (hc : c ≠ a) : w.acts a (.own c l) = none := by
  cases l with
  | run thread answers =>
    cases thread with
    | user => exact if_neg hc
    | listener => rfl
  | call | listen | finish | wakeUp | elapse | arrive => rfl

theorem Machines.Responds.eq_of_ne {l : OfficeStep} (h : w.Responds E a (.own c l) e e')
    (hc : c ≠ a) : e' = e := h.eq (acts_of_ne hc)

theorem Machines.acts_run {p : TcpProg CallResult} {call : TcpCall} {answers : Answers}
    (hu : (w.office a).user = some (call,p)) :
    w.acts a (.own a (.run .user answers)) = p.nextOp.map fun op => (answers,op) := by
  rw [acts, if_pos rfl, hu]
  rfl

theorem Machines.acts_eq {l : MachinesStep} {answers : Answers} {op : TcpOp}
    (h : w.acts a l = some (answers,op)) :
    ∃ call p, l = .own a (.run .user answers) ∧ (w.office a).user = some (call,p) ∧
      p.nextOp = some op := by
  unfold acts at h
  split at h
  case h_1 c answers' =>
    split_ifs at h with hc
    obtain ⟨⟨call,p⟩,hu,h⟩ := Option.bind_eq_some_iff.mp h
    obtain ⟨op',hop,heq⟩ := Option.map_eq_some_iff.mp h
    cases heq
    subst hc
    exact ⟨call,p,rfl,hu,hop⟩
  case h_2 => cases h

theorem Machines.Responds.post {op : TcpOp} {next : op.Resp → TcpProg CallResult} {call : TcpCall}
    {answers : Answers} {r : op.Resp} {o : Office} {sent : Option Message}
    (h : w.Responds E a (.own a (.run .user answers)) e e')
    (hu : (w.office a).user = some (call,.act op next))
    (hop : (w.office a).perform .user answers op = some (r,o,sent)) : E.post op e r e' := by
  rw [Responds, acts_run hu] at h
  exact h r o sent hop

theorem Machines.Responds.silent {p q : TcpProg CallResult} {call : TcpCall} {answers : Answers}
    (h : w.Responds E a (.own a (.run .user answers)) e e')
    (hu : (w.office a).user = some (call,p)) (hq : p.silent = some q) : e' = e := by
  refine h.eq ?_
  rw [acts_run hu]
  cases p with
  | ret => cases hq
  | act => cases hq
  | loop => rfl

theorem Machines.responds_free (w : Machines) {l : MachinesStep} :
    w.Responds (.free TcpOp TcpOp.Resp) a l () () := by
  unfold Responds
  split
  · rfl
  · exact fun _ _ _ _ => trivial

end Responds

/-- Two machines connected to each other, and the calls that they make: one sends pieces behind
their number, and the other receives them. -/
structure Dialogue (ε δ : Type) where
  a : ℤ
  b : ℤ
  type : PktType
  pieces : List (List Byte)
  sender : TcpCall
  receiver : TcpCall
  start : Machines
  /-- What the two act on outside of the network. -/
  left : Contract TcpOp TcpOp.Resp ε
  right : Contract TcpOp TcpOp.Resp δ
  startLeft : ε
  startRight : δ
  sent : CallResult → Sending × ε → Prop
  received : CallResult → List (PktType × TcpMail) × δ → Prop
  ne : a ≠ b
  /-- Whether the network loses nothing. -/
  lossless : Prop
  type_ne_msg : type ≠ .msg
  type_ne_stop : type ≠ .stop
  sat_sender : (sender.prog a).Sat ((Sending.sends (messageOf b type pieces) (pieces.length + 1)
    b).along left) sent (⟨0,false,false,0⟩,startLeft)
  sat_receiver : (receiver.prog b).Sat ((Receiving.receives a type).along right) received
    ([],startRight)

namespace Dialogue
variable {ε δ : Type}

def message (D : Dialogue ε δ) (k : ℕ) : Message := messageOf D.b D.type D.pieces k

def count (D : Dialogue ε δ) : ℕ := D.pieces.length + 1

/-- The calls that have returned before. -/
def senderLog (D : Dialogue ε δ) : List (TcpCall × CallResult) := (D.start.office D.a).log

def receiverLog (D : Dialogue ε δ) : List (TcpCall × CallResult) := (D.start.office D.b).log

def mail (D : Dialogue ε δ) (k : ℕ) : TcpMail :=
  ⟨D.a,(D.message k).payload,D.senderLog.length,k - 1⟩

def token (D : Dialogue ε δ) (k : ℕ) : Byte := firstChar (D.message k).data

def ackPayload (D : Dialogue ε δ) (k : ℕ) : List Byte := [D.token k + 1,0]

/-- The announcement is in one box and the pieces are in another. -/
def box : ℕ → ℕ
  | 0 => 0
  | _ + 1 => 1

theorem box_mono : Monotone box := by
  intro i j h
  cases i <;> cases j <;> simp [box] at h ⊢

/-- A machine that talks to a peer, and where no `STOP` has come. -/
structure Side (o : Office) (id peer : ℤ) : Prop where
  id : o.id = id
  connectedID : o.connectedID = peer
  listener : ∀ p, o.listener = some p → p = listenForEndConnection

def Sends (D : Dialogue ε δ) (o : Office) (s : Exchange) (e : ε) : Prop :=
  ∃ p, Stage ((Sending.sends D.message D.count D.b).along D.left) D.sent
    (fun o g => g.1.pauses = o.pauses) D.sender D.senderLog (⟨0,false,false,0⟩,D.startLeft) o
    (⟨s.answered,s.failed,s.sent,p⟩,e)

def Receives (D : Dialogue ε δ) (o : Office) (s : Exchange) (e : δ) : Prop :=
  Stage ((Receiving.receives D.a D.type).along D.right) D.received (fun o g => o.taken = g.1)
    D.receiver D.receiverLog ([],D.startRight) o
    (s.accepted.map fun k => ((D.message k).type,D.mail k),e)

structure Corresponds (D : Dialogue ε δ) (w : Machines) (s : Exchange) (e : ε) (e' : δ) :
    Prop where
  left : Side (w.office D.a) D.a D.b
  right : Side (w.office D.b) D.b D.a
  sender : D.Sends (w.office D.a) s e
  receiver : D.Receives (w.office D.b) s e'
  data : ∀ k, w.underWay D.a D.b (D.message k).type = (s.data (box k)).map D.mail
  acks : (w.underWay D.b D.a .ack).map (·.payload) = s.answers.map D.ackPayload
  stop_left : w.underWay D.b D.a .stop = []
  stop_right : w.underWay D.a D.b .stop = []

variable {D : Dialogue ε δ} {w w' : Machines} {s s' : Exchange} {e e₁ : ε} {e' e₁' : δ}
  {o : Office} {sent : Option Message}

theorem type_eq (k : ℕ) : (D.message k).type = if k = 0 then D.type else .msg := by
  cases k <;> rfl

theorem type_ne (k : ℕ) : (D.message k).type ≠ .stop := by
  cases k with
  | zero => exact D.type_ne_stop
  | succ k => exact PktType.noConfusion

theorem box_eq_iff {i k : ℕ} : (D.message i).type = (D.message k).type ↔ box i = box k := by
  have := D.type_ne_msg
  cases i <;> cases k <;> simp [message, messageOf, box, this, this.symm]

theorem firstChar_payload (k : ℕ) : firstChar (D.message k).payload = D.token k := by
  cases k with
  | zero =>
    rw [token, message, messageOf, Message.payload]
    cases Decimal.toString D.pieces.length <;> rfl
  | succ k =>
    rw [token, message, messageOf, Message.payload, List.take_length]

theorem payload_ackTo (k : ℕ) : (Receiving.ackTo D.a (D.mail k)).payload = D.ackPayload k := by
  rw [Receiving.ackTo, mail, firstChar_payload]
  rfl

theorem token_of_follows {c d : Byte} (h : Follows c (d + 1)) : d = c := by
  have hsucc : d + 1 = c + 1 := by
    rw [← BitVec.ofInt_toInt (x := d + 1), ← h, BitVec.ofInt_add, BitVec.ofInt_toInt]
    rfl
  simpa using hsucc

theorem Corresponds.sender_step (h : Corresponds D w s e e') (hside : Side o D.a D.b)
    (hstage : D.Sends o s' e₁)
    (haccepted : s'.accepted = s.accepted)
    (hdata : ∀ k, w.underWay D.a D.b (D.message k).type ++
      w.posted D.a D.b (D.message k).type sent = (s'.data (box k)).map D.mail)
    (hacks : (o.boxes .ack ++ ((w.channel (D.b,D.a)).filter (·.1 = .ack)).map (·.2)).map
      (·.payload) = s'.answers.map D.ackPayload)
    (hstop : o.boxes .stop = (w.office D.a).boxes .stop)
    (hposted : w.posted D.a D.b .stop sent = []) :
    Corresponds D ⟨Function.update w.office D.a o,w.transmit D.a sent⟩ s' e₁ e' where
  left := by
    rw [Machines.office_self]
    exact hside
  right := by
    rw [Machines.office_of_ne D.ne.symm]
    exact h.right
  sender := by
    rw [Machines.office_self]
    exact hstage
  receiver := by
    rw [Machines.office_of_ne D.ne.symm, Receives, haccepted]
    exact h.receiver
  data k := by
    rw [Machines.underWay_out D.ne.symm, hdata]
  acks := by
    rw [Machines.underWay_in D.ne.symm, hacks]
  stop_left := by
    rw [Machines.underWay_in D.ne.symm, hstop]
    exact h.stop_left
  stop_right := by
    rw [Machines.underWay_out D.ne.symm, h.stop_right, hposted]
    rfl

theorem Corresponds.receiver_step (h : Corresponds D w s e e') (hside : Side o D.b D.a)
    (hstage : D.Receives o s' e₁')
    (hanswered : s'.answered = s.answered) (hfailed : s'.failed = s.failed)
    (hsent : s'.sent = s.sent)
    (hdata : ∀ k, o.boxes (D.message k).type ++
      ((w.channel (D.a,D.b)).filter (·.1 = (D.message k).type)).map (·.2) =
        (s'.data (box k)).map D.mail)
    (hacks : (w.underWay D.b D.a .ack ++ w.posted D.b D.a .ack sent).map (·.payload) =
      s'.answers.map D.ackPayload)
    (hstop : o.boxes .stop = (w.office D.b).boxes .stop)
    (hposted : w.posted D.b D.a .stop sent = []) :
    Corresponds D ⟨Function.update w.office D.b o,w.transmit D.b sent⟩ s' e e₁' where
  left := by
    rw [Machines.office_of_ne D.ne]
    exact h.left
  right := by
    rw [Machines.office_self]
    exact hside
  sender := by
    rw [Machines.office_of_ne D.ne, Sends, hanswered, hfailed, hsent]
    exact h.sender
  receiver := by
    rw [Machines.office_self]
    exact hstage
  data k := by
    rw [Machines.underWay_in D.ne, hdata]
  acks := by
    rw [Machines.underWay_out D.ne, hacks]
  stop_left := by
    rw [Machines.underWay_out D.ne, h.stop_left, hposted]
    rfl
  stop_right := by
    rw [Machines.underWay_in D.ne, hstop]
    exact h.stop_right

theorem Corresponds.sender_aside (h : Corresponds D w s e e') (hside : Side o D.a D.b)
    (hstage : D.Sends o s e₁)
    (hboxes : o.boxes = (w.office D.a).boxes) :
    Corresponds D ⟨Function.update w.office D.a o,w.transmit D.a none⟩ s e₁ e' := by
  refine h.sender_step hside hstage rfl (fun k => ?_) ?_ ?_ rfl
  · rw [Machines.posted, List.append_nil]
    exact h.data k
  · have := h.acks
    rwa [Machines.underWay, ← hboxes] at this
  · rw [← hboxes]

theorem Corresponds.sender_goesOn (h : Corresponds D w s e e') {q : TcpProg CallResult}
    (hsame : (w.office D.a).SameThreads o) (hlog : (w.office D.a).log = D.senderLog)
    (hboxes : o.boxes = (w.office D.a).boxes)
    (hid : o.connectedID = (w.office D.a).connectedID)
    (hsat : q.Sat ((Sending.sends D.message D.count D.b).along D.left) D.sent
      (⟨s.answered,s.failed,s.sent,o.pauses⟩,e₁)) :
    Corresponds D ⟨Function.update w.office D.a { o with user := some (D.sender,q) },
      w.transmit D.a none⟩ s e₁ e' := by
  refine h.sender_aside ⟨hsame.id.trans h.left.id,hid.trans h.left.connectedID,?_⟩
    ⟨o.pauses,.during rfl (hsame.log.trans hlog) hsat rfl⟩ hboxes
  exact fun p hp => h.left.listener p (hsame.listener ▸ hp)

theorem posted_type (m : Message) (box : PktType) (h : m.type ≠ box) :
    w.posted D.a D.b box (some m) = [] := if_neg fun hm => h hm.2

theorem Corresponds.sender_take (h : Corresponds D w s e e') {q : TcpProg CallResult}
    {into : Destination} {m : TcpMail} {rest : List TcpMail} {l : List ℕ} {i : ℕ} {f b : Bool}
    (hlog : (w.office D.a).log = D.senderLog)
    (hrest : (rest ++ ((w.channel (D.b,D.a)).filter (·.1 = .ack)).map (·.2)).map (·.payload) =
      l.map D.ackPayload)
    (hsat : q.Sat ((Sending.sends D.message D.count D.b).along D.left) D.sent
      (⟨i,f,b,(w.office D.a).pauses⟩,e₁)) :
    Corresponds D ⟨Function.update w.office D.a { (w.office D.a).take .user .ack into m rest with
      user := some (D.sender,q) },w.transmit D.a none⟩
      { s with answers := l, answered := i, failed := f, sent := b } e₁ e' := by
  refine h.sender_step ⟨h.left.id,h.left.connectedID,h.left.listener⟩
    ⟨(w.office D.a).pauses,.during rfl hlog hsat rfl⟩ rfl (fun k => ?_) ?_ ?_ rfl
  · rw [Machines.posted, List.append_nil]
    exact h.data k
  · change (Function.update (w.office D.a).boxes .ack rest .ack ++ _).map _ = _
    rw [Function.update_self]
    exact hrest
  · change Function.update (w.office D.a).boxes .ack rest .stop = _
    rw [Function.update_of_ne (by decide)]

theorem Corresponds.sender_runs (h : Corresponds D w s e e') {answers : Answers}
    {p q : TcpProg CallResult} (huser : (w.office D.a).user = some (D.sender,p))
    (hresponds : w.Responds D.left D.a (.own D.a (.run .user answers)) e e₁)
    (hadv : (w.office D.a).advance .user answers p = some (q,o,sent)) :
    ∃ s', Relation.ReflTransGen (Exchange.Step D.token box D.count D.lossless) s s' ∧
      Corresponds D ⟨Function.update w.office D.a { o with user := some (D.sender,q) },
        w.transmit D.a sent⟩ s' e₁ e' := by
  obtain ⟨pauses,hstage⟩ := h.sender
  have hsame := Office.advance_sameThreads hadv
  cases hstage with
  | before hnone => cases huser.symm.trans hnone
  | after hnone => cases huser.symm.trans hnone
  | during huser' hlog hsat htied =>
    cases huser.symm.trans huser'
    obtain rfl : pauses = (w.office D.a).pauses := htied
    rcases Office.advance_cases hadv with ⟨op,next,r,rfl,rfl,hop⟩ | ⟨hq,rfl,rfl⟩
    · have hr := hresponds.post huser hop
      cases op with
      | setConnectedID | stopSemV | receive => exact hsat.1.1.elim
      | crash => cases hop
      | send m =>
        have hpre : s.failed = false ∧ s.answered < D.count ∧ m = D.message s.answered ∧
          (w.office D.a).pauses = s.answered - 1 := hsat.1.1
        obtain ⟨hfailed,hlt,rfl,hpauses⟩ := hpre
        cases hop
        refine ⟨_,.single (.send hfailed hlt),?_⟩
        have hmail : (w.office D.a).mail (D.message s.answered) = D.mail s.answered := by
          rw [Office.mail, h.left.id, hlog, hpauses]
          rfl
        have hto : (D.message s.answered).toAddr = D.b := by
          generalize s.answered = i
          cases i <;> rfl
        refine h.sender_step ⟨h.left.id,h.left.connectedID,h.left.listener⟩
          ⟨_,.during rfl hlog (hsat.next (t := (_,e₁)) ⟨rfl,hr⟩) rfl⟩ rfl (fun k => ?_) h.acks rfl
          (posted_type _ _ (type_ne _))
        rw [h.data k]
        dsimp only
        by_cases hk : box s.answered = box k
        · rw [← hk, Function.update_self, List.map_append, Machines.posted,
            if_pos ⟨hto,box_eq_iff.mpr hk⟩, hmail]
          rfl
        · rw [Function.update_of_ne (Ne.symm hk), Machines.posted,
            if_neg fun hm => hk (box_eq_iff.mp hm.2), List.append_nil]
      | noBlockReceive b into =>
        have hb : b = .ack := by
          cases into with
          | message => exact hsat.1.1.1
          | dull => exact hsat.1.1
        subst hb
        simp only [Office.perform] at hop
        split at hop
        case h_1 =>
          cases hop
          refine ⟨s,.refl,h.sender_goesOn hsame hlog rfl rfl
            (hsat.next (t := (_,e₁)) ⟨?_,hr⟩)⟩
          cases into <;> rfl
        case h_2 m rest hbox =>
          cases hop
          have hacks := h.acks
          rw [Machines.underWay, hbox, List.cons_append, List.map_cons] at hacks
          obtain ⟨k,l,hanswers,hk,hl⟩ := List.map_eq_cons_iff.mp hacks.symm
          cases into with
          | dull =>
            refine ⟨_,.single (.loseAnswer (l := l) ?_),
              h.sender_take hlog hl.symm (hsat.next (t := (_,e₁)) ⟨rfl,hr⟩)⟩
            rw [hanswers]
            exact List.sublist_cons_self k l
          | message =>
            obtain ⟨-,hfailed,hsent,hlt⟩ := hsat.1.1
            have hnext : (next (some m)).Sat ((Sending.sends D.message D.count D.b).along D.left)
                D.sent ((⟨s.answered,s.failed,s.sent,(w.office D.a).pauses⟩ : Sending).take
                  (D.message s.answered) m,e₁) := hsat.next ⟨rfl,hr⟩
            by_cases hfollows :
                Follows (firstChar (D.message s.answered).data) (firstChar m.payload)
            · have htoken : D.token k = D.token s.answered := by
                rw [← hk] at hfollows
                exact token_of_follows (d := D.token k) hfollows
              refine ⟨_,.single (.confirm hanswers hfailed hsent hlt htoken),?_⟩
              rw [Sending.take, if_pos hfollows] at hnext
              exact h.sender_take hlog hl.symm hnext
            · refine ⟨_,.single (.refuse hanswers),?_⟩
              rw [Sending.take, if_neg hfollows] at hnext
              exact h.sender_take hlog hl.symm hnext
      | connectedID =>
        cases hop
        exact ⟨s,.refl,h.sender_goesOn hsame hlog rfl rfl
          (hsat.next (t := (_,e₁)) ⟨⟨h.left.connectedID,rfl⟩,hr⟩)⟩
      | schedule ticks =>
        cases hop
        refine ⟨s,.refl,h.sender_goesOn hsame hlog rfl rfl
          (hsat.next (t := (_,e₁)) ⟨?_,hr⟩)⟩
        by_cases hticks : ticks = pauseTicks
        · simp [Sending.sends, hticks]
        · simp [Sending.sends, hticks]
      | stopSemP | waitSemP =>
        simp only [Office.perform] at hop
        split at hop <;> cases hop
        exact ⟨s,.refl,h.sender_goesOn hsame hlog rfl rfl (hsat.next (t := (_,e₁)) ⟨rfl,hr⟩)⟩
      | stoppingConnection | setStoppingConnection
        | fileOpen | fileLength | fileRead | fileCreate | fileWrite | memory | behind =>
        cases hop
        exact ⟨s,.refl,h.sender_goesOn hsame hlog rfl rfl (hsat.next (t := (_,e₁)) ⟨rfl,hr⟩)⟩
    · obtain rfl := hresponds.silent huser hq
      exact ⟨s,.refl,h.sender_goesOn hsame hlog rfl rfl (hsat.silent hq)⟩

theorem Corresponds.receiver_aside (h : Corresponds D w s e e') (hside : Side o D.b D.a)
    (hstage : D.Receives o s e₁')
    (hboxes : o.boxes = (w.office D.b).boxes) :
    Corresponds D ⟨Function.update w.office D.b o,w.transmit D.b none⟩ s e e₁' := by
  refine h.receiver_step hside hstage rfl rfl rfl (fun k => ?_) ?_ ?_ rfl
  · have := h.data k
    rwa [Machines.underWay, ← hboxes] at this
  · rw [Machines.posted, List.append_nil]
    exact h.acks
  · rw [← hboxes]

theorem Corresponds.receiver_goesOn (h : Corresponds D w s e e') {q : TcpProg CallResult}
    (hsame : (w.office D.b).SameThreads o) (hlog : (w.office D.b).log = D.receiverLog)
    (hboxes : o.boxes = (w.office D.b).boxes)
    (hid : o.connectedID = (w.office D.b).connectedID)
    (htaken : o.taken = s.accepted.map fun k => ((D.message k).type,D.mail k))
    (hsat : q.Sat ((Receiving.receives D.a D.type).along D.right) D.received
      (s.accepted.map fun k => ((D.message k).type,D.mail k),e₁')) :
    Corresponds D ⟨Function.update w.office D.b { o with user := some (D.receiver,q) },
      w.transmit D.b none⟩ s e e₁' := by
  refine h.receiver_aside ⟨hsame.id.trans h.right.id,hid.trans h.right.connectedID,?_⟩
    (.during rfl (hsame.log.trans hlog) hsat htaken) hboxes
  exact fun p hp => h.right.listener p (hsame.listener ▸ hp)

theorem Corresponds.receiver_take (h : Corresponds D w s e e') {q : TcpProg CallResult}
    {into : Destination} {m : TcpMail} {rest : List TcpMail} {l accepted : List ℕ} {n : ℕ}
    (hlog : (w.office D.b).log = D.receiverLog)
    (hrest : rest ++ ((w.channel (D.a,D.b)).filter (·.1 = (D.message n).type)).map (·.2) =
      l.map D.mail)
    (htaken : ((w.office D.b).take .user (D.message n).type into m rest).taken =
      accepted.map fun k => ((D.message k).type,D.mail k))
    (hsat : q.Sat ((Receiving.receives D.a D.type).along D.right) D.received
      (accepted.map fun k => ((D.message k).type,D.mail k),e₁')) :
    Corresponds D ⟨Function.update w.office D.b
      { (w.office D.b).take .user (D.message n).type into m rest with
        user := some (D.receiver,q) },w.transmit D.b none⟩
      { s with data := Function.update s.data (box n) l, accepted := accepted } e e₁' := by
  refine h.receiver_step ⟨h.right.id,h.right.connectedID,h.right.listener⟩
    (.during rfl hlog hsat htaken) rfl rfl rfl (fun k => ?_) ?_ ?_ rfl
  · change Function.update (w.office D.b).boxes (D.message n).type rest (D.message k).type ++ _ =
      (Function.update s.data (box n) l (box k)).map D.mail
    by_cases hk : (D.message k).type = (D.message n).type
    · rw [box_eq_iff.mp hk, hk, Function.update_self, Function.update_self]
      exact hrest
    · rw [Function.update_of_ne hk, Function.update_of_ne fun hb => hk (box_eq_iff.mpr hb)]
      exact h.data k
  · rw [Machines.posted, List.append_nil]
    exact h.acks
  · change Function.update (w.office D.b).boxes (D.message n).type rest .stop = _
    rw [Function.update_of_ne (type_ne n).symm]

theorem Corresponds.receiver_runs (h : Corresponds D w s e e')
    (hin : s.InOrder D.token box D.count D.lossless) {answers : Answers} {p q : TcpProg CallResult}
    (huser : (w.office D.b).user = some (D.receiver,p))
    (hresponds : w.Responds D.right D.b (.own D.b (.run .user answers)) e' e₁')
    (hadv : (w.office D.b).advance .user answers p = some (q,o,sent)) :
    ∃ s', Relation.ReflTransGen (Exchange.Step D.token box D.count D.lossless) s s' ∧
      Corresponds D ⟨Function.update w.office D.b { o with user := some (D.receiver,q) },
        w.transmit D.b sent⟩ s' e e₁' := by
  have hsame := Office.advance_sameThreads hadv
  cases h.receiver with
  | before hnone => cases huser.symm.trans hnone
  | after hnone => cases huser.symm.trans hnone
  | during huser' hlog hsat htied =>
    cases huser.symm.trans huser'
    have htied : (w.office D.b).taken =
      s.accepted.map fun k => ((D.message k).type,D.mail k) := htied
    rcases Office.advance_cases hadv with ⟨op,next,r,rfl,rfl,hop⟩ | ⟨hq,rfl,rfl⟩
    · have hr := hresponds.post huser hop
      cases op with
      | setConnectedID | stopSemV | receive => exact hsat.1.1.elim
      | crash => cases hop
      | send m =>
        obtain ⟨x,hx,rfl⟩ := hsat.1.1
        cases hop
        rw [List.getLast?_map] at hx
        obtain ⟨k,hk,rfl⟩ := Option.map_eq_some_iff.mp hx
        refine ⟨_,.single (.answer hk),?_⟩
        refine h.receiver_step ⟨h.right.id,h.right.connectedID,h.right.listener⟩
          (.during rfl hlog (hsat.next (t := (_,e₁')) ⟨rfl,hr⟩) htied) rfl rfl rfl h.data ?_ rfl
          (if_neg fun hm => by cases hm.2)
        rw [List.map_append, h.acks, Machines.posted, if_pos ⟨rfl,rfl⟩, List.map_append]
        congr 1
        exact congrArg (· :: []) (payload_ackTo k)
      | noBlockReceive b into =>
        obtain ⟨n,hn,hb⟩ : ∃ n, (into = .message → n = s.accepted.length) ∧
            b = (D.message n).type := by
          cases into with
          | message =>
            refine ⟨s.accepted.length,fun _ => rfl,?_⟩
            have hpre : b = if s.accepted.map _ = [] then D.type else .msg := hsat.1.1
            rw [hpre, type_eq]
            simp only [List.map_eq_nil_iff, List.length_eq_zero_iff]
          | dull =>
            obtain ⟨x,hx,rfl⟩ := hsat.1.1
            obtain ⟨j,-,rfl⟩ := List.mem_map.mp hx
            exact ⟨j,nofun,rfl⟩
        subst hb
        simp only [Office.perform] at hop
        split at hop
        case h_1 =>
          cases hop
          refine ⟨s,.refl,h.receiver_goesOn hsame hlog rfl rfl htied
            (hsat.next (t := (_,e₁')) ⟨?_,hr⟩)⟩
          cases into <;> rfl
        case h_2 m rest hbox =>
          cases hop
          have hdata := h.data n
          rw [Machines.underWay, hbox, List.cons_append] at hdata
          obtain ⟨k,l,hstream,hk,hl⟩ := List.map_eq_cons_iff.mp hdata.symm
          cases into with
          | dull =>
            obtain ⟨x,hx,hxn⟩ := hsat.1.1
            obtain ⟨j,hj,rfl⟩ := List.mem_map.mp hx
            refine ⟨_,.single (.lose (b := box n) (l := l) (fun _ => ⟨j,hj,box_eq_iff.mp hxn⟩) ?_),
              h.receiver_take hlog hl.symm htied (hsat.next (t := (_,e₁')) ⟨rfl,hr⟩)⟩
            rw [hstream]
            exact List.sublist_cons_self k l
          | message =>
            obtain rfl := hn rfl
            have htype : (D.message k).type = (D.message s.accepted.length).type :=
              box_eq_iff.mpr (hin.data_box _ k (by rw [hstream]; exact List.mem_cons_self)).1
            have haccepted : (s.accepted ++ [k]).map (fun k => ((D.message k).type,D.mail k)) =
                s.accepted.map (fun k => ((D.message k).type,D.mail k)) ++
                  [((D.message s.accepted.length).type,m)] := by
              rw [List.map_append, ← htype, ← hk]
              rfl
            refine ⟨_,.single (.accept hstream),h.receiver_take hlog hl.symm ?_ ?_⟩
            · rw [haccepted, ← htied]
              rfl
            · rw [haccepted]
              exact hsat.next (t := (_,e₁')) ⟨rfl,hr⟩
      | connectedID =>
        cases hop
        exact ⟨s,.refl,h.receiver_goesOn hsame hlog rfl rfl htied
          (hsat.next (t := (_,e₁')) ⟨⟨h.right.connectedID,rfl⟩,hr⟩)⟩
      | stopSemP | waitSemP =>
        simp only [Office.perform] at hop
        split at hop <;> cases hop
        exact ⟨s,.refl,h.receiver_goesOn hsame hlog rfl rfl htied
          (hsat.next (t := (_,e₁')) ⟨rfl,hr⟩)⟩
      | schedule | stoppingConnection | setStoppingConnection
        | fileOpen | fileLength | fileRead | fileCreate | fileWrite | memory | behind =>
        cases hop
        exact ⟨s,.refl,h.receiver_goesOn hsame hlog rfl rfl htied
          (hsat.next (t := (_,e₁')) ⟨rfl,hr⟩)⟩
    · obtain rfl := hresponds.silent huser hq
      exact ⟨s,.refl,h.receiver_goesOn hsame hlog rfl rfl htied (hsat.silent hq)⟩

/-- A machine on which no `STOP` has come does not get on with its listener. -/
theorem Side.blocked {id peer : ℤ} (h : Side o id peer) (hstop : o.boxes .stop = [])
    {answers : Answers} {p q : TcpProg Unit} {o' : Office} (hl : o.listener = some p) :
    o.advance .listener answers p ≠ some (q,o',sent) := by
  rw [h.listener p hl]
  intro hadv
  have hnone : o.perform .listener answers (.receive .stop) = none := by
    simp only [Office.perform, hstop]
  cases hadv.symm.trans (congrArg (Option.map _) hnone)

theorem underWay_nil {a b : ℤ} {box : PktType} (h : w.underWay a b box = []) :
    (w.office b).boxes box = [] := (List.append_eq_nil_iff.mp h).1

theorem Corresponds.sender_own (h : Corresponds D w s e e') {l : OfficeStep}
    (hcall : ∀ c, l = .call c → c = D.sender ∧ (w.office D.a).log = D.senderLog)
    (harrive : ∀ box mail, l ≠ .arrive box mail)
    (hresponds : w.Responds D.left D.a (.own D.a l) e e₁)
    (hstep : (w.office D.a).step l = some (o,sent)) :
    ∃ s', Relation.ReflTransGen (Exchange.Step D.token box D.count D.lossless) s s' ∧
      Corresponds D ⟨Function.update w.office D.a o,w.transmit D.a sent⟩ s' e₁ e' := by
  obtain ⟨p,hstage⟩ := h.sender
  have hside : Side (w.office D.a) D.a D.b := h.left
  cases Office.step_cases hstep with
  | call c huser =>
    obtain rfl := hresponds.eq rfl
    obtain ⟨rfl,hlog⟩ := hcall c rfl
    have hstart := hstage.start_eq huser hlog
    have hsat : (D.sender.prog (w.office D.a).id).Sat
        ((Sending.sends D.message D.count D.b).along D.left) D.sent
        (⟨s.answered,s.failed,s.sent,p⟩,e₁) := by
      rw [hside.id, hstart]
      exact D.sat_sender
    refine ⟨s,.refl,h.sender_aside ⟨hside.id,hside.connectedID,hside.listener⟩
      ⟨p,.during rfl hlog hsat ?_⟩ rfl⟩
    exact congrArg (fun g => g.1.pauses) hstart
  | listen hl =>
    obtain rfl := hresponds.eq rfl
    refine ⟨s,.refl,h.sender_aside ⟨hside.id,hside.connectedID,?_⟩
      ⟨p,hstage.congr rfl rfl fun ht => ht⟩ rfl⟩
    rintro _ ⟨⟩
    rfl
  | user huser hadv =>
    obtain rfl := hstage.call_eq huser
    exact h.sender_runs huser hresponds hadv
  | listener hl hadv => exact absurd hadv (hside.blocked (underWay_nil h.stop_left) hl)
  | userReturns huser =>
    obtain rfl := hresponds.eq rfl
    exact ⟨s,.refl,h.sender_aside ⟨hside.id,hside.connectedID,hside.listener⟩
      ⟨p,hstage.returns huser rfl rfl fun ht => ht⟩ rfl⟩
  | listenerReturns hl => cases hside.listener _ hl
  | wakeUp | elapse =>
    obtain rfl := hresponds.eq rfl
    exact ⟨s,.refl,h.sender_aside ⟨hside.id,hside.connectedID,hside.listener⟩
      ⟨p,hstage.congr rfl rfl fun ht => ht⟩ rfl⟩
  | arrive box mail => exact absurd rfl (harrive box mail)

theorem Corresponds.receiver_own (h : Corresponds D w s e e')
    (hin : s.InOrder D.token box D.count D.lossless) {l : OfficeStep}
    (hcall : ∀ c, l = .call c → c = D.receiver ∧ (w.office D.b).log = D.receiverLog)
    (harrive : ∀ box mail, l ≠ .arrive box mail)
    (hresponds : w.Responds D.right D.b (.own D.b l) e' e₁')
    (hstep : (w.office D.b).step l = some (o,sent)) :
    ∃ s', Relation.ReflTransGen (Exchange.Step D.token box D.count D.lossless) s s' ∧
      Corresponds D ⟨Function.update w.office D.b o,w.transmit D.b sent⟩ s' e e₁' := by
  have hstage := h.receiver
  have hside : Side (w.office D.b) D.b D.a := h.right
  cases Office.step_cases hstep with
  | call c huser =>
    obtain rfl := hresponds.eq rfl
    obtain ⟨rfl,hlog⟩ := hcall c rfl
    have hstart := hstage.start_eq huser hlog
    have hsat : (D.receiver.prog (w.office D.b).id).Sat
        ((Receiving.receives D.a D.type).along D.right) D.received
        (s.accepted.map fun k => ((D.message k).type,D.mail k),e₁') := by
      rw [hside.id, hstart]
      exact D.sat_receiver
    exact ⟨s,.refl,h.receiver_aside ⟨hside.id,hside.connectedID,hside.listener⟩
      (.during rfl hlog hsat (congrArg Prod.fst hstart).symm) rfl⟩
  | listen hl =>
    obtain rfl := hresponds.eq rfl
    refine ⟨s,.refl,h.receiver_aside ⟨hside.id,hside.connectedID,?_⟩
      (hstage.congr rfl rfl fun ht => ht) rfl⟩
    rintro _ ⟨⟩
    rfl
  | user huser hadv =>
    obtain rfl := hstage.call_eq huser
    exact h.receiver_runs hin huser hresponds hadv
  | listener hl hadv => exact absurd hadv (hside.blocked (underWay_nil h.stop_right) hl)
  | userReturns huser =>
    obtain rfl := hresponds.eq rfl
    exact ⟨s,.refl,h.receiver_aside ⟨hside.id,hside.connectedID,hside.listener⟩
      (hstage.returns huser rfl rfl fun ht => ht) rfl⟩
  | listenerReturns hl => cases hside.listener _ hl
  | wakeUp | elapse =>
    obtain rfl := hresponds.eq rfl
    exact ⟨s,.refl,h.receiver_aside ⟨hside.id,hside.connectedID,hside.listener⟩
      (hstage.congr rfl rfl fun ht => ht) rfl⟩
  | arrive box mail => exact absurd rfl (harrive box mail)

theorem Corresponds.congr (h : Corresponds D w s e e')
    (hoffice : ∀ x, x = D.a ∨ x = D.b → w'.office x = w.office x ∨
      ∃ box mail, w'.office x = (w.office x).put box mail)
    (hdata : ∀ k, w'.underWay D.a D.b (D.message k).type = (s'.data (box k)).map D.mail)
    (hacks : (w'.underWay D.b D.a .ack).map (·.payload) = s'.answers.map D.ackPayload)
    (hab : (w'.underWay D.a D.b .stop).Sublist (w.underWay D.a D.b .stop))
    (hba : (w'.underWay D.b D.a .stop).Sublist (w.underWay D.b D.a .stop))
    (hanswered : s'.answered = s.answered) (hfailed : s'.failed = s.failed)
    (hsent : s'.sent = s.sent) (haccepted : s'.accepted = s.accepted) :
    Corresponds D w' s' e e' where
  left := by
    rcases hoffice D.a (.inl rfl) with ha | ⟨_,_,ha⟩
    · rw [ha]
      exact h.left
    · rw [ha]
      exact ⟨h.left.id,h.left.connectedID,h.left.listener⟩
  right := by
    rcases hoffice D.b (.inr rfl) with hb | ⟨_,_,hb⟩
    · rw [hb]
      exact h.right
    · rw [hb]
      exact ⟨h.right.id,h.right.connectedID,h.right.listener⟩
  sender := by
    obtain ⟨p,hstage⟩ := h.sender
    rw [Sends, hanswered, hfailed, hsent]
    rcases hoffice D.a (.inl rfl) with ha | ⟨_,_,ha⟩
    · rw [ha]
      exact ⟨p,hstage⟩
    · rw [ha]
      exact ⟨p,hstage.congr rfl rfl fun ht => ht⟩
  receiver := by
    rw [Receives, haccepted]
    rcases hoffice D.b (.inr rfl) with hb | ⟨_,_,hb⟩
    · rw [hb]
      exact h.receiver
    · rw [hb]
      exact h.receiver.congr rfl rfl fun ht => ht
  data := hdata
  acks := hacks
  stop_left := List.sublist_nil.mp (h.stop_left ▸ hba)
  stop_right := List.sublist_nil.mp (h.stop_right ▸ hab)

theorem Corresponds.lose (h : Corresponds D w s e e') (hlossy : ¬ D.lossless) (c d : ℤ) (k : ℕ) :
    ∃ s', Relation.ReflTransGen (Exchange.Step D.token box D.count D.lossless) s s' ∧
      Corresponds D ⟨w.office,Function.update w.channel (c,d) ((w.channel (c,d)).eraseIdx k)⟩ s'
        e e' := by
  have hlost : ∀ k', ∃ l : List ℕ, l.Sublist (s.data (box k')) ∧
      (⟨w.office,Function.update w.channel (c,d) ((w.channel (c,d)).eraseIdx k)⟩ :
        Machines).underWay D.a D.b (D.message k').type = l.map D.mail := by
    intro k'
    have hsub : List.Sublist _ (w.underWay D.a D.b (D.message k').type) :=
      Machines.underWay_lose c d k
    rw [h.data k'] at hsub
    exact List.sublist_map_iff.mp hsub
  obtain ⟨l₀,hl₀,h₀⟩ := hlost 0
  obtain ⟨l₁,hl₁,h₁⟩ := hlost 1
  have hsub : List.Sublist _ (w.underWay D.b D.a .ack) := Machines.underWay_lose c d k
  have hacks := hsub.map (·.payload)
  rw [h.acks] at hacks
  obtain ⟨l,hl,hanswers⟩ := List.sublist_map_iff.mp hacks
  have hsteps : Relation.ReflTransGen (Exchange.Step D.token box D.count D.lossless) s { s with
      data := Function.update (Function.update s.data 0 l₀) 1 l₁, answers := l } := by
    refine .tail (.tail (.single (.lose (fun h => absurd h hlossy) hl₀))
      (.lose (b := 1) (l := l₁) (fun h => absurd h hlossy) ?_)) (.loseAnswer hl)
    exact hl₁
  refine ⟨_,hsteps,h.congr (fun x _ => .inl rfl) (fun k' => ?_) hanswers
    (Machines.underWay_lose c d k) (Machines.underWay_lose c d k) rfl rfl rfl rfl⟩
  cases k' with
  | zero => exact h₀
  | succ k' => exact h₁

theorem Corresponds.step (h : Corresponds D w s e e')
    (hin : s.InOrder D.token box D.count D.lossless) {l : MachinesStep}
    (hok : Machines.OneCallEach D.a D.b D.sender D.receiver D.start w l)
    (hlossless : D.lossless → ¬ l.Loses)
    (hleft : w.Responds D.left D.a l e e₁) (hright : w.Responds D.right D.b l e' e₁')
    (hstep : w.step l = some w') :
    ∃ s', Relation.ReflTransGen (Exchange.Step D.token box D.count D.lossless) s s' ∧
      Corresponds D w' s' e₁ e₁' := by
  cases l with
  | own c l =>
    obtain ⟨harrive,o,sent,hown,rfl⟩ := Machines.own_eq hstep
    by_cases ha : c = D.a
    · subst ha
      obtain rfl := hright.eq_of_ne D.ne
      refine h.sender_own (fun call hl => ?_) harrive hleft hown
      subst hl
      exact hok.1 rfl
    by_cases hb : c = D.b
    · subst hb
      obtain rfl := hleft.eq_of_ne D.ne.symm
      refine h.receiver_own hin (fun call hl => ?_) harrive hright hown
      subst hl
      exact hok.2 rfl
    obtain rfl := hleft.eq_of_ne ha
    obtain rfl := hright.eq_of_ne hb
    have hab : ∀ box, (⟨Function.update w.office c o,w.transmit c sent⟩ : Machines).underWay
        D.a D.b box = w.underWay D.a D.b box :=
      fun box => Machines.underWay_aside (Ne.symm ha) (Ne.symm hb)
    have hba : ∀ box, (⟨Function.update w.office c o,w.transmit c sent⟩ : Machines).underWay
        D.b D.a box = w.underWay D.b D.a box :=
      fun box => Machines.underWay_aside (Ne.symm hb) (Ne.symm ha)
    refine ⟨s,.refl,h.congr (fun x hx => .inl (Machines.office_of_ne ?_))
      (fun k => (hab _).trans (h.data k)) ((congrArg (List.map _) (hba _)).trans h.acks)
      (hab _ ▸ .refl _) (hba _ ▸ .refl _) rfl rfl rfl rfl⟩
    rcases hx with rfl | rfl
    · exact Ne.symm ha
    · exact Ne.symm hb
  | lose c d k =>
    cases hstep
    obtain rfl := hleft.eq rfl
    obtain rfl := hright.eq rfl
    exact h.lose (fun hl => hlossless hl trivial) c d k
  | deliver c d =>
    obtain ⟨type,mail,rest,hchannel,rfl⟩ := Machines.deliver_eq hstep
    obtain rfl := hleft.eq rfl
    obtain rfl := hright.eq rfl
    have hab : ∀ box, (⟨Function.update w.office d ((w.office d).put type mail),
        Function.update w.channel (c,d) rest⟩ : Machines).underWay D.a D.b box =
          w.underWay D.a D.b box := fun box => Machines.underWay_deliver hchannel hok.1
    have hba : ∀ box, (⟨Function.update w.office d ((w.office d).put type mail),
        Function.update w.channel (c,d) rest⟩ : Machines).underWay D.b D.a box =
          w.underWay D.b D.a box := fun box => Machines.underWay_deliver hchannel hok.2
    refine ⟨s,.refl,h.congr (fun x _ => ?_) (fun k => (hab _).trans (h.data k))
      ((congrArg (List.map _) (hba _)).trans h.acks) (hab _ ▸ .refl _) (hba _ ▸ .refl _) rfl rfl
      rfl rfl⟩
    by_cases hx : x = d
    · subst hx
      exact .inr ⟨type,mail,Machines.office_self⟩
    · exact .inl (Machines.office_of_ne hx)

/-- Consecutive messages begin with different bytes. -/
def Distinguished (pieces : List (List Byte)) : Prop :=
  ((Decimal.toString pieces.length :: pieces).map firstChar).IsChain (· ≠ ·)

theorem token_eq (k : ℕ) : D.token k =
    ((Decimal.toString D.pieces.length :: D.pieces).map firstChar).getD k 0 := by
  cases k with
  | zero =>
    obtain ⟨c,cs,hcs⟩ := List.exists_cons_of_ne_nil (Decimal.toString_ne_nil D.pieces.length)
    rw [token, message, messageOf, List.map_cons, List.getD_cons_zero, hcs]
    rfl
  | succ k =>
    rw [token, message, messageOf, List.map_cons, List.getD_cons_succ]
    exact (List.getD_map ..).symm

theorem getD_ne {l : List Byte} (h : l.IsChain (· ≠ ·)) {k : ℕ} (hk : k + 1 < l.length) :
    l.getD k 0 ≠ l.getD (k + 1) 0 := by
  rw [List.getD_eq_getElem _ _ (Nat.lt_of_succ_lt hk), List.getD_eq_getElem _ _ hk]
  exact h.getElem k hk

theorem token_ne (h : Distinguished D.pieces) {k : ℕ} (hk : k + 1 < D.count) :
    D.token k ≠ D.token (k + 1) := by
  rw [token_eq, token_eq]
  exact getD_ne h (by rwa [List.length_map, List.length_cons])

/-- The tokens of the pieces are to differ, and that of the announcement only where something can
get lost and there is more than one piece. -/
theorem telling (hpieces : (D.pieces.map firstChar).IsChain (· ≠ ·))
    (hall : ¬ D.lossless → 1 < D.pieces.length → Distinguished D.pieces) :
    Exchange.Telling D.token box D.count D.lossless := by
  rintro (_ | k) hk hbox
  · obtain ⟨hlossy,hlt⟩ := hbox.resolve_left nofun
    exact token_ne (hall hlossy (Nat.lt_of_succ_lt_succ hlt)) hk
  · rw [token_eq, token_eq, List.map_cons, List.getD_cons_succ, List.getD_cons_succ]
    refine getD_ne hpieces ?_
    rw [List.length_map]
    exact Nat.lt_of_succ_lt_succ hk

theorem corresponds_of_run {Ω : Type*} {T : TransitionSystem Ω MachinesStep} {N : Ω → Machines}
    {L : Ω → ε} {R : Ω → δ} {x : Ω}
    (h₀ : ∀ x, T.init x → Corresponds D (N x) .start (L x) (R x))
    (hstep : ∀ x l y, T.step x l y → ∃ l',
      Machines.OneCallEach D.a D.b D.sender D.receiver D.start (N x) l' ∧
      (D.lossless → ¬ l'.Loses) ∧
      (N x).step l' = some (N y) ∧ (N x).Responds D.left D.a l' (L x) (L y) ∧
      (N x).Responds D.right D.b l' (R x) (R y))
    (htoken : Exchange.Telling D.token box D.count D.lossless) (h : T.Reachable x) :
    ∃ s, s.InOrder D.token box D.count D.lossless ∧ Corresponds D (N x) s (L x) (R x) := by
  have hrun : ∃ s, Relation.ReflTransGen (Exchange.Step D.token box D.count D.lossless) .start s ∧
      Corresponds D (N x) s (L x) (R x) := by
    refine h.invariant (P := fun x => ∃ s, Relation.ReflTransGen
      (Exchange.Step D.token box D.count D.lossless) .start s ∧
        Corresponds D (N x) s (L x) (R x)) ?_ ?_
    · exact fun x hx => ⟨_,.refl,h₀ x hx⟩
    · rintro x l y ⟨s,hs,hc⟩ hxy
      obtain ⟨l',hok,hloses,hnet,hleft,hright⟩ := hstep x l y hxy
      have hin := Exchange.inOrder_of_run box_mono htoken hs
      obtain ⟨s',hs',hc'⟩ := hc.step hin hok hloses hleft hright hnet
      exact ⟨s',hs.trans hs',hc'⟩
  obtain ⟨s,hs,hc⟩ := hrun
  exact ⟨s,Exchange.inOrder_of_run box_mono htoken hs,hc⟩

/-- What the receiver has taken when both calls are over. -/
theorem accepted_eq (hin : s.InOrder D.token box D.count D.lossless)
    (hint : IsInt D.pieces.length) (hanswered : s.answered = D.count) (hfailed : s.failed = false)
    (htaken : Receiving.Taken D.type (s.accepted.map fun k => ((D.message k).type,D.mail k))) :
    s.accepted = List.range D.count := by
  obtain ⟨m,mails,hmails,hsize⟩ := htaken
  obtain ⟨k,l,hl,hk,hrest⟩ := List.map_eq_cons_iff.mp hmails
  obtain ⟨-,rfl⟩ := Prod.mk.inj hk
  -- the first mail is the announcement
  have hk0 : k = 0 := by
    have hbox := hin.accepted_box
    rw [hl, List.length_cons, List.range_succ_eq_map, List.map_cons, List.map_cons] at hbox
    have hbox := (List.cons.inj hbox).1
    cases k with
    | zero => rfl
    | succ k => cases hbox
  subst hk0
  obtain ⟨hzero,hatoi⟩ := announcement hint rfl
  have hlen : mails.length = D.pieces.length := by
    rw [hsize hzero]
    exact (congrArg Int.toNat hatoi).trans (Int.toNat_natCast _)
  rw [← hanswered]
  refine hin.accepted_eq hfailed ?_
  have := congrArg List.length hrest
  rw [List.length_map, List.length_map] at this
  rw [hl, List.length_cons, this, hlen, hanswered, count]

/-- When both calls have returned with success the receiver has taken all messages in order. -/
theorem Corresponds.results (h : Corresponds D w s e e')
    (hin : s.InOrder D.token box D.count D.lossless)
    (hint : IsInt D.pieces.length) {r r' : CallResult}
    (hlog : (w.office D.a).log = D.senderLog ++ [(D.sender,r)])
    (hlog' : (w.office D.b).log = D.receiverLog ++ [(D.receiver,r')])
    (hsent : ∀ g, D.sent r g → g.1.answered = D.count ∧ g.1.failed = false)
    (hreceived : ∀ g, D.received r' g → Receiving.Taken D.type g.1) :
    (w.office D.b).taken = ((List.range D.count).map fun k => ((D.message k).type,D.mail k)) ∧
      D.received r' ((List.range D.count).map fun k => ((D.message k).type,D.mail k),e') := by
  obtain ⟨p,hstage⟩ := h.sender
  obtain ⟨hanswered,hfailed⟩ := hsent _ (hstage.result hlog).1
  obtain ⟨htaken,hall⟩ := h.receiver.result hlog'
  have haccepted := accepted_eq hin hint hanswered hfailed (hreceived _ htaken)
  rw [haccepted] at htaken hall
  exact ⟨hall,htaken⟩

end Dialogue

/-- The payloads that a call has taken for pieces. -/
def Office.piecesTaken (o : Office) : List (List Byte) :=
  (o.taken.filter (·.1 = .msg)).map (·.2.payload)

namespace Dialogue
variable {ε δ : Type} {D : Dialogue ε δ} {w : Machines} {s : Exchange}

theorem payloads_eq :
    (List.range D.pieces.length).map (fun k => (D.mail (k + 1)).payload) = D.pieces := by
  refine List.ext_getElem (by simp) fun k hk hk' => ?_
  simp only [List.getElem_map, List.getElem_range, mail, message, messageOf, Message.payload,
    List.take_length, List.getD_eq_getElem _ _ hk']

theorem piecesTaken_eq (h : (w.office D.b).taken =
    (List.range D.count).map fun k => ((D.message k).type,D.mail k)) :
    (w.office D.b).piecesTaken = D.pieces := by
  have hfilter : ((List.range D.count).map fun k => ((D.message k).type,D.mail k)).filter
      (fun x => decide (x.1 = .msg)) =
      (List.range D.pieces.length).map fun k => (PktType.msg,D.mail (k + 1)) := by
    have hfirst : ¬ (D.message 0).type = .msg := D.type_ne_msg
    rw [count, List.range_succ_eq_map, List.map_cons,
      List.filter_cons_of_neg (by simpa using hfirst), List.map_map, List.filter_eq_self.mpr]
    · rfl
    · intro x hx
      obtain ⟨k,-,rfl⟩ := List.mem_map.mp hx
      rfl
  rw [Office.piecesTaken, h, hfilter, List.map_map]
  exact payloads_eq

end Dialogue

/-- The two machines are connected to each other and idle, and nothing for a transfer from one to
the other is left from before. -/
structure Machines.Quiet (w : Machines) (a b : ℤ) (type : PktType) : Prop where
  ne : a ≠ b
  left : (w.office a).connectedID = b
  right : (w.office b).connectedID = a
  idle : ∀ c, c = a ∨ c = b → (w.office c).user = none
  listening : ∀ c, c = a ∨ c = b → ∀ p, (w.office c).listener = some p → p = listenForEndConnection
  announcements : w.underWay a b type = []
  pieces : w.underWay a b .msg = []
  acks : w.underWay b a .ack = []
  stops : w.underWay a b .stop = [] ∧ w.underWay b a .stop = []

/-- What can be checked of it for machines 0 and 1. -/
def Machines.Rests (w : Machines) (type : PktType) : Prop :=
  (w.office 0).connectedID = 1 ∧ (w.office 1).connectedID = 0 ∧
    ((w.office 0).user.isNone ∧ (w.office 1).user.isNone) ∧
    ((w.office 0).listener.isNone ∧ (w.office 1).listener.isNone) ∧
    w.underWay 0 1 type = [] ∧ w.underWay 0 1 .msg = [] ∧ w.underWay 1 0 .ack = [] ∧
    w.underWay 0 1 .stop = [] ∧ w.underWay 1 0 .stop = []

instance (w : Machines) (type : PktType) : Decidable (w.Rests type) :=
  inferInstanceAs (Decidable (_ ∧ _))

theorem Machines.Rests.quiet {w : Machines} {type : PktType} (h : w.Rests type) :
    w.Quiet 0 1 type := by
  simp only [Rests, Option.isNone_iff_eq_none] at h
  obtain ⟨hleft,hright,⟨huser₀,huser₁⟩,⟨hl₀,hl₁⟩,hinfo,hmsg,hack,hstop⟩ := h
  refine ⟨by decide,hleft,hright,?_,?_,hinfo,hmsg,hack,hstop⟩
  · rintro c (rfl | rfl)
    · exact huser₀
    · exact huser₁
  · rintro c (rfl | rfl) p hp
    · cases hl₀.symm.trans hp
    · cases hl₁.symm.trans hp

theorem Office.step_id {o o' : Office} {l : OfficeStep} {sent : Option Message}
    (h : o.step l = some (o',sent)) : o'.id = o.id := by
  cases Office.step_cases h with
  | user _ hadv => exact (Office.advance_sameThreads hadv).id
  | listener _ hadv => exact (Office.advance_sameThreads hadv).id
  | call | listen | userReturns | listenerReturns | wakeUp | elapse | arrive => rfl

theorem Machines.id_of_reachable {w : Machines} (h : machines.Reachable w) (a : ℤ) :
    (w.office a).id = a := by
  refine h.invariant (P := fun w => (w.office a).id = a) (fun w hw => (hw.1 a).2) ?_
  intro w l w' hw hstep
  rcases Machines.step_office hstep a with heq | ⟨l',sent,hl,-⟩
  · rwa [heq]
  · exact (Office.step_id hl).trans hw

theorem Dialogue.corresponds_start {ε δ : Type} {D : Dialogue ε δ} (h₀ : machines.Reachable D.start)
    (hquiet : D.start.Quiet D.a D.b D.type) :
    Corresponds D D.start .start D.startLeft D.startRight where
  left := ⟨Machines.id_of_reachable h₀ D.a,hquiet.left,hquiet.listening D.a (.inl rfl)⟩
  right := ⟨Machines.id_of_reachable h₀ D.b,hquiet.right,hquiet.listening D.b (.inr rfl)⟩
  sender := ⟨0,.before (hquiet.idle D.a (.inl rfl)) rfl rfl⟩
  receiver := .before (hquiet.idle D.b (.inr rfl)) rfl rfl
  data k := by
    cases k with
    | zero => exact hquiet.announcements
    | succ k => exact hquiet.pieces
  acks := congrArg (List.map _) hquiet.acks
  stop_left := hquiet.stops.2
  stop_right := hquiet.stops.1

end Nachos
