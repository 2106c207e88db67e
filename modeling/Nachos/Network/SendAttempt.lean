import Nachos.Network.Answering
import Nachos.Network.PeerIsolation

/-! # `SendWait` in progress

What two machines do from a call of `SendWait` on, with a record of the transmissions, of the acks
that come and of the mails that the peer takes as new ones; and what `SendWait` itself does.
-/
namespace Nachos
open Prog

/-- A call of `SendWait`, and what its caller does with the result. -/
structure SendWaitCall where
  a : ℤ
  b : ℤ
  out : Message
  inData : List Byte
  limit : ℕ
  call : TcpCall
  next : Bool → TcpProg CallResult

/-- `SendWait` in progress, with what has happened since it was called: its transmissions, its
looks into the box for acks that found nothing, whether it has seen a `STOP`, the acks that have
come, and the mails the peer has taken out of the box of the message as new ones. -/
structure Attempt where
  world : Machines
  rest : TcpProg Bool
  sent : ℕ
  missed : ℕ
  stopped : Bool
  arrived : List TcpMail
  accepted : List TcpMail

/-- The mail of a box that an operation takes into a message. -/
def Office.mailFor (o : Office) (box : PktType) : TcpOp → Option TcpMail
  | .noBlockReceive b .message => if b = box then (o.boxes box).head? else none
  | .receive b => if b = box then (o.boxes box).head? else none
  | _ => none

namespace Attempt

def after (o : Office) (s : Attempt) : TcpOp → Attempt
  | .send _ => { s with sent := s.sent + 1 }
  | .noBlockReceive box .message =>
    { s with missed := if o.boxes box = [] then s.missed + 1 else s.missed }
  | .stoppingConnection => { s with stopped := s.stopped || o.stoppingConnection }
  | _ => s

def record (o : Office) (s : Attempt) : Attempt :=
  match s.rest with
  | .act op _ => s.after o op
  | _ => s

/-- A step of the machine that sends; it ends when `SendWait` has returned. -/
def sender (o : Office) (s : Attempt) : Option OfficeStep → Option Attempt
  | some (.run .user answers) =>
    (o.advance .user answers s.rest).map fun (q,_) => { s.record o with rest := q }
  | some (.finish .user) => none
  | some (.arrive .ack mail) => some { s with arrived := s.arrived ++ [mail] }
  | _ => some s

def receiver (box : PktType) (o : Office) (s : Attempt) : Option OfficeStep → Attempt
  | some l => { s with accepted := s.accepted ++ ((o.operation l).bind (o.mailFor box)).toList }
  | none => s

def result (s : Attempt) : Option Bool :=
  match s.rest with
  | .ret r => some r
  | _ => none

theorem rest_of_result {s : Attempt} {r : Bool} (h : s.result = some r) : s.rest = .ret r := by
  unfold result at h
  split at h
  case h_1 r' hrest =>
    cases h
    exact hrest
  case h_2 => cases h

end Attempt

namespace SendWaitCall

def begin (S : SendWaitCall) (w : Machines) : Attempt :=
  ⟨w,sendWait S.out .ack S.inData S.limit,0,0,false,[],[]⟩

def step (S : SendWaitCall) (s : Attempt) (l : MachinesStep) : Option Attempt :=
  (s.world.step l).bind fun w =>
    (s.sender (s.world.office S.a) (s.world.stepOf S.a l)).map fun t =>
      { t.receiver S.out.type (s.world.office S.b) (s.world.stepOf S.b l) with world := w }

def Begins (S : SendWaitCall) (w : Machines) : Prop :=
  (w.office S.a).user = some (S.call,(S.begin w).rest >>= S.next)

def token (S : SendWaitCall) : Byte := firstChar S.out.payload

/-- The message has a first byte with a successor, and nothing of an earlier message is left: no
mail of the sender that the peer has or will get, no ack that the sender has or will get, and no
thread of the peer that has an ack to send or takes the message for a copy. -/
structure Fresh (S : SendWaitCall) (w : Machines) : Prop where
  ne : S.a ≠ S.b
  toAddr : S.out.toAddr = S.b
  type : S.out.type ≠ .ack
  payload : S.out.payload ≠ []
  token : S.token ≠ 127
  mails : ∀ box, box ≠ .ack → w.underWay S.a S.b box = []
  acks : w.underWay S.b S.a .ack = []
  user : ∀ c p, (w.office S.b).user = some (c,p) → Unconcerned S.out.type S.token p
  listener : ∀ p, (w.office S.b).listener = some p → Unconcerned S.out.type S.token p

/-- No third machine sends to the two, and no ack comes after the last look for one. -/
def Orderly (S : SendWaitCall) (s : Attempt) : MachinesStep → Prop
  | .deliver c d => (d = S.b → c = S.a) ∧ (d = S.a → c = S.b) ∧
      (d = S.a → s.missed = S.limit → (s.world.channel (c,d)).head?.map Prod.fst ≠ some .ack)
  | _ => True

instance (S : SendWaitCall) (s : Attempt) : (l : MachinesStep) → Decidable (S.Orderly s l)
  | .deliver _ _ => inferInstanceAs (Decidable ((_ → _) ∧ (_ → _) ∧ (_ → _ → _)))
  | .own _ _ | .lose _ _ _ => inferInstanceAs (Decidable True)

/-- The runs from the call of `SendWait` on. -/
def attempts (S : SendWaitCall) (w : Machines) : TransitionSystem Attempt MachinesStep where
  init s := s = S.begin w
  step s l t := S.step s l = some t

end SendWaitCall

/-- The transmissions, the looks that found nothing, whether a `STOP` was seen, and the ack. -/
structure Waiting where
  sent : ℕ
  missed : ℕ
  stopped : Bool
  got : Option TcpMail

/-- One message is sent until there is an ack, and more acks are thrown away. -/
def sending (out : Message) (limit : ℕ) : Contract TcpOp TcpOp.Resp Waiting where
  pre op s := match op with
    | .send m => m = out
    | .noBlockReceive box .message => box = .ack ∧ s.got = none
    | .noBlockReceive box .dull => box = .ack ∧ (s.got = none → s.missed = limit)
    | .schedule ticks => ticks = tempo
    | .setConnectedID _ | .setStoppingConnection _ | .stopSemV | .receive _ => False
    | _ => True
  post op s r t := match op with
    | .send _ => t = { s with sent := s.sent + 1 }
    | .noBlockReceive _ .message =>
      t = Option.elim r { s with missed := s.missed + 1 } fun mail => { s with got := some mail }
    | .stoppingConnection => t = { s with stopped := s.stopped || r }
    | _ => t = s

structure Verdict (out : Message) (limit : ℕ) (r : Bool) (s : Waiting) : Prop where
  of_true : r = true → s.got ≠ none
  of_false : r = false → s.stopped = true ∨ (s.got = none ∧ s.sent = limit ∧ s.missed = limit) ∨
    ∃ ack, s.got = some ack ∧ (ack.payload = [] ∨
      ¬ Follows (firstChar out.payload) (firstChar ack.payload))

namespace Verdict
variable {out : Message} {limit : ℕ} {s : Waiting}

theorem sat_isStopping : isStopping.Sat (sending out limit)
    (fun b t => t = { s with stopped := s.stopped || b }) s := ⟨trivial,fun _ _ h => h⟩

theorem sat_wait : wait.Sat (sending out limit)
    (fun b t => t = { s with stopped := s.stopped || b }) s := by
  refine ⟨rfl,?_⟩
  rintro - _ rfl
  refine ⟨trivial,?_⟩
  rintro - _ rfl
  refine ⟨trivial,?_⟩
  rintro b t ht
  obtain rfl : t = _ := ht
  cases b with
  | true => rfl
  | false => exact ⟨trivial,fun _ _ h => h⟩

/-- The looks for more acks change no more than what has been seen of a `STOP`. -/
theorem sat_catchMail (h : s.got = none → s.missed = limit) (expected : ℤ) :
    (catchMail .ack expected).Sat (sending out limit)
      (fun _ t => ∃ stopped, t = { s with stopped := stopped }) s := by
  refine Prog.Sat.iterate (fun _ t => ∃ stopped, t = { s with stopped := stopped }) ⟨_,rfl⟩ ?_
  rintro ⟨attempts,nbCatch⟩ _ ⟨stopped,rfl⟩
  dsimp only
  split
  · refine sat_wait.bind ?_
    rintro b _ rfl
    split
    · exact ⟨_,rfl⟩
    · refine Prog.Sat.bind (Q := fun _ t => t = _) ⟨⟨rfl,h⟩,fun _ _ h => h⟩ ?_
      rintro (_ | mail) _ rfl
      · exact ⟨_,rfl⟩
      · dsimp only
        split <;> exact ⟨_,rfl⟩
  · exact ⟨_,rfl⟩

theorem sat_charZero (data : List Byte) : (charZero data).Sat (sending out limit)
    (fun c t => t = s ∧ (data ≠ [] → c = firstChar data)) s := by
  cases data with
  | nil => exact ⟨trivial,fun _ _ h => ⟨h,fun hne => absurd rfl hne⟩⟩
  | cons c data => exact ⟨rfl,fun _ => rfl⟩

theorem firstChar_payload (h : out.payload ≠ []) :
    out.data ≠ [] ∧ firstChar out.data = firstChar out.payload := by
  rw [Message.payload] at h ⊢
  have hlength : out.length ≠ 0 := by
    intro h0
    rw [h0] at h
    exact h List.take_zero
  obtain ⟨n,hn⟩ := Nat.exists_eq_succ_of_ne_zero hlength
  cases hdata : out.data with
  | nil =>
    rw [hdata] at h
    exact absurd List.take_nil h
  | cons c rest =>
    rw [hn]
    exact ⟨List.cons_ne_nil _ _,rfl⟩

theorem sat_sendLoop (inData : List Byte) : (sendLoop out .ack inData limit).Sat (sending out limit)
    (fun r t => (r = none → t.stopped = true) ∧ ∀ attempts inData', r = some (attempts,inData') →
      (attempts = limit ∧ t.got = none ∧ t.sent = limit ∧ t.missed = limit) ∨
        attempts ≠ limit ∧ ∃ ack, t.got = some ack ∧ inData' = overwrite inData ack.payload)
    ⟨0,0,false,none⟩ := by
  refine Prog.Sat.iterate (fun attempts t => attempts ≤ limit ∧ t.got = none ∧
    t.sent = attempts ∧ t.missed = attempts) ⟨Nat.zero_le _,rfl,rfl,rfl⟩ ?_
  rintro attempts s ⟨hle,hgot,hsent,hmissed⟩
  split
  case isTrue hlt =>
    refine ⟨rfl,fun _ t ht => ?_⟩
    obtain rfl : t = _ := ht
    refine sat_wait.bind ?_
    rintro b _ rfl
    split
    case isTrue hb =>
      subst hb
      exact ⟨fun _ => Bool.or_true _,nofun⟩
    case isFalse =>
      refine Prog.Sat.bind (Q := fun r t => (sending out limit).post (.noBlockReceive .ack .message)
        _ r t) ⟨⟨rfl,hgot⟩,fun _ _ h => h⟩ ?_
      rintro (_ | ack) t ht
      · obtain rfl : t = _ := ht
        exact ⟨hlt,hgot,congrArg (· + 1) hsent,congrArg (· + 1) hmissed⟩
      · obtain rfl : t = _ := ht
        refine ⟨nofun,?_⟩
        rintro _ _ ⟨⟩
        exact .inr ⟨hlt.ne,ack,rfl,rfl⟩
  case isFalse hge =>
    refine ⟨nofun,?_⟩
    rintro _ _ ⟨⟩
    obtain rfl : attempts = limit := by omega
    exact .inl ⟨rfl,hgot,hsent,hmissed⟩

theorem sat_sendWait (inData : List Byte) (h : out.payload ≠ []) :
    (sendWait out .ack inData limit).Sat (sending out limit) (Verdict out limit)
      ⟨0,0,false,none⟩ := by
  refine (sat_sendLoop inData).bind ?_
  rintro (_ | ⟨attempts,inData'⟩) s ⟨hstopped,hloop⟩
  · exact ⟨nofun,fun _ => .inl (hstopped rfl)⟩
  have hloop := hloop attempts inData' rfl
  refine (sat_catchMail (s := s) ?_ attempts).bind ?_
  · rintro hnone
    rcases hloop with ⟨-,-,-,hmissed⟩ | ⟨-,ack,hack,-⟩
    · exact hmissed
    · cases hnone.symm.trans hack
  rintro _ _ ⟨stopped,rfl⟩
  refine sat_isStopping.bind ?_
  rintro b _ rfl
  split
  case isTrue hb =>
    subst hb
    exact ⟨nofun,fun _ => .inl (Bool.or_true _)⟩
  case isFalse =>
    refine (sat_charZero out.data).bind ?_
    rintro c _ ⟨rfl,hc⟩
    obtain ⟨hdata,hfirst⟩ := firstChar_payload h
    rw [hc hdata, hfirst]
    rcases hloop with ⟨rfl,hgot,hsent,hmissed⟩ | ⟨hne,ack,hack,rfl⟩
    · refine ⟨fun hr => absurd rfl (of_decide_eq_true hr).1,fun _ => .inr (.inl ?_)⟩
      exact ⟨hgot,hsent,hmissed⟩
    · refine ⟨fun _ => by simp [hack],fun hr => .inr (.inr ⟨ack,hack,?_⟩)⟩
      have hnot := of_decide_eq_false hr
      by_contra hboth
      rw [not_or, not_not] at hboth
      refine hnot ⟨hne,?_⟩
      obtain ⟨d,rest,hd⟩ := List.exists_cons_of_ne_nil hboth.1
      have hfollows := hboth.2
      rw [hd] at hfollows ⊢
      exact hfollows

end Verdict

/-- What a listener does: it answers what is in the box for `STOP`. -/
def TcpOp.Listens : TcpOp → Prop
  | .send m => m.type = .ack
  | .noBlockReceive box into => box = .stop ∧ into = .dull
  | .receive box => box = .stop
  | .setConnectedID _ => False
  | _ => True

theorem listens_wait : wait.Uses TcpOp.Listens := by
  refine ⟨trivial,fun _ => ⟨trivial,fun _ => ⟨trivial,fun b => ?_⟩⟩⟩
  cases b with
  | true => trivial
  | false => exact ⟨trivial,fun _ => trivial⟩

theorem listens_listener : listenForEndConnection.Uses TcpOp.Listens := by
  refine ⟨rfl,fun mail => ⟨rfl,fun _ => Prog.Uses.bind (p := catchWithAnswer .stop _) ?_ fun _ =>
    ⟨trivial,fun _ => ⟨trivial,fun _ => trivial⟩⟩⟩⟩
  refine ⟨trivial,fun dull => Prog.Uses.iterate ?_⟩
  rintro ⟨attempts,nbCatch,dull⟩
  dsimp only
  split
  · refine listens_wait.bind fun b => ?_
    split
    · trivial
    · have hpoll : (pollBox .stop .dull).Uses TcpOp.Listens := Prog.Uses.perform ⟨rfl,rfl⟩
      refine hpoll.bind ?_
      rintro (_ | mail)
      · trivial
      · dsimp only
        split
        · exact ⟨rfl,fun _ => trivial⟩
        · trivial
  · trivial

namespace Office
variable {o o' : Office} {thread : TcpThread} {answers : Answers} {sent : Option Message}

theorem poll_nil {box : PktType} {into : Destination} (h : o.boxes box = []) :
    o.perform thread answers (.noBlockReceive box into) = some (none,o,none) := by
  simp only [perform, h]
  rfl

theorem poll_cons {box : PktType} {into : Destination} {mail : TcpMail} {rest : List TcpMail}
    (h : o.boxes box = mail :: rest) : o.perform thread answers (.noBlockReceive box into) =
      some (some mail,o.take thread box into mail rest,none) := by
  simp only [perform, h]
  rfl

theorem receive_nil {box : PktType} (h : o.boxes box = []) :
    o.perform thread answers (.receive box) = none := by
  simp only [perform, h]

theorem receive_cons {box : PktType} {mail : TcpMail} {rest : List TcpMail}
    (h : o.boxes box = mail :: rest) : o.perform thread answers (.receive box) =
      some (mail,o.take thread box .message mail rest,none) := by
  simp only [perform, h]
  rfl

theorem advance_bind {α β : Type} {p : TcpProg α} {f : α → TcpProg β} (hp : ∀ r, p ≠ .ret r) :
    o.advance thread answers (p >>= f) =
      (o.advance thread answers p).map fun (q,o,sent) => (q >>= f,o,sent) := by
  cases p with
  | ret r => exact absurd rfl (hp r)
  | act op next =>
    rw [act_bind, advance, advance, Option.map_map]
    rfl
  | loop body x next =>
    rw [loop_bind, advance, advance, ← unroll_bind]
    rfl

theorem boxes_take_of_ne {b box : PktType} {into : Destination} {mail : TcpMail}
    {rest : List TcpMail} (h : b ≠ box) : (o.take thread box into mail rest).boxes b = o.boxes b :=
  Function.update_of_ne h ..

/-- A listener leaves the acks alone that its machine gets, and sends nothing but acks. -/
theorem advance_listens {α : Type} {p q : TcpProg α} (hp : p.Uses TcpOp.Listens)
    (h : o.advance .listener answers p = some (q,o',sent)) :
    o'.boxes .ack = o.boxes .ack ∧ o'.pauses = o.pauses ∧ ∀ m, sent = some m → m.type = .ack := by
  rcases advance_cases h with ⟨op,next,r,rfl,-,hop⟩ | ⟨-,rfl,rfl⟩
  · have hlistens : op.Listens := hp.1
    cases op with
    | setConnectedID => exact hlistens.elim
    | crash => cases hop
    | send m =>
      cases hop
      refine ⟨rfl,rfl,?_⟩
      rintro _ ⟨⟩
      exact hlistens
    | noBlockReceive box into =>
      obtain ⟨rfl,rfl⟩ := hlistens
      cases hbox : o.boxes .stop with
      | nil =>
        rw [poll_nil hbox] at hop
        cases hop
        exact ⟨rfl,rfl,nofun⟩
      | cons mail rest =>
        rw [poll_cons hbox] at hop
        cases hop
        exact ⟨boxes_take_of_ne (by decide),rfl,nofun⟩
    | receive box =>
      obtain rfl : box = .stop := hlistens
      cases hbox : o.boxes .stop with
      | nil =>
        rw [receive_nil hbox] at hop
        cases hop
      | cons mail rest =>
        rw [receive_cons hbox] at hop
        cases hop
        exact ⟨boxes_take_of_ne (by decide),rfl,nofun⟩
    | stopSemP | waitSemP =>
      simp only [perform] at hop
      split at hop <;> cases hop
      exact ⟨rfl,rfl,nofun⟩
    | connectedID | stoppingConnection | setStoppingConnection | schedule | stopSemV | fileOpen
      | fileLength | fileRead | fileCreate | fileWrite | memory | behind =>
      cases hop
      exact ⟨rfl,rfl,nofun⟩
  · exact ⟨rfl,rfl,nofun⟩

theorem advance_boxes {α : Type} {p q : TcpProg α}
    (h : o.advance thread answers p = some (q,o',sent)) {box : PktType} {mail : TcpMail}
    (hmail : mail ∈ o'.boxes box) : mail ∈ o.boxes box := by
  rcases advance_cases h with ⟨op,next,r,rfl,-,hop⟩ | ⟨-,rfl,rfl⟩
  · exact perform_boxes hop hmail
  · exact hmail

theorem operation_user {c : TcpCall} {p : TcpProg CallResult} (hu : o.user = some (c,p))
    (op : TcpOp) (next : op.Resp → TcpProg CallResult) (h : p = .act op next) :
    o.operation (.run .user answers) = some op := by
  simp only [operation, hu, h]

theorem operation_user_silent {c : TcpCall} {p q : TcpProg CallResult} (hu : o.user = some (c,p))
    (h : p.silent = some q) : o.operation (.run .user answers) = none := by
  cases p with
  | loop body x next => simp only [operation, hu]
  | ret r => cases h
  | act op next => cases h

theorem operation_listener {p : TcpProg Unit} (hl : o.listener = some p)
    (op : TcpOp) (next : op.Resp → TcpProg Unit) (h : p = .act op next) :
    o.operation (.run .listener answers) = some op := by
  simp only [operation, hl, h]

theorem operation_listener_silent {p q : TcpProg Unit} (hl : o.listener = some p)
    (h : p.silent = some q) : o.operation (.run .listener answers) = none := by
  cases p with
  | loop body x next => simp only [operation, hl]
  | ret r => cases h
  | act op next => cases h

theorem step_act {c : TcpCall} {op : TcpOp} {next : op.Resp → TcpProg CallResult} {r : op.Resp}
    (hu : o.user = some (c,.act op next)) (h : o.perform .user answers op = some (r,o',sent)) :
    o.step (.run .user answers) = some ({ o' with user := some (c,next r) },sent) := by
  simp only [step, hu, advance, h, Option.map_some]

theorem steps_cons {l : OfficeStep} {ls : List OfficeStep} (h : o.step l = some (o',sent)) :
    o.steps (l :: ls) = o'.steps ls := by
  rw [steps, h]
  rfl

/-- Every listener keeps to what listeners do. -/
theorem listens_step {l : OfficeStep} (h : ∀ p, o.listener = some p → p.Uses TcpOp.Listens)
    (hstep : o.step l = some (o',sent)) :
    ∀ p, o'.listener = some p → p.Uses TcpOp.Listens := by
  cases step_cases hstep with
  | listen =>
    rintro _ ⟨⟩
    exact listens_listener
  | user _ hadv =>
    intro p hp
    exact h p ((advance_sameThreads hadv).listener ▸ hp)
  | listener hl hadv =>
    rintro _ ⟨⟩
    exact advance_uses hadv (h _ hl)
  | listenerReturns => nofun
  | call | userReturns | wakeUp | elapse | arrive => exact h

theorem listens_of_reachable (h : offices.Reachable o) :
    ∀ p, o.listener = some p → p.Uses TcpOp.Listens := by
  refine h.invariant (P := fun o => ∀ p, o.listener = some p → p.Uses TcpOp.Listens) ?_ ?_
  · intro o hnew p hp
    cases hp.symm.trans hnew.2.2.2.2.2.2.1
  · rintro o l o' ho ⟨sent,hstep⟩
    exact listens_step ho hstep

theorem mem_of_mailFor {box : PktType} {op : TcpOp} {mail : TcpMail}
    (h : o.mailFor box op = some mail) : mail ∈ o.boxes box := by
  have hhead : ∀ b, (if b = box then (o.boxes box).head? else none) = some mail →
      mail ∈ o.boxes box := by
    intro b hb
    split_ifs at hb
    exact List.mem_of_head? hb
  cases op with
  | noBlockReceive b into =>
    cases into with
    | message => exact hhead b h
    | dull => cases h
  | receive b => exact hhead b h
  | _ => cases h

end Office

theorem Machines.steps_own {a : ℤ} {ls : List OfficeStep} {w w' : Machines}
    (h : w.steps (ls.map (.own a)) = some w') :
    (w.office a).steps ls = some (w'.office a) ∧ ∀ c, c ≠ a → w'.office c = w.office c := by
  induction ls generalizing w with
  | nil =>
    cases h
    exact ⟨rfl,fun _ _ => rfl⟩
  | cons l ls ih =>
    obtain ⟨w₁,hstep,hrest⟩ := Option.bind_eq_some_iff.mp h
    obtain ⟨-,o,sent,hown,rfl⟩ := Machines.own_eq hstep
    obtain ⟨hoffice,hother⟩ := ih hrest
    rw [Machines.office_self] at hoffice
    refine ⟨?_,fun c hc => (hother c hc).trans (Machines.office_of_ne hc)⟩
    rw [Office.steps_cons hown]
    exact hoffice

end Nachos
