import Nachos.Network.Machines
import Mathlib.Data.List.Induction

/-! # The end of a connection

`connectedID` belongs to the user thread: it is what the calls that have returned make it. The
listener answers a `STOP` and leaves the connection as it is.
-/
namespace Nachos

/-- The calls that try to open a connection. -/
def TcpCall.Opens : TcpCall → Prop
  | .syncWithMachine _ | .openConnection => True
  | _ => False

def TcpCall.Transfers : TcpCall → Prop
  | .syncWithMachine _ | .openConnection | .endConnection => False
  | _ => True

/-- The connection after a call that has returned. -/
def connectionAfter (c : ℤ) : TcpCall × CallResult → ℤ
  | (.syncWithMachine _,.id r) | (.openConnection,.id r) => if r = -1 then c else r
  | (.endConnection,.id r) => if r = -1 then c else -1
  | _ => c

/-- The connection the calls of a machine have left. -/
def Office.recorded (o : Office) : ℤ := o.log.foldl connectionAfter (-1)

def TcpOp.KeepsConnection : TcpOp → Prop
  | .setConnectedID _ => False
  | _ => True

/-- The only thing done to the connection is to end it. -/
def TcpOp.NoConnect : TcpOp → Prop
  | .setConnectedID id => id = -1
  | _ => True

theorem TcpOp.Plain.keepsConnection {op : TcpOp} (h : op.Plain) : op.KeepsConnection := by
  cases op with
  | setConnectedID id => exact h
  | _ => trivial

theorem TcpOp.KeepsConnection.noConnect {op : TcpOp} (h : op.KeepsConnection) :
    op.NoConnect := by
  cases op with
  | setConnectedID id => exact h.elim
  | _ => trivial

/-- What the operations do to `connectedID`. -/
def connection : Contract TcpOp TcpOp.Resp ℤ where
  pre _ _ := True
  post op c r c' := match op with
    | .connectedID => r = c ∧ c' = c
    | .setConnectedID id => c' = id
    | _ => c' = c

section Calls
variable {c : ℤ}

theorem keeps_sat {α : Type} {p : TcpProg α} (h : p.Uses TcpOp.KeepsConnection) :
    p.Sat connection (fun _ t => t = c) c := by
  refine h.sat (I := (· = c)) ?_ rfl
  rintro op s hop rfl
  refine ⟨trivial,fun r t hr => ?_⟩
  cases op with
  | connectedID => exact hr.2
  | setConnectedID id => exact hop.elim
  | _ => exact hr

theorem connection_sendWait (out : Message) (inType : PktType) (inData : List Byte) (limit : ℕ) :
    (sendWait out inType inData limit).Sat connection (fun _ t => t = c) c :=
  keeps_sat ((mailing_sendWait out inType inData limit).mono fun _ h => h.plain.keepsConnection)

theorem connection_getConnectedID :
    getConnectedID.Sat connection (fun r t => r = c ∧ t = c) c := ⟨trivial,fun _ _ h => h⟩

theorem connection_setConnectedID (id : ℤ) :
    (tcp (.setConnectedID id)).Sat connection (fun _ t => t = id) c := ⟨trivial,fun _ _ h => h⟩

theorem connection_opened (hc : c = -1) (d : ℤ) :
    getConnectedID.Sat connection (fun r t => t = if r = -1 then c else r) d := by
  refine connection_getConnectedID.mono ?_
  rintro _ _ ⟨rfl,rfl⟩
  split
  case isTrue h => rw [h, hc]
  case isFalse => rfl

theorem connection_syncWithMachine (id targetMachine : ℤ) :
    (syncWithMachine id targetMachine).Sat connection
      (fun r t => t = if r = -1 then c else r) c := by
  refine connection_getConnectedID.bind ?_
  rintro _ c ⟨rfl,rfl⟩
  split
  case isTrue => rfl
  case isFalse hc =>
    have hc : c = -1 := not_not.mp hc
    refine (connection_sendWait _ _ _ _).bind ?_
    rintro b _ rfl
    split
    · refine (keeps_sat
        ((mailing_receiveWait _ _ _).mono fun _ h => h.plain.keepsConnection)).bind ?_
      rintro _ _ rfl
      refine (connection_setConnectedID _).bind ?_
      rintro _ _ rfl
      exact connection_opened hc _
    · exact connection_opened hc _

theorem connection_openConnection (id : ℤ) :
    (openConnection id).Sat connection (fun r t => t = if r = -1 then c else r) c := by
  refine connection_getConnectedID.bind ?_
  rintro _ c ⟨rfl,rfl⟩
  split
  case isTrue => rfl
  case isFalse hc =>
    have hc : c = -1 := not_not.mp hc
    refine ⟨trivial,?_⟩
    rintro mail _ rfl
    refine ⟨trivial,?_⟩
    rintro - _ rfl
    refine (keeps_sat
      ((mailing_catchWithAnswer _ _).mono fun _ h => h.plain.keepsConnection)).bind ?_
    rintro _ _ rfl
    refine (connection_sendWait _ _ _ _).bind ?_
    rintro b _ rfl
    split
    · refine (connection_setConnectedID _).bind ?_
      rintro _ _ rfl
      exact connection_opened hc _
    · exact connection_opened hc _

theorem connection_endConnection (id : ℤ) :
    (endConnection id).Sat connection (fun r t => t = if r = -1 then c else -1) c := by
  refine connection_getConnectedID.bind ?_
  rintro _ c ⟨rfl,rfl⟩
  split
  case isTrue => rfl
  case isFalse hc =>
    refine connection_getConnectedID.bind ?_
    rintro _ c ⟨rfl,rfl⟩
    refine ⟨trivial,?_⟩
    rintro - _ rfl
    refine (connection_sendWait _ _ _ _).bind ?_
    rintro b c rfl
    have hret : (retValue b).Sat connection (fun r t => t = c ∧ (r = c ∨ r = -1)) c := by
      unfold retValue
      split
      · exact connection_getConnectedID.mono fun _ _ h => ⟨h.2,.inl h.1⟩
      · exact ⟨rfl,.inr rfl⟩
    refine hret.bind ?_
    rintro retVal _ ⟨rfl,hval⟩
    refine connection_getConnectedID.bind ?_
    rintro _ c ⟨rfl,rfl⟩
    split
    case isTrue h =>
      refine (connection_setConnectedID _).bind ?_
      rintro _ _ rfl
      exact (if_neg (h ▸ hc)).symm
    case isFalse h => exact (if_pos (hval.resolve_left h)).symm

theorem plain_call (id : ℤ) {call : TcpCall} (h : call.Transfers) :
    (call.prog id).Uses TcpOp.Plain := by
  cases call with
  | syncWithMachine | openConnection | endConnection => exact h.elim
  | sendString data => exact (plain_of_mailing (mailing_sendString data)).bind fun _ => trivial
  | receiveString => exact (plain_of_mailing mailing_receiveString).bind fun _ => trivial
  | sendFile filename => exact (plain_sendFile filename).bind fun _ => trivial
  | receiveFile savename => exact (plain_receiveFile savename).bind fun _ => trivial

/-- What a call does to the connection can be seen from what it returns. -/
theorem connection_call (id : ℤ) (call : TcpCall) :
    (call.prog id).Sat connection (fun r t => t = connectionAfter c (call,r)) c := by
  have htransfer (h : call.Transfers) : (call.prog id).Sat connection (fun _ t => t = c) c :=
    keeps_sat ((plain_call id h).mono fun _ h => h.keepsConnection)
  cases call with
  | syncWithMachine target => exact (connection_syncWithMachine id target).bind fun _ _ h => h
  | openConnection => exact (connection_openConnection id).bind fun _ _ h => h
  | endConnection => exact (connection_endConnection id).bind fun _ _ h => h
  | sendString | receiveString | sendFile | receiveFile => exact htransfer trivial

end Calls

theorem listener_keeps : listenForEndConnection.Uses TcpOp.KeepsConnection :=
  ⟨trivial,fun _ => ⟨trivial,fun _ =>
    ((mailing_catchWithAnswer _ _).mono fun _ h => h.plain.keepsConnection).bind fun _ =>
      ⟨trivial,fun _ => ⟨trivial,fun _ => trivial⟩⟩⟩⟩

theorem endConnection_noConnect (id : ℤ) :
    (endConnection id).Uses TcpOp.NoConnect := by
  have hget : getConnectedID.Uses TcpOp.NoConnect := Prog.Uses.perform trivial
  have hset : (tcp (.setConnectedID (-1))).Uses TcpOp.NoConnect := Prog.Uses.perform rfl
  refine hget.bind fun c => ?_
  split
  · trivial
  refine hget.bind fun target => ⟨trivial,fun _ =>
    ((mailing_sendWait _ _ _ _).mono fun _ h => h.plain.keepsConnection.noConnect).bind fun b => ?_⟩
  have hret : (retValue b).Uses TcpOp.NoConnect := by
    unfold retValue
    split
    · exact hget
    · trivial
  refine hret.bind fun retVal => hget.bind fun d => ?_
  split
  · exact hset.bind fun _ => trivial
  · trivial

theorem call_noConnect (id : ℤ) {c : TcpCall} (h : ¬ c.Opens) :
    (c.prog id).Uses TcpOp.NoConnect := by
  have htransfer (h : c.Transfers) : (c.prog id).Uses TcpOp.NoConnect :=
    (plain_call id h).mono fun _ h => h.keepsConnection.noConnect
  cases c with
  | syncWithMachine | openConnection => exact absurd trivial h
  | endConnection => exact (endConnection_noConnect id).bind fun _ => trivial
  | sendString | receiveString | sendFile | receiveFile => exact htransfer trivial

namespace Office
variable {o o' : Office} {thread : TcpThread} {answers : Answers} {sent : Option Message}

theorem perform_connection {op : TcpOp} {r : op.Resp}
    (h : o.perform thread answers op = some (r,o',sent)) :
    connection.post op o.connectedID r o'.connectedID := by
  cases op with
  | stopSemP | waitSemP | noBlockReceive | receive =>
    simp only [perform] at h
    split at h <;> cases h <;> rfl
  | crash => cases h
  | connectedID =>
    cases h
    exact ⟨rfl,rfl⟩
  | setConnectedID | stoppingConnection | setStoppingConnection | schedule
    | stopSemV | send | fileOpen | fileLength | fileRead | fileCreate | fileWrite | memory
    | behind =>
    cases h
    rfl

theorem advance_connection {α : Type} {p q : TcpProg α} {Q : α → ℤ → Prop}
    (h : o.advance thread answers p = some (q,o',sent)) (hp : p.Sat connection Q o.connectedID) :
    q.Sat connection Q o'.connectedID := by
  obtain ⟨_,hq,rfl⟩ := advance_sat (R := fun o c => o.connectedID = c) h hp rfl
    fun op r hop _ => ⟨o'.connectedID,perform_connection hop,rfl⟩
  exact hq

theorem advance_keeps {α : Type} {p q : TcpProg α}
    (h : o.advance thread answers p = some (q,o',sent)) (hp : p.Uses TcpOp.KeepsConnection) :
    o'.connectedID = o.connectedID := by
  rcases advance_cases h with ⟨op,next,r,rfl,-,hop⟩ | ⟨-,rfl,-⟩
  · have hpost := perform_connection hop
    cases op with
    | setConnectedID id => exact hp.1.elim
    | connectedID => exact hpost.2
    | _ => exact hpost
  · rfl

theorem advance_noConnect {α : Type} {p q : TcpProg α}
    (h : o.advance thread answers p = some (q,o',sent)) (hp : p.Uses TcpOp.NoConnect)
    (ho : o.connectedID = -1) : o'.connectedID = -1 := by
  rcases advance_cases h with ⟨op,next,r,rfl,-,hop⟩ | ⟨-,rfl,-⟩
  · have hpost := perform_connection hop
    cases op with
    | setConnectedID id => exact hpost.trans hp.1
    | connectedID => exact hpost.2.trans ho
    | _ => exact hpost.trans ho
  · exact ho

/-- `connectedID` is what the calls that have returned say, until a call that opens or ends a
connection comes to its end. -/
structure Recorded (o : Office) : Prop where
  listener : ∀ p, o.listener = some p → p.Uses TcpOp.KeepsConnection
  idle : o.user = none → o.connectedID = o.recorded
  call : ∀ c p, o.user = some (c,p) →
    p.Sat connection (fun r t => t = connectionAfter o.recorded (c,r)) o.connectedID
  ended : ∀ c p, o.user = some (c,p) → ¬ c.Opens →
    p.Uses TcpOp.NoConnect ∧ (o.recorded = -1 → o.connectedID = -1)
  transfer : ∀ c p, o.user = some (c,p) → c.Transfers →
    p.Uses TcpOp.KeepsConnection ∧ o.connectedID = o.recorded

theorem Recorded.aside (h : o.Recorded) (hid : o'.connectedID = o.connectedID)
    (huser : o'.user = o.user) (hlog : o'.log = o.log)
    (hlistener : ∀ p, o'.listener = some p → p.Uses TcpOp.KeepsConnection) : o'.Recorded := by
  have hrec : o'.recorded = o.recorded := by rw [recorded, recorded, hlog]
  constructor
  · exact hlistener
  · simpa only [hid, huser, hrec] using h.idle
  · simpa only [hid, huser, hrec] using h.call
  · simpa only [hid, huser, hrec] using h.ended
  · simpa only [hid, huser, hrec] using h.transfer

theorem Recorded.step {l : OfficeStep} (h : o.Recorded) (hstep : o.step l = some (o',sent)) :
    o'.Recorded := by
  cases step_cases hstep with
  | call c huser =>
    have hid := h.idle huser
    refine ⟨h.listener,fun hu => (nomatch hu),?_,?_,?_⟩
    · rintro _ _ ⟨⟩
      exact hid ▸ connection_call o.id c
    · rintro _ _ ⟨⟩ hc
      exact ⟨call_noConnect o.id hc,fun hrec => hid.trans hrec⟩
    · rintro _ _ ⟨⟩ hc
      exact ⟨(plain_call o.id hc).mono fun _ h => h.keepsConnection,hid⟩
  | listen =>
    refine h.aside rfl rfl rfl ?_
    rintro _ ⟨⟩
    exact listener_keeps
  | @user answers c p q o₁ sent huser hadv =>
    have hsame := advance_sameThreads hadv
    have hrec : o₁.recorded = o.recorded := by rw [recorded, recorded, hsame.log]
    refine ⟨?_,fun hu => (nomatch hu),?_,?_,?_⟩
    · rw [hsame.listener]
      exact h.listener
    · rintro _ _ ⟨⟩
      have hq := advance_connection hadv (hrec ▸ h.call c p huser)
      exact hq
    · rintro _ _ ⟨⟩ hc
      obtain ⟨hp,hid⟩ := h.ended c p huser hc
      have hend : o.connectedID = -1 → o₁.connectedID = -1 := advance_noConnect hadv hp
      exact ⟨advance_uses hadv hp,fun hr => hend (hid (hrec.symm.trans hr))⟩
    · rintro _ _ ⟨⟩ hc
      obtain ⟨hp,hid⟩ := h.transfer c p huser hc
      exact ⟨advance_uses hadv hp,(advance_keeps hadv hp).trans (hid.trans hrec.symm)⟩
  | @listener answers p q o₁ sent hlistener hadv =>
    have hsame := advance_sameThreads hadv
    have hp := h.listener p hlistener
    have hid : o₁.connectedID = o.connectedID := advance_keeps hadv hp
    refine h.aside hid hsame.user hsame.log ?_
    rintro _ ⟨⟩
    exact advance_uses hadv hp
  | @userReturns c r huser =>
    refine ⟨h.listener,fun _ => ?_,fun _ _ hu => (nomatch hu),fun _ _ hu => (nomatch hu),
      fun _ _ hu => (nomatch hu)⟩
    have hret : o.connectedID = connectionAfter o.recorded (c,r) := h.call c _ huser
    simpa [recorded, List.foldl_append] using hret
  | listenerReturns =>
    refine h.aside rfl rfl rfl ?_
    rintro _ ⟨⟩
  | wakeUp => exact h.aside rfl rfl rfl h.listener
  | elapse => exact h.aside rfl rfl rfl h.listener
  | arrive => exact h.aside rfl rfl rfl h.listener

theorem Recorded.new (h : o.New) : o.Recorded := by
  obtain ⟨hid,-,-,-,-,huser,hlistener,hlog,-⟩ := h
  refine ⟨?_,fun _ => by rw [hid, recorded, hlog]; rfl,?_,?_,?_⟩
  · simp [hlistener]
  · simp [huser]
  · simp [huser]
  · simp [huser]

theorem recorded_of_reachable (h : offices.Reachable o) : o.Recorded :=
  h.invariant (fun _ hnew => .new hnew) fun _ _ _ hs ⟨_,hstep⟩ => hs.step hstep

/-- The calls that have returned since. -/
def callsSince (o₀ o : Office) : List (TcpCall × CallResult) := o.log.drop o₀.log.length

theorem log_since {o₀ : Office} (h : (offices.startAt o₀).Reachable o) :
    o.log = o₀.log ++ o₀.callsSince o := by
  have hfront : o₀.log <+: o.log := by
    refine h.invariant (P := fun o => o₀.log <+: o.log) ?_ ?_
    · rintro _ rfl
      exact List.prefix_rfl
    · rintro s l t hs ⟨sent,hstep⟩
      cases step_cases hstep with
      | user huser hadv => exact (advance_sameThreads hadv).log ▸ hs
      | listener hlistener hadv => exact (advance_sameThreads hadv).log ▸ hs
      | userReturns => exact hs.trans (List.prefix_append _ _)
      | call | listen | listenerReturns | wakeUp | elapse | arrive => exact hs
  obtain ⟨calls,hcalls⟩ := hfront
  rw [callsSince, ← hcalls, List.drop_left]

end Office

/-- What the calls that need a connection return without one. -/
def TcpCall.failure : TcpCall → CallResult
  | .sendString _ | .sendFile _ | .receiveFile _ => .status false
  | .receiveString => .text none
  | _ => .id (-1)

/-- There is no connection: transfers fail at once, and a connection can be opened. -/
structure TornDown (o : Office) : Prop where
  connectedID : o.connectedID = -1
  fails : ∀ c answers, c.Transfers → o.user = none →
    o.steps [.call c,.run .user answers,.finish .user] =
      some { o with log := o.log ++ [(c,c.failure)], waiting := false, pauses := 0, taken := [] }
  syncs : ∀ target answers, o.user = none → ∃ o' m next,
    o.steps [.call (.syncWithMachine target),.run .user answers,.run .user answers] = some o' ∧
      o'.user = some (.syncWithMachine target,.act (.send m) next)
  opens : ∀ answers, o.user = none → ∃ o' next,
    o.steps [.call .openConnection,.run .user answers] = some o' ∧
      o'.user = some (.openConnection,.act (.receive .sync) next)

theorem tornDown_iff (o : Office) : TornDown o ↔ o.connectedID = -1 := by
  refine ⟨fun h => h.connectedID,fun h => ?_⟩
  obtain ⟨id,connectedID,stopping,stopSem,waitSem,wakeUps,now,boxes,user,listener,log,listened,
    waiting,scheduledAt,pauses,taken,heard⟩ := o
  cases h
  refine ⟨rfl,?_,?_,?_⟩
  · rintro c answers hc ⟨⟩
    cases c with
    | syncWithMachine | openConnection | endConnection => exact hc.elim
    | sendString | receiveString | sendFile | receiveFile => rfl
  · rintro target answers ⟨⟩
    exact ⟨_,_,_,rfl,rfl⟩
  · rintro answers ⟨⟩
    exact ⟨_,_,rfl,rfl⟩

def Connects (x : TcpCall × CallResult) : Prop := x.1.Opens ∧ ∃ r, x.2 = .id r ∧ r ≠ -1

def Ends (x : TcpCall × CallResult) : Prop := x.1 = .endConnection ∧ ∃ r, x.2 = .id r ∧ r ≠ -1

/-- Among the calls there is an `EndConnection` that has ended the connection, and none after it
has opened another one. -/
def EndedItself (calls : List (TcpCall × CallResult)) : Prop :=
  ∃ before x after, calls = before ++ x :: after ∧ Ends x ∧ ∀ y ∈ after, ¬ Connects y

theorem connectionAfter_eq {c : ℤ} {x : TcpCall × CallResult} :
    connectionAfter c x = -1 ↔ Ends x ∨ (c = -1 ∧ ¬ Connects x) := by
  obtain ⟨call,result⟩ := x
  cases call <;> cases result <;> simp [connectionAfter, Ends, Connects, TcpCall.Opens]
  case endConnection.id r => by_cases hr : r = -1 <;> simp [hr]
  all_goals
    split <;> simp_all

theorem endedItself_append {calls : List (TcpCall × CallResult)} {x : TcpCall × CallResult} :
    EndedItself (calls ++ [x]) ↔ Ends x ∨ (EndedItself calls ∧ ¬ Connects x) := by
  constructor
  · rintro ⟨before,y,after,heq,hy,hafter⟩
    rcases List.eq_nil_or_concat after with rfl | ⟨after',z,rfl⟩
    · obtain ⟨-,hxy⟩ := List.append_inj' heq rfl
      cases hxy
      exact .inl hy
    · rw [List.concat_eq_append] at heq hafter
      rw [← List.cons_append, ← List.append_assoc] at heq
      obtain ⟨rfl,hxz⟩ := List.append_inj' heq rfl
      cases hxz
      exact .inr ⟨⟨before,y,after',rfl,hy,fun z hz => hafter z (by simp [hz])⟩,
        hafter x (by simp)⟩
  · rintro (hx | ⟨⟨before,y,after,rfl,hy,hafter⟩,hx⟩)
    · exact ⟨calls,x,[],rfl,hx,by simp⟩
    · refine ⟨before,y,after ++ [x],by simp,hy,fun z hz => ?_⟩
      rcases List.mem_append.mp hz with hz | hz
      · exact hafter z hz
      · exact List.mem_singleton.mp hz ▸ hx

theorem foldl_connectionAfter {c : ℤ} (hc : c ≠ -1) (calls : List (TcpCall × CallResult)) :
    calls.foldl connectionAfter c = -1 ↔ EndedItself calls := by
  induction calls using List.reverseRecOn with
  | nil =>
    refine iff_of_false hc ?_
    rintro ⟨before,y,after,heq,-⟩
    simp at heq
  | append_singleton calls x ih =>
    rw [List.foldl_append, List.foldl_cons, List.foldl_nil, connectionAfter_eq, ih,
      endedItself_append]

/-- Two machines connected to each other; the user of the second is not about to change that. -/
structure Connected (w : Machines) (a b : ℤ) : Prop where
  left : (w.office a).connectedID = b
  right : (w.office b).connectedID = a
  left_ne : a ≠ -1
  right_ne : b ≠ -1
  settled : ∀ c p, (w.office b).user = some (c,p) → c.Transfers

/-- Since `w₀`, `EndConnection` on `a` has returned the id of `b`, and the listener of `b` has
returned. -/
structure EndReturned (w₀ w : Machines) (a b : ℤ) : Prop where
  idle : (w.office a).user = none
  ended : ∃ calls, (w₀.office a).callsSince (w.office a) = calls ++ [(.endConnection,.id b)]
  listened : (w₀.office b).listened < (w.office b).listened

/-- The calls of the user of a machine since `w₀` have ended its connection, and it is not about
to open another one. -/
def EndedByUser (w₀ w : Machines) (b : ℤ) : Prop :=
  EndedItself ((w₀.office b).callsSince (w.office b)) ∧
    ∀ c p, (w.office b).user = some (c,p) → ¬ c.Opens

namespace Office

theorem recorded_since {o₀ o : Office} (h : (offices.startAt o₀).Reachable o) :
    o.recorded = (o₀.callsSince o).foldl connectionAfter o₀.recorded := by
  rw [recorded, log_since h, List.foldl_append, recorded]

theorem Recorded.of_settled {o : Office} (h : o.Recorded)
    (hs : ∀ c p, o.user = some (c,p) → c.Transfers) : o.connectedID = o.recorded := by
  cases huser : o.user with
  | none => exact h.idle huser
  | some cp => exact (h.transfer cp.1 cp.2 huser (hs cp.1 cp.2 huser)).2

theorem Recorded.of_ended {o : Office} (h : o.Recorded)
    (hs : ∀ c p, o.user = some (c,p) → ¬ c.Opens) (hr : o.recorded = -1) :
    o.connectedID = -1 := by
  cases huser : o.user with
  | none => exact (h.idle huser).trans hr
  | some cp => exact (h.ended cp.1 cp.2 huser (hs cp.1 cp.2 huser)).2 hr

end Office

/-- Both machines are back to having no connection if the user of `b` has ended it too, and
otherwise they are not, as the listener does not. -/
theorem teardown {w₀ w : Machines} {a b : ℤ} (h₀ : machines.Reachable w₀)
    (hc : Connected w₀ a b) (h : (machines.startAt w₀).Reachable w) (hr : EndReturned w₀ w a b) :
    (EndedByUser w₀ w b → TornDown (w.office a) ∧ TornDown (w.office b)) ∧
      ((∀ c p, (w.office b).user = some (c,p) → c.Transfers) →
        TornDown (w.office a) ∧ TornDown (w.office b) → EndedByUser w₀ w b) := by
  have hreach := h₀.startAt h
  have hrec := Office.recorded_of_reachable (reachable_office hreach b)
  have hrec₀ := Office.recorded_of_reachable (reachable_office h₀ b)
  have ha : (w.office a).connectedID = -1 := by
    obtain ⟨calls,hcalls⟩ := hr.ended
    have hreca := Office.recorded_of_reachable (reachable_office hreach a)
    rw [hreca.idle hr.idle, Office.recorded_since (startAt_office h a), hcalls]
    rw [List.foldl_append]
    exact if_neg hc.right_ne
  -- on `b` the connection is what its own calls have made of it
  have hb : (w.office b).recorded = -1 ↔
      EndedItself ((w₀.office b).callsSince (w.office b)) := by
    rw [Office.recorded_since (startAt_office h b), ← hrec₀.of_settled hc.settled, hc.right]
    exact foldl_connectionAfter hc.left_ne _
  constructor
  · rintro ⟨hended,hopens⟩
    exact ⟨(tornDown_iff _).mpr ha,(tornDown_iff _).mpr (hrec.of_ended hopens (hb.mpr hended))⟩
  · rintro hsettled ⟨-,htorn⟩
    refine ⟨hb.mp ((hrec.of_settled hsettled).symm.trans htorn.connectedID),fun c p huser => ?_⟩
    have := hsettled c p huser
    cases c with
    | syncWithMachine | openConnection | endConnection => exact this.elim
    | sendString | receiveString | sendFile | receiveFile => exact id

theorem exists_teardown (ls : List MachinesStep) {P : Machines → Machines → Prop}
    [∀ w₀ w, Decidable (P w₀ w)]
    (h : ((Machines.new.steps (Machines.connects 0 1)).any fun w₀ => (w₀.steps ls).any fun w =>
      decide ((w₀.office 0).connectedID = 1 ∧ (w₀.office 1).connectedID = 0 ∧
        (w₀.office 1).user = none ∧ (w.office 0).user = none ∧
        (w₀.office 0).callsSince (w.office 0) = [(.endConnection,.id 1)] ∧
        (w₀.office 1).listened < (w.office 1).listened ∧ P w₀ w)) = true) :
    ∃ w₀ w, machines.Reachable w₀ ∧ Connected w₀ 0 1 ∧ (machines.startAt w₀).Reachable w ∧
      EndReturned w₀ w 0 1 ∧ P w₀ w := by
  simp only [Option.any_eq_true, decide_eq_true_eq] at h
  obtain ⟨w₀,hw₀,w,hw,hleft,hright,hsettled,hidle,hended,hlistened,hP⟩ := h
  refine ⟨w₀,w,?_,⟨hleft,hright,by decide,by decide,?_⟩,startAt_steps (.start rfl) hw,
    ⟨hidle,⟨[],hended⟩,hlistened⟩,hP⟩
  · exact TransitionSystem.Reachable.startAt (.start Machines.new_new)
      (startAt_steps (.start rfl) hw₀)
  · intro c p huser
    cases hsettled.symm.trans huser

/-- Each of the two ends the connection while the other listens. -/
theorem teardown_both : ∃ w₀ w : Machines, Connected w₀ 0 1 ∧ EndReturned w₀ w 0 1 ∧
    TornDown (w.office 0) ∧ TornDown (w.office 1) := by
  obtain ⟨w₀,w,h₀,hc,h,hr,hcalls,huser⟩ := exists_teardown
    (Machines.ends 1 0 ++ Machines.ends 0 1) (P := fun w₀ w =>
      (w₀.office 1).callsSince (w.office 1) = [(.endConnection,.id 0)] ∧
        (w.office 1).user = none) (by decide +kernel)
  refine ⟨w₀,w,hc,hr,(teardown h₀ hc h hr).1 ⟨⟨[],_,[],hcalls,⟨rfl,0,rfl,by decide⟩,by simp⟩,?_⟩⟩
  intro c p hp
  cases huser.symm.trans hp

/-- `EndConnection` on machine 0 returns 1 and the listener of machine 1 returns, which stays
connected to 0. -/
theorem not_teardown : ∃ w₀ w : Machines, machines.Reachable w₀ ∧ Connected w₀ 0 1 ∧
    (machines.startAt w₀).Reachable w ∧ EndReturned w₀ w 0 1 ∧
    (w.office 1).user = none ∧ ¬ (TornDown (w.office 0) ∧ TornDown (w.office 1)) := by
  obtain ⟨w₀,w,h₀,hc,h,hr,huser,hid⟩ := exists_teardown (Machines.ends 0 1)
    (P := fun _ w => (w.office 1).user = none ∧ (w.office 1).connectedID = 0) (by decide +kernel)
  refine ⟨w₀,w,h₀,hc,h,hr,huser,fun ⟨_,htorn⟩ => ?_⟩
  cases hid.symm.trans htorn.connectedID

end Nachos
