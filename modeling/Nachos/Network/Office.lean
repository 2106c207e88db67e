import Nachos.Network.TCP
import Nachos.Library.Run
import Mathlib.Logic.Function.Basic

/-! # A machine that runs a reliable post office

One user thread calls the public functions one after the other, and a second thread may
listen for the end of the connection. Threads are interleaved at every operation; mail
arrives, time passes and wake-ups happen between any two of them.
-/
namespace Nachos

/-- The public functions, without `ListenForEndConnection`. -/
inductive TcpCall where
  | syncWithMachine (targetMachine : ℤ)
  | openConnection
  | endConnection
  | sendString (data : List Byte)
  | receiveString
  | sendFile (filename : List Byte)
  | receiveFile (savename : List Byte)
  deriving DecidableEq, Repr

inductive CallResult where
  | id (id : ℤ)
  | status (status : Bool)
  | text (text : Option (List Byte))
  deriving DecidableEq, Repr

def TcpCall.prog (id : ℤ) : TcpCall → TcpProg CallResult
  | syncWithMachine targetMachine => do return .id (← Nachos.syncWithMachine id targetMachine)
  | openConnection => do return .id (← Nachos.openConnection id)
  | endConnection => do return .id (← Nachos.endConnection id)
  | sendString data => do return .status (← Nachos.sendString data)
  | receiveString => do return .text (← Nachos.receiveString)
  | sendFile filename => do return .status (← Nachos.sendFile filename)
  | receiveFile savename => do return .status (← Nachos.receiveFile savename)

/-- A `TCPostOffice` and its machine. `wakeUps` holds the times at which `WakeUpHandler` is
due. The last fields record the calls that have returned, the number of times the listener
has, whether the user thread is between `Schedule` and the end of its last `P`, when it last
called `Schedule`, of its call in progress the pauses made and the mails taken into a message,
and the `STOP` the listener took last. -/
structure Office where
  id : ℤ
  connectedID : ℤ
  stoppingConnection : Bool
  stopSem : ℕ
  waitSem : ℕ
  wakeUps : List ℕ
  now : ℕ
  boxes : PktType → List TcpMail
  user : Option (TcpCall × TcpProg CallResult)
  listener : Option (TcpProg Unit)
  log : List (TcpCall × CallResult)
  listened : ℕ
  waiting : Bool
  scheduledAt : ℕ
  pauses : ℕ
  taken : List (PktType × TcpMail)
  heard : Option TcpMail

inductive TcpThread where
  | user
  | listener
  deriving DecidableEq, Repr

/-- What the file system and the memory answer. -/
structure Answers where
  opened : Bool
  length : ℕ
  bytes : List Byte

namespace Office

def take (thread : TcpThread) (box : PktType) (into : Destination) (mail : TcpMail)
    (rest : List TcpMail) (o : Office) : Office :=
  { o with
    boxes := Function.update o.boxes box rest
    taken := if thread = .user ∧ into = .message then o.taken ++ [(box,mail)] else o.taken
    heard := if thread = .listener ∧ into = .message then some mail else o.heard }

def put (box : PktType) (mail : TcpMail) (o : Office) : Office :=
  { o with boxes := Function.update o.boxes box (o.boxes box ++ [mail]) }

/-- A message of the user thread as the other side sees it. -/
def mail (o : Office) (m : Message) : TcpMail := ⟨o.id,m.payload,o.log.length,o.pauses⟩

/-- One operation of a thread: the response, and the message sent, if there is one. -/
def perform (thread : TcpThread) (answers : Answers) (o : Office) :
    (op : TcpOp) → Option (op.Resp × Office × Option Message)
  | .connectedID => some (o.connectedID,o,none)
  | .setConnectedID id => some ((),{ o with connectedID := id },none)
  | .stoppingConnection => some (o.stoppingConnection,o,none)
  | .setStoppingConnection b => some ((),{ o with stoppingConnection := b },none)
  | .schedule ticks => some ((),{ o with
      wakeUps := o.wakeUps ++ [o.now + ticks]
      waiting := if thread = .user then true else o.waiting
      scheduledAt := if thread = .user then o.now else o.scheduledAt
      pauses := if thread = .user ∧ ticks = pauseTicks then o.pauses + 1 else o.pauses },none)
  | .stopSemP => if 0 < o.stopSem then some ((),{ o with stopSem := o.stopSem - 1 },none) else none
  | .stopSemV => some ((),{ o with stopSem := o.stopSem + 1 },none)
  | .waitSemP =>
    if 0 < o.waitSem then some ((),{ o with
      waitSem := o.waitSem - 1
      waiting := if thread = .user then false else o.waiting },none)
    else none
  | .send m => some ((),o,some m)
  | .noBlockReceive box into =>
    match o.boxes box with
    | [] => some (none,o,none)
    | mail :: rest => some (some mail,o.take thread box into mail rest,none)
  | .receive box =>
    match o.boxes box with
    | [] => none
    | mail :: rest => some (mail,o.take thread box .message mail rest,none)
  | .fileOpen _ => some (answers.opened,o,none)
  | .fileLength => some (answers.length,o,none)
  | .fileRead _ => some (answers.bytes,o,none)
  | .fileCreate _ _ => some ((),o,none)
  | .fileWrite _ => some ((),o,none)
  | .memory => some (answers.bytes,o,none)
  | .behind => some (answers.bytes,o,none)
  | .crash => none

/-- A step of a program: a round of a loop, or an operation. -/
def advance {α : Type} (thread : TcpThread) (answers : Answers) (o : Office) :
    TcpProg α → Option (TcpProg α × Office × Option Message)
  | .ret _ => none
  | .act op next =>
    (o.perform thread answers op).map fun (r,o,sent) => (next r,o,sent)
  | .loop body x next => some (Prog.unroll body x next,o,none)

/-- What no operation changes. -/
structure SameThreads (o o' : Office) : Prop where
  id : o'.id = o.id
  user : o'.user = o.user
  listener : o'.listener = o.listener
  log : o'.log = o.log
  listened : o'.listened = o.listened

variable {thread : TcpThread} {answers : Answers} {o o' : Office} {sent : Option Message}

theorem perform_sameThreads {op : TcpOp} {r : op.Resp}
    (h : o.perform thread answers op = some (r,o',sent)) : SameThreads o o' := by
  cases op with
  | stopSemP | waitSemP | noBlockReceive | receive =>
    simp only [perform] at h
    split at h <;> cases h <;> exact ⟨rfl,rfl,rfl,rfl,rfl⟩
  | crash => cases h
  | connectedID | setConnectedID | stoppingConnection | setStoppingConnection | schedule
    | stopSemV | send | fileOpen | fileLength | fileRead | fileCreate | fileWrite | memory
    | behind =>
    cases h
    exact ⟨rfl,rfl,rfl,rfl,rfl⟩

theorem advance_cases {α : Type} {p q : TcpProg α}
    (h : o.advance thread answers p = some (q,o',sent)) :
    (∃ op next r, p = .act op next ∧ q = next r ∧
      o.perform thread answers op = some (r,o',sent)) ∨
      (p.silent = some q ∧ o' = o ∧ sent = none) := by
  cases p with
  | ret a => cases h
  | act op next =>
    obtain ⟨⟨r,o₁,sent₁⟩,hop,heq⟩ := Option.map_eq_some_iff.mp h
    cases heq
    exact .inl ⟨op,next,r,rfl,rfl,hop⟩
  | loop body x next =>
    cases h
    exact .inr ⟨rfl,rfl,rfl⟩

theorem advance_sameThreads {α : Type} {p q : TcpProg α}
    (h : o.advance thread answers p = some (q,o',sent)) : SameThreads o o' := by
  rcases advance_cases h with ⟨op,next,r,-,-,hop⟩ | ⟨-,rfl,-⟩
  · exact perform_sameThreads hop
  · exact ⟨rfl,rfl,rfl,rfl,rfl⟩

theorem advance_uses {α : Type} {p q : TcpProg α} {P : TcpOp → Prop}
    (h : o.advance thread answers p = some (q,o',sent)) (hp : p.Uses P) : q.Uses P := by
  rcases advance_cases h with ⟨op,next,r,rfl,rfl,-⟩ | ⟨hq,-,-⟩
  · exact hp.2 r
  · exact hp.silent hq

theorem advance_sat {σ α : Type} {C : Contract TcpOp TcpOp.Resp σ} {R : Office → σ → Prop}
    {p q : TcpProg α} {Q : α → σ → Prop} {s : σ}
    (h : o.advance thread answers p = some (q,o',sent)) (hp : p.Sat C Q s) (hs : R o s)
    (hop : ∀ op r, o.perform thread answers op = some (r,o',sent) → C.pre op s →
      ∃ t, C.post op s r t ∧ R o' t) :
    ∃ t, q.Sat C Q t ∧ R o' t := by
  rcases advance_cases h with ⟨op,next,r,rfl,rfl,hperform⟩ | ⟨hq,rfl,-⟩
  · obtain ⟨t,hpost,ht⟩ := hop op r hperform hp.1
    exact ⟨t,hp.next hpost,ht⟩
  · exact ⟨s,hp.silent hq,hs⟩

end Office

inductive OfficeStep where
  | call (c : TcpCall)
  | listen
  | run (thread : TcpThread) (answers : Answers)
  | finish (thread : TcpThread)
  /-- `WakeUpHandler`, for the wake-up in this place. -/
  | wakeUp (k : ℕ)
  | elapse (ticks : ℕ)
  | arrive (box : PktType) (mail : TcpMail)

namespace Office

/-- A step, with the message it sends. -/
def step (o : Office) : OfficeStep → Option (Office × Option Message)
  | .call c =>
    match o.user with
    | none => some ({ o with
      user := some (c,c.prog o.id)
      pauses := 0
      taken := [] },none)
    | some _ => none
  | .listen =>
    match o.listener with
    | none => some ({ o with listener := some listenForEndConnection },none)
    | some _ => none
  | .run .user answers =>
    match o.user with
    | none => none
    | some (c,p) =>
      (o.advance .user answers p).map fun (p,o,sent) => ({ o with user := some (c,p) },sent)
  | .run .listener answers =>
    match o.listener with
    | none => none
    | some p =>
      (o.advance .listener answers p).map fun (p,o,sent) => ({ o with listener := some p },sent)
  | .finish .user =>
    match o.user with
    | some (c,.ret r) => some ({ o with user := none, log := o.log ++ [(c,r)], waiting := false },none)
    | _ => none
  | .finish .listener =>
    match o.listener with
    | some (.ret _) => some ({ o with listener := none, listened := o.listened + 1 },none)
    | _ => none
  | .wakeUp k =>
    match o.wakeUps[k]? with
    | none => none
    | some time =>
      if time ≤ o.now then some ({ o with
        wakeUps := o.wakeUps.eraseIdx k
        waitSem := o.waitSem + 1
        stopSem := o.stopSem + 1 },none)
      else none
  | .elapse ticks => some ({ o with now := o.now + ticks },none)
  | .arrive box mail => some (o.put box mail,none)

inductive Steps (o : Office) : OfficeStep → Office → Option Message → Prop
  | call (c : TcpCall) : o.user = none → Steps o (.call c)
      { o with user := some (c,c.prog o.id), pauses := 0, taken := [] } none
  | listen : o.listener = none →
      Steps o .listen { o with listener := some listenForEndConnection } none
  | user {answers : Answers} {c : TcpCall} {p q : TcpProg CallResult} {o₁ : Office}
      {sent : Option Message} : o.user = some (c,p) →
      o.advance .user answers p = some (q,o₁,sent) →
      Steps o (.run .user answers) { o₁ with user := some (c,q) } sent
  | listener {answers : Answers} {p q : TcpProg Unit} {o₁ : Office} {sent : Option Message} :
      o.listener = some p → o.advance .listener answers p = some (q,o₁,sent) →
      Steps o (.run .listener answers) { o₁ with listener := some q } sent
  | userReturns {c : TcpCall} {r : CallResult} : o.user = some (c,.ret r) →
      Steps o (.finish .user)
        { o with user := none, log := o.log ++ [(c,r)], waiting := false } none
  | listenerReturns {r : Unit} : o.listener = some (.ret r) →
      Steps o (.finish .listener) { o with listener := none, listened := o.listened + 1 } none
  | wakeUp {k time : ℕ} : o.wakeUps[k]? = some time → time ≤ o.now →
      Steps o (.wakeUp k) { o with
        wakeUps := o.wakeUps.eraseIdx k
        waitSem := o.waitSem + 1
        stopSem := o.stopSem + 1 } none
  | elapse (ticks : ℕ) : Steps o (.elapse ticks) { o with now := o.now + ticks } none
  | arrive (box : PktType) (mail : TcpMail) : Steps o (.arrive box mail) (o.put box mail) none

theorem step_cases {o o' : Office} {l : OfficeStep} {sent : Option Message}
    (h : o.step l = some (o',sent)) : o.Steps l o' sent := by
  cases l with
  | call c =>
    simp only [step] at h
    split at h
    case h_1 huser =>
      cases h
      exact .call c huser
    case h_2 => cases h
  | listen =>
    simp only [step] at h
    split at h
    case h_1 hlistener =>
      cases h
      exact .listen hlistener
    case h_2 => cases h
  | run thread answers =>
    cases thread with
    | user =>
      simp only [step] at h
      split at h
      case h_1 => cases h
      case h_2 c p huser =>
        obtain ⟨⟨q,o₁,sent₁⟩,hadv,heq⟩ := Option.map_eq_some_iff.mp h
        cases heq
        exact .user huser hadv
    | listener =>
      simp only [step] at h
      split at h
      case h_1 => cases h
      case h_2 p hlistener =>
        obtain ⟨⟨q,o₁,sent₁⟩,hadv,heq⟩ := Option.map_eq_some_iff.mp h
        cases heq
        exact .listener hlistener hadv
  | finish thread =>
    cases thread with
    | user =>
      simp only [step] at h
      split at h
      case h_1 c r huser =>
        cases h
        exact .userReturns huser
      case h_2 => cases h
    | listener =>
      simp only [step] at h
      split at h
      case h_1 r hlistener =>
        cases h
        exact .listenerReturns hlistener
      case h_2 => cases h
  | wakeUp k =>
    simp only [step] at h
    split at h
    · cases h
    case h_2 time hk =>
      split at h
      case isTrue hdue =>
        cases h
        exact .wakeUp hk hdue
      case isFalse => cases h
  | elapse ticks =>
    cases h
    exact .elapse ticks
  | arrive box mail =>
    cases h
    exact .arrive box mail

/-- `new TCPostOffice`, in a machine that has run for some time. -/
def New (o : Office) : Prop :=
  o.connectedID = -1 ∧ o.stoppingConnection = false ∧ o.stopSem = 0 ∧ o.waitSem = 0 ∧
    o.wakeUps = [] ∧ o.user = none ∧ o.listener = none ∧ o.log = [] ∧ o.listened = 0 ∧
    o.waiting = false

def new (id : ℤ) : Office where
  id := id
  connectedID := -1
  stoppingConnection := false
  stopSem := 0
  waitSem := 0
  wakeUps := []
  now := 0
  boxes _ := []
  user := none
  listener := none
  log := []
  listened := 0
  waiting := false
  scheduledAt := 0
  pauses := 0
  taken := []
  heard := none

theorem new_new (id : ℤ) : (new id).New := ⟨rfl,rfl,rfl,rfl,rfl,rfl,rfl,rfl,rfl,rfl⟩

def steps (o : Office) : List OfficeStep → Option Office
  | [] => some o
  | l :: ls => (o.step l).bind fun (o,_) => o.steps ls

end Office

/-- The runs of one machine, whatever mail arrives. -/
def offices : TransitionSystem Office OfficeStep where
  init := Office.New
  step o l o' := ∃ sent, o.step l = some (o',sent)

theorem reachable_steps {ok : Office → OfficeStep → Prop} {o o' : Office} {ls : List OfficeStep}
    (h : (offices.guard ok).Reachable o) (hok : ∀ l ∈ ls, ∀ o, ok o l)
    (hsteps : o.steps ls = some o') : (offices.guard ok).Reachable o' := by
  induction ls generalizing o with
  | nil =>
    cases hsteps
    exact h
  | cons l ls ih =>
    obtain ⟨⟨o₁,sent⟩,hstep,hrest⟩ := Option.bind_eq_some_iff.mp hsteps
    exact ih (h.step ⟨hok l List.mem_cons_self o,sent,hstep⟩)
      (fun l hl => hok l (List.mem_cons_of_mem _ hl)) hrest

end Nachos
