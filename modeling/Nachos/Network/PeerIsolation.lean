import Nachos.Network.Teardown

/-! # Mail from other machines

A mailbox is shared by all senders, and no function of a post office looks at the address a mail
comes from. As long as a machine gets packets from its peer alone, it acts on the mail of the
peer alone.
-/
namespace Nachos

/-- Whom a call talks to, with what it has taken into messages. -/
def peerOf (call : Option TcpCall) (connectedID : ℤ) (taken : List (PktType × TcpMail)) :
    Option ℤ :=
  if connectedID ≠ -1 then some connectedID
  else match call with
    | some (.syncWithMachine targetMachine) => some targetMachine
    | some .openConnection => taken.head?.map fun x => x.2.fromAddr
    | _ => none

section Peer
variable {call : Option TcpCall} {connectedID p : ℤ} {taken : List (PktType × TcpMail)}

theorem peerOf_of_ne (h : connectedID ≠ -1) : peerOf call connectedID taken = some connectedID :=
  if_pos h

theorem peerOf_append (h : peerOf call connectedID taken = some p) (x : PktType × TcpMail) :
    peerOf call connectedID (taken ++ [x]) = some p := by
  unfold peerOf at h ⊢
  by_cases hc : connectedID ≠ -1
  · rw [if_pos hc] at h ⊢
    exact h
  · rw [if_neg hc] at h ⊢
    cases taken with
    | cons y ys => exact h
    | nil =>
      split at h
      · exact h
      · cases h
      · cases h

/-- Storing the id of the peer does not change the peer. -/
theorem peerOf_set (h : peerOf call connectedID taken = some p) :
    peerOf call p taken = some p := by
  by_cases hp : p = -1
  · by_cases hc : connectedID = -1
    · subst hp hc
      exact h
    · rw [peerOf_of_ne hc] at h
      exact absurd ((Option.some_inj.mp h).trans hp) hc
  · exact peerOf_of_ne hp

end Peer

def PktType.all : List PktType := [.msg,.stringInfo,.fileInfo,.processInfo,.sync,.ack,.stop]

theorem PktType.mem_all (box : PktType) : box ∈ all := by cases box <;> decide

namespace Office

/-- The machine a post office is connected or connecting to. -/
def peer (o : Office) : Option ℤ := peerOf (o.user.map Prod.fst) o.connectedID o.taken

/-- The `STOP` the listener has received. -/
def answered (o : Office) : Option TcpMail :=
  match o.listener with
  | none => none
  | some (.act (.receive _) _) => none
  | some _ => o.heard

/-- What lies in the mailboxes comes from one machine, and so does the `STOP` received. -/
def OnlyFrom (o : Office) (p : ℤ) : Prop :=
  (∀ box, ∀ m ∈ o.boxes box, m.fromAddr = p) ∧ ∀ m ∈ o.answered, m.fromAddr = p

def operation (o : Office) : OfficeStep → Option TcpOp
  | .run .user _ =>
    match o.user with
    | some (_,.act op _) => some op
    | _ => none
  | .run .listener _ =>
    match o.listener with
    | some (.act op _) => some op
    | _ => none
  | _ => none

/-- The machine a step begins to connect to. -/
def startsWith (o : Office) : OfficeStep → Option ℤ
  | .call (.syncWithMachine targetMachine) =>
    if o.connectedID = -1 then some targetMachine else none
  | .run .user answers =>
    match o.operation (.run .user answers) with
    | some (.receive box) => (o.boxes box).head?.map (·.fromAddr)
    | _ => none
  | _ => none

/-- Every mail taken into a message comes from the peer, the id of the peer is what is stored in
`connectedID`, and it is a `STOP` of the peer that sets `stoppingConnection`. -/
structure ActsOnPeer (o : Office) (l : OfficeStep) (o' : Office) : Prop where
  taken : ∀ x, o'.taken = o.taken ++ [x] → o'.peer = some x.2.fromAddr
  stored : o'.connectedID ≠ o.connectedID → o'.connectedID ≠ -1 → o.peer = some o'.connectedID
  stop : o.operation l = some (.setStoppingConnection true) →
    ∀ p, o.peer = some p → ∃ m, o.answered = some m ∧ m.fromAddr = p

/-- No mail of another machine comes to a machine that has a peer, or is there when it begins to
connect. -/
def Secluded (o : Office) : OfficeStep → Prop
  | .arrive _ mail => ∀ p ∈ o.peer, mail.fromAddr = p
  | l => ∀ p ∈ o.startsWith l, o.OnlyFrom p

instance (o : Office) (p : ℤ) : Decidable (o.OnlyFrom p) :=
  decidable_of_iff ((∀ box ∈ PktType.all, ∀ m ∈ o.boxes box, m.fromAddr = p) ∧
      ∀ m ∈ o.answered, m.fromAddr = p)
    (and_congr_left fun _ => ⟨fun h box => h box box.mem_all,fun h box _ => h box⟩)

instance (o : Office) : (l : OfficeStep) → Decidable (o.Secluded l)
  | .arrive _ mail => inferInstanceAs (Decidable (∀ p ∈ o.peer, mail.fromAddr = p))
  | .call c => inferInstanceAs (Decidable (∀ p ∈ o.startsWith (.call c), o.OnlyFrom p))
  | .run thread answers =>
    inferInstanceAs (Decidable (∀ p ∈ o.startsWith (.run thread answers), o.OnlyFrom p))
  | .listen | .finish _ | .wakeUp _ | .elapse _ =>
    inferInstanceAs (Decidable (∀ p ∈ none, o.OnlyFrom p))

end Office

/-- What a call may do: it takes mail when there is a peer, or a `SYNC` that makes one, and stores
the id of the peer. -/
def session (c : TcpCall) : Contract TcpOp TcpOp.Resp (ℤ × List (PktType × TcpMail)) where
  pre op s := match op with
    | .setConnectedID id =>
      peerOf (some c) s.1 s.2 = some id ∨ (c = .endConnection ∧ id = -1)
    | .setStoppingConnection b => b = false
    | .noBlockReceive _ .message => peerOf (some c) s.1 s.2 ≠ none
    | .receive _ => c = .openConnection ∧ s = (-1,[])
    | _ => True
  post op s r s' := match op with
    | .connectedID => r = s.1 ∧ s' = s
    | .setConnectedID id => s' = (id,s.2)
    | .noBlockReceive box .message =>
      match r with
      | none => s' = s
      | some mail => s' = (s.1,s.2 ++ [(box,mail)])
    | .receive box => s' = (s.1,s.2 ++ [((box,r) : PktType × TcpMail)])
    | _ => s' = s

section Calls
variable {c : TcpCall} {s : ℤ × List (PktType × TcpMail)} {p : ℤ}

/-- The functions that send and receive go on while there is a peer. -/
theorem session_plain {α : Type} {q : TcpProg α} (h : q.Uses TcpOp.Plain)
    (hs : peerOf (some c) s.1 s.2 = some p) :
    q.Sat (session c) (fun _ t => t.1 = s.1 ∧ peerOf (some c) t.1 t.2 = some p ∧
      s.2 <+: t.2) s := by
  refine h.sat (I := fun (t : ℤ × List (PktType × TcpMail)) => t.1 = s.1 ∧
    peerOf (some c) t.1 t.2 = some p ∧ s.2 <+: t.2) ?_
    ⟨rfl,hs,List.prefix_rfl⟩
  rintro op t hop ⟨hc,ht,hfront⟩
  cases op with
  | setConnectedID id => exact hop.elim
  | receive box => exact hop.elim
  | connectedID => exact ⟨trivial,fun r u hu => hu.2 ▸ ⟨hc,ht,hfront⟩⟩
  | setStoppingConnection b => exact ⟨hop,fun r u hu => (show u = t from hu) ▸ ⟨hc,ht,hfront⟩⟩
  | noBlockReceive box into =>
    cases into with
    | dull => exact ⟨trivial,fun r u hu => (show u = t from hu) ▸ ⟨hc,ht,hfront⟩⟩
    | message =>
      have hsome : peerOf (some c) t.1 t.2 ≠ none := ht ▸ Option.some_ne_none p
      refine ⟨hsome,?_⟩
      rintro (_ | mail) u hu
      · exact (show u = t from hu) ▸ ⟨hc,ht,hfront⟩
      · obtain rfl : u = (t.1,t.2 ++ [(box,mail)]) := hu
        exact ⟨hc,peerOf_append ht _,hfront.trans (List.prefix_append _ _)⟩
  | _ => exact ⟨trivial,fun r u hu => (show u = t from hu) ▸ ⟨hc,ht,hfront⟩⟩

theorem session_getConnectedID :
    getConnectedID.Sat (session c) (fun r t => r = s.1 ∧ t = s) s := ⟨trivial,fun _ _ h => h⟩

/-- A transfer ends at once when there is no connection. -/
theorem session_transfer (id : ℤ) (h : c.Transfers) :
    (c.prog id).Sat (session c) (fun _ _ => True) s := by
  have hplain := plain_call id h
  obtain ⟨next,a,hnext,hret⟩ : ∃ next a, c.prog id = .act .connectedID next ∧
      next (-1 : ℤ) = .ret a := by
    cases c with
    | syncWithMachine | openConnection | endConnection => exact h.elim
    | sendString | receiveString | sendFile | receiveFile => exact ⟨_,_,rfl,rfl⟩
  rw [hnext] at hplain ⊢
  refine ⟨trivial,?_⟩
  rintro r t ⟨rfl,rfl⟩
  by_cases hc : t.1 = -1
  · rw [hc, hret]
    trivial
  · exact (session_plain (hplain.2 t.1) (peerOf_of_ne hc)).mono fun _ _ _ => trivial

theorem session_syncWithMachine (id target : ℤ) :
    (syncWithMachine id target).Sat (session (.syncWithMachine target)) (fun _ _ => True) s := by
  refine session_getConnectedID.bind ?_
  rintro _ s ⟨rfl,rfl⟩
  split
  case isTrue => trivial
  case isFalse hc =>
    have hc : s.1 = -1 := not_not.mp hc
    have hpeer : peerOf (some (.syncWithMachine target)) s.1 s.2 = some target := by
      rw [hc]
      rfl
    refine (session_plain (plain_of_mailing (mailing_sendWait _ _ _ _)) hpeer).bind ?_
    rintro b t ⟨-,ht,-⟩
    split
    · refine (session_plain (plain_of_mailing (mailing_receiveWait _ _ _)) ht).bind ?_
      rintro - u ⟨-,hu,-⟩
      refine ⟨.inl hu,?_⟩
      intro _ v hv
      exact session_getConnectedID.mono fun _ _ _ => trivial
    · exact session_getConnectedID.mono fun _ _ _ => trivial

theorem session_openConnection (id : ℤ) (hs : s.2 = []) :
    (openConnection id).Sat (session .openConnection) (fun _ _ => True) s := by
  refine session_getConnectedID.bind ?_
  rintro _ s ⟨rfl,rfl⟩
  split
  case isTrue => trivial
  case isFalse hc =>
    have hc : s.1 = -1 := not_not.mp hc
    refine ⟨⟨rfl,Prod.ext hc hs⟩,?_⟩
    intro mail t ht
    obtain rfl : t = (s.1,s.2 ++ [((.sync,mail) : PktType × TcpMail)]) := ht
    have hpeer : peerOf (some .openConnection) s.1
        (s.2 ++ [((.sync,mail) : PktType × TcpMail)]) = some (TcpMail.fromAddr mail) := by
      rw [hc, hs]
      rfl
    refine ⟨trivial,?_⟩
    rintro - _ rfl
    refine (session_plain (plain_of_mailing (mailing_catchWithAnswer _ _)) hpeer).bind ?_
    rintro - u ⟨-,hu,-⟩
    refine (session_plain (plain_of_mailing (mailing_sendWait _ _ _ _)) hu).bind ?_
    rintro b v ⟨-,hv,-⟩
    split
    · refine ⟨.inl hv,?_⟩
      intro _ w hw
      exact session_getConnectedID.mono fun _ _ _ => trivial
    · exact session_getConnectedID.mono fun _ _ _ => trivial

theorem session_endConnection (id : ℤ) :
    (endConnection id).Sat (session .endConnection) (fun _ _ => True) s := by
  refine session_getConnectedID.bind ?_
  rintro _ s ⟨rfl,rfl⟩
  split
  case isTrue => trivial
  case isFalse hc =>
    refine session_getConnectedID.bind ?_
    rintro _ s ⟨rfl,rfl⟩
    refine ⟨rfl,?_⟩
    rintro - _ rfl
    refine (session_plain (plain_of_mailing (mailing_sendWait _ _ _ _)) (peerOf_of_ne hc)).bind ?_
    rintro b t -
    have hret : (retValue b).Sat (session .endConnection) (fun _ _ => True) t := by
      unfold retValue
      split
      · exact session_getConnectedID.mono fun _ _ _ => trivial
      · trivial
    refine hret.bind ?_
    rintro retVal u -
    refine session_getConnectedID.bind ?_
    rintro _ v -
    split
    · exact ⟨.inr ⟨rfl,rfl⟩,fun _ _ _ => trivial⟩
    · trivial

theorem session_call (id : ℤ) (c : TcpCall) (connectedID : ℤ) :
    (c.prog id).Sat (session c) (fun _ _ => True) (connectedID,[]) := by
  cases c with
  | syncWithMachine target =>
    exact (session_syncWithMachine id target).bind fun _ _ _ => trivial
  | openConnection => exact (session_openConnection id rfl).bind fun _ _ _ => trivial
  | endConnection => exact (session_endConnection id).bind fun _ _ _ => trivial
  | sendString | receiveString | sendFile | receiveFile => exact session_transfer id trivial

end Calls

/-- What the listener does when it has a `STOP`. -/
def TcpOp.Answers : TcpOp → Prop
  | .setConnectedID _ | .receive _ | .noBlockReceive _ .message => False
  | _ => True

theorem TcpOp.Answers.keepsConnection {op : TcpOp} (h : op.Answers) : op.KeepsConnection := by
  cases op with
  | setConnectedID id => exact h
  | _ => trivial

theorem answers_wait : wait.Uses TcpOp.Answers := by
  refine ⟨trivial,fun _ => ⟨trivial,fun _ => ⟨trivial,fun b => ?_⟩⟩⟩
  cases b with
  | true => trivial
  | false => exact ⟨trivial,fun _ => trivial⟩

theorem answers_catchWithAnswer (boxeID : PktType) (out : Message) :
    (catchWithAnswer boxeID out).Uses TcpOp.Answers := by
  refine ⟨trivial,fun dull => Prog.Uses.iterate ?_⟩
  rintro ⟨attempts,nbCatch,dull⟩
  dsimp only
  split
  · refine answers_wait.bind fun b => ?_
    split
    · trivial
    · have hpoll : (pollBox boxeID .dull).Uses TcpOp.Answers := Prog.Uses.perform trivial
      refine hpoll.bind ?_
      rintro (_ | mail)
      · trivial
      · dsimp only
        split
        · exact ⟨trivial,fun _ => trivial⟩
        · trivial
  · trivial

theorem listener_answers : ∃ next, listenForEndConnection = .act (.receive .stop) next ∧
    ∀ mail, (next mail).Uses TcpOp.Answers :=
  ⟨_,rfl,fun _ => ⟨trivial,fun _ => (answers_catchWithAnswer _ _).bind fun _ =>
    ⟨trivial,fun _ => ⟨trivial,fun _ => trivial⟩⟩⟩⟩

namespace Office
variable {o o' : Office} {thread : TcpThread} {answers : Answers} {sent : Option Message}
  {op : TcpOp} {c : TcpCall}

theorem mem_take {box b : PktType} {into : Destination} {mail m : TcpMail} {rest : List TcpMail}
    (hbox : o.boxes box = mail :: rest) (hm : m ∈ (o.take thread box into mail rest).boxes b) :
    m ∈ o.boxes b := by
  simp only [take] at hm
  by_cases hb : b = box
  · subst hb
    rw [Function.update_self] at hm
    rw [hbox]
    exact List.mem_cons_of_mem _ hm
  · rwa [Function.update_of_ne hb] at hm

theorem perform_boxes {r : op.Resp} (h : o.perform thread answers op = some (r,o',sent))
    {box : PktType} {m : TcpMail} (hm : m ∈ o'.boxes box) : m ∈ o.boxes box := by
  cases op with
  | noBlockReceive b into =>
    simp only [perform] at h
    split at h
    · cases h
      exact hm
    case h_2 mail rest hbox =>
      cases h
      exact mem_take hbox hm
  | receive b =>
    simp only [perform] at h
    split at h
    · cases h
    case h_2 mail rest hbox =>
      cases h
      exact mem_take hbox hm
  | stopSemP | waitSemP =>
    simp only [perform] at h
    split at h <;> cases h
    all_goals exact hm
  | crash => cases h
  | connectedID | setConnectedID | stoppingConnection | setStoppingConnection | schedule
    | stopSemV | send | fileOpen | fileLength | fileRead | fileCreate | fileWrite | memory
    | behind =>
    cases h
    exact hm

/-- Only the listener gets a `STOP`, and only in front of the other operations. -/
theorem perform_heard {r : op.Resp} (h : o.perform thread answers op = some (r,o',sent))
    (hop : thread = .user ∨ op.Answers) : o'.heard = o.heard := by
  cases op with
  | noBlockReceive b into =>
    simp only [perform] at h
    split at h
    · cases h
      rfl
    · cases h
      refine if_neg ?_
      intro hm
      obtain ⟨rfl,rfl⟩ := hm
      rcases hop with hop | hop
      · cases hop
      · exact hop
  | receive b =>
    simp only [perform] at h
    split at h
    · cases h
    · cases h
      obtain rfl : thread = .user := hop.resolve_right fun h => h
      rfl
  | stopSemP | waitSemP =>
    simp only [perform] at h
    split at h <;> cases h
    all_goals rfl
  | crash => cases h
  | connectedID | setConnectedID | stoppingConnection | setStoppingConnection | schedule
    | stopSemV | send | fileOpen | fileLength | fileRead | fileCreate | fileWrite | memory
    | behind =>
    cases h
    rfl

theorem perform_session {r : op.Resp} (h : o.perform .user answers op = some (r,o',sent)) :
    (session c).post op (o.connectedID,o.taken) r (o'.connectedID,o'.taken) := by
  cases op with
  | noBlockReceive box into =>
    simp only [perform] at h
    split at h
    · cases h
      cases into <;> rfl
    · cases h
      cases into with
      | message => rfl
      | dull => rfl
  | receive box =>
    simp only [perform] at h
    split at h
    · cases h
    · cases h
      rfl
  | stopSemP | waitSemP =>
    simp only [perform] at h
    split at h <;> cases h
    all_goals rfl
  | crash => cases h
  | connectedID =>
    cases h
    exact ⟨rfl,rfl⟩
  | setConnectedID | stoppingConnection | setStoppingConnection | schedule
    | stopSemV | send | fileOpen | fileLength | fileRead | fileCreate | fileWrite | memory
    | behind =>
    cases h
    rfl

/-- The listener leaves the connection and the messages of the user thread as they are. -/
theorem perform_listener {r : op.Resp} (h : o.perform .listener answers op = some (r,o',sent))
    (hop : op.KeepsConnection) : o'.connectedID = o.connectedID ∧ o'.taken = o.taken := by
  cases op with
  | setConnectedID id => exact hop.elim
  | stopSemP | waitSemP | noBlockReceive | receive =>
    simp only [perform] at h
    split at h <;> cases h <;> exact ⟨rfl,rfl⟩
  | crash => cases h
  | connectedID | stoppingConnection | setStoppingConnection | schedule
    | stopSemV | send | fileOpen | fileLength | fileRead | fileCreate | fileWrite | memory
    | behind =>
    cases h
    exact ⟨rfl,rfl⟩

theorem answered_heard {m : TcpMail} (h : o.answered = some m) : o.heard = some m := by
  unfold answered at h
  split at h
  · cases h
  · cases h
  · exact h

theorem answered_eq {q : TcpProg Unit} (hl : o.listener = some q) (hq : q.Uses TcpOp.Answers) :
    o.answered = o.heard := by
  unfold answered
  split
  case h_1 hnone => cases hl.symm.trans hnone
  case h_2 box next hact =>
    obtain rfl := Option.some_inj.mp (hl.symm.trans hact)
    exact hq.1.elim
  case h_3 => rfl

/-- The machine gets mail of its peer alone, and its threads keep to their contracts. -/
structure Confined (o : Office) : Prop where
  only : ∀ p, o.peer = some p → o.OnlyFrom p
  user : ∀ c q, o.user = some (c,q) → q.Sat (session c) (fun _ _ => True) (o.connectedID,o.taken)
  listener : ∀ q, o.listener = some q →
    q = listenForEndConnection ∨ q.Uses TcpOp.Answers ∧ o.heard ≠ none

theorem OnlyFrom.mono {p : ℤ} (h : o.OnlyFrom p)
    (hboxes : ∀ {box m}, m ∈ o'.boxes box → m ∈ o.boxes box)
    (hheard : ∀ m, o'.answered = some m → o.answered = some m) : o'.OnlyFrom p :=
  ⟨fun box m hm => h.1 box m (hboxes hm),fun m hm => h.2 m (hheard m hm)⟩

theorem session_peer {s s' : ℤ × List (PktType × TcpMail)} {r : op.Resp}
    (hpre : (session c).pre op s) (hpost : (session c).post op s r s') {p : ℤ}
    (hp : peerOf (some c) s'.1 s'.2 = some p) :
    peerOf (some c) s.1 s.2 = some p ∨ ∃ box, op = .receive box := by
  cases op with
  | setConnectedID id =>
    obtain rfl : s' = (id,s.2) := hpost
    refine .inl ?_
    rcases hpre with hid | ⟨rfl,rfl⟩
    · rw [peerOf_set hid] at hp
      exact hid.trans hp
    · simp [peerOf] at hp
  | noBlockReceive box into =>
    cases into with
    | dull =>
      obtain rfl : s' = s := hpost
      exact .inl hp
    | message =>
      cases r with
      | none =>
        obtain rfl : s' = s := hpost
        exact .inl hp
      | some mail =>
        obtain rfl : s' = (s.1,s.2 ++ [(box,mail)]) := hpost
        obtain ⟨p₀,hp₀⟩ := Option.ne_none_iff_exists'.mp hpre
        rw [peerOf_append hp₀] at hp
        exact .inl (hp₀.trans hp)
  | receive box => exact .inr ⟨box,rfl⟩
  | connectedID =>
    obtain ⟨-,rfl⟩ := hpost
    exact .inl hp
  | _ =>
    obtain rfl : s' = s := hpost
    exact .inl hp

theorem Confined.aside (h : o.Confined) (huser : o'.user = o.user)
    (hid : o'.connectedID = o.connectedID) (htaken : o'.taken = o.taken)
    (honly : ∀ p, o.peer = some p → o.OnlyFrom p → o'.OnlyFrom p)
    (hlistener : ∀ q, o'.listener = some q →
      q = listenForEndConnection ∨ q.Uses TcpOp.Answers ∧ o'.heard ≠ none) : o'.Confined := by
  have hpeer : o'.peer = o.peer := by rw [peer, huser, hid, htaken, peer]
  constructor
  · intro p hp
    rw [hpeer] at hp
    exact honly p hp (h.only p hp)
  · rw [huser, hid, htaken]
    exact h.user
  · exact hlistener

theorem Confined.listens (h : o.Confined) {p q : TcpProg Unit} (hl : o.listener = some p)
    (hadv : o.advance .listener answers p = some (q,o',sent)) :
    ({ o' with listener := some q } : Office).Confined := by
  have hsame := advance_sameThreads hadv
  rcases advance_cases hadv with ⟨op,next,r,rfl,rfl,hop⟩ | ⟨hq,rfl,-⟩
  · rcases h.listener _ hl with hlisten | ⟨huses,hheard⟩
    · -- the `STOP` comes out of its mailbox
      obtain ⟨next',hnext,hanswers⟩ := listener_answers
      obtain ⟨rfl,hnext⟩ := Prog.act.inj (hlisten.trans hnext)
      obtain rfl := eq_of_heq hnext
      obtain ⟨hid,htaken⟩ := perform_listener hop trivial
      have hbox : r ∈ o.boxes .stop ∧ o'.heard = some r := by
        simp only [perform] at hop
        split at hop
        · cases hop
        case h_2 mail rest hbox =>
          cases hop
          exact ⟨by rw [hbox]; exact List.mem_cons_self,rfl⟩
      refine h.aside hsame.user hid htaken ?_ ?_
      · intro p hp honly
        refine ⟨fun box m hm => honly.1 box m (perform_boxes hop hm),fun m hm => ?_⟩
        have hr := (answered_heard hm).symm.trans hbox.2
        exact Option.some_inj.mp hr ▸ honly.1 .stop r hbox.1
      · rintro _ ⟨⟩
        exact .inr ⟨hanswers r,hbox.2 ▸ Option.some_ne_none r⟩
    · obtain ⟨hid,htaken⟩ := perform_listener hop huses.1.keepsConnection
      have hheard' := perform_heard hop (.inr huses.1)
      refine h.aside hsame.user hid htaken ?_ ?_
      · intro p hp honly
        refine honly.mono (perform_boxes hop) fun m hm => ?_
        have hm' := answered_heard hm
        rw [answered_eq hl huses, ← hheard']
        exact hm'
      · rintro _ ⟨⟩
        exact .inr ⟨huses.2 r,hheard' ▸ hheard⟩
  · rcases h.listener _ hl with rfl | ⟨huses,hheard⟩
    · cases hq
    · refine h.aside rfl rfl rfl ?_ ?_
      · intro p hp honly
        refine honly.mono (fun hm => hm) fun m hm => ?_
        have hm' := answered_heard hm
        rw [answered_eq hl huses]
        exact hm'
      · rintro _ ⟨⟩
        exact .inr ⟨huses.silent hq,hheard⟩

theorem Confined.runs (h : o.Confined) {p q : TcpProg CallResult} (hu : o.user = some (c,p))
    (hadv : o.advance .user answers p = some (q,o',sent))
    (hsec : o.Secluded (.run .user answers)) :
    ({ o' with user := some (c,q) } : Office).Confined := by
  have hsame := advance_sameThreads hadv
  have hpeer : o.peer = peerOf (some c) o.connectedID o.taken := by rw [peer, hu]; rfl
  have hsat := h.user c p hu
  rcases advance_cases hadv with ⟨op,next,r,rfl,rfl,hop⟩ | ⟨hq,rfl,-⟩
  · have hpost := perform_session (c := c) hop
    have hheard := perform_heard hop (.inl rfl)
    have hless : ∀ p, o.OnlyFrom p → ({ o' with user := some (c,next r) } : Office).OnlyFrom p := by
      intro p honly
      refine honly.mono (perform_boxes hop) fun m hm => ?_
      unfold answered at hm ⊢
      rw [← hsame.listener, ← hheard]
      exact hm
    refine ⟨fun p hp => hless p ?_,?_,?_⟩
    · rcases session_peer hsat.1 hpost hp with hp | ⟨box,rfl⟩
      · exact h.only p (hpeer.trans hp)
      · refine hsec p ?_
        obtain ⟨rfl,hs⟩ := hsat.1
        obtain ⟨hid,htaken⟩ := Prod.mk.inj hs
        have hmail : (o.boxes box).head? = some r := by
          simp only [perform] at hop
          split at hop
          · cases hop
          case h_2 mail rest hbox =>
            cases hop
            rw [hbox]
            rfl
        obtain ⟨hid',htaken'⟩ := Prod.mk.inj hpost
        change peerOf (some .openConnection) o'.connectedID o'.taken = some p at hp
        rw [hid', htaken', hid, htaken] at hp
        have hstart : o.startsWith (.run .user answers) = some r.fromAddr := by
          simp only [startsWith, operation, hu, hmail]
          rfl
        rw [hstart]
        exact hp
    · rintro _ _ ⟨⟩
      exact hsat.next hpost
    · rw [show ({ o' with user := some (c,next r) } : Office).listener = o.listener
        from hsame.listener]
      intro q hq
      exact (h.listener q hq).imp_right fun hl => ⟨hl.1,fun hnone => hl.2 (hheard ▸ hnone)⟩
  · refine ⟨fun p hp => h.only p (hpeer.trans hp),?_,h.listener⟩
    rintro _ _ ⟨⟩
    exact hsat.silent hq

theorem Confined.step {l : OfficeStep} (h : o.Confined) (hsec : o.Secluded l)
    (hstep : o.step l = some (o',sent)) : o'.Confined := by
  cases step_cases hstep with
  | call c huser =>
    refine ⟨fun p hp => ?_,?_,h.listener⟩
    · refine OnlyFrom.mono (o := o) ?_ (fun hm => hm) fun m hm => hm
      by_cases hid : o.connectedID = -1
      · refine hsec p ?_
        cases c with
        | syncWithMachine target =>
          rw [startsWith, if_pos hid]
          rwa [peer, hid] at hp
        | openConnection | endConnection | sendString | receiveString | sendFile | receiveFile =>
          rw [peer, hid] at hp
          cases hp
      · refine h.only p ?_
        rw [peer, peerOf_of_ne hid] at hp ⊢
        exact hp
    · rintro _ _ ⟨⟩
      exact session_call o.id c o.connectedID
  | listen hl =>
    refine h.aside rfl rfl rfl ?_ ?_
    · intro p _ honly
      refine honly.mono (fun hm => hm) fun m hm => ?_
      cases hm
    · rintro _ ⟨⟩
      exact .inl rfl
  | user huser hadv => exact h.runs huser hadv hsec
  | listener hl hadv => exact h.listens hl hadv
  | @userReturns c r huser =>
    refine ⟨fun p hp => ?_,fun _ _ hu => (by cases hu),h.listener⟩
    have hid : o.connectedID ≠ -1 := by
      intro hid
      rw [peer, hid] at hp
      cases hp
    refine OnlyFrom.mono (o := o) (h.only p ?_) (fun hm => hm) fun m hm => hm
    rw [peer, peerOf_of_ne hid] at hp ⊢
    exact hp
  | listenerReturns hl =>
    refine h.aside rfl rfl rfl ?_ fun _ hq => (by cases hq)
    intro p _ honly
    refine honly.mono (fun hm => hm) fun m hm => ?_
    cases hm
  | wakeUp hk hdue =>
    exact h.aside rfl rfl rfl (fun p _ honly => honly.mono (fun hm => hm) fun m hm => hm) h.listener
  | elapse ticks =>
    exact h.aside rfl rfl rfl (fun p _ honly => honly.mono (fun hm => hm) fun m hm => hm) h.listener
  | arrive box mail =>
    refine h.aside rfl rfl rfl ?_ h.listener
    intro p hp honly
    refine ⟨fun b m hm => ?_,honly.2⟩
    simp only [put] at hm
    by_cases hb : b = box
    · subst hb
      rw [Function.update_self, List.mem_append, List.mem_singleton] at hm
      rcases hm with hm | rfl
      · exact honly.1 b m hm
      · exact hsec p hp
    · rw [Function.update_of_ne hb] at hm
      exact honly.1 b m hm

/-- What the user thread takes into a message comes from a mailbox. -/
theorem perform_taken {r : op.Resp} (h : o.perform .user answers op = some (r,o',sent)) :
    o'.taken = o.taken ∨ ∃ box mail, (op = .receive box ∨ op = .noBlockReceive box .message) ∧
      mail ∈ o.boxes box ∧ o'.taken = o.taken ++ [(box,mail)] := by
  cases op with
  | noBlockReceive box into =>
    simp only [perform] at h
    split at h
    · cases h
      exact .inl rfl
    case h_2 mail rest hbox =>
      cases h
      cases into with
      | message => exact .inr ⟨box,_,.inr rfl,by rw [hbox]; exact List.mem_cons_self,rfl⟩
      | dull => exact .inl rfl
  | receive box =>
    simp only [perform] at h
    split at h
    · cases h
    case h_2 mail rest hbox =>
      cases h
      exact .inr ⟨box,_,.inl rfl,by rw [hbox]; exact List.mem_cons_self,rfl⟩
  | stopSemP | waitSemP =>
    simp only [perform] at h
    split at h <;> cases h
    all_goals exact .inl rfl
  | crash => cases h
  | connectedID | setConnectedID | stoppingConnection | setStoppingConnection | schedule
    | stopSemV | send | fileOpen | fileLength | fileRead | fileCreate | fileWrite | memory
    | behind =>
    cases h
    exact .inl rfl

theorem ActsOnPeer.of_same {l : OfficeStep} (htaken : o'.taken = o.taken ∨ o'.taken = [])
    (hid : o'.connectedID = o.connectedID)
    (hop : o.operation l ≠ some (.setStoppingConnection true)) : o.ActsOnPeer l o' := by
  refine ⟨fun x hx => ?_,fun hne => absurd hid hne,fun h => absurd h hop⟩
  rcases htaken with h | h
  · simpa using h.symm.trans hx
  · simpa using h.symm.trans hx

theorem Confined.acts_runs (h : o.Confined) {p q : TcpProg CallResult} (hu : o.user = some (c,p))
    (hadv : o.advance .user answers p = some (q,o',sent)) :
    o.ActsOnPeer (.run .user answers) { o' with user := some (c,q) } := by
  have hpeer : o.peer = peerOf (some c) o.connectedID o.taken := by rw [peer, hu]; rfl
  have hsat := h.user c p hu
  rcases advance_cases hadv with ⟨op,next,r,rfl,rfl,hop⟩ | ⟨hq,rfl,-⟩
  · have hoperation : o.operation (.run .user answers) = some op := by rw [operation, hu]
    have hpre := hsat.1
    have hpost := perform_session (c := c) hop
    refine ⟨fun x hx => ?_,fun hne hid => ?_,fun hstop => ?_⟩
    · change peerOf (some c) o'.connectedID o'.taken = _
      have hx : o'.taken = o.taken ++ [x] := hx
      rcases perform_taken hop with heq | ⟨box,mail,hbox,hmem,heq⟩
      · simpa using heq.symm.trans hx
      · obtain rfl : (box,mail) = x := by simpa using heq.symm.trans hx
        rcases hbox with rfl | rfl
        · obtain ⟨rfl,hs⟩ := hpre
          obtain ⟨hid,htaken⟩ := Prod.mk.inj hs
          obtain ⟨hid',-⟩ := Prod.mk.inj hpost
          rw [hid', heq, hid, htaken]
          rfl
        · obtain ⟨p₀,hp₀⟩ := Option.ne_none_iff_exists'.mp hpre
          have hid' : o'.connectedID = o.connectedID := by
            cases r with
            | none => exact (Prod.mk.inj hpost).1
            | some mail => exact (Prod.mk.inj hpost).1
          rw [hid', heq, peerOf_append hp₀, (h.only p₀ (hpeer.trans hp₀)).1 box mail hmem]
    · have hne : o'.connectedID ≠ o.connectedID := hne
      have hconn := perform_connection hop
      cases op with
      | setConnectedID id =>
        obtain rfl : o'.connectedID = id := hconn
        rcases hpre with hp | ⟨-,hend⟩
        · exact hpeer.trans hp
        · exact absurd hend hid
      | connectedID => exact absurd hconn.2 hne
      | _ => exact absurd hconn hne
    · rw [hoperation] at hstop
      cases hstop
      cases hpre
  · refine .of_same (.inl rfl) rfl ?_
    cases p with
    | loop => simp [operation, hu]
    | ret | act => cases hq

theorem Confined.acts_listens (h : o.Confined) {p q : TcpProg Unit} (hl : o.listener = some p)
    (hadv : o.advance .listener answers p = some (q,o',sent)) :
    o.ActsOnPeer (.run .listener answers) { o' with listener := some q } := by
  have hkeeps : p.Uses TcpOp.KeepsConnection := by
    rcases h.listener p hl with rfl | ⟨huses,-⟩
    · exact listener_keeps
    · exact huses.mono fun _ hop => hop.keepsConnection
  have hsame : o'.connectedID = o.connectedID ∧ o'.taken = o.taken := by
    rcases advance_cases hadv with ⟨op,next,r,rfl,-,hop⟩ | ⟨-,rfl,-⟩
    · exact perform_listener hop hkeeps.1
    · exact ⟨rfl,rfl⟩
  refine ⟨fun x hx => ?_,fun hne => absurd hsame.1 hne,fun hstop p₀ hp₀ => ?_⟩
  · simpa using hsame.2.symm.trans hx
  · rcases h.listener p hl with rfl | ⟨huses,hheard⟩
    · obtain ⟨next,hnext,-⟩ := listener_answers
      rw [operation, hl, hnext] at hstop
      cases hstop
    · obtain ⟨m,hm⟩ := Option.ne_none_iff_exists'.mp hheard
      have hanswered : o.answered = some m := (answered_eq hl huses).trans hm
      exact ⟨m,hanswered,(h.only p₀ hp₀).2 m hanswered⟩

theorem Confined.actsOnPeer {l : OfficeStep} (h : o.Confined)
    (hstep : o.step l = some (o',sent)) : o.ActsOnPeer l o' := by
  cases step_cases hstep with
  | user huser hadv => exact h.acts_runs huser hadv
  | listener hl hadv => exact h.acts_listens hl hadv
  | call => exact .of_same (.inr rfl) rfl nofun
  | listen | userReturns | listenerReturns | wakeUp | elapse | arrive =>
    exact .of_same (.inl rfl) rfl nofun

end Office

namespace Machines
variable {w w' : Machines} {l : MachinesStep} {a : ℤ}

def stepOf (w : Machines) (a : ℤ) : MachinesStep → Option OfficeStep
  | .own b l => if b = a then some l else none
  | .lose _ _ _ => none
  | .deliver c b =>
    if b = a then (w.channel (c,b)).head?.map fun x => .arrive x.1 x.2 else none

/-- Machine `a` gets packets of its peer alone. -/
def Secluded (a : ℤ) (w : Machines) (l : MachinesStep) : Prop :=
  ∀ l' ∈ w.stepOf a l, (w.office a).Secluded l'

theorem stepOf_eq (h : w.step l = some w') (a : ℤ) :
    (w.stepOf a l = none ∧ w'.office a = w.office a) ∨ ∃ l' sent,
      w.stepOf a l = some l' ∧ (w.office a).step l' = some (w'.office a,sent) := by
  cases l with
  | own b l =>
    obtain ⟨-,o,sent,hstep,rfl⟩ := own_eq h
    by_cases hb : b = a
    · subst hb
      exact .inr ⟨l,sent,if_pos rfl,by simpa using hstep⟩
    · exact .inl ⟨if_neg hb,Function.update_of_ne (Ne.symm hb) _ _⟩
  | lose c b k =>
    cases h
    exact .inl ⟨rfl,rfl⟩
  | deliver c b =>
    obtain ⟨box,mail,rest,hchannel,rfl⟩ := deliver_eq h
    by_cases hb : b = a
    · subst hb
      refine .inr ⟨.arrive box mail,none,?_,by simp [Office.step]⟩
      rw [stepOf, if_pos rfl, hchannel]
      rfl
    · exact .inl ⟨if_neg hb,Function.update_of_ne (Ne.symm hb) _ _⟩

theorem confined_of_run (h : (machines.guard (Secluded a)).Reachable w) :
    (w.office a).Confined := by
  refine h.invariant (P := fun w => (w.office a).Confined) ?_ ?_
  · intro w hw
    obtain ⟨hid,-,-,-,-,huser,hlistener,-⟩ := (hw.1 a).1
    refine ⟨fun p hp => ?_,fun _ _ hu => ?_,fun _ hl => ?_⟩
    · rw [Office.peer, huser, hid] at hp
      cases hp
    · cases huser.symm.trans hu
    · cases hlistener.symm.trans hl
  · rintro w l w' hc ⟨hsec,hstep⟩
    rcases stepOf_eq hstep a with ⟨-,heq⟩ | ⟨l',sent,hof,hl⟩
    · rwa [heq]
    · exact hc.step (hsec l' hof) hl

/-- In a run where no packet of another machine comes to machine `a` while it has a peer, nor is
there when it begins to connect, every step of `a` acts on its peer. -/
theorem peerIsolation (h : (machines.guard (Secluded a)).Reachable w) (hstep : w.step l = some w')
    {l' : OfficeStep} (hof : w.stepOf a l = some l') :
    (w.office a).ActsOnPeer l' (w'.office a) := by
  rcases stepOf_eq hstep a with ⟨hnone,-⟩ | ⟨l₁,sent,hof₁,hl⟩
  · cases hnone.symm.trans hof
  · obtain rfl := Option.some_inj.mp (hof.symm.trans hof₁)
    exact (confined_of_run h).actsOnPeer hl

instance (a : ℤ) (w : Machines) (l : MachinesStep) : Decidable (w.Secluded a l) :=
  inferInstanceAs (Decidable (∀ l' ∈ w.stepOf a l, _))

/-- `SyncWithMachine(1)` on machine 0 up to the look for an ack, which has come. -/
def synchronizes : List MachinesStep :=
  [.own 0 (.call (.syncWithMachine 1)),.own 1 (.call .openConnection)] ++
    runs 0 .user 4 ++ [.deliver 0 1] ++ runs 1 .user 4 ++ [.deliver 1 0] ++
    wakes 0 tempo ++ runs 0 .user 3

/-- The ack is taken from machine 1. -/
theorem peerIsolation_ack : ∃ (w w' : Machines) (answers : Answers) (mail : TcpMail),
    w.step (.own 0 (.run .user answers)) = some w' ∧ (w'.office 0).taken = [(.ack,mail)] ∧
      (w.office 0).ActsOnPeer (.run .user answers) (w'.office 0) := by
  have h : ((new.stepsWhere (Secluded 0) synchronizes).any fun w =>
      (w.step (.own 0 (.run .user ⟨true,0,[0]⟩))).any fun w' =>
        decide ((w'.office 0).taken = [(.ack,⟨1,[65,0],0,0⟩)])) = true := by decide +kernel
  simp only [Option.any_eq_true, decide_eq_true_eq] at h
  obtain ⟨w,hw,w',hstep,htaken⟩ := h
  have hr : (machines.guard (Secluded 0)).Reachable w :=
    reachable_stepsWhere rfl (.start new_new) hw
  exact ⟨w,w',_,_,hstep,htaken,peerIsolation hr hstep rfl⟩

/-- Machine 2 asks machine 0 for a connection while 0 is connecting to machine 1. -/
def interferes : List MachinesStep :=
  [.own 2 (.call (.syncWithMachine 0))] ++ runs 2 .user 4 ++ [.deliver 2 0] ++ synchronizes ++
    runs 0 .user 5 ++ wakes 0 tempo ++ runs 0 .user 3

/-- `SyncWithMachine(1)` on machine 0 takes the `SYNC` of machine 2 for that of machine 1, and
returns 1. -/
theorem not_peerIsolation : ∃ (w w' w'' : Machines) (answers : Answers) (mail : TcpMail),
    machines.Reachable w ∧ w.step (.own 0 (.run .user answers)) = some w' ∧
      (w'.office 0).taken = (w.office 0).taken ++ [(.sync,mail)] ∧ mail.fromAddr = 2 ∧
      (machines.startAt w').Reachable w'' ∧
      (w''.office 0).log = [(.syncWithMachine 1,.id 1)] ∧
      ¬ (w.office 0).ActsOnPeer (.run .user answers) (w'.office 0) := by
  have h : ((new.steps interferes).any fun w =>
      (w.step (.own 0 (.run .user ⟨true,0,[0]⟩))).any fun w' =>
        (w'.steps (runs 0 .user 2 ++ catchesNothing 0 .user ++ runs 0 .user 2 ++
          [.own 0 (.finish .user)])).any fun w'' => decide (
          (w'.office 0).taken = (w.office 0).taken ++ [(.sync,⟨2,[66,0],0,0⟩)] ∧
          (w'.office 0).peer = some 1 ∧
          (w''.office 0).log = [(.syncWithMachine 1,.id 1)])) = true := by decide +kernel
  simp only [Option.any_eq_true, decide_eq_true_eq] at h
  obtain ⟨w,hw,w',hstep,w'',hrest,htaken,hpeer,hlog⟩ := h
  refine ⟨w,w',w'',_,_,TransitionSystem.Reachable.startAt (.start new_new)
    (startAt_steps (.start rfl) hw),hstep,htaken,rfl,startAt_steps (.start rfl) hrest,hlog,?_⟩
  intro hacts
  have := hpeer.symm.trans (hacts.taken _ htaken)
  cases this

end Machines

end Nachos
