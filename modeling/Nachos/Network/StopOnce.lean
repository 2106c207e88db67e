import Nachos.Library.Executions
import Nachos.Network.TCP

/-! # One `STOP`, one operation

Each `STOP` that `ListenForEndConnection` takes has a number, and `stoppingConnection` is
kept with the number of the `STOP` that set it. A call notes the `STOP`s that it sees.
-/
namespace Nachos.StopOnce
open Prog

/-- What a call is at when it looks at `stoppingConnection`. -/
inductive Phase where
  | handshake
  /-- `ReceiveString` and `ReceiveFile` until they have the number of pieces. -/
  | info
  | transfer
  deriving DecidableEq, Repr

abbrev PhasedProg := Prog (Phase × TcpOp) fun op => op.2.Resp

def during {α : Type} (phase : Phase) (p : TcpProg α) : PhasedProg α :=
  p.lift (fun op => (phase,op)) fun _ => id

def erase {α : Type} (p : PhasedProg α) : TcpProg α := p.lift Prod.snd fun _ => id

def stringPieces (size : ℤ) : TcpProg (Option (List Byte)) :=
  iterate ((0 : ℕ),([] : List Byte)) fun (i,result) =>
    if (i : ℤ) < size then do
      let (status,piece) ← receiveMessage
      if ¬ status then return .inr none
      return .inl (i + 1,result ++ piece)
    else return .inr (some result)

def receiveString : PhasedProg (Option (List Byte)) := do
  if (← during .info getConnectedID) = -1 then return none
  match ← during .info (awaitPieces .stringInfo) with
  | none => return none
  | some size => during .transfer (stringPieces size)

def filePieces (savename : List Byte) (size : ℤ) : TcpProg Bool := do
  tcp (.fileCreate savename (size * maxMailSize))
  let _ ← openFile savename
  iterate (0 : ℕ) fun i =>
    if (i : ℤ) < size then do
      let (status,text) ← receiveMessage
      if ¬ status then return .inr false
      tcp (.fileWrite (text.take maxMailSize))
      return .inl (i + 1)
    else return .inr true

def receiveFile (savename : List Byte) : PhasedProg Bool := do
  if (← during .info getConnectedID) = -1 then return false
  match ← during .info (awaitPieces .fileInfo) with
  | none => return false
  | some size => during .transfer (filePieces savename size)

theorem erase_during {α : Type} (phase : Phase) (p : TcpProg α) : erase (during phase p) = p :=
  lift_lift (fun _ => rfl) (fun _ _ => HEq.rfl) p

theorem erase_bind {α β : Type} (p : PhasedProg α) (k : α → PhasedProg β) :
    erase (p >>= k) = erase p >>= fun a => erase (k a) := lift_bind p k

/-- The phases say nothing about what is done. -/
theorem erase_receiveString : erase receiveString = Nachos.receiveString := by
  simp only [receiveString, erase_bind, erase_during]
  refine congrArg _ (funext fun id => ?_)
  split
  · rfl
  simp only [erase_bind, erase_during]
  refine congrArg _ (funext fun size => ?_)
  cases size with
  | none => rfl
  | some size => exact erase_during .transfer _

theorem erase_receiveFile (savename : List Byte) :
    erase (receiveFile savename) = Nachos.receiveFile savename := by
  simp only [receiveFile, erase_bind, erase_during]
  refine congrArg _ (funext fun id => ?_)
  split
  · rfl
  simp only [erase_bind, erase_during]
  refine congrArg _ (funext fun size => ?_)
  cases size with
  | none => rfl
  | some size => exact erase_during .transfer _

structure StopState where
  connectedID : ℤ
  /-- `stoppingConnection`, with the `STOP` that set it. -/
  flag : Option ℕ
  /-- The number of the next `STOP`. -/
  next : ℕ
  /-- What the call has seen, and what it was at. -/
  seen : List (Phase × ℕ)

/-- `ListenForEndConnection` takes a `STOP`. -/
def StopState.raise (s : StopState) : StopState :=
  { s with flag := s.flag.or (some s.next), next := s.next + 1 }

/-- Any number of `STOP`s come between two operations of a call. -/
def Arrive (s t : StopState) : Prop := ∃ n, t = StopState.raise^[n] s

def StopState.look (phase : Phase) (s : StopState) : StopState :=
  { s with seen := s.seen ++ s.flag.toList.map fun k => (phase,k) }

/-- What an operation of a call does. -/
def Effect (phase : Phase) : (op : TcpOp) → StopState → op.Resp → StopState → Prop
  | .connectedID, s, r, t => r = s.connectedID ∧ t = s
  | .setConnectedID id, s, _, t => t = { s with connectedID := id }
  | .stoppingConnection, s, r, t => r = s.flag.isSome ∧ t = s.look phase
  | .setStoppingConnection b, s, _, t => t = if b then s.raise else { s with flag := none }
  | _, s, _, t => t = s

/-- The other responses may be any. -/
def stops (phase : Phase) : Contract TcpOp TcpOp.Resp StopState where
  pre _ _ := True
  post op s r t := ∃ u, Arrive s u ∧ Effect phase op u r t

def phasedStops : Contract (Phase × TcpOp) (fun op => op.2.Resp) StopState where
  pre _ _ := True
  post op s r t := (stops op.1).post op.2 s r t

theorem sat_during {α : Type} {phase : Phase} {p : TcpProg α} {Q : α → StopState → Prop}
    {s : StopState} : (during phase p).Sat phasedStops Q s ↔ p.Sat (stops phase) Q s :=
  sat_lift (fun _ => Function.surjective_id) (fun _ _ => Iff.rfl) fun _ _ _ _ => Iff.rfl

structure StopState.Numbered (s : StopState) : Prop where
  flag : ∀ k, s.flag = some k → k < s.next
  seen : ∀ x ∈ s.seen, x.2 < s.next

/-- What becomes of a state as long as `stoppingConnection` is not reset. -/
structure Watched (phase : Phase) (s t : StopState) : Prop where
  next : s.next ≤ t.next
  kept : ∀ k, s.flag = some k → t.flag = some k
  fresh : s.flag = none → ∀ k, t.flag = some k → s.next ≤ k ∧ k < t.next
  seen : ∃ l, t.seen = s.seen ++ l ∧ ∀ x ∈ l, x.1 = phase ∧ t.flag = some x.2

section Watched
variable {phase : Phase} {s t u : StopState}

theorem Watched.refl (phase : Phase) (s : StopState) : Watched phase s s where
  next := le_rfl
  kept _ h := h
  fresh hs k hk := by simp [hs] at hk
  seen := ⟨[],by simp,by simp⟩

theorem Watched.trans (h : Watched phase s t) (h' : Watched phase t u) : Watched phase s u where
  next := h.next.trans h'.next
  kept k hk := h'.kept k (h.kept k hk)
  fresh hs k hk := by
    cases ht : t.flag with
    | none =>
      obtain ⟨hle,hlt⟩ := h'.fresh ht k hk
      exact ⟨h.next.trans hle,hlt⟩
    | some j =>
      obtain rfl : j = k := Option.some_inj.mp ((h'.kept j ht).symm.trans hk)
      obtain ⟨hle,hlt⟩ := h.fresh hs j ht
      exact ⟨hle,hlt.trans_le h'.next⟩
  seen := by
    obtain ⟨l,hl,hall⟩ := h.seen
    obtain ⟨l',hl',hall'⟩ := h'.seen
    refine ⟨l ++ l',by rw [hl', hl, List.append_assoc],?_⟩
    intro x hx
    rcases List.mem_append.mp hx with hx | hx
    · exact ⟨(hall x hx).1,h'.kept _ (hall x hx).2⟩
    · exact hall' x hx

theorem Watched.numbered (h : Watched phase s t) (hs : s.Numbered) : t.Numbered := by
  have hflag : ∀ k, t.flag = some k → k < t.next := by
    intro k hk
    cases hf : s.flag with
    | none => exact (h.fresh hf k hk).2
    | some j =>
      obtain rfl : j = k := Option.some_inj.mp ((h.kept j hf).symm.trans hk)
      exact (hs.flag j hf).trans_le h.next
  refine ⟨hflag,?_⟩
  obtain ⟨l,hl,hall⟩ := h.seen
  intro x hx
  rw [hl, List.mem_append] at hx
  rcases hx with hx | hx
  · exact (hs.seen x hx).trans_le h.next
  · exact hflag _ (hall x hx).2

theorem watched_raise (phase : Phase) (s : StopState) : Watched phase s s.raise where
  next := Nat.le_succ s.next
  kept k hk := by simp [StopState.raise, hk]
  fresh hs k hk := by
    obtain rfl : s.next = k := by simpa [StopState.raise, hs] using hk
    exact ⟨le_rfl,Nat.lt_succ_self _⟩
  seen := ⟨[],by simp [StopState.raise],by simp⟩

theorem watched_look (phase : Phase) (s : StopState) : Watched phase s (s.look phase) where
  next := le_rfl
  kept _ h := h
  fresh hs k hk := by simp [StopState.look, hs] at hk
  seen := by
    refine ⟨_,rfl,?_⟩
    intro x hx
    obtain ⟨k,hk,rfl⟩ := List.mem_map.mp hx
    exact ⟨rfl,Option.mem_toList.mp hk⟩

theorem seen_raise (n : ℕ) (s : StopState) : (StopState.raise^[n] s).seen = s.seen := by
  induction n generalizing s with
  | zero => rfl
  | succ n ih => exact ih s.raise

theorem Arrive.seen (h : Arrive s t) : t.seen = s.seen := by
  obtain ⟨n,rfl⟩ := h
  exact seen_raise n s

theorem Arrive.watched (h : Arrive s t) (phase : Phase) : Watched phase s t := by
  obtain ⟨n,rfl⟩ := h
  induction n generalizing s with
  | zero => exact .refl phase s
  | succ n ih => exact (watched_raise phase s).trans ih

/-- A part of a call that has seen no `STOP` where it went well. -/
structure Looked (phase : Phase) (s : StopState) (ok : Prop) (t : StopState) : Prop where
  watched : Watched phase s t
  quiet : ok → t.seen = s.seen

variable {ok ok' : Prop}

theorem Looked.refl (phase : Phase) (s : StopState) : Looked phase s True s :=
  ⟨.refl phase s,fun _ => rfl⟩

theorem Looked.trans (h : Looked phase s ok t) (h' : Looked phase t ok' u) (hok : ok' → ok) :
    Looked phase s ok' u :=
  ⟨h.watched.trans h'.watched,fun hu => (h'.quiet hu).trans (h.quiet (hok hu))⟩

theorem Looked.mono (h : Looked phase s ok t) (hok : ok' → ok) : Looked phase s ok' t :=
  ⟨h.watched,fun hu => h.quiet (hok hu)⟩

theorem Looked.next (h : Looked phase s True t) (h' : Looked phase t ok' u) :
    Looked phase s ok' u := h.trans h' fun _ => trivial

theorem Watched.quiet (h : Watched phase s t) (ht : t.flag = none) : t.seen = s.seen := by
  obtain ⟨l,hl,hall⟩ := h.seen
  cases l with
  | nil => simpa using hl
  | cons x l =>
    have hx := (hall x List.mem_cons_self).2
    rw [ht] at hx
    cases hx

end Watched

/-- The operations that neither read nor write `stoppingConnection`. -/
def Silent : TcpOp → Prop
  | .stoppingConnection | .setStoppingConnection _ => False
  | _ => True

section Looks
variable {α β : Type} {phase : Phase} {s t : StopState} {ok : Prop}

theorem looked_op {op : TcpOp} (hop : Silent op) {r : op.Resp}
    (h : (stops phase).post op s r t) : Looked phase s True t := by
  obtain ⟨u,hu,he⟩ := h
  have hu' : Looked phase s True u := ⟨hu.watched phase,fun _ => hu.seen⟩
  cases op
  case stoppingConnection => exact hop.elim
  case setStoppingConnection => exact hop.elim
  case connectedID =>
    obtain ⟨-,rfl⟩ := he
    exact hu'
  case setConnectedID id =>
    obtain rfl := he
    exact ⟨⟨hu'.watched.next,hu'.watched.kept,hu'.watched.fresh,hu'.watched.seen⟩,hu'.quiet⟩
  all_goals
    obtain rfl := he
    exact hu'

theorem sat_silent (op : TcpOp) (hop : Silent op) {f : op.Resp → TcpProg β}
    {Q : β → StopState → Prop}
    (hf : ∀ r t, Looked phase s True t → (f r).Sat (stops phase) Q t) :
    (tcp op >>= f).Sat (stops phase) Q s :=
  ⟨trivial,fun r t hr => hf r t (looked_op hop hr)⟩

theorem sat_isStopping : isStopping.Sat (stops phase)
    (fun b t => Watched phase s t ∧ (b = false → t.flag = none)) s := by
  refine ⟨trivial,?_⟩
  rintro r t ⟨u,hu,rfl,rfl⟩
  refine ⟨(hu.watched phase).trans (watched_look phase u),fun hb => ?_⟩
  exact Option.isNone_iff_eq_none.mp (Option.isSome_eq_false_iff.mp hb)

theorem sat_wait : wait.Sat (stops phase) (fun b t => Looked phase s (b = false) t) s := by
  refine sat_silent (.schedule tempo) trivial fun _ t ht =>
    sat_silent .stopSemP trivial fun _ u hu => ?_
  have htu := ht.next hu
  refine sat_isStopping.bind fun b v hv => ?_
  have hsv : Looked phase s (b = false) v := by
    have hw := htu.watched.trans hv.1
    exact ⟨hw,fun hb => hw.quiet (hv.2 hb)⟩
  split
  case isTrue hb => exact hsv.mono fun h => by cases h
  case isFalse hb =>
    refine sat_silent .waitSemP trivial fun _ w hw => ?_
    have hb' : b = false := Bool.eq_false_iff.mpr hb
    have hquiet : Looked phase s True _ := hsv.trans ⟨hw.watched,hw.quiet⟩ fun _ => hb'
    exact hquiet.mono fun _ => trivial

/-- A look at the flag after some time, which ends a loop when it is set. -/
theorem sat_waitElse {stop go : TcpProg β} {Q : β → StopState → Prop}
    (ht : Looked phase s True t) (hstop : ∀ u, Looked phase s False u → stop.Sat (stops phase) Q u)
    (hgo : ∀ u, Looked phase s True u → go.Sat (stops phase) Q u) :
    (wait >>= fun b => if b then stop else go).Sat (stops phase) Q t := by
  refine sat_wait.bind fun b u hu => ?_
  have hsu := ht.next hu
  split
  case isTrue hb => exact hstop u (hsu.mono False.elim)
  case isFalse hb => exact hgo u (hsu.mono fun _ => Bool.eq_false_iff.mpr hb)

theorem sat_catchMail (boxeID : PktType) (expected : ℤ) :
    (catchMail boxeID expected).Sat (stops phase) (fun n t => Looked phase s (n ≠ -2) t) s := by
  refine .iterate (fun _ t => Looked phase s True t) (.refl phase s) ?_
  rintro ⟨attempts,nbCatch⟩ t ht
  dsimp only
  split
  · refine sat_waitElse ht (fun u hu => hu.mono fun h => absurd rfl h) fun u hsu => ?_
    refine sat_silent (.noBlockReceive boxeID .dull) trivial ?_
    rintro (_ | mail) v hv
    · exact hsu.next hv
    · have hsv := hsu.next hv
      dsimp only
      split
      · exact hsv.mono fun _ => trivial
      · exact hsv
  · exact ht.mono fun _ => trivial

theorem sat_charZero (data : List Byte) :
    (charZero data).Sat (stops phase) (fun _ t => Looked phase s True t) s := by
  cases data with
  | nil => exact sat_silent .behind trivial fun _ _ h => h
  | cons c data => exact Looked.refl phase s

theorem sat_readCString (data : List Byte) :
    (readCString data).Sat (stops phase) (fun _ t => Looked phase s True t) s := by
  unfold readCString
  split
  · exact Looked.refl phase s
  · exact sat_silent .behind trivial fun _ _ h => h

theorem sat_sendLoop (out : Message) (inType : PktType) (inData : List Byte) (limit : ℕ) :
    (sendLoop out inType inData limit).Sat (stops phase)
      (fun r t => Looked phase s (r ≠ none) t) s := by
  refine .iterate (fun _ t => Looked phase s True t) (.refl phase s) ?_
  intro attempts t ht
  split
  · refine sat_silent (.send out) trivial fun _ u hu => ?_
    refine sat_waitElse (ht.next hu) (fun v hv => hv.mono fun h => absurd rfl h) fun v hsv => ?_
    refine sat_silent (.noBlockReceive inType .message) trivial ?_
    rintro (_ | mail) w hw
    · exact hsv.next hw
    · exact (hsv.next hw).mono fun _ => trivial
  · exact ht.mono fun _ => trivial

/-- `CatchMail` gives up at a `STOP`, and then the flag is looked at again. -/
theorem sat_sendWait (out : Message) (inType : PktType) (inData : List Byte) (limit : ℕ) :
    (sendWait out inType inData limit).Sat (stops phase)
      (fun b t => Looked phase s (b = true) t) s := by
  refine (sat_sendLoop out inType inData limit).bind ?_
  rintro (_ | ⟨attempts,inData'⟩) t ht
  · exact ht.mono fun h => by cases h
  have hst := ht.mono fun (_ : True) => Option.some_ne_none (attempts,inData')
  refine (sat_catchMail inType attempts).bind fun n u hu => ?_
  refine sat_isStopping.bind fun b v hv => ?_
  have hsv := (hst.watched.trans hu.watched).trans hv.1
  split
  case isTrue => exact ⟨hsv,fun h => by cases h⟩
  case isFalse hb =>
    have hquiet : Looked phase s True v :=
      ⟨hsv,fun _ => hsv.quiet (hv.2 (Bool.eq_false_iff.mpr hb))⟩
    refine (sat_charZero out.data).bind fun c w hw => ?_
    exact (hquiet.next hw).mono fun _ => trivial

theorem sat_catchWithAnswer (boxeID : PktType) (out : Message) :
    (catchWithAnswer boxeID out).Sat (stops phase) (fun n t => Looked phase s (n ≠ -2) t) s := by
  refine sat_silent .memory trivial fun dull t ht => ?_
  refine .iterate (fun _ t => Looked phase s True t) ht ?_
  rintro ⟨attempts,nbCatch,dull⟩ u hu
  dsimp only
  split
  · refine sat_waitElse hu (fun v hv => hv.mono fun h => absurd rfl h) fun v hsv => ?_
    refine sat_silent (.noBlockReceive boxeID .dull) trivial ?_
    rintro (_ | mail) w hw
    · exact hsv.next hw
    · have hsw := hsv.next hw
      dsimp only
      split
      · exact sat_silent (.send out) trivial fun _ x hx => hsw.next hx
      · exact hsw.mono fun _ => trivial
  · exact hu.mono fun _ => trivial

theorem sat_receiveLoop (inType : PktType) (inData : List Byte) (out : Message) :
    (receiveLoop inType inData out).Sat (stops phase)
      (fun r t => Looked phase s (r ≠ none) t) s := by
  refine .iterate (fun _ t => Looked phase s True t) (.refl phase s) ?_
  intro _ t ht
  refine sat_waitElse ht (fun u hu => hu.mono fun h => absurd rfl h) fun u hsu => ?_
  refine sat_silent (.noBlockReceive inType .message) trivial ?_
  rintro (_ | mail) v hv
  · exact hsu.next hv
  · have hsv := hsu.next hv
    exact sat_silent (.send _) trivial fun _ w hw => (hsv.next hw).mono fun _ => trivial

theorem sat_receiveWait (inType : PktType) (inData : List Byte) (out : Message) :
    (receiveWait inType inData out).Sat (stops phase)
      (fun r t => Looked phase s (r.1 = true) t) s := by
  refine (sat_receiveLoop inType inData out).bind ?_
  rintro (_ | ⟨inData',out'⟩) t ht
  · exact ht.mono fun h => by cases h
  · have hst := ht.mono fun (_ : True) => Option.some_ne_none (inData',out')
    refine (sat_catchWithAnswer inType out').bind fun n u hu => ?_
    exact hst.trans (hu.mono of_decide_eq_true) fun _ => trivial

theorem sat_awaitPieces (type : PktType) :
    (awaitPieces type).Sat (stops phase) (fun r t => Looked phase s (r ≠ none) t) s := by
  refine sat_silent .connectedID trivial fun id t ht => ?_
  refine (sat_receiveWait type _ _).bind ?_
  rintro ⟨status,inData⟩ u hu
  have hsu := ht.next hu
  dsimp only
  split
  case isTrue => exact hsu.mono fun h => absurd rfl h
  case isFalse hstatus =>
    refine (sat_readCString inData).bind fun text v hv => ?_
    refine ((hsu.mono fun (_ : True) => ?_).trans hv fun _ => trivial).mono fun _ => trivial
    simpa using hstatus

/-- Whatever a handshake comes to, it does not reset the flag. -/
theorem sat_syncWithMachine (id targetMachine : ℤ) :
    (syncWithMachine id targetMachine).Sat (stops phase) (fun _ t => Watched phase s t) s := by
  refine sat_silent .connectedID trivial fun c t ht => ?_
  split
  · exact ht.watched
  have hid : ∀ u, Watched phase s u →
      getConnectedID.Sat (stops phase) (fun _ t => Watched phase s t) u := fun u hu =>
    sat_silent .connectedID trivial fun _ v hv => hu.trans hv.watched
  refine (sat_sendWait _ .ack _ _).bind fun b u hu => ?_
  have hsu := ht.watched.trans hu.watched
  split
  · refine (sat_receiveWait .sync _ _).bind fun r v hv => ?_
    refine sat_silent (.setConnectedID targetMachine) trivial fun _ w hw => ?_
    exact hid w ((hsu.trans hv.watched).trans hw.watched)
  · exact hid u hsu

theorem sat_openConnection (id : ℤ) :
    (openConnection id).Sat (stops phase) (fun _ t => Watched phase s t) s := by
  refine sat_silent .connectedID trivial fun c t ht => ?_
  split
  · exact ht.watched
  have hid : ∀ u, Watched phase s u →
      getConnectedID.Sat (stops phase) (fun _ t => Watched phase s t) u := fun u hu =>
    sat_silent .connectedID trivial fun _ v hv => hu.trans hv.watched
  refine sat_silent (.receive .sync) trivial fun mail u hu => ?_
  refine sat_silent (.send _) trivial fun _ v hv => ?_
  refine (sat_catchWithAnswer .sync _).bind fun n w hw => ?_
  refine (sat_sendWait _ .ack _ _).bind fun b x hx => ?_
  have hsx := (((ht.watched.trans hu.watched).trans hv.watched).trans hw.watched).trans hx.watched
  split
  · exact sat_silent (.setConnectedID _) trivial fun _ y hy => hid y (hsx.trans hy.watched)
  · exact hid x hsx

end Looks

/-- A transfer that has reset the flag behind each `STOP` that it has seen. -/
structure Settled (ok : Prop) (t : StopState) : Prop where
  numbered : t.Numbered
  reset : ∀ x ∈ t.seen, x.1 = .transfer ∧ t.flag ≠ some x.2
  quiet : ok → t.seen = []

section Settled
variable {s t u : StopState} {ok : Prop}

theorem Settled.mono {ok' : Prop} (h : Settled ok s) (hok : ok' → ok) : Settled ok' s :=
  ⟨h.numbered,h.reset,fun h' => h.quiet (hok h')⟩

/-- A `STOP` that comes later has another number. -/
theorem Settled.after {phase : Phase} (h : Settled ok s) (hst : Looked phase s True t) :
    Settled ok t := by
  have hseen := hst.quiet trivial
  refine ⟨hst.watched.numbered h.numbered,?_,?_⟩
  · intro x hx
    rw [hseen] at hx
    obtain ⟨hphase,hflag⟩ := h.reset x hx
    refine ⟨hphase,fun ht => ?_⟩
    cases hs : s.flag with
    | none =>
      have hle := (hst.watched.fresh hs _ ht).1
      exact absurd (h.numbered.seen x hx) (not_lt.mpr hle)
    | some k => exact hflag (hs.trans ((hst.watched.kept k hs).symm.trans ht))
  · rw [hseen]
    exact h.quiet

theorem Watched.settled (h : Watched .transfer s t) (hs : Settled True s) :
    Settled False { t with flag := none } := by
  have ht := h.numbered hs.numbered
  refine ⟨⟨fun k hk => (by cases hk),ht.seen⟩,?_,False.elim⟩
  obtain ⟨l,hl,hall⟩ := h.seen
  rw [hs.quiet trivial] at hl
  intro x hx
  refine ⟨(hall x ?_).1,nofun⟩
  rwa [← List.nil_append l, ← hl]

theorem sat_reset (h : Watched .transfer s t) (hs : Settled True s) :
    (tcp (.setStoppingConnection false)).Sat (stops .transfer) (fun _ u => Settled False u) t := by
  refine ⟨trivial,?_⟩
  rintro _ _ ⟨u,hu,rfl⟩
  exact (h.trans (hu.watched .transfer)).settled hs

theorem sat_clearStop (h : Watched .transfer s t) (hs : Settled True s) :
    clearStop.Sat (stops .transfer) (fun _ u => Settled False u) t := by
  refine sat_isStopping.bind fun b u hu => ?_
  have hsu := h.trans hu.1
  cases b with
  | true => exact sat_reset hsu hs
  | false =>
    have hu' := hsu.settled hs
    rwa [← hu.2 rfl] at hu'

theorem sat_sendMessage (data : List Byte) (hs : Settled True s) :
    (sendMessage data).Sat (stops .transfer) (fun b t => Settled (b = true) t) s := by
  refine sat_silent .connectedID trivial fun c t ht => ?_
  split
  · exact (hs.after ht).mono fun _ => trivial
  refine sat_silent .connectedID trivial fun id u hu => ?_
  have hsu := (hs.after ht).after hu
  refine (sat_sendWait _ .ack _ _).bind fun b v hv => ?_
  split
  case isTrue hb =>
    exact (sat_clearStop hv.watched hsu).bind fun _ w hw => hw.mono fun h => hb h
  case isFalse hb =>
    have hb' : b = true := not_not.mp hb
    exact (hsu.after ⟨hv.watched,fun _ => hv.quiet hb'⟩).mono fun _ => trivial

theorem sat_announce (type : PktType) (nbPieces : ℕ) (hs : Settled True s) :
    (announce type nbPieces).Sat (stops .transfer) (fun b t => Settled (b = true) t) s := by
  refine sat_silent .connectedID trivial fun id t ht => ?_
  have hst := hs.after ht
  refine (sat_sendWait _ .ack _ _).bind fun b v hv => ?_
  split
  case isTrue hb =>
    exact (sat_clearStop hv.watched hst).bind fun _ w hw => hw.mono fun h => hb h
  case isFalse hb =>
    have hb' : b = true := not_not.mp hb
    exact (hst.after ⟨hv.watched,fun _ => hv.quiet hb'⟩).mono fun _ => trivial

theorem sat_receiveMessage (hs : Settled True s) :
    receiveMessage.Sat (stops .transfer) (fun r t => Settled (r.1 = true) t) s := by
  refine sat_silent .connectedID trivial fun c t ht => ?_
  split
  · exact (hs.after ht).mono fun _ => trivial
  refine sat_silent .connectedID trivial fun id u hu => ?_
  have hsu := (hs.after ht).after hu
  refine (sat_receiveWait .msg _ _).bind ?_
  rintro ⟨status,inData⟩ v hv
  cases status with
  | true =>
    refine (sat_readCString inData).bind fun text w hw => ?_
    exact ((hsu.after ⟨hv.watched,fun _ => hv.quiet rfl⟩).after hw).mono fun _ => trivial
  | false =>
    refine (sat_reset hv.watched hsu).bind fun _ w hw => ?_
    refine (sat_readCString inData).bind fun text x hx => ?_
    exact (hw.after hx).mono fun h => by cases h

theorem sat_pause (hs : Settled True s) :
    pause.Sat (stops .transfer) (fun _ t => Settled True t) s :=
  sat_silent (.schedule pauseTicks) trivial fun _ _ ht => sat_silent .stopSemP trivial fun _ _ hu =>
    sat_silent .waitSemP trivial fun _ _ hv => ((hs.after ht).after hu).after hv

theorem sat_sendString (data : List Byte) (hs : Settled True s) :
    (sendString data).Sat (stops .transfer) (fun b t => Settled (b = true) t) s := by
  refine sat_silent .connectedID trivial fun c t ht => ?_
  split
  · exact (hs.after ht).mono fun _ => trivial
  split
  · exact ⟨trivial,fun undefined => nomatch undefined⟩
  refine (sat_announce _ _ (hs.after ht)).bind fun value u hu => ?_
  split
  case isTrue hb => exact hu.mono fun h => by cases h
  case isFalse hb =>
    have hu' := hu.mono fun (_ : True) => not_not.mp hb
    refine .iterate (fun _ v => Settled True v) hu' ?_
    rintro (_ | ⟨piece,rest⟩) v hv
    · exact hv.mono fun _ => trivial
    refine (sat_sendMessage piece hv).bind fun sent w hw => ?_
    split
    case isTrue => exact hw.mono fun h => by cases h
    case isFalse hsent =>
      exact (sat_pause (hw.mono fun _ => not_not.mp hsent)).bind fun _ x hx => hx

theorem sat_sendFile (filename : List Byte) (hs : Settled True s) :
    (sendFile filename).Sat (stops .transfer) (fun b t => Settled (b = true) t) s := by
  refine sat_silent .connectedID trivial fun c t ht => ?_
  split
  · exact (hs.after ht).mono fun _ => trivial
  refine sat_silent (.fileOpen filename) trivial fun opened u hu => ?_
  split
  · exact ((hs.after ht).after hu).mono fun _ => trivial
  refine sat_silent .fileLength trivial fun length v hv => ?_
  refine (sat_announce _ _ (((hs.after ht).after hu).after hv)).bind fun value w hw => ?_
  split
  case isTrue hb => exact hw.mono fun h => by cases h
  case isFalse hb =>
    refine .iterate (fun _ x => Settled True x) (hw.mono fun _ => not_not.mp hb) fun i x hx => ?_
    split
    · refine sat_silent (.fileRead maxMailSize) trivial fun bytes y hy => ?_
      refine (sat_sendMessage _ (hx.after hy)).bind fun sent z hz => ?_
      split
      case isTrue => exact hz.mono fun h => by cases h
      case isFalse hsent =>
        exact (sat_pause (hz.mono fun _ => not_not.mp hsent)).bind fun _ _ h => h
    · exact hx.mono fun _ => trivial

theorem sat_stringPieces (size : ℤ) (hs : Settled True s) :
    (stringPieces size).Sat (stops .transfer) (fun r t => Settled (r ≠ none) t) s := by
  refine .iterate (fun _ t => Settled True t) hs ?_
  rintro ⟨i,result⟩ t ht
  dsimp only
  split
  · refine (sat_receiveMessage ht).bind ?_
    rintro ⟨_ | _,piece⟩ u hu
    · exact hu.mono fun h => absurd rfl h
    · exact hu.mono fun _ => rfl
  · exact ht.mono fun _ => trivial

theorem sat_filePieces (savename : List Byte) (size : ℤ) (hs : Settled True s) :
    (filePieces savename size).Sat (stops .transfer) (fun b t => Settled (b = true) t) s := by
  refine sat_silent (.fileCreate _ _) trivial fun _ t ht => ?_
  refine sat_silent (.fileOpen savename) trivial fun _ u hu => ?_
  refine .iterate (fun _ v => Settled True v) ((hs.after ht).after hu) fun i v hv => ?_
  split
  · refine (sat_receiveMessage hv).bind ?_
    rintro ⟨_ | _,text⟩ w hw
    · exact hw.mono fun h => by cases h
    · exact sat_silent (.fileWrite _) trivial fun _ x hx => (hw.mono fun _ => rfl).after hx
  · exact hv.mono fun _ => trivial

end Settled

inductive Call where
  | sendString (data : List Byte)
  | receiveString
  | sendFile (filename : List Byte)
  | receiveFile (savename : List Byte)
  | syncWithMachine (targetMachine : ℤ)
  | openConnection
  deriving DecidableEq, Repr

/-- A call on machine `id`; the result is whether it returns `false` or `-1`. -/
def program (id : ℤ) : Call → PhasedProg Bool
  | .sendString data => do return !(← during .transfer (sendString data))
  | .receiveString => do return (← receiveString).isNone
  | .sendFile filename => do return !(← during .transfer (sendFile filename))
  | .receiveFile savename => do return !(← receiveFile savename)
  | .syncWithMachine targetMachine => do
    return decide ((← during .handshake (syncWithMachine id targetMachine)) = -1)
  | .openConnection => do return decide ((← during .handshake (openConnection id)) = -1)

/-- A call, its result, the `STOP`s it saw and what `stoppingConnection` was when it returned. -/
structure Record where
  call : Call
  failed : Bool
  seen : List (Phase × ℕ)
  flag : Option ℕ
  deriving DecidableEq

/-- A call that saw a `STOP` fails, and that `STOP` does not set `stoppingConnection` any more. -/
def Record.AbortedOnce (r : Record) : Prop :=
  r.seen ≠ [] → r.failed = true ∧ ∀ x ∈ r.seen, r.flag ≠ some x.2

/-- A call that saw no `STOP` but in the phases of a transfer. -/
def Record.Guarded (r : Record) : Prop := ∀ x ∈ r.seen, x.1 = .transfer

section Call
variable {s t : StopState} {c : Call} {failed : Bool}

theorem Settled.record (h : Settled (failed = false) t) :
    (Record.mk c failed t.seen t.flag).AbortedOnce ↔
      (Record.mk c failed t.seen t.flag).Guarded := by
  refine iff_of_true (fun hseen => ⟨?_,fun x hx => (h.reset x hx).2⟩) fun x hx => (h.reset x hx).1
  cases failed with
  | true => rfl
  | false => exact absurd (h.quiet rfl) hseen

theorem Watched.record {phase : Phase} (h : Watched phase s t) (hs : s.seen = [])
    (hphase : phase ≠ .transfer) :
    (Record.mk c failed t.seen t.flag).AbortedOnce ↔
      (Record.mk c failed t.seen t.flag).Guarded := by
  obtain ⟨l,hl,hall⟩ := h.seen
  rw [hs, List.nil_append] at hl
  rw [hl]
  cases l with
  | nil => exact iff_of_true (fun h => absurd rfl h) (by simp [Record.Guarded])
  | cons x l =>
    obtain ⟨hx,hflag⟩ := hall x List.mem_cons_self
    refine iff_of_false (fun h => ?_) fun h => ?_
    · exact (h (List.cons_ne_nil x l)).2 x List.mem_cons_self hflag
    · exact hphase (hx.symm.trans (h x List.mem_cons_self))

theorem sat_info {α : Type} {type : PktType} {failure : α} {pieces : ℤ → PhasedProg α}
    {Q : α → StopState → Prop} (hs : Settled True s)
    (hfailure : ∀ t, Watched .info s t → Q failure t)
    (hpieces : ∀ size t, Settled True t → (pieces size).Sat phasedStops Q t) :
    (do if (← during .info getConnectedID) = -1 then return failure
        match ← during .info (awaitPieces type) with
        | none => return failure
        | some size => pieces size : PhasedProg α).Sat phasedStops Q s := by
  have hid : getConnectedID.Sat (stops .info) (fun _ t => Looked .info s True t) s :=
    sat_silent .connectedID trivial fun _ _ h => h
  refine (sat_during.mpr hid).bind fun id t ht => ?_
  split
  · exact hfailure t ht.watched
  refine (sat_during.mpr (sat_awaitPieces type)).bind ?_
  rintro (_ | size) u hu
  · exact hfailure u (ht.watched.trans hu.watched)
  · exact hpieces size u ((hs.after ht).after (hu.mono fun _ => Option.some_ne_none size))

/-- A call is aborted once just where it is guarded. -/
theorem sat_program (id : ℤ) (c : Call) (hs : Settled True s) :
    (program id c).Sat phasedStops (fun failed t =>
      (Record.mk c failed t.seen t.flag).AbortedOnce ↔
        (Record.mk c failed t.seen t.flag).Guarded) s := by
  have hseen := hs.quiet trivial
  cases c with
  | sendString data =>
    refine (sat_during.mpr (sat_sendString data hs)).bind fun b t ht => ?_
    exact (ht.mono fun h => by simpa using h).record
  | sendFile filename =>
    refine (sat_during.mpr (sat_sendFile filename hs)).bind fun b t ht => ?_
    exact (ht.mono fun h => by simpa using h).record
  | syncWithMachine targetMachine =>
    refine (sat_during.mpr (sat_syncWithMachine id targetMachine)).bind fun b t ht => ?_
    exact ht.record hseen (by decide)
  | openConnection =>
    refine (sat_during.mpr (sat_openConnection id)).bind fun b t ht => ?_
    exact ht.record hseen (by decide)
  | receiveString =>
    refine (sat_info hs (Q := fun (r : Option (List Byte)) t =>
      (Record.mk .receiveString r.isNone t.seen t.flag).AbortedOnce ↔
        (Record.mk .receiveString r.isNone t.seen t.flag).Guarded) ?_ ?_).bind fun r t ht => ht
    · exact fun t ht => ht.record hseen (by decide)
    · intro size t ht
      refine (sat_during.mpr (sat_stringPieces size ht)).mono fun r u hu => ?_
      exact (hu.mono fun h => by simpa [Option.ne_none_iff_isSome] using h).record
  | receiveFile savename =>
    refine (sat_info hs (Q := fun b t => (Record.mk (.receiveFile savename) (!b) t.seen
      t.flag).AbortedOnce ↔ (Record.mk (.receiveFile savename) (!b) t.seen t.flag).Guarded)
      ?_ ?_).bind fun r t ht => ht
    · exact fun t ht => ht.record hseen (by decide)
    · intro size t ht
      refine (sat_during.mpr (sat_filePieces savename size ht)).mono fun b u hu => ?_
      exact (hu.mono fun h => by simpa using h).record

end Call

/-! Sessions: one call after another, with whatever else the thread does in between. -/

/-- The numbers in a later state are old or come from the flag or from later `STOP`s. -/
structure Since (s t : StopState) : Prop where
  next : s.next ≤ t.next
  flag : ∀ k, t.flag = some k → s.flag = some k ∨ s.next ≤ k ∧ k < t.next
  seen : ∀ x ∈ t.seen, x ∈ s.seen ∨ s.flag = some x.2 ∨ s.next ≤ x.2 ∧ x.2 < t.next

section Since
variable {s t u : StopState} {α : Type} {phase : Phase}

theorem Since.refl (s : StopState) : Since s s := ⟨le_rfl,fun _ h => .inl h,fun _ h => .inl h⟩

theorem Since.number (h : Since s t) (h' : t.next ≤ u.next) {k : ℕ}
    (hk : t.flag = some k ∨ t.next ≤ k ∧ k < u.next) :
    s.flag = some k ∨ s.next ≤ k ∧ k < u.next := by
  rcases hk with hk | ⟨hle,hlt⟩
  · rcases h.flag k hk with hk | ⟨hle,hlt⟩
    · exact .inl hk
    · exact .inr ⟨hle,hlt.trans_le h'⟩
  · exact .inr ⟨h.next.trans hle,hlt⟩

theorem Since.trans (h : Since s t) (h' : Since t u) : Since s u := by
  refine ⟨h.next.trans h'.next,fun k hk => h.number h'.next (h'.flag k hk),fun x hx => ?_⟩
  rcases h'.seen x hx with hx | hx
  · rcases h.seen x hx with hx | hx | ⟨hle,hlt⟩
    · exact .inl hx
    · exact .inr (.inl hx)
    · exact .inr (.inr ⟨hle,hlt.trans_le h'.next⟩)
  · exact .inr (h.number h'.next hx)

theorem Since.numbered (h : Since s t) (hs : s.Numbered) : t.Numbered := by
  refine ⟨fun k hk => ?_,fun x hx => ?_⟩
  · rcases h.flag k hk with hk | ⟨-,hlt⟩
    · exact (hs.flag k hk).trans_le h.next
    · exact hlt
  · rcases h.seen x hx with hx | hx | ⟨-,hlt⟩
    · exact (hs.seen x hx).trans_le h.next
    · exact (hs.flag _ hx).trans_le h.next
    · exact hlt

theorem Watched.since (h : Watched phase s t) : Since s t := by
  have hflag : ∀ k, t.flag = some k → s.flag = some k ∨ s.next ≤ k ∧ k < t.next := by
    intro k hk
    cases hs : s.flag with
    | none => exact .inr (h.fresh hs k hk)
    | some j => exact .inl ((h.kept j hs).symm.trans hk)
  refine ⟨h.next,hflag,?_⟩
  obtain ⟨l,hl,hall⟩ := h.seen
  intro x hx
  rw [hl] at hx
  rcases List.mem_append.mp hx with hx | hx
  · exact .inl hx
  · exact .inr (hflag _ (hall x hx).2)

theorem since_op {op : TcpOp} {r : op.Resp} (h : (stops phase).post op s r t) : Since s t := by
  obtain ⟨u,hu,he⟩ := h
  have hsu := (hu.watched phase).since
  cases op
  case stoppingConnection =>
    obtain ⟨-,rfl⟩ := he
    exact hsu.trans (watched_look phase u).since
  case setStoppingConnection b =>
    obtain rfl := he
    cases b with
    | true => exact hsu.trans (watched_raise phase u).since
    | false => exact ⟨hsu.next,nofun,hsu.seen⟩
  all_goals
    have hlooked : Looked phase s True t := looked_op (by trivial) ⟨u,hu,he⟩
    exact hlooked.watched.since

theorem since_reaches {p q : PhasedProg α} (h : Reaches phasedStops p s q t) : Since s t := by
  induction h with
  | refl => exact .refl _
  | head hs _ ih =>
    cases hs with
    | respond hr => exact (since_op hr).trans ih
    | turn => exact ih

end Since

def StopState.start (s : StopState) : StopState := { s with seen := [] }

inductive Session (id : ℤ) : StopState → List Record → StopState → Prop
  | done (s : StopState) : Session id s [] s
  | call {s t u : StopState} {c : Call} {failed : Bool} {rest : List Record} :
      Reaches phasedStops (program id c) s.start (.ret failed) t → Session id t rest u →
      Session id s (⟨c,failed,t.seen,t.flag⟩ :: rest) u
  /-- Any other operations. -/
  | other {s t u : StopState} {α : Type} {a : α} {phase : Phase} {p : TcpProg α}
      {rest : List Record} : Reaches phasedStops (during phase p) s (.ret a) t →
      Session id t rest u → Session id s rest u

def StopState.initial : StopState := ⟨-1,none,0,[]⟩

section Session
variable {id : ℤ} {s t : StopState} {records : List Record}

theorem StopState.Numbered.start (hs : s.Numbered) : s.start.Numbered := ⟨hs.flag,nofun⟩

/-- A `STOP` that does not set the flag any more is not seen any more. -/
theorem Session.seen_ne (h : Session id s records t) {k : ℕ} (hk : k < s.next)
    (hflag : s.flag ≠ some k) : ∀ r ∈ records, ∀ x ∈ r.seen, x.2 ≠ k := by
  have hstep : ∀ {s t : StopState}, Since s t → k < s.next → s.flag ≠ some k →
      k < t.next ∧ t.flag ≠ some k := by
    intro s t hst hk hflag
    refine ⟨hk.trans_le hst.next,fun ht => ?_⟩
    rcases hst.flag k ht with hs | ⟨hle,-⟩
    · exact hflag hs
    · exact absurd hk (not_lt.mpr hle)
  induction h with
  | done s => simp
  | call hr _ ih =>
    have hst := since_reaches hr
    obtain ⟨hk',hflag'⟩ := hstep hst hk hflag
    intro r hmem
    rcases List.mem_cons.mp hmem with rfl | hmem
    · rintro x hx rfl
      rcases hst.seen x hx with hx | hx | ⟨hle,-⟩
      · cases hx
      · exact hflag hx
      · exact absurd hk (not_lt.mpr hle)
    · exact ih hk' hflag' r hmem
  | other hr _ ih =>
    obtain ⟨hk',hflag'⟩ := hstep (since_reaches hr) hk hflag
    exact ih hk' hflag'

theorem Session.abortedOnce (h : Session id s records t) (hs : s.Numbered) :
    ∀ r ∈ records, r.AbortedOnce ↔ r.Guarded := by
  induction h with
  | done s => simp
  | call hr _ ih =>
    intro r hmem
    rcases List.mem_cons.mp hmem with rfl | hmem
    · exact (sat_iff_safe.mp (sat_program id _ ⟨hs.start,nofun,fun _ => rfl⟩) _ _ hr).2 _ rfl
    · exact ih ((since_reaches hr).numbered hs.start) r hmem
  | other hr _ ih => exact ih ((since_reaches hr).numbered hs)

/-- No two calls see one `STOP`. -/
theorem Session.pairwise (h : Session id s records t) (hs : s.Numbered)
    (hguarded : ∀ r ∈ records, r.Guarded) :
    records.Pairwise fun r r' => ∀ x ∈ r.seen, ∀ y ∈ r'.seen, x.2 ≠ y.2 := by
  induction h with
  | done s => exact .nil
  | call hr hrest ih =>
    have ht := (since_reaches hr).numbered hs.start
    have honce := ((Session.call hr hrest).abortedOnce hs _ List.mem_cons_self).mpr
      (hguarded _ List.mem_cons_self)
    refine .cons ?_ (ih ht fun r hr => hguarded r (List.mem_cons_of_mem _ hr))
    intro r' hr' x hx y hy heq
    have hflag := (honce (List.ne_nil_of_mem hx)).2 x hx
    exact hrest.seen_ne (ht.seen x hx) hflag r' hr' y hy heq.symm
  | other hr _ ih => exact ih ((since_reaches hr).numbered hs) hguarded

/-- In a session a call that sees a `STOP` fails and resets `stoppingConnection` just when it
sees it in a transfer, and when all calls see them in transfers only, no two see the same. -/
theorem stopOnce (h : Session id .initial records t) :
    (∀ r ∈ records, r.AbortedOnce ↔ r.Guarded) ∧ ((∀ r ∈ records, r.Guarded) →
      records.Pairwise fun r r' => ∀ x ∈ r.seen, ∀ y ∈ r'.seen, x.2 ≠ y.2) := by
  have hs : StopState.initial.Numbered := ⟨nofun,nofun⟩
  exact ⟨h.abortedOnce hs,h.pairwise hs⟩

end Session

section Runs
variable {α β ν : Type} {s t u : StopState} {q : PhasedProg α}

theorem respond {op : Phase × TcpOp} {next : op.2.Resp → PhasedProg α} (r : op.2.Resp) (n : ℕ)
    (he : Effect op.1 op.2 (StopState.raise^[n] s) r t)
    (h : Reaches phasedStops (next r) t q u) : Reaches phasedStops (.act op next) s q u :=
  .head (.respond ⟨_,⟨n,rfl⟩,he⟩) h

theorem turn {body : ν → PhasedProg (ν ⊕ β)} {x : ν} {next : β → PhasedProg α}
    (h : Reaches phasedStops (unroll body x next) s q u) :
    Reaches phasedStops (.loop body x next) s q u := .head .turn h

theorem reaches_connected (n : ℕ) (s : StopState) :
    Reaches phasedStops (during .transfer (tcp (.setConnectedID 1))) s (.ret ())
      { StopState.raise^[n] s with connectedID := 1 } := respond () n rfl .refl

theorem receiveString_stop (id : ℤ) : Reaches phasedStops (program id .receiveString)
    ⟨1,none,0,[]⟩ (.ret true) ⟨1,some 0,1,[(.info,0)]⟩ := by
  refine respond (1 : ℤ) 0 ⟨rfl,rfl⟩ ?_
  refine respond (1 : ℤ) 0 ⟨rfl,rfl⟩ ?_
  refine turn ?_
  refine respond () 0 rfl ?_
  refine respond () 0 rfl ?_
  exact respond true 1 ⟨rfl,rfl⟩ .refl

theorem sendString_stop (id : ℤ) (k m : ℕ) :
    Reaches phasedStops (program id (.sendString [65])) ⟨1,some k,m,[]⟩ (.ret true)
      ⟨1,none,m,[(.transfer,k),(.transfer,k)]⟩ := by
  refine respond (1 : ℤ) 0 ⟨rfl,rfl⟩ ?_
  refine respond (1 : ℤ) 0 ⟨rfl,rfl⟩ ?_
  refine turn ?_
  refine respond () 0 rfl ?_
  refine respond () 0 rfl ?_
  refine respond () 0 rfl ?_
  refine respond true 0 ⟨rfl,rfl⟩ ?_
  refine respond true 0 ⟨rfl,rfl⟩ ?_
  exact respond () 0 rfl .refl

theorem Session.record {id : ℤ} {r : Record} {rest : List Record} {c : Call} {failed : Bool}
    (hr : Reaches phasedStops (program id c) s.start (.ret failed) t)
    (hrecord : r = ⟨c,failed,t.seen,t.flag⟩) (h : Session id t rest u) :
    Session id s (r :: rest) u := hrecord ▸ .call hr h

/-- Two calls that a `STOP` each aborts. -/
def twoSends : List Record :=
  [⟨.sendString [65],true,[(.transfer,0),(.transfer,0)],none⟩,
    ⟨.sendString [65],true,[(.transfer,1),(.transfer,1)],none⟩]

theorem session_twoSends :
    Session 0 .initial twoSends ⟨1,none,2,[(.transfer,1),(.transfer,1)]⟩ :=
  .other (reaches_connected 1 _) <| .record (sendString_stop 0 0 1) rfl <|
    .other (reaches_connected 1 _) <| .record (sendString_stop 0 1 2) rfl <| .done _

theorem stopOnce_twoSends : (∀ r ∈ twoSends, r.AbortedOnce) ∧
    twoSends.Pairwise fun r r' => ∀ x ∈ r.seen, ∀ y ∈ r'.seen, x.2 ≠ y.2 := by
  obtain ⟨hiff,hpair⟩ := stopOnce session_twoSends
  have hguarded : ∀ r ∈ twoSends, r.Guarded := by simp [twoSends, Record.Guarded]
  exact ⟨fun r hr => (hiff r hr).mpr (hguarded r hr),hpair hguarded⟩

/-- `ReceiveString` leaves the flag set, and the `STOP` also aborts the `SendString` behind it. -/
theorem not_abortedOnce : ∃ records t, Session 0 .initial records t ∧
    (∃ r ∈ records, ¬ r.AbortedOnce) ∧
    ¬ records.Pairwise fun r r' => ∀ x ∈ r.seen, ∀ y ∈ r'.seen, x.2 ≠ y.2 := by
  have hsession : Session 0 .initial [⟨.receiveString,true,[(.info,0)],some 0⟩,
      ⟨.sendString [65],true,[(.transfer,0),(.transfer,0)],none⟩]
      ⟨1,none,1,[(.transfer,0),(.transfer,0)]⟩ :=
    .other (reaches_connected 0 _) <| .record (receiveString_stop 0) rfl <|
      .record (sendString_stop 0 0 1) rfl <| .done _
  refine ⟨_,_,hsession,⟨_,List.mem_cons_self,?_⟩,?_⟩
  · simp [Record.AbortedOnce]
  · simp

end Runs

end Nachos.StopOnce
