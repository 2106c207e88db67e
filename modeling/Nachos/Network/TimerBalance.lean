import Nachos.Network.Office

/-! # Wake-ups and semaphores

Every wait schedules one wake-up, which releases both semaphores, and takes both. As long as
no `STOP` is handled there is nothing left of a wait when it is over.
-/
namespace Nachos

inductive TimerPhase where
  | idle
  | scheduled
  | halfway
  | waited

namespace TimerPhase

def Quiet (ph : TimerPhase) : Prop := ph = idle ∨ ph = waited

/-- The order of `Schedule`, the two `P` and the look into a mailbox, without `STOP`. -/
def contract : Contract TcpOp TcpOp.Resp TimerPhase where
  pre op ph := match op with
    | .schedule ticks => ph.Quiet ∧ tempo ≤ ticks
    | .stopSemP => ph = scheduled
    | .waitSemP => ph = halfway
    | .noBlockReceive _ _ => ph = waited
    | .setStoppingConnection b => b = false
    | .stopSemV => False
    | _ => True
  post op ph r ph' := match op with
    | .schedule _ => ph' = scheduled
    | .stopSemP => ph' = halfway
    | .waitSemP => ph' = waited
    | .stoppingConnection => r = false ∧ ph' = ph
    | _ => ph' = ph

variable {ph : TimerPhase}

theorem sat_wait (h : ph.Quiet) : wait.Sat contract (fun b t => b = false ∧ t = waited) ph := by
  refine ⟨⟨h,le_rfl⟩,?_⟩
  rintro - _ rfl
  refine ⟨rfl,?_⟩
  rintro - _ rfl
  refine ⟨trivial,?_⟩
  rintro b _ ⟨rfl,rfl⟩
  refine ⟨rfl,?_⟩
  rintro - _ rfl
  exact ⟨rfl,rfl⟩

theorem sat_pollBox (box : PktType) (into : Destination) :
    (pollBox box into).Sat contract (fun _ t => t.Quiet) waited := by
  refine ⟨rfl,?_⟩
  rintro r _ rfl
  exact .inr rfl

theorem sat_memory : memory.Sat contract (fun _ t => t = ph) ph := ⟨trivial,fun _ _ h => h⟩

theorem sat_behind : behind.Sat contract (fun _ t => t = ph) ph := ⟨trivial,fun _ _ h => h⟩

theorem sat_getConnectedID : getConnectedID.Sat contract (fun _ t => t = ph) ph :=
  ⟨trivial,fun _ _ h => h⟩

theorem sat_isStopping : isStopping.Sat contract (fun b t => b = false ∧ t = ph) ph :=
  ⟨trivial,fun _ _ h => h⟩

theorem sat_send (m : Message) : (tcp (.send m)).Sat contract (fun _ t => t = ph) ph :=
  ⟨trivial,fun _ _ h => h⟩

theorem sat_setConnectedID (id : ℤ) :
    (tcp (.setConnectedID id)).Sat contract (fun _ t => t = ph) ph := ⟨trivial,fun _ _ h => h⟩

theorem sat_clear :
    (tcp (.setStoppingConnection false)).Sat contract (fun _ t => t = ph) ph :=
  ⟨rfl,fun _ _ h => h⟩

theorem sat_openFile (name : List Byte) :
    (openFile name).Sat contract (fun _ t => t = ph) ph := ⟨trivial,fun _ _ h => h⟩

theorem sat_fileLength : fileLength.Sat contract (fun _ t => t = ph) ph :=
  ⟨trivial,fun _ _ h => h⟩

theorem sat_readFile (numBytes : ℕ) :
    (readFile numBytes).Sat contract (fun _ t => t = ph) ph := ⟨trivial,fun _ _ h => h⟩

theorem sat_charZero (data : List Byte) : (charZero data).Sat contract (fun _ t => t = ph) ph := by
  cases data with
  | nil =>
    refine sat_behind.bind ?_
    rintro _ _ rfl
    rfl
  | cons c data => rfl

theorem sat_readCString (data : List Byte) : (readCString data).Sat contract (fun _ t => t = ph) ph := by
  unfold readCString
  split
  · rfl
  · refine sat_behind.bind ?_
    rintro _ _ rfl
    rfl

theorem sat_catchMail (boxeID : PktType) (expected : ℤ) (h : ph.Quiet) :
    (catchMail boxeID expected).Sat contract (fun _ t => t.Quiet) ph := by
  refine Prog.Sat.iterate (fun _ t => t.Quiet) h ?_
  rintro ⟨attempts,nbCatch⟩ t ht
  simp only
  split
  · refine (sat_wait ht).bind ?_
    rintro _ _ ⟨rfl,rfl⟩
    refine (sat_pollBox boxeID .dull).bind ?_
    rintro (_ | mail) u hu
    · exact hu
    · simp only
      split <;> exact hu
  · exact ht

theorem sat_sendLoop (out : Message) (inType : PktType) (inData : List Byte) (limit : ℕ)
    (h : ph.Quiet) :
    (sendLoop out inType inData limit).Sat contract (fun _ t => t.Quiet) ph := by
  refine Prog.Sat.iterate (fun _ t => t.Quiet) h ?_
  intro attempts t ht
  split
  · refine (sat_send out).bind ?_
    rintro _ _ rfl
    refine (sat_wait ht).bind ?_
    rintro _ _ ⟨rfl,rfl⟩
    refine (sat_pollBox inType .message).bind ?_
    rintro (_ | mail) u hu <;> exact hu
  · exact ht

theorem sat_sendWait (out : Message) (inType : PktType) (inData : List Byte) (limit : ℕ)
    (h : ph.Quiet) :
    (sendWait out inType inData limit).Sat contract (fun _ t => t.Quiet) ph := by
  refine (sat_sendLoop out inType inData limit h).bind ?_
  rintro (_ | ⟨attempts,inData⟩) t ht
  · exact ht
  refine (sat_catchMail inType attempts ht).bind ?_
  intro _ u hu
  refine sat_isStopping.bind ?_
  rintro _ _ ⟨rfl,rfl⟩
  refine (sat_charZero out.data).bind ?_
  rintro _ _ rfl
  exact hu

theorem sat_catchWithAnswer (boxeID : PktType) (out : Message) (h : ph.Quiet) :
    (catchWithAnswer boxeID out).Sat contract (fun _ t => t.Quiet) ph := by
  refine sat_memory.bind ?_
  rintro dull _ rfl
  refine Prog.Sat.iterate (fun _ t => t.Quiet) h ?_
  rintro ⟨attempts,nbCatch,dull⟩ t ht
  simp only
  split
  · refine (sat_wait ht).bind ?_
    rintro _ _ ⟨rfl,rfl⟩
    refine (sat_pollBox boxeID .dull).bind ?_
    rintro (_ | mail) u hu
    · exact hu
    · simp only
      split
      · refine (sat_send out).bind ?_
        rintro _ _ rfl
        exact hu
      · exact hu
  · exact ht

theorem sat_receiveWait (inType : PktType) (inData : List Byte) (out : Message) (h : ph.Quiet) :
    (receiveWait inType inData out).Sat contract (fun _ t => t.Quiet) ph := by
  have hloop : (receiveLoop inType inData out).Sat contract (fun _ t => t.Quiet) ph := by
    refine Prog.Sat.iterate (fun _ t => t.Quiet) h ?_
    intro _ t ht
    refine (sat_wait ht).bind ?_
    rintro _ _ ⟨rfl,rfl⟩
    refine (sat_pollBox inType .message).bind ?_
    rintro (_ | mail) u hu
    · exact hu
    · refine (sat_send _).bind ?_
      rintro _ _ rfl
      exact hu
  refine hloop.bind ?_
  rintro (_ | ⟨inData,out⟩) t ht
  · exact ht
  refine (sat_catchWithAnswer inType out ht).bind ?_
  intro _ u hu
  exact hu

theorem sat_syncWithMachine (id targetMachine : ℤ) (h : ph.Quiet) :
    (syncWithMachine id targetMachine).Sat contract (fun _ t => t.Quiet) ph := by
  refine sat_getConnectedID.bind ?_
  rintro c _ rfl
  split
  · exact h
  refine (sat_sendWait _ _ _ _ h).bind ?_
  intro b t ht
  split
  · refine (sat_receiveWait _ _ _ ht).bind ?_
    intro _ u hu
    refine (sat_setConnectedID _).bind ?_
    rintro _ _ rfl
    exact sat_getConnectedID.mono fun _ _ h => h ▸ hu
  · exact sat_getConnectedID.mono fun _ _ h => h ▸ ht

theorem sat_openConnection (id : ℤ) (h : ph.Quiet) :
    (openConnection id).Sat contract (fun _ t => t.Quiet) ph := by
  refine sat_getConnectedID.bind ?_
  rintro c _ rfl
  split
  · exact h
  refine ⟨trivial,?_⟩
  rintro mail _ rfl
  refine (sat_send _).bind ?_
  rintro _ _ rfl
  refine (sat_catchWithAnswer _ _ h).bind ?_
  intro _ t ht
  refine (sat_sendWait _ _ _ _ ht).bind ?_
  intro b u hu
  split
  · refine (sat_setConnectedID _).bind ?_
    rintro _ _ rfl
    exact sat_getConnectedID.mono fun _ _ h => h ▸ hu
  · exact sat_getConnectedID.mono fun _ _ h => h ▸ hu

theorem sat_endConnection (id : ℤ) (h : ph.Quiet) :
    (endConnection id).Sat contract (fun _ t => t.Quiet) ph := by
  refine sat_getConnectedID.bind ?_
  rintro c _ rfl
  split
  · exact h
  refine sat_getConnectedID.bind ?_
  rintro target _ rfl
  refine sat_clear.bind ?_
  rintro _ _ rfl
  refine (sat_sendWait _ _ _ _ h).bind ?_
  intro b t ht
  have hret : (retValue b).Sat contract (fun _ u => u = t) t := by
    unfold retValue
    split
    · exact sat_getConnectedID
    · rfl
  refine hret.bind ?_
  rintro retVal _ rfl
  refine sat_getConnectedID.bind ?_
  rintro current _ rfl
  split
  · refine (sat_setConnectedID _).bind ?_
    rintro _ _ rfl
    exact ht
  · exact ht

theorem sat_clearStop : clearStop.Sat contract (fun _ t => t = ph) ph := by
  refine sat_isStopping.bind ?_
  rintro _ _ ⟨rfl,rfl⟩
  rfl

theorem sat_sendMessage (data : List Byte) (h : ph.Quiet) :
    (sendMessage data).Sat contract (fun _ t => t.Quiet) ph := by
  refine sat_getConnectedID.bind ?_
  rintro c _ rfl
  split
  · exact h
  refine sat_getConnectedID.bind ?_
  rintro target _ rfl
  refine (sat_sendWait _ _ _ _ h).bind ?_
  intro value t ht
  split
  · refine sat_clearStop.bind ?_
    rintro _ _ rfl
    exact ht
  · exact ht

theorem sat_receiveMessage (h : ph.Quiet) :
    receiveMessage.Sat contract (fun _ t => t.Quiet) ph := by
  refine sat_getConnectedID.bind ?_
  rintro c _ rfl
  split
  · exact h
  refine sat_getConnectedID.bind ?_
  rintro target _ rfl
  refine (sat_receiveWait _ _ _ h).bind ?_
  rintro ⟨status,inData⟩ t ht
  simp only
  split
  · refine sat_clear.bind ?_
    rintro _ _ rfl
    refine (sat_readCString _).bind ?_
    rintro _ _ rfl
    exact ht
  · refine (sat_readCString _).bind ?_
    rintro _ _ rfl
    exact ht

theorem sat_pause (h : ph.Quiet) : pause.Sat contract (fun _ t => t.Quiet) ph := by
  refine ⟨⟨h,by decide⟩,?_⟩
  rintro - _ rfl
  refine ⟨rfl,?_⟩
  rintro - _ rfl
  refine ⟨rfl,?_⟩
  rintro - _ rfl
  exact .inr rfl

theorem sat_announce (type : PktType) (nbPieces : ℕ) (h : ph.Quiet) :
    (announce type nbPieces).Sat contract (fun _ t => t.Quiet) ph := by
  refine sat_getConnectedID.bind ?_
  rintro target _ rfl
  refine (sat_sendWait _ _ _ _ h).bind ?_
  intro value t ht
  split
  · refine sat_clearStop.bind ?_
    rintro _ _ rfl
    exact ht
  · exact ht

theorem sat_sendString (data : List Byte) (h : ph.Quiet) :
    (sendString data).Sat contract (fun _ t => t.Quiet) ph := by
  refine sat_getConnectedID.bind ?_
  rintro c _ rfl
  split
  · exact h
  split
  · exact ⟨trivial,fun undefined => nomatch undefined⟩
  refine (sat_announce _ _ h).bind ?_
  intro value t ht
  split
  · exact ht
  refine Prog.Sat.iterate (fun _ t => t.Quiet) ht ?_
  rintro (_ | ⟨piece,rest⟩) u hu
  · exact hu
  refine (sat_sendMessage piece hu).bind ?_
  intro sent w hw
  split
  · exact hw
  exact (sat_pause hw).bind fun _ _ h => h

theorem sat_awaitPieces (type : PktType) (h : ph.Quiet) :
    (awaitPieces type).Sat contract (fun _ t => t.Quiet) ph := by
  refine sat_getConnectedID.bind ?_
  rintro target _ rfl
  refine (sat_receiveWait _ _ _ h).bind ?_
  rintro ⟨status,inData⟩ t ht
  simp only
  split
  · exact ht
  refine (sat_readCString _).bind ?_
  rintro _ _ rfl
  exact ht

theorem sat_receiveString (h : ph.Quiet) :
    receiveString.Sat contract (fun _ t => t.Quiet) ph := by
  refine sat_getConnectedID.bind ?_
  rintro c _ rfl
  split
  · exact h
  refine (sat_awaitPieces _ h).bind ?_
  rintro (_ | size) t ht
  · exact ht
  refine Prog.Sat.iterate (fun _ t => t.Quiet) ht ?_
  rintro ⟨i,result⟩ u hu
  simp only
  split
  · refine (sat_receiveMessage hu).bind ?_
    rintro ⟨status,piece⟩ w hw
    simp only
    split <;> exact hw
  · exact hu

theorem sat_sendFile (filename : List Byte) (h : ph.Quiet) :
    (sendFile filename).Sat contract (fun _ t => t.Quiet) ph := by
  refine sat_getConnectedID.bind ?_
  rintro c _ rfl
  split
  · exact h
  refine (sat_openFile filename).bind ?_
  rintro opened _ rfl
  split
  · exact h
  refine sat_fileLength.bind ?_
  rintro length _ rfl
  refine (sat_announce _ _ h).bind ?_
  intro value t ht
  split
  · exact ht
  refine Prog.Sat.iterate (fun _ t => t.Quiet) ht ?_
  intro i u hu
  split
  · refine (sat_readFile _).bind ?_
    rintro bytes _ rfl
    refine (sat_sendMessage _ hu).bind ?_
    intro sent w hw
    split
    · exact hw
    exact (sat_pause hw).bind fun _ _ h => h
  · exact hu

theorem sat_receiveFile (savename : List Byte) (h : ph.Quiet) :
    (receiveFile savename).Sat contract (fun _ t => t.Quiet) ph := by
  refine sat_getConnectedID.bind ?_
  rintro c _ rfl
  split
  · exact h
  refine (sat_awaitPieces _ h).bind ?_
  rintro (_ | size) t ht
  · exact ht
  refine ⟨trivial,?_⟩
  rintro - _ rfl
  refine (sat_openFile savename).bind ?_
  rintro opened _ rfl
  refine Prog.Sat.iterate (fun _ t => t.Quiet) ht ?_
  intro i u hu
  split
  · refine (sat_receiveMessage hu).bind ?_
    rintro ⟨status,text⟩ w hw
    simp only
    split
    · exact hw
    refine ⟨trivial,?_⟩
    rintro - _ rfl
    exact hw
  · exact hu

theorem sat_call (id : ℤ) (c : TcpCall) (h : ph.Quiet) :
    (c.prog id).Sat contract (fun _ t => t.Quiet) ph := by
  cases c with
  | syncWithMachine target => exact (sat_syncWithMachine id target h).bind fun _ _ h => h
  | openConnection => exact (sat_openConnection id h).bind fun _ _ h => h
  | endConnection => exact (sat_endConnection id h).bind fun _ _ h => h
  | sendString data => exact (sat_sendString data h).bind fun _ _ h => h
  | receiveString => exact (sat_receiveString h).bind fun _ _ h => h
  | sendFile filename => exact (sat_sendFile filename h).bind fun _ _ h => h
  | receiveFile savename => exact (sat_receiveFile savename h).bind fun _ _ h => h

end TimerPhase

structure Office.Rested (o : Office) : Prop where
  stopSem : o.stopSem = 0
  waitSem : o.waitSem = 0
  wakeUps : o.wakeUps = []

/-- Between waits nothing is left of one, and a look into a mailbox comes late enough. -/
structure TimerBalance (o : Office) : Prop where
  rested : o.waiting = false → o.Rested
  late : ∀ c box into next, o.user = some (c,.act (.noBlockReceive box into) next) →
    o.scheduledAt + tempo ≤ o.now

/-- The listener finds no `STOP`. -/
def NoStopTaken (o : Office) : OfficeStep → Prop
  | .run .listener _ => o.boxes .stop = []
  | _ => True

namespace TimerPhase

/-- What a phase says of the machine. -/
def Holds (o : Office) : TimerPhase → Prop
  | idle => o.waiting = false ∧ o.Rested
  | scheduled => o.waiting = true ∧
      ((∃ due, o.wakeUps = [due] ∧ o.scheduledAt + tempo ≤ due ∧ o.stopSem = 0 ∧ o.waitSem = 0) ∨
        (o.wakeUps = [] ∧ o.scheduledAt + tempo ≤ o.now ∧ o.stopSem = 1 ∧ o.waitSem = 1))
  | halfway => o.waiting = true ∧
      o.wakeUps = [] ∧ o.scheduledAt + tempo ≤ o.now ∧ o.stopSem = 0 ∧ o.waitSem = 1
  | waited => o.waiting = false ∧ o.scheduledAt + tempo ≤ o.now ∧ o.Rested

structure SameTimer (o o' : Office) : Prop where
  waiting : o'.waiting = o.waiting
  wakeUps : o'.wakeUps = o.wakeUps
  scheduledAt : o'.scheduledAt = o.scheduledAt
  stopSem : o'.stopSem = o.stopSem
  waitSem : o'.waitSem = o.waitSem
  now : o.now ≤ o'.now
  stopping : o'.stoppingConnection = o.stoppingConnection

variable {o o' : Office} {ph : TimerPhase}

theorem Holds.same (h : ph.Holds o) (ho : SameTimer o o') : ph.Holds o' := by
  have hnow := ho.now
  cases ph with
  | idle => exact ⟨ho.waiting.trans h.1,ho.stopSem.trans h.2.stopSem,ho.waitSem.trans h.2.waitSem,
      ho.wakeUps.trans h.2.wakeUps⟩
  | scheduled =>
    simp only [Holds, ho.waiting, ho.wakeUps, ho.scheduledAt, ho.stopSem, ho.waitSem] at h ⊢
    refine ⟨h.1,h.2.imp_right ?_⟩
    rintro ⟨hw,hlate,hs⟩
    exact ⟨hw,hlate.trans hnow,hs⟩
  | halfway =>
    simp only [Holds, ho.waiting, ho.wakeUps, ho.scheduledAt, ho.stopSem, ho.waitSem] at h ⊢
    obtain ⟨hwait,hw,hlate,hs⟩ := h
    exact ⟨hwait,hw,hlate.trans hnow,hs⟩
  | waited =>
    obtain ⟨hwait,hlate,hr⟩ := h
    refine ⟨ho.waiting.trans hwait,?_,ho.stopSem.trans hr.stopSem,ho.waitSem.trans hr.waitSem,
      ho.wakeUps.trans hr.wakeUps⟩
    rw [ho.scheduledAt]
    exact hlate.trans hnow

theorem Holds.rested (h : ph.Holds o) (hq : ph.Quiet) : o.waiting = false ∧ o.Rested := by
  rcases hq with rfl | rfl
  · exact h
  · exact ⟨h.1,h.2.2⟩

/-- A wait may be in progress or not; when none is, nothing is left of it. -/
theorem Holds.rested_of_not_waiting (h : ph.Holds o) (hw : o.waiting = false) : o.Rested := by
  cases ph with
  | idle => exact h.2
  | scheduled => exact absurd (hw.symm.trans h.1) Bool.false_ne_true
  | halfway => exact absurd (hw.symm.trans h.1) Bool.false_ne_true
  | waited => exact h.2.2

/-- The wake-up that is due is the one the wait in progress has scheduled. -/
theorem Holds.wakeUp {k time : ℕ} (h : ph.Holds o) (hk : o.wakeUps[k]? = some time)
    (hdue : time ≤ o.now) :
    ph.Holds { o with
      wakeUps := o.wakeUps.eraseIdx k
      waitSem := o.waitSem + 1
      stopSem := o.stopSem + 1 } := by
  have hne : o.wakeUps ≠ [] := fun h0 => by simp [h0] at hk
  cases ph with
  | idle => exact absurd h.2.wakeUps hne
  | halfway => exact absurd h.2.1 hne
  | waited => exact absurd h.2.2.wakeUps hne
  | scheduled =>
    obtain ⟨hw,⟨due,hups,hlate,hs,hwt⟩ | ⟨hups,-⟩⟩ := h
    · obtain ⟨rfl,rfl⟩ : k = 0 ∧ due = time := by
        cases k with
        | zero => simpa [hups] using hk
        | succ k => simp [hups] at hk
      exact ⟨hw,.inr ⟨by simp [hups],hlate.trans hdue,by simp [hs],by simp [hwt]⟩⟩
    · exact absurd hups hne

theorem keep {op : TcpOp} {r : op.Resp} (h : ph.Holds o) (hstop : o.stoppingConnection = false)
    (ho : SameTimer o o') (hpost : contract.post op ph r ph) :
    ∃ ph', contract.post op ph r ph' ∧ ph'.Holds o' ∧ o'.stoppingConnection = false :=
  ⟨ph,hpost,h.same ho,ho.stopping.trans hstop⟩

theorem SameTimer.refl (o : Office) : SameTimer o o := ⟨rfl,rfl,rfl,rfl,rfl,le_rfl,rfl⟩

theorem perform_phase {op : TcpOp} {answers : Answers} {r : op.Resp} {sent : Option Message}
    (hop : o.perform .user answers op = some (r,o',sent)) (hpre : contract.pre op ph)
    (h : ph.Holds o) (hstop : o.stoppingConnection = false) :
    ∃ ph', contract.post op ph r ph' ∧ ph'.Holds o' ∧ o'.stoppingConnection = false := by
  cases op with
  | schedule ticks =>
    cases hop
    obtain ⟨hquiet,hticks⟩ := hpre
    have hr := (h.rested hquiet).2
    refine ⟨scheduled,rfl,⟨rfl,.inl ⟨o.now + ticks,?_,?_,hr.stopSem,hr.waitSem⟩⟩,hstop⟩
    · simp [hr.wakeUps]
    · exact Nat.add_le_add_left hticks o.now
  | stopSemP =>
    obtain rfl : ph = scheduled := hpre
    obtain ⟨hwait,⟨due,-,-,hs,-⟩ | ⟨hups,hlate,hs,hw⟩⟩ := h
    · simp [Office.perform, hs] at hop
    · simp only [Office.perform, hs] at hop
      cases hop
      exact ⟨halfway,rfl,⟨hwait,hups,hlate,by simp,hw⟩,hstop⟩
  | waitSemP =>
    obtain rfl : ph = halfway := hpre
    obtain ⟨hwait,hups,hlate,hs,hw⟩ := h
    simp only [Office.perform, hw] at hop
    cases hop
    exact ⟨waited,rfl,⟨rfl,hlate,hs,by simp,hups⟩,hstop⟩
  | stopSemV => exact hpre.elim
  | setStoppingConnection b =>
    cases hop
    obtain rfl : b = false := hpre
    exact ⟨ph,rfl,h.same ⟨rfl,rfl,rfl,rfl,rfl,le_rfl,hstop.symm⟩,rfl⟩
  | stoppingConnection =>
    cases hop
    exact keep h hstop (.refl o) ⟨hstop,rfl⟩
  | noBlockReceive box into =>
    simp only [Office.perform] at hop
    split at hop
    · cases hop
      exact keep h hstop (.refl o) rfl
    · cases hop
      exact keep h hstop ⟨rfl,rfl,rfl,rfl,rfl,le_rfl,rfl⟩ rfl
  | receive box =>
    simp only [Office.perform] at hop
    split at hop
    · cases hop
    · cases hop
      exact keep h hstop ⟨rfl,rfl,rfl,rfl,rfl,le_rfl,rfl⟩ rfl
  | crash => cases hop
  | connectedID | setConnectedID | send | fileOpen | fileLength | fileRead | fileCreate
    | fileWrite | memory | behind =>
    cases hop
    exact keep h hstop ⟨rfl,rfl,rfl,rfl,rfl,le_rfl,rfl⟩ rfl

theorem advance_phase {α : Type} {p q : TcpProg α} {Q : α → TimerPhase → Prop}
    {answers : Answers} {sent : Option Message}
    (hstep : o.advance .user answers p = some (q,o',sent)) (hp : p.Sat contract Q ph)
    (h : ph.Holds o) (hstop : o.stoppingConnection = false) :
    ∃ ph', q.Sat contract Q ph' ∧ ph'.Holds o' ∧ o'.stoppingConnection = false :=
  Office.advance_sat (R := fun o ph => Holds o ph ∧ o.stoppingConnection = false) hstep hp
    ⟨h,hstop⟩ fun _ _ hop hpre => perform_phase hop hpre h hstop

/-- No thread of the machine but the user's has done anything. -/
structure Timed (o : Office) : Prop where
  notStopping : o.stoppingConnection = false
  listener : o.listener = none ∨ o.listener = some listenForEndConnection
  phase : ∃ ph : TimerPhase, ph.Holds o ∧ match o.user with
    | none => ph.Quiet
    | some (_,p) => p.Sat contract (fun _ t => t.Quiet) ph

theorem Timed.new (h : o.New) : Timed o := by
  obtain ⟨-,hstop,hs,hw,hups,huser,hlistener,-,-,hwait⟩ := h
  refine ⟨hstop,.inl hlistener,idle,⟨hwait,hs,hw,hups⟩,?_⟩
  rw [huser]
  exact .inl rfl

theorem Timed.aside (h : Timed o) (ho : SameTimer o o') (huser : o'.user = o.user)
    (hlistener : o'.listener = o.listener ∨ o'.listener = some listenForEndConnection) :
    Timed o' := by
  obtain ⟨ph,hph,hu⟩ := h.phase
  refine ⟨ho.stopping.trans h.notStopping,?_,ph,hph.same ho,huser ▸ hu⟩
  rcases hlistener with hl | hl
  · exact hl ▸ h.listener
  · exact .inr hl

/-- The listener starts with `Receive`. -/
theorem listen_eq : ∃ next, listenForEndConnection = .act (.receive .stop) next := ⟨_,rfl⟩

theorem listener_blocked {answers : Answers} (hempty : o.boxes .stop = []) :
    o.advance .listener answers listenForEndConnection = none := by
  obtain ⟨next,hnext⟩ := listen_eq
  simp [hnext, Office.advance, Office.perform, hempty]

theorem Timed.step {l : OfficeStep} {sent : Option Message} (h : Timed o)
    (hl : NoStopTaken o l) (hstep : o.step l = some (o',sent)) : Timed o' := by
  obtain ⟨ph,hph,hu⟩ := h.phase
  cases Office.step_cases hstep with
  | call c huser =>
    rw [huser] at hu
    exact ⟨h.notStopping,h.listener,ph,hph.same ⟨rfl,rfl,rfl,rfl,rfl,le_rfl,rfl⟩,
      sat_call o.id c hu⟩
  | listen => exact h.aside ⟨rfl,rfl,rfl,rfl,rfl,le_rfl,rfl⟩ rfl (.inr rfl)
  | user huser hadv =>
    rw [huser] at hu
    obtain ⟨ph',hq,hph',hstop'⟩ := advance_phase hadv hu hph h.notStopping
    exact ⟨hstop',(Office.advance_sameThreads hadv).listener ▸ h.listener,ph',
      hph'.same ⟨rfl,rfl,rfl,rfl,rfl,le_rfl,rfl⟩,hq⟩
  | listener hlistener hadv =>
    rcases h.listener with hnone | hsome
    · cases hlistener.symm.trans hnone
    · cases hlistener.symm.trans hsome
      rw [listener_blocked hl] at hadv
      cases hadv
  | userReturns huser =>
    rw [huser] at hu
    obtain ⟨hwait,-⟩ := hph.rested hu
    exact ⟨h.notStopping,h.listener,ph,hph.same ⟨hwait.symm,rfl,rfl,rfl,rfl,le_rfl,rfl⟩,hu⟩
  | listenerReturns hlistener =>
    obtain ⟨next,hnext⟩ := listen_eq
    rcases h.listener with hnone | hsome
    · cases hlistener.symm.trans hnone
    · cases (hlistener.symm.trans hsome).trans (congrArg some hnext)
  | wakeUp hk hdue => exact ⟨h.notStopping,h.listener,ph,hph.wakeUp hk hdue,hu⟩
  | elapse ticks => exact h.aside ⟨rfl,rfl,rfl,rfl,rfl,Nat.le_add_right _ _,rfl⟩ rfl (.inl rfl)
  | arrive box mail => exact h.aside ⟨rfl,rfl,rfl,rfl,rfl,le_rfl,rfl⟩ rfl (.inl rfl)

/-- What the phase of the user thread says when it is about to look into a mailbox. -/
theorem Timed.balance (h : Timed o) : TimerBalance o := by
  obtain ⟨ph,hph,hu⟩ := h.phase
  refine ⟨hph.rested_of_not_waiting,fun c box into next huser => ?_⟩
  rw [huser] at hu
  obtain rfl : ph = waited := hu.1
  exact hph.2.1

end TimerPhase

/-- As long as the listener takes no `STOP`, wake-ups and semaphores are balanced. -/
theorem timerBalance {o : Office} (h : (offices.guard NoStopTaken).Reachable o) :
    TimerBalance o := by
  refine (h.invariant (P := TimerPhase.Timed) (fun _ hnew => .new hnew) ?_).balance
  rintro s l t hs ⟨hl,sent,hstep⟩
  exact hs.step hl hstep

/-- The user thread has waited for the first ack. -/
theorem timerBalance_sync : ∃ o : Office, o.now = tempo ∧ o.user ≠ none ∧ o.waiting = false ∧
    TimerBalance o := by
  let own : OfficeStep := .run .user ⟨false,0,[]⟩
  let ls := [.call (.syncWithMachine 1),own,own,own,own,.elapse tempo,.wakeUp 0,own,own,own]
  have hrun : ((Office.new 0).steps ls).map (fun o => (o.now,o.user.isSome,o.waiting)) =
      some (tempo,true,false) := rfl
  obtain ⟨o,ho,heq⟩ := Option.map_eq_some_iff.mp hrun
  obtain ⟨hnow,huser,hwait⟩ : o.now = tempo ∧ o.user.isSome = true ∧ o.waiting = false := by
    simpa using heq
  refine ⟨o,hnow,Option.isSome_iff_ne_none.mp huser,hwait,
    timerBalance (reachable_steps (.start (Office.new_new 0)) ?_ ho)⟩
  simp [ls, own, NoStopTaken]

/-- The wait for the end of a connection and twenty waits for more `STOP`s. -/
theorem not_timerBalance : ∃ o : Office, offices.Reachable o ∧ o.user = none ∧
    o.listener = none ∧ o.waiting = false ∧ o.stopSem = 1 ∧ ¬ TimerBalance o := by
  let own : OfficeStep := .run .listener ⟨false,0,[]⟩
  let round := [own,own,.elapse tempo,.wakeUp 0,own,own,own,own]
  let ls := [.listen,.arrive .stop ⟨1,[65,0],0,0⟩,own,own,own] ++
    (List.replicate maxCatch round).flatten ++ [own,own,own,.finish .listener]
  have hrun : ((Office.new 0).steps ls).map
      (fun o => (o.user.isNone,o.listener.isNone,o.waiting,o.stopSem)) =
      some (true,true,false,1) := by decide +kernel
  obtain ⟨o,ho,heq⟩ := Option.map_eq_some_iff.mp hrun
  simp only [Prod.mk.injEq, Option.isNone_iff_eq_none] at heq
  obtain ⟨huser,hlistener,hwait,hsem⟩ := heq
  have hreach : (offices.guard fun _ _ => True).Reachable o :=
    reachable_steps (.start (Office.new_new 0)) (fun _ _ _ => trivial) ho
  obtain ⟨labels,hr⟩ := hreach
  refine ⟨o,⟨labels,hr.of_guard⟩,huser,hlistener,hwait,hsem,fun hb => ?_⟩
  have hzero := (hb.rested hwait).stopSem
  omega

end Nachos
