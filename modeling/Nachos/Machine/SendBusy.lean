import Nachos.Machine.Network
import Nachos.Machine.InterruptQueue

/-! # The busy flag of the network device

`network.cc` with the interrupts it schedules. `NetworkSendDone` is static and
`sendBusy` private, so what other code does with them is nothing. `SendDone` and the
constructor clear the flag, `Send` asserts that it is clear, and no line sets it.
-/
namespace Nachos

namespace Interrupt
variable {L : SortedList} {μ : Type} {dev : Devices μ} {s t : Interrupt} {mem mem' : μ}

def scheduledAs (s : Interrupt) (handler : ℕ) : ℕ :=
  s.scheduled.countP fun p => decide (p.handler = handler)

def invokedAs (s : Interrupt) (handler : ℕ) : ℕ :=
  s.invoked.countP fun x => decide (x.1.handler = handler)

def IsPending (s : Interrupt) (handler : ℕ) : Prop := ∃ x ∈ s.pending, x.2.handler = handler

theorem Sound.isPending_iff (h : Sound s) (handler : ℕ) :
    s.IsPending handler ↔ s.scheduledAs handler ≠ s.invokedAs handler := by
  have hcount : s.scheduledAs handler =
      s.pending.countP (fun x => decide (x.2.handler = handler)) + s.invokedAs handler := by
    rw [scheduledAs, h.once.countP_eq, List.countP_append, List.countP_map, List.countP_map]
    rfl
  have hpos : s.IsPending handler ↔
      0 < s.pending.countP (fun x => decide (x.2.handler = handler)) := by
    simp only [IsPending, List.countP_pos_iff, decide_eq_true_eq]
  rw [hpos, hcount]
  omega

theorem scheduledAs_schedule {handler : ℕ} {arg fromNow : ℤ} {type : IntType} (h : ℕ)
    (hs : s.schedule L handler arg fromNow type = .ok t) :
    t.scheduledAs h = s.scheduledAs h + if handler = h then 1 else 0 := by
  unfold schedule at hs
  split_ifs at hs
  cases hs
  simp only [scheduledAs, List.countP_append, List.countP_singleton, decide_eq_true_eq]

end Interrupt

def HandlerCall.Schedules (h : ℕ) : HandlerCall → Prop
  | .yieldOnReturn => False
  | .schedule handler _ _ _ _ => handler = h

namespace Interrupt
variable {L : SortedList} {μ : Type} {dev : Devices μ} {s t : Interrupt} {mem mem' : μ}

theorem scheduledAs_runCalls {calls : List HandlerCall} {h : ℕ}
    (hno : ∀ c ∈ calls, ¬ c.Schedules h) (hr : s.runCalls L calls = .ok t) :
    t.scheduledAs h = s.scheduledAs h := by
  induction calls generalizing s with
  | nil =>
    cases hr
    rfl
  | cons call calls ih =>
    have hrest := fun c hc => hno c (List.mem_cons_of_mem call hc)
    have hcall := hno call List.mem_cons_self
    cases call with
    | yieldOnReturn =>
      obtain ⟨u,hu,hr⟩ := Outcome.bind_eq_ok.mp hr
      unfold requestYield at hu
      split_ifs at hu
      cases hu
      have htail := ih hrest hr
      exact htail
    | schedule handler arg fromNow type hpos =>
      obtain ⟨u,hu,hr⟩ := Outcome.bind_eq_ok.mp hr
      have hother : handler ≠ h := hcall
      rw [ih hrest hr, scheduledAs_schedule h hu, if_neg hother, Nat.add_zero]

theorem invoke_handled {k : ℤ} {p : PendingInterrupt} {fired : Bool}
    (hi : invoke L dev k p s mem = .ok (fired,t,mem')) :
    (t.scheduled = s.scheduled ∧ mem' = mem) ∨
    ∃ u v, u.scheduled = s.scheduled ∧ mem' = (dev p u mem).2 ∧
      u.runCalls L (dev p u mem).1 = .ok v ∧ t.scheduled = v.scheduled := by
  unfold invoke at hi
  simp only [] at hi
  split_ifs at hi with hidle
  · cases hi
    exact .inl ⟨rfl,rfl⟩
  · obtain ⟨v,hv,hi⟩ := Outcome.bind_eq_ok.mp hi
    cases hi
    right
    refine ⟨_,v,?_,rfl,hv,rfl⟩
    rfl

theorem checkIfDue_handled {advanceClock fired : Bool}
    (hc : checkIfDue L dev advanceClock s mem = .ok (fired,t,mem')) :
    (t.scheduled = s.scheduled ∧ mem' = mem) ∨
    ∃ p u v, u.scheduled = s.scheduled ∧ mem' = (dev p u mem).2 ∧
      u.runCalls L (dev p u mem).1 = .ok v ∧ t.scheduled = v.scheduled := by
  unfold checkIfDue at hc
  split_ifs at hc
  cases hs : s.pending with
  | nil =>
    rw [hs] at hc
    cases hc
    exact .inl ⟨rfl,rfl⟩
  | cons x rest =>
    obtain ⟨k,p⟩ := x
    rw [hs] at hc
    simp only [] at hc
    split_ifs at hc
    · exact (invoke_handled hc).imp_right fun h => ⟨p,h⟩
    · cases hc
      exact .inl ⟨rfl,rfl⟩
    · exact (invoke_handled hc).imp_right fun h => ⟨p,h⟩

/-- Handlers that never schedule `h` and keep `M`. -/
def Leaves (dev : Devices μ) (h : ℕ) (M : μ → Prop) : Prop :=
  ∀ p s mem, M mem → M (dev p s mem).2 ∧ ∀ c ∈ (dev p s mem).1, ¬ c.Schedules h

/-- `h` was scheduled `n` times, and the devices are in `M`. -/
structure Left (h n : ℕ) (M : μ → Prop) (s : Interrupt) (mem : μ) : Prop where
  count : s.scheduledAs h = n
  mem : M mem

section Ticks
variable {h n : ℕ} {M : μ → Prop} {passes : ℕ} {old : Option MachineStatus}

theorem Left.checkIfDue {advanceClock fired : Bool} (hs : Left h n M s mem) (hd : Leaves dev h M)
    (hc : Interrupt.checkIfDue L dev advanceClock s mem = .ok (fired,t,mem')) :
    Left h n M t mem' := by
  rcases checkIfDue_handled hc with ⟨hsched,rfl⟩ | ⟨p,u,v,hu,rfl,hv,ht⟩
  · constructor
    · rw [scheduledAs, hsched]
      exact hs.count
    · exact hs.mem
  · obtain ⟨hM,hno⟩ := hd p u mem hs.mem
    constructor
    · rw [scheduledAs, ht]
      apply (scheduledAs_runCalls hno hv).trans
      rw [scheduledAs, hu]
      exact hs.count
    · exact hM

theorem Left.drain (hs : Left h n M s mem) (hd : Leaves dev h M)
    (ht : Interrupt.drain L dev passes s mem = .ok (some (t,mem'))) : Left h n M t mem' := by
  induction passes generalizing s mem with
  | zero => cases ht
  | succ passes ih =>
    obtain ⟨⟨fired,u,mem₁⟩,hc,ht⟩ := Outcome.bind_eq_ok.mp ht
    have hu := hs.checkIfDue hd hc
    cases fired with
    | true => exact ih hu ht
    | false =>
      cases ht
      exact hu

theorem Left.advance (hs : Left h n M s mem) : Left h n M s.advance mem := by
  constructor
  · rw [← hs.count]
    unfold Interrupt.advance
    split_ifs <;> rfl
  · exact hs.mem

theorem Left.oneTick (hs : Left h n M s mem) (hd : Leaves dev h M)
    (ht : Interrupt.oneTick L dev passes s mem = .ok (some (t,old,mem'))) : Left h n M t mem' := by
  obtain ⟨r,hr,ht⟩ := Outcome.bind_eq_ok.mp ht
  cases r with
  | none => cases ht
  | some r =>
    obtain ⟨u,mem₁⟩ := r
    have hoff : Left h n M { s.advance with level := .intOff } mem :=
      ⟨hs.advance.count,hs.mem⟩
    have hu := hoff.drain hd hr
    simp only [] at ht
    split_ifs at ht
    · cases ht
      exact ⟨hu.count,hu.mem⟩
    · cases ht
      exact ⟨hu.count,hu.mem⟩

theorem Left.idle {awake : Bool} (hs : Left h n M s mem) (hd : Leaves dev h M)
    (ht : Interrupt.idle L dev passes s mem = .ok (some (awake,t,mem'))) : Left h n M t mem' := by
  obtain ⟨⟨fired,u,mem₁⟩,hc,ht⟩ := Outcome.bind_eq_ok.mp ht
  have hidle : Left h n M { s with status := .idleMode } mem := ⟨hs.count,hs.mem⟩
  have hu := hidle.checkIfDue hd hc
  cases fired with
  | false =>
    cases ht
    exact hu
  | true =>
    obtain ⟨r,hr,ht⟩ := Outcome.bind_eq_ok.mp ht
    cases r with
    | none => cases ht
    | some r =>
      have hv := hu.drain hd hr
      cases ht
      exact ⟨hv.count,hv.mem⟩

theorem Left.setLevel {now : IntStatus} (hs : Left h n M s mem) (hd : Leaves dev h M)
    (ht : Interrupt.setLevel L dev passes now s mem = .ok (some (t,old,mem'))) :
    Left h n M t mem' := by
  unfold Interrupt.setLevel at ht
  simp only [] at ht
  have hnow : Left h n M { s with level := now } mem := ⟨hs.count,hs.mem⟩
  split_ifs at ht
  · exact hnow.oneTick hd ht
  · cases ht
    exact hnow

end Ticks

end Interrupt

/-- What code outside of handlers does: it neither schedules `h` nor breaks `M`. -/
def KernelCall.Leaves {μ : Type} (h : ℕ) (M : μ → Prop) : KernelCall μ → Prop
  | .schedule handler _ _ _ => handler ≠ h
  | .device mem => M mem
  | _ => True

theorem Kernel.Step.left {L : SortedList} {μ : Type} {dev : Devices μ} {s t : Kernel μ}
    {call : KernelCall μ} {h n : ℕ} {M : μ → Prop} (hs : Kernel.Step L dev s call t)
    (hd : Interrupt.Leaves dev h M) (hcall : call.Leaves h M)
    (hl : Interrupt.Left h n M s.interrupt s.mem) : Interrupt.Left h n M t.interrupt t.mem := by
  cases hs with
  | schedule hs =>
    constructor
    · rw [Interrupt.scheduledAs_schedule h hs, if_neg hcall, Nat.add_zero]
      exact hl.count
    · exact hl.mem
  | oneTick hs => exact hl.oneTick hd hs
  | idle hs => exact hl.idle hd hs
  | setLevel hs => exact hl.setLevel hd hs
  | setStatus => exact ⟨hl.count,hl.mem⟩
  | resume _ => exact ⟨hl.count,hl.mem⟩
  | device => exact ⟨hl.count,hcall⟩

abbrev networkTime : ℤ := 100

/-- The two handlers of `network.cc`. -/
abbrev networkReadPoll : ℕ := 0
abbrev networkSendDone : ℕ := 1

namespace Network

def new (L : SortedList) (this : ℤ) (addr : Word) (inHdr : PacketHeader)
    (inbox : Buffer maxPacketSize) (interrupt : Interrupt) : Outcome (Network × Interrupt) := do
  let net : Network := ⟨addr,false,{ inHdr with length := 0 },inbox⟩
  let interrupt ← interrupt.schedule L networkReadPoll this networkTime .networkRecvInt
  return (net,interrupt)

/-- Up to the call of `writeHandler`. -/
def sendDone (net : Network) : Network := { net with sendBusy := false }

/-- `NetworkSendDone` in front of the write handler. Polling and the other devices are
in `others`. -/
def device {ν : Type} (others : Devices (Network × ν)) : Devices (Network × ν) := fun p s mem =>
  if p.handler = networkSendDone then others p s (mem.1.sendDone,mem.2) else others p s mem

/-- Outside of `Send` and `SendDone` nothing touches the flag or schedules `NetworkSendDone`. -/
def Private {ν : Type} (others : Devices (Network × ν)) : Prop :=
  ∀ p s mem, (others p s mem).2.1.sendBusy = mem.1.sendBusy ∧
    ∀ c ∈ (others p s mem).1, ¬ c.Schedules networkSendDone

/-- The same of the code that is not in a handler. -/
def Outside {ν : Type} (net : Network) (call : KernelCall (Network × ν)) : Prop :=
  call.Leaves networkSendDone fun mem => mem.1 = net

theorem Private.leaves {ν : Type} {others : Devices (Network × ν)} (h : Private others) :
    Interrupt.Leaves (device others) networkSendDone fun mem => mem.1.sendBusy = false := by
  intro p s mem hmem
  unfold device
  split_ifs
  · obtain ⟨hbusy,hno⟩ := h p s (mem.1.sendDone,mem.2)
    exact ⟨hbusy,hno⟩
  · obtain ⟨hbusy,hno⟩ := h p s mem
    exact ⟨hbusy.trans hmem,hno⟩

theorem sendBusy_receive {net net' : Network} {data bytes : Buffer maxPacketSize}
    {hdr : PacketHeader} (h : net.receive data = .ok (hdr,bytes,net')) :
    net'.sendBusy = net.sendBusy := by
  unfold receive at h
  simp only [] at h
  split_ifs at h
  · obtain ⟨_,-,h⟩ := Outcome.bind_eq_ok.mp h
    obtain ⟨_,-,h⟩ := Outcome.bind_eq_ok.mp h
    cases h
    rfl
  · cases h
    rfl

theorem sendBusy_checkPktAvail {net net' : Network} {socket socket' : List Packet} {read : Bool}
    (h : net.checkPktAvail socket = .ok (net',socket',read)) : net'.sendBusy = net.sendBusy := by
  unfold checkPktAvail at h
  split_ifs at h
  · cases h
    rfl
  · cases socket with
    | nil =>
      cases h
      rfl
    | cons buffer socket =>
      obtain ⟨_,-,h⟩ := Outcome.bind_eq_ok.mp h
      simp only [] at h
      split_ifs at h
      · obtain ⟨_,-,h⟩ := Outcome.bind_eq_ok.mp h
        obtain ⟨_,-,h⟩ := Outcome.bind_eq_ok.mp h
        cases h
        rfl
      · cases h

end Network

inductive NetworkCall (ν : Type) where
  | send (hdr : PacketHeader) (data : Buffer maxPacketSize) (buffer : Packet) (lost : Bool)
  | receive (data : Buffer maxPacketSize)
  | kernel (call : KernelCall (Network × ν))

/-- The packets that were given to `Send`. -/
def NetworkCall.IsSend {ν : Type} : NetworkCall ν → Bool
  | .send .. => true
  | _ => false

section Runs
variable (L : SortedList) {ν : Type} (others : Devices (Network × ν)) (this : ℤ)

inductive Network.Step (s : Kernel (Network × ν)) :
    NetworkCall ν → Kernel (Network × ν) → Prop
  | send {hdr : PacketHeader} {data : Buffer maxPacketSize} {buffer : Packet} {lost : Bool}
      {out : Option Packet} {t : Interrupt} :
      s.mem.1.send hdr data buffer lost = .ok out →
      s.interrupt.schedule L networkSendDone this networkTime .networkSendInt = .ok t →
      Step s (.send hdr data buffer lost) { s with interrupt := t }
  | receive {data bytes : Buffer maxPacketSize} {hdr : PacketHeader} {net : Network} :
      s.mem.1.receive data = .ok (hdr,bytes,net) →
      Step s (.receive data) { s with mem := (net,s.mem.2) }
  | kernel {call : KernelCall (Network × ν)} {t : Kernel (Network × ν)} :
      s.mem.1.Outside call → Kernel.Step L (Network.device others) s call t →
      Step s (.kernel call) t

/-- The network device of a machine that runs until it halts. -/
def networks : TransitionSystem (Kernel (Network × ν)) (NetworkCall ν) where
  init s := (∃ addr inHdr inbox,
      Network.new L this addr inHdr inbox .new = .ok (s.mem.1,s.interrupt)) ∧
    s.yielded = [] ∧ s.halted = false
  step s l t := s.halted = false ∧ Network.Step L others this s l t

end Runs

section Flag
variable {L : SortedList} {ν : Type} {others : Devices (Network × ν)} {this : ℤ}
  {s t : Kernel (Network × ν)} {ls : List (NetworkCall ν)}

/-- The flag tells whether `NetworkSendDone` is pending, and then `Send` is refused. -/
structure FlagRight (s : Kernel (Network × ν)) : Prop where
  busy : s.mem.1.sendBusy = true ↔ s.interrupt.IsPending networkSendDone
  refused : s.interrupt.IsPending networkSendDone →
    ∀ hdr data buffer lost, s.mem.1.send hdr data buffer lost = .error .assertion

/-- The flag stays clear, and `NetworkSendDone` is scheduled once for every packet. -/
structure NeverBusy (ls : List (NetworkCall ν)) (s : Kernel (Network × ν)) : Prop where
  sound : s.interrupt.Sound
  left : Interrupt.Left networkSendDone (ls.countP NetworkCall.IsSend)
    (fun mem : Network × ν => mem.1.sendBusy = false) s.interrupt s.mem

theorem Network.Step.neverBusy {l : NetworkCall ν} (hp : Network.Private others)
    (hs : Network.Step L others this s l t) (h : NeverBusy ls s) : NeverBusy (ls ++ [l]) t := by
  have hbusy := h.left.mem
  cases hs with
  | send hsend hsched =>
    obtain ⟨u,hu,hsound,-⟩ := Interrupt.schedule_spec (L := L) h.sound networkSendDone this
      .networkSendInt (show (0 : ℤ) < networkTime by decide)
    rw [hsched] at hu
    cases hu
    constructor
    · exact hsound
    · constructor
      · rw [Interrupt.scheduledAs_schedule networkSendDone hsched, if_pos rfl, h.left.count]
        simp [NetworkCall.IsSend]
      · exact hbusy
  | receive hr =>
    constructor
    · exact h.sound
    · constructor
      · rw [h.left.count]
        simp [NetworkCall.IsSend]
      · exact (Network.sendBusy_receive hr).trans hbusy
  | @kernel call u hcall hk =>
    have hcall' : call.Leaves networkSendDone fun mem => mem.1.sendBusy = false := by
      cases call with
      | schedule handler arg fromNow type => exact hcall
      | device mem =>
        have hnet : mem.1 = s.mem.1 := hcall
        change mem.1.sendBusy = false
        rw [hnet]
        exact hbusy
      | _ => trivial
    obtain ⟨hcount,hmem⟩ := hk.left hp.leaves hcall' h.left
    constructor
    · exact (hk.sound h.sound).1
    · constructor
      · rw [hcount]
        simp [NetworkCall.IsSend]
      · exact hmem

theorem neverBusy_of_run (hp : Network.Private others) (hr : (networks L others this).Run ls s) :
    NeverBusy ls s := by
  induction hr with
  | @start s hs =>
    obtain ⟨⟨addr,inHdr,inbox,hnew⟩,-,-⟩ := hs
    obtain ⟨u,hu,hnew⟩ := Outcome.bind_eq_ok.mp hnew
    obtain ⟨v,hv,hsound,-⟩ := Interrupt.schedule_spec (L := L) Interrupt.Sound.new networkReadPoll
      this .networkRecvInt (show (0 : ℤ) < networkTime by decide)
    rw [hu] at hv
    cases hv
    have hpair : ((⟨addr,false,{ inHdr with length := 0 },inbox⟩ : Network),u) =
        (s.mem.1,s.interrupt) := Except.ok.inj hnew
    obtain ⟨hnet,hint⟩ := Prod.mk.inj hpair
    constructor
    · rw [← hint]
      exact hsound
    · constructor
      · rw [← hint, Interrupt.scheduledAs_schedule networkSendDone hu]
        rfl
      · rw [← hnet]
  | step _ hs ih => exact hs.2.neverBusy hp ih

/-- `Send` does not look whether a packet is under way. -/
theorem sendBusy_iff (hp : Network.Private others) (hr : (networks L others this).Run ls s) :
    FlagRight s ↔ ls.countP NetworkCall.IsSend = s.interrupt.invokedAs networkSendDone := by
  obtain ⟨hsound,hcount,hbusy⟩ := neverBusy_of_run hp hr
  have hpend := hsound.isPending_iff networkSendDone
  rw [hcount] at hpend
  constructor
  · intro h
    by_contra hne
    have htrue := h.busy.mpr (hpend.mpr hne)
    rw [hbusy] at htrue
    cases htrue
  · intro hdone
    have hnone : ¬ s.interrupt.IsPending networkSendDone := fun hp => hpend.mp hp hdone
    constructor
    · rw [hbusy]
      exact ⟨fun h => absurd h Bool.false_ne_true,fun h => absurd h hnone⟩
    · intro h
      exact absurd h hnone

end Flag

/-- The handler of `networkReadPoll`; the packets in the socket are all there is besides
the network. -/
def polling : Devices (Network × List Packet) := fun p _ mem =>
  if p.handler = networkReadPoll then
    ([.schedule networkReadPoll p.arg networkTime .networkRecvInt (by decide)],
      match mem.1.checkPktAvail mem.2 with
      | .ok (net,socket,_) => (net,socket)
      | .error _ => mem)
  else ([],mem)

theorem polling_private : Network.Private polling := by
  intro p s mem
  unfold polling
  split_ifs
  · constructor
    · cases h : mem.1.checkPktAvail mem.2 with
      | ok r => exact Network.sendBusy_checkPktAvail h
      | error => rfl
    · intro c hc
      rw [List.mem_singleton.mp hc]
      exact Nat.zero_ne_one
  · constructor
    · rfl
    · rintro c ⟨⟩

/-- Machine 0 when its network has come up. -/
def quietMachine : Kernel (Network × List Packet) where
  interrupt := { Interrupt.new with
    pending := [(100,⟨0,networkReadPoll,0,100,.networkRecvInt⟩)]
    scheduled := [⟨0,networkReadPoll,0,100,.networkRecvInt⟩] }
  mem := (⟨0,false,⟨0,0,0⟩,⟨List.replicate maxPacketSize 0,rfl⟩⟩,[])
  yielded := []
  halted := false

/-- One byte for machine 1. -/
def oneByte : NetworkCall (List Packet) :=
  .send ⟨1,0,1⟩ ⟨List.replicate maxPacketSize 7,rfl⟩ ⟨List.replicate maxWireSize 0,rfl⟩ true

theorem quietMachine_run : (networks .ordered polling 0).Run [] quietMachine :=
  .start ⟨⟨0,⟨0,0,0⟩,_,rfl⟩,rfl,rfl⟩

theorem oneByte_run : ∃ s, (networks .ordered polling 0).Run [oneByte] s ∧
    s.interrupt.IsPending networkSendDone ∧ s.mem.1.sendBusy = false := by
  have hrun := quietMachine_run.step (l := oneByte) ⟨rfl,.send rfl rfl⟩
  refine ⟨_,hrun,⟨(100,⟨1,networkSendDone,0,100,.networkSendInt⟩),?_,rfl⟩,rfl⟩
  exact List.mem_cons_self

theorem sendBusy_iff_handled : ∃ ls s, (networks .ordered polling 0).Run ls s ∧
    ls.countP NetworkCall.IsSend = 1 ∧ FlagRight s := by
  have hrun := quietMachine_run.step (l := oneByte) ⟨rfl,.send rfl rfl⟩
  have hout (net : Network) : net.Outside (.idle : KernelCall (Network × List Packet)) := trivial
  have hrun := hrun.step (l := .kernel .idle)
    ⟨rfl,.kernel (hout _) (@Kernel.Step.idle _ _ _ _ 3 _ _ _ rfl)⟩
  exact ⟨_,_,hrun,rfl,(sendBusy_iff polling_private hrun).mpr rfl⟩

theorem not_sendBusy : ¬ ∀ s, (networks .ordered polling 0).Reachable s → FlagRight s := by
  intro h
  obtain ⟨s,hrun,hpend,hbusy⟩ := oneByte_run
  have htrue := (h s ⟨_,hrun⟩).busy.mpr hpend
  rw [hbusy] at htrue
  cases htrue

end Nachos
