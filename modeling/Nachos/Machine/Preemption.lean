import Nachos.Machine.InterruptQueue
import Nachos.Machine.UserProgram

/-! # Interrupts between the instructions

`Run` of `mipssim.cc` calls `OneTick` after each instruction, whether it is done or traps. When a
handler is called there, the delayed load ends before its time, and the thread may be switched out
for a while. A program that leaves the target of a load alone in the next instruction does not
notice.
-/
namespace Nachos

namespace Interrupt
variable (L : SortedList) {μ : Type} (dev : Devices μ)

/-- What `CheckIfDue` does before it calls a handler. -/
def endLoad (status : MachineStatus) (m : Machine) : Outcome Machine :=
  if status = .userMode then m.delayedLoad 0 0 else .ok m

/-- `while (CheckIfDue(FALSE));` with the registers of the user program. -/
def drainUser : ℕ → Interrupt → μ → Machine → Outcome (Option (Interrupt × μ × Machine))
  | 0, _, _, _ => return none
  | passes + 1, s, mem, m => do
    let (fired,s,mem) ← checkIfDue L dev false s mem
    if fired then
      let m ← endLoad s.status m
      drainUser passes s mem m
    else return some (s,mem,m)

/-- `OneTick` with the registers of the user program, up to the call of `Yield`. -/
def oneTickUser (passes : ℕ) (s : Interrupt) (mem : μ) (m : Machine) :
    Outcome (Option (Interrupt × Option MachineStatus × μ × Machine)) := do
  let old := s.status
  let s := s.advance
  let r ← drainUser L dev passes { s with level := .intOff } mem m
  match r with
  | none => return none
  | some (s,mem,m) =>
    let s := { s with level := .intOn }
    if s.yieldOnReturn then
      return some ({ s with yieldOnReturn := false, status := .systemMode },some old,mem,m)
    else return some (s,none,mem,m)

end Interrupt

/-- A thread in `Run`, and whether it has been switched out by `Yield`. -/
structure UserThread (μ : Type) where
  machine : Machine
  interrupt : Interrupt
  mem : μ
  yielded : Bool

inductive UserStep (μ : Type) where
  | instruction (i : Instruction)
  /-- An instruction or its fetch has trapped, and the handler has returned. What the kernel has
  left behind is in the queue and in the devices. -/
  | trap (i : Option Instruction) (which : ExceptionType) (interrupt : Interrupt) (mem : μ)
  /-- `Yield` returns with the registers and the memory of the thread. What the other threads have
  left behind is in the queue and in the devices. -/
  | resume (interrupt : Interrupt) (mem : μ)

section Runs
variable (L : SortedList) {μ : Type} (dev : Devices μ) (debug : Bool) (handler : Handler)

/-- `OneTick`, at the end of a turn of the loop in `Run`. -/
def UserThread.Ticks (interrupt : Interrupt) (mem : μ) (m : Machine) (t : UserThread μ) : Prop :=
  ∃ passes old, interrupt.oneTickUser L dev passes mem m =
    .ok (some (t.interrupt,old,t.mem,t.machine)) ∧ t.yielded = old.isSome

/-- The loop in `Run`. -/
def userThreads : TransitionSystem (UserThread μ) (UserStep μ) where
  init s := s.machine.AtRest ∧ s.interrupt.status = .userMode ∧ s.yielded = false
  step s l t :=
    match l with
    | .instruction i => s.yielded = false ∧ ∃ e m, Machine.Completes debug s.machine i e m ∧
        t.Ticks L dev s.interrupt s.mem m
    | .trap i which interrupt mem => s.yielded = false ∧ ∃ u m,
        Machine.Traps debug s.machine i which u ∧ handler which u m ∧
        t.Ticks L dev { interrupt with status := .userMode } mem m
    | .resume interrupt mem => s.yielded = true ∧
        t = ⟨s.machine,{ interrupt with status := .userMode },mem,false⟩

end Runs

/-- What the program goes through in a run. -/
def UserStep.program {μ : Type} (ls : List (UserStep μ)) : List Turn :=
  ls.filterMap fun
    | .instruction i => some (.done i)
    | .trap i which _ _ => some (.trap i which)
    | .resume _ _ => none

namespace Machine
variable {n m m' : Machine} {i : Instruction} {e : Effect} {debug : Bool}

/-- `m` is `n`, or the delayed load of `n` has ended there. -/
def Ahead (n m : Machine) : Prop := m = n ∨ n.delayedLoad 0 0 = .ok m

theorem nextLoadValue_store {addr value : Word} {size : ℕ} (h : m.store addr size value = .ok e) :
    e.nextLoadValue = 0 := by
  unfold store at h
  cases hw : m.writeMem addr size value with
  | error s => rw [hw] at h; cases h
  | ok m' =>
    rw [hw] at h
    cases h
    rfl

theorem nextLoadValue_storeMerged {addr : Word} {merge : Word → Word → Word → Word}
    (h : m.storeMerged i addr merge = .ok e) : e.nextLoadValue = 0 := by
  unfold storeMerged at h
  split_ifs at h
  · cases h
  cases hr : m.readMem (addr &&& ~~~3) 4 with
  | error s => rw [hr] at h; cases h
  | ok p =>
    rw [hr] at h
    exact nextLoadValue_store h

theorem nextLoadValue_execute (hi : i.loadTarget = none) (h : m.execute i = .ok e) :
    e.nextLoadValue = 0 := by
  obtain ⟨op,rs,rt,rd,extra⟩ := i
  cases op
  case lb | lbu | lh | lhu | lw | lwl | lwr => cases hi
  case sb | sh | sw => exact nextLoadValue_store h
  case swl | swr => exact nextLoadValue_storeMerged h
  case syscall | res | unimp => exact absurd h raiseException_ne_ok
  case rfe | special | bcond => cases h
  case add | addi | sub =>
    simp only [execute] at h
    split_ifs at h
    · exact absurd h raiseException_ne_ok
    · cases h
      rfl
  case div | divu =>
    simp only [execute] at h
    split_ifs at h <;> cases h <;> rfl
  all_goals
    cases h
    rfl

section Settled
variable {k : Fin numGPRegs} {v : Word}

/-- The load is applied at the end of the instruction or is over before it. -/
theorem settle_delayedLoad (hload : n.registers .load = BitVec.ofNat 32 (Register.gpr k))
    (hvalue : n.registers .loadValue = v) (nextReg nextValue : Word) :
    (n.settle (.gpr k) v (n.registers .badVAddr)).delayedLoad nextReg nextValue =
      n.delayedLoad nextReg nextValue := by
  have hload' : (n.settle (.gpr k) v (n.registers .badVAddr)).registers .load =
      BitVec.ofNat 32 (Register.gpr 0) := by
    simp [settle, withRegisters, settled, show Register.load ≠ .badVAddr by decide]
    rfl
  rw [delayedLoad_eq hload, delayedLoad_eq hload', hvalue]
  refine congrArg Except.ok ?_
  simp only [settle, withRegisters, set, Machine.mk.injEq, true_and, and_true]
  have hbad : Register.badVAddr ≠ .gpr k := (Register.gpr_ne k (by decide)).symm
  funext j
  rcases eq_or_ne j (.gpr 0) with rfl | h0
  · simp
  rcases eq_or_ne j .loadValue with rfl | h₁
  · simp [h0]
  rcases eq_or_ne j .load with rfl | h₂
  · simp [h0, h₁]
  rcases eq_or_ne j .badVAddr with rfl | h₃
  · simp [h0, h₁, h₂, hbad, settled]
  · by_cases hk : j = .gpr k
    · subst hk
      simp [h0, h₁, h₂, h₃, settled]
    · simp [h0, h₁, h₂, h₃, hk, settled]

/-- What an interrupt makes of a pending load. -/
theorem delayedLoad_zero_eq (hp : Pending (.gpr k) v n) :
    n.delayedLoad 0 0 = .ok (n.settle (.gpr k) v (n.registers .badVAddr)) := by
  rw [delayedLoad_eq hp.load, hp.loadValue]
  refine congrArg Except.ok ?_
  simp only [settle, withRegisters, set, Machine.mk.injEq, true_and, and_true]
  have hbad : Register.badVAddr ≠ .gpr k := (Register.gpr_ne k (by decide)).symm
  funext j
  rcases eq_or_ne j (.gpr 0) with rfl | h0
  · have hnot : ¬ (Register.gpr 0 = .gpr k ∧ Register.gpr k ≠ .gpr 0) := fun h => h.2 h.1.symm
    simp [settled, hp.zero, hnot, show Register.gpr 0 ≠ .badVAddr by decide]
  rcases eq_or_ne j .loadValue with rfl | h₁
  · simp [h0, settled, show Register.loadValue ≠ .badVAddr by decide]
  rcases eq_or_ne j .load with rfl | h₂
  · simp [h0, h₁, settled, show Register.load ≠ .badVAddr by decide]
  rcases eq_or_ne j .badVAddr with rfl | h₃
  · simp [h0, h₁, h₂, hbad, settled]
  · by_cases hk : j = .gpr k
    · subst hk
      simp [h0, h₁, h₂, h₃, settled]
    · simp [h0, h₁, h₂, h₃, hk, settled]

theorem untouched_pc : Untouched (.gpr k) .pc :=
  ⟨by decide,by decide,by decide,.inl (Register.gpr_ne k (by decide)).symm⟩

/-- An instruction that leaves the target alone does the same when the load is over. -/
theorem Completes.unsettle (hp : Pending (.gpr k) v n) (h : i.Apart (.gpr k) v)
    (hc : Completes debug (n.settle (.gpr k) v (n.registers .badVAddr)) i e m') :
    ∃ e', Completes debug n i e' m' := by
  obtain ⟨⟨raw,u,hread,rfl,hexec⟩,hdone⟩ := hc
  rw [settle_registers untouched_pc] at hread
  obtain ⟨⟨_,w⟩,hread',hsame,hpair⟩ :=
    (rel_readMem (n.registers .badVAddr) hp (n.registers .pc) 4).ok_right hread
  obtain ⟨rfl,rfl⟩ := Prod.mk.inj hpair
  have hpw := hsame.pending hp
  obtain ⟨e',hexec',rfl⟩ := (rel_execute (n.registers .badVAddr) hpw h).ok_right hexec
  refine ⟨e',⟨_,w,hread',rfl,hexec'⟩,?_⟩
  have hframe : ∀ j, Register.lo < j → e'.machine.registers j = n.registers j := fun j hj =>
    (frames_execute w _ e' hexec' j (not_mem_writes hj)).trans (congrFun hsame.registers j)
  rw [oneInstruction, settle_registers untouched_pc, hread] at hdone
  rw [oneInstruction, hread']
  simp only [Exec.ok_bind, hexec, hexec'] at hdone ⊢
  have hload := settle_delayedLoad ((hframe .load (by decide)).trans hp.load)
    ((hframe .loadValue (by decide)).trans hp.loadValue) e'.nextLoadReg e'.nextLoadValue
  rw [hframe .badVAddr (by decide)] at hload
  rwa [hload] at hdone

/-- Where it traps, the kernel is handed the same machine. -/
theorem Traps.unsettle {j : Option Instruction} {which : ExceptionType} {t : Machine}
    (hp : Pending (.gpr k) v n) (h : ∀ i, j = some i → i.Apart (.gpr k) v)
    (ht : Traps debug (n.settle (.gpr k) v (n.registers .badVAddr)) j which t) :
    Traps debug n j which t := by
  have hbad : Register.gpr k ≠ .badVAddr := Register.gpr_ne k (by decide)
  obtain ⟨hswitch,htrap⟩ := ht
  have hrel := rel_readMem (n.registers .badVAddr) hp (n.registers .pc) 4
  cases j with
  | none =>
    rw [settle_registers untouched_pc] at hswitch
    obtain ⟨t',hread,hsame⟩ := hrel.trap_right hswitch
    obtain rfl := hsame.eq hbad
    refine ⟨hread,?_⟩
    rw [oneInstruction, hread]
    rfl
  | some i =>
    obtain ⟨raw,u,hread,rfl,hexec⟩ := hswitch
    rw [settle_registers untouched_pc] at hread
    obtain ⟨⟨_,w⟩,hread',hsame,hpair⟩ := hrel.ok_right hread
    obtain ⟨rfl,rfl⟩ := Prod.mk.inj hpair
    obtain ⟨t',hexec',hsame'⟩ := (rel_execute (n.registers .badVAddr) (hsame.pending hp)
      (h _ rfl)).trap_right hexec
    obtain rfl := hsame'.eq hbad
    refine ⟨⟨_,w,hread',rfl,hexec'⟩,?_⟩
    rw [oneInstruction, settle_registers untouched_pc, hread] at htrap
    rw [oneInstruction, hread']
    simpa only [Exec.ok_bind, hexec, hexec'] using htrap

end Settled

/-- What an instruction leaves behind for the next one. -/
def Leftover (n : Machine) (t : Option (Fin numGPRegs)) : Prop :=
  n.registers .load = loadReg t ∧ (t = none → n.registers .loadValue = 0)

theorem Completes.leftover (h : Completes debug n i e m') : m'.Leftover i.loadTarget := by
  obtain ⟨hload,hvalue,-⟩ := h.registers
  obtain ⟨⟨raw,u,-,rfl,hexec⟩,-⟩ := h
  exact ⟨hload,fun ht => hvalue.trans (nextLoadValue_execute ht hexec)⟩

theorem Leftover.pending {t : Option (Fin numGPRegs)} (h : n.Leftover t)
    (hzero : n.registers (.gpr 0) = 0) :
    Pending (.gpr (t.getD 0)) (n.registers .loadValue) n := by
  refine ⟨h.1.trans ?_,rfl,hzero⟩
  cases t <;> rfl

theorem Leftover.apart {t : Option (Fin numGPRegs)} (h : n.Leftover t)
    (hi : ∀ r, t = some r → Register.gpr r ∉ i.reads ++ i.writes) :
    i.Apart (.gpr (t.getD 0)) (n.registers .loadValue) := by
  cases t with
  | none => exact .inr ⟨rfl,h.2 rfl⟩
  | some r =>
    refine .inl fun k hk hkr => hi r rfl ?_
    rwa [hkr] at hk

theorem Ahead.instruction {t : Option (Fin numGPRegs)} (h : n.Ahead m) (hleft : n.Leftover t)
    (hzero : n.registers (.gpr 0) = 0)
    (hi : ∀ r, t = some r → Register.gpr r ∉ i.reads ++ i.writes)
    (hdone : Completes debug m i e m') : ∃ e', Completes debug n i e' m' := by
  rcases h with rfl | h
  · exact ⟨e,hdone⟩
  · have hp := hleft.pending hzero
    rw [delayedLoad_zero_eq hp] at h
    cases h
    exact hdone.unsettle hp (hleft.apart hi)

theorem Ahead.trap {t : Option (Fin numGPRegs)} {j : Option Instruction} {which : ExceptionType}
    {u : Machine} (h : n.Ahead m) (hleft : n.Leftover t) (hzero : n.registers (.gpr 0) = 0)
    (hi : ∀ r, t = some r → Register.gpr r ∉ (Turn.trap j which).touches)
    (htrap : Traps debug m j which u) : Traps debug n j which u := by
  rcases h with rfl | h
  · exact htrap
  · have hp := hleft.pending hzero
    rw [delayedLoad_zero_eq hp] at h
    cases h
    refine htrap.unsettle hp ?_
    rintro i rfl
    exact hleft.apart hi

theorem Traps.atRest {j : Option Instruction} {which : ExceptionType} {u : Machine}
    {r : Register} {v : Word} (hp : Pending r v n) (h : Traps debug n j which u) : u.AtRest := by
  obtain ⟨-,hregs⟩ := handsOver_oneInstruction hp debug which u h.trap
  have hsettled := hp.settle (u.registers .badVAddr)
  rw [Machine.settle, ← hregs] at hsettled
  exact ⟨hsettled.load,hsettled.loadValue,hsettled.zero⟩

theorem Ahead.interrupt {w : Machine} {t : Option (Fin numGPRegs)} (h : n.Ahead m)
    (hleft : n.Leftover t) (hzero : n.registers (.gpr 0) = 0)
    (hload : m.delayedLoad 0 0 = .ok w) : n.Ahead w := by
  rcases h with rfl | h
  · exact .inr hload
  · have hp := hleft.pending hzero
    have hsettled := delayedLoad_zero_eq hp
    obtain rfl := Except.ok.inj (h.symm.trans hsettled)
    rw [settle_delayedLoad hp.load hp.loadValue] at hload
    exact .inr hload

end Machine

section Runs
variable {L : SortedList} {μ : Type} {dev : Devices μ} {debug : Bool} {s s' : Interrupt}
  {mem mem' : μ} {n m m' : Machine} {t : Option (Fin numGPRegs)} {passes : ℕ}

/-- Any number of handlers. -/
theorem Machine.Ahead.drainUser (h : n.Ahead m) (hleft : n.Leftover t)
    (hzero : n.registers (.gpr 0) = 0)
    (hd : s.drainUser L dev passes mem m = .ok (some (s',mem',m'))) : n.Ahead m' := by
  induction passes generalizing s mem m with
  | zero => cases hd
  | succ passes ih =>
    obtain ⟨⟨fired,u,mem₁⟩,-,hd⟩ := Outcome.bind_eq_ok.mp hd
    cases fired with
    | false =>
      cases hd
      exact h
    | true =>
      obtain ⟨w,hw,hd⟩ := Outcome.bind_eq_ok.mp hd
      refine ih ?_ hd
      unfold Interrupt.endLoad at hw
      split_ifs at hw
      · exact h.interrupt hleft hzero hw
      · cases hw
        exact h

theorem Machine.Ahead.oneTickUser {old : Option MachineStatus} (h : n.Ahead m)
    (hleft : n.Leftover t) (hzero : n.registers (.gpr 0) = 0)
    (ht : s.oneTickUser L dev passes mem m = .ok (some (s',old,mem',m'))) : n.Ahead m' := by
  obtain ⟨r,hd,ht⟩ := Outcome.bind_eq_ok.mp ht
  cases r with
  | none => cases ht
  | some r =>
    obtain ⟨u,mem₁,w⟩ := r
    have hw := h.drainUser hleft hzero hd
    simp only [] at ht
    split_ifs at ht <;> cases ht <;> exact hw

theorem Interrupt.drain_of_user
    (hd : s.drainUser L dev passes mem m = .ok (some (s',mem',m'))) :
    s.drain L dev passes mem = .ok (some (s',mem')) := by
  induction passes generalizing s mem m with
  | zero => cases hd
  | succ passes ih =>
    obtain ⟨⟨fired,u,mem₁⟩,hc,hd⟩ := Outcome.bind_eq_ok.mp hd
    rw [drain, hc]
    cases fired with
    | false =>
      cases hd
      rfl
    | true =>
      obtain ⟨w,-,hd⟩ := Outcome.bind_eq_ok.mp hd
      exact ih hd

theorem Interrupt.oneTick_of_user {old : Option MachineStatus}
    (ht : s.oneTickUser L dev passes mem m = .ok (some (s',old,mem',m'))) :
    s.oneTick L dev passes mem = .ok (some (s',old,mem')) := by
  obtain ⟨r,hd,ht⟩ := Outcome.bind_eq_ok.mp ht
  cases r with
  | none => cases ht
  | some r =>
    obtain ⟨u,mem₁,w⟩ := r
    rw [oneTick]
    simp only [drain_of_user hd, Outcome.ok_bind] at ht ⊢
    split_ifs at ht ⊢ <;> cases ht <;> rfl

theorem Machine.Ahead.ticks {u : UserThread μ} (h : n.Ahead m) (hleft : n.Leftover t)
    (hzero : n.registers (.gpr 0) = 0) (ht : u.Ticks L dev s mem m) : n.Ahead u.machine := by
  obtain ⟨passes,old,ht,-⟩ := ht
  exact h.oneTickUser hleft hzero ht

/-- Whatever interrupts come and whenever the thread is switched out, a program that leaves the
targets of its loads alone goes through the same instructions and traps as without interrupts, and
is at most one delayed load ahead. -/
theorem interruptsInvisible (L : SortedList) (dev : Devices μ) (debug : Bool) (handler : Handler)
    (hhandler : ∀ which t m, t.AtRest → handler which t m → m.AtRest)
    (s₀ s : UserThread μ) (ls : List (UserStep μ))
    (hinit : (userThreads L dev debug handler).init s₀)
    (hrun : ((userThreads L dev debug handler).startAt s₀).Run ls s)
    (hrule : (UserStep.program ls).IsChain Turn.Respects) :
    ∃ n, ((program debug handler).startAt s₀.machine).Run (UserStep.program ls) n ∧
      n.Ahead s.machine := by
  suffices hinv : ∃ n, ((program debug handler).startAt s₀.machine).Run (UserStep.program ls) n ∧
      n.Ahead s.machine ∧ n.registers (.gpr 0) = 0 ∧
      n.Leftover ((UserStep.program ls).getLast?.bind Turn.loadTarget) by
    obtain ⟨n,hn,hahead,-⟩ := hinv
    exact ⟨n,hn,hahead⟩
  induction hrun with
  | start h =>
    subst h
    obtain ⟨hrest,-⟩ := hinit
    exact ⟨_,.start rfl,.inl rfl,hrest.zero,hrest.load,fun _ => hrest.loadValue⟩
  | @step ls u v l _ hstep ih =>
    cases l with
    | instruction i =>
      have hlabels : UserStep.program (ls ++ [.instruction i]) =
          UserStep.program ls ++ [.done i] := List.filterMap_append
      rw [hlabels] at hrule ⊢
      obtain ⟨hrule,-,hlast⟩ := List.isChain_append.mp hrule
      obtain ⟨n,hn,hahead,hzero,hleft⟩ := ih hrule
      obtain ⟨-,e,m,hdone,htick⟩ := hstep
      obtain ⟨e',hdone'⟩ := hahead.instruction hleft hzero (fun r hr => by
        obtain ⟨j,hj,hr⟩ := Option.bind_eq_some_iff.mp hr
        exact hlast j hj (.done i) rfl r hr) hdone
      have hleft' := hdone'.leftover
      refine ⟨m,hn.step ⟨e',hdone'⟩,?_,hdone'.sound.zero,?_⟩
      · exact Machine.Ahead.ticks (.inl rfl) hleft' hdone'.sound.zero htick
      · rwa [List.getLast?_concat]
    | trap i which interrupt mem =>
      have hlabels : UserStep.program (ls ++ [.trap i which interrupt mem]) =
          UserStep.program ls ++ [.trap i which] := List.filterMap_append
      rw [hlabels] at hrule ⊢
      obtain ⟨hrule,-,hlast⟩ := List.isChain_append.mp hrule
      obtain ⟨n,hn,hahead,hzero,hleft⟩ := ih hrule
      obtain ⟨-,w,m,htrap,hm,htick⟩ := hstep
      have htrap' := hahead.trap hleft hzero (fun r hr => by
        obtain ⟨j,hj,hr⟩ := Option.bind_eq_some_iff.mp hr
        exact hlast j hj (.trap i which) rfl r hr) htrap
      have hrest := hhandler which w m (htrap'.atRest (hleft.pending hzero)) hm
      have hleft' : m.Leftover none := ⟨hrest.load,fun _ => hrest.loadValue⟩
      refine ⟨m,hn.step ⟨w,htrap',hm⟩,?_,hrest.zero,?_⟩
      · exact Machine.Ahead.ticks (.inl rfl) hleft' hrest.zero htick
      · rwa [List.getLast?_concat]
    | resume interrupt mem =>
      have hlabels : UserStep.program (ls ++ [.resume interrupt mem]) = UserStep.program ls := by
        simp [UserStep.program]
      rw [hlabels] at hrule ⊢
      obtain ⟨-,rfl⟩ := hstep
      exact ih hrule

end Runs

/-- `lw r1,8(r0)` and a system call, with an interrupt that is due behind the load. -/
def UserThread.sample : UserThread Unit where
  machine := .pair 0x8c010008 0x0000000c
  interrupt := { Interrupt.new with
    level := .intOn
    pending := [(1,⟨0,0,0,1,.diskInt⟩)]
    status := .userMode
    scheduled := [⟨0,0,0,1,.diskInt⟩] }
  mem := ()
  yielded := false

/-- The handler puts a result into register 2. -/
theorem interruptsInvisible_syscall : ∃ (s : UserThread Unit) (n : Machine),
    ((program false fun _ t m => m = t.set (.gpr 2) 7).startAt UserThread.sample.machine).Run
      [.done (Instruction.decode 0x8c010008),.trap (some (Instruction.decode 0x0000000c)) .syscall]
      n ∧
    n.Ahead s.machine ∧ s.interrupt.invoked.length = 1 ∧ s.machine.registers (.gpr 2) = 7 := by
  let dev : Devices Unit := fun _ _ mem => ([],mem)
  let handler : Handler := fun _ t m => m = t.set (.gpr 2) 7
  let T := (userThreads .ordered dev false handler).startAt UserThread.sample
  have h₀ : T.Run [] UserThread.sample := .start rfl
  obtain ⟨m₁,t₁,w₁,e₁,h₁,htick₁,m₂,t₂,w₂,h₂,htick₂,hinvoked,htwo⟩ : ∃ m₁ t₁ w₁ e₁,
      Machine.Completes false UserThread.sample.machine (Instruction.decode 0x8c010008) e₁ m₁ ∧
      UserThread.sample.interrupt.oneTickUser .ordered dev 2 () m₁ = .ok (some (t₁,none,(),w₁)) ∧
      ∃ m₂ t₂ w₂,
      Machine.Traps false w₁ (some (Instruction.decode 0x0000000c)) .syscall m₂ ∧
      { t₁ with status := .userMode }.oneTickUser .ordered dev 2 () (m₂.set (.gpr 2) 7) =
        .ok (some (t₂,none,(),w₂)) ∧
      t₂.invoked.length = 1 ∧ w₂.registers (.gpr 2) = 7 :=
    ⟨_,_,_,_,⟨⟨0x8c010008,_,rfl,rfl,rfl⟩,rfl⟩,rfl,
      _,_,_,⟨⟨0x0000000c,_,rfl,rfl,rfl⟩,rfl⟩,rfl,rfl,rfl⟩
  have hrun₁ : T.Run [.instruction (Instruction.decode 0x8c010008)] ⟨w₁,t₁,(),false⟩ :=
    h₀.step ⟨rfl,e₁,m₁,h₁,2,none,htick₁,rfl⟩
  have hrun₂ : T.Run [.instruction (Instruction.decode 0x8c010008),
      .trap (some (Instruction.decode 0x0000000c)) .syscall t₁ ()] ⟨w₂,t₂,(),false⟩ :=
    hrun₁.step ⟨rfl,m₂,_,h₂,rfl,2,none,htick₂,rfl⟩
  have hrule : (Turn.done (Instruction.decode 0x8c010008)).Respects
      (.trap (some (Instruction.decode 0x0000000c)) .syscall) := by
    intro r hr
    cases hr
    decide
  obtain ⟨n,hn,hahead⟩ := interruptsInvisible .ordered dev false handler (by
    rintro which t _ ht rfl
    exact ⟨ht.load,ht.loadValue,ht.zero⟩) UserThread.sample _ _ ⟨⟨rfl,rfl,rfl⟩,rfl,rfl⟩ hrun₂
    (.cons_cons hrule (.singleton _))
  exact ⟨_,n,hn,hahead,hinvoked,htwo⟩

end Nachos
