import Nachos.Machine.LoadDelay
import Nachos.Machine.Restart

/-! # The register file

`DelayedLoad` stores through `registers[LoadReg]`. From the first instruction on, whatever the
words in memory and wherever an instruction ends, that is the number of a general register.
-/
namespace Nachos

/-- The pending load goes to a general register, and register 0 is zero. -/
structure RegistersSound (registers : Register → Word) : Prop where
  load : (registers .load).toNat < numGPRegs
  zero : registers (.gpr 0) = 0

/-- What the kernel and the simulator do to the registers. -/
inductive RegisterStep where
  /-- `OneInstruction`, with `DebugIsEnabled('m')` -/
  | instruction (debug : Bool)
  | raise (which : ExceptionType) (badVAddr : Word)
  /-- `DelayedLoad(0,0)`, before an interrupt handler is called -/
  | flush

namespace RegisterStep

def run (m : Machine) : RegisterStep → Exec Machine
  | instruction debug => m.oneInstruction debug
  | raise which badVAddr => m.raiseException which badVAddr
  | flush => (m.delayedLoad 0 0).exec

end RegisterStep

/-- Steps on any memory and any tables; a trap goes on with what the handler leaves. -/
def registerFile (handler : (Register → Word) → (Register → Word) → Prop) :
    TransitionSystem (Register → Word) RegisterStep where
  init registers := registers = fun _ => 0
  step registers l registers' := ∃ m : Machine, m.registers = registers ∧
    ((∃ m', l.run m = .ok m' ∧ m'.registers = registers') ∨
      ∃ which t, l.run m = .error (.trap which t) ∧ handler t.registers registers')

namespace Exec
variable {α β : Type} {x : Exec α}

def InBounds (x : Exec α) : Prop := x ≠ .error (.fault .outOfBounds)

theorem Clean.inBounds (h : Clean x) : InBounds x := h .outOfBounds

theorem inBounds_bind {f : α → Exec β} (hx : InBounds x) (hf : ∀ a, x = .ok a → InBounds (f a)) :
    InBounds (x >>= f) := by
  cases x with
  | ok a => exact hf a rfl
  | error e =>
    intro h
    refine hx ?_
    cases h
    rfl

end Exec

namespace Machine
open Exec
variable {m : Machine} {i : Instruction}

theorem loadMerged_unaligned {addr : Word} (h : ¬ addr &&& 3 = 0)
    (merge : Word → Word → Word → Word) :
    m.loadMerged i addr merge = .error (.fault .assertion) := by
  rw [loadMerged, if_pos h]
  rfl

theorem storeMerged_unaligned {addr : Word} (h : ¬ addr &&& 3 = 0)
    (merge : Word → Word → Word → Word) :
    m.storeMerged i addr merge = .error (.fault .assertion) := by
  rw [storeMerged, if_pos h]
  rfl

/-- Where the simulator stops, an assertion fails or a division has no quotient. -/
theorem execute_unsafe (h : ¬ m.HostSafe i) :
    m.execute i = .error (.fault .assertion) ∨ m.execute i = .error (.fault .overflow) := by
  obtain ⟨op,rs,rt,rd,extra⟩ := i
  cases op <;> dsimp only [HostSafe] at h
  case lwl | lwr => exact .inl (loadMerged_unaligned h _)
  case swl | swr => exact .inl (storeMerged_unaligned h _)
  case div =>
    obtain ⟨hmin,hone⟩ := not_not.mp h
    exact .inr (by simp [execute, hmin, hone])
  all_goals exact absurd trivial h

theorem inBounds_execute (hm : m.Wired) (hmax : i.opCode.LeMax) (hrfe : i.opCode ≠ .rfe) :
    InBounds (m.execute i) := by
  by_cases hsafe : m.HostSafe i
  · exact ((clean_execute hm hmax hrfe).mpr hsafe).inBounds
  · obtain h | h := execute_unsafe hsafe <;> rw [h] <;> exact fun h => by cases h

theorem inBounds_raise {α : Type} (hload : (m.registers .load).toNat < numGPRegs)
    (which : ExceptionType) (badVAddr : Word) :
    InBounds (m.raiseException which badVAddr : Exec α) := by
  have hload' : ((m.set .badVAddr badVAddr).registers .load).toNat < numGPRegs := by
    simpa [Register.load, Register.badVAddr] using hload
  obtain ⟨t,ht⟩ := delayedLoad_ok hload' 0 0
  rw [raiseException_eq ht]
  exact fun h => by cases h

/-- A machine without a table, or with two, fails the assertion of `Translate`. -/
theorem readMem_of_not_oneTable (hm : ¬ m.OneTable) (addr : Word) (size : ℕ) :
    (∃ which, m.readMem addr size = m.raiseException which addr) ∨
      m.readMem addr size = .error (.fault .assertion) := by
  have hfind : ∀ vpn, m.findEntry vpn = .error .assertion := by
    intro vpn
    unfold OneTable at hm
    unfold findEntry
    cases htlb : m.tlb <;> cases htable : m.pageTable <;> simp_all
  unfold readMem translate
  split_ifs
  · exact .inl ⟨.addressError,rfl⟩
  · rw [hfind]
    exact .inr rfl

theorem inBounds_readMem (hload : (m.registers .load).toNat < numGPRegs) (addr : Word) :
    InBounds (m.readMem addr 4) := by
  by_cases hm : m.OneTable
  · exact (clean_readMem ⟨hload,hm⟩ (.inr (.inr rfl)) addr).inBounds
  obtain ⟨which,h⟩ | h := readMem_of_not_oneTable hm addr 4
  · rw [h]
    exact inBounds_raise hload which addr
  · rw [h]
    exact fun h => by cases h

theorem oneTable_of_readMem {addr value : Word} {size : ℕ} {m' : Machine}
    (h : m.readMem addr size = .ok (value,m')) : m.OneTable := by
  by_contra hm
  obtain ⟨which,h'⟩ | h' := readMem_of_not_oneTable hm addr size
  · exact raiseException_ne_ok (h'.symm.trans h)
  · cases h'.symm.trans h

theorem inBounds_oneInstruction (hload : (m.registers .load).toNat < numGPRegs) (debug : Bool) :
    InBounds (m.oneInstruction debug) := by
  refine inBounds_bind (inBounds_readMem hload _) fun p hread => ?_
  have hsame := readMem_sameBut hread
  have hu := (Wired.mk hload (oneTable_of_readMem hread)).sameBut hsame
  obtain ⟨hmax,hrfe⟩ := Instruction.decode_opCode p.1
  simp only
  split_ifs
  · exact fun h => by cases h
  refine inBounds_bind (inBounds_execute hu hmax hrfe) fun e he => ?_
  have hl := frames_execute p.2 _ e he .load (not_mem_writes (by decide))
  obtain ⟨w,hw⟩ := delayedLoad_ok (hl ▸ hu.load) e.nextLoadReg e.nextLoadValue
  rw [hw]
  exact fun h => by cases h

variable {debug : Bool} {m' t w : Machine} {r : Fin numGPRegs}

theorem exists_completes (h : m.oneInstruction debug = .ok m') :
    ∃ raw u e, m.readMem (m.registers .pc) 4 = .ok (raw,u) ∧
      Completes debug m (Instruction.decode raw) e m' := by
  cases hread : m.readMem (m.registers .pc) 4 with
  | error s =>
    rw [oneInstruction, hread] at h
    cases h
  | ok p =>
    obtain ⟨raw,u⟩ := p
    cases hexec : u.execute (Instruction.decode raw) with
    | error s =>
      rw [oneInstruction, hread] at h
      simp only [Exec.ok_bind, hexec, Exec.error_bind] at h
      split_ifs at h
      all_goals cases h
    | ok e => exact ⟨raw,u,e,rfl,⟨raw,u,hread,rfl,hexec⟩,h⟩

theorem delayedLoad_zero {nextReg nextValue : Word}
    (h : m.delayedLoad nextReg nextValue = .ok w) : w.registers (.gpr 0) = 0 := by
  unfold delayedLoad at h
  split_ifs at h
  cases h
  simp

theorem loadReg_lt (target : Option (Fin numGPRegs)) : (loadReg target).toNat < numGPRegs := by
  cases target with
  | none => decide
  | some r =>
    have hr := r.isLt
    unfold numGPRegs at *
    rw [loadReg, BitVec.toNat_ofNat]
    omega

theorem Completes.sound {e : Effect} (h : Completes debug m i e m') :
    RegistersSound m'.registers := by
  obtain ⟨w,hw,-,-,hgpr⟩ := h.gpr
  refine ⟨?_,(hgpr 0).trans (delayedLoad_zero hw)⟩
  rw [h.registers.1]
  exact loadReg_lt _

end Machine

variable {m t : Machine}

theorem RegistersSound.pending (h : RegistersSound m.registers) :
    Machine.Pending ⟨(m.registers .load).toNat,h.load.trans (by decide)⟩ (m.registers .loadValue)
      m :=
  ⟨by simp,rfl,h.zero⟩

theorem settled_gpr {v : Word} (hlt : v.toNat < numTotalRegs) (value b : Word)
    (registers : Register → Word) (r : Fin numGPRegs) :
    Machine.settled ⟨v.toNat,hlt⟩ value b registers (.gpr r) =
      if v = BitVec.ofNat 32 r ∧ v ≠ 0 then value else registers (.gpr r) := by
  have h₁ : Register.gpr r ≠ .badVAddr := Register.gpr_ne r (by decide)
  have h₂ : Register.gpr r ≠ .load := Register.gpr_ne r (by decide)
  have h₃ : Register.gpr r ≠ .loadValue := Register.gpr_ne r (by decide)
  have hzero : (⟨v.toNat,hlt⟩ : Register) ≠ Register.gpr 0 ↔ v ≠ 0 :=
    not_congr (eq_comm.trans (Machine.gpr_eq_iff hlt))
  simp only [Machine.settled, h₁, h₂, h₃, if_false, or_self, Machine.gpr_eq_iff hlt, hzero]

/-- Only the pending load is applied by a trap. -/
theorem RegistersSound.handedOver {α : Type} {x : Exec α} {which : ExceptionType}
    (h : RegistersSound m.registers)
    (hx : Machine.HandsOver ⟨(m.registers .load).toNat,h.load.trans (by decide)⟩
      (m.registers .loadValue) m x) (ht : x = .error (.trap which t)) :
    RegistersSound t.registers ∧ ∀ r, t.registers (.gpr r) ≠ m.registers (.gpr r) →
      m.registers .load = BitVec.ofNat 32 r := by
  obtain ⟨-,hregs⟩ := hx which t ht
  rw [hregs]
  refine ⟨⟨Nat.succ_pos 31,?_⟩,fun r hr => ?_⟩
  · rw [settled_gpr, if_neg (fun h => h.2 h.1), h.zero]
  · by_contra hne
    rw [settled_gpr, if_neg (fun h => hne h.1)] at hr
    exact hr rfl

namespace RegisterStep

/-- The registers that a step may change: where the pending load goes, and what an instruction
writes itself. -/
def MayWrite (m : Machine) (r : Fin numGPRegs) (l : RegisterStep) : Prop :=
  m.registers .load = BitVec.ofNat 32 r ∨
    ∃ debug raw u, l = instruction debug ∧ m.readMem (m.registers .pc) 4 = .ok (raw,u) ∧
      Register.gpr r ∈ (Instruction.decode raw).writes

variable {m' : Machine} {r : Fin numGPRegs}

theorem run_inBounds (h : RegistersSound m.registers) (l : RegisterStep) :
    Exec.InBounds (l.run m) := by
  cases l with
  | instruction debug => exact Machine.inBounds_oneInstruction h.load debug
  | raise which badVAddr => exact Machine.inBounds_raise h.load which badVAddr
  | flush =>
    obtain ⟨w,hw⟩ := Machine.delayedLoad_ok h.load 0 0
    rw [run, hw]
    exact (Exec.clean_ok w).inBounds

theorem run_ok (h : RegistersSound m.registers) {l : RegisterStep} (hrun : l.run m = .ok m') :
    RegistersSound m'.registers ∧
      ∀ r, m'.registers (.gpr r) ≠ m.registers (.gpr r) → l.MayWrite m r := by
  cases l with
  | instruction debug =>
    obtain ⟨raw,u,e,hread,hdone⟩ := Machine.exists_completes hrun
    have hsound := hdone.sound
    refine ⟨hsound,fun r hr => ?_⟩
    by_cases h0 : r = 0
    · subst h0
      exact absurd (hsound.zero.trans h.zero.symm) hr
    rw [hdone.registers.2.2 r h0] at hr
    split_ifs at hr with hload
    · exact .inl hload
    · refine .inr ⟨debug,raw,u,rfl,hread,?_⟩
      by_contra hnot
      exact hr (hdone.value_eq hnot)
  | raise which badVAddr => exact absurd hrun Machine.raiseException_ne_ok
  | flush =>
    cases hw : m.delayedLoad 0 0 with
    | error f =>
      rw [run, hw] at hrun
      cases hrun
    | ok w =>
      rw [run, hw] at hrun
      cases hrun
      obtain ⟨hload,-,hgpr⟩ := Machine.delayedLoad_gpr hw
      have hzero := Machine.delayedLoad_zero hw
      refine ⟨⟨by rw [hload]; decide,hzero⟩,fun r hr => ?_⟩
      by_cases h0 : r = 0
      · subst h0
        exact absurd (hzero.trans h.zero.symm) hr
      rw [hgpr r h0] at hr
      split_ifs at hr with hload
      · exact .inl hload
      · exact absurd rfl hr

theorem run_trap (h : RegistersSound m.registers) {l : RegisterStep} {which : ExceptionType}
    (hrun : l.run m = .error (.trap which t)) : RegistersSound t.registers ∧
      ∀ r, t.registers (.gpr r) ≠ m.registers (.gpr r) → m.registers .load = BitVec.ofNat 32 r := by
  cases l with
  | instruction debug =>
    exact h.handedOver (Machine.handsOver_oneInstruction h.pending debug) hrun
  | raise which badVAddr =>
    exact h.handedOver (Machine.handsOver_raise h.pending which badVAddr) hrun
  | flush =>
    rw [run] at hrun
    cases hw : m.delayedLoad 0 0 <;> rw [hw] at hrun <;> cases hrun

end RegisterStep

theorem registersSound_of_reachable {handler : (Register → Word) → (Register → Word) → Prop}
    (hhandler : ∀ registers registers', RegistersSound registers →
      handler registers registers' → RegistersSound registers')
    {registers : Register → Word} (h : (registerFile handler).Reachable registers) :
    RegistersSound registers := by
  refine h.invariant ?_ ?_
  · rintro _ rfl
    exact ⟨by decide,rfl⟩
  · rintro _ l _ hsound ⟨m,rfl,⟨m',hrun,rfl⟩ | ⟨which,t,hrun,hstep⟩⟩
    · exact (RegisterStep.run_ok hsound hrun).1
    · exact hhandler _ _ (RegisterStep.run_trap hsound hrun).1 hstep

/-- A pending load always goes to a general register, and what else a step changes there is
what its instruction writes. -/
theorem registersInvariant (handler : (Register → Word) → (Register → Word) → Prop)
    (hhandler : ∀ registers registers', RegistersSound registers →
      handler registers registers' → RegistersSound registers')
    (registers : Register → Word) (h : (registerFile handler).Reachable registers) :
    RegistersSound registers ∧ ∀ (m : Machine) (l : RegisterStep), m.registers = registers →
      Exec.InBounds (l.run m) ∧
      (∀ m', l.run m = .ok m' → RegistersSound m'.registers ∧
        ∀ r, m'.registers (.gpr r) ≠ m.registers (.gpr r) → l.MayWrite m r) ∧
      ∀ which t, l.run m = .error (.trap which t) → RegistersSound t.registers ∧
        ∀ r, t.registers (.gpr r) ≠ m.registers (.gpr r) →
          m.registers .load = BitVec.ofNat 32 r := by
  have hsound := registersSound_of_reachable hhandler h
  refine ⟨hsound,?_⟩
  rintro m l rfl
  exact ⟨RegisterStep.run_inBounds hsound l,fun _ hrun => RegisterStep.run_ok hsound hrun,
    fun _ _ hrun => RegisterStep.run_trap hsound hrun⟩

/-- After `lw r1,8(r0)`, with a handler that does nothing. -/
theorem registersInvariant_lw : ∃ m,
    (Machine.sample 0x8c010008 fun _ => 0).oneInstruction false = .ok m ∧
      m.registers .load = 1 ∧ RegistersSound m.registers := by
  obtain ⟨m,hm,hload⟩ : ∃ m, (Machine.sample 0x8c010008 fun _ => 0).oneInstruction false = .ok m ∧
      m.registers .load = 1 := ⟨_,rfl,rfl⟩
  refine ⟨m,hm,hload,?_⟩
  have hreach : (registerFile fun registers registers' => registers' = registers).Reachable
      m.registers :=
    .step (.start rfl) (l := .instruction false) ⟨_,rfl,.inl ⟨m,hm,rfl⟩⟩
  refine (registersInvariant _ ?_ _ hreach).1
  rintro _ _ h rfl
  exact h

end Nachos
