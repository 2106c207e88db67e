import Nachos.Machine.HostSafety
import Nachos.Library.Run

/-! # Delayed loads

A load is applied at the end of the next instruction, after what that instruction has written
itself. Where both go to the same register the load wins.
-/
namespace Nachos

/-- The register a load is for. -/
def Instruction.loadTarget (i : Instruction) : Option (Fin numGPRegs) :=
  match i.opCode with
  | .lb | .lbu | .lh | .lhu | .lw | .lwl | .lwr => some i.rt
  | _ => none

/-- `nextLoadReg` for the target of a load. -/
def loadReg : Option (Fin numGPRegs) → Word
  | some r => BitVec.ofNat 32 r
  | none => 0

namespace Exec

/-- The switch leaves this register for the next delayed load. -/
def Loads (r : Option (Fin numGPRegs)) (x : Exec Effect) : Prop :=
  ∀ e, x = .ok e → e.nextLoadReg = loadReg r

end Exec

namespace Machine
variable {m : Machine} {i : Instruction}

section Loads
open Exec

@[simp] theorem loads_raise (r : Option (Fin numGPRegs)) (which : ExceptionType)
    (badVAddr : Word) : Loads r (m.raiseException which badVAddr) :=
  fun _ h => absurd h raiseException_ne_ok

@[simp] theorem loads_fault (r : Option (Fin numGPRegs)) (f : Fault) :
    Loads r (.error (.fault f)) := fun _ h => by cases h

@[simp] theorem loads_assign (k : Register) (v : Word) : Loads none (m.assign k v) := by
  rintro _ ⟨⟩
  rfl

@[simp] theorem loads_assignHiLo (hi lo : Word) : Loads none (m.assignHiLo hi lo) := by
  rintro _ ⟨⟩
  rfl

@[simp] theorem loads_jump (pcAfter : Word) : Loads none (m.jump pcAfter) := by
  rintro _ ⟨⟩
  rfl

@[simp] theorem loads_branch (taken : Prop) [Decidable taken] : Loads none (m.branch i taken) :=
  loads_jump _

@[simp] theorem loads_load (addr : Word) (size : ℕ) (convert : Word → Word) :
    Loads (some i.rt) (m.load i addr size convert) := by
  intro e he
  unfold load at he
  cases hr : m.readMem addr size with
  | error s => rw [hr] at he; cases he
  | ok p =>
    rw [hr] at he
    cases he
    rfl

@[simp] theorem loads_store (addr : Word) (size : ℕ) (value : Word) :
    Loads none (m.store addr size value) := by
  intro e he
  unfold store at he
  cases hw : m.writeMem addr size value with
  | error s => rw [hw] at he; cases he
  | ok m' =>
    rw [hw] at he
    cases he
    rfl

@[simp] theorem loads_loadMerged (addr : Word) (merge : Word → Word → Word → Word) :
    Loads (some i.rt) (m.loadMerged i addr merge) := by
  intro e he
  unfold loadMerged at he
  split_ifs at he
  · cases he
  cases hr : m.readMem addr 4 with
  | error s => rw [hr] at he; cases he
  | ok p =>
    rw [hr] at he
    cases he
    rfl

@[simp] theorem loads_storeMerged (addr : Word) (merge : Word → Word → Word → Word) :
    Loads none (m.storeMerged i addr merge) := by
  intro e he
  unfold storeMerged at he
  split_ifs at he
  · cases he
  cases hr : m.readMem (addr &&& ~~~3) 4 with
  | error s => rw [hr] at he; cases he
  | ok p =>
    rw [hr] at he
    exact loads_store _ _ _ e he

theorem loads_execute (m : Machine) (i : Instruction) : Loads i.loadTarget (m.execute i) := by
  unfold execute Instruction.loadTarget
  cases i.opCode <;> dsimp only <;> (try split_ifs) <;> simp

end Loads

end Machine

/-- The value the instruction itself puts into a register, before the delayed load. -/
def Effect.value (e : Effect) (r : Fin numGPRegs) : Word := e.machine.registers (.gpr r)

namespace Machine

/-- An instruction that is fetched, executed and done; `effect` is what the switch leaves. -/
structure Completes (debug : Bool) (m : Machine) (i : Instruction) (effect : Effect)
    (m' : Machine) : Prop where
  switch : ∃ raw u, m.readMem (m.registers .pc) 4 = .ok (raw,u) ∧ Instruction.decode raw = i ∧
    u.execute i = .ok effect
  done : m.oneInstruction debug = .ok m'

def instructions (debug : Bool) : TransitionSystem Machine Instruction where
  init _ := False
  step m i m' := ∃ e, Completes debug m i e m'

/-- The machine after any number of instructions that do not write to a register. -/
def Sparing (debug : Bool) (r : Fin numGPRegs) (m m' : Machine) : Prop :=
  (((instructions debug).guard fun _ i => Register.gpr r ∉ i.writes).startAt m).Reachable m'

/-- From this machine on, the register holds the value until it is written to. -/
def Keeps (debug : Bool) (r : Fin numGPRegs) (m : Machine) (value : Word) : Prop :=
  ∀ m', Sparing debug r m m' → m'.registers (.gpr r) = value

variable {debug : Bool} {m m' : Machine} {i : Instruction} {e : Effect} {r : Fin numGPRegs}

theorem gpr_eq_iff {v : Word} (hlt : v.toNat < numTotalRegs) :
    Register.gpr r = ⟨v.toNat,hlt⟩ ↔ v = BitVec.ofNat 32 r := by
  have hr32 := r.isLt
  rw [Fin.ext_iff, ← BitVec.toNat_inj, BitVec.toNat_ofNat]
  change r.val = v.toNat ↔ v.toNat = r.val % 2 ^ 32
  unfold numGPRegs at hr32
  omega

theorem delayedLoad_gpr {w : Machine} {nextReg nextValue : Word}
    (h : m.delayedLoad nextReg nextValue = .ok w) :
    w.registers .load = nextReg ∧ w.registers .loadValue = nextValue ∧
      ∀ r ≠ (0 : Fin numGPRegs), w.registers (.gpr r) =
        if m.registers .load = BitVec.ofNat 32 r then m.registers .loadValue
        else m.registers (.gpr r) := by
  unfold delayedLoad at h
  split_ifs at h with hlt
  cases h
  have hload : Register.load ≠ .gpr 0 := by decide
  have hvalue : Register.loadValue ≠ .gpr 0 := by decide
  have hne : Register.load ≠ .loadValue := by decide
  refine ⟨by simp [hload, hne],by simp [hvalue],fun r hr => ?_⟩
  have hr0 : Register.gpr r ≠ .gpr 0 := fun h => hr (Fin.castLE_injective _ h)
  have hrl : Register.gpr r ≠ .load := Register.gpr_ne r (by decide)
  have hrv : Register.gpr r ≠ .loadValue := Register.gpr_ne r (by decide)
  have hidx := gpr_eq_iff (r := r) hlt
  simp only [set_registers, Function.update_of_ne hr0, Function.update_of_ne hrl,
    Function.update_of_ne hrv]
  by_cases h : m.registers .load = BitVec.ofNat 32 r
  · rw [if_pos h, ← hidx.mpr h, Function.update_self]
  · rw [if_neg h, Function.update_of_ne (mt hidx.mp h)]

theorem Completes.finish (h : Completes debug m i e m') :
    ∃ w, e.machine.delayedLoad e.nextLoadReg e.nextLoadValue = .ok w ∧
      m' = ((w.set .prevPC (w.registers .pc)).set .pc (w.registers .nextPC)).set .nextPC
        e.pcAfter := by
  obtain ⟨⟨raw,u,hread,rfl,hexec⟩,hdone⟩ := h
  unfold oneInstruction at hdone
  rw [hread] at hdone
  simp only [Exec.ok_bind, hexec] at hdone
  split_ifs at hdone
  · cases hdone
  cases hw : e.machine.delayedLoad e.nextLoadReg e.nextLoadValue with
  | error f =>
    rw [hw] at hdone
    cases hdone
  | ok w =>
    rw [hw] at hdone
    cases hdone
    exact ⟨w,rfl,rfl⟩

theorem Completes.gpr (h : Completes debug m i e m') :
    ∃ w, e.machine.delayedLoad e.nextLoadReg e.nextLoadValue = .ok w ∧
      m'.registers .load = w.registers .load ∧ m'.registers .loadValue = w.registers .loadValue ∧
      ∀ r, m'.registers (.gpr r) = w.registers (.gpr r) := by
  obtain ⟨w,hw,rfl⟩ := h.finish
  refine ⟨w,hw,rfl,rfl,fun r => ?_⟩
  have h₁ : Register.gpr r ≠ .nextPC := Register.gpr_ne r (by decide)
  have h₂ : Register.gpr r ≠ .pc := Register.gpr_ne r (by decide)
  have h₃ : Register.gpr r ≠ .prevPC := Register.gpr_ne r (by decide)
  simp only [set_registers, Function.update_of_ne h₁, Function.update_of_ne h₂,
    Function.update_of_ne h₃]

theorem Completes.registers (h : Completes debug m i e m') :
    m'.registers .load = loadReg i.loadTarget ∧ m'.registers .loadValue = e.nextLoadValue ∧
      ∀ r ≠ (0 : Fin numGPRegs), m'.registers (.gpr r) =
        if m.registers .load = BitVec.ofNat 32 r then m.registers .loadValue else e.value r := by
  obtain ⟨w,hw,hmload,hmvalue,hmgpr⟩ := h.gpr
  obtain ⟨⟨raw,u,hread,rfl,hexec⟩,-⟩ := h
  have hu := (readMem_sameBut hread).registers
  have hframe := frames_execute u _ e hexec
  have hl : e.machine.registers .load = m.registers .load :=
    (hframe _ (not_mem_writes (by decide))).trans (congrFun hu _)
  have hv : e.machine.registers .loadValue = m.registers .loadValue :=
    (hframe _ (not_mem_writes (by decide))).trans (congrFun hu _)
  obtain ⟨hload,hvalue,hgpr⟩ := delayedLoad_gpr hw
  rw [loads_execute u _ e hexec] at hload
  rw [hl, hv] at hgpr
  exact ⟨hmload.trans hload,hmvalue.trans hvalue,fun r hr => (hmgpr r).trans (hgpr r hr)⟩

/-- An instruction that does not write to a register leaves it to the pending load. -/
theorem Completes.value_eq (h : Completes debug m i e m') (hr : Register.gpr r ∉ i.writes) :
    e.value r = m.registers (.gpr r) := by
  obtain ⟨⟨raw,u,hread,rfl,hexec⟩,-⟩ := h
  exact (frames_execute u _ e hexec _ hr).trans (congrFun (readMem_sameBut hread).registers _)

theorem loadReg_ne (hr : r ≠ 0) {t : Option (Fin numGPRegs)} (ht : t ≠ some r) :
    loadReg t ≠ BitVec.ofNat 32 r := by
  have hr32 := r.isLt
  unfold numGPRegs at hr32
  intro h
  have hnat := congrArg BitVec.toNat h
  cases t with
  | none =>
    rw [loadReg, BitVec.toNat_ofNat] at hnat
    refine hr (Fin.ext ?_)
    change r.val = 0
    change 0 = r.val % _ at hnat
    omega
  | some k =>
    have hk := k.isLt
    unfold numGPRegs at hk
    rw [loadReg, BitVec.toNat_ofNat, BitVec.toNat_ofNat] at hnat
    refine ht (congrArg some (Fin.ext ?_))
    omega

theorem loadTarget_mem_writes (h : i.loadTarget = some r) : Register.gpr r ∈ i.writes := by
  unfold Instruction.loadTarget at h
  unfold Instruction.writes
  cases hop : i.opCode <;> rw [hop] at h <;> cases h <;> simp

theorem keeps_of_settled (hr : r ≠ 0) (hload : m.registers .load ≠ BitVec.ofNat 32 r) :
    Keeps debug r m (m.registers (.gpr r)) := by
  intro m' hm'
  have hinv : m'.registers .load ≠ BitVec.ofNat 32 r ∧
      m'.registers (.gpr r) = m.registers (.gpr r) := by
    refine hm'.invariant (P := fun m' => m'.registers .load ≠ BitVec.ofNat 32 r ∧
      m'.registers (.gpr r) = m.registers (.gpr r)) ?_ ?_
    · rintro _ rfl
      exact ⟨hload,rfl⟩
    · rintro s i t ⟨hs,hval⟩ ⟨hwrites,e,hstep⟩
      obtain ⟨hnext,-,hgpr⟩ := hstep.registers
      rw [hgpr r hr, if_neg hs, hstep.value_eq hwrites]
      refine ⟨?_,hval⟩
      rw [hnext]
      exact loadReg_ne hr fun h => hwrites (loadTarget_mem_writes h)
  exact hinv.2

/-- The load is applied last, so the instruction's own value is there only if it is the loaded
one as well. -/
theorem laterWrite (m m₁ m₂ : Machine) (i₁ i₂ : Instruction) (e₁ e₂ : Effect) (debug : Bool)
    (r : Fin numGPRegs) (hr : r ≠ 0) (h₁ : Completes debug m i₁ e₁ m₁)
    (hload : i₁.loadTarget = some r) (h₂ : Completes debug m₁ i₂ e₂ m₂)
    (hnot : i₂.loadTarget = none) :
    Keeps debug r m₂ (e₂.value r) ↔ m₁.registers .loadValue = e₂.value r := by
  obtain ⟨hpending,-,-⟩ := h₁.registers
  obtain ⟨hnext,-,hgpr⟩ := h₂.registers
  have hvalue : m₂.registers (.gpr r) = m₁.registers .loadValue := by
    rw [hgpr r hr, if_pos (by rw [hpending, hload]; rfl)]
  have hsettled : m₂.registers .load ≠ BitVec.ofNat 32 r := by
    rw [hnext, hnot]
    exact loadReg_ne hr fun h => by cases h
  rw [← hvalue]
  constructor
  · intro h
    exact h m₂ (.start rfl)
  · intro h
    rw [← h]
    exact keeps_of_settled hr hsettled

end Machine

/-- One page with two instructions, the first of them about to be fetched. -/
def Machine.pair (first second : Word) : Machine where
  mainMemory := ⟨Codec.word.encode first ++ Codec.word.encode second ++
    List.replicate (memorySize - 8) 0,by
      rw [List.length_append, List.length_append, List.length_replicate,
        Codec.word.length_encode, Codec.word.length_encode]
      rfl⟩
  registers r := if r = .nextPC then 4 else 0
  tlb := none
  pageTable := some [⟨0,0,true,false,false,false⟩]

/-- `lw r1,8(r0)` and `addiu r1,r0,0`: both put a zero into register 1. -/
theorem laterWrite_addiu : ∃ m₁ m₂ e₁ e₂,
    Machine.Completes false (.pair 0x8c010008 0x24010000) (Instruction.decode 0x8c010008) e₁ m₁ ∧
    Machine.Completes false m₁ (Instruction.decode 0x24010000) e₂ m₂ ∧
    Machine.Keeps false 1 m₂ (e₂.value 1) := by
  refine ⟨_,_,_,_,⟨⟨0x8c010008,_,rfl,rfl,rfl⟩,rfl⟩,⟨⟨0x24010000,_,rfl,rfl,rfl⟩,rfl⟩,?_⟩
  exact (Machine.laterWrite (.pair 0x8c010008 0x24010000) _ _ _ _ _ _ false 1 (by decide)
    ⟨⟨0x8c010008,_,rfl,rfl,rfl⟩,rfl⟩ rfl ⟨⟨0x24010000,_,rfl,rfl,rfl⟩,rfl⟩ rfl).mpr rfl

/-- `lw r1,8(r0)` loads a zero, and `addiu r1,r0,7` is lost. -/
theorem not_laterWrite : ∃ m₁ m₂ e₁ e₂,
    Machine.Completes false (.pair 0x8c010008 0x24010007) (Instruction.decode 0x8c010008) e₁ m₁ ∧
    (Instruction.decode 0x8c010008).loadTarget = some 1 ∧
    Machine.Completes false m₁ (Instruction.decode 0x24010007) e₂ m₂ ∧
    (Instruction.decode 0x24010007).loadTarget = none ∧
    Register.gpr 1 ∈ (Instruction.decode 0x24010007).writes ∧
    e₂.value 1 = 7 ∧ m₂.registers (.gpr 1) = 0 ∧ ¬ Machine.Keeps false 1 m₂ (e₂.value 1) := by
  refine ⟨_,_,_,_,⟨⟨0x8c010008,_,rfl,rfl,rfl⟩,rfl⟩,rfl,⟨⟨0x24010007,_,rfl,rfl,rfl⟩,rfl⟩,rfl,
    by decide,rfl,rfl,fun h => ?_⟩
  exact absurd (h _ (.start rfl)) (by decide)

end Nachos
