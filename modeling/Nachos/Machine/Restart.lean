import Nachos.Machine.Relocation

/-! # Exceptions are restartable

A trap applies the delayed load that is pending and records the faulting address. `settle`
does both to a machine, and the switch does the same to a machine and to its settled one,
as long as the instruction does not touch the register of the pending load.
-/
namespace Nachos

namespace Machine

/-- Same memory and registers, the address of the last exception apart, and the same mappings. -/
structure Agree (m m' : Machine) : Prop where
  mainMemory : m'.mainMemory = m.mainMemory
  registers : ∀ k, k ≠ .badVAddr → m'.registers k = m.registers k
  tlb : Option.Rel (List.Forall₂ TranslationEntry.SameMapping) m.tlb m'.tlb
  pageTable : Option.Rel (List.Forall₂ TranslationEntry.SameMapping) m.pageTable m'.pageTable

def withRegisters (m : Machine) (registers : Register → Word) : Machine :=
  { m with registers := registers }

/-- The registers when the load of `v` into `r` is over, with `b` as the address of the last
exception. Register 0 is never changed by a load. -/
def settled (r : Register) (v b : Word) (registers : Register → Word) : Register → Word :=
  fun k =>
    if k = .badVAddr then b
    else if k = .load ∨ k = .loadValue then 0
    else if k = r ∧ r ≠ .gpr 0 then v
    else registers k

def settle (r : Register) (v b : Word) (m : Machine) : Machine :=
  m.withRegisters (settled r v b m.registers)

/-- A load of `v` into `r` is pending, and register 0 is zero. -/
structure Pending (r : Register) (v : Word) (m : Machine) : Prop where
  load : m.registers .load = BitVec.ofNat 32 r
  loadValue : m.registers .loadValue = v
  zero : m.registers (.gpr 0) = 0

end Machine

namespace Machine
variable {m : Machine} {r : Register} {v : Word} (b : Word)

/-- Registers that the end of a delayed load does not concern. -/
def Untouched (r k : Register) : Prop :=
  k ≠ .badVAddr ∧ k ≠ .load ∧ k ≠ .loadValue ∧ (k ≠ r ∨ r = .gpr 0)

variable {b} in
theorem settle_registers {k : Register} (hk : Untouched r k) :
    (m.settle r v b).registers k = m.registers k := by
  obtain ⟨h₁,h₂,h₃,h₄⟩ := hk
  have h₅ : ¬ (k = r ∧ r ≠ .gpr 0) := by
    rintro ⟨hkr,h0⟩
    exact h₄.elim (fun h => h hkr) h0
  simp only [settle, withRegisters, settled, if_neg h₁, h₂, h₃, or_self, if_false, if_neg h₅]

variable {b} in
theorem settle_badVAddr : (m.settle r v b).registers .badVAddr = b := by
  simp only [settle, withRegisters, settled, if_true]

variable {b} in
theorem settle_set {k : Register} (hk : Untouched r k) (x : Word) :
    (m.settle r v b).set k x = (m.set k x).settle r v b := by
  obtain ⟨h₁,h₂,h₃,h₄⟩ := hk
  simp only [settle, withRegisters, set, Machine.mk.injEq, true_and, and_true]
  funext j
  rcases eq_or_ne j k with rfl | hj
  · have h₅ : ¬ (j = r ∧ r ≠ .gpr 0) := by
      rintro ⟨hkr,h0⟩
      exact h₄.elim (fun h => h hkr) h0
    simp only [settled, Function.update_self, if_neg h₁, h₂, h₃, or_self, if_false, if_neg h₅]
  · simp only [settled, Function.update_of_ne hj]

theorem delayedLoad_eq (h : m.registers .load = BitVec.ofNat 32 r) (nextReg nextValue : Word) :
    m.delayedLoad nextReg nextValue = .ok ((((m.set r (m.registers .loadValue)).set .load
      nextReg).set .loadValue nextValue).set (.gpr 0) 0) := by
  have hr : (m.registers .load).toNat = r.val := by
    rw [h, BitVec.toNat_ofNat]
    exact Nat.mod_eq_of_lt (r.isLt.trans (by decide))
  have hlt : (m.registers .load).toNat < numTotalRegs := hr ▸ r.isLt
  have hfin : (⟨(m.registers .load).toNat,hlt⟩ : Register) = r := Fin.ext hr
  rw [delayedLoad, dif_pos hlt, hfin]

theorem raiseException_pending {α : Type} (hp : Pending r v m) (which : ExceptionType)
    (addr : Word) : ∃ a, (m.raiseException which addr : Exec α) =
      .error (.trap which (m.settle r v a)) ∧ (r ≠ .badVAddr → a = addr) := by
  have hne : Register.load ≠ .badVAddr := by decide
  have hload : (m.set .badVAddr addr).registers .load = BitVec.ofNat 32 r := by
    simpa [hne] using hp.load
  have hvalue : Register.loadValue ≠ .badVAddr := by decide
  have hg₁ : Register.loadValue ≠ .gpr 0 := by decide
  have hg₂ : Register.load ≠ .gpr 0 := by decide
  have hg₃ : Register.badVAddr ≠ .gpr 0 := by decide
  have hlv : Register.load ≠ .loadValue := by decide
  refine ⟨if r = .badVAddr then v else addr,?_,fun hr => if_neg hr⟩
  rw [raiseException_eq (delayedLoad_eq hload 0 0)]
  refine congrArg (fun ρ => Except.error (Stop.trap which (m.withRegisters ρ)))
    (funext fun k => ?_)
  rcases eq_or_ne k (.gpr 0) with rfl | h0
  · have hr0 : ¬ (Register.gpr 0 = r ∧ r ≠ .gpr 0) := fun h => h.2 h.1.symm
    simp [settled, hg₁.symm, hg₂.symm, hg₃.symm, hr0, hp.zero]
  rcases eq_or_ne k .loadValue with rfl | h₁
  · simp [settled, h0, hvalue]
  rcases eq_or_ne k .load with rfl | h₂
  · simp [settled, h0, h₁, hne]
  rcases eq_or_ne k .badVAddr with rfl | hb
  · rcases eq_or_ne r .badVAddr with rfl | hr
    · simp [settled, h0, h₁, h₂, hp.loadValue, hvalue]
    · simp [settled, h0, h₁, h₂, hr, hr.symm]
  rcases eq_or_ne k r with rfl | h₃
  · simp [settled, hb, h0, h₁, h₂, hp.loadValue, hvalue]
  · simp [settled, hb, h0, h₁, h₂, h₃]

theorem Pending.settle (hp : Pending r v m) : Pending (.gpr 0) 0 (m.settle r v b) := by
  refine ⟨by simp [Machine.settle, withRegisters, settled, Register.load, Register.badVAddr]; rfl,
    by simp [Machine.settle, withRegisters, settled, Register.loadValue, Register.badVAddr],?_⟩
  have hzero : ¬ (Register.gpr 0 = r ∧ r ≠ .gpr 0) := fun h => h.2 h.1.symm
  have h₁ : Register.gpr 0 ≠ .badVAddr := by decide
  have h₂ : Register.gpr 0 ≠ .load := by decide
  have h₃ : Register.gpr 0 ≠ .loadValue := by decide
  simp only [Machine.settle, withRegisters, settled, h₁, h₂, h₃, hzero, if_false, or_self, hp.zero]

theorem settle_settle (a : Word) : (m.settle r v b).settle (.gpr 0) 0 a = m.settle r v a := by
  refine congrArg m.withRegisters (funext fun k => ?_)
  simp only [settle, withRegisters, settled]
  split_ifs <;> simp_all

/-- The same but for the address of the last exception. -/
def SameButBadVAddr (m m' : Machine) : Prop := ∃ a, m' = m.set .badVAddr a

theorem SameButBadVAddr.settle (a a' : Word) :
    SameButBadVAddr (m.settle r v a) (m.settle r v a') := by
  refine ⟨a',congrArg m.withRegisters (funext fun k => ?_)⟩
  rcases eq_or_ne k .badVAddr with rfl | hk
  · simp [settled]
  · simp [Machine.settle, withRegisters, settled, hk]

/-- The same machine, unless the pending load goes where the address of the exception is. -/
structure SameTrap (r : Register) (t t' : Machine) : Prop where
  agree : SameButBadVAddr t t'
  eq : r ≠ .badVAddr → t' = t

theorem rel_raise {α β : Type} {R : α → β → Prop} (hp : Pending r v m) (which : ExceptionType)
    (addr : Word) : Exec.Matches R (SameTrap r) (m.raiseException which addr)
      ((m.settle r v b).raiseException which addr) := by
  obtain ⟨a,ht,ha⟩ := raiseException_pending (α := α) hp which addr
  obtain ⟨a',ht',ha'⟩ := raiseException_pending (α := β) (hp.settle b) which addr
  rw [ht, ht', settle_settle]
  refine .trap ⟨.settle a a',fun hr => ?_⟩
  rw [ha hr, ha' (by decide)]

theorem findEntry_withRegisters (ρ : Register → Word) (vpn : ℕ) :
    (m.withRegisters ρ).findEntry vpn = (m.findEntry vpn).map (Except.map fun p =>
      (p.1,fun e => (p.2 e).withRegisters ρ)) := by
  obtain ⟨mem,regs,tlb,pageTable⟩ := m
  rcases tlb with _ | tlb <;> rcases pageTable with _ | pageTable <;>
    simp only [findEntry, withRegisters]
  · rfl
  · split
    · rfl
    · split_ifs <;> rfl
  · split
    · rfl
    · split <;> rfl
  · rfl

theorem translate_withRegisters (ρ : Register → Word) (addr : Word) (size : ℕ)
    (writing : Bool) :
    (m.withRegisters ρ).translate addr size writing =
      (m.translate addr size writing).map (Except.map fun p => (p.1,p.2.withRegisters ρ)) := by
  unfold translate
  split_ifs
  · rfl
  rw [findEntry_withRegisters]
  rcases m.findEntry (addr.toNat / pageSize) with f | which | ⟨entry,update⟩
  · rfl
  · rfl
  · simp only [Except.map, Outcome.ok_bind]
    rcases entry.access (addr.toNat % pageSize) size writing with f | which | p <;> rfl

theorem SameBut.pending {m' : Machine} (h : m.SameBut m') (hp : Pending r v m) :
    Pending r v m' := by
  constructor <;> rw [h.registers]
  exacts [hp.load,hp.loadValue,hp.zero]

theorem rel_readMem (hp : Pending r v m) (addr : Word) (size : ℕ) :
    Exec.Matches (fun p q => m.SameBut p.2 ∧ q = (p.1,p.2.settle r v b)) (SameTrap r)
      (m.readMem addr size) ((m.settle r v b).readMem addr size) := by
  unfold readMem
  rw [settle, translate_withRegisters]
  rcases htr : m.translate addr size false with f | which | ⟨physAddr,m'⟩
  · exact .fault f
  · exact rel_raise b hp which addr
  · have hsame := translate_sameBut htr
    simp only [Except.map, Outcome.exec_ok, Exec.ok_bind, withRegisters]
    cases m'.mainMemory.get physAddr size with
    | error f => exact .fault f
    | ok bytes =>
      simp only [Outcome.exec_ok, Exec.ok_bind, ← hsame.registers]
      split
      · exact .ok ⟨hsame,rfl⟩
      · exact .ok ⟨hsame,rfl⟩
      · exact .ok ⟨hsame,rfl⟩
      · exact .fault _

theorem rel_writeMem (hp : Pending r v m) (addr : Word) (size : ℕ) (value : Word) :
    Exec.Matches (fun p q => q = p.settle r v b) (SameTrap r)
      (m.writeMem addr size value) ((m.settle r v b).writeMem addr size value) := by
  unfold writeMem
  rw [settle, translate_withRegisters]
  rcases htr : m.translate addr size true with f | which | ⟨physAddr,m'⟩
  · exact .fault f
  · exact rel_raise b hp which addr
  · have hregs := (translate_sameBut htr).registers
    have hput : ∀ bytes : List Byte, Exec.Matches (fun p q => q = p.settle r v b) (SameTrap r)
        (do
          let mainMemory ← (m'.mainMemory.put physAddr bytes).exec
          return { m' with mainMemory := mainMemory } : Exec Machine)
        (do
          let mainMemory ← ((m'.withRegisters (settled r v b m.registers)).mainMemory.put
            physAddr bytes).exec
          return { m'.withRegisters (settled r v b m.registers) with
            mainMemory := mainMemory }) := by
      intro bytes
      simp only [withRegisters]
      cases m'.mainMemory.put physAddr bytes with
      | error f => exact .fault f
      | ok mem =>
        refine .ok ?_
        rw [← hregs]
        rfl
    simp only [Except.map, Outcome.exec_ok, Exec.ok_bind]
    split
    · exact hput _
    · exact hput _
    · exact hput _
    · exact .fault _

/-- Related effects: the settled machine, and the rest the same. -/
def SettledEffect (r : Register) (v b : Word) (e e' : Effect) : Prop :=
  e' = { e with machine := e.machine.settle r v b }

section Switch
variable {i : Instruction}

variable {b} in
theorem pcAfter_settle (hn : Untouched r .nextPC) :
    (m.settle r v b).pcAfter = m.pcAfter := by
  rw [pcAfter, settle_registers hn, pcAfter]

theorem rel_assign (hn : Untouched r .nextPC) {k : Register} (hk : Untouched r k) (x : Word) :
    Exec.Matches (SettledEffect r v b) (SameTrap r) (m.assign k x) ((m.settle r v b).assign k x) := by
  refine .ok ?_
  rw [settle_set hk, pcAfter_settle hn]
  rfl

theorem rel_assignHiLo (hn : Untouched r .nextPC) (hhi : Untouched r .hi)
    (hlo : Untouched r .lo) (hi lo : Word) :
    Exec.Matches (SettledEffect r v b) (SameTrap r) (m.assignHiLo hi lo) ((m.settle r v b).assignHiLo hi lo) := by
  refine .ok ?_
  rw [settle_set hlo, settle_set hhi, pcAfter_settle hn]
  rfl

theorem rel_jump (pcAfter : Word) :
    Exec.Matches (SettledEffect r v b) (SameTrap r) (m.jump pcAfter) ((m.settle r v b).jump pcAfter) :=
  .ok rfl

theorem rel_branch (hn : Untouched r .nextPC) (taken : Prop) [Decidable taken] :
    Exec.Matches (SettledEffect r v b) (SameTrap r) (m.branch i taken) ((m.settle r v b).branch i taken) := by
  rw [branch, branch, settle_registers hn, pcAfter_settle hn]
  exact rel_jump b _

variable {b} in
theorem settle_link (hn : Untouched r .nextPC) {k : Fin numGPRegs} (hk : Untouched r (.gpr k)) :
    (m.settle r v b).link k = (m.link k).settle r v b := by
  rw [link, settle_registers hn, settle_set hk, link]

theorem rel_load (hp : Pending r v m) (hn : Untouched r .nextPC) (addr : Word) (size : ℕ)
    (convert : Word → Word) :
    Exec.Matches (SettledEffect r v b) (SameTrap r) (m.load i addr size convert)
      ((m.settle r v b).load i addr size convert) := by
  refine (rel_readMem b hp addr size).bind ?_
  rintro p q ⟨hsame,rfl⟩
  refine .ok ?_
  rw [pcAfter_settle hn]
  rfl

theorem rel_store (hp : Pending r v m) (hn : Untouched r .nextPC) (addr : Word) (size : ℕ)
    (value : Word) :
    Exec.Matches (SettledEffect r v b) (SameTrap r) (m.store addr size value)
      ((m.settle r v b).store addr size value) := by
  refine (rel_writeMem b hp addr size value).bind ?_
  rintro p q rfl
  refine .ok ?_
  rw [pcAfter_settle hn]
  rfl

theorem ofNat_eq_ofNat_iff {k j : ℕ} (hk : k < numTotalRegs) (hj : j < numTotalRegs) :
    BitVec.ofNat 32 k = BitVec.ofNat 32 j ↔ k = j := by
  constructor
  · intro h
    have := congrArg BitVec.toNat h
    simp only [BitVec.toNat_ofNat] at this
    unfold numTotalRegs at *
    omega
  · rintro rfl
    rfl

variable {b} in
theorem mergeInto_settle (hp : Pending r v m) {rt : Fin numGPRegs}
    (hv : r ≠ .gpr rt ∨ v = 0) (hrt : Untouched r (.gpr rt)) :
    (m.settle r v b).mergeInto rt = m.mergeInto rt := by
  have hload : (m.settle r v b).registers .load = 0 := by
    simp [settle, withRegisters, settled, Register.load, Register.badVAddr]
  have hvalue : (m.settle r v b).registers .loadValue = 0 := by
    simp [settle, withRegisters, settled, Register.loadValue, Register.badVAddr]
  have hrt40 : rt.val < numTotalRegs := rt.isLt.trans (by decide)
  unfold mergeInto
  rw [hload, hvalue, settle_registers hrt, hp.load, hp.loadValue]
  have h0 : (0 : Word) = BitVec.ofNat 32 rt ↔ 0 = rt.val := ofNat_eq_ofNat_iff (by decide) hrt40
  simp only [ofNat_eq_ofNat_iff r.isLt hrt40, h0]
  split_ifs with hzero hpend hpend
  · have hr : r = .gpr rt := Fin.ext hpend
    exact (hv.resolve_left (not_not.mpr hr)).symm
  · have hgpr : Register.gpr rt = .gpr 0 := Fin.ext hzero.symm
    rw [hgpr, hp.zero]
  · have hr : r = .gpr rt := Fin.ext hpend
    have hgpr := hrt.2.2.2.resolve_left (not_not.mpr hr.symm)
    exact absurd (congrArg Fin.val (hr.symm.trans hgpr)).symm hzero
  · rfl

theorem rel_loadMerged (hp : Pending r v m) (hn : Untouched r .nextPC)
    (hrt : r ≠ .gpr i.rt ∨ v = 0) (hrt' : Untouched r (.gpr i.rt)) (addr : Word)
    (merge : Word → Word → Word → Word) :
    Exec.Matches (SettledEffect r v b) (SameTrap r) (m.loadMerged i addr merge)
      ((m.settle r v b).loadMerged i addr merge) := by
  unfold loadMerged
  split_ifs
  · exact .fault _
  refine (rel_readMem b hp addr 4).bind ?_
  rintro ⟨value,m'⟩ q ⟨hsame,rfl⟩
  refine .ok ?_
  rw [pcAfter_settle hn, mergeInto_settle (hsame.pending hp) hrt hrt']
  rfl

theorem rel_storeMerged (hp : Pending r v m) (hn : Untouched r .nextPC)
    (hrt : Untouched r (.gpr i.rt)) (addr : Word) (merge : Word → Word → Word → Word) :
    Exec.Matches (SettledEffect r v b) (SameTrap r) (m.storeMerged i addr merge)
      ((m.settle r v b).storeMerged i addr merge) := by
  unfold storeMerged
  split_ifs
  · exact .fault _
  refine (rel_readMem b hp _ 4).bind ?_
  rintro ⟨value,m'⟩ q ⟨hsame,rfl⟩
  simp only [settle_registers hrt]
  exact rel_store b (hsame.pending hp) hn _ 4 _

end Switch

end Machine

/-- The instruction leaves the register of the pending load alone, or nothing is pending. -/
def Instruction.Apart (i : Instruction) (r : Register) (v : Word) : Prop :=
  (∀ k ∈ i.reads ++ i.writes, k ≠ r) ∨ r = .gpr 0 ∧ v = 0

theorem Instruction.Apart.untouched {i : Instruction} {r : Register} {v : Word}
    (h : i.Apart r v) : ∀ k ∈ i.reads ++ i.writes, Machine.Untouched r k := by
  have hcpu : ∀ k ∈ i.reads ++ i.writes, k < Register.prevPC := by
    have hgpr : ∀ j, Register.gpr j < .prevPC := fun j => j.isLt.trans (by decide)
    obtain ⟨hpc,hnextPC,hhi,hlo⟩ : Register.pc < .prevPC ∧ Register.nextPC < .prevPC ∧
      Register.hi < .prevPC ∧ Register.lo < .prevPC := by decide
    obtain ⟨op,rs,rt,rd,extra⟩ := i
    cases op <;> simp [Instruction.reads, Instruction.writes, hgpr, hpc, hnextPC, hhi, hlo]
  intro k hk
  have hlt := hcpu k hk
  refine ⟨?_,?_,?_,h.imp (fun h => h k hk) fun h => h.1⟩
  all_goals
    rintro rfl
    exact absurd hlt (by decide)

namespace Machine
variable {m : Machine} {r : Register} {v : Word} (b : Word)

theorem rel_execute {i : Instruction} (hp : Pending r v m) (h : i.Apart r v) :
    Exec.Matches (SettledEffect r v b) (SameTrap r) (m.execute i) ((m.settle r v b).execute i) := by
  have hu := h.untouched
  have hn : Untouched r .nextPC := hu _ (by simp [Instruction.reads])
  obtain ⟨op,rs,rt,rd,extra⟩ := i
  cases op
  case add | sub =>
    have hrs := hu (.gpr rs) (by simp [Instruction.reads])
    have hrt := hu (.gpr rt) (by simp [Instruction.reads])
    have hrd := hu (.gpr rd) (by simp [Instruction.writes])
    simp only [execute, settle_registers hrs, settle_registers hrt]
    split_ifs
    · exact rel_raise b hp _ _
    · exact rel_assign b hn hrd _
  case addi =>
    have hrs := hu (.gpr rs) (by simp [Instruction.reads])
    have hrt := hu (.gpr rt) (by simp [Instruction.writes])
    simp only [execute, settle_registers hrs]
    split_ifs
    · exact rel_raise b hp _ _
    · exact rel_assign b hn hrt _
  case addu | and | nor | or | sllv | slt | sltu | srav | srlv | subu | xor =>
    have hrs := hu (.gpr rs) (by simp [Instruction.reads])
    have hrt := hu (.gpr rt) (by simp [Instruction.reads])
    have hrd := hu (.gpr rd) (by simp [Instruction.writes])
    simp only [execute, settle_registers hrs, settle_registers hrt]
    exact rel_assign b hn hrd _
  case addiu | andi | ori | slti | sltiu | xori =>
    have hrs := hu (.gpr rs) (by simp [Instruction.reads])
    have hrt := hu (.gpr rt) (by simp [Instruction.writes])
    simp only [execute, settle_registers hrs]
    exact rel_assign b hn hrt _
  case sll | sra | srl =>
    have hrt := hu (.gpr rt) (by simp [Instruction.reads])
    have hrd := hu (.gpr rd) (by simp [Instruction.writes])
    simp only [execute, settle_registers hrt]
    exact rel_assign b hn hrd _
  case lui =>
    have hrt := hu (.gpr rt) (by simp [Instruction.writes])
    exact rel_assign b hn hrt _
  case mfhi =>
    have hhi := hu .hi (by simp [Instruction.reads])
    have hrd := hu (.gpr rd) (by simp [Instruction.writes])
    simp only [execute, settle_registers hhi]
    exact rel_assign b hn hrd _
  case mflo =>
    have hlo := hu .lo (by simp [Instruction.reads])
    have hrd := hu (.gpr rd) (by simp [Instruction.writes])
    simp only [execute, settle_registers hlo]
    exact rel_assign b hn hrd _
  case mthi =>
    have hrs := hu (.gpr rs) (by simp [Instruction.reads])
    have hhi := hu .hi (by simp [Instruction.writes])
    simp only [execute, settle_registers hrs]
    exact rel_assign b hn hhi _
  case mtlo =>
    have hrs := hu (.gpr rs) (by simp [Instruction.reads])
    have hlo := hu .lo (by simp [Instruction.writes])
    simp only [execute, settle_registers hrs]
    exact rel_assign b hn hlo _
  case beq | bne =>
    have hrs := hu (.gpr rs) (by simp [Instruction.reads])
    have hrt := hu (.gpr rt) (by simp [Instruction.reads])
    simp only [execute, settle_registers hrs, settle_registers hrt]
    exact rel_branch b hn _
  case bgez | bgtz | blez | bltz =>
    have hrs := hu (.gpr rs) (by simp [Instruction.reads])
    simp only [execute, settle_registers hrs]
    exact rel_branch b hn _
  case bgezal | bltzal =>
    have hrs := hu (.gpr rs) (by simp [Instruction.reads])
    have h31 := hu (.gpr 31) (by simp [Instruction.writes])
    simp only [execute, settle_link hn h31, settle_registers hrs]
    exact rel_branch b hn _
  case jal =>
    have h31 := hu (.gpr 31) (by simp [Instruction.writes])
    simp only [execute, settle_link hn h31, pcAfter_settle hn]
    exact rel_jump b _
  case j =>
    simp only [execute, pcAfter_settle hn]
    exact rel_jump b _
  case jalr =>
    have hrs := hu (.gpr rs) (by simp [Instruction.reads])
    have hrd := hu (.gpr rd) (by simp [Instruction.writes])
    simp only [execute, settle_link hn hrd, settle_registers hrs]
    exact rel_jump b _
  case jr =>
    have hrs := hu (.gpr rs) (by simp [Instruction.reads])
    simp only [execute, settle_registers hrs]
    exact rel_jump b _
  case div | divu | mult | multu =>
    have hrs := hu (.gpr rs) (by simp [Instruction.reads])
    have hrt := hu (.gpr rt) (by simp [Instruction.reads])
    have hhi := hu .hi (by simp [Instruction.writes])
    have hlo := hu .lo (by simp [Instruction.writes])
    simp only [execute, settle_registers hrs, settle_registers hrt]
    try split_ifs
    all_goals first | exact rel_assignHiLo b hn hhi hlo _ _ | exact .fault _
  case lb | lbu | lh | lhu | lw =>
    have hrs := hu (.gpr rs) (by simp [Instruction.reads])
    simp only [execute, settle_registers hrs]
    try split_ifs
    all_goals first | exact rel_load b hp hn _ _ _ | exact rel_raise b hp _ _
  case lwl | lwr =>
    have hrs := hu (.gpr rs) (by simp [Instruction.reads])
    have hrt := hu (.gpr rt) (by simp [Instruction.reads])
    have hv : r ≠ .gpr rt ∨ v = 0 :=
      h.imp (fun h => (h _ (by simp [Instruction.reads])).symm) fun h => h.2
    simp only [execute, settle_registers hrs]
    exact rel_loadMerged b hp hn hv hrt _ _
  case sb | sh | sw =>
    have hrs := hu (.gpr rs) (by simp [Instruction.reads])
    have hrt := hu (.gpr rt) (by simp [Instruction.reads])
    simp only [execute, settle_registers hrs, settle_registers hrt]
    exact rel_store b hp hn _ _ _
  case swl | swr =>
    have hrs := hu (.gpr rs) (by simp [Instruction.reads])
    have hrt := hu (.gpr rt) (by simp [Instruction.reads])
    simp only [execute, settle_registers hrs]
    exact rel_storeMerged b hp hn hrt _ _
  case syscall | unimp | res => exact rel_raise b hp _ _
  case rfe | special | bcond => exact .fault _

theorem SameButBadVAddr.set {m m' : Machine} (h : m.SameButBadVAddr m') {k : Register}
    (hk : k ≠ .badVAddr) (x : Word) : (m.set k x).SameButBadVAddr (m'.set k x) := by
  obtain ⟨a,rfl⟩ := h
  refine ⟨a,congrArg m.withRegisters ?_⟩
  exact Function.update_comm hk.symm a x m.registers

/-- Applying the load at the end of the instruction or before it makes no difference. -/
theorem delayedLoad_settle (hload : m.registers .load = BitVec.ofNat 32 r)
    (hvalue : m.registers .loadValue = v) (nextReg nextValue : Word) :
    ∃ u u', m.delayedLoad nextReg nextValue = .ok u ∧
      (m.settle r v b).delayedLoad nextReg nextValue = .ok u' ∧ u.SameButBadVAddr u' := by
  have hload' : (m.settle r v b).registers .load = BitVec.ofNat 32 (Register.gpr 0) := by
    simp [settle, withRegisters, settled, Register.load, Register.badVAddr]
    rfl
  refine ⟨_,_,delayedLoad_eq hload _ _,delayedLoad_eq hload' _ _,b,?_⟩
  refine congrArg m.withRegisters (funext fun k => ?_)
  rcases eq_or_ne k .badVAddr with rfl | hk
  · simp [settle, withRegisters, settled, show Register.badVAddr ≠ .gpr 0 by decide,
      show Register.badVAddr ≠ .load by decide, show Register.badVAddr ≠ .loadValue by decide]
  rcases eq_or_ne k (.gpr 0) with rfl | h0
  · simp [hk]
  rcases eq_or_ne k .loadValue with rfl | h₁
  · simp [hk, h0]
  rcases eq_or_ne k .load with rfl | h₂
  · simp [hk, h0, h₁]
  rcases eq_or_ne k r with rfl | h₃
  · simp [hk, h0, h₁, h₂, hvalue, settle, withRegisters, settled]
  · simp [hk, h0, h₁, h₂, h₃, settle, withRegisters, settled]

theorem rel_oneInstruction (hp : Pending r v m) (debug : Bool) {raw : Word} {u : Machine}
    (hfetch : m.readMem (m.registers .pc) 4 = .ok (raw,u))
    (h : (Instruction.decode raw).Apart r v) :
    Exec.Matches SameButBadVAddr SameButBadVAddr (m.oneInstruction debug)
      ((m.settle r v b).oneInstruction debug) := by
  have hpc : Untouched r .pc := h.untouched _ (by simp [Instruction.reads])
  unfold oneInstruction
  rw [settle_registers hpc]
  have hrel := rel_readMem b hp (m.registers .pc) 4
  rw [hfetch] at hrel ⊢
  generalize (m.settle r v b).readMem (m.registers .pc) 4 = y at hrel ⊢
  cases hrel with | ok hq =>
  obtain ⟨hsame,rfl⟩ := hq
  have hp' := hsame.pending hp
  simp only [Exec.ok_bind]
  split_ifs
  · exact .fault _
  have hframe := frames_execute u (Instruction.decode raw)
  generalize hx : u.execute (Instruction.decode raw) = x at hframe
  have hrel' := rel_execute b hp' h
  rw [hx] at hrel'
  generalize (u.settle r v b).execute (Instruction.decode raw) = y' at hrel' ⊢
  cases hrel' with
  | trap hm => exact .trap hm.agree
  | fault f => exact .fault f
  | @ok e e' he =>
    obtain rfl := he
    have hload : e.machine.registers .load = BitVec.ofNat 32 r :=
      (hframe e rfl _ (not_mem_writes (by decide))).trans hp'.load
    have hvalue : e.machine.registers .loadValue = v :=
      (hframe e rfl _ (not_mem_writes (by decide))).trans hp'.loadValue
    obtain ⟨w,_,hw,hw',a,rfl⟩ := delayedLoad_settle b hload hvalue e.nextLoadReg e.nextLoadValue
    have hne : Register.pc ≠ .badVAddr := by decide
    have hpc : (w.set .badVAddr a).registers .pc = w.registers .pc := by simp [hne]
    have hsame : w.SameButBadVAddr (w.set .badVAddr a) := ⟨a,rfl⟩
    simp only [Exec.ok_bind, hw, hw', Outcome.exec_ok, Exec.pure_eq, hpc]
    have hprev := hsame.set (k := .prevPC) (by decide) (w.registers .pc)
    exact .ok ((hprev.set (k := .pc) (by decide) _).set (by decide) _)

/-- What an execution hands to the kernel, when it traps. -/
def HandsOver {α : Type} (r : Register) (v : Word) (m : Machine) (x : Exec α) : Prop :=
  ∀ which t, x = .error (.trap which t) → t.mainMemory = m.mainMemory ∧
    t.registers = settled r v (t.registers .badVAddr) m.registers

section HandsOver
variable {α β : Type} {i : Instruction}

theorem handsOver_ok (a : α) : HandsOver r v m (.ok a) := fun _ _ h => by cases h

theorem handsOver_fault (f : Fault) : HandsOver r v m (.error (.fault f) : Exec α) :=
  fun _ _ h => by cases h

theorem handsOver_raise (hp : Pending r v m) (which : ExceptionType) (addr : Word) :
    HandsOver r v m (m.raiseException which addr : Exec α) := by
  intro which' t' h
  obtain ⟨a,ht,-⟩ := raiseException_pending (α := α) hp which addr
  rw [ht] at h
  cases h
  exact ⟨rfl,by rw [settle_badVAddr]; rfl⟩

/-- Nothing has been changed by the first part but the tables. -/
theorem handsOver_bind {x : Exec α} {f : α → Exec β} (hx : HandsOver r v m x)
    (hf : ∀ a, x = .ok a → HandsOver r v m (f a)) : HandsOver r v m (x >>= f) := by
  rcases x with (_ | ⟨which,t⟩) | a
  · exact handsOver_fault _
  · rintro _ _ ⟨⟩
    exact hx which t rfl
  · exact hf a rfl

theorem SameBut.handsOver {m' : Machine} (h : m.SameBut m') {x : Exec α}
    (hx : HandsOver r v m' x) : HandsOver r v m x := by
  intro which t ht
  obtain ⟨hmem,hregs⟩ := hx which t ht
  exact ⟨hmem.trans h.mainMemory,h.registers ▸ hregs⟩

theorem handsOver_readMem (hp : Pending r v m) (addr : Word) (size : ℕ) :
    HandsOver r v m (m.readMem addr size) := by
  unfold readMem
  rcases m.translate addr size false with f | which | ⟨physAddr,m'⟩
  · exact handsOver_fault f
  · exact handsOver_raise hp which addr
  · simp only [Outcome.exec_ok, Exec.ok_bind]
    cases m'.mainMemory.get physAddr size with
    | error f => exact handsOver_fault f
    | ok bytes =>
      simp only [Outcome.exec_ok, Exec.ok_bind]
      split <;> first | exact handsOver_ok _ | exact handsOver_fault _

theorem handsOver_writeMem (hp : Pending r v m) (addr : Word) (size : ℕ) (value : Word) :
    HandsOver r v m (m.writeMem addr size value) := by
  unfold writeMem
  rcases m.translate addr size true with f | which | ⟨physAddr,m'⟩
  · exact handsOver_fault f
  · exact handsOver_raise hp which addr
  · have hput : ∀ bytes : List Byte, HandsOver r v m (do
        let mainMemory ← (m'.mainMemory.put physAddr bytes).exec
        return { m' with mainMemory := mainMemory }) := by
      intro bytes
      cases m'.mainMemory.put physAddr bytes with
      | error f => exact handsOver_fault f
      | ok mem => exact handsOver_ok _
    simp only [Outcome.exec_ok, Exec.ok_bind]
    split <;> first | exact hput _ | exact handsOver_fault _

theorem handsOver_store (hp : Pending r v m) (addr : Word) (size : ℕ) (value : Word) :
    HandsOver r v m (m.store addr size value) :=
  handsOver_bind (handsOver_writeMem hp addr size value) fun _ _ => handsOver_ok _

theorem handsOver_load (hp : Pending r v m) (addr : Word) (size : ℕ) (convert : Word → Word) :
    HandsOver r v m (m.load i addr size convert) :=
  handsOver_bind (handsOver_readMem hp addr size) fun _ _ => handsOver_ok _

theorem handsOver_loadMerged (hp : Pending r v m) (addr : Word)
    (merge : Word → Word → Word → Word) : HandsOver r v m (m.loadMerged i addr merge) := by
  unfold loadMerged
  split_ifs
  · exact handsOver_fault _
  · exact handsOver_bind (handsOver_readMem hp addr 4) fun _ _ => handsOver_ok _

theorem handsOver_storeMerged (hp : Pending r v m) (addr : Word)
    (merge : Word → Word → Word → Word) : HandsOver r v m (m.storeMerged i addr merge) := by
  unfold storeMerged
  split_ifs
  · exact handsOver_fault _
  · refine handsOver_bind (handsOver_readMem hp _ 4) fun p hread => ?_
    have hsame := readMem_sameBut hread
    exact hsame.handsOver (handsOver_store (hsame.pending hp) _ 4 _)

/-- Nothing is written before an instruction traps. -/
theorem handsOver_execute (hp : Pending r v m) (i : Instruction) :
    HandsOver r v m (m.execute i) := by
  obtain ⟨op,rs,rt,rd,extra⟩ := i
  cases op <;> dsimp only [execute]
  case lb | lbu => exact handsOver_load hp _ _ _
  case lh | lhu | lw =>
    split_ifs
    · exact handsOver_raise hp _ _
    · exact handsOver_load hp _ _ _
  case lwl | lwr => exact handsOver_loadMerged hp _ _
  case swl | swr => exact handsOver_storeMerged hp _ _
  case sb | sh | sw => exact handsOver_store hp _ _ _
  case add | addi | sub =>
    split_ifs
    · exact handsOver_raise hp _ _
    · exact handsOver_ok _
  case syscall | unimp | res => exact handsOver_raise hp _ _
  case div =>
    split_ifs
    · exact handsOver_ok _
    · exact handsOver_fault _
    · exact handsOver_ok _
  case divu => split_ifs <;> exact handsOver_ok _
  case rfe | special | bcond => exact handsOver_fault _
  all_goals exact handsOver_ok _

theorem handsOver_oneInstruction (hp : Pending r v m) (debug : Bool) :
    HandsOver r v m (m.oneInstruction debug) := by
  refine handsOver_bind (handsOver_readMem hp _ 4) fun p hread => ?_
  have hsame := readMem_sameBut hread
  refine hsame.handsOver ?_
  simp only
  split_ifs
  · exact handsOver_fault _
  refine handsOver_bind (handsOver_execute (hsame.pending hp) _) fun e _ => ?_
  cases e.machine.delayedLoad e.nextLoadReg e.nextLoadValue with
  | error f => exact handsOver_fault f
  | ok w => exact handsOver_ok _

end HandsOver

/-- What a handler does that only makes translations valid. -/
def withTables (m : Machine) (tlb pageTable : Option (List TranslationEntry)) : Machine :=
  { m with tlb := tlb, pageTable := pageTable }

theorem Agree.of_relocated {a b c : Machine} (h : Relocated .sameMapping a b)
    (hbc : b.SameButBadVAddr c) : a.Agree c := by
  obtain ⟨x,rfl⟩ := hbc
  refine ⟨h.mainMemory_eq,fun k hk => ?_,h.tlb,h.pageTable⟩
  rw [← h.registers]
  exact Function.update_of_ne hk _ _

/-- Trapping, making the translation valid and running the instruction again is running it
with the translation valid from the start. What has been noted in the `use` and `dirty` bits on
the way makes no difference. -/
theorem restartable (m t u : Machine) (debug : Bool) (which : ExceptionType) (r : Register)
    (raw : Word) (tlb pageTable tlb' pageTable' : Option (List TranslationEntry))
    (htlb : Option.Rel (List.Forall₂ TranslationEntry.SameMapping) tlb tlb')
    (htable : Option.Rel (List.Forall₂ TranslationEntry.SameMapping) pageTable pageTable')
    (hzero : m.registers (.gpr 0) = 0) (hload : m.registers .load = BitVec.ofNat 32 r)
    (htrap : m.oneInstruction debug = .error (.trap which t))
    (hfetch : (m.withTables tlb pageTable).readMem (m.registers .pc) 4 = .ok (raw,u))
    (hapart : (Instruction.decode raw).Apart r (m.registers .loadValue)) :
    Exec.Matches Agree Agree ((m.withTables tlb pageTable).oneInstruction debug)
      ((t.withTables tlb' pageTable').oneInstruction debug) := by
  have hp : Pending r (m.registers .loadValue) m := ⟨hload,rfl,hzero⟩
  have hp' : Pending r (m.registers .loadValue) (m.withTables tlb' pageTable') :=
    ⟨hload,rfl,hzero⟩
  have hrel : Relocated .sameMapping (m.withTables tlb pageTable)
      (m.withTables tlb' pageTable') := by
    refine ⟨rfl,htlb,htable,?_⟩
    rintro p _ rfl off -
    rfl
  obtain ⟨⟨raw',u'⟩,hfetch',rfl,-⟩ :=
    (hrel.readMem (.inr (.inr rfl)) (m.registers .pc)).ok_left hfetch
  obtain ⟨hmem,hregs⟩ := handsOver_oneInstruction hp debug which t htrap
  have ht : t.withTables tlb' pageTable' = (m.withTables tlb' pageTable').settle r
      (m.registers .loadValue) (t.registers .badVAddr) := by
    simp only [withTables, settle, withRegisters, hmem, ← hregs]
  rw [ht]
  exact (hrel.oneInstruction debug).trans (rel_oneInstruction _ hp' debug hfetch' hapart)
    (fun _ _ _ => Agree.of_relocated) fun _ _ _ => Agree.of_relocated

end Machine

/-- `lw r1,128(r0)`, while a 7 is about to be loaded into register 2, and page 1 is missing. The
page of the instruction has been used when it is made valid. -/
theorem restartable_lw :
    let m := Machine.sample 0x8c010080 fun r => if r = .load then 2 else
      if r = .loadValue then 7 else 0
    let pageTable := some [⟨0,0,true,false,false,false⟩,⟨1,1,true,false,false,false⟩]
    let pageTable' := some [⟨0,0,true,false,true,false⟩,⟨1,1,true,false,false,false⟩]
    ∃ t, m.oneInstruction false = .error (.trap .addressError t) ∧
      Exec.Matches Machine.Agree Machine.Agree
        ((m.withTables none pageTable).oneInstruction false)
        ((t.withTables none pageTable').oneInstruction false) :=
  ⟨_,rfl,Machine.restartable _ _ _ false .addressError 2 0x8c010080 _ _ _ _ .none
    (.some (.cons ⟨rfl,rfl,rfl,rfl⟩ (.cons ⟨rfl,rfl,rfl,rfl⟩ .nil))) rfl rfl rfl rfl
    (.inl (by decide))⟩

/-- `addiu r1,r0,0` in a machine whose register 0 is not zero. The trap clears it. -/
theorem not_restartable :
    let m := { Machine.sample 0x24010000 fun r => if r = .load then 2 else
      if r = 0 then 4 else 0 with pageTable := some [] }
    let pageTable := some [⟨0,0,true,false,false,false⟩]
    (Instruction.decode 0x24010000).Apart 2 (m.registers .loadValue) ∧
    ∃ t w w', m.oneInstruction false = .error (.trap .addressError t) ∧
      (m.withTables none pageTable).oneInstruction false = .ok w ∧
      (t.withTables none pageTable).oneInstruction false = .ok w' ∧
      w.registers 1 = 4 ∧ w'.registers 1 = 0 :=
  ⟨.inl (by decide),_,_,_,rfl,rfl,rfl,rfl,rfl⟩

end Nachos
