import Nachos.Machine.MipsSim
import Nachos.Machine.MemoryAccess

/-! # What a user program can do to the simulator

An instruction ends in the next state or in a trap, unless it is a merging load or store at
an address that is not aligned, or the one division that has no quotient.
-/
namespace Nachos

theorem Register.gpr_ne (r : Fin numGPRegs) {k : Register} (hk : 32 ≤ k.val) :
    Register.gpr r ≠ k := by
  rintro rfl
  have := r.isLt
  simp only [Register.gpr, Fin.val_castLE] at hk
  unfold numGPRegs at this
  omega

namespace Instruction
variable (i : Instruction)

/-- The registers the switch assigns to, and the target of a delayed load. -/
def writes : List Register :=
  match i.opCode with
  | .add | .addu | .and | .jalr | .mfhi | .mflo | .nor | .or | .sll | .sllv | .slt | .sltu
  | .sra | .srav | .srl | .srlv | .sub | .subu | .xor => [.gpr i.rd]
  | .addi | .addiu | .andi | .lui | .ori | .slti | .sltiu | .xori
  | .lb | .lbu | .lh | .lhu | .lw | .lwl | .lwr => [.gpr i.rt]
  | .bgezal | .bltzal | .jal => [.gpr 31]
  | .div | .divu | .mult | .multu => [.hi,.lo]
  | .mthi => [.hi]
  | .mtlo => [.lo]
  | _ => []

/-- The registers whose values the instruction depends on. -/
def reads : List Register :=
  [.pc,.nextPC] ++ match i.opCode with
  | .add | .addu | .and | .beq | .bne | .div | .divu | .mult | .multu | .nor | .or | .sllv
  | .slt | .sltu | .srav | .srlv | .sub | .subu | .xor | .lwl | .lwr | .sb | .sh | .sw | .swl
  | .swr => [.gpr i.rs,.gpr i.rt]
  | .addi | .addiu | .andi | .bgez | .bgezal | .bgtz | .blez | .bltz | .bltzal | .jalr | .jr
  | .lb | .lbu | .lh | .lhu | .lw | .mthi | .mtlo | .ori | .slti | .sltiu | .xori => [.gpr i.rs]
  | .sll | .sra | .srl => [.gpr i.rt]
  | .mfhi => [.hi]
  | .mflo => [.lo]
  | _ => []

end Instruction

namespace Exec
variable {α β : Type} {x : Exec α}

/-- No `ASSERT` fails and the host does not trap. -/
def Clean (x : Exec α) : Prop := ∀ f, x ≠ .error (.fault f)

@[simp] theorem clean_ok (a : α) : Clean (.ok a) := fun _ h => by cases h

@[simp] theorem clean_trap (which : ExceptionType) (m : Machine) :
    Clean (.error (.trap which m) : Exec α) := fun _ h => by cases h

@[simp] theorem not_clean_fault (f : Fault) : ¬ Clean (.error (.fault f) : Exec α) :=
  fun h => h f rfl

theorem clean_bind (hx : Clean x) {f : α → Exec β} :
    Clean (x >>= f) ↔ ∀ a, x = .ok a → Clean (f a) := by
  cases x with
  | ok a => simp
  | error e =>
    cases e with
    | fault f => exact absurd hx (not_clean_fault f)
    | trap which m => simp

def Frames (m : Machine) (rs : List Register) (x : Exec Effect) : Prop :=
  ∀ e, x = .ok e → ∀ r, r ∉ rs → e.machine.registers r = m.registers r

end Exec

namespace Machine
variable {m : Machine} {i : Instruction} {rs : List Register}

@[simp] theorem set_registers (m : Machine) (r : Register) (v : Word) :
    (m.set r v).registers = Function.update m.registers r v := rfl

theorem raiseException_eq {α : Type} {which : ExceptionType} {badVAddr : Word} {m' : Machine}
    (h : (m.set .badVAddr badVAddr).delayedLoad 0 0 = .ok m') :
    (m.raiseException which badVAddr : Exec α) = .error (.trap which m') := by
  rw [raiseException, h]
  rfl

theorem raiseException_ne_ok {α : Type} {which : ExceptionType} {badVAddr : Word} {a : α} :
    m.raiseException which badVAddr ≠ .ok a := by
  cases h : (m.set .badVAddr badVAddr).delayedLoad 0 0 with
  | error f =>
    rw [raiseException, h]
    exact fun h => by cases h
  | ok m' =>
    rw [raiseException_eq h]
    exact fun h => by cases h

section Frames
open Exec

@[simp] theorem frames_raise (which : ExceptionType) (badVAddr : Word) :
    Frames m rs (m.raiseException which badVAddr) :=
  fun _ h => absurd h raiseException_ne_ok

@[simp] theorem frames_fault (f : Fault) : Frames m rs (.error (.fault f)) :=
  fun _ h => by cases h

@[simp] theorem frames_assign (r : Register) (v : Word) : Frames m [r] (m.assign r v) := by
  rintro _ ⟨⟩ k hk
  simp only [List.mem_singleton] at hk
  simp [hk]

@[simp] theorem frames_assignHiLo (hi lo : Word) : Frames m [.hi,.lo] (m.assignHiLo hi lo) := by
  rintro _ ⟨⟩ k hk
  simp only [List.mem_cons, List.not_mem_nil, or_false, not_or] at hk
  simp [hk]

@[simp] theorem frames_jump (pcAfter : Word) : Frames m [] (m.jump pcAfter) := by
  rintro _ ⟨⟩ k -
  rfl

@[simp] theorem frames_branch (taken : Prop) [Decidable taken] :
    Frames m [] (m.branch i taken) := frames_jump _

@[simp] theorem frames_link_jump (r : Fin numGPRegs) (pcAfter : Word) :
    Frames m [.gpr r] ((m.link r).jump pcAfter) := by
  rintro _ ⟨⟩ k hk
  simp only [List.mem_singleton] at hk
  simp [link, hk]

@[simp] theorem frames_link_branch (r : Fin numGPRegs) (taken : Prop) [Decidable taken] :
    Frames m [.gpr r] ((m.link r).branch i taken) := frames_link_jump r _

@[simp] theorem frames_load (addr : Word) (size : ℕ) (convert : Word → Word) :
    Frames m rs (m.load i addr size convert) := by
  intro e he k _
  unfold load at he
  cases hr : m.readMem addr size with
  | error s => rw [hr] at he; cases he
  | ok p =>
    rw [hr] at he
    cases he
    exact congrFun (readMem_sameBut hr).registers k

@[simp] theorem frames_store (addr : Word) (size : ℕ) (value : Word) :
    Frames m rs (m.store addr size value) := by
  intro e he k _
  unfold store at he
  cases hw : m.writeMem addr size value with
  | error s => rw [hw] at he; cases he
  | ok m' =>
    rw [hw] at he
    cases he
    exact congrFun (writeMem_registers hw) k

@[simp] theorem frames_loadMerged (addr : Word) (merge : Word → Word → Word → Word) :
    Frames m rs (m.loadMerged i addr merge) := by
  intro e he k _
  unfold loadMerged at he
  split_ifs at he
  · cases he
  cases hr : m.readMem addr 4 with
  | error s => rw [hr] at he; cases he
  | ok p =>
    rw [hr] at he
    cases he
    exact congrFun (readMem_sameBut hr).registers k

@[simp] theorem frames_storeMerged (addr : Word) (merge : Word → Word → Word → Word) :
    Frames m rs (m.storeMerged i addr merge) := by
  intro e he k hk
  unfold storeMerged at he
  split_ifs at he
  · cases he
  cases hr : m.readMem (addr &&& ~~~3) 4 with
  | error s => rw [hr] at he; cases he
  | ok p =>
    rw [hr] at he
    exact (frames_store _ _ _ e he k hk).trans (congrFun (readMem_sameBut hr).registers k)

/-- The switch assigns to the registers the instruction writes and to no others. -/
theorem frames_execute (m : Machine) (i : Instruction) : Frames m i.writes (m.execute i) := by
  obtain ⟨op,rs,rt,rd,extra⟩ := i
  cases op <;> dsimp only [execute, Instruction.writes] <;> (try split_ifs) <;> simp

end Frames

/-- The delayed load goes to a general register, and there is one table. -/
structure Wired (m : Machine) : Prop where
  load : (m.registers .load).toNat < numGPRegs
  oneTable : m.OneTable

/-- The operands on which the simulator can go on. -/
def HostSafe (m : Machine) (i : Instruction) : Prop :=
  let rs := m.registers (.gpr i.rs)
  let rt := m.registers (.gpr i.rt)
  match i.opCode with
  | .lwl | .lwr | .swl | .swr => (rs + i.extra) &&& 3 = 0
  | .div => ¬ (rs = 0x80000000 ∧ rt = 0xffffffff)
  | _ => True

theorem delayedLoad_ok (h : (m.registers .load).toNat < numGPRegs) (nextReg nextValue : Word) :
    ∃ m', m.delayedLoad nextReg nextValue = .ok m' :=
  ⟨_,dif_pos (h.trans (by decide))⟩

section Clean
open Exec

theorem clean_raise {α : Type} (hm : m.Wired) (which : ExceptionType) (badVAddr : Word) :
    Clean (m.raiseException which badVAddr : Exec α) := by
  have hload : ((m.set .badVAddr badVAddr).registers .load).toNat < numGPRegs := by
    simpa [Register.load, Register.badVAddr] using hm.load
  obtain ⟨m',h⟩ := delayedLoad_ok hload 0 0
  rw [raiseException_eq h]
  exact clean_trap _ _

theorem clean_readMem (hm : m.Wired) {size : ℕ} (hsize : AccessSize size) (addr : Word) :
    Clean (m.readMem addr size) := by
  rcases readMem_cases hm.oneTable hsize addr with ⟨which,h⟩ | ⟨value,m',h⟩
  · rw [h]
    exact clean_raise hm which addr
  · rw [h]
    exact clean_ok _

theorem Wired.sameBut {m' : Machine} (hm : m.Wired) (h : m.SameBut m') : m'.Wired :=
  ⟨by rw [h.registers]; exact hm.load,h.oneTable hm.oneTable⟩

theorem Wired.readMem {addr value : Word} {size : ℕ} {m' : Machine} (hm : m.Wired)
    (h : m.readMem addr size = .ok (value,m')) : m'.Wired := hm.sameBut (readMem_sameBut h)

theorem clean_load (hm : m.Wired) {size : ℕ} (hsize : AccessSize size) (addr : Word)
    (convert : Word → Word) : Clean (m.load i addr size convert) :=
  (clean_bind (clean_readMem hm hsize addr)).mpr fun _ _ => clean_ok _

theorem clean_store (hm : m.Wired) {size : ℕ} (hsize : AccessSize size) (addr value : Word) :
    Clean (m.store addr size value) := by
  have hw : Clean (m.writeMem addr size value) := by
    rcases writeMem_cases hm.oneTable hsize addr value with ⟨which,h⟩ | ⟨m',h⟩
    · rw [h]
      exact clean_raise hm which addr
    · rw [h]
      exact clean_ok _
  exact (clean_bind hw).mpr fun _ _ => clean_ok _

/-- The assertion comes before the access. -/
theorem clean_loadMerged (hm : m.Wired) (addr : Word) (merge : Word → Word → Word → Word) :
    Clean (m.loadMerged i addr merge) ↔ addr &&& 3 = 0 := by
  unfold loadMerged
  split_ifs with h
  · exact ⟨fun hc => absurd hc (not_clean_fault _),fun h0 => absurd h0 h⟩
  · simp only [not_not.mp h, iff_true]
    exact (clean_bind (clean_readMem hm (.inr (.inr rfl)) addr)).mpr fun _ _ => clean_ok _

theorem clean_storeMerged (hm : m.Wired) (addr : Word) (merge : Word → Word → Word → Word) :
    Clean (m.storeMerged i addr merge) ↔ addr &&& 3 = 0 := by
  unfold storeMerged
  split_ifs with h
  · exact ⟨fun hc => absurd hc (not_clean_fault _),fun h0 => absurd h0 h⟩
  · simp only [not_not.mp h, iff_true]
    exact (clean_bind (clean_readMem hm (.inr (.inr rfl)) _)).mpr fun p hp =>
      clean_store (hm.readMem hp) (.inr (.inr rfl)) _ _

theorem clean_execute (hm : m.Wired) (hmax : i.opCode.LeMax) (hrfe : i.opCode ≠ .rfe) :
    Clean (m.execute i) ↔ m.HostSafe i := by
  have hb : AccessSize 1 := .inl rfl
  have hh : AccessSize 2 := .inr (.inl rfl)
  have hw : AccessSize 4 := .inr (.inr rfl)
  obtain ⟨op,rs,rt,rd,extra⟩ := i
  cases op <;> dsimp only [execute, HostSafe]
  case rfe => exact absurd rfl hrfe
  case special => exact absurd rfl hmax.1
  case bcond => exact absurd rfl hmax.2
  case lwl | lwr => exact clean_loadMerged hm _ _
  case swl | swr => exact clean_storeMerged hm _ _
  case div =>
    split_ifs with h0 hmin
    · refine iff_of_true (clean_ok _) fun hmin => ?_
      rw [h0] at hmin
      exact absurd hmin.2 (by decide)
    · exact ⟨fun hc => absurd hc (not_clean_fault _),fun hn => absurd hmin hn⟩
    · exact iff_of_true (clean_ok _) hmin
  all_goals refine iff_true_intro ?_
  case lb | lbu => exact clean_load hm hb _ _
  case lh | lhu =>
    split_ifs
    · exact clean_raise hm _ _
    · exact clean_load hm hh _ _
  case lw =>
    split_ifs
    · exact clean_raise hm _ _
    · exact clean_load hm hw _ _
  case sb => exact clean_store hm hb _ _
  case sh => exact clean_store hm hh _ _
  case sw => exact clean_store hm hw _ _
  case add | addi | sub =>
    split_ifs
    · exact clean_raise hm _ _
    · exact clean_ok _
  case syscall | res | unimp => exact clean_raise hm _ _
  case divu => split_ifs <;> exact clean_ok _
  all_goals exact clean_ok _

end Clean

theorem hostSafe_sameBut {m' : Machine} (h : m.SameBut m') : m'.HostSafe i ↔ m.HostSafe i := by
  unfold HostSafe
  rw [h.registers]

theorem not_mem_writes {k : Register} (hk : Register.lo < k) : k ∉ i.writes := by
  have hgpr : ∀ j, k ≠ .gpr j := by
    rintro j rfl
    exact absurd (Nat.lt_trans hk j.isLt) (by decide)
  have hlo : k ≠ .lo := by
    rintro rfl
    exact absurd hk (by decide)
  have hhi : k ≠ .hi := by
    rintro rfl
    exact absurd hk (by decide)
  obtain ⟨op,rs,rt,rd,extra⟩ := i
  cases op <;> simp [Instruction.writes, hgpr, hhi, hlo]

/-- An instruction ends or traps exactly when its operands are safe, if it can be fetched. -/
theorem oneInstruction_clean (m : Machine) (debug : Bool)
    (hload : (m.registers .load).toNat < numGPRegs) (htable : m.OneTable) :
    (∀ f, m.oneInstruction debug ≠ .error (.fault f)) ↔
      ∀ raw m', m.readMem (m.registers .pc) 4 = .ok (raw,m') →
        m.HostSafe (Instruction.decode raw) := by
  have hm : m.Wired := ⟨hload,htable⟩
  change Exec.Clean (m.oneInstruction debug) ↔ _
  rw [oneInstruction, Exec.clean_bind (clean_readMem hm (.inr (.inr rfl)) _)]
  simp only [Prod.forall]
  refine forall_congr' fun raw => forall_congr' fun m' => imp_congr_right fun hfetch => ?_
  have hsame := readMem_sameBut hfetch
  have hm' := hm.sameBut hsame
  obtain ⟨hmax,hrfe⟩ := Instruction.decode_opCode raw
  rw [← hostSafe_sameBut hsame, ← clean_execute hm' hmax hrfe]
  simp only [hmax, not_true_eq_false, and_false, if_false]
  constructor
  · intro h f he
    refine h f ?_
    rw [he]
    rfl
  · intro h
    refine (Exec.clean_bind h).mpr fun e he => ?_
    have hl := frames_execute m' _ e he .load (not_mem_writes (by decide))
    obtain ⟨u,hu⟩ := delayedLoad_ok (hl ▸ hm'.load) e.nextLoadReg e.nextLoadValue
    rw [hu]
    exact Exec.clean_ok _

end Machine

/-- One page, at the start of the memory, with one instruction at its first address. -/
def Machine.sample (word : Word) (registers : Register → Word) : Machine where
  mainMemory := ⟨Codec.word.encode word ++ List.replicate (memorySize - 4) 0,by
    rw [List.length_append, List.length_replicate, Codec.word.length_encode]; rfl⟩
  registers := registers
  tlb := none
  pageTable := some [⟨0,0,true,false,false,false⟩]

/-- The smallest `int` divided by 7, and a load of the left part of the word at address 8. -/
theorem oneInstruction_clean_div :
    let div := Machine.sample 0x0022001a fun r => if r = 1 then 0x80000000 else
      if r = 2 then 7 else 0
    let lwl := Machine.sample 0x88030008 fun _ => 0
    (∀ f, div.oneInstruction true ≠ .error (.fault f)) ∧
      ∀ f, lwl.oneInstruction true ≠ .error (.fault f) := by
  refine ⟨(Machine.oneInstruction_clean _ true (by decide) (by decide)).mpr ?_,
    (Machine.oneInstruction_clean _ true (by decide) (by decide)).mpr ?_⟩
  · rintro raw m' ⟨⟩
    change ¬ ((0x80000000 : Word) = 0x80000000 ∧ (7 : Word) = 0xffffffff)
    decide
  · rintro raw m' ⟨⟩
    change ((0 : Word) + 8) &&& 3 = 0
    decide

/-- A load of the left part of the word at address 1, and a division by -1. -/
theorem not_oneInstruction_clean :
    let lwl := Machine.sample 0x88000001 fun _ => 0
    let div := Machine.sample 0x0022001a fun r => if r = 1 then 0x80000000 else
      if r = 2 then 0xffffffff else 0
    ((lwl.registers .load).toNat < numGPRegs ∧ lwl.OneTable ∧
      lwl.oneInstruction false = .error (.fault .assertion)) ∧
    ((div.registers .load).toNat < numGPRegs ∧ div.OneTable ∧
      div.oneInstruction false = .error (.fault .overflow)) :=
  ⟨⟨by decide,by decide,rfl⟩,by decide,by decide,rfl⟩

end Nachos
