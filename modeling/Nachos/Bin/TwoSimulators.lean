import Nachos.Bin.Switch

/-! # Two simulators of one processor

A load is applied one instruction late by `OneInstruction` and at once by `runprogram`. Where the
two switches agree, the two programs go through the same instructions to the same registers and
the same memory, and interrupts between the instructions do not matter.
-/
namespace Nachos

/-- The delayed load goes to a general register and leaves the rest alone. -/
structure Machine.SameRest (m w : Machine) : Prop where
  special : ∀ k : Register, 32 ≤ k.val → k ≠ .load → k ≠ .loadValue → w.registers k = m.registers k
  mainMemory : w.mainMemory = m.mainMemory
  tlb : w.tlb = m.tlb
  pageTable : w.pageTable = m.pageTable

section Rounds
variable {m w m' : Machine} {s : Interpreter} {i : Instruction} {e : Effect} {debug : Bool}

theorem Machine.delayedLoad_sameRest (hload : (m.registers .load).toNat < numGPRegs)
    {nextReg nextValue : Word} (h : m.delayedLoad nextReg nextValue = .ok w) : m.SameRest w := by
  unfold delayedLoad at h
  split_ifs at h with hlt
  cases h
  refine ⟨fun k hk hl hv => ?_,rfl,rfl,rfl⟩
  have h₀ : k ≠ .gpr 0 := (Register.gpr_ne 0 hk).symm
  have h₁ : k ≠ ⟨(m.registers .load).toNat,hlt⟩ := by
    rintro rfl
    exact absurd hload (Nat.not_lt.mpr hk)
  simp only [set_registers, Function.update_of_ne h₀, Function.update_of_ne hv,
    Function.update_of_ne hl, Function.update_of_ne h₁]

theorem Machine.SameRest.window {mem : ℕ → Byte} (h : m.SameRest w) (hm : m.Window mem) :
    w.Window mem := by
  refine hm.congr h.mainMemory fun addr p hp => ?_
  have hlookup : w.lookup = m.lookup := by
    unfold Machine.lookup
    rw [h.tlb, h.pageTable]
  rwa [hlookup] at hp

theorem Alike.interrupt (h : Alike m s) (hload : m.delayedLoad 0 0 = .ok w) : Alike w s := by
  have hrest := Machine.delayedLoad_sameRest h.sound.load hload
  obtain ⟨hreg,-,hgpr⟩ := Machine.delayedLoad_gpr hload
  refine ⟨⟨by rw [hreg]; decide,Machine.delayedLoad_zero hload⟩,?_,?_,?_,?_,fun r hr => ?_,
    hrest.window h.window⟩
  · rw [hrest.special .pc (by decide) (by decide) (by decide)]
    exact h.pc
  · rw [hrest.special .nextPC (by decide) (by decide) (by decide)]
    exact h.npc
  · rw [hrest.special .hi (by decide) (by decide) (by decide)]
    exact h.hi
  · rw [hrest.special .lo (by decide) (by decide) (by decide)]
    exact h.lo
  · have hnone : ¬ w.Awaits r := fun ha => Machine.loadReg_ne hr (t := none) (by simp)
      (hreg.symm.trans ha.2)
    have hiff : m.Awaits r ↔ m.registers .load = BitVec.ofNat 32 r := and_iff_right hr
    rw [h.reg r hr, Machine.visible, Machine.visible, if_neg hnone, hgpr r hr,
      if_congr hiff rfl rfl]

theorem Leaves.alike (h : Leaves m i e s) (hsound : RegistersSound m.registers)
    (hpc : s.pc = m.registers .nextPC) (hdone : Machine.Completes debug m i e m') :
    Alike m' s := by
  obtain ⟨w,hw,hm'⟩ := hdone.finish
  obtain ⟨⟨raw,u,hread,rfl,hexec⟩,-⟩ := id hdone
  have hframe := Machine.frames_execute u _ e hexec
  have hsame := (Machine.readMem_sameBut hread).registers
  have hkept : ∀ k, Register.lo < k → e.machine.registers k = m.registers k := fun k hk =>
    (hframe k (Machine.not_mem_writes hk)).trans (congrFun hsame k)
  have hload : (e.machine.registers .load).toNat < numGPRegs := by
    rw [hkept .load (by decide)]
    exact hsound.load
  have hrest := Machine.delayedLoad_sameRest hload hw
  obtain ⟨hreg,hvalue,hgpr⟩ := hdone.registers
  refine ⟨hdone.sound,?_,?_,?_,?_,fun r hr => ?_,?_⟩
  · have hnext : w.registers .nextPC = m.registers .nextPC :=
      (hrest.special _ (by decide) (by decide) (by decide)).trans (hkept _ (by decide))
    simp [hm', hpc, hnext, show Register.pc ≠ .nextPC by decide]
  · simp [hm', h.npc]
  · rw [h.hi, ← hrest.special _ (by decide) (by decide) (by decide)]
    simp [hm', show Register.hi ≠ .nextPC by decide, show Register.hi ≠ .pc by decide,
      show Register.hi ≠ .prevPC by decide]
  · rw [h.lo, ← hrest.special _ (by decide) (by decide) (by decide)]
    simp [hm', show Register.lo ≠ .nextPC by decide, show Register.lo ≠ .pc by decide,
      show Register.lo ≠ .prevPC by decide]
  · have hiff : m'.Awaits r ↔ (Instruction.decode raw).loadTarget = some r := by
      unfold Machine.Awaits
      rw [hreg]
      refine ⟨fun ha => ?_,fun ht => ⟨hr,by rw [ht]; rfl⟩⟩
      by_contra hne
      exact Machine.loadReg_ne hr hne ha.2
    have hwait : m.Awaits r ↔ m.registers .load = BitVec.ofNat 32 r := and_iff_right hr
    rw [h.reg r hr, Machine.visible, hvalue, hgpr r hr, if_congr hiff rfl rfl,
      if_congr hwait rfl rfl]
  · have hw' := hrest.window h.window
    rw [hm']
    exact hw'.congr rfl fun _ _ => id

/-- The interpreter in front of its switch, register 0 set and the counters moved on. -/
def Interpreter.entered (s : Interpreter) : Interpreter :=
  { s with pc := s.npc, npc := s.npc + 4 }.assign 0 0

theorem Interpreter.round_eq {systemTrap : Interpreter → Running Interpreter} {raw : Word}
    (h : s.fetch s.pc = .ok raw) : s.round systemTrap =
      if raw ≠ 0 then s.entered.execute systemTrap s.pc raw else .ok s.entered := by
  have hfetch : Interpreter.fetch { s with pc := s.npc, npc := s.npc + 4 } s.pc = .ok raw := h
  rw [Interpreter.round, hfetch]
  rfl

theorem Alike.tracks {u : Machine} {raw : Word} (h : Alike m s)
    (hread : m.readMem (m.registers .pc) 4 = .ok (raw,u)) :
    s.fetch s.pc = .ok raw ∧
      Tracks m u s.entered := by
  obtain ⟨hwindow,bs,hbytes,hraw⟩ := h.window.readMem (.inr (.inr rfl)) hread
  have hsame := (Machine.readMem_sameBut hread).registers
  refine ⟨?_,?_,?_,fun r => ?_,hwindow⟩
  · rw [Interpreter.fetch, h.pc, hbytes, hraw]
    rfl
  · exact h.hi.trans (congrFun hsame _).symm
  · exact h.lo.trans (congrFun hsame _).symm
  · by_cases hr : r = 0
    · subst hr
      have hnone : ¬ m.Awaits 0 := fun ha => ha.1 rfl
      rw [if_neg hnone, hsame, h.sound.zero]
      simp [Interpreter.entered, Interpreter.assign]
    · rw [hsame]
      rw [← Machine.visible, ← h.reg r hr]
      simp [Interpreter.entered, Interpreter.assign, hr]

variable {systemTrap : Interpreter → Running Interpreter}

theorem Alike.round (systemTrap : Interpreter → Running Interpreter) (h : Alike m s)
    (hdone : Machine.Completes debug m i e m') (hcompat : m.Compatible i) :
    ∃ raw s', s.fetch s.pc = .ok raw ∧ Instruction.decode raw = i ∧
      s.round systemTrap = .ok s' ∧ Alike m' s' := by
  obtain ⟨⟨raw,u,hread,rfl,hexec⟩,-⟩ := id hdone
  obtain ⟨hfetch,htracks⟩ := h.tracks hread
  have hsame := (Machine.readMem_sameBut hread).registers
  obtain ⟨s',hs',hpc,hleaves⟩ := leaves_execute systemTrap s.pc htracks
    hsame (by rw [Machine.pcAfter, hsame, ← h.npc]; rfl) h.pc hcompat hexec
  refine ⟨raw,s',hfetch,rfl,?_,hleaves.alike h.sound (hpc.trans h.npc) hdone⟩
  rw [Interpreter.round_eq hfetch]
  by_cases hraw : raw = 0
  · subst hraw
    -- the no-op shifts register 0, which is zero
    have hnop : s.entered.execute systemTrap s.pc 0 = .ok (s.entered.assign 0 0) := rfl
    have hzero : s.entered.assign 0 0 = s.entered := by
      simp [Interpreter.entered, Interpreter.assign]
    rw [← hs', hnop, hzero]
    exact if_neg (not_not.mpr rfl)
  · rw [if_pos hraw]
    exact hs'

end Rounds

inductive ProgramStep where
  | instruction (i : Instruction)
  | interrupt

/-- A program on the simulator of the kernel; an interrupt ends the delayed load. -/
def simulated (debug : Bool) : TransitionSystem Machine ProgramStep where
  init _ := False
  step m l m' :=
    match l with
    | .instruction i => ∃ e, Machine.Completes debug m i e m'
    | .interrupt => m.delayedLoad 0 0 = .ok m'

/-- A program on the interpreter, which knows no interrupts. -/
def interpreted (systemTrap : Interpreter → Running Interpreter) :
    TransitionSystem Interpreter ProgramStep where
  init _ := False
  step s l s' :=
    match l with
    | .instruction i => ∃ raw, s.fetch s.pc = .ok raw ∧ Instruction.decode raw = i ∧
        s.round systemTrap = .ok s'
    | .interrupt => s' = s

/-- An interrupt may come anywhere. -/
def Machine.Admits (m : Machine) : ProgramStep → Prop
  | .instruction i => m.Compatible i
  | .interrupt => True

/-- Whatever the kernel's simulator makes of a program, the interpreter makes of it. -/
theorem twoSimulators (debug : Bool) (systemTrap : Interpreter → Running Interpreter)
    (m m' : Machine) (s : Interpreter) (ls : List ProgramStep) (h : Alike m s)
    (hrun : (((simulated debug).guard Machine.Admits).startAt m).Run ls m') :
    ∃ s', ((interpreted systemTrap).startAt s).Run ls s' ∧ Alike m' s' := by
  refine hrun.simulate ?_ ?_
  · rintro _ rfl
    exact ⟨s,rfl,h⟩
  · rintro u l v t hut ⟨hadmits,hstep⟩
    cases l with
    | instruction i =>
      obtain ⟨e,hdone⟩ := hstep
      obtain ⟨raw,t',hfetch,hdecode,hround,halike⟩ :=
        hut.round systemTrap hdone hadmits
      exact ⟨t',⟨raw,hfetch,hdecode,hround⟩,halike⟩
    | interrupt => exact ⟨t,rfl,hut.interrupt hstep⟩

/-- `lw r1,8(r2)` and `addiu r3,r0,7` where the interpreter has its memory. -/
def Machine.mapped : Machine :=
  { Machine.pair 0x8c410008 0x24030007 with
    registers := fun r => if r = .pc ∨ r = .gpr 2 then 0x10000000
      else if r = .nextPC then 0x10000004 else 0
    tlb := some [⟨0x200000,0,true,false,false,false⟩]
    pageTable := none }

def Interpreter.mapped : Interpreter where
  mem k := Machine.mapped.mainMemory.bytes.getD k 0
  reg r := if r = 2 then 0x10000000 else 0
  hi := 0
  lo := 0
  pc := 0x10000000
  npc := 0x10000004

theorem window_mapped : Machine.mapped.Window Interpreter.mapped.mem := by
  have htr : ∀ addr p, translation Machine.mapped.lookup addr 1 false = .ok p →
      addr.toNat = memOffset + p ∧ p < 128 := by
    intro addr p h
    have hlookup : Machine.mapped.lookup = tlbLookup [⟨0x200000,0,true,false,false,false⟩] := rfl
    rw [hlookup] at h
    unfold translation tlbLookup at h
    split_ifs at h
    by_cases hpage : addr.toNat / pageSize = 0x200000
    · rw [hpage] at h
      have hp : addr.toNat % pageSize = p := by
        simpa [TranslationEntry.isFor, TranslationEntry.permit, TranslationEntry.refusal,
          TranslationEntry.physAddr, Except.map] using h
      unfold memOffset
      unfold pageSize sectorSize at hpage hp
      omega
    · have hne : ¬ 0x200000 = addr.toNat / pageSize := fun h => hpage h.symm
      simp [TranslationEntry.isFor, hne] at h
  refine ⟨fun addr p h => ?_,fun addr p h => ?_,fun a b p ha hb => ?_⟩
  · obtain ⟨ha,hp⟩ := htr addr p h
    unfold memOffset memSize at *
    omega
  · obtain ⟨ha,hp⟩ := htr addr p h
    have hlt : p < Machine.mapped.mainMemory.bytes.length := by
      rw [Machine.mapped.mainMemory.length_bytes]
      exact hp.trans (by decide)
    have hplace : addr.toNat - memOffset = p := by omega
    rw [hplace, List.getElem?_eq_getElem hlt]
    simp [Interpreter.mapped, hlt]
  · have hlow := (htr a p ha).1
    have hlow' := (htr b p hb).1
    exact BitVec.eq_of_toNat_eq (hlow.trans hlow'.symm)

theorem alike_mapped : Alike Machine.mapped Interpreter.mapped := by
  refine ⟨⟨by decide,rfl⟩,rfl,rfl,rfl,rfl,?_,window_mapped⟩
  decide

/-- An interrupt between the load and the instruction behind it. -/
theorem twoSimulators_lw : ∃ m' s',
    ((interpreted .ok).startAt Interpreter.mapped).Run
      [.instruction (Instruction.decode 0x8c410008),.interrupt,
        .instruction (Instruction.decode 0x24030007)] s' ∧ Alike m' s' ∧
      m'.registers (.gpr 3) = 7 := by
  let T := ((simulated false).guard Machine.Admits).startAt Machine.mapped
  have h₀ : T.Run [] Machine.mapped := .start rfl
  obtain ⟨m₁,h₁,hkept⟩ : ∃ m₁, T.Run [.instruction (Instruction.decode 0x8c410008)] m₁ ∧
      ∃ m₂, m₁.delayedLoad 0 0 = .ok m₂ ∧ m₂.Compatible (Instruction.decode 0x24030007) ∧
      ∃ e m₃, Machine.Completes false m₂ (Instruction.decode 0x24030007) e m₃ ∧
        m₃.registers (.gpr 3) = 7 :=
    ⟨_,h₀.step ⟨⟨by decide,trivial⟩,_,⟨0x8c410008,_,rfl,rfl,rfl⟩,rfl⟩,_,rfl,
      ⟨by decide,trivial⟩,_,_,⟨⟨0x24030007,_,rfl,rfl,rfl⟩,rfl⟩,rfl⟩
  obtain ⟨m₂,hload,hcompat,e,m₃,hdone,hthree⟩ := hkept
  have h₂ : T.Run [.instruction (Instruction.decode 0x8c410008),.interrupt] m₂ :=
    h₁.step ⟨trivial,hload⟩
  have h₃ : T.Run [.instruction (Instruction.decode 0x8c410008),.interrupt,
      .instruction (Instruction.decode 0x24030007)] m₃ := h₂.step ⟨hcompat,e,hdone⟩
  obtain ⟨s',hs',halike⟩ := twoSimulators false .ok Machine.mapped m₃ Interpreter.mapped _
    alike_mapped h₃
  exact ⟨m₃,s',hs',halike,hthree⟩

end Nachos
