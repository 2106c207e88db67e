import Nachos.Bin.Product
import Nachos.Bin.SharedMemory

/-! # The two switches

`OneInstruction` and `runprogram` each have a switch over the instructions. Where no instruction
touches the register that a load is pending for, and none of those is executed that the two
switches disagree on, they leave the same registers and the same memory behind.
-/
namespace Nachos

namespace Machine
variable (m : Machine)

/-- A load into the register has still to be applied. -/
def Awaits (r : Fin numGPRegs) : Prop := r ≠ 0 ∧ m.registers .load = BitVec.ofNat 32 r

instance (r : Fin numGPRegs) : Decidable (m.Awaits r) := inferInstanceAs (Decidable (_ ∧ _))

/-- The register once this has been done. -/
def visible (r : Fin numGPRegs) : Word :=
  if m.Awaits r then m.registers .loadValue else m.registers (.gpr r)

/-- The instruction is in no delay slot of a branch. -/
def InOrder : Prop := m.registers .nextPC = m.registers .pc + 4

/-- What the two programs agree on: immediates without a sign where they are extended in two ways,
shifts by less than 32, no jump in a delay slot or out of a region of `2 ^ 28` bytes, a product
without carries and a division by a number. -/
def Compatible (i : Instruction) : Prop :=
  (∀ r, Register.gpr r ∈ i.reads ++ i.writes → ¬ m.Awaits r) ∧
  let rs := m.registers (.gpr i.rs)
  let rt := m.registers (.gpr i.rt)
  match i.opCode with
  | .andi | .ori | .xori => i.extra &&& 0x8000 = 0
  | .sllv | .srlv | .srav => rs.toNat < 32
  | .beq | .bne | .blez | .bgtz | .bltz | .bgez | .bltzal | .bgezal => m.InOrder
  | .j | .jal => m.InOrder ∧
      (m.registers .pc + 8) &&& 0xf0000000 = m.registers .pc &&& 0xf0000000
  | .jalr => m.InOrder ∧ i.rd ≠ i.rs
  | .mult => NoCarry rs.toInt.natAbs rt.toInt.natAbs
  | .multu => NoCarry rs.toNat rt.toNat
  | .div | .divu => rt ≠ 0
  | .lwl | .lwr | .swl | .swr => False
  | _ => True

end Machine

structure Alike (m : Machine) (s : Interpreter) : Prop where
  sound : RegistersSound m.registers
  pc : s.pc = m.registers .pc
  npc : s.npc = m.registers .nextPC
  hi : s.hi = m.registers .hi
  lo : s.lo = m.registers .lo
  reg : ∀ r, r ≠ 0 → s.reg r = m.visible r
  window : m.Window s.mem

structure Tracks (m u : Machine) (s : Interpreter) : Prop where
  hi : s.hi = u.registers .hi
  lo : s.lo = u.registers .lo
  reg : ∀ r, s.reg r = if m.Awaits r then m.registers .loadValue else u.registers (.gpr r)
  window : u.Window s.mem

structure Leaves (m : Machine) (i : Instruction) (e : Effect) (s : Interpreter) : Prop where
  npc : s.npc = e.pcAfter
  hi : s.hi = e.machine.registers .hi
  lo : s.lo = e.machine.registers .lo
  reg : ∀ r, r ≠ 0 → s.reg r = if i.loadTarget = some r then e.nextLoadValue
    else if m.Awaits r then m.registers .loadValue else e.value r
  window : e.machine.Window s.mem

namespace Tracks
variable {m u : Machine} {s : Interpreter} {i : Instruction} {r : Fin numGPRegs} {v : Word}

theorem read (h : Tracks m u s) (hr : ¬ m.Awaits r) : s.reg r = u.registers (.gpr r) := by
  rw [h.reg, if_neg hr]

theorem assign (h : Tracks m u s) (hr : ¬ m.Awaits r) (v : Word) :
    Tracks m (u.set (.gpr r) v) (s.assign r v) := by
  have hhi : Register.hi ≠ .gpr r := (Register.gpr_ne r (by decide)).symm
  have hlo : Register.lo ≠ .gpr r := (Register.gpr_ne r (by decide)).symm
  refine ⟨by simpa [hhi, Interpreter.assign] using h.hi,
    by simpa [hlo, Interpreter.assign] using h.lo,fun k => ?_,?_⟩
  · by_cases hk : k = r
    · subst hk
      simp [Interpreter.assign, hr]
    · have hgpr : Register.gpr k ≠ .gpr r := fun h => hk (Fin.castLE_injective _ h)
      simp only [Interpreter.assign, Function.update_of_ne hk, Machine.set_registers,
        Function.update_of_ne hgpr, h.reg]
  · exact h.window.congr rfl fun _ _ => id

theorem assignHi (h : Tracks m u s) (v : Word) : Tracks m (u.set .hi v) { s with hi := v } := by
  refine ⟨by simp,by simpa [show Register.lo ≠ .hi by decide] using h.lo,fun k => ?_,
    h.window.congr rfl fun _ _ => id⟩
  have hhi : Register.gpr k ≠ .hi := Register.gpr_ne k (by decide)
  simp only [Machine.set_registers, Function.update_of_ne hhi, h.reg]

theorem assignLo (h : Tracks m u s) (v : Word) : Tracks m (u.set .lo v) { s with lo := v } := by
  refine ⟨by simpa [show Register.hi ≠ .lo by decide] using h.hi,by simp,fun k => ?_,
    h.window.congr rfl fun _ _ => id⟩
  have hlo : Register.gpr k ≠ .lo := Register.gpr_ne k (by decide)
  simp only [Machine.set_registers, Function.update_of_ne hlo, h.reg]

theorem goto (h : Tracks m u s) (npc : Word) : Tracks m u { s with npc := npc } :=
  ⟨h.hi,h.lo,h.reg,h.window⟩

theorem link {xpc : Word} (h : Tracks m u s) (hr : ¬ m.Awaits r)
    (hnext : u.registers .nextPC = xpc + 4) : Tracks m (u.link r) (s.link xpc r) := by
  have heq : u.registers .nextPC + 4 = xpc + 8 := by
    rw [hnext, BitVec.add_assoc]
    rfl
  rw [Machine.link, heq]
  exact h.assign hr _

theorem leaves (h : Tracks m u s) (hi : i.loadTarget = none) {pcAfter : Word}
    (hnpc : s.npc = pcAfter) : Leaves m i ⟨u,pcAfter,0,0⟩ s :=
  ⟨hnpc,h.hi,h.lo,fun r _ => by rw [hi, h.reg]; rfl,h.window⟩

variable {e : Effect} {xpc raw addr : Word} {size : ℕ}

theorem branch (h : Tracks m u s) (hi : i.loadTarget = none) (hnpc : s.npc = u.pcAfter)
    (hnext : u.registers .nextPC = xpc + 4) (hextra : i.extra = Encode.immed raw)
    {taken taken' : Prop} [Decidable taken] [Decidable taken'] (hiff : taken ↔ taken')
    (he : u.branch i taken = .ok e) : Leaves m i e (s.branch xpc raw taken') := by
  obtain rfl := Except.ok.inj he
  unfold Interpreter.branch
  by_cases htaken : taken
  · rw [if_pos htaken, if_pos (hiff.mp htaken)]
    have hmoved : Tracks m u { s with npc := xpc + 4 + Encode.immed raw <<< 2 } :=
      ⟨h.hi,h.lo,h.reg,h.window⟩
    refine hmoved.leaves hi ?_
    rw [hnext, hextra]
    rfl
  · rw [if_neg htaken, if_neg (mt hiff.mpr htaken)]
    exact h.leaves hi hnpc

theorem jump (h : Tracks m u s) (hi : i.loadTarget = none)
    (hnext : u.registers .nextPC = xpc + 4)
    (hregion : (xpc + 8) &&& 0xf0000000 = xpc &&& 0xf0000000)
    (he : u.jump (u.pcAfter &&& 0xf0000000 ||| indexToAddr (raw &&& 0x03ffffff)) = .ok e) :
    Leaves m i e (s.jump xpc raw) := by
  obtain rfl := Except.ok.inj he
  refine (h.goto _).leaves hi ?_
  rw [Machine.pcAfter, hnext, BitVec.add_assoc, show (4 + 4 : Word) = 8 by rfl, hregion]
  rfl

theorem load (h : Tracks m u s) (hi : i.loadTarget = some i.rt) (hnpc : s.npc = u.pcAfter)
    (hsize : AccessSize size) {convert : Word → Word}
    (he : u.load i addr size convert = .ok e) : ∃ bs, s.bytesAt addr size = .ok bs ∧
      Leaves m i e (s.assign i.rt (convert (accessValue size bs))) := by
  unfold Machine.load at he
  cases hread : u.readMem addr size with
  | error stop => rw [hread] at he; cases he
  | ok p =>
    obtain ⟨v,u'⟩ := p
    rw [hread] at he
    obtain rfl := Except.ok.inj he
    obtain ⟨hwindow,bs,hbytes,rfl⟩ := h.window.readMem hsize hread
    have hsame := (Machine.readMem_sameBut hread).registers
    refine ⟨bs,hbytes,hnpc,?_,?_,fun r _ => ?_,hwindow⟩
    · change s.hi = u'.registers .hi
      rw [h.hi, hsame]
    · change s.lo = u'.registers .lo
      rw [h.lo, hsame]
    · by_cases hr : r = i.rt
      · subst hr
        simp [Interpreter.assign, hi]
      · have hne : ¬ i.loadTarget = some r := fun h' => hr (Option.some_inj.mp (h'.symm.trans hi))
        rw [if_neg hne, Interpreter.assign]
        simp only [Function.update_of_ne hr, h.reg, Effect.value, hsame]

theorem store (h : Tracks m u s) (hi : i.loadTarget = none) (hnpc : s.npc = u.pcAfter) {v : Word}
    (he : u.store addr size v = .ok e) : ∃ mem',
      s.putBytes addr (LittleEndian.bytes size v.toNat) = .ok { s with mem := mem' } ∧
      Leaves m i e { s with mem := mem' } := by
  unfold Machine.store at he
  cases hwrite : u.writeMem addr size v with
  | error stop => rw [hwrite] at he; cases he
  | ok u' =>
    rw [hwrite] at he
    obtain rfl := Except.ok.inj he
    obtain ⟨mem',hput,hwindow⟩ := h.window.writeMem hwrite
    have hsame := Machine.writeMem_registers hwrite
    refine ⟨mem',hput,leaves ⟨?_,?_,?_,hwindow⟩ hi ?_⟩
    · rw [hsame]
      exact h.hi
    · rw [hsame]
      exact h.lo
    · rw [hsame]
      exact h.reg
    · exact hnpc

end Tracks

theorem opCode_of_select {raw : Word} {c : I} {op : OpCode} (hc : Encode.select raw = c)
    (hop : c.opCode = some op) : (Instruction.decode raw).opCode = op := by
  rcases hc ▸ Encode.fits_select raw with h | ⟨h,-⟩
  · exact (Option.some_inj.mp (hop.symm.trans h)).symm
  · cases hop.symm.trans h

theorem negative_iff_slt (x : Word) : Negative x ↔ x.slt 0 = true := by
  rw [negative_iff]
  exact (Bool.coe_iff_coe.mpr BitVec.slt_zero_eq_msb).symm

section Switch
variable {m u : Machine} {s : Interpreter} {raw xpc : Word} {e : Effect}

theorem toNat_low5 {x : Word} (h : x.toNat < 32) : (x &&& 0x1f).toNat = x.toNat := by
  rw [BitVec.toNat_and]
  exact (Nat.and_two_pow_sub_one_eq_mod x.toNat 5).trans (Nat.mod_eq_of_lt h)

theorem immed_low {x : Word} (h : Encode.immed x &&& 0x8000 = 0) :
    Encode.immed x &&& 0xffff = Encode.immed x := by
  unfold Encode.immed at h ⊢
  split_ifs at h ⊢ with hsign
  · have hset : (x ||| 0xffff8000) &&& (0x8000 : Word) = 0x8000 := by
      rw [BitVec.and_or_distrib_right, Encode.and_sign x hsign]
      rfl
    exact absurd (h.symm.trans hset) (by decide)
  · exact BitVec.and_assoc _ _ _

theorem immed_shifted (x : Word) : Encode.immed x <<< 16 = x <<< 16 := by
  have hlow : (x &&& 0xffff) <<< 16 = x <<< 16 := by
    have hmask : (0xffff : Word) = (BitVec.allOnes 16).setWidth 32 := rfl
    rw [hmask]
    ext j hj
    simp only [BitVec.getElem_shiftLeft, BitVec.getElem_and, BitVec.getElem_setWidth,
      BitVec.getLsbD_allOnes]
    by_cases h16 : j < 16
    · simp [h16]
    · simp [h16, show j - 16 < 16 by omega]
  rw [← Encode.decodeExtra_i, Instruction.decodeExtra]
  split_ifs
  · rw [BitVec.shiftLeft_or_distrib, hlow]
    exact BitVec.or_zero
  · exact hlow

theorem signed_byte (b : Byte) : (if b.signExtend 32 &&& 0x80 ≠ 0 then
    b.signExtend 32 ||| 0xffffff00 else b.signExtend 32 &&& 0xff) = b.signExtend 32 := by
  revert b
  decide

theorem unsigned_byte (b : Byte) : b.signExtend 32 &&& 0xff = b.zeroExtend 32 := by
  revert b
  decide

theorem unsigned_half (x : BitVec 16) : x.zeroExtend 32 &&& 0xffff = x.zeroExtend 32 := by
  apply BitVec.eq_of_toNat_eq
  rw [Interpreter.toNat_half, BitVec.toNat_setWidth_of_le (by decide)]
  exact Nat.mod_eq_of_lt x.isLt

theorem signed_half (x : BitVec 16) : (if x.zeroExtend 32 &&& 0x8000 ≠ 0 then
    x.zeroExtend 32 ||| 0xffff0000 else x.zeroExtend 32 &&& 0xffff) = x.signExtend 32 := by
  have hsign : x.zeroExtend 32 &&& (0x8000 : Word) ≠ 0 ↔ x.msb = true := by
    have htwo : (0x8000 : Word) = BitVec.twoPow 32 15 := rfl
    have hbit : (x.zeroExtend 32).getLsbD 15 = x.msb := by
      simp [BitVec.msb_eq_getLsbD_last]
    rw [htwo, BitVec.and_twoPow, hbit]
    cases x.msb <;> decide
  have hzero : x.zeroExtend 32 &&& (0xffff0000 : Word) = 0 := by
    rw [← unsigned_half, BitVec.and_assoc]
    exact BitVec.and_zero
  apply BitVec.eq_of_toNat_eq
  rw [if_congr hsign rfl rfl, unsigned_half, BitVec.toNat_signExtend]
  cases hmsb : x.msb with
  | false => simp
  | true =>
    rw [if_pos rfl, if_pos rfl, ← BitVec.add_eq_or_of_and_eq_zero _ _ hzero, BitVec.toNat_add,
      BitVec.toNat_setWidth_of_le (by decide)]
    have := x.isLt
    exact Nat.mod_eq_of_lt (show x.toNat + 0xffff0000 < 2 ^ 32 by omega)

theorem leaves_execute (systemTrap : Interpreter → Running Interpreter) (xpc : Word)
    (h : Tracks m u s) (hregs : u.registers = m.registers)
    (hnpc : s.npc = u.pcAfter) (hxpc : xpc = m.registers .pc)
    (hcompat : m.Compatible (Instruction.decode raw))
    (he : u.execute (Instruction.decode raw) = .ok e) :
    ∃ s', s.execute systemTrap xpc raw = .ok s' ∧ s'.pc = s.pc ∧
      Leaves m (Instruction.decode raw) e s' := by
  have hextra := Encode.extra_eq raw
  have hfits := Encode.fits_select raw
  have hopCode : ∀ {op}, (Encode.select raw).opCode = some op →
      (Instruction.decode raw).opCode = op := opCode_of_select rfl
  generalize hi : Instruction.decode raw = i at *
  have hrs : Encode.rs raw = i.rs := by rw [← hi]; rfl
  have hrt : Encode.rt raw = i.rt := by rw [← hi]; rfl
  have hrd : Encode.rd raw = i.rd := by rw [← hi]; rfl
  obtain ⟨hkeeps,hcompat⟩ := hcompat
  rw [← hregs] at hcompat
  rw [← hregs] at hxpc
  have hnext : m.InOrder → u.registers .nextPC = xpc + 4 := fun h => by
    rw [hxpc, hregs]
    exact h
  cases hc : Encode.select raw <;> rw [hc] at hextra hopCode hfits
  case sll | srl | sra =>
    have hop := hopCode rfl
    have hreadrt := h.read (hkeeps i.rt (by simp [Instruction.reads, hop]))
    have hkeep := hkeeps i.rd (by simp [Instruction.writes, hop])
    have htarget : i.loadTarget = none := by rw [Instruction.loadTarget, hop]
    simp only [Machine.execute, hop, hextra (by decide)] at he
    obtain rfl := Except.ok.inj he
    simp only [Interpreter.execute, hc, hrt, hrd, hreadrt]
    exact ⟨_,rfl,rfl,(h.assign hkeep _).leaves htarget hnpc⟩
  case addu | subu | and | or | xor | nor | slt | sltu =>
    have hop := hopCode rfl
    have hreadrs := h.read (hkeeps i.rs (by simp [Instruction.reads, hop]))
    have hreadrt := h.read (hkeeps i.rt (by simp [Instruction.reads, hop]))
    have hkeep := hkeeps i.rd (by simp [Instruction.writes, hop])
    have htarget : i.loadTarget = none := by rw [Instruction.loadTarget, hop]
    simp only [Machine.execute, hop] at he
    obtain rfl := Except.ok.inj he
    simp only [Interpreter.execute, hc, hrs, hrt, hrd, hreadrs, hreadrt]
    exact ⟨_,rfl,rfl,(h.assign hkeep _).leaves htarget hnpc⟩
  case add | sub =>
    have hop := hopCode rfl
    have hreadrs := h.read (hkeeps i.rs (by simp [Instruction.reads, hop]))
    have hreadrt := h.read (hkeeps i.rt (by simp [Instruction.reads, hop]))
    have hkeep := hkeeps i.rd (by simp [Instruction.writes, hop])
    have htarget : i.loadTarget = none := by rw [Instruction.loadTarget, hop]
    simp only [Machine.execute, hop] at he
    split_ifs at he
    · exact absurd he Machine.raiseException_ne_ok
    · obtain rfl := Except.ok.inj he
      simp only [Interpreter.execute, hc, hrs, hrt, hrd, hreadrs, hreadrt]
      exact ⟨_,rfl,rfl,(h.assign hkeep _).leaves htarget hnpc⟩
  case sllv | srlv | srav =>
    have hop := hopCode rfl
    have hreadrs := h.read (hkeeps i.rs (by simp [Instruction.reads, hop]))
    have hreadrt := h.read (hkeeps i.rt (by simp [Instruction.reads, hop]))
    have hkeep := hkeeps i.rd (by simp [Instruction.writes, hop])
    have htarget : i.loadTarget = none := by rw [Instruction.loadTarget, hop]
    simp only [hop] at hcompat
    simp only [Machine.execute, hop, BitVec.shiftLeft_eq', BitVec.ushiftRight_eq',
      toNat_low5 hcompat] at he
    obtain rfl := Except.ok.inj he
    simp only [Interpreter.execute, hc, hrs, hrt, hrd, hreadrs, hreadrt, Interpreter.places,
      if_pos hcompat]
    exact ⟨_,rfl,rfl,(h.assign hkeep _).leaves htarget hnpc⟩
  case addiu | slti | sltiu =>
    have hop := hopCode rfl
    have hreadrs := h.read (hkeeps i.rs (by simp [Instruction.reads, hop]))
    have hkeep := hkeeps i.rt (by simp [Instruction.writes, hop])
    have htarget : i.loadTarget = none := by rw [Instruction.loadTarget, hop]
    simp only [Machine.execute, hop, hextra (by decide), I.format] at he
    obtain rfl := Except.ok.inj he
    simp only [Interpreter.execute, hc, hrs, hrt, hreadrs]
    exact ⟨_,rfl,rfl,(h.assign hkeep _).leaves htarget hnpc⟩
  case addi =>
    have hop := hopCode rfl
    have hreadrs := h.read (hkeeps i.rs (by simp [Instruction.reads, hop]))
    have hkeep := hkeeps i.rt (by simp [Instruction.writes, hop])
    have htarget : i.loadTarget = none := by rw [Instruction.loadTarget, hop]
    simp only [Machine.execute, hop, hextra (by decide), I.format] at he
    split_ifs at he
    · exact absurd he Machine.raiseException_ne_ok
    · obtain rfl := Except.ok.inj he
      simp only [Interpreter.execute, hc, hrs, hrt, hreadrs]
      exact ⟨_,rfl,rfl,(h.assign hkeep _).leaves htarget hnpc⟩
  case andi | ori | xori =>
    have hop := hopCode rfl
    have hreadrs := h.read (hkeeps i.rs (by simp [Instruction.reads, hop]))
    have hkeep := hkeeps i.rt (by simp [Instruction.writes, hop])
    have htarget : i.loadTarget = none := by rw [Instruction.loadTarget, hop]
    simp only [hop, hextra (by decide), I.format] at hcompat
    simp only [Machine.execute, hop, hextra (by decide), I.format, immed_low hcompat] at he
    obtain rfl := Except.ok.inj he
    simp only [Interpreter.execute, hc, hrs, hrt, hreadrs]
    exact ⟨_,rfl,rfl,(h.assign hkeep _).leaves htarget hnpc⟩
  case lui =>
    have hop := hopCode rfl
    have hkeep := hkeeps i.rt (by simp [Instruction.writes, hop])
    have htarget : i.loadTarget = none := by rw [Instruction.loadTarget, hop]
    simp only [Machine.execute, hop, hextra (by decide), I.format, immed_shifted] at he
    obtain rfl := Except.ok.inj he
    simp only [Interpreter.execute, hc, hrt]
    exact ⟨_,rfl,rfl,(h.assign hkeep _).leaves htarget hnpc⟩
  case mfhi | mflo =>
    have hop := hopCode rfl
    have hkeep := hkeeps i.rd (by simp [Instruction.writes, hop])
    have htarget : i.loadTarget = none := by rw [Instruction.loadTarget, hop]
    simp only [Machine.execute, hop] at he
    obtain rfl := Except.ok.inj he
    simp only [Interpreter.execute, hc, hrd, h.hi, h.lo]
    exact ⟨_,rfl,rfl,(h.assign hkeep _).leaves htarget hnpc⟩
  case mthi =>
    have hop := hopCode rfl
    have hreadrs := h.read (hkeeps i.rs (by simp [Instruction.reads, hop]))
    have htarget : i.loadTarget = none := by rw [Instruction.loadTarget, hop]
    simp only [Machine.execute, hop] at he
    obtain rfl := Except.ok.inj he
    simp only [Interpreter.execute, hc, hrs, hreadrs]
    exact ⟨_,rfl,rfl,(h.assignHi _).leaves htarget hnpc⟩
  case mtlo =>
    have hop := hopCode rfl
    have hreadrs := h.read (hkeeps i.rs (by simp [Instruction.reads, hop]))
    have htarget : i.loadTarget = none := by rw [Instruction.loadTarget, hop]
    simp only [Machine.execute, hop] at he
    obtain rfl := Except.ok.inj he
    simp only [Interpreter.execute, hc, hrs, hreadrs]
    exact ⟨_,rfl,rfl,(h.assignLo _).leaves htarget hnpc⟩
  case mult | multu =>
    have hop := hopCode rfl
    have hreadrs := h.read (hkeeps i.rs (by simp [Instruction.reads, hop]))
    have hreadrt := h.read (hkeeps i.rt (by simp [Instruction.reads, hop]))
    have htarget : i.loadTarget = none := by rw [Instruction.loadTarget, hop]
    simp only [hop] at hcompat
    simp only [Machine.execute, hop] at he
    obtain rfl := Except.ok.inj he
    simp only [Interpreter.execute, hc, hrs, hrt, hreadrs, hreadrt]
    refine ⟨_,rfl,rfl,?_⟩
    first
    | rw [Interpreter.multiply_eq hcompat]
      exact ((h.assignLo _).assignHi _).leaves htarget hnpc
    | rw [(Interpreter.high_eq hcompat).1, (Interpreter.high_eq hcompat).2]
      exact ((h.assignLo _).assignHi _).leaves htarget hnpc
  case div =>
    have hop := hopCode rfl
    have hreadrs := h.read (hkeeps i.rs (by simp [Instruction.reads, hop]))
    have hreadrt := h.read (hkeeps i.rt (by simp [Instruction.reads, hop]))
    have htarget : i.loadTarget = none := by rw [Instruction.loadTarget, hop]
    simp only [hop] at hcompat
    simp only [Machine.execute, hop, if_neg hcompat] at he
    split_ifs at he with hover
    -- the other division stops the simulator
    obtain rfl := Except.ok.inj he
    simp only [Interpreter.execute, hc, hrs, hrt, hreadrs, hreadrt, hcompat, hover, or_self,
      if_false]
    exact ⟨_,rfl,rfl,((h.assignLo _).assignHi _).leaves htarget hnpc⟩
  case divu =>
    have hop := hopCode rfl
    have hreadrs := h.read (hkeeps i.rs (by simp [Instruction.reads, hop]))
    have hreadrt := h.read (hkeeps i.rt (by simp [Instruction.reads, hop]))
    have htarget : i.loadTarget = none := by rw [Instruction.loadTarget, hop]
    simp only [hop] at hcompat
    simp only [Machine.execute, hop, if_neg hcompat] at he
    obtain rfl := Except.ok.inj he
    simp only [Interpreter.execute, hc, hrs, hrt, hreadrs, hreadrt, if_neg hcompat]
    exact ⟨_,rfl,rfl,((h.assignLo _).assignHi _).leaves htarget hnpc⟩
  case beq | bne | blez | bgtz | bltz | bgez =>
    have hop := hopCode rfl
    have hreadrs := h.read (hkeeps i.rs (by simp [Instruction.reads, hop]))
    have hreadrt : i.opCode = .beq ∨ i.opCode = .bne → s.reg i.rt = u.registers (.gpr i.rt) := by
      rintro (hop | hop) <;> exact h.read (hkeeps i.rt (by simp [Instruction.reads, hop]))
    have htarget : i.loadTarget = none := by rw [Instruction.loadTarget, hop]
    simp only [hop] at hcompat
    simp only [Machine.execute, hop, negative_iff_slt] at he
    simp only [Interpreter.execute, hc, hrs, hrt, hreadrs]
    refine ⟨_,rfl,?_,h.branch htarget hnpc (hnext hcompat) (hextra (by decide)) ?_ he⟩
    · unfold Interpreter.branch
      split <;> rfl
    · first
      | rw [hreadrt (by simp [hop])]
      | simp [BitVec.sle_eq_not_slt]
  case bltzal | bgezal =>
    have hop := hopCode rfl
    have hkeep := hkeeps 31 (by simp [Instruction.writes, hop])
    have htarget : i.loadTarget = none := by rw [Instruction.loadTarget, hop]
    simp only [hop] at hcompat
    simp only [Machine.execute, hop, negative_iff_slt] at he
    have hlinked := h.link hkeep (hnext hcompat)
    have hreadrs := hlinked.read (hkeeps i.rs (by simp [Instruction.reads, hop]))
    simp only [Interpreter.execute, hc, hrs, hreadrs]
    refine ⟨_,rfl,?_,hlinked.branch htarget ?_ ?_ (hextra (by decide)) ?_ he⟩
    · unfold Interpreter.branch
      split <;> rfl
    · exact hnpc
    · exact hnext hcompat
    · simp [BitVec.sle_eq_not_slt]
  case j =>
    have hop := hopCode rfl
    have htarget : i.loadTarget = none := by rw [Instruction.loadTarget, hop]
    simp only [hop] at hcompat
    simp only [Machine.execute, hop, hextra (by decide), I.format] at he
    simp only [Interpreter.execute, hc]
    exact ⟨_,rfl,rfl,h.jump htarget (hnext hcompat.1) (hxpc ▸ hcompat.2) he⟩
  case jal =>
    have hop := hopCode rfl
    have hkeep := hkeeps 31 (by simp [Instruction.writes, hop])
    have htarget : i.loadTarget = none := by rw [Instruction.loadTarget, hop]
    simp only [hop] at hcompat
    simp only [Machine.execute, hop, hextra (by decide), I.format] at he
    simp only [Interpreter.execute, hc]
    have hlinked := h.link hkeep (hnext hcompat.1)
    refine ⟨_,rfl,rfl,hlinked.jump htarget (hnext hcompat.1) (hxpc ▸ hcompat.2) he⟩
  case jr =>
    have hop := hopCode rfl
    have hreadrs := h.read (hkeeps i.rs (by simp [Instruction.reads, hop]))
    have htarget : i.loadTarget = none := by rw [Instruction.loadTarget, hop]
    simp only [Machine.execute, hop] at he
    obtain rfl := Except.ok.inj he
    simp only [Interpreter.execute, hc, hrs, hreadrs]
    exact ⟨_,rfl,rfl,(h.goto _).leaves htarget rfl⟩
  case jalr =>
    have hop := hopCode rfl
    have hreadrs := h.read (hkeeps i.rs (by simp [Instruction.reads, hop]))
    have hkeep := hkeeps i.rd (by simp [Instruction.writes, hop])
    have htarget : i.loadTarget = none := by rw [Instruction.loadTarget, hop]
    simp only [hop] at hcompat
    simp only [Machine.execute, hop] at he
    obtain rfl := Except.ok.inj he
    simp only [Interpreter.execute, hc, hrs, hrd, hreadrs]
    refine ⟨_,rfl,rfl,((h.goto _).link hkeep (hnext hcompat.1)).leaves htarget ?_⟩
    have hne : Register.gpr i.rs ≠ .gpr i.rd := fun h =>
      hcompat.2 (Fin.castLE_injective _ h).symm
    simp [Machine.link, hne, Interpreter.link, Interpreter.assign]
  case lb =>
    have hop := hopCode rfl
    have hreadrs := h.read (hkeeps i.rs (by simp [Instruction.reads, hop]))
    have htarget : i.loadTarget = some i.rt := by rw [Instruction.loadTarget, hop]
    simp only [Machine.execute, hop, hextra (by decide), I.format] at he
    obtain ⟨bs,hbytes,hleaves⟩ := h.load htarget hnpc (.inl rfl) he
    simp only [accessValue, signed_byte] at hleaves
    simp only [Interpreter.execute, hc, hrs, hrt, hreadrs, Interpreter.cfetch, hbytes]
    exact ⟨_,rfl,rfl,hleaves⟩
  case lbu =>
    have hop := hopCode rfl
    have hreadrs := h.read (hkeeps i.rs (by simp [Instruction.reads, hop]))
    have htarget : i.loadTarget = some i.rt := by rw [Instruction.loadTarget, hop]
    simp only [Machine.execute, hop, hextra (by decide), I.format] at he
    obtain ⟨bs,hbytes,hleaves⟩ := h.load htarget hnpc (.inl rfl) he
    simp only [accessValue, unsigned_byte] at hleaves
    simp only [Interpreter.execute, hc, hrs, hrt, hreadrs, Interpreter.ucfetch, hbytes]
    exact ⟨_,rfl,rfl,hleaves⟩
  case lh =>
    have hop := hopCode rfl
    have hreadrs := h.read (hkeeps i.rs (by simp [Instruction.reads, hop]))
    have htarget : i.loadTarget = some i.rt := by rw [Instruction.loadTarget, hop]
    simp only [Machine.execute, hop, hextra (by decide), I.format] at he
    split_ifs at he
    · exact absurd he Machine.raiseException_ne_ok
    · obtain ⟨bs,hbytes,hleaves⟩ := h.load htarget hnpc (.inr (.inl rfl)) he
      simp only [accessValue, signed_half] at hleaves
      simp only [Interpreter.execute, hc, hrs, hrt, hreadrs, Interpreter.sfetch, hbytes]
      exact ⟨_,rfl,rfl,hleaves⟩
  case lhu =>
    have hop := hopCode rfl
    have hreadrs := h.read (hkeeps i.rs (by simp [Instruction.reads, hop]))
    have htarget : i.loadTarget = some i.rt := by rw [Instruction.loadTarget, hop]
    simp only [Machine.execute, hop, hextra (by decide), I.format] at he
    split_ifs at he
    · exact absurd he Machine.raiseException_ne_ok
    · obtain ⟨bs,hbytes,hleaves⟩ := h.load htarget hnpc (.inr (.inl rfl)) he
      simp only [accessValue, unsigned_half] at hleaves
      simp only [Interpreter.execute, hc, hrs, hrt, hreadrs, Interpreter.usfetch, hbytes]
      exact ⟨_,rfl,rfl,hleaves⟩
  case lw =>
    have hop := hopCode rfl
    have hreadrs := h.read (hkeeps i.rs (by simp [Instruction.reads, hop]))
    have htarget : i.loadTarget = some i.rt := by rw [Instruction.loadTarget, hop]
    simp only [Machine.execute, hop, hextra (by decide), I.format] at he
    split_ifs at he
    · exact absurd he Machine.raiseException_ne_ok
    · obtain ⟨bs,hbytes,hleaves⟩ := h.load htarget hnpc (.inr (.inr rfl)) he
      simp only [Interpreter.execute, hc, hrs, hrt, hreadrs, Interpreter.fetch, hbytes]
      exact ⟨_,rfl,rfl,hleaves⟩
  case sb | sh | sw =>
    have hop := hopCode rfl
    have hreadrs := h.read (hkeeps i.rs (by simp [Instruction.reads, hop]))
    have hreadrt := h.read (hkeeps i.rt (by simp [Instruction.reads, hop]))
    have htarget : i.loadTarget = none := by rw [Instruction.loadTarget, hop]
    simp only [Machine.execute, hop, hextra (by decide), I.format] at he
    obtain ⟨mem',hput,hleaves⟩ := h.store htarget hnpc he
    refine ⟨{ s with mem := mem' },?_,rfl,hleaves⟩
    simp only [Interpreter.execute, hc, hrs, hrt, hreadrs, hreadrt, ← hput, Interpreter.cstore,
      Interpreter.sstore, Interpreter.store]
    first
    | exact congrArg (s.putBytes _) (LittleEndian.map_wordByte _ 1)
    | exact congrArg (s.putBytes _) (LittleEndian.map_wordByte _ 2)
    | exact congrArg (s.putBytes _) (LittleEndian.encode_word _)
  case syscall =>
    simp only [Machine.execute, hopCode rfl] at he
    exact absurd he Machine.raiseException_ne_ok
  case «break» | coprocessor | unknown =>
    simp only [I.Fits, I.opCode, reduceCtorEq, true_and, false_or] at hfits
    rcases hfits with hop | hop <;> simp only [Machine.execute, hop] at he <;>
      exact absurd he Machine.raiseException_ne_ok
  case lwl | lwr | swl | swr =>
    rw [hopCode rfl] at hcompat
    exact hcompat.elim

end Switch

end Nachos
