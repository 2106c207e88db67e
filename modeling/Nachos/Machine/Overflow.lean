import Nachos.Machine.RegisterFile
import Nachos.Machine.Multiply

/-! # Signed overflow

`ADD`, `ADDI` and `SUB` compare sign bits. They trap just when the exact result does not fit in
32 bits, and otherwise assign it; the pending load comes after that.
-/
namespace Nachos

section SignBits
variable (x y : Word)

theorem isInt_add_iff : IsInt (x.toInt + y.toInt) ↔ ¬ BitVec.saddOverflow x y := by
  simp only [IsInt, BitVec.saddOverflow, Bool.or_eq_true, decide_eq_true_eq]
  omega

theorem isInt_sub_iff : IsInt (x.toInt - y.toInt) ↔ ¬ BitVec.ssubOverflow x y := by
  simp only [IsInt, BitVec.ssubOverflow, Bool.or_eq_true, decide_eq_true_eq]
  omega

/-- Operands of one sign and a sum of the other. -/
theorem add_negative_iff :
    ¬ Negative (x ^^^ y) ∧ Negative (x ^^^ (x + y)) ↔ ¬ IsInt (x.toInt + y.toInt) := by
  rw [isInt_add_iff, BitVec.saddOverflow_eq, negative_iff, negative_iff, BitVec.msb_xor,
    BitVec.msb_xor]
  cases x.msb <;> cases y.msb <;> cases (x + y).msb <;> simp

/-- Operands of different signs, and a difference with the sign of the second. -/
theorem sub_negative_iff :
    Negative (x ^^^ y) ∧ Negative (x ^^^ (x - y)) ↔ ¬ IsInt (x.toInt - y.toInt) := by
  rw [isInt_sub_iff, BitVec.ssubOverflow_eq, negative_iff, negative_iff, BitVec.msb_xor,
    BitVec.msb_xor]
  cases x.msb <;> cases y.msb <;> cases (x - y).msb <;> simp

variable {x y}

theorem toInt_add_of_isInt (h : IsInt (x.toInt + y.toInt)) :
    (x + y).toInt = x.toInt + y.toInt :=
  BitVec.toInt_add_of_not_saddOverflow ((isInt_add_iff x y).mp h)

theorem toInt_sub_of_isInt (h : IsInt (x.toInt - y.toInt)) :
    (x - y).toInt = x.toInt - y.toInt :=
  BitVec.toInt_sub_of_not_ssubOverflow ((isInt_sub_iff x y).mp h)

end SignBits

/-- The destination of an instruction that can overflow, and the exact result. -/
def Instruction.exact (i : Instruction) (registers : Register → Word) :
    Option (Fin numGPRegs × ℤ) :=
  let rs := (registers (.gpr i.rs)).toInt
  let rt := (registers (.gpr i.rt)).toInt
  match i.opCode with
  | .add => some (i.rd,rs + rt)
  | .addi => some (i.rt,rs + i.extra.toInt)
  | .sub => some (i.rd,rs - rt)
  | _ => none

namespace Machine
variable {m : Machine} {i : Instruction} {dest : Fin numGPRegs} {result : ℤ}

theorem execute_exact (h : i.exact m.registers = some (dest,result)) :
    (¬ IsInt result → m.execute i = m.raiseException .overflow 0) ∧
    (IsInt result → ∃ v : Word, v.toInt = result ∧ m.execute i = m.assign (.gpr dest) v) := by
  unfold Instruction.exact at h
  cases hop : i.opCode <;> rw [hop] at h <;> cases h
  case add =>
    refine ⟨fun hno => ?_,fun hint => ⟨_,toInt_add_of_isInt hint,?_⟩⟩
    · simp only [execute, hop]
      rw [if_pos ((add_negative_iff _ _).mpr hno)]
    · simp only [execute, hop]
      rw [if_neg (fun h => (add_negative_iff _ _).mp h hint)]
  case addi =>
    have hsum : m.registers (.gpr i.rs) ^^^ i.extra = i.extra ^^^ m.registers (.gpr i.rs) :=
      BitVec.xor_comm _ _
    have hformula := add_negative_iff i.extra (m.registers (.gpr i.rs))
    rw [BitVec.add_comm, Int.add_comm, ← hsum] at hformula
    refine ⟨fun hno => ?_,fun hint => ⟨_,toInt_add_of_isInt hint,?_⟩⟩
    · simp only [execute, hop]
      rw [if_pos (hformula.mpr hno)]
    · simp only [execute, hop]
      rw [if_neg (fun h => hformula.mp h hint)]
  case sub =>
    refine ⟨fun hno => ?_,fun hint => ⟨_,toInt_sub_of_isInt hint,?_⟩⟩
    · simp only [execute, hop]
      rw [if_pos ((sub_negative_iff _ _).mpr hno)]
    · simp only [execute, hop]
      rw [if_neg (fun h => (sub_negative_iff _ _).mp h hint)]

def Fetches (m : Machine) (i : Instruction) : Prop :=
  ∃ raw u, m.readMem (m.registers .pc) 4 = .ok (raw,u) ∧ Instruction.decode raw = i

/-- A general register to which only the pending load has been applied. -/
def loaded (m : Machine) (r : Fin numGPRegs) : Word :=
  if m.registers .load = BitVec.ofNat 32 r ∧ m.registers .load ≠ 0 then m.registers .loadValue
  else m.registers (.gpr r)

/-- The exact result goes to its destination, unless it does not fit. Register 0 is no
destination. -/
structure TrapsOnOverflow (debug : Bool) (m : Machine) (dest : Fin numGPRegs) (result : ℤ) :
    Prop where
  traps : (∃ t, m.oneInstruction debug = .error (.trap .overflow t)) ↔ ¬ IsInt result
  kept : ∀ t, m.oneInstruction debug = .error (.trap .overflow t) →
    t.registers .pc = m.registers .pc ∧ t.registers .nextPC = m.registers .nextPC ∧
      t.registers (.gpr dest) = m.loaded dest
  assigned : IsInt result → ∃ m', m.oneInstruction debug = .ok m' ∧
    (dest ≠ 0 → (m'.registers (.gpr dest)).toInt = result)

variable {debug : Bool}

theorem oneInstruction_raise {u t : Machine} {raw : Word}
    (hread : m.readMem (m.registers .pc) 4 = .ok (raw,u))
    (hexec : u.execute (Instruction.decode raw) = .error (.trap .overflow t)) :
    m.oneInstruction debug = .error (.trap .overflow t) := by
  obtain ⟨hmax,-⟩ := Instruction.decode_opCode raw
  rw [oneInstruction, hread]
  simp only [Exec.ok_bind, hmax, not_true_eq_false, and_false, if_false, hexec]
  rfl

theorem oneInstruction_assign {u : Machine} {raw v : Word}
    (hload : (m.registers .load).toNat < numGPRegs)
    (hread : m.readMem (m.registers .pc) 4 = .ok (raw,u))
    (hexec : u.execute (Instruction.decode raw) = u.assign (.gpr dest) v) :
    ∃ m', m.oneInstruction debug = .ok m' ∧ (dest ≠ 0 → m'.registers (.gpr dest) =
      if m.registers .load = BitVec.ofNat 32 dest then m.registers .loadValue else v) := by
  obtain ⟨hmax,-⟩ := Instruction.decode_opCode raw
  have hne : Register.load ≠ .gpr dest := (Register.gpr_ne dest (by decide)).symm
  have hl : (u.set (.gpr dest) v).registers .load = m.registers .load := by
    rw [set_registers, Function.update_of_ne hne, (readMem_sameBut hread).registers]
  obtain ⟨w,hw⟩ := delayedLoad_ok (hl ▸ hload) 0 0
  have hdone : ∃ m', m.oneInstruction debug = .ok m' := by
    rw [oneInstruction, hread]
    simp only [Exec.ok_bind, hmax, not_true_eq_false, and_false, if_false, hexec, assign, hw]
    exact ⟨_,rfl⟩
  obtain ⟨m',hm'⟩ := hdone
  refine ⟨m',hm',fun h0 => ?_⟩
  have hcompletes : Completes debug m (Instruction.decode raw)
      ⟨u.set (.gpr dest) v,u.pcAfter,0,0⟩ m' := ⟨⟨raw,u,hread,rfl,hexec⟩,hm'⟩
  rw [hcompletes.registers.2.2 dest h0]
  simp [Effect.value]

theorem settled_counter {k : Register} {v value b : Word} {registers : Register → Word}
    (hv : v.toNat < numGPRegs) (hk : Register.lo < k) (hk' : k < Register.load) :
    settled ⟨v.toNat,hv.trans (by decide)⟩ value b registers k = registers k := by
  have hload : k ≠ .load := hk'.ne
  have hvalue : k ≠ .loadValue := (hk'.trans (by decide)).ne
  have hbad : k ≠ .badVAddr := (hk'.trans (by decide)).ne
  have hr : k ≠ ⟨v.toNat,hv.trans (by decide)⟩ := by
    rintro rfl
    exact absurd (show 33 < v.toNat from hk) (by unfold numGPRegs at hv; omega)
  simp only [settled, hload, hvalue, hbad, hr, false_and, or_self, if_false]

/-- The load that is pending for the destination is applied after the result. -/
theorem overflowTraps (hsound : RegistersSound m.registers) (hfetch : m.Fetches i)
    (hexact : i.exact m.registers = some (dest,result)) (debug : Bool) :
    TrapsOnOverflow debug m dest result ↔
      (IsInt result → dest ≠ 0 → m.registers .load = BitVec.ofNat 32 dest →
        (m.registers .loadValue).toInt = result) := by
  obtain ⟨raw,u,hread,rfl⟩ := hfetch
  rw [← (readMem_sameBut hread).registers] at hexact
  obtain ⟨hraise,hassign⟩ := execute_exact hexact
  by_cases hint : IsInt result
  · obtain ⟨v,rfl,hexec⟩ := hassign hint
    obtain ⟨m',hm',hvalue⟩ : ∃ m', m.oneInstruction debug = .ok m' ∧ (dest ≠ 0 → _) :=
      oneInstruction_assign hsound.load hread hexec
    have hnot : ∀ t, m.oneInstruction debug ≠ .error (.trap .overflow t) := by
      intro t ht
      cases hm'.symm.trans ht
    constructor
    · intro h _ h0 hload
      obtain ⟨m'',hm'',hresult⟩ := h.assigned hint
      cases hm'.symm.trans hm''
      rw [← hresult h0, hvalue h0, if_pos hload]
    · intro h
      refine ⟨iff_of_false (fun ⟨t,ht⟩ => hnot t ht) (not_not.mpr hint),
        fun t ht => absurd ht (hnot t),fun _ => ⟨m',hm',fun h0 => ?_⟩⟩
      rw [hvalue h0]
      split_ifs with hload
      · exact h hint h0 hload
      · rfl
  · have hload : ((u.set .badVAddr 0).registers .load).toNat < numGPRegs := by
      simpa [Register.load, Register.badVAddr, (readMem_sameBut hread).registers] using hsound.load
    obtain ⟨t,ht⟩ := delayedLoad_ok hload 0 0
    have htrap : m.oneInstruction debug = .error (.trap .overflow t) :=
      oneInstruction_raise hread ((hraise hint).trans (raiseException_eq ht))
    refine iff_of_true ⟨iff_of_true ⟨t,htrap⟩ hint,fun t' ht' => ?_,fun h => absurd h hint⟩
      fun h => absurd h hint
    obtain ⟨-,hregs⟩ := handsOver_oneInstruction hsound.pending debug _ _ ht'
    rw [hregs]
    exact ⟨settled_counter hsound.load (by decide) (by decide),
      settled_counter hsound.load (by decide) (by decide),settled_gpr _ _ _ _ _⟩

end Machine

/-- `add r3,r1,r2` of the largest number and 1. -/
theorem overflowTraps_add : Machine.TrapsOnOverflow false
    (Machine.sample 0x00221820 fun r => if r = 1 then 0x7fffffff else if r = 2 then 1 else 0)
    3 (2 ^ 31) :=
  (Machine.overflowTraps ⟨by decide,rfl⟩ ⟨_,_,rfl,rfl⟩ rfl false).mpr fun h =>
    absurd h (by decide)

/-- `addi r1,r0,7`, while a 5 is about to be loaded into register 1. -/
theorem not_overflowTraps :
    let m := Machine.sample 0x20010007 fun r => if r = .load then 1 else
      if r = .loadValue then 5 else 0
    RegistersSound m.registers ∧ m.Fetches (Instruction.decode 0x20010007) ∧
    (Instruction.decode 0x20010007).exact m.registers = some (1,7) ∧
    (∃ m', m.oneInstruction false = .ok m' ∧ m'.registers (.gpr 1) = 5) ∧
    ¬ Machine.TrapsOnOverflow false m 1 7 := by
  refine ⟨⟨by decide,rfl⟩,⟨_,_,rfl,rfl⟩,rfl,⟨_,rfl,rfl⟩,fun h => ?_⟩
  obtain ⟨m',hm',hresult⟩ := h.assigned (by decide)
  cases hm'
  exact absurd (hresult (by decide)) (by decide)

end Nachos
