import Nachos.Bin.Execute

/-! # Two decodings of an instruction

`mipssim.h` and `instr.h` number the instructions alike, and the fields that the two programs
cut out of a word are the same.
-/
namespace Nachos

/-- The opcode of `mipssim.h` for a case of the switch in `execute.c`. -/
def I.opCode : I → Option OpCode
  | sll => some .sll | srl => some .srl | sra => some .sra | sllv => some .sllv
  | srlv => some .srlv | srav => some .srav | jr => some .jr | jalr => some .jalr
  | syscall => some .syscall | mfhi => some .mfhi | mthi => some .mthi | mflo => some .mflo
  | mtlo => some .mtlo | mult => some .mult | multu => some .multu | div => some .div
  | divu => some .divu | add => some .add | addu => some .addu | sub => some .sub
  | subu => some .subu | and => some .and | or => some .or | xor => some .xor
  | nor => some .nor | slt => some .slt | sltu => some .sltu | bltz => some .bltz
  | bgez => some .bgez | bltzal => some .bltzal | bgezal => some .bgezal | j => some .j
  | jal => some .jal | beq => some .beq | bne => some .bne | blez => some .blez
  | bgtz => some .bgtz | addi => some .addi | addiu => some .addiu | slti => some .slti
  | sltiu => some .sltiu | andi => some .andi | ori => some .ori | xori => some .xori
  | lui => some .lui | lb => some .lb | lh => some .lh | lwl => some .lwl | lw => some .lw
  | lbu => some .lbu | lhu => some .lhu | lwr => some .lwr | sb => some .sb | sh => some .sh
  | swl => some .swl | sw => some .sw | swr => some .swr
  | .break | coprocessor | unknown => none

/-- What is no instruction of `execute.c` is none of `mipssim.h`, which has no `break` either. -/
def I.Fits (c : I) (op : OpCode) : Prop :=
  c.opCode = some op ∨ c.opCode = none ∧ (op = .unimp ∨ op = .res)

instance (c : I) (op : OpCode) : Decidable (c.Fits op) := inferInstanceAs (Decidable (_ ∨ _))

/-- The format of `mipssim.h` for an opcode of the first table. -/
def I.format : I → Format
  | j | jal => .j
  | sll | srl | sra | sllv | srlv | srav | jr | jalr | syscall | .break | mfhi | mthi | mflo
  | mtlo | mult | multu | div | divu | add | addu | sub | subu | and | or | xor | nor | slt
  | sltu => .r
  | _ => .i

namespace Encode
variable (i : Word)

theorem field_mask (x : Word) :
    x &&& (0x1f0000 : Word) = (x.extractLsb' 16 5).setWidth 32 <<< 16 := by
  have hmask : (0x1f0000 : Word) = (BitVec.allOnes 5).setWidth 32 <<< 16 := rfl
  rw [hmask]
  ext j hj
  simp only [BitVec.getElem_and, BitVec.getElem_shiftLeft, BitVec.getElem_setWidth,
    BitVec.getLsbD_allOnes, BitVec.getLsbD_extractLsb']
  by_cases h16 : j < 16
  · simp [h16]
  · have hback : 16 + (j - 16) = j := by omega
    simp [h16, hback, BitVec.getLsbD_eq_getElem hj, Bool.and_comm]

theorem masked_eq_iff {v : Word} (hv : v &&& (0x1f0000 : Word) = v) :
    i &&& (0x1f0000 : Word) = v ↔ rt i = (v.extractLsb' 16 5).toFin := by
  constructor
  · intro h
    have hshift : ∀ x y : BitVec 5, x.setWidth 32 <<< 16 = y.setWidth 32 <<< 16 → x = y := by
      decide
    rw [field_mask] at h hv
    rw [← hv] at h
    exact congrArg BitVec.toFin (hshift _ _ h)
  · intro h
    rw [field_mask, BitVec.toFin_inj.mp h, ← field_mask, hv]

theorem fits_bcond : (bcond (rt i)).Fits (Instruction.decodeOpCode i .bcond) := by
  have h₀ := masked_eq_iff i (v := 0) rfl
  have h₁ := masked_eq_iff i (v := 0x10000) rfl
  have h₂ := masked_eq_iff i (v := 0x100000) rfl
  have h₃ := masked_eq_iff i (v := 0x110000) rfl
  simp only [Instruction.decodeOpCode, h₀, h₁, h₂, h₃]
  generalize rt i = k
  revert k
  decide

theorem decodeOpCode_of_ne {op : OpCode} (hs : op ≠ .special) (hb : op ≠ .bcond) :
    Instruction.decodeOpCode i op = op := by
  cases op <;> first | rfl | contradiction

theorem fits_select : (select i).Fits (Instruction.decode i).opCode := by
  have hspecial : ∀ k : Fin 64, (special k).Fits (specialTable.get (k.cast rfl)) := by decide
  have hnormal : ∀ k : Fin 64, k ≠ 0 → k ≠ 1 → (normal k).Fits (opTable.get (k.cast rfl)).1 ∧
      (opTable.get (k.cast rfl)).1 ≠ .special ∧ (opTable.get (k.cast rfl)).1 ≠ .bcond := by decide
  simp only [select, Instruction.decode]
  split_ifs with h₀ h₁
  · rw [h₀]
    exact hspecial _
  · rw [h₁]
    exact fits_bcond i
  · obtain ⟨hfits,hs,hb⟩ := hnormal _ h₀ h₁
    exact (decodeOpCode_of_ne i hs hb).symm ▸ hfits

theorem and_sign (h : i &&& (0x8000 : Word) ≠ 0) : i &&& (0x8000 : Word) = 0x8000 := by
  have htwo : (0x8000 : Word) = BitVec.twoPow 32 15 := rfl
  rw [htwo, BitVec.and_twoPow] at h ⊢
  split_ifs at h ⊢
  · rfl
  · exact absurd rfl h

theorem decodeExtra_i : Instruction.decodeExtra i .i = immed i := by
  have hlow : (i &&& 0xffff) &&& (0x8000 : Word) = i &&& (0x8000 : Word) := BitVec.and_assoc _ _ _
  have hsign : i &&& (0xffff : Word) = i &&& (0x8000 : Word) ||| i &&& (0x7fff : Word) :=
    (BitVec.and_or_distrib_left (x := i) (y := 0x8000) (z := 0x7fff) :)
  simp only [Instruction.decodeExtra, immed, hlow]
  split_ifs with h
  · have hupper : i ||| (0xffff8000 : Word) = i &&& (0x7fff : Word) ||| (0xffff8000 : Word) := by
      have hnot : (0x7fff : Word) = ~~~(0xffff8000 : Word) := rfl
      rw [hnot]
      ext j hj
      simp only [BitVec.getElem_or, BitVec.getElem_and, BitVec.getElem_not]
      cases (0xffff8000 : Word)[j] <;> simp
    rw [hsign, and_sign i h, hupper, BitVec.or_comm (0x8000 : Word), BitVec.or_assoc]
    rfl
  · rw [hsign, not_not.mp h]
    exact BitVec.zero_or

/-- The field that `mipssim.cc` keeps in `extra`. -/
theorem extra_eq (h : select i ≠ .unknown) : (Instruction.decode i).extra =
    match (select i).format with
    | .i => immed i
    | .r => shamt i
    | .j => i &&& 0x03ffffff := by
  have hspecial : ∀ k : Fin 64, special k ≠ .unknown → (special k).format = .r := by decide
  have hbcond : ∀ k, (bcond k).format = .i := by decide
  have hnormal : ∀ k : Fin 64, k ≠ 0 → k ≠ 1 → normal k ≠ .unknown →
      (opTable.get (k.cast rfl)).2 = (normal k).format := by decide
  simp only [select] at h ⊢
  split_ifs at h ⊢ with h₀ h₁
  · simp only [hspecial _ h, Instruction.decode, h₀]
    rfl
  · simp only [hbcond, Instruction.decode, h₁]
    exact decodeExtra_i i
  · have hformat := hnormal _ h₀ h₁ h
    change Instruction.decodeExtra i (opTable.get ((Instruction.index i 26).cast rfl)).2 = _
    rw [hformat]
    cases (normal (Instruction.index i 26)).format
    · exact decodeExtra_i i
    · rfl
    · rfl

end Encode

end Nachos
