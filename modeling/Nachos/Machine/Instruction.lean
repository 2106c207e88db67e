import Nachos.Machine.Translate

/-! # Instructions

The tables and the decoding of `mipssim.h` and `mipssim.cc`. `special` and `bcond` occur only
in the first table, to say that the word is decoded further.
-/
namespace Nachos

inductive OpCode where
  | add | addi | addiu | addu | and | andi | beq | bgez | bgezal | bgtz | blez | bltz
  | bltzal | bne | div | divu | j | jal | jalr | jr | lb | lbu | lh | lhu | lui | lw | lwl
  | lwr | mfhi | mflo | mthi | mtlo | mult | multu | nor | or | ori | rfe | sb | sh | sll
  | sllv | slt | slti | sltiu | sltu | sra | srav | srl | srlv | sub | subu | sw | swl
  | swr | xor | xori | syscall | unimp | res | special | bcond
  deriving DecidableEq, Repr

inductive Format where
  | i | j | r
  deriving DecidableEq, Repr

def opTable : List (OpCode × Format) :=
  [(.special,.r), (.bcond,.i), (.j,.j), (.jal,.j),
    (.beq,.i), (.bne,.i), (.blez,.i), (.bgtz,.i),
    (.addi,.i), (.addiu,.i), (.slti,.i), (.sltiu,.i),
    (.andi,.i), (.ori,.i), (.xori,.i), (.lui,.i),
    (.unimp,.i), (.unimp,.i), (.unimp,.i), (.unimp,.i),
    (.res,.i), (.res,.i), (.res,.i), (.res,.i),
    (.res,.i), (.res,.i), (.res,.i), (.res,.i),
    (.res,.i), (.res,.i), (.res,.i), (.res,.i),
    (.lb,.i), (.lh,.i), (.lwl,.i), (.lw,.i),
    (.lbu,.i), (.lhu,.i), (.lwr,.i), (.res,.i),
    (.sb,.i), (.sh,.i), (.swl,.i), (.sw,.i),
    (.res,.i), (.res,.i), (.swr,.i), (.res,.i),
    (.unimp,.i), (.unimp,.i), (.unimp,.i), (.unimp,.i),
    (.res,.i), (.res,.i), (.res,.i), (.res,.i),
    (.unimp,.i), (.unimp,.i), (.unimp,.i), (.unimp,.i),
    (.res,.i), (.res,.i), (.res,.i), (.res,.i)]

def specialTable : List OpCode :=
  [.sll, .res, .srl, .sra, .sllv, .res, .srlv, .srav,
    .jr, .jalr, .res, .res, .syscall, .unimp, .res, .res,
    .mfhi, .mthi, .mflo, .mtlo, .res, .res, .res, .res,
    .mult, .multu, .div, .divu, .res, .res, .res, .res,
    .add, .addu, .sub, .subu, .and, .or, .xor, .nor,
    .res, .res, .slt, .sltu, .res, .res, .res, .res,
    .res, .res, .res, .res, .res, .res, .res, .res,
    .res, .res, .res, .res, .res, .res, .res, .res]

/-- `MaxOpcode` is the number of `res`, and only two opcodes are above it. -/
def OpCode.LeMax (op : OpCode) : Prop := op ≠ .special ∧ op ≠ .bcond

instance (op : OpCode) : Decidable op.LeMax := inferInstanceAs (Decidable (_ ∧ _))

structure Instruction where
  opCode : OpCode
  rs : Fin numGPRegs
  rt : Fin numGPRegs
  rd : Fin numGPRegs
  extra : Word
  deriving DecidableEq

namespace Instruction

/-- The six bits from place `pos` on, as an index into one of the tables. -/
def index (value : Word) (pos : ℕ) : Fin 64 := (value.extractLsb' pos 6).toFin

/-- The five bits from place `pos` on. -/
def field (value : Word) (pos : ℕ) : Fin numGPRegs := (value.extractLsb' pos 5).toFin

def decodeExtra (value : Word) : Format → Word
  | .i =>
    let extra := value &&& 0xffff
    if extra &&& 0x8000 ≠ 0 then extra ||| 0xffff0000 else extra
  | .r => (value >>> 6) &&& 0x1f
  | .j => value &&& 0x3ffffff

def decodeOpCode (value : Word) : OpCode → OpCode
  | .special => specialTable.get (index value 0)
  | .bcond =>
    let i := value &&& 0x1f0000
    if i = 0 then .bltz
    else if i = 0x10000 then .bgez
    else if i = 0x100000 then .bltzal
    else if i = 0x110000 then .bgezal
    else .unimp
  | opCode => opCode

def decode (value : Word) : Instruction :=
  let op := opTable.get (index value 26)
  ⟨decodeOpCode value op.1,field value 21,field value 16,field value 11,decodeExtra value op.2⟩

end Instruction

/-- No word decodes to an opcode that `OneInstruction` has no case for. -/
theorem Instruction.decode_opCode (value : Word) : (decode value).opCode.LeMax ∧
    (decode value).opCode ≠ .rfe := by
  have hspecial : ∀ k, (specialTable.get k).LeMax ∧ specialTable.get k ≠ .rfe := by
    simp only [OpCode.LeMax]
    decide
  have htable : ∀ k, (opTable.get k).1 ≠ .rfe := by decide
  simp only [decode]
  generalize hop : (opTable.get (index value 26)).1 = op
  have hrfe : op ≠ .rfe := hop ▸ htable _
  cases op <;> simp only [decodeOpCode]
  case special => exact hspecial _
  case bcond => split_ifs <;> simp [OpCode.LeMax]
  all_goals simp_all [OpCode.LeMax]

end Nachos
