import Nachos.Machine.MipsSim

/-! # The interpreter on its own

`execute.c`, with the macros of `encode.h` and `int.h` and the numbers of `instr.h`, on a
little-endian host that reads words at any address. `int` arithmetic wraps around; a shift by
more places than there are and a division the host cannot do are faults. `system_trap` makes
calls to the host and is a parameter.
-/
namespace Nachos

/-- The cases of the switches. The coprocessor instructions share one; `unknown` is `default`. -/
inductive I where
  | sll | srl | sra | sllv | srlv | srav | jr | jalr | syscall | break | mfhi | mthi | mflo | mtlo
  | mult | multu | div | divu | add | addu | sub | subu | and | or | xor | nor | slt | sltu
  | bltz | bgez | bltzal | bgezal | j | jal | beq | bne | blez | bgtz | addi | addiu | slti | sltiu
  | andi | ori | xori | lui | lb | lh | lwl | lw | lbu | lhu | lwr | sb | sh | swl | sw | swr
  | coprocessor | unknown
  deriving DecidableEq, Repr

namespace Encode
variable (i : Word)

def rd : Fin numGPRegs := Instruction.field i 11
def rt : Fin numGPRegs := Instruction.field i 16
def rs : Fin numGPRegs := Instruction.field i 21

def shamt : Word := i >>> 6 &&& 0x1f

def immed : Word := if i &&& 0x8000 ≠ 0 then i ||| 0xffff8000 else i &&& 0x7fff

/-- `case` labels behind `I_SPECIAL` -/
def special : Fin 64 → I
  | 0o00 => .sll | 0o02 => .srl | 0o03 => .sra | 0o04 => .sllv | 0o06 => .srlv | 0o07 => .srav
  | 0o10 => .jr | 0o11 => .jalr | 0o14 => .syscall | 0o15 => .break
  | 0o20 => .mfhi | 0o21 => .mthi | 0o22 => .mflo | 0o23 => .mtlo
  | 0o30 => .mult | 0o31 => .multu | 0o32 => .div | 0o33 => .divu
  | 0o40 => .add | 0o41 => .addu | 0o42 => .sub | 0o43 => .subu
  | 0o44 => .and | 0o45 => .or | 0o46 => .xor | 0o47 => .nor | 0o52 => .slt | 0o53 => .sltu
  | _ => .unknown

/-- `case` labels behind `I_BCOND` -/
def bcond : Fin numGPRegs → I
  | 0o00 => .bltz | 0o01 => .bgez | 0o20 => .bltzal | 0o21 => .bgezal
  | _ => .unknown

/-- The `case` labels behind these two. -/
def normal : Fin 64 → I
  | 0o02 => .j | 0o03 => .jal | 0o04 => .beq | 0o05 => .bne | 0o06 => .blez | 0o07 => .bgtz
  | 0o10 => .addi | 0o11 => .addiu | 0o12 => .slti | 0o13 => .sltiu
  | 0o14 => .andi | 0o15 => .ori | 0o16 => .xori | 0o17 => .lui
  | 0o40 => .lb | 0o41 => .lh | 0o42 => .lwl | 0o43 => .lw | 0o44 => .lbu | 0o45 => .lhu
  | 0o46 => .lwr | 0o50 => .sb | 0o51 => .sh | 0o52 => .swl | 0o53 => .sw | 0o56 => .swr
  | 0o20 | 0o21 | 0o22 | 0o23 | 0o60 | 0o61 | 0o62 | 0o63 | 0o70 | 0o71 | 0o72 | 0o73 =>
    .coprocessor
  | _ => .unknown

/-- The case that an instruction word comes to. -/
def select : I :=
  let opcode := Instruction.index i 26
  if opcode = 0o00 then special (Instruction.index i 0)
  else if opcode = 0o01 then bcond (rt i)
  else normal opcode

end Encode

inductive Ending where
  | exit (status : ℕ)
  | fault (f : Fault)
  deriving DecidableEq, Repr

abbrev Running (α : Type) := Except Ending α

abbrev memSize : ℕ := 1 <<< 24
abbrev memOffset : ℕ := 0x10000000

/-- `mem`, by the distance from its start, `Reg`, `HI`, `LO`, and `pc` and `npc` of `runprogram`. -/
structure Interpreter where
  mem : ℕ → Byte
  reg : Fin numGPRegs → Word
  hi : Word
  lo : Word
  pc : Word
  npc : Word

namespace Interpreter
open Encode

/-- `&(mem-memoffset)[addr]` for an access of `size` bytes. -/
def place (addr : Word) (size : ℕ) : Running ℕ :=
  if memOffset ≤ addr.toNat ∧ addr.toNat + size ≤ memOffset + memSize then
    .ok (addr.toNat - memOffset)
  else .error (.fault .outOfBounds)

section Memory
variable (s : Interpreter) (addr : Word)

def bytesAt (size : ℕ) : Running (List Byte) := do
  let k ← place addr size
  return (List.range size).map fun j => s.mem (k + j)

/-- `fetch` and `ifetch` -/
def fetch : Running Word := do return Codec.word.decode (← s.bytesAt addr 4)

def sfetch : Running Word := do
  let bytes ← s.bytesAt addr 2
  return (bytes.getD 1 0 ++ bytes.getD 0 0).signExtend 32

def usfetch : Running Word := do
  let bytes ← s.bytesAt addr 2
  return (bytes.getD 1 0 ++ bytes.getD 0 0).zeroExtend 32

def cfetch : Running Word := do return ((← s.bytesAt addr 1).getD 0 0).signExtend 32

def ucfetch : Running Word := do return ((← s.bytesAt addr 1).getD 0 0).zeroExtend 32

def putBytes (bytes : List Byte) : Running Interpreter := do
  let k ← place addr bytes.length
  return { s with mem := fun j => if k ≤ j then (bytes[j - k]?).getD (s.mem j) else s.mem j }

def store (v : Word) : Running Interpreter := s.putBytes addr (Codec.word.encode v)

def sstore (v : Word) : Running Interpreter :=
  s.putBytes addr [Codec.wordByte v 0,Codec.wordByte v 1]

def cstore (v : Word) : Running Interpreter := s.putBytes addr [Codec.wordByte v 0]

end Memory

/-- `HI` of `I_MULTU`, and of `I_MULT` before the signs are put back. -/
def high (t1 t2 : Word) : Word :=
  let t1l := t1 &&& 0xffff
  let t1h := t1.sshiftRight 16 &&& 0xffff
  let t2l := t2 &&& 0xffff
  let t2h := t2.sshiftRight 16 &&& 0xffff
  t1h * t2h + (t1h * t2l).sshiftRight 16 + (t2h * t1l).sshiftRight 16

/-- `HI` and `LO` of `I_MULT`. -/
def multiply (t1 t2 : Word) : Word × Word :=
  let neg := t1.slt 0 != t2.slt 0
  let t1 := if t1.slt 0 then -t1 else t1
  let t2 := if t2.slt 0 then -t2 else t2
  let lo := t1 * t2
  let hi := high t1 t2
  if neg then
    let lo := ~~~lo + 1
    (if lo = 0 then ~~~hi + 1 else ~~~hi,lo)
  else (hi,lo)

/-- The number of places of a shift by a register. -/
def places (v : Word) : Running ℕ :=
  if v.toNat < 32 then .ok v.toNat else .error (.fault .overflow)

section Switch
variable (systemTrap : Interpreter → Running Interpreter) (s : Interpreter) (xpc instr : Word)

def assign (r : Fin numGPRegs) (v : Word) : Interpreter :=
  { s with reg := Function.update s.reg r v }

def link (r : Fin numGPRegs) : Interpreter := s.assign r (xpc + 8)

def branch (taken : Prop) [Decidable taken] : Interpreter :=
  if taken then { s with npc := xpc + 4 + immed instr <<< 2 } else s

def jump : Interpreter :=
  { s with npc := xpc &&& 0xf0000000 ||| (instr &&& 0x03ffffff) <<< 2 }

/-- The switch, with `pc` and `npc` already moved on. -/
def execute : Running Interpreter :=
  let rs := s.reg (rs instr)
  let rt := s.reg (rt instr)
  let target := s.assign (Encode.rt instr)
  let result := s.assign (rd instr)
  let address := rs + immed instr
  match select instr with
  | .sll => return result (rt <<< shamt instr)
  | .srl => return result (rt >>> shamt instr)
  | .sra => return result (rt.sshiftRight (shamt instr).toNat)
  | .sllv => do return result (rt <<< (← places rs))
  | .srlv => do return result (rt >>> (← places rs))
  | .srav => do return result (rt.sshiftRight (← places rs))
  | .jr => return { s with npc := rs }
  | .jalr => return { s with npc := rs }.link xpc (rd instr)
  | .syscall | .break => systemTrap s
  | .mfhi => return result s.hi
  | .mthi => return { s with hi := rs }
  | .mflo => return result s.lo
  | .mtlo => return { s with lo := rs }
  | .mult => return { s with hi := (multiply rs rt).1, lo := (multiply rs rt).2 }
  | .multu => return { s with hi := high rs rt, lo := rs * rt }
  | .div =>
    if rt = 0 ∨ rs = 0x80000000 ∧ rt = 0xffffffff then throw (.fault .overflow)
    else return { s with hi := rs.srem rt, lo := rs.sdiv rt }
  | .divu =>
    if rt = 0 then throw (.fault .overflow) else return { s with hi := rs % rt, lo := rs / rt }
  | .add | .addu => return result (rs + rt)
  | .sub | .subu => return result (rs - rt)
  | .and => return result (rs &&& rt)
  | .or => return result (rs ||| rt)
  | .xor => return result (rs ^^^ rt)
  | .nor => return result (~~~(rs ||| rt))
  | .slt => return result (if rs.slt rt then 1 else 0)
  | .sltu => return result (if rs < rt then 1 else 0)
  | .bltz => return s.branch xpc instr (rs.slt 0)
  | .bgez => return s.branch xpc instr ((0 : Word).sle rs)
  | .bltzal =>
    let s := s.link xpc 31
    return s.branch xpc instr ((s.reg (Encode.rs instr)).slt 0)
  | .bgezal =>
    let s := s.link xpc 31
    return s.branch xpc instr ((0 : Word).sle (s.reg (Encode.rs instr)))
  | .j => return s.jump xpc instr
  | .jal => return (s.link xpc 31).jump xpc instr
  | .beq => return s.branch xpc instr (rs = rt)
  | .bne => return s.branch xpc instr (rs ≠ rt)
  | .blez => return s.branch xpc instr (rs.sle 0)
  | .bgtz => return s.branch xpc instr ((0 : Word).slt rs)
  | .addi | .addiu => return target (rs + immed instr)
  | .slti => return target (if rs.slt (immed instr) then 1 else 0)
  | .sltiu => return target (if rs < immed instr then 1 else 0)
  | .andi => return target (rs &&& immed instr)
  | .ori => return target (rs ||| immed instr)
  | .xori => return target (rs ^^^ immed instr)
  | .lui => return target (instr <<< 16)
  | .lb => do return target (← s.cfetch address)
  | .lh => do return target (← s.sfetch address)
  | .lwl => do
    -- `-1 >> n` is `-1` for an `int`
    let kept := rt &&& (0xffffffff : Word).sshiftRight (8 * (-address &&& 3).toNat)
    let v ← s.fetch (address &&& 0xfffffffc)
    return target (kept ||| v <<< (8 * (address &&& 3).toNat))
  | .lw => do return target (← s.fetch address)
  | .lbu => do return target (← s.ucfetch address)
  | .lhu => do return target (← s.usfetch address)
  | .lwr => do
    let kept := if address &&& 3 = 0 then 0
      else rt &&& (0xffffffff : Word) <<< (8 * (address &&& 3).toNat)
    let v ← s.fetch (address &&& 0xfffffffc)
    return target (kept ||| v.sshiftRight (8 * (-address &&& 3).toNat))
  | .sb => s.cstore address rt
  | .sh => s.sstore address rt
  | .sw => s.store address rt
  | .swl | .swr | .coprocessor | .unknown => throw (.exit 2)

/-- One round of the loop of `runprogram`. -/
def round : Running Interpreter := do
  let xpc := s.pc
  let s := { s with pc := s.npc, npc := s.npc + 4 }
  let instr ← s.fetch xpc
  let s := s.assign 0 0
  -- no-ops are not looked at
  if instr ≠ 0 then s.execute systemTrap xpc instr else return s

end Switch

/-- `store(aci, ai)` and `strcpy` for one argument after the other. -/
def storeArguments (aci ai : Word) : List (List Byte) → Interpreter → Running Interpreter
  | [], s => return s
  | arg :: argv, s => do
    let s ← s.putBytes ai (arg ++ [0])
    let s ← s.store aci ai
    storeArguments (aci + 4) (ai + BitVec.ofNat 32 arg.length + 1) argv s

/-- What `runprogram` does in front of its loop; an argument has no `NUL` in it. -/
def start (startpc : Word) (argv : List (List Byte)) (s : Interpreter) : Running Interpreter := do
  let i : Word := BitVec.ofNat 32 (memSize - 1024 + memOffset)
  let s := { s with pc := startpc, npc := startpc + 4 }.assign 29 i
  let s ← s.store i (BitVec.ofNat 32 argv.length)
  storeArguments (i + 4) (i + 4 + 32) argv s

end Interpreter

end Nachos
