import Nachos.Machine.Instruction

/-! # Executing one instruction

The switch of `OneInstruction` in `mipssim.cc`. `int` arithmetic wraps around and its right
shift keeps the sign; a division the host cannot do is a fault. Each case of the switch
gives the machine after it, the program counter to come and the next delayed load.
-/
namespace Nachos

def signBit : Word := 0x80000000

/-- `x & SIGN_BIT`, as a condition. -/
def Negative (x : Word) : Prop := x &&& signBit ≠ 0

instance (x : Word) : Decidable (Negative x) := inferInstanceAs (Decidable (_ ≠ _))

def indexToAddr (x : Word) : Word := x <<< 2

/-- The loop of `Mult`, with the number of rounds that are left. -/
def multLoop : ℕ → Word → Word → Word → Word → Word → Word × Word
  | 0, _, _, _, hi, lo => (hi,lo)
  | n + 1, a, bHi, bLo, hi, lo =>
    let odd := a &&& 1 ≠ 0
    let lo' := if odd then lo + bLo else lo
    let hi' := if odd then (if lo' < bLo then hi + 1 else hi) + bHi else hi
    if odd ∧ a &&& 0xfffffffe = 0 then (hi',lo')
    else
      let bHi' := if bLo &&& 0x80000000 ≠ 0 then bHi <<< 1 ||| 1 else bHi <<< 1
      multLoop n (a.sshiftRight 1) bHi' (bLo <<< 1) hi' lo'

/-- `Mult`: the new contents of `*hiPtr` and `*loPtr`. -/
def mult (a b : Word) (signedArith : Bool) : Word × Word :=
  if a = 0 ∨ b = 0 then (0,0)
  else
    let negative := signedArith && (a.slt 0 != b.slt 0)
    let a := if signedArith && a.slt 0 then -a else a
    let b := if signedArith && b.slt 0 then -b else b
    let (hi,lo) := multLoop 32 a 0 b 0 0
    if negative then
      let lo := ~~~lo + 1
      (if lo = 0 then ~~~hi + 1 else ~~~hi,lo)
    else (hi,lo)

/-- The merging of a memory word into a register, by the two lowest address bits. -/
def lwlMerge (low old value : Word) : Word :=
  if low = 0 then value
  else if low = 1 then old &&& 0xff ||| value <<< 8
  else if low = 2 then old &&& 0xffff ||| value <<< 16
  else old &&& 0xffffff ||| value <<< 24

def lwrMerge (low old value : Word) : Word :=
  if low = 0 then old &&& 0xffffff00 ||| (value.sshiftRight 24 &&& 0xff)
  else if low = 1 then old &&& 0xffff0000 ||| (value.sshiftRight 16 &&& 0xffff)
  else if low = 2 then old &&& 0xff000000 ||| (value.sshiftRight 8 &&& 0xffffff)
  else value

def swlMerge (low reg value : Word) : Word :=
  if low = 0 then reg
  else if low = 1 then value &&& 0xff000000 ||| (reg.sshiftRight 8 &&& 0xffffff)
  else if low = 2 then value &&& 0xffff0000 ||| (reg.sshiftRight 16 &&& 0xffff)
  else value &&& 0xffffff00 ||| (reg.sshiftRight 24 &&& 0xff)

def swrMerge (low reg value : Word) : Word :=
  if low = 0 then value &&& 0xffffff ||| reg <<< 24
  else if low = 1 then value &&& 0xffff ||| reg <<< 16
  else if low = 2 then value &&& 0xff ||| reg <<< 8
  else reg

/-- What the switch leaves behind. -/
structure Effect where
  machine : Machine
  pcAfter : Word
  nextLoadReg : Word
  nextLoadValue : Word

namespace Machine
variable (m : Machine) (i : Instruction)

def pcAfter : Word := m.registers .nextPC + 4

def assign (r : Register) (v : Word) : Exec Effect := .ok ⟨m.set r v,m.pcAfter,0,0⟩

def assignHiLo (hi lo : Word) : Exec Effect :=
  .ok ⟨(m.set .lo lo).set .hi hi,m.pcAfter,0,0⟩

def jump (pcAfter : Word) : Exec Effect := .ok ⟨m,pcAfter,0,0⟩

def branch (taken : Prop) [Decidable taken] : Exec Effect :=
  m.jump (if taken then m.registers .nextPC + indexToAddr i.extra else m.pcAfter)

/-- The return address of the link instructions. -/
def link (r : Fin numGPRegs) : Machine := m.set (.gpr r) (m.registers .nextPC + 4)

def load (addr : Word) (size : ℕ) (convert : Word → Word) : Exec Effect := do
  let (value,m') ← m.readMem addr size
  return ⟨m',m.pcAfter,BitVec.ofNat 32 i.rt,convert value⟩

def store (addr : Word) (size : ℕ) (value : Word) : Exec Effect := do
  let m' ← m.writeMem addr size value
  return ⟨m',m.pcAfter,0,0⟩

/-- The register that `LWL` and `LWR` merge into, with the load that may be pending for it. -/
def mergeInto (rt : Fin numGPRegs) : Word :=
  if m.registers .load = BitVec.ofNat 32 rt then m.registers .loadValue
  else m.registers (.gpr rt)

/-- A word that is not aligned fails an `ASSERT`. -/
def loadMerged (addr : Word) (merge : Word → Word → Word → Word) : Exec Effect := do
  if addr &&& 3 ≠ 0 then throw (.fault .assertion)
  let (value,m') ← m.readMem addr 4
  return ⟨m',m.pcAfter,BitVec.ofNat 32 i.rt,merge (addr &&& 3) (m'.mergeInto i.rt) value⟩

def storeMerged (addr : Word) (merge : Word → Word → Word → Word) : Exec Effect := do
  if addr &&& 3 ≠ 0 then throw (.fault .assertion)
  let (value,m') ← m.readMem (addr &&& ~~~3) 4
  m'.store (addr &&& ~~~3) 4 (merge (addr &&& 3) (m'.registers (.gpr i.rt)) value)

/-- The switch over the opcodes. -/
def execute : Exec Effect :=
  let rs := m.registers (.gpr i.rs)
  let rt := m.registers (.gpr i.rt)
  let tmp := rs + i.extra
  match i.opCode with
  | .add =>
    let sum := rs + rt
    if ¬ Negative (rs ^^^ rt) ∧ Negative (rs ^^^ sum) then m.raiseException .overflow 0
    else m.assign (.gpr i.rd) sum
  | .addi =>
    let sum := rs + i.extra
    if ¬ Negative (rs ^^^ i.extra) ∧ Negative (i.extra ^^^ sum) then m.raiseException .overflow 0
    else m.assign (.gpr i.rt) sum
  | .addiu => m.assign (.gpr i.rt) (rs + i.extra)
  | .addu => m.assign (.gpr i.rd) (rs + rt)
  | .and => m.assign (.gpr i.rd) (rs &&& rt)
  | .andi => m.assign (.gpr i.rt) (rs &&& (i.extra &&& 0xffff))
  | .beq => m.branch i (rs = rt)
  | .bgezal =>
    let m := m.link 31
    m.branch i (¬ Negative (m.registers (.gpr i.rs)))
  | .bgez => m.branch i (¬ Negative rs)
  | .bgtz => m.branch i ((0 : Word).slt rs)
  | .blez => m.branch i (rs.sle 0)
  | .bltzal =>
    let m := m.link 31
    m.branch i (Negative (m.registers (.gpr i.rs)))
  | .bltz => m.branch i (Negative rs)
  | .bne => m.branch i (rs ≠ rt)
  | .div =>
    if rt = 0 then m.assignHiLo 0 0
    -- the quotient does not fit, and the host traps
    else if rs = 0x80000000 ∧ rt = 0xffffffff then throw (.fault .overflow)
    else m.assignHiLo (rs.srem rt) (rs.sdiv rt)
  | .divu => if rt = 0 then m.assignHiLo 0 0 else m.assignHiLo (rs % rt) (rs / rt)
  | .jal => (m.link 31).jump (m.pcAfter &&& 0xf0000000 ||| indexToAddr i.extra)
  | .j => m.jump (m.pcAfter &&& 0xf0000000 ||| indexToAddr i.extra)
  | .jalr =>
    let m := m.link i.rd
    m.jump (m.registers (.gpr i.rs))
  | .jr => m.jump rs
  | .lb => m.load i tmp 1 fun value =>
      if value &&& 0x80 ≠ 0 then value ||| 0xffffff00 else value &&& 0xff
  | .lbu => m.load i tmp 1 fun value => value &&& 0xff
  | .lh =>
    if tmp &&& 1 ≠ 0 then m.raiseException .addressError tmp
    else m.load i tmp 2 fun value =>
      if value &&& 0x8000 ≠ 0 then value ||| 0xffff0000 else value &&& 0xffff
  | .lhu =>
    if tmp &&& 1 ≠ 0 then m.raiseException .addressError tmp
    else m.load i tmp 2 fun value => value &&& 0xffff
  | .lui => m.assign (.gpr i.rt) (i.extra <<< 16)
  | .lw =>
    if tmp &&& 3 ≠ 0 then m.raiseException .addressError tmp else m.load i tmp 4 id
  | .lwl => m.loadMerged i tmp lwlMerge
  | .lwr => m.loadMerged i tmp lwrMerge
  | .mfhi => m.assign (.gpr i.rd) (m.registers .hi)
  | .mflo => m.assign (.gpr i.rd) (m.registers .lo)
  | .mthi => m.assign .hi rs
  | .mtlo => m.assign .lo rs
  | .mult => m.assignHiLo (mult rs rt true).1 (mult rs rt true).2
  | .multu => m.assignHiLo (mult rs rt false).1 (mult rs rt false).2
  | .nor => m.assign (.gpr i.rd) (~~~(rs ||| rt))
  | .or => m.assign (.gpr i.rd) (rs ||| rt)
  | .ori => m.assign (.gpr i.rt) (rs ||| (i.extra &&& 0xffff))
  | .sb => m.store tmp 1 rt
  | .sh => m.store tmp 2 rt
  | .sll => m.assign (.gpr i.rd) (rt <<< i.extra)
  | .sllv => m.assign (.gpr i.rd) (rt <<< (rs &&& 0x1f))
  | .slt => m.assign (.gpr i.rd) (if rs.slt rt then 1 else 0)
  | .slti => m.assign (.gpr i.rt) (if rs.slt i.extra then 1 else 0)
  | .sltiu => m.assign (.gpr i.rt) (if rs < i.extra then 1 else 0)
  | .sltu => m.assign (.gpr i.rd) (if rs < rt then 1 else 0)
  | .sra => m.assign (.gpr i.rd) (rt.sshiftRight i.extra.toNat)
  | .srav => m.assign (.gpr i.rd) (rt.sshiftRight (rs &&& 0x1f).toNat)
  | .srl => m.assign (.gpr i.rd) (rt >>> i.extra)
  | .srlv => m.assign (.gpr i.rd) (rt >>> (rs &&& 0x1f))
  | .sub =>
    let diff := rs - rt
    if Negative (rs ^^^ rt) ∧ Negative (rs ^^^ diff) then m.raiseException .overflow 0
    else m.assign (.gpr i.rd) diff
  | .subu => m.assign (.gpr i.rd) (rs - rt)
  | .sw => m.store tmp 4 rt
  | .swl => m.storeMerged i tmp swlMerge
  | .swr => m.storeMerged i tmp swrMerge
  | .syscall => m.raiseException .syscall 0
  | .xor => m.assign (.gpr i.rd) (rs ^^^ rt)
  | .xori => m.assign (.gpr i.rt) (rs ^^^ (i.extra &&& 0xffff))
  | .res | .unimp => m.raiseException .illegalInstr 0
  | .rfe | .special | .bcond => throw (.fault .assertion)

/-- The machine after an instruction that is done; `debug` is `DebugIsEnabled('m')`. -/
def oneInstruction (debug : Bool) : Exec Machine := do
  let (raw,m) ← m.readMem (m.registers .pc) 4
  let instr := Instruction.decode raw
  if debug ∧ ¬ instr.opCode.LeMax then throw (.fault .assertion)
  let e ← m.execute instr
  let m ← (e.machine.delayedLoad e.nextLoadReg e.nextLoadValue).exec
  let m := m.set .prevPC (m.registers .pc)
  let m := m.set .pc (m.registers .nextPC)
  return m.set .nextPC e.pcAfter

end Machine

end Nachos
