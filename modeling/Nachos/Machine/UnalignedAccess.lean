import Nachos.Machine.RegisterFile
import Nachos.Machine.ByteMemory

/-! # Words that are not aligned

`LWL` and `LWR`, and `SWL` and `SWR`, come in pairs, for a word at any address. Each asserts
that its own address is a multiple of 4, which the two of a pair never both are.
-/
namespace Nachos

namespace Instruction
variable (rt base : Fin numGPRegs)

/-- `lwl rt,3(base)` -/
def lwl : Instruction := ⟨.lwl,base,rt,0,3⟩
/-- `lwr rt,0(base)` -/
def lwr : Instruction := ⟨.lwr,base,rt,0,0⟩
/-- `swl rt,3(base)` -/
def swl : Instruction := ⟨.swl,base,rt,0,3⟩
/-- `swr rt,0(base)` -/
def swr : Instruction := ⟨.swr,base,rt,0,0⟩

end Instruction

namespace Machine

/-- The byte at a virtual address. -/
def ByteAt (m : Machine) (addr : Word) (b : Byte) : Prop :=
  ∃ physAddr, m.Maps addr 1 false physAddr ∧ m.mainMemory.bytes[physAddr]? = some b

/-- Both instructions are executed, with the same base. -/
def Executes (debug : Bool) (m : Machine) (first second : Instruction) (base : Fin numGPRegs)
    (m₂ : Machine) : Prop :=
  ∃ m₁ e₁ e₂, Completes debug m first e₁ m₁ ∧
    m₁.registers (.gpr base) = m.registers (.gpr base) ∧ Completes debug m₁ second e₂ m₂

/-- The pair leaves the little-endian word at the base in the register, when the delayed load
has been applied. -/
def LoadsWord (debug : Bool) (m : Machine) (first second : Instruction) (rt base : Fin numGPRegs) :
    Prop :=
  let a := m.registers (.gpr base)
  ∃ m₂ w b₀ b₁ b₂ b₃, Executes debug m first second base m₂ ∧ m₂.delayedLoad 0 0 = .ok w ∧
    m.ByteAt a b₀ ∧ m.ByteAt (a + 1) b₁ ∧ m.ByteAt (a + 2) b₂ ∧ m.ByteAt (a + 3) b₃ ∧
    w.registers (.gpr rt) = Codec.wordOfBytes b₀ b₁ b₂ b₃

/-- The pair stores the bytes of the register at the base, and changes no other byte. -/
def StoresWord (debug : Bool) (m : Machine) (first second : Instruction)
    (rt base : Fin numGPRegs) : Prop :=
  let a := m.registers (.gpr base)
  let byte := Codec.wordByte (m.registers (.gpr rt))
  ∃ m₂ p₀ p₁ p₂ p₃, Executes debug m first second base m₂ ∧
    m.Maps a 1 true p₀ ∧ m.Maps (a + 1) 1 true p₁ ∧ m.Maps (a + 2) 1 true p₂ ∧
    m.Maps (a + 3) 1 true p₃ ∧ m₂.mainMemory.bytes =
      (((m.mainMemory.bytes.set p₀ (byte 0)).set p₁ (byte 1)).set p₂ (byte 2)).set p₃ (byte 3)

variable {debug : Bool} {m m' : Machine} {i : Instruction} {e : Effect}

theorem Completes.execute_ok (h : Completes debug m i e m') :
    ∃ u : Machine, u.registers = m.registers ∧ u.execute i = .ok e := by
  obtain ⟨⟨raw,u,hread,rfl,hexec⟩,-⟩ := h
  exact ⟨u,(readMem_sameBut hread).registers,hexec⟩

/-- A merging access that is executed has an aligned address. -/
theorem Completes.aligned (h : Completes debug m i e m')
    (hop : i.opCode = .lwl ∨ i.opCode = .lwr ∨ i.opCode = .swl ∨ i.opCode = .swr) :
    (m.registers (.gpr i.rs) + i.extra) &&& 3 = 0 := by
  obtain ⟨u,hregs,hexec⟩ := h.execute_ok
  by_contra hal
  have hunsafe : ¬ u.HostSafe i := by
    rw [← hregs] at hal
    unfold HostSafe
    rcases hop with hop | hop | hop | hop <;> rw [hop] <;> exact hal
  obtain h' | h' := execute_unsafe hunsafe <;> cases hexec.symm.trans h'

theorem not_aligned_both (a : Word) (h₀ : (a + 0) &&& 3 = 0) (h₃ : (a + 3) &&& 3 = 0) : False := by
  have hmod₀ := mod_eq_zero_of_and (k := 2) (by decide) h₀
  have hmod₃ := mod_eq_zero_of_and (k := 2) (by decide) h₃
  have ha := a.isLt
  rw [BitVec.toNat_add] at hmod₀ hmod₃
  change (a.toNat + 0) % 2 ^ 32 % 2 ^ 2 = 0 at hmod₀
  change (a.toNat + 3) % 2 ^ 32 % 2 ^ 2 = 0 at hmod₃
  omega

/-- No machine executes both instructions of a pair, in whichever order. -/
theorem not_executes {first second : Instruction} {base : Fin numGPRegs}
    (hop : ∀ i ∈ [first,second], i.rs = base ∧
      (i.opCode = .lwl ∨ i.opCode = .lwr ∨ i.opCode = .swl ∨ i.opCode = .swr))
    (hextra : first.extra = 0 ∧ second.extra = 3 ∨ first.extra = 3 ∧ second.extra = 0) :
    ¬ Executes debug m first second base m' := by
  rintro ⟨m₁,e₁,e₂,h₁,hbase,h₂⟩
  obtain ⟨hrs₁,hop₁⟩ := hop first (by simp)
  obtain ⟨hrs₂,hop₂⟩ := hop second (by simp)
  have hal₁ := h₁.aligned hop₁
  have hal₂ := h₂.aligned hop₂
  rw [hrs₁] at hal₁
  rw [hrs₂, hbase] at hal₂
  obtain ⟨h0,h3⟩ | ⟨h3,h0⟩ := hextra
  · rw [h0] at hal₁
    rw [h3] at hal₂
    exact not_aligned_both _ hal₁ hal₂
  · rw [h3] at hal₁
    rw [h0] at hal₂
    exact not_aligned_both _ hal₂ hal₁

theorem unalignedAccess (debug : Bool) (m : Machine) (rt base : Fin numGPRegs) :
    ¬ LoadsWord debug m (.lwl rt base) (.lwr rt base) rt base ∧
    ¬ LoadsWord debug m (.lwr rt base) (.lwl rt base) rt base ∧
    ¬ StoresWord debug m (.swl rt base) (.swr rt base) rt base ∧
    ¬ StoresWord debug m (.swr rt base) (.swl rt base) rt base := by
  refine ⟨?_,?_,?_,?_⟩
  · rintro ⟨m₂,-,-,-,-,-,h,-⟩
    exact not_executes (by simp [Instruction.lwl, Instruction.lwr]) (.inr ⟨rfl,rfl⟩) h
  · rintro ⟨m₂,-,-,-,-,-,h,-⟩
    exact not_executes (by simp [Instruction.lwl, Instruction.lwr]) (.inl ⟨rfl,rfl⟩) h
  · rintro ⟨m₂,-,-,-,-,h,-⟩
    exact not_executes (by simp [Instruction.swl, Instruction.swr]) (.inr ⟨rfl,rfl⟩) h
  · rintro ⟨m₂,-,-,-,-,h,-⟩
    exact not_executes (by simp [Instruction.swl, Instruction.swr]) (.inl ⟨rfl,rfl⟩) h

end Machine

/-- `lwl r1,3(r2)` and `lwr r1,0(r2)` with 9 in register 2, and zeros all around address 9: the
second one fails its assertion. -/
theorem not_unalignedAccess :
    let m := { Machine.pair 0x88410003 0x98410000 with
      registers := fun r => if r = 2 then 9 else if r = .nextPC then 4 else 0 }
    (m.ByteAt 9 0 ∧ m.ByteAt 10 0 ∧ m.ByteAt 11 0 ∧ m.ByteAt 12 0) ∧
    (∃ m₁ e, Machine.Completes false m (.lwl 1 2) e m₁ ∧ m₁.registers (.gpr 2) = 9 ∧
      m₁.readMem (m₁.registers .pc) 4 = .ok (0x98410000,m₁) ∧
      Instruction.decode 0x98410000 = .lwr 1 2 ∧
      m₁.oneInstruction false = .error (.fault .assertion)) ∧
    ¬ Machine.LoadsWord false m (.lwl 1 2) (.lwr 1 2) 1 2 := by
  refine ⟨⟨⟨9,⟨_,rfl⟩,rfl⟩,⟨10,⟨_,rfl⟩,rfl⟩,⟨11,⟨_,rfl⟩,rfl⟩,⟨12,⟨_,rfl⟩,rfl⟩⟩,
    ⟨_,_,⟨⟨0x88410003,_,rfl,rfl,rfl⟩,rfl⟩,rfl,rfl,rfl,rfl⟩,?_⟩
  rintro ⟨m₂,-,-,-,-,-,⟨m₁,e₁,e₂,h₁,-,h₂⟩,-⟩
  obtain rfl : _ = m₁ := Except.ok.inj h₁.done
  cases h₂.done

end Nachos
