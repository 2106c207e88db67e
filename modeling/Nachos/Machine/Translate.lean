import Nachos.Machine.Buffer
import Mathlib.Data.Fin.SuccPred

/-! # Registers, memory and address translation

`machine.cc` and `translate.cc`, on a little-endian host. An instruction runs until it is
done, until a trap hands the machine to the kernel, or until the simulator itself faults.
The kernel's handler is not called here: a trap ends with the machine it is given.
-/
namespace Nachos

abbrev pageSize : ℕ := sectorSize
abbrev numPhysPages : ℕ := 256
abbrev memorySize : ℕ := numPhysPages * pageSize

/-- The kinds of trap, without `NoException`. -/
inductive ExceptionType where
  | syscall
  | pageFault
  | readOnly
  | busError
  | addressError
  | overflow
  | illegalInstr
  deriving DecidableEq, Repr

structure TranslationEntry where
  virtualPage : Word
  physicalPage : Word
  valid : Bool
  readOnly : Bool
  use : Bool
  dirty : Bool
  deriving DecidableEq

/-- The second half of `Translate`, on the entry found: the physical address and the entry
with its bits set. -/
def TranslationEntry.access (entry : TranslationEntry) (offset size : ℕ) (writing : Bool) :
    Outcome (Except ExceptionType (ℕ × TranslationEntry)) :=
  if entry.readOnly ∧ writing then .ok (.error .readOnly)
  else
    let pageFrame := entry.physicalPage.toNat
    if numPhysPages ≤ pageFrame then .ok (.error .busError)
    else
      let physAddr := pageFrame * pageSize + offset
      if ¬ physAddr + size ≤ memorySize then .error .assertion
      else .ok (.ok (physAddr,{ entry with use := true, dirty := entry.dirty || writing }))

abbrev numGPRegs : ℕ := 32
abbrev numTotalRegs : ℕ := 40

instance neZero_numGPRegs : @NeZero ℕ Zero.ofOfNat0 numGPRegs := ⟨Nat.succ_ne_zero 31⟩

abbrev Register := Fin numTotalRegs

namespace Register

def hi : Register := 32
def lo : Register := 33
def pc : Register := 34
def nextPC : Register := 35
def prevPC : Register := 36
/-- The register target of a delayed load. -/
def load : Register := 37
def loadValue : Register := 38
def badVAddr : Register := 39

/-- A general register, by its number in an instruction. -/
def gpr (r : Fin numGPRegs) : Register := r.castLE (by decide)

end Register

/-- `tlb` and `pageTable` are the pointers, `none` for `NULL`; `pageTableSize` is the length
of the list. -/
structure Machine where
  mainMemory : Buffer memorySize
  registers : Register → Word
  tlb : Option (List TranslationEntry)
  pageTable : Option (List TranslationEntry)

inductive Stop where
  | fault (fault : Fault)
  /-- `ExceptionHandler(which)` is called in this state. -/
  | trap (which : ExceptionType) (machine : Machine)

abbrev Exec (α : Type) := Except Stop α

def Outcome.exec {α : Type} (x : Outcome α) : Exec α := x.mapError .fault

namespace Machine

def set (m : Machine) (r : Register) (v : Word) : Machine :=
  { m with registers := Function.update m.registers r v }

/-- `registers[registers[LoadReg]]` may lie outside the array. -/
def delayedLoad (m : Machine) (nextReg nextValue : Word) : Outcome Machine :=
  if h : (m.registers .load).toNat < numTotalRegs then
    .ok ((((m.set ⟨_,h⟩ (m.registers .loadValue)).set .load nextReg).set .loadValue nextValue).set
      (.gpr 0) 0)
  else .error .outOfBounds

/-- The handler runs next, and after it the instruction is over. -/
def raiseException {α : Type} (m : Machine) (which : ExceptionType) (badVAddr : Word) :
    Exec α := do
  let m := m.set .badVAddr badVAddr
  let m ← (m.delayedLoad 0 0).exec
  throw (.trap which m)

/-- The entry for a page, with the machine in which another one stands in its place. -/
def findEntry (m : Machine) (vpn : ℕ) :
    Outcome (Except ExceptionType (TranslationEntry × (TranslationEntry → Machine))) :=
  match m.tlb, m.pageTable with
  | some _, some _ | none, none => .error .assertion
  | none, some pageTable =>
    match pageTable[vpn]? with
    | none => .ok (.error .addressError)
    | some entry =>
      if ¬ entry.valid then .ok (.error .pageFault)
      else .ok (.ok (entry,fun e => { m with pageTable := some (pageTable.set vpn e) }))
  | some tlb, none =>
    match tlb.findIdx? (fun e => e.valid && e.virtualPage.toNat == vpn) with
    | none => .ok (.error .pageFault)
    | some i =>
      match tlb[i]? with
      | none => .error .outOfBounds
      | some entry => .ok (.ok (entry,fun e => { m with tlb := some (tlb.set i e) }))

/-- The physical address and the machine with the bits of the entry set, or the exception. -/
def translate (m : Machine) (virtAddr : Word) (size : ℕ) (writing : Bool) :
    Outcome (Except ExceptionType (ℕ × Machine)) := do
  if size = 4 ∧ virtAddr &&& 3 ≠ 0 ∨ size = 2 ∧ virtAddr &&& 1 ≠ 0 then
    return .error .addressError
  match ← m.findEntry (virtAddr.toNat / pageSize) with
  | .error which => return .error which
  | .ok (entry,update) =>
    match ← entry.access (virtAddr.toNat % pageSize) size writing with
    | .error which => return .error which
    | .ok (physAddr,entry) => return .ok (physAddr,update entry)

/-- A single byte is read as a `char`, two bytes as an `unsigned short`. -/
def readMem (m : Machine) (addr : Word) (size : ℕ) : Exec (Word × Machine) := do
  match ← (m.translate addr size false).exec with
  | .error which => m.raiseException which addr
  | .ok (physicalAddress,m) =>
    let bytes ← (m.mainMemory.get physicalAddress size).exec
    match size with
    | 1 => return ((bytes.getD 0 0).signExtend 32,m)
    | 2 => return ((bytes.getD 1 0 ++ bytes.getD 0 0).zeroExtend 32,m)
    | 4 => return (Codec.word.decode bytes,m)
    | _ => throw (.fault .assertion)

def writeMem (m : Machine) (addr : Word) (size : ℕ) (value : Word) : Exec Machine := do
  match ← (m.translate addr size true).exec with
  | .error which => m.raiseException which addr
  | .ok (physicalAddress,m) =>
    let bytes ← match size with
      | 1 => pure [Codec.wordByte value 0]
      | 2 => pure [Codec.wordByte value 0, Codec.wordByte value 1]
      | 4 => pure (Codec.word.encode value)
      | _ => throw (.fault .assertion)
    let mainMemory ← (m.mainMemory.put physicalAddress bytes).exec
    return { m with mainMemory := mainMemory }

end Machine

end Nachos
