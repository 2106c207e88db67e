import Nachos.Library.Codec
import Mathlib.Logic.Function.Basic
import Mathlib.Algebra.Group.Int.Defs

/-! # The simulated disk

A run of the kernel either goes on or stops at a fault: a failed `ASSERT`, an
access outside an object, or signed overflow. Sectors are blocks of exactly
`sectorSize` bytes, and the disk checks every sector number it is given.
-/
namespace Nachos

inductive Fault where
  | assertion
  | outOfBounds
  | overflow
  deriving DecidableEq, Repr

abbrev Outcome (α : Type) := Except Fault α

namespace Outcome
variable {α β : Type}

@[simp] theorem ok_bind (a : α) (f : α → Outcome β) : (Except.ok a >>= f) = f a := rfl
@[simp] theorem error_bind (e : Fault) (f : α → Outcome β) :
    ((Except.error e : Outcome α) >>= f) = .error e := rfl
@[simp] theorem pure_eq (a : α) : (pure a : Outcome α) = .ok a := rfl
@[simp] theorem throw_eq (e : Fault) : (throw e : Outcome α) = .error e := rfl

theorem bind_eq_ok {x : Outcome α} {f : α → Outcome β} {b : β} :
    (x >>= f) = .ok b ↔ ∃ a, x = .ok a ∧ f a = .ok b := by
  cases x with
  | error e => simp
  | ok a => simp

end Outcome

/-- A value a C `int` can hold. -/
def IsInt (v : ℤ) : Prop := -2 ^ 31 ≤ v ∧ v < 2 ^ 31

instance (v : ℤ) : Decidable (IsInt v) := inferInstanceAs (Decidable (_ ∧ _))

/-- The result of an `int` operation. -/
def cint (v : ℤ) : Outcome ℤ := if IsInt v then .ok v else .error .overflow

theorem cint_eq_ok {v : ℤ} (h : IsInt v) : cint v = .ok v := if_pos h

theorem eq_of_cint {v w : ℤ} (h : cint v = .ok w) : w = v := by
  unfold cint at h
  split at h <;> cases h
  rfl

abbrev sectorSize : ℕ := 128
abbrev sectorsPerTrack : ℕ := 32
abbrev numTracks : ℕ := 32
/-- `NumSectors`, the number of sectors on the disk. -/
abbrev diskSectors : ℕ := sectorsPerTrack * numTracks

/-- The contents of one sector. -/
@[ext] structure Sector where
  bytes : List Byte
  length_bytes : bytes.length = sectorSize

attribute [simp] Sector.length_bytes

abbrev Disk := ℕ → Sector

namespace Disk

/-- The check both requests make of their sector number. -/
def InRange (sectorNumber : ℤ) : Prop := 0 ≤ sectorNumber ∧ sectorNumber < diskSectors

instance (n : ℤ) : Decidable (InRange n) := inferInstanceAs (Decidable (_ ∧ _))

def readRequest (d : Disk) (sectorNumber : ℤ) : Outcome Sector :=
  if InRange sectorNumber then .ok (d sectorNumber.toNat) else .error .assertion

def writeRequest (d : Disk) (sectorNumber : ℤ) (data : Sector) : Outcome Disk :=
  if InRange sectorNumber then .ok (Function.update d sectorNumber.toNat data)
  else .error .assertion

theorem inRange_natCast {s : ℕ} : InRange (s : ℤ) ↔ s < diskSectors := by
  unfold InRange
  omega

@[simp] theorem readRequest_natCast {d : Disk} {s : ℕ} (h : s < diskSectors) :
    d.readRequest s = .ok (d s) := by
  rw [readRequest, if_pos (inRange_natCast.mpr h), Int.toNat_natCast]

@[simp] theorem writeRequest_natCast {d : Disk} {s : ℕ} {data : Sector} (h : s < diskSectors) :
    d.writeRequest s data = .ok (Function.update d s data) := by
  rw [writeRequest, if_pos (inRange_natCast.mpr h), Int.toNat_natCast]

end Disk

/-- The bytes a request moves between a buffer and a sector. -/
def Sector.ofBytes (bs : List Byte) : Outcome Sector :=
  if h : bs.length = sectorSize then .ok ⟨bs,h⟩ else .error .outOfBounds

theorem Sector.ofBytes_eq_ok {bs : List Byte} (h : bs.length = sectorSize) :
    Sector.ofBytes bs = .ok ⟨bs,h⟩ := dif_pos h

end Nachos
