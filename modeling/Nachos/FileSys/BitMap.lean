import Nachos.Machine.Disk
import Mathlib.Data.Finset.Card
import Mathlib.Data.Finset.Range

/-! # The bit map of disk sectors and the rounding macros

`userprog/bitmap.cc` and `threads/utility.h` are not part of the tree. What the
file system relies on is collected in one structure: a bit map is the set of its
marked bits, `find` is some choice of a clear bit, and the stored image of a map
can be read back.
-/
namespace Nachos

abbrev BitMap := Finset ℕ

/-- `FreeMapFileSize`, the bytes of a stored bit map of the disk. -/
abbrev freeMapFileSize : ℕ := diskSectors / 8

structure Support where
  divRoundDown : ℤ → ℤ → ℤ
  divRoundUp : ℤ → ℤ → ℤ
  divRoundDown_eq : ∀ n s, 0 ≤ n → 0 < s → divRoundDown n s = n / s
  divRoundUp_eq : ∀ n s, 0 ≤ n → 0 < s → divRoundUp n s = (n + s - 1) / s
  divRoundUp_nonpos : ∀ n s, n ≤ 0 → 0 < s → n ≤ divRoundUp n s ∧ divRoundUp n s ≤ 0
  findClear : BitMap → Option ℕ
  findClear_some : ∀ m s, findClear m = some s → s < diskSectors ∧ s ∉ m
  findClear_none : ∀ m, findClear m = none → Finset.range diskSectors ⊆ m
  image : BitMap → List Byte
  load : List Byte → BitMap
  length_image : ∀ m, (image m).length = freeMapFileSize
  load_image : ∀ m, m ⊆ Finset.range diskSectors → load (image m) = m

attribute [simp] Support.length_image

namespace BitMap

def numClear (m : BitMap) : ℤ := (Finset.range diskSectors \ m).card

/-- `Find`: the number of a clear bit, now marked, or `-1`. -/
def find (S : Support) (m : BitMap) : Word × BitMap :=
  match S.findClear m with
  | some s => (BitVec.ofNat 32 s, insert s m)
  | none => (-1, m)

def clear (m : BitMap) (which : ℤ) : Outcome BitMap :=
  if Disk.InRange which then .ok (m.erase which.toNat) else .error .assertion

def mark (m : BitMap) (which : ℤ) : Outcome BitMap :=
  if Disk.InRange which then .ok (insert which.toNat m) else .error .assertion

def test (m : BitMap) (which : ℤ) : Outcome Bool :=
  if Disk.InRange which then .ok (decide (which.toNat ∈ m)) else .error .assertion

theorem clear_natCast {m : BitMap} {s : ℕ} (h : s < diskSectors) :
    m.clear s = .ok (m.erase s) := by
  rw [clear, if_pos (Disk.inRange_natCast.mpr h), Int.toNat_natCast]

theorem mark_natCast {m : BitMap} {s : ℕ} (h : s < diskSectors) :
    m.mark s = .ok (insert s m) := by
  rw [mark, if_pos (Disk.inRange_natCast.mpr h), Int.toNat_natCast]

theorem numClear_empty : numClear ∅ = diskSectors := by
  rw [numClear, Finset.sdiff_empty, Finset.card_range]

theorem numClear_insert {m : BitMap} {s : ℕ} (h : s < diskSectors) (hs : s ∉ m) :
    numClear (insert s m) = numClear m - 1 := by
  have hm : s ∈ Finset.range diskSectors \ m :=
    Finset.mem_sdiff.mpr ⟨Finset.mem_range.mpr h,hs⟩
  have hc := Finset.card_erase_of_mem hm
  have hp := Finset.card_pos.mpr ⟨s,hm⟩
  unfold numClear
  rw [Finset.sdiff_insert]
  omega

theorem findClear_isSome (S : Support) {m : BitMap} (h : 0 < numClear m) :
    ∃ s, S.findClear m = some s := by
  cases hf : S.findClear m with
  | some s => exact ⟨s,rfl⟩
  | none =>
    have he := Finset.sdiff_eq_empty_iff_subset.mpr (S.findClear_none m hf)
    simp [numClear, he] at h

end BitMap

namespace Support
variable (S : Support)

theorem divRoundDown_natCast (n s : ℕ) (hs : 0 < s) : S.divRoundDown n s = ((n / s : ℕ) : ℤ) := by
  rw [S.divRoundDown_eq _ _ (by omega) (by omega), Int.natCast_ediv]

theorem divRoundUp_natCast (n s : ℕ) (hs : 0 < s) :
    S.divRoundUp n s = (((n + s - 1) / s : ℕ) : ℤ) := by
  rw [S.divRoundUp_eq _ _ (by omega) (by omega), Int.natCast_ediv]
  congr 1
  omega

end Support

end Nachos
