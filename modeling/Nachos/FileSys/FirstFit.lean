import Nachos.FileSys.FileSystem
import Mathlib.Data.Finset.Filter
import Mathlib.Data.List.GetD

/-! # A machine to run the file system on

A bit map as the file system assumes it: `find` takes the first clear bit, bit
`s` is stored as bit `s % 8` of byte `s / 8`, and the rounding macros divide.
Memory and disk hold zeros.
-/
namespace Nachos.FirstFit

def findClear (m : BitMap) : Option ℕ := (List.range diskSectors).find? fun s => s ∉ m

def image (m : BitMap) : List Byte :=
  (List.range freeMapFileSize).map fun b =>
    (BitVec.ofBoolListLE ((List.range 8).map fun k => decide (8 * b + k ∈ m))).setWidth 8

def load (bytes : List Byte) : BitMap :=
  {s ∈ Finset.range diskSectors | (bytes.getD (s / 8) 0).getLsbD (s % 8) = true}

theorem load_image {m : BitMap} (h : m ⊆ Finset.range diskSectors) : load (image m) = m := by
  ext s
  rw [load, Finset.mem_filter, Finset.mem_range]
  have hbit : s < diskSectors →
      ((image m).getD (s / 8) 0).getLsbD (s % 8) = decide (s ∈ m) := by
    intro hs
    have hb : s / 8 < (image m).length := by
      rw [image, List.length_map, List.length_range]
      unfold freeMapFileSize diskSectors sectorsPerTrack numTracks at *
      omega
    have hmod : s % 8 < 8 := Nat.mod_lt s (by decide)
    rw [List.getD_eq_getElem _ _ hb]
    have hk : s % 8 < ((List.range 8).map fun k => decide (8 * (s / 8) + k ∈ m)).length := by
      rw [List.length_map, List.length_range]
      exact hmod
    simp only [image, List.getElem_map, List.getElem_range, BitVec.getLsbD_setWidth,
      BitVec.getLsbD_ofBoolListLE]
    rw [List.getD_eq_getElem _ _ hk]
    simp [hmod, Nat.div_add_mod]
  constructor
  · rintro ⟨hs,hm⟩
    rw [hbit hs] at hm
    exact of_decide_eq_true hm
  · intro hm
    have hs := Finset.mem_range.mp (h hm)
    exact ⟨hs,by rw [hbit hs]; exact decide_eq_true hm⟩

theorem findClear_some {m : BitMap} {s : ℕ} (h : findClear m = some s) :
    s < diskSectors ∧ s ∉ m := by
  rw [findClear] at h
  have hmem : s ∈ List.range diskSectors := List.mem_of_find?_eq_some h
  have hd := List.find?_some h
  exact ⟨List.mem_range.mp hmem,of_decide_eq_true hd⟩

theorem findClear_none {m : BitMap} (h : findClear m = none) : Finset.range diskSectors ⊆ m := by
  rw [findClear] at h
  intro s hs
  have hmem : s ∈ List.range diskSectors := List.mem_range.mpr (Finset.mem_range.mp hs)
  have hd := List.find?_eq_none.mp h s hmem
  by_contra hm
  exact hd (decide_eq_true hm)

theorem divRoundUp_eq {n s : ℤ} (hn : 0 ≤ n) (hs : 0 < s) :
    (n.tdiv s + if 0 < n.tmod s then 1 else 0) = (n + s - 1) / s := by
  rw [Int.tdiv_eq_ediv_of_nonneg hn, Int.tmod_eq_emod_of_nonneg hn]
  have hd := Int.mul_ediv_add_emod n s
  have hr := Int.emod_nonneg n hs.ne'
  have hl := Int.emod_lt_of_pos n hs
  symm
  rw [Int.ediv_eq_iff_of_pos hs]
  split_ifs with h0
  · rw [Int.add_mul, Int.mul_comm]
    omega
  · rw [Int.add_mul, Int.mul_comm]
    omega

theorem divRoundUp_nonpos {n s : ℤ} (hn : n ≤ 0) (hs : 0 < s) :
    n ≤ n.tdiv s + (if 0 < n.tmod s then 1 else 0) ∧
      n.tdiv s + (if 0 < n.tmod s then 1 else 0) ≤ 0 := by
  obtain ⟨m,rfl⟩ := Int.exists_eq_neg_ofNat hn
  have hm : ¬ 0 < (-(m : ℤ)).tmod s := by
    rw [Int.neg_tmod, Int.tmod_eq_emod_of_nonneg (Int.natCast_nonneg m)]
    have := Int.emod_nonneg (m : ℤ) hs.ne'
    omega
  rw [if_neg hm, Int.neg_tdiv, Int.tdiv_eq_ediv_of_nonneg (Int.natCast_nonneg m)]
  have h0 := Int.ediv_nonneg (Int.natCast_nonneg m) hs.le
  have hle := Int.ediv_le_self s (Int.natCast_nonneg m)
  omega

def support : Support where
  divRoundDown n s := n.tdiv s
  divRoundUp n s := n.tdiv s + if 0 < n.tmod s then 1 else 0
  divRoundDown_eq _ _ hn _ := Int.tdiv_eq_ediv_of_nonneg hn
  divRoundUp_eq _ _ hn hs := divRoundUp_eq hn hs
  divRoundUp_nonpos _ _ hn hs := divRoundUp_nonpos hn hs
  findClear := findClear
  findClear_some _ _ h := findClear_some h
  findClear_none _ h := findClear_none h
  image := image
  load := load
  length_image m := by rw [image, List.length_map, List.length_range]
  load_image _ h := load_image h

def sector : Sector := ⟨List.replicate sectorSize 0,List.length_replicate⟩

def disk : Disk := fun _ => sector

def heap : Heap where
  hdr := .ofSector sector
  mapHdr := .ofSector sector
  sectorArray _ := .ofSector sector
  table := Directory.codec.decode (List.replicate directoryFileSize 0)
  dirBuffer _ := 0
  newDirBuffer _ := 0
  mapBuffer _ := 0

end Nachos.FirstFit
