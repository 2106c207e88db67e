import Nachos.FileSys.Layout
import Nachos.FileSys.FirstFit
import Mathlib.Algebra.Group.Nat.Defs

/-! # What a transfer does under any header

Nothing is assumed of the header but what `ByteToSector` says of the offsets in its file: the
layout, the number of sectors it claims and who made it do not matter.
-/
namespace Nachos

namespace FileHeader

/-- The sector that `ByteToSector` finds for block `k`. -/
def sectorOf (h : FileHeader) (d : Disk) (mode : ℤ) (k : ℕ) : ℕ :=
  match h.byteToSector d (k * sectorSize) mode with
  | .ok s => s.toNat
  | .error _ => 0

def bytesOf (h : FileHeader) (d : Disk) (mode : ℤ) : List Byte :=
  fileBytes d (h.sectorOf d mode) (sectorCount h.fileLength.toNat) h.fileLength.toNat

def Within (h : FileHeader) (x : ℕ) : Prop := (x : ℤ) < h.fileLength

/-- The sectors of all offsets in the file are on the disk and those of different blocks are
distinct. Under the two-level layout they are no index sectors either. -/
structure Spread (h : FileHeader) (d : Disk) (mode : ℤ) : Prop where
  inDisk : ∀ x, h.Within x → ∃ s : ℕ, s < diskSectors ∧ h.byteToSector d x mode = .ok (s : ℤ)
  distinct : ∀ x y, h.Within x → h.Within y →
    h.byteToSector d x mode = h.byteToSector d y mode → x / sectorSize = y / sectorSize
  notIndex : mode ≠ 0 → ∀ x y, h.Within x → h.Within y →
    h.byteToSector d x mode ≠ .ok (h.entry (y / sectorSize / sectorWords) : ℤ)

/-- `min(numBytes, len - position)`, or 0. -/
def transferred (h : FileHeader) (position numBytes : ℤ) : ℤ :=
  if numBytes ≤ 0 ∨ h.fileLength ≤ position then 0 else min numBytes (h.fileLength - position)

variable {h : FileHeader} {d d' : Disk} {mode : ℤ} {k x : ℕ}

theorem transferred_eq (h : FileHeader) (p : ℕ) (numBytes : ℤ) :
    h.transferred p numBytes = transferCount h.fileLength.toNat p numBytes := by
  unfold transferred transferCount
  split_ifs with hnone
  · omega
  · omega

theorem lt_sectorCount {size : ℕ} : k < sectorCount size ↔ k * sectorSize < size := by
  unfold sectorCount sectorSize
  omega

theorem le_sectorCount (size : ℕ) : size ≤ sectorCount size * sectorSize := by
  unfold sectorCount sectorSize
  omega

theorem within_block : h.Within (k * sectorSize) ↔ k < sectorCount h.fileLength.toNat := by
  rw [lt_sectorCount, Within]
  omega

theorem Within.block (hx : h.Within x) : x / sectorSize < sectorCount h.fileLength.toNat := by
  rw [lt_sectorCount]
  unfold Within at hx
  unfold sectorSize
  omega

/-- All offsets in one block are in one sector. -/
theorem byteToSector_block (h : FileHeader) (d : Disk) (mode : ℤ) (x : ℕ) :
    h.byteToSector d x mode = h.byteToSector d ((x / sectorSize : ℕ) * sectorSize) mode := by
  have hdiv : (x : ℤ).tdiv (sectorSize : ℕ) =
      (((x / sectorSize : ℕ) : ℤ) * (sectorSize : ℕ)).tdiv (sectorSize : ℕ) := by
    rw [Int.mul_tdiv_cancel _ (by decide), Int.tdiv_eq_ediv_of_nonneg (Int.natCast_nonneg x)]
    omega
  rw [byteToSector, hdiv, byteToSector]

/-- Apart from its index sector the disk has no say in where a block is. -/
theorem byteToSector_congr {s : ℤ} (hk : k < 2 ^ 32)
    (hsame : mode ≠ 0 → d' (h.entry (k / sectorWords)) = d (h.entry (k / sectorWords)))
    (hs : h.byteToSector d (k * sectorSize) mode = .ok s) :
    h.byteToSector d' (k * sectorSize) mode = .ok s := by
  have hblock : ((k : ℤ) * (sectorSize : ℕ)).tdiv (sectorSize : ℕ) = k :=
    Int.mul_tdiv_cancel _ (by decide)
  by_cases hmode : mode = 0
  · rw [byteToSector, if_pos hmode] at hs ⊢
    exact hs
  · rw [byteToSector, if_neg hmode, hblock] at hs ⊢
    have hsmall : (k : ℤ) % 2 ^ 32 = k := by omega
    simp only [hsmall] at hs ⊢
    obtain ⟨w,hw,hs⟩ := Outcome.bind_eq_ok.mp hs
    obtain ⟨newHdr,hfetch,hs⟩ := Outcome.bind_eq_ok.mp hs
    have hread : d'.readRequest w.toInt = d.readRequest w.toInt := by
      unfold Disk.readRequest
      split_ifs with hrange
      · -- the word that was read is the sector of the index
        obtain ⟨n,hn⟩ := Int.eq_ofNat_of_zero_le hrange.1
        have hentry : h.entry (k / sectorWords) = n := by
          rw [getDataSector] at hw
          split_ifs at hw
          cases hw
          exact toNat_of_toInt hn
        rw [hn, Int.toNat_natCast, ← hentry, hsame hmode]
      · rfl
    rw [hw, Outcome.ok_bind, fetchFrom, hread, ← fetchFrom, hfetch]
    exact hs

theorem Spread.sectorOf (hs : h.Spread d mode) (hk : h.Within (k * sectorSize)) :
    h.sectorOf d mode k < diskSectors ∧
      h.byteToSector d (k * sectorSize) mode = .ok (h.sectorOf d mode k : ℤ) := by
  obtain ⟨s,hlt,heq⟩ := hs.inDisk _ hk
  rw [Int.natCast_mul] at heq
  rw [FileHeader.sectorOf, heq]
  exact ⟨hlt,rfl⟩

theorem Spread.mapping (hs : h.Spread d mode) :
    Mapping d h mode (sectorCount h.fileLength.toNat) (h.sectorOf d mode) := by
  have hwithin : ∀ {k}, k < sectorCount h.fileLength.toNat → h.Within (k * sectorSize) :=
    within_block.mpr
  have hblock : ∀ k : ℕ, k * sectorSize / sectorSize = k := fun k =>
    Nat.mul_div_cancel k (by decide)
  constructor
  · intro d' hd' k hk
    refine byteToSector_congr ?_ (fun hmode => hd' _ fun l hl heq => ?_) (hs.sectorOf (hwithin hk)).2
    · have hlen := isInt_fileLength h
      rw [lt_sectorCount] at hk
      unfold IsInt at hlen
      unfold sectorSize at hk
      omega
    · have hindex := hs.notIndex hmode _ _ (hwithin hl) (hwithin hk)
      rw [hblock, heq, Int.natCast_mul] at hindex
      exact hindex (hs.sectorOf (hwithin hl)).2
  · intro k hk l hl heq
    have hsame := hs.distinct _ _ (hwithin hk) (hwithin hl)
    rw [hblock, hblock, Int.natCast_mul, Int.natCast_mul, (hs.sectorOf (hwithin hk)).2,
      (hs.sectorOf (hwithin hl)).2, heq] at hsame
    exact hsame rfl
  · intro k hk
    exact (hs.sectorOf (hwithin hk)).1

end FileHeader

structure Spliced (S : Support) (f : OpenFile) (d : Disk) (mode : ℤ) (chars : ℕ → Byte)
    (src : List Byte) (position numBytes : ℤ) : Prop where
  write : ∃ d' : Disk, f.writeAt S chars d src numBytes position mode =
      .ok (f.hdr.transferred position numBytes,d') ∧
    f.hdr.bytesOf d' mode = splice (f.hdr.bytesOf d mode) position.toNat
      (src.take (f.hdr.transferred position numBytes).toNat) ∧
    ∀ s : ℕ, (∀ x, f.hdr.Within x → f.hdr.byteToSector d x mode ≠ .ok (s : ℤ)) → d' s = d s
  read : f.readAt S d numBytes position mode = .ok (f.hdr.transferred position numBytes,
    ((f.hdr.bytesOf d mode).drop position.toNat).take
      (f.hdr.transferred position numBytes).toNat)

/-- `WriteAt` replaces the bytes from the position on that lie in the file and `ReadAt` returns
them, whatever the alignment and the layout. -/
theorem spliceLaw (S : Support) {f : OpenFile} {d : Disk} {mode : ℤ} (hs : f.hdr.Spread d mode)
    (chars : ℕ → Byte) (src : List Byte) {position numBytes : ℤ} (hpos : 0 ≤ position)
    (hint : IsInt (position + numBytes))
    (hsrc : f.hdr.transferred position numBytes ≤ src.length) :
    Spliced S f d mode chars src position numBytes := by
  obtain ⟨p,rfl⟩ := Int.eq_ofNat_of_zero_le hpos
  have M := hs.mapping
  have hn := FileHeader.le_sectorCount f.hdr.fileLength.toNat
  rw [f.hdr.transferred_eq] at hsrc
  obtain ⟨d',hwrite,hbytes,hout⟩ := writeAt_signed (S := S) M hn chars src p numBytes hint
    (by exact_mod_cast hsrc)
  constructor
  · refine ⟨d',?_,?_,?_⟩
    · rw [f.hdr.transferred_eq]
      exact hwrite
    · rw [f.hdr.transferred_eq, Int.toNat_natCast, Int.toNat_natCast]
      refine Eq.trans ?_ hbytes
      apply fileBytes_congr
      intro k hk
      rw [FileHeader.sectorOf, M.resolve d' hout k hk]
      rfl
    · intro s hfree
      apply hout
      rintro k hk rfl
      apply hfree (k * sectorSize) (FileHeader.within_block.mpr hk)
      rw [Int.natCast_mul]
      exact M.resolve_self hk
  · rw [f.hdr.transferred_eq, Int.toNat_natCast, Int.toNat_natCast]
    exact readAt_signed M hn p numBytes hint

/-- A file of 200 bytes in sectors 7 and 9, with its index in sector 5. -/
def twoBlocks : FileHeader := ⟨200,2,(Vector.replicate numDirect 0).set 0 5⟩

def twoBlocksDisk : Disk :=
  Function.update FirstFit.disk 5 (FileHeader.toSector ⟨7,9,Vector.replicate numDirect 0⟩)

/-- 60 bytes from position 100 on, which end in the middle of the last sector. -/
theorem spliceLaw_twoBlocks : Spliced FirstFit.support ⟨twoBlocks,0⟩ twoBlocksDisk 1 (fun _ => 0)
    (List.replicate 60 1) 100 60 := by
  have hblock : ∀ k < 2, twoBlocks.byteToSector twoBlocksDisk ((k : ℕ) * sectorSize) 1 =
      .ok (if k = 0 then 7 else 9) := by
    decide +kernel
  have hfind : ∀ x, twoBlocks.Within x → x / sectorSize < 2 ∧
      twoBlocks.byteToSector twoBlocksDisk x 1 = .ok (if x / sectorSize = 0 then 7 else 9) := by
    intro x hx
    have hlt : x / sectorSize < 2 := hx.block
    rw [FileHeader.byteToSector_block]
    exact ⟨hlt,hblock _ hlt⟩
  refine spliceLaw FirstFit.support ?_ _ _ (by decide) (by decide) (by decide)
  constructor
  · intro x hx
    obtain ⟨-,heq⟩ := hfind x hx
    rw [heq]
    split_ifs
    · exact ⟨7,by decide,rfl⟩
    · exact ⟨9,by decide,rfl⟩
  · intro x y hx hy heq
    obtain ⟨hxlt,hxs⟩ := hfind x hx
    obtain ⟨hylt,hys⟩ := hfind y hy
    rw [hxs, hys] at heq
    generalize x / sectorSize = a at heq hxlt
    generalize y / sectorSize = b at heq hylt
    revert heq
    revert a b
    decide
  · intro _ x y hx hy
    obtain ⟨hxlt,hxs⟩ := hfind x hx
    obtain ⟨hylt,-⟩ := hfind y hy
    have hindex : twoBlocks.entry (y / sectorSize / sectorWords) = 5 := by
      rw [Nat.div_eq_of_lt (Nat.lt_trans hylt (by decide))]
      decide
    rw [hxs, hindex]
    split_ifs <;> decide

end Nachos
