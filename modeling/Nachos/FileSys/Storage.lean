import Nachos.FileSys.Layout
import Nachos.FileSys.FileSystem

/-! # Directories and the free map on disk

Both are stored under one-level headers and always moved as a whole. Reading
gives what the sectors hold, writing leaves the new contents there and touches
no other sector.
-/
namespace Nachos

def storedMap (S : Support) (d : Disk) : BitMap :=
  S.load (fileBytes d (headerAt d FileSystem.freeMapSector).entry 1 freeMapFileSize)

section Whole
variable {S : Support} {d : Disk} {s : ℕ} {kind : NodeKind} {f : OpenFile} {L : ℕ}

theorem transferCount_all (L : ℕ) : transferCount L 0 L = L := by
  unfold transferCount
  omega

theorem NodeOk.readAll (hn : NodeOk d s kind) (hk : kind ≠ .file) (hf : f.hdr = headerAt d s)
    (hL : (headerAt d s).fileLength = L) (hb : L ≤ (headerAt d s).blocks * sectorSize) :
    f.readAt S d L 0 0 =
      .ok ((L : ℤ),fileBytes d (headerAt d s).entry (headerAt d s).blocks L) := by
  have M : Mapping d f.hdr 0 (headerAt d s).blocks (headerAt d s).entry := by
    rw [hf]
    exact hn.mapping_direct hk
  have hlen := length_fileBytes (d := d) (σ := (headerAt d s).entry) hb
  have hint : IsInt (((0 : ℕ) : ℤ) + L) := by
    rw [Int.natCast_zero, Int.zero_add, ← hL]
    exact isInt_fileLength _
  have h := readAt_eq (S := S) M (hf ▸ hL) hb 0 L hint
  rw [transferCount_all, List.drop_zero, List.take_of_length_le hlen.le] at h
  exact h

theorem NodeOk.writeAll (hn : NodeOk d s kind) (hk : kind ≠ .file) (hf : f.hdr = headerAt d s)
    (hL : (headerAt d s).fileLength = L) (hb : L ≤ (headerAt d s).blocks * sectorSize)
    (chars : ℕ → Byte) {src : List Byte} (hsrc : src.length = L) :
    ∃ d' : Disk, f.writeAt S chars d src L 0 0 = .ok ((L : ℤ),d') ∧
      fileBytes d' (headerAt d s).entry (headerAt d s).blocks L = src ∧
      ∀ t, t ∉ (headerAt d s).directSectors → d' t = d t := by
  have M : Mapping d f.hdr 0 (headerAt d s).blocks (headerAt d s).entry := by
    rw [hf]
    exact hn.mapping_direct hk
  have hlen := length_fileBytes (d := d) (σ := (headerAt d s).entry) hb
  have hint : IsInt (((0 : ℕ) : ℤ) + L) := by
    rw [Int.natCast_zero, Int.zero_add, ← hL]
    exact isInt_fileLength _
  obtain ⟨d',hw,hbytes,hout⟩ := writeAt_eq (S := S) M (hf ▸ hL) hb chars src 0 L hint
    (by rw [transferCount_all, hsrc])
  rw [transferCount_all] at hw hbytes
  rw [List.take_of_length_le hsrc.le, splice_all (hsrc.trans hlen.symm)] at hbytes
  exact ⟨d',hw,hbytes,fun t ht => hout t fun k hk he => ht (he ▸ entry_mem_direct hk)⟩

end Whole

section Directory
variable {S : Support} {d : Disk} {s : ℕ} {kind : NodeKind} {f : OpenFile}

theorem NodeOk.self_not_mem (hn : NodeOk d s kind) (hk : kind ≠ .file) :
    s ∉ (headerAt d s).directSectors := by
  have h := hn.not_mem_data (mem_metaSectors_self d s kind)
  cases kind <;> first | exact h | exact absurd rfl hk

theorem Directory.fetchFrom_eq (hn : NodeOk d s .directory) (hf : f.hdr = headerAt d s)
    (dir : Directory) : dir.fetchFrom S f d = .ok (directoryAt d s) := by
  obtain ⟨hL,hb⟩ := hn.size
  have hfit : directoryFileSize ≤ (headerAt d s).blocks * sectorSize := by rw [hb]; decide
  have hlen := length_fileBytes (d := d) (σ := (headerAt d s).entry) hfit
  have henc : (codec.encode dir).length = directoryFileSize := codec.length_encode dir
  have hread := hn.readAll (S := S) (by decide) hf hL hfit
  rw [fetchFrom, hread, Outcome.ok_bind, copyIn, if_pos (by rw [hlen, henc]; omega)]
  rw [Outcome.ok_bind, Outcome.pure_eq, Int.toNat_zero, splice_all (hlen.trans henc.symm), hb]
  rfl

theorem Directory.writeBack_eq (hn : NodeOk d s .directory) (hf : f.hdr = headerAt d s)
    (chars : ℕ → Byte) (dir : Directory) : ∃ d', dir.writeBack S chars f d = .ok d' ∧
      directoryAt d' s = dir ∧ ∀ t, t ∉ (headerAt d s).directSectors → d' t = d t := by
  obtain ⟨hL,hb⟩ := hn.size
  have hfit : directoryFileSize ≤ (headerAt d s).blocks * sectorSize := by rw [hb]; decide
  obtain ⟨d',hw,hbytes,hout⟩ := hn.writeAll (S := S) (by decide) hf hL hfit chars
    (codec.length_encode dir)
  refine ⟨d',by rw [writeBack, hw]; rfl,?_,hout⟩
  rw [directoryAt, headerAt_congr (hout s (hn.self_not_mem (by decide)))]
  rw [hb] at hbytes
  rw [hbytes]
  exact codec.decode_encode dir

end Directory

section FreeMap
variable {S : Support} {d : Disk} {f : OpenFile}

theorem BitMap.fetchFrom_eq (hn : NodeOk d FileSystem.freeMapSector .freeMap)
    (hf : f.hdr = headerAt d FileSystem.freeMapSector) :
    BitMap.fetchFrom S f d = .ok (storedMap S d) := by
  obtain ⟨hL,hb⟩ := hn.size
  have hread := hn.readAll (S := S) (by decide) hf hL (by rw [hb]; decide)
  rw [fetchFrom, hread, Outcome.ok_bind, Outcome.pure_eq, hb, storedMap]

theorem storedMap_congr {d' : Disk} (hn : NodeOk d FileSystem.freeMapSector .freeMap)
    (h : ∀ t ∈ ownedSectors d FileSystem.freeMapSector .freeMap, d' t = d t) :
    storedMap S d' = storedMap S d := by
  obtain ⟨-,hb⟩ := hn.size
  unfold storedMap
  rw [headerAt_congr (h _ (mem_ownedSectors_self d _ _)), fileBytes_congr fun k hk =>
    h _ (List.mem_append_right _ (entry_mem_direct (by omega)))]

theorem BitMap.writeBack_eq (hn : NodeOk d FileSystem.freeMapSector .freeMap)
    (hf : f.hdr = headerAt d FileSystem.freeMapSector) (chars : ℕ → Byte) {m : BitMap}
    (hm : m ⊆ Finset.range diskSectors) : ∃ d', m.writeBack S chars f d = .ok d' ∧
      storedMap S d' = m ∧
      ∀ t, t ∉ (headerAt d FileSystem.freeMapSector).directSectors → d' t = d t := by
  obtain ⟨hL,hb⟩ := hn.size
  obtain ⟨d',hw,hbytes,hout⟩ := hn.writeAll (S := S) (by decide) hf hL (by rw [hb]; decide) chars
    (S.length_image m)
  refine ⟨d',by rw [writeBack, hw]; rfl,?_,hout⟩
  rw [storedMap, headerAt_congr (hout _ (hn.self_not_mem (by decide)))]
  rw [hb] at hbytes
  rw [hbytes]
  exact S.load_image m hm

end FreeMap

end Nachos
