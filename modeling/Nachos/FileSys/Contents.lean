import Nachos.FileSys.Operations

/-! # The bytes of a file

A transfer through the handle of a file reads and writes the bytes its data sectors
hold. What it writes changes no other node, whatever else is live.
-/
namespace Nachos

def fileContents (d : Disk) (s : ℕ) : List Byte :=
  fileBytes d ((headerAt d s).block d) (headerAt d s).blocks (headerAt d s).fileLength.toNat

section Transfers
variable {S : Support} {d d' : Disk} {s : ℕ} {f : OpenFile}

theorem NodeOk.fits (hn : NodeOk d s .file) :
    (headerAt d s).fileLength.toNat ≤ (headerAt d s).blocks * sectorSize := by
  obtain ⟨hsize,-⟩ := hn.size
  unfold sectorSize at *
  omega

theorem length_fileContents (hn : NodeOk d s .file) :
    (fileContents d s).length = (headerAt d s).fileLength.toNat := length_fileBytes hn.fits

theorem block_congr (h : ∀ t ∈ metaSectors d s .file, d' t = d t) {k : ℕ}
    (hk : k < (headerAt d s).blocks) : (headerAt d s).block d' k = (headerAt d s).block d k := by
  rw [FileHeader.block, h _ (index_mem_meta hk), FileHeader.block]

theorem fileContents_congr (h : ∀ t ∈ ownedSectors d s .file, d' t = d t) :
    fileContents d' s = fileContents d s := by
  have hmeta : ∀ t ∈ metaSectors d s .file, d' t = d t := fun t ht =>
    h t (List.mem_append_left _ ht)
  rw [fileContents, headerAt_congr (hmeta s (mem_metaSectors_self d s .file)), fileContents]
  refine fileBytes_congr fun k hk => ?_
  rw [block_congr hmeta hk]
  exact h _ (List.mem_append_right _ (block_mem_data hk))

theorem NodeOk.readAt_contents (hn : NodeOk d s .file) (hf : f.hdr = headerAt d s) (p : ℕ)
    (numBytes : ℤ) (hp : IsInt (p + numBytes)) :
    f.readAt S d numBytes p 1 =
      .ok (transferCount (fileContents d s).length p numBytes,((fileContents d s).drop p).take
        (transferCount (fileContents d s).length p numBytes)) := by
  have M := hn.mapping_block
  rw [← hf] at M
  rw [readAt_signed M (hf ▸ hn.fits) p numBytes hp, length_fileContents hn, fileContents, hf]

/-- A file of negative length is written as an empty one. -/
theorem NodeOk.writeAt_contents (hn : NodeOk d s .file) (hf : f.hdr = headerAt d s)
    (chars : ℕ → Byte) (src : List Byte) (p : ℕ) (numBytes : ℤ) (hp : IsInt (p + numBytes))
    (hsrc : numBytes ≤ src.length) :
    ∃ d' : Disk, f.writeAt S chars d src numBytes p 1 =
        .ok (transferCount (fileContents d s).length p numBytes,d') ∧
      fileContents d' s = splice (fileContents d s) p
        (src.take (transferCount (fileContents d s).length p numBytes)) ∧
      ∀ t, t ∉ dataSectors d s .file → d' t = d t := by
  have hlen := length_fileContents hn
  have M := hn.mapping_block
  rw [← hf] at M
  obtain ⟨d',hw,hbytes,hout⟩ := writeAt_signed (S := S) M (hf ▸ hn.fits) chars src p numBytes hp
    (by unfold transferCount; omega)
  rw [hf] at hw hbytes hout
  have hdata : ∀ t, t ∉ dataSectors d s .file → d' t = d t := fun t ht =>
    hout t fun k hk he => ht (by rw [he]; exact block_mem_data hk)
  have hmeta : ∀ t ∈ metaSectors d s .file, d' t = d t := fun t ht =>
    hdata t (hn.not_mem_data ht)
  refine ⟨d',by rw [hw, hlen],?_,hdata⟩
  rw [hlen]
  refine Eq.trans ?_ hbytes
  rw [fileContents, headerAt_congr (hmeta s (mem_metaSectors_self d s .file))]
  exact fileBytes_congr fun k hk => by rw [block_congr hmeta hk]

end Transfers

end Nachos
