import Nachos.FileSys.Transfer
import Nachos.FileSys.Directory

/-! # Who owns which sector

The sectors of a file, a directory or the free map, read off the disk from the
header sector alone. Each depends only on the sectors that hold the metadata of
its owner, and each kind of header maps the blocks of its file.
-/
namespace Nachos

def sectorCount (size : ℕ) : ℕ := (size + (sectorSize - 1)) / sectorSize

def indexCount (n : ℕ) : ℕ := (n + (sectorWords - 1)) / sectorWords

namespace FileHeader
variable (h : FileHeader) (d : Disk)

def blocks : ℕ := h.numSectors.toNat

def entry (j : ℕ) : ℕ := (h.dataSectors.getD j 0).toNat

/-- Data sector `k` under the two-level layout. -/
def block (k : ℕ) : ℕ :=
  ((ofSector (d (h.entry (k / sectorWords)))).word (k % sectorWords)).toNat

def indexSectors : List ℕ := (List.range (indexCount h.blocks)).map h.entry
def blockSectors : List ℕ := (List.range h.blocks).map (h.block d)
def directSectors : List ℕ := (List.range h.blocks).map h.entry

end FileHeader

inductive NodeKind where
  | freeMap
  | directory
  | file
  deriving DecidableEq

def headerAt (d : Disk) (s : ℕ) : FileHeader := FileHeader.ofSector (d s)

/-- The header sector and, in the two-level layout, the index sectors. -/
def metaSectors (d : Disk) (s : ℕ) : NodeKind → List ℕ
  | .freeMap => [s]
  | .directory => [s]
  | .file => s :: (headerAt d s).indexSectors

def dataSectors (d : Disk) (s : ℕ) : NodeKind → List ℕ
  | .freeMap => (headerAt d s).directSectors
  | .directory => (headerAt d s).directSectors
  | .file => (headerAt d s).blockSectors d

def ownedSectors (d : Disk) (s : ℕ) (kind : NodeKind) : List ℕ :=
  metaSectors d s kind ++ dataSectors d s kind

theorem length_ownedSectors_file (d : Disk) (s : ℕ) : (ownedSectors d s .file).length =
    1 + indexCount (headerAt d s).blocks + (headerAt d s).blocks := by
  simp only [ownedSectors, metaSectors, dataSectors, FileHeader.blockSectors,
    FileHeader.indexSectors, List.length_append, List.length_cons, List.length_map,
    List.length_range]
  omega

def SizeOk (h : FileHeader) : NodeKind → Prop
  | .freeMap => h.fileLength = freeMapFileSize ∧ h.blocks = 1
  | .directory => h.fileLength = directoryFileSize ∧ h.blocks = 2
  | .file => h.fileLength ≤ h.blocks * sectorSize ∧ indexCount h.blocks ≤ numDirect

structure NodeOk (d : Disk) (s : ℕ) (kind : NodeKind) : Prop where
  nodup : (ownedSectors d s kind).Nodup
  inDisk : ∀ t ∈ ownedSectors d s kind, t < diskSectors
  size : SizeOk (headerAt d s) kind

theorem NodeOk.length_owned_directory {d : Disk} {s : ℕ} (h : NodeOk d s .directory) :
    (ownedSectors d s .directory).length = 3 := by
  simp [ownedSectors, metaSectors, dataSectors, FileHeader.directSectors, h.size.2]

def directoryAt (d : Disk) (s : ℕ) : Directory :=
  Directory.codec.decode (fileBytes d (headerAt d s).entry 2 directoryFileSize)

section Frame
variable {d d' : Disk} {s : ℕ} {kind : NodeKind}

theorem mem_metaSectors_self (d : Disk) (s : ℕ) (kind : NodeKind) : s ∈ metaSectors d s kind := by
  cases kind <;> exact List.mem_cons_self

theorem mem_ownedSectors_self (d : Disk) (s : ℕ) (kind : NodeKind) : s ∈ ownedSectors d s kind :=
  List.mem_append_left _ (mem_metaSectors_self d s kind)

theorem headerAt_congr (h : d' s = d s) : headerAt d' s = headerAt d s := by
  rw [headerAt, h, headerAt]

theorem metaSectors_congr (h : d' s = d s) : metaSectors d' s kind = metaSectors d s kind := by
  cases kind with
  | freeMap => rfl
  | directory => rfl
  | file => rw [metaSectors, headerAt_congr h, metaSectors]

theorem blockSectors_congr {h : FileHeader} (hd : ∀ t ∈ h.indexSectors, d' t = d t) :
    h.blockSectors d' = h.blockSectors d := by
  apply List.map_congr_left
  intro k hk
  have hk := List.mem_range.mp hk
  have hj : k / sectorWords < indexCount h.blocks := by
    unfold indexCount sectorWords sectorSize
    omega
  rw [FileHeader.block, hd _ (List.mem_map.mpr ⟨_,List.mem_range.mpr hj,rfl⟩), FileHeader.block]

theorem dataSectors_congr (h : ∀ t ∈ metaSectors d s kind, d' t = d t) :
    dataSectors d' s kind = dataSectors d s kind := by
  have hh : headerAt d' s = headerAt d s := headerAt_congr (h s (mem_metaSectors_self d s kind))
  cases kind with
  | freeMap => rw [dataSectors, hh, dataSectors]
  | directory => rw [dataSectors, hh, dataSectors]
  | file =>
    rw [dataSectors, hh, dataSectors]
    exact blockSectors_congr fun t ht => h t (List.mem_cons_of_mem s ht)

theorem ownedSectors_congr (h : ∀ t ∈ metaSectors d s kind, d' t = d t) :
    ownedSectors d' s kind = ownedSectors d s kind := by
  rw [ownedSectors, metaSectors_congr (h s (mem_metaSectors_self d s kind)),
    dataSectors_congr h, ownedSectors]

theorem NodeOk.congr (hn : NodeOk d s kind) (h : ∀ t ∈ metaSectors d s kind, d' t = d t) :
    NodeOk d' s kind := by
  have ho := ownedSectors_congr h
  refine ⟨by rw [ho]; exact hn.nodup,by rw [ho]; exact hn.inDisk,?_⟩
  rw [headerAt_congr (h s (mem_metaSectors_self d s kind))]
  exact hn.size

theorem entry_mem_direct {h : FileHeader} {k : ℕ} (hk : k < h.blocks) :
    h.entry k ∈ h.directSectors := List.mem_map.mpr ⟨k,List.mem_range.mpr hk,rfl⟩

theorem directoryAt_congr (hn : NodeOk d s .directory)
    (h : ∀ t ∈ ownedSectors d s .directory, d' t = d t) : directoryAt d' s = directoryAt d s := by
  have hentry : ∀ k < 2, d' ((headerAt d s).entry k) = d ((headerAt d s).entry k) := by
    intro k hk
    obtain ⟨-,hb⟩ := hn.size
    have hb : k < (headerAt d s).blocks := by omega
    exact h _ (List.mem_append_right _ (entry_mem_direct hb))
  unfold directoryAt
  rw [headerAt_congr (h s (mem_ownedSectors_self d s _)), fileBytes_congr hentry]

theorem NodeOk.self_lt (hn : NodeOk d s kind) : s < diskSectors :=
  hn.inDisk s (mem_ownedSectors_self d s kind)

theorem NodeOk.not_mem_data (hn : NodeOk d s kind) {t : ℕ} (ht : t ∈ metaSectors d s kind) :
    t ∉ dataSectors d s kind := fun hd => (List.nodup_append.mp hn.nodup).2.2 t ht t hd rfl

theorem NodeOk.data_lt (hn : NodeOk d s kind) {t : ℕ} (ht : t ∈ dataSectors d s kind) :
    t < diskSectors := hn.inDisk t (List.mem_append_right _ ht)

end Frame

section New
variable {d : Disk} {s : ℕ} {h : FileHeader}

theorem headerAt_update (d : Disk) (s : ℕ) (h : FileHeader) :
    headerAt (Function.update d s h.toSector) s = h := by
  rw [headerAt, show Function.update d s h.toSector s = h.toSector from
    Function.update_self s _ d]
  exact FileHeader.ofSector_toSector h

theorem NodeOk.of_header (hnd : (s :: (h.indexSectors ++ h.blockSectors d)).Nodup)
    (hlt : ∀ t ∈ s :: (h.indexSectors ++ h.blockSectors d), t < diskSectors)
    (hsize : SizeOk h .file) :
    ownedSectors (Function.update d s h.toSector) s .file =
      s :: (h.indexSectors ++ h.blockSectors d) ∧
    NodeOk (Function.update d s h.toSector) s .file := by
  have hs : s ∉ h.indexSectors := fun hm =>
    (List.nodup_cons.mp hnd).1 (List.mem_append_left _ hm)
  have hb : h.blockSectors (Function.update d s h.toSector) = h.blockSectors d :=
    blockSectors_congr fun t ht => Function.update_of_ne (fun he => hs (by rw [← he]; exact ht)) _ _
  have ho : ownedSectors (Function.update d s h.toSector) s .file =
      s :: (h.indexSectors ++ h.blockSectors d) := by
    rw [ownedSectors, metaSectors, dataSectors, headerAt_update, hb]
    rfl
  exact ⟨ho,by rw [ho]; exact hnd,by rw [ho]; exact hlt,by rw [headerAt_update]; exact hsize⟩

theorem NodeOk.of_direct (d : Disk) (kind : NodeKind) (hk : kind ≠ .file)
    (hnd : (s :: h.directSectors).Nodup)
    (hlt : ∀ t ∈ s :: h.directSectors, t < diskSectors) (hsize : SizeOk h kind) :
    ownedSectors (Function.update d s h.toSector) s kind = s :: h.directSectors ∧
    NodeOk (Function.update d s h.toSector) s kind := by
  have ho : ownedSectors (Function.update d s h.toSector) s kind = s :: h.directSectors := by
    cases kind with
    | file => exact absurd rfl hk
    | freeMap => rw [ownedSectors, dataSectors, headerAt_update]; rfl
    | directory => rw [ownedSectors, dataSectors, headerAt_update]; rfl
  exact ⟨ho,by rw [ho]; exact hnd,by rw [ho]; exact hlt,by rw [headerAt_update]; exact hsize⟩

end New

section Maps
variable {d : Disk} {s : ℕ} {kind : NodeKind}

private theorem nodup_map_range {f : ℕ → ℕ} {n : ℕ} (h : ((List.range n).map f).Nodup) :
    ∀ k < n, ∀ l < n, f k = f l → k = l := fun _ hk _ hl he =>
  List.inj_on_of_nodup_map h (List.mem_range.mpr hk) (List.mem_range.mpr hl) he

theorem FileHeader.getDataSector_eq (h : FileHeader) {j : ℕ} (hj : j < numDirect) :
    h.getDataSector j = .ok (h.dataSectors.getD j 0) := by
  rw [FileHeader.getDataSector, if_pos (by omega), Int.toNat_natCast]

theorem toInt_of_lt {w : Word} (h : w.toNat < diskSectors) : w.toInt = w.toNat := by
  unfold diskSectors sectorsPerTrack numTracks at h
  exact BitVec.toInt_eq_toNat_of_lt (by omega)

theorem toNat_of_toInt {w : Word} {n : ℕ} (h : w.toInt = n) : w.toNat = n := by
  have hc := BitVec.toInt_eq_toNat_cond w
  have hlt := w.isLt
  split_ifs at hc <;> omega

private theorem tdiv_block (k : ℕ) : ((k : ℤ) * (sectorSize : ℕ)).tdiv (sectorSize : ℕ) = k :=
  Int.mul_tdiv_cancel _ (by decide)

theorem FileHeader.byteToSector_index (h : FileHeader) (d : Disk) {k : ℕ}
    (hk : k / sectorWords < numDirect) (hs : h.entry (k / sectorWords) < diskSectors) :
    h.byteToSector d (k * sectorSize) 1 = .ok
      ((FileHeader.ofSector (d (h.entry (k / sectorWords)))).word (k % sectorWords)).toInt := by
  have hsmall : (k : ℤ) % 2 ^ 32 = k := by
    unfold numDirect sectorWords sectorSize at hk
    omega
  have hindex : (h.dataSectors.getD (k / sectorWords) 0).toInt = h.entry (k / sectorWords) :=
    toInt_of_lt hs
  rw [FileHeader.byteToSector, if_neg (by decide), tdiv_block]
  simp only [hsmall]
  rw [← Int.natCast_ediv, ← Int.natCast_emod, Int.toNat_natCast,
    FileHeader.getDataSector_eq _ hk, Outcome.ok_bind, hindex, FileHeader.fetchFrom,
    Disk.readRequest_natCast hs]
  rfl

theorem NodeOk.mapping_direct (hn : NodeOk d s kind) (hk : kind ≠ .file) :
    Mapping d (headerAt d s) 0 (headerAt d s).blocks (headerAt d s).entry := by
  have hdata : dataSectors d s kind = (headerAt d s).directSectors := by
    cases kind <;> first | rfl | exact absurd rfl hk
  have hblocks : (headerAt d s).blocks ≤ numDirect := by
    have hs := hn.size
    cases kind with
    | file => exact absurd rfl hk
    | freeMap => rw [hs.2]; decide
    | directory => rw [hs.2]; decide
  have hlt : ∀ k < (headerAt d s).blocks, (headerAt d s).entry k < diskSectors := fun k hk =>
    hn.data_lt (hdata ▸ entry_mem_direct hk)
  have hnd := (List.nodup_append.mp hn.nodup).2.1
  rw [hdata] at hnd
  refine ⟨fun d' _ k hk => ?_,nodup_map_range hnd,hlt⟩
  rw [FileHeader.byteToSector, if_pos rfl, tdiv_block,
    FileHeader.getDataSector_eq _ (by omega), Outcome.ok_bind, Outcome.pure_eq,
    toInt_of_lt (hlt k hk)]
  rfl

theorem index_mem_meta {k : ℕ} (hk : k < (headerAt d s).blocks) :
    (headerAt d s).entry (k / sectorWords) ∈ metaSectors d s .file := by
  have hj : k / sectorWords < indexCount (headerAt d s).blocks := by
    unfold indexCount sectorWords sectorSize
    omega
  exact List.mem_cons_of_mem _ (List.mem_map.mpr ⟨_,List.mem_range.mpr hj,rfl⟩)

theorem block_mem_data {k : ℕ} (hk : k < (headerAt d s).blocks) :
    (headerAt d s).block d k ∈ dataSectors d s .file :=
  List.mem_map.mpr ⟨k,List.mem_range.mpr hk,rfl⟩

theorem NodeOk.index_lt (hn : NodeOk d s .file) {k : ℕ} (hk : k < (headerAt d s).blocks) :
    k / sectorWords < numDirect ∧ (headerAt d s).entry (k / sectorWords) < diskSectors := by
  obtain ⟨-,hindex⟩ := hn.size
  refine ⟨?_,hn.inDisk _ (List.mem_append_left _ (index_mem_meta hk))⟩
  unfold indexCount numDirect sectorWords sectorSize at *
  omega

/-- The two-level layout maps the blocks of a file also on another disk, as long as the blocks are
looked up there with the same result. -/
theorem FileHeader.mapping_of_same {h : FileHeader} {d d₁ : Disk}
    (hnd : (h.indexSectors ++ h.blockSectors d).Nodup)
    (hlt : ∀ t ∈ h.indexSectors ++ h.blockSectors d, t < diskSectors)
    (hindex : indexCount h.blocks ≤ numDirect)
    (hsame : ∀ k < h.blocks,
      h.byteToSector d₁ (k * sectorSize) 1 = h.byteToSector d (k * sectorSize) 1) :
    Mapping d₁ h 1 h.blocks (h.block d) := by
  obtain ⟨-,hblocks,hdisjoint⟩ := List.nodup_append.mp hnd
  have hblock : ∀ {k}, k < h.blocks → h.block d k ∈ h.blockSectors d := fun hk =>
    List.mem_map.mpr ⟨_,List.mem_range.mpr hk,rfl⟩
  have hentry : ∀ {k}, k < h.blocks → k / sectorWords < numDirect ∧
      h.entry (k / sectorWords) ∈ h.indexSectors := by
    intro k hk
    have hj : k / sectorWords < indexCount h.blocks := by
      unfold indexCount sectorWords sectorSize
      omega
    exact ⟨by omega,List.mem_map.mpr ⟨_,List.mem_range.mpr hj,rfl⟩⟩
  have hblt : ∀ k < h.blocks, h.block d k < diskSectors := fun k hk =>
    hlt _ (List.mem_append_right _ (hblock hk))
  refine ⟨fun d' hd' k hk => ?_,nodup_map_range hblocks,hblt⟩
  obtain ⟨hdirect,hmem⟩ := hentry hk
  have hilt := hlt _ (List.mem_append_left _ hmem)
  have hunch : d' (h.entry (k / sectorWords)) = d₁ (h.entry (k / sectorWords)) :=
    hd' _ fun l hl he => hdisjoint _ hmem _ (hblock hl) he
  have hlook := hsame k hk
  rw [byteToSector_index _ d₁ hdirect hilt, ← hunch, ← byteToSector_index _ d' hdirect hilt]
    at hlook
  rw [hlook, byteToSector_index _ d hdirect hilt]
  exact congrArg _ (toInt_of_lt (hblt k hk))

theorem NodeOk.mapping_of_same {d₁ : Disk} (hn : NodeOk d s .file)
    (hsame : ∀ k < (headerAt d s).blocks, (headerAt d s).byteToSector d₁ (k * sectorSize) 1 =
      (headerAt d s).byteToSector d (k * sectorSize) 1) :
    Mapping d₁ (headerAt d s) 1 (headerAt d s).blocks ((headerAt d s).block d) :=
  FileHeader.mapping_of_same (List.nodup_cons.mp hn.nodup).2
    (fun t ht => hn.inDisk t (List.mem_cons_of_mem s ht)) hn.size.2 hsame

theorem NodeOk.mapping_block (hn : NodeOk d s .file) :
    Mapping d (headerAt d s) 1 (headerAt d s).blocks ((headerAt d s).block d) :=
  hn.mapping_of_same fun _ _ => rfl

end Maps

end Nachos
