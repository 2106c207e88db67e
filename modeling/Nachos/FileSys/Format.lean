import Nachos.FileSys.Operations

/-! # A freshly formatted disk

Formatting leaves a coherent file system whose only directory is an empty root,
whatever the disk and the uninitialised memory held before.
-/
namespace Nachos
open FileSystem (freeMapSector rootSector)

/-- The free map and an empty root are all there is. -/
theorem WellFormed.of_empty {S : Support} {d : Disk}
    (hmap : NodeOk d freeMapSector .freeMap) (hroot : NodeOk d rootSector .directory)
    (hdisj : ∀ t ∈ ownedSectors d freeMapSector .freeMap,
      t ∉ ownedSectors d rootSector .directory)
    (hdots : (directoryAt d rootSector).Dots rootSector rootSector)
    (hempty : ∀ i, ¬ (directoryAt d rootSector).Child i)
    (hstored : storedMap S d = (ownedSectors d freeMapSector .freeMap).toFinset ∪
      (ownedSectors d rootSector .directory).toFinset) : WellFormed S d := by
  have hall : ∀ {o s kind}, Holds d o s kind →
      (o = .freeMap ∧ s = freeMapSector ∧ kind = .freeMap) ∨
      (o = .root ∧ s = rootSector ∧ kind = .directory) := by
    intro o s kind ho
    induction ho with
    | freeMap => exact .inl ⟨rfl,rfl,rfl⟩
    | root => exact .inr ⟨rfl,rfl,rfl⟩
    | @entry o p s i kind _ hchild _ _ ih =>
      rcases ih with ⟨-,-,hk⟩ | ⟨-,rfl,-⟩
      · cases hk
      · exact absurd hchild (hempty i)
  refine ⟨fun ho => ?_,⟨fun i j hij => Set.disjoint_left.mpr ?_,?_⟩,fun ho => ?_,?_⟩
  · rcases hall ho with ⟨-,rfl,rfl⟩ | ⟨-,rfl,rfl⟩
    · exact hmap
    · exact hroot
  · rintro t ⟨s,kind,ho,ht⟩ ⟨s',kind',ho',ht'⟩
    rcases hall ho with ⟨rfl,rfl,rfl⟩ | ⟨rfl,rfl,rfl⟩
    · rcases hall ho' with ⟨rfl,-,-⟩ | ⟨rfl,rfl,rfl⟩
      · exact hij rfl
      · exact hdisj t ht ht'
    · rcases hall ho' with ⟨rfl,rfl,rfl⟩ | ⟨rfl,-,-⟩
      · exact hdisj t ht' ht
      · exact hij rfl
  · rintro i t ⟨s,kind,ho,ht⟩
    change t ∈ storedMap S d
    rw [hstored]
    rcases hall ho with ⟨-,rfl,rfl⟩ | ⟨-,rfl,rfl⟩
    · exact Finset.mem_union_left _ (List.mem_toFinset.mpr ht)
    · exact Finset.mem_union_right _ (List.mem_toFinset.mpr ht)
  · rcases hall ho with ⟨-,-,hk⟩ | ⟨rfl,rfl,-⟩
    · cases hk
    · exact hdots
  · rw [hstored]
    refine Finset.union_subset ?_ ?_
    · exact fun t ht => Finset.mem_range.mpr (hmap.inDisk t (List.mem_toFinset.mp ht))
    · exact fun t ht => Finset.mem_range.mpr (hroot.inDisk t (List.mem_toFinset.mp ht))

structure Formatted (S : Support) (fs : FileSystem) : Prop where
  coherent : Coherent S fs .root rootSector
  table : ∃ mem, fs.currentDir = Directory.fresh mem 1 1
  clear : (storedMap S fs.disk).numClear = 1019

namespace Formatted
variable {S : Support} {fs : FileSystem}

theorem findIndex_none (f : Formatted S fs) {name : List Byte}
    (h : cString fileNameMaxLen name ≠ Directory.dot)
    (h' : cString fileNameMaxLen name ≠ Directory.dotDot) :
    fs.currentDir.findIndex name = none := by
  obtain ⟨mem,hm⟩ := f.table
  rw [hm]
  exact Directory.findIndex_fresh mem 1 1 h h'

theorem not_child (f : Formatted S fs) (i : Fin numDirEntries) : ¬ fs.currentDir.Child i := by
  obtain ⟨mem,hm⟩ := f.table
  rw [hm]
  exact Directory.fresh_not_child mem 1 1

theorem freeIndex_eq (f : Formatted S fs) : fs.currentDir.freeIndex = some 2 := by
  obtain ⟨mem,hm⟩ := f.table
  rw [hm]
  exact Directory.freeIndex_fresh mem 1 1

theorem freeIndex_withEntry (f : Formatted S fs) {name : List Byte} {isDir : Bool} {s : ℕ} :
    (fs.currentDir.withEntry 2 name isDir s).freeIndex = some 3 := by
  refine Directory.freeIndex_eq_some (by decide) ?_ fun j hj h2 => ?_
  · rw [Directory.inUse_withEntry_ne (by decide)]
    exact Bool.eq_false_iff.mpr fun h => f.not_child 3 ⟨by decide,h⟩
  · have hj2 : j = 2 := Fin.ext (Nat.le_antisymm (Nat.le_of_lt_succ hj) h2)
    rw [hj2]
    exact Directory.inUse_withEntry

end Formatted

theorem format_eq (S : Support) (heap : Heap) (disk : Disk) :
    ∃ fs, FileSystem.format S heap disk = .ok fs ∧ Formatted S fs := by
  obtain ⟨m₀,hm₀⟩ : ∃ m : BitMap, m = insert rootSector (insert freeMapSector ∅) := ⟨_,rfl⟩
  have hclear₀ : m₀.numClear = 1022 := by
    rw [hm₀, BitMap.numClear_insert (by decide) (by decide),
      BitMap.numClear_insert (by decide) (by decide), BitMap.numClear_empty]
    rfl
  obtain ⟨l,mapHdr,halloc,hfresh,hbytes,hblocks,hl⟩ := FileHeader.allocateDirectory_eq S
    heap.mapHdr m₀ freeMapFileSize (by decide) (by decide) (by rw [hclear₀]; decide)
  have hclear₁ := hfresh.numClear_union
  have hlen : l.length = 1 := by
    rw [← hl, FileHeader.directSectors, List.length_map, List.length_range, hblocks]
    rfl
  rw [hlen, hclear₀] at hclear₁
  obtain ⟨l',dirHdr,halloc',hfresh',hbytes',hblocks',hl'⟩ := FileHeader.allocateDirectory_eq S
    heap.hdr (m₀ ∪ l.toFinset) directoryFileSize (by decide) (by decide)
    (by rw [hclear₁]; decide)
  have hclear₂ := hfresh'.numClear_union
  have hlen' : l'.length = 2 := by
    rw [← hl', FileHeader.directSectors, List.length_map, List.length_range, hblocks']
    rfl
  rw [hlen', hclear₁] at hclear₂
  subst hl hl'
  have hall : FreshIn m₀ (mapHdr.directSectors ++ dirHdr.directSectors) := hfresh.append hfresh'
  have h0 : freeMapSector ∈ m₀ := by rw [hm₀]; decide
  have h1 : rootSector ∈ m₀ := by rw [hm₀]; decide
  have hnot : ∀ {s}, s ∈ m₀ → s ∉ mapHdr.directSectors ∧ s ∉ dirHdr.directSectors := fun hs =>
    ⟨fun h => (hall.2 _ (List.mem_append_left _ h)).2 hs,
      fun h => (hall.2 _ (List.mem_append_right _ h)).2 hs⟩
  have hlt : ∀ s ∈ m₀, s < diskSectors := by
    rw [hm₀]
    decide
  have hcons : ∀ {s} {l : List ℕ}, s ∈ m₀ → s ∉ l → l.Nodup → (∀ t ∈ l, t < diskSectors) →
      (s :: l).Nodup ∧ ∀ t ∈ s :: l, t < diskSectors := fun hs hl hnd hd =>
    ⟨List.nodup_cons.mpr ⟨hl,hnd⟩,List.forall_mem_cons.mpr ⟨hlt _ hs,hd⟩⟩
  obtain ⟨hnd,hin⟩ := hcons h0 (hnot h0).1 hfresh.1 fun t ht => (hfresh.2 t ht).1
  obtain ⟨howned,hnode⟩ := NodeOk.of_direct disk .freeMap (by decide) hnd hin
    ⟨by rw [FileHeader.fileLength, hbytes]; decide,by rw [hblocks]; decide⟩
  obtain ⟨d₁,hd₁⟩ : ∃ d₁, d₁ = Function.update disk freeMapSector mapHdr.toSector := ⟨_,rfl⟩
  rw [← hd₁] at howned hnode
  obtain ⟨hnd',hin'⟩ := hcons h1 (hnot h1).2 hfresh'.1 fun t ht => (hfresh'.2 t ht).1
  obtain ⟨howned',hnode'⟩ := NodeOk.of_direct d₁ .directory (by decide) hnd' hin'
    ⟨by rw [FileHeader.fileLength, hbytes']; decide,by rw [hblocks']; decide⟩
  obtain ⟨d₂,hd₂⟩ : ∃ d₂, d₂ = Function.update d₁ rootSector dirHdr.toSector := ⟨_,rfl⟩
  rw [← hd₂] at howned' hnode'
  have hmeta₂ : ∀ t ∈ metaSectors d₁ freeMapSector .freeMap, d₂ t = d₁ t := by
    intro t ht
    rw [List.mem_singleton.mp ht, hd₂]
    exact Function.update_of_ne (by decide) _ _
  rw [← ownedSectors_congr hmeta₂] at howned
  have hnode₂ := hnode.congr hmeta₂
  have hdata : (headerAt d₂ freeMapSector).directSectors = mapHdr.directSectors :=
    (List.cons.inj howned).2
  have hdata' : (headerAt d₂ rootSector).directSectors = dirHdr.directSectors :=
    (List.cons.inj howned').2
  obtain ⟨d₃,hw₃,hmap₃,hout₃⟩ := BitMap.writeBack_eq (S := S) hnode₂
    (f := ⟨headerAt d₂ freeMapSector,0⟩) rfl heap.mapBuffer (hfresh'.subset (hfresh.subset
      fun s hs => Finset.mem_range.mpr (hlt s hs)))
  rw [hdata] at hout₃
  have hsame₃ : ∀ s ∈ m₀, d₃ s = d₂ s := fun s hs => hout₃ s (hnot hs).1
  have hmeta₃ : ∀ t ∈ metaSectors d₂ rootSector .directory, d₃ t = d₂ t := by
    intro t ht
    rw [List.mem_singleton.mp ht]
    exact hsame₃ _ h1
  obtain ⟨d₄,hw₄,htable,hout₄⟩ := Directory.writeBack_eq (S := S) (hnode'.congr hmeta₃)
    (f := ⟨headerAt d₂ rootSector,0⟩) (headerAt_congr (hsame₃ _ h1)).symm heap.dirBuffer
    (Directory.fresh heap.table 1 1)
  rw [headerAt_congr (hsame₃ _ h1), hdata'] at hout₄
  have hsame₄ : ∀ s ∈ m₀, d₄ s = d₂ s := fun s hs =>
    (hout₄ s (hnot hs).2).trans (hsame₃ s hs)
  have hmeta₄ : ∀ kind {s}, s ∈ m₀ → kind ≠ .file → ∀ t ∈ metaSectors d₂ s kind,
      d₄ t = d₂ t := by
    intro kind s hs hk t ht
    cases kind with
    | file => exact absurd rfl hk
    | freeMap => rw [List.mem_singleton.mp ht]; exact hsame₄ s hs
    | directory => rw [List.mem_singleton.mp ht]; exact hsame₄ s hs
  have howned₄ := ownedSectors_congr (hmeta₄ .freeMap h0 (by decide))
  have howned₄' := ownedSectors_congr (hmeta₄ .directory h1 (by decide))
  have hstored : storedMap S d₄ = m₀ ∪ mapHdr.directSectors.toFinset ∪
      dirHdr.directSectors.toFinset := by
    rw [← hmap₃]
    have hmeta : ∀ t ∈ metaSectors d₂ freeMapSector .freeMap, d₃ t = d₂ t := by
      intro t ht
      rw [List.mem_singleton.mp ht]
      exact hsame₃ _ h0
    refine storedMap_congr (hnode₂.congr hmeta) fun t ht => hout₄ t fun h => ?_
    rw [ownedSectors_congr hmeta, howned] at ht
    rcases List.mem_cons.mp ht with rfl | ht
    · exact (hnot h0).2 h
    · exact (List.nodup_append.mp hall.1).2.2 t ht t h rfl
  have hwf : WellFormed S d₄ := by
    refine .of_empty (hnode₂.congr (hmeta₄ .freeMap h0 (by decide)))
      (hnode'.congr (hmeta₄ .directory h1 (by decide))) ?_ ?_ ?_ ?_
    · rw [howned₄, howned₄', howned, howned']
      intro t ht ht'
      rcases List.mem_cons.mp ht with rfl | ht
      · rcases List.mem_cons.mp ht' with h | h
        · exact absurd h (by decide)
        · exact (hnot h0).2 h
      · rcases List.mem_cons.mp ht' with rfl | h
        · exact (hnot h1).1 ht
        · exact (List.nodup_append.mp hall.1).2.2 t ht t h rfl
    · rw [htable]
      exact Directory.fresh_dots heap.table 1 1
    · rw [htable]
      exact fun i => Directory.fresh_not_child heap.table 1 1
    · rw [hstored, howned₄, howned₄', howned, howned', hm₀]
      ext t
      simp only [Finset.mem_union, Finset.mem_insert, List.mem_toFinset, List.mem_cons,
        Finset.notMem_empty]
      tauto
  have hheader : headerAt d₂ freeMapSector = headerAt d₄ freeMapSector :=
    (headerAt_congr (hsame₄ _ h0)).symm
  refine ⟨⟨d₄,⟨headerAt d₂ freeMapSector,0⟩,Directory.fresh heap.table 1 1⟩,?_,
    ⟨Coherent.of_synced hwf hheader .root htable.symm,⟨heap.table,rfl⟩,by
      rw [hstored, hclear₂]; rfl⟩⟩
  have hopen : ∀ {s}, s ∈ m₀ → OpenFile.new d₂ s = .ok ⟨headerAt d₂ s,0⟩ := by
    intro s hs
    rw [OpenFile.new, FileHeader.fetchFrom, Disk.readRequest_natCast (hlt s hs)]
    rfl
  have hdir : ((Directory.new heap.table).setSectorAt Directory.currentDirectoryIndex 1).setSectorAt
      Directory.parentDirectoryIndex 1 = Directory.fresh heap.table 1 1 := rfl
  unfold FileSystem.format
  simp only [BitMap.mark_natCast (show freeMapSector < diskSectors by decide), Outcome.ok_bind,
    BitMap.mark_natCast (show rootSector < diskSectors by decide), ← hm₀, halloc, halloc',
    FileHeader.writeBack, Disk.writeRequest_natCast (hlt _ h0),
    Disk.writeRequest_natCast (hlt _ h1), ← hd₁, ← hd₂, hopen h0, hopen h1, hdir, hw₃, hw₄]
  rfl

end Nachos
