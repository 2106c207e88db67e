import Nachos.FileSys.Coherence

/-! # What the operations do in a coherent state

One lemma for each way an operation can go. A call that is not refused and has
room for all its sectors keeps the state coherent.
-/
namespace Nachos
open FileSystem (freeMapSector rootSector)

section
variable {S : Support} {fs : FileSystem} {o : Owner} {cur : ℕ}

theorem Anchored.openCurrent (c : Anchored S fs o cur) {d₁ : Disk}
    (ag : Agrees fs.disk d₁ (TouchesTable o)) {dir : Directory}
    (hdir : dir.getSector = fs.currentDir.getSector) :
    OpenFile.new d₁ dir.getSector = .ok ⟨headerAt fs.disk cur,0⟩ := by
  rw [hdir, c.home, OpenFile.new, FileHeader.fetchFrom,
    Disk.readRequest_natCast (c.disk.node c.held).self_lt, ← ag.headerAt_eq c.held]
  rfl

theorem Anchored.agrees_fresh (c : Anchored S fs o cur) {d₁ : Disk}
    (h : ∀ t ∈ storedMap S fs.disk, d₁ t = fs.disk t) :
    Agrees fs.disk d₁ (TouchesTable o) := .of_marked c.disk fun t ht _ => h t ht

theorem getSector_setTableAt {dir : Directory} {i : Fin numDirEntries} {e : DirectoryEntry}
    (h : i ≠ 0 ∨ e.sector = (dir.getTableAt 0).sector) :
    (dir.setTableAt i e).getSector = dir.getSector := by
  rw [Directory.getSector, Directory.getTableAt_setTableAt]
  split_ifs with h0
  · have he := h.resolve_left (not_not.mpr h0.symm)
    rw [he, Directory.getSector]
  · rfl

theorem getSector_behind (dir : Directory) {i : Fin numDirEntries} (hi : 2 ≤ i.val)
    (e : DirectoryEntry) : (dir.setTableAt i e).getSector = dir.getSector := by
  refine getSector_setTableAt (.inl fun h0 => ?_)
  subst h0
  exact absurd hi (by decide)

theorem getSector_withEntry (dir : Directory) {i : Fin numDirEntries} (hi : 2 ≤ i.val)
    (name : List Byte) (isDir : Bool) (s : ℕ) :
    (dir.withEntry i name isDir s).getSector = dir.getSector :=
  getSector_behind dir hi _

theorem getSector_setInUse (dir : Directory) (i : Fin numDirEntries) (v : Bool) :
    (dir.setInUseOfIndex i v).getSector = dir.getSector := by
  refine getSector_setTableAt ?_
  by_cases h0 : i = 0
  · subst h0
    exact .inr rfl
  · exact .inl h0

theorem find_of_none {dir : Directory} {name : List Byte} (h : dir.findIndex name = none) :
    ¬ (dir.find name ≠ -1) := by
  rw [Directory.find, h]
  exact not_not.mpr rfl

end

section Create
variable {S : Support} {fs : FileSystem} {o : Owner} {cur : ℕ} {name : List Byte} {size : Word}

theorem Coherent.create_refused (c : Coherent S fs o cur) (heap : Heap) {i : Fin numDirEntries}
    (h : fs.currentDir.findIndex name = some i) :
    fs.create S heap name size = .ok (false,fs) := by
  have hf : fs.currentDir.find name ≠ -1 := fun he => by
    rw [c.find_eq_neg_one.mp he] at h
    cases h
  rw [FileSystem.create, if_pos hf]
  rfl

/-- With no clear sector, or with no free slot, nothing changes. -/
theorem Coherent.create_full (c : Coherent S fs o cur) (heap : Heap)
    (hname : fs.currentDir.findIndex name = none)
    (hfull : (storedMap S fs.disk).numClear ≤ 0 ∨ fs.currentDir.freeIndex = none) :
    fs.create S heap name size = .ok (false,fs) := by
  have hne : ¬ (fs.currentDir.find name ≠ -1) := not_not.mpr (c.find_eq_neg_one.mpr hname)
  rw [FileSystem.create, if_neg hne, c.fetchMap, Outcome.ok_bind]
  by_cases hm : (storedMap S fs.disk).numClear ≤ 0
  · rw [BitMap.find_none hm]
    rfl
  · obtain ⟨s,-,hfind,hs,-⟩ := BitMap.find_eq (S := S) (m := storedMap S fs.disk) (by omega)
    have hslot := hfull.resolve_left hm
    simp only [hfind, if_neg (ofNat_ne_neg_one hs), Directory.add, hname, hslot]
    rfl

/-- Without room for the data, the name stays behind in the table in memory. -/
theorem Anchored.create_noRoom (c : Anchored S fs o cur) (heap : Heap) {i : Fin numDirEntries}
    {s : ℕ} (hname : fs.currentDir.findIndex name = none)
    (hslot : fs.currentDir.freeIndex = some i)
    (hfound : S.findClear (storedMap S fs.disk) = some s)
    (hfull : (storedMap S fs.disk).numClear ≤ (FileHeader.sectorsFor S size).toInt) :
    fs.create S heap name size =
      .ok (false,{ fs with currentDir := fs.currentDir.withEntry i name false s }) := by
  obtain ⟨hs,hsm⟩ := S.findClear_some _ _ hfound
  obtain ⟨hdr,halloc⟩ := FileHeader.allocate_false S heap.hdr heap.sectorArray
    (m := insert s (storedMap S fs.disk)) size fs.disk
    (by rw [BitMap.numClear_insert hs hsm]; omega)
  have hfind : BitMap.find S (storedMap S fs.disk) =
      (BitVec.ofNat 32 s,insert s (storedMap S fs.disk)) := by rw [BitMap.find, hfound]
  rw [FileSystem.create, if_neg (find_of_none hname)]
  simp only [c.fetchMap, Outcome.ok_bind, hfind, if_neg (ofNat_ne_neg_one hs),
    Directory.add_eq hname hslot, halloc]
  rfl

/-- What follows an allocation: the header, the table and the map are written, and of the
sectors that were marked only those of the table and the map change. -/
theorem Anchored.create_of_allocate (c : Anchored S fs o cur) (heap : Heap)
    {i : Fin numDirEntries} {s : ℕ} {hdr : FileHeader} {m : BitMap} {d₁ : Disk}
    (hname : fs.currentDir.findIndex name = none) (hslot : fs.currentDir.freeIndex = some i)
    (hfound : S.findClear (storedMap S fs.disk) = some s)
    (halloc : heap.hdr.allocate S heap.sectorArray (insert s (storedMap S fs.disk)) size fs.disk =
      .ok (true,hdr,m,d₁))
    (hm : m ⊆ Finset.range diskSectors) (hd₁ : ∀ t ∈ storedMap S fs.disk, d₁ t = fs.disk t) :
    ∃ d', fs.create S heap name size =
        .ok (true,⟨d',fs.freeMapFile,fs.currentDir.withEntry i name false s⟩) ∧
      Agrees fs.disk d' (TouchesTable o) ∧
      directoryAt d' cur = fs.currentDir.withEntry i name false s ∧ storedMap S d' = m ∧
      ∀ t, t ∉ storedMap S fs.disk → d' t = Function.update d₁ s hdr.toSector t := by
  obtain ⟨hi,-⟩ := Directory.freeIndex_some hslot
  obtain ⟨hs,hsm⟩ := S.findClear_some _ _ hfound
  have hfind : BitMap.find S (storedMap S fs.disk) =
      (BitVec.ofNat 32 s,insert s (storedMap S fs.disk)) := by rw [BitMap.find, hfound]
  have hmarked : ∀ t ∈ storedMap S fs.disk,
      Function.update d₁ s hdr.toSector t = fs.disk t := by
    intro t ht
    have hts : t ≠ s := fun h => hsm (h ▸ ht)
    rw [Function.update_of_ne hts, hd₁ t ht]
  generalize hupd : Function.update d₁ s hdr.toSector = d₂ at hmarked
  obtain ⟨dir,hdir⟩ : ∃ dir, dir = fs.currentDir.withEntry i name false s := ⟨_,rfl⟩
  obtain ⟨d₃,hw₃,htable,hout₃,ag₃⟩ := c.writeTable (c.agrees_fresh hmarked) heap.dirBuffer dir
    (f := ⟨headerAt fs.disk cur,0⟩) rfl
  obtain ⟨d₄,hw₄,hmap,hout₄,ag₄⟩ := c.writeMap ag₃ heap.mapBuffer hm
  refine ⟨d₄,?_,ag₄,?_,hmap,fun t ht => ?_⟩
  · have hhome : dir.getSector = fs.currentDir.getSector := by
      rw [hdir]
      exact getSector_withEntry fs.currentDir hi name false s
    have hopen := c.openCurrent (c.agrees_fresh hmarked) hhome
    rw [Directory.withEntry] at hdir ⊢
    rw [FileSystem.create, if_neg (find_of_none hname)]
    simp only [c.fetchMap, Outcome.ok_bind, hfind, if_neg (ofNat_ne_neg_one hs),
      Directory.add_eq hname hslot, ← hdir, halloc, FileHeader.writeBack, ofNat_toInt_sector hs,
      Disk.writeRequest_natCast hs, hupd]
    simp only [Bool.not_true, Bool.false_eq_true, if_false, hopen, Outcome.ok_bind, hw₃, hw₄]
    rfl
  · rw [← hdir, ← htable]
    exact c.table_after_map ag₃ hout₄
  · rw [hout₄ t fun h => ht (c.disk.marked .freeMap (List.mem_append_right _ h)),
      hout₃ t fun h => ht (c.disk.marked c.held (List.mem_append_right _ h))]

/-- A creation that returns `TRUE` has allocated. -/
theorem Anchored.create_allocated (c : Anchored S fs o cur) {heap : Heap} {i : Fin numDirEntries}
    {s : ℕ} {fs₁ : FileSystem} (hname : fs.currentDir.findIndex name = none)
    (hslot : fs.currentDir.freeIndex = some i)
    (hfound : S.findClear (storedMap S fs.disk) = some s)
    (h : fs.create S heap name size = .ok (true,fs₁)) :
    ∃ hdr m d, heap.hdr.allocate S heap.sectorArray (insert s (storedMap S fs.disk)) size fs.disk =
      .ok (true,hdr,m,d) := by
  obtain ⟨hs,-⟩ := S.findClear_some _ _ hfound
  have hfind : BitMap.find S (storedMap S fs.disk) =
      (BitVec.ofNat 32 s,insert s (storedMap S fs.disk)) := by rw [BitMap.find, hfound]
  rw [FileSystem.create, if_neg (find_of_none hname)] at h
  simp only [c.fetchMap, Outcome.ok_bind, hfind, if_neg (ofNat_ne_neg_one hs),
    Directory.add_eq hname hslot, Bool.not_true, Bool.false_eq_true, if_false] at h
  obtain ⟨⟨allocated,hdr,m,d⟩,halloc,h⟩ := Outcome.bind_eq_ok.mp h
  cases allocated with
  | true => exact ⟨hdr,m,d,halloc⟩
  | false => cases h

theorem Anchored.create_eq (c : Anchored S fs o cur) (heap : Heap) {i : Fin numDirEntries} {n : ℕ}
    (hname : fs.currentDir.findIndex name = none) (hslot : fs.currentDir.freeIndex = some i)
    (hn : (FileHeader.sectorsFor S size).toInt = n) (hindex : indexCount n ≤ numDirect)
    (hroom : ((n + indexCount n + 1 : ℕ) : ℤ) ≤ (storedMap S fs.disk).numClear) :
    ∃ s d', fs.create S heap name size =
        .ok (true,⟨d',fs.freeMapFile,fs.currentDir.withEntry i name false s⟩) ∧
      Placed S fs d' o cur i name false s ∧ (headerAt d' s).numBytes = size ∧
      (headerAt d' s).blocks = n ∧ ∀ t ∈ dataSectors d' s .file, d' t = fs.disk t := by
  obtain ⟨s,hfound,-,hs,hsm⟩ := BitMap.find_eq (S := S) (m := storedMap S fs.disk) (by omega)
  have hclear := BitMap.numClear_insert hs hsm
  obtain ⟨idx,data,hdr,d₁,halloc,hfresh,hbytes,hblocks,hidx,hdata,hd₁⟩ :=
    FileHeader.allocate_eq S heap.hdr heap.sectorArray (insert s (storedMap S fs.disk)) fs.disk
      hn hindex (by omega)
  subst hidx hdata
  have hall := FreshIn.cons hs hsm hfresh
  rw [insert_union_toFinset] at halloc
  obtain ⟨d',hcreate,ag,htable,hmap,hnew⟩ := c.create_of_allocate heap hname hslot hfound halloc
    (hall.subset c.disk.inDisk) fun t ht => hd₁ t fun h =>
      (hall.2 t (List.mem_cons_of_mem s (List.mem_append_left _ h))).2 ht
  obtain ⟨howned,hnode⟩ := NodeOk.of_header hall.1 (fun t ht => (hall.2 t ht).1)
    ⟨by rw [FileHeader.fileLength, hbytes, hblocks, ← toNat_of_toInt hn]
        exact FileHeader.sectorsFor_holds S size,by rw [hblocks]; exact hindex⟩
  have hheader := headerAt_update d₁ s hdr
  have hd₂ : ∀ t, t ≠ s → Function.update d₁ s hdr.toSector t = d₁ t := fun t ht =>
    Function.update_of_ne ht _ _
  generalize Function.update d₁ s hdr.toSector = d₂ at howned hnode hheader hd₂ hnew
  have hout : ∀ t ∈ ownedSectors d₂ s .file, d' t = d₂ t := fun t ht => by
    rw [howned] at ht
    exact hnew t (hall.2 t ht).2
  have hmeta : ∀ t ∈ metaSectors d₂ s .file, d' t = d₂ t := fun t ht =>
    hout t (List.mem_append_left _ ht)
  have howned' : ownedSectors d' s .file = s :: (hdr.indexSectors ++ hdr.blockSectors d₁) :=
    (ownedSectors_congr hmeta).trans howned
  have hheader' : headerAt d' s = hdr :=
    (headerAt_congr (hmeta s (mem_metaSectors_self d₂ s .file))).trans hheader
  refine ⟨s,d',hcreate,⟨hfound,hnode.congr hmeta,fun t ht => ?_,?_,ag,htable,
    fun h => absurd h (by decide)⟩,by rw [hheader']; exact hbytes,by rw [hheader']; exact hblocks,
    fun t ht => ?_⟩
  · change t ∈ ownedSectors d' s .file at ht
    rw [howned'] at ht
    exact (hall.2 t ht).2
  · change _ = _ ∪ (ownedSectors d' s .file).toFinset
    rw [hmap, howned']
  · have ht₂ : t ∈ dataSectors d₂ s .file := dataSectors_congr hmeta ▸ ht
    have hts : t ≠ s := by
      rintro rfl
      exact hnode.not_mem_data (mem_metaSectors_self d₂ t .file) ht₂
    rw [hout t (List.mem_append_right _ ht₂), hd₂ t hts]
    refine hd₁ t fun hi => hnode.not_mem_data (t := t) ?_ ht₂
    rw [metaSectors, hheader]
    exact List.mem_cons_of_mem s hi

theorem Coherent.create_ok (c : Coherent S fs o cur) (heap : Heap) {i : Fin numDirEntries} {n : ℕ}
    (hname : fs.currentDir.findIndex name = none) (hslot : fs.currentDir.freeIndex = some i)
    (hn : (FileHeader.sectorsFor S size).toInt = n) (hindex : indexCount n ≤ numDirect)
    (hroom : ((n + indexCount n + 1 : ℕ) : ℤ) ≤ (storedMap S fs.disk).numClear) :
    ∃ s fs', fs.create S heap name size = .ok (true,fs') ∧
      Entered S fs fs' o cur i name false s ∧ (headerAt fs'.disk s).numBytes = size ∧
      (headerAt fs'.disk s).blocks = n ∧
      ∀ t ∈ dataSectors fs'.disk s .file, fs'.disk t = fs.disk t := by
  obtain ⟨s,d',hcreate,hplaced,hfile⟩ := c.create_eq heap hname hslot hn hindex hroom
  exact ⟨s,_,hcreate,c.enter hslot hplaced,hfile⟩

end Create

section Directories
variable {S : Support} {fs : FileSystem} {o : Owner} {cur : ℕ} {name : List Byte}

theorem Coherent.createDirectory_refused (c : Coherent S fs o cur) (heap : Heap)
    {i : Fin numDirEntries} (h : fs.currentDir.findIndex name = some i) :
    fs.createDirectory S heap name = .ok (-2,fs) := by
  have hf : fs.currentDir.find name ≠ -1 := fun he => by
    rw [c.find_eq_neg_one.mp he] at h
    cases h
  rw [FileSystem.createDirectory, if_pos hf]
  rfl

theorem Coherent.createDirectory_full (c : Coherent S fs o cur) (heap : Heap)
    (hname : fs.currentDir.findIndex name = none)
    (hfull : (storedMap S fs.disk).numClear ≤ 0 ∨ fs.currentDir.freeIndex = none) :
    fs.createDirectory S heap name = .ok (-1,fs) := by
  have hne : ¬ (fs.currentDir.find name ≠ -1) := not_not.mpr (c.find_eq_neg_one.mpr hname)
  rw [FileSystem.createDirectory, if_neg hne, c.fetchMap, Outcome.ok_bind]
  by_cases hm : (storedMap S fs.disk).numClear ≤ 0
  · rw [BitMap.find_none hm]
    rfl
  · obtain ⟨s,-,hfind,hs,-⟩ := BitMap.find_eq (S := S) (m := storedMap S fs.disk) (by omega)
    have hslot := hfull.resolve_left hm
    simp only [hfind, if_neg (ofNat_ne_neg_one hs), Directory.addDirectory, hslot]
    rfl

theorem Anchored.createDirectory_eq (c : Anchored S fs o cur) (heap : Heap)
    {i : Fin numDirEntries} (hname : fs.currentDir.findIndex name = none)
    (hslot : fs.currentDir.freeIndex = some i) (hroom : 3 ≤ (storedMap S fs.disk).numClear) :
    ∃ s d', fs.createDirectory S heap name =
        .ok (0,⟨d',fs.freeMapFile,fs.currentDir.withEntry i name true s⟩) ∧
      Placed S fs d' o cur i name true s := by
  obtain ⟨hi,-⟩ := Directory.freeIndex_some hslot
  obtain ⟨s,hfound,hfind,hs,hsm⟩ := BitMap.find_eq (S := S) (m := storedMap S fs.disk) (by omega)
  have hclear := BitMap.numClear_insert hs hsm
  obtain ⟨l,hdr,halloc,hfresh,hbytes,hblocks,hl⟩ := FileHeader.allocateDirectory_eq S heap.hdr
    (insert s (storedMap S fs.disk)) directoryFileSize (by decide) (by decide)
    (by rw [hclear]; change (2 : ℤ) ≤ _; omega)
  subst hl
  have hall := FreshIn.cons hs hsm hfresh
  obtain ⟨howned,hnode⟩ := NodeOk.of_direct fs.disk .directory (by decide) hall.1
    (fun t ht => (hall.2 t ht).1) ⟨by rw [FileHeader.fileLength, hbytes]; decide,by
      rw [hblocks]; decide⟩
  have hd₂ : ∀ t, t ≠ s → Function.update fs.disk s hdr.toSector t = fs.disk t := fun t ht =>
    Function.update_of_ne ht _ _
  generalize hupd : Function.update fs.disk s hdr.toSector = d₂ at howned hnode hd₂
  have hmarked : ∀ t ∈ storedMap S fs.disk, d₂ t = fs.disk t := fun t ht =>
    hd₂ t fun h => hsm (h ▸ ht)
  have hfreshOwned : ∀ t ∈ ownedSectors d₂ s .directory, t ∉ storedMap S fs.disk := by
    intro t ht
    rw [howned] at ht
    exact (hall.2 t ht).2
  obtain ⟨dir,hdir⟩ : ∃ dir, dir = fs.currentDir.withEntry i name true s := ⟨_,rfl⟩
  obtain ⟨d₃,hw₃,htable,hout₃,ag₃⟩ := c.writeTable (c.agrees_fresh hmarked) heap.dirBuffer dir
    (f := ⟨headerAt fs.disk cur,0⟩) rfl
  have hnew₃ : ∀ t ∈ ownedSectors d₂ s .directory, d₃ t = d₂ t := fun t ht =>
    hout₃ t fun h => hfreshOwned t ht (c.disk.marked c.held (List.mem_append_right _ h))
  have hhome : dir.getSector = fs.currentDir.getSector := by
    rw [hdir]
    exact getSector_withEntry fs.currentDir hi name true s
  obtain ⟨newDir,hnewDir⟩ : ∃ newDir, newDir = Directory.fresh heap.table (BitVec.ofNat 32 s)
    (dir.getTableAt Directory.currentDirectoryIndex).sector := ⟨_,rfl⟩
  have hnode₃ := hnode.congr fun t ht => hnew₃ t (List.mem_append_left _ ht)
  have hheader₃ := headerAt_congr (hnew₃ s (mem_ownedSectors_self d₂ s .directory))
  obtain ⟨d₄,hw₄,htable₄,hout₄⟩ := Directory.writeBack_eq (S := S) hnode₃ (f := ⟨headerAt d₃ s,0⟩)
    rfl heap.newDirBuffer newDir
  have hmarked₄ : ∀ t ∈ storedMap S fs.disk, d₄ t = d₃ t := by
    intro t ht
    refine hout₄ t fun h => hfreshOwned t (List.mem_append_right _ ?_) ht
    rw [hheader₃] at h
    exact h
  have ag₄ := ag₃.write_unmarked c.disk hmarked₄
  obtain ⟨d₅,hw₅,hmap,hout₅,ag₅⟩ := c.writeMap ag₄ heap.mapBuffer
    (m := insert s (storedMap S fs.disk) ∪ hdr.directSectors.toFinset) (by
      rw [insert_union_toFinset]
      exact hall.subset c.disk.inDisk)
  have hnew₅ : ∀ t, t ∉ storedMap S fs.disk → d₅ t = d₄ t := fun t ht =>
    hout₅ t fun h => ht (c.disk.marked .freeMap (List.mem_append_right _ h))
  have hself : d₅ s = d₂ s := by
    rw [hnew₅ s hsm, hout₄ s (hnode₃.self_not_mem (by decide)),
      hnew₃ s (mem_ownedSectors_self d₂ s .directory)]
  have hmeta : ∀ t ∈ metaSectors d₂ s .directory, d₅ t = d₂ t := by
    intro t ht
    rw [List.mem_singleton.mp ht]
    exact hself
  have howned₅ := ownedSectors_congr hmeta
  have htable₅ : directoryAt d₅ s = newDir := by
    rw [← htable₄]
    have hmeta₄ : ∀ t ∈ metaSectors d₂ s .directory, d₄ t = d₂ t := by
      intro t ht
      rw [← hnew₅ t (hfreshOwned t (List.mem_append_left _ ht))]
      exact hmeta t ht
    refine directoryAt_congr (hnode.congr hmeta₄) fun t ht => hnew₅ t (hfreshOwned t ?_)
    rw [ownedSectors_congr hmeta₄] at ht
    exact ht
  have hcur : directoryAt d₅ cur = dir := by
    rw [c.table_after_map ag₄ hout₅, ← htable]
    refine directoryAt_congr (ag₃.node c.disk c.held) fun t ht => hmarked₄ t ?_
    rw [ag₃.ownedSectors_eq c.held] at ht
    exact c.disk.marked c.held ht
  have hdots : newDir.Dots s cur := by
    have h := Directory.fresh_dots heap.table (BitVec.ofNat 32 s)
      (dir.getTableAt Directory.currentDirectoryIndex).sector
    have hp : (dir.getTableAt Directory.currentDirectoryIndex).sector.toNat = cur :=
      toNat_of_toInt (hhome.trans c.home)
    rw [ofNat_toNat_sector hs, hp, ← hnewDir] at h
    exact h
  rw [insert_union_toFinset, ← howned, ← howned₅] at hmap
  refine ⟨s,d₅,?_,⟨hfound,hnode.congr hmeta,?_,hmap,ag₅,hcur.trans hdir,fun _ => ?_⟩⟩
  · have hopen := c.openCurrent (c.agrees_fresh hmarked) hhome
    have hopenNew : OpenFile.new d₃ s = .ok ⟨headerAt d₃ s,0⟩ := by
      rw [OpenFile.new, FileHeader.fetchFrom, Disk.readRequest_natCast hs]
      rfl
    rw [Directory.withEntry] at hdir ⊢
    rw [FileSystem.createDirectory, if_neg (find_of_none hname)]
    simp only [c.fetchMap, Outcome.ok_bind, hfind, if_neg (ofNat_ne_neg_one hs),
      Directory.addDirectory_eq hslot, ← hdir, halloc, FileHeader.writeBack, ofNat_toInt_sector hs,
      Disk.writeRequest_natCast hs, hupd]
    rw [Directory.fresh] at hnewDir
    simp only [Bool.not_true, Bool.false_eq_true, if_false, hopen, Outcome.ok_bind, hw₃, hopenNew,
      ← hnewDir, hw₄, hw₅]
    rfl
  · intro t ht
    refine hfreshOwned t ?_
    rw [← howned₅]
    exact ht
  · rw [htable₅]
    refine ⟨hdots,fun j => ?_⟩
    rw [hnewDir]
    exact Directory.fresh_not_child heap.table _ _

theorem Coherent.createDirectory_ok (c : Coherent S fs o cur) (heap : Heap)
    {i : Fin numDirEntries} (hname : fs.currentDir.findIndex name = none)
    (hslot : fs.currentDir.freeIndex = some i) (hroom : 3 ≤ (storedMap S fs.disk).numClear) :
    ∃ s fs', fs.createDirectory S heap name = .ok (0,fs') ∧
      Entered S fs fs' o cur i name true s := by
  obtain ⟨s,d',hcreate,hplaced⟩ := c.createDirectory_eq heap hname hslot hroom
  exact ⟨s,_,hcreate,c.enter hslot hplaced⟩

theorem Coherent.changeDirectory_ok (c : Coherent S fs o cur) (heap : Heap)
    {i : Fin numDirEntries} (h : fs.currentDir.findIndex name = some i)
    (hdir : (fs.currentDir.getTableAt i).isDir = true) :
    ∃ o' s, s = (fs.currentDir.getTableAt i).sector.toNat ∧
      fs.changeDirectory S heap name = .ok (0,{ fs with currentDir := directoryAt fs.disk s }) ∧
      Coherent S { fs with currentDir := directoryAt fs.disk s } o' s := by
  have hi := (Directory.findIndex_some h).1
  obtain ⟨o',ho'⟩ := c.entry_live hi
  rw [DirectoryEntry.kind_directory hdir] at ho'
  refine ⟨o',_,rfl,?_,.of_synced c.disk c.mapHeader ho' rfl⟩
  have hfetch := Directory.fetchFrom_eq (S := S) (c.disk.node ho')
    (f := ⟨headerAt fs.disk (fs.currentDir.getTableAt i).sector.toNat,0⟩) rfl
    (Directory.new heap.table)
  unfold FileSystem.changeDirectory
  rw [h]
  simp only [c.entry_toInt hi, c.openNode ho', Outcome.ok_bind, hfetch]
  rfl

/-- A directory with an entry keeps `RemoveDirectory` from removing anything: the table
it looks for entries in is the current one. -/
theorem Coherent.removeDirectory_refused (c : Coherent S fs o cur) (heap : Heap)
    {i : Fin numDirEntries} (h : fs.currentDir.findIndex name = some i)
    (hfull : fs.currentDir.isEmpty = false) :
    fs.removeDirectory S heap name = .ok (-1,fs) := by
  have hi := (Directory.findIndex_some h).1
  obtain ⟨o',ho'⟩ := c.entry_live hi
  have hfetch := Directory.fetchFrom_eq (S := S) (c.disk.node c.held)
    (f := ⟨headerAt fs.disk cur,0⟩) rfl (Directory.new heap.table)
  have hhdr : FileHeader.fetchFrom fs.disk ((fs.currentDir.getTableAt i).sector.toNat : ℕ) =
      .ok (headerAt fs.disk (fs.currentDir.getTableAt i).sector.toNat) := by
    rw [FileHeader.fetchFrom, Disk.readRequest_natCast (c.disk.node ho').self_lt]
    rfl
  unfold FileSystem.removeDirectory
  rw [h]
  simp only [c.entry_toInt hi, hhdr, Outcome.ok_bind, c.home, c.openNode c.held, hfetch,
    ← c.synced, hfull]
  rfl

theorem isEmpty_of_child {dir : Directory} {i : Fin numDirEntries} (h : dir.Child i) :
    dir.isEmpty = false := by
  rw [Directory.isEmpty, List.all_eq_false]
  refine ⟨i,List.mem_finRange i,?_⟩
  have h2 : ¬ i.val < 2 := Nat.not_lt.mpr h.1
  simp [h2, h.2]

end Directories

section Files
variable {S : Support} {fs : FileSystem} {o : Owner} {cur : ℕ} {name : List Byte}

theorem Coherent.openFile_none (c : Coherent S fs o cur) (heap : Heap)
    (h : fs.currentDir.findIndex name = none) : fs.openFile S heap name = .ok none := by
  have hfetch := Directory.fetchFrom_eq (S := S) (c.disk.node c.held)
    (f := ⟨headerAt fs.disk cur,0⟩) rfl (Directory.new heap.table)
  rw [FileSystem.openFile, c.home, c.openNode c.held, Outcome.ok_bind, hfetch,
    ← c.synced, Outcome.ok_bind, c.find_eq_neg_one.mpr h]
  rfl

theorem Coherent.openFile_some (c : Coherent S fs o cur) (heap : Heap) {i : Fin numDirEntries}
    (h : fs.currentDir.findIndex name = some i) :
    fs.openFile S heap name =
      .ok (some ⟨headerAt fs.disk (fs.currentDir.getTableAt i).sector.toNat,0⟩) := by
  obtain ⟨o',ho'⟩ := c.entry_live (Directory.findIndex_some h).1
  have hfetch := Directory.fetchFrom_eq (S := S) (c.disk.node c.held)
    (f := ⟨headerAt fs.disk cur,0⟩) rfl (Directory.new heap.table)
  rw [FileSystem.openFile, c.home, c.openNode c.held, Outcome.ok_bind, hfetch,
    ← c.synced, Outcome.ok_bind, c.find_of_index h]
  simp only [if_pos (Int.natCast_nonneg _), c.openNode ho']
  rfl

theorem Coherent.remove_absent (c : Coherent S fs o cur) (heap : Heap)
    (h : fs.currentDir.findIndex name = none) : fs.remove S heap name = .ok (false,fs) := by
  rw [FileSystem.remove, if_pos (c.find_eq_neg_one.mpr h)]
  rfl

theorem Coherent.remove_eq (c : Coherent S fs o cur) (heap : Heap) {i : Fin numDirEntries} {s : ℕ}
    (h : fs.currentDir.findIndex name = some i)
    (hs : (fs.currentDir.getTableAt i).sector.toNat = s) :
    ∃ d', fs.remove S heap name =
        .ok (true,⟨d',fs.freeMapFile,fs.currentDir.setInUseOfIndex i false⟩) ∧
      Agrees fs.disk d' (TouchesTable o) ∧
      directoryAt d' cur = fs.currentDir.setInUseOfIndex i false ∧
      storedMap S d' =
        storedMap S fs.disk \ insert s (headerAt fs.disk s).indexSectors.toFinset := by
  obtain ⟨o',hheld⟩ := c.entry_live (Directory.findIndex_some h).1
  rw [hs] at hheld
  have hnode := c.disk.node hheld
  obtain ⟨hindex,hsub⟩ := FileHeader.index_owned hnode
  have hfetch : FileHeader.fetchFrom fs.disk (s : ℕ) = .ok (headerAt fs.disk s) := by
    rw [FileHeader.fetchFrom, Disk.readRequest_natCast hnode.self_lt]
    rfl
  have hdealloc := FileHeader.deallocate_eq S fs.disk (storedMap S fs.disk) hindex
    fun t ht => hnode.inDisk t (hsub t ht)
  have hag : Agrees fs.disk fs.disk (TouchesTable o) := c.agrees_fresh fun _ _ => rfl
  obtain ⟨d₁,hw₁,hmap,hout₁,ag₁⟩ := c.writeMap hag heap.mapBuffer
    (m := (storedMap S fs.disk \ (headerAt fs.disk s).indexSectors.toFinset).erase s)
    ((Finset.erase_subset _ _).trans (Finset.sdiff_subset.trans c.disk.inDisk))
  obtain ⟨d₂,hw₂,htable,hout₂,ag₂⟩ := c.writeTable ag₁ heap.dirBuffer
    (fs.currentDir.setInUseOfIndex i false) (f := ⟨headerAt fs.disk cur,0⟩) rfl
  refine ⟨d₂,?_,ag₂,htable,?_⟩
  · have hfind : fs.currentDir.find name = s := by rw [c.find_of_index h, hs]
    have hopen := c.openCurrent hag (getSector_setInUse fs.currentDir i false)
    rw [FileSystem.remove, hfind, if_neg (by omega)]
    simp only [hfetch, Outcome.ok_bind, c.fetchMap, hdealloc, BitMap.clear_natCast hnode.self_lt,
      Directory.remove, h]
    change OpenFile.new fs.disk (fs.currentDir.setInUseOfIndex i false).getSector >>= _ = _
    rw [hopen, Outcome.ok_bind, hw₁, Outcome.ok_bind, hw₂]
    rfl
  · rw [c.map_after_table ag₁ hout₂, hmap, Finset.sdiff_insert]

theorem freed_owned {d : Disk} {s : ℕ} {kind : NodeKind} (hn : NodeOk d s kind)
    (hheld : Holds d o s kind) :
    ∀ t ∈ insert s (headerAt d s).indexSectors.toFinset, t ∈ owned d o := by
  intro t ht
  rcases Finset.mem_insert.mp ht with rfl | ht
  · exact ⟨t,kind,hheld,mem_ownedSectors_self d t kind⟩
  · exact ⟨s,kind,hheld,(FileHeader.index_owned hn).2 t (List.mem_toFinset.mp ht)⟩

/-- Removing an entry behind `.` and `..` leaves the rest as it was. -/
theorem Coherent.remove_ok (c : Coherent S fs o cur) (heap : Heap) {i : Fin numDirEntries} {s : ℕ}
    (h : fs.currentDir.findIndex name = some i) (hi : 2 ≤ i.val)
    (hs : (fs.currentDir.getTableAt i).sector.toNat = s) :
    ∃ d' o', fs.remove S heap name =
        .ok (true,⟨d',fs.freeMapFile,fs.currentDir.setInUseOfIndex i false⟩) ∧
      Coherent S ⟨d',fs.freeMapFile,fs.currentDir.setInUseOfIndex i false⟩ o' cur ∧
      Dropped fs d' o cur i ∧ storedMap S d' =
        storedMap S fs.disk \ insert s (headerAt fs.disk s).indexSectors.toFinset := by
  obtain ⟨d',hremove,ag,htable,hmap⟩ := c.remove_eq heap h hs
  have hchild : fs.currentDir.Child i := ⟨hi,(Directory.findIndex_some h).1⟩
  have hheld : Holds fs.disk (.entry cur i) s (fs.currentDir.getTableAt i).kind := by
    rw [c.synced] at hchild hs ⊢
    exact .entry c.held hchild hs rfl
  obtain ⟨o',c'⟩ := c.drop hchild (freed_owned (c.disk.node hheld) hheld) ⟨ag,htable⟩ hmap
  exact ⟨d',o',hremove,c',⟨ag,htable⟩,hmap⟩

end Files

end Nachos
