import Nachos.FileSys.Tree
import Nachos.FileSys.Allocation

/-! # The file system between two calls

Memory and disk agree: the current directory is a live directory's table, the
open free map file has the header that is on disk, and the disk is well formed.
A new node is entered, and an entry dropped, by lemmas that do not look at the
operation that does it.
-/
namespace Nachos
open FileSystem (freeMapSector rootSector)

/-- The disk is well formed and the current directory, whatever its table, is the one of
`o`, with its header in sector `cur`. -/
structure Anchored (S : Support) (fs : FileSystem) (o : Owner) (cur : ℕ) : Prop where
  disk : WellFormed S fs.disk
  mapHeader : fs.freeMapFile.hdr = headerAt fs.disk freeMapSector
  held : Holds fs.disk o cur .directory
  home : fs.currentDir.getSector = cur

/-- Moreover the table in memory is the one on disk. -/
structure Coherent (S : Support) (fs : FileSystem) (o : Owner) (cur : ℕ) : Prop
    extends Anchored S fs o cur where
  synced : fs.currentDir = directoryAt fs.disk cur

theorem Directory.Dots.getSector_eq {dir : Directory} {s p : ℕ} (h : dir.Dots s p)
    (hs : s < diskSectors) : dir.getSector = s := by
  have hd := h.current.sector
  rw [getSector, toInt_of_lt (by omega), hd]

namespace Anchored
variable {S : Support} {fs : FileSystem} {o : Owner} {cur : ℕ}

theorem openNode (c : Anchored S fs o cur) {o' : Owner} {s : ℕ} {kind : NodeKind}
    (h : Holds fs.disk o' s kind) : OpenFile.new fs.disk s = .ok ⟨headerAt fs.disk s,0⟩ := by
  rw [OpenFile.new, FileHeader.fetchFrom, Disk.readRequest_natCast (c.disk.node h).self_lt]
  rfl

theorem fetchMap (c : Anchored S fs o cur) :
    BitMap.fetchFrom S fs.freeMapFile fs.disk = .ok (storedMap S fs.disk) :=
  BitMap.fetchFrom_eq (c.disk.node .freeMap) c.mapHeader

section Writes
variable {d₁ : Disk}

theorem writeTable (c : Anchored S fs o cur) (ag : Agrees fs.disk d₁ (TouchesTable o))
    (chars : ℕ → Byte) (dir : Directory) {f : OpenFile} (hf : f.hdr = headerAt fs.disk cur) :
    ∃ d₂, dir.writeBack S chars f d₁ = .ok d₂ ∧ directoryAt d₂ cur = dir ∧
      (∀ t, t ∉ dataSectors fs.disk cur .directory → d₂ t = d₁ t) ∧
      Agrees fs.disk d₂ (TouchesTable o) := by
  have hh := ag.headerAt_eq c.held
  obtain ⟨d₂,hw,hdir,hout⟩ := Directory.writeBack_eq (S := S) (ag.node c.disk c.held)
    (hf.trans hh.symm) chars dir
  rw [hh] at hout
  exact ⟨d₂,hw,hdir,hout,ag.write c.disk (.inl rfl) c.held hout⟩

theorem writeMap (c : Anchored S fs o cur) (ag : Agrees fs.disk d₁ (TouchesTable o))
    (chars : ℕ → Byte) {m : BitMap} (hm : m ⊆ Finset.range diskSectors) :
    ∃ d₂, m.writeBack S chars fs.freeMapFile d₁ = .ok d₂ ∧ storedMap S d₂ = m ∧
      (∀ t, t ∉ dataSectors fs.disk freeMapSector .freeMap → d₂ t = d₁ t) ∧
      Agrees fs.disk d₂ (TouchesTable o) := by
  have hh := ag.headerAt_eq .freeMap
  obtain ⟨d₂,hw,hmap,hout⟩ := BitMap.writeBack_eq (S := S) (ag.node c.disk .freeMap)
    (c.mapHeader.trans hh.symm) chars hm
  rw [hh] at hout
  exact ⟨d₂,hw,hmap,hout,ag.write c.disk (.inr rfl) .freeMap hout⟩

theorem table_after_map (c : Anchored S fs o cur) (ag : Agrees fs.disk d₁ (TouchesTable o))
    {d₂ : Disk} (hout : ∀ t, t ∉ dataSectors fs.disk freeMapSector .freeMap → d₂ t = d₁ t) :
    directoryAt d₂ cur = directoryAt d₁ cur := by
  refine directoryAt_congr (ag.node c.disk c.held) fun t ht => hout t fun ht' => ?_
  rw [ag.ownedSectors_eq c.held] at ht
  have he := c.disk.owner_eq c.held .freeMap ht (List.mem_append_right _ ht')
  have := (he ▸ c.held).unique .freeMap
  exact absurd this.2 (by decide)

theorem map_after_table (c : Anchored S fs o cur) (ag : Agrees fs.disk d₁ (TouchesTable o))
    {d₂ : Disk} (hout : ∀ t, t ∉ dataSectors fs.disk cur .directory → d₂ t = d₁ t) :
    storedMap S d₂ = storedMap S d₁ := by
  refine storedMap_congr (ag.node c.disk .freeMap) fun t ht => hout t fun ht' => ?_
  rw [ag.ownedSectors_eq .freeMap] at ht
  have he := c.disk.owner_eq .freeMap c.held ht (List.mem_append_right _ ht')
  have := (he ▸ Holds.freeMap).unique c.held
  exact absurd this.2 (by decide)

end Writes

end Anchored

namespace Coherent
variable {S : Support} {fs : FileSystem} {o : Owner} {cur : ℕ}

theorem of_synced (hwf : WellFormed S fs.disk)
    (hmap : fs.freeMapFile.hdr = headerAt fs.disk freeMapSector)
    (hheld : Holds fs.disk o cur .directory) (hsync : fs.currentDir = directoryAt fs.disk cur) :
    Coherent S fs o cur := by
  refine ⟨⟨hwf,hmap,hheld,?_⟩,hsync⟩
  rw [hsync]
  exact (hwf.dots hheld).getSector_eq (hwf.node hheld).self_lt

theorem dots (c : Coherent S fs o cur) : fs.currentDir.Dots cur o.parent :=
  c.synced ▸ c.disk.dots c.held

theorem entry_live (c : Coherent S fs o cur) {i : Fin numDirEntries}
    (hi : fs.currentDir.isInUseOfIndex i = true) :
    ∃ o', Holds fs.disk o' (fs.currentDir.getTableAt i).sector.toNat
      (fs.currentDir.getTableAt i).kind := by
  by_cases h2 : 2 ≤ i.val
  · rw [c.synced] at hi ⊢
    exact ⟨.entry cur i,.entry c.held ⟨h2,hi⟩ rfl rfl⟩
  rcases Directory.index_cases h2 with rfl | rfl
  · rw [c.dots.current.sector, DirectoryEntry.kind_directory c.dots.current.isDir]
    exact ⟨o,c.held⟩
  · rw [c.dots.parent.sector, DirectoryEntry.kind_directory c.dots.parent.isDir]
    cases c.held with
    | root => exact ⟨.root,.root⟩
    | entry hp _ _ _ => exact ⟨_,hp⟩

theorem entry_toInt (c : Coherent S fs o cur) {i : Fin numDirEntries}
    (hi : fs.currentDir.isInUseOfIndex i = true) :
    (fs.currentDir.getTableAt i).sector.toInt = (fs.currentDir.getTableAt i).sector.toNat := by
  obtain ⟨o',ho'⟩ := c.entry_live hi
  exact toInt_of_lt (c.disk.node ho').self_lt

theorem find_of_index (c : Coherent S fs o cur) {name : List Byte} {i : Fin numDirEntries}
    (hi : fs.currentDir.findIndex name = some i) :
    fs.currentDir.find name = (fs.currentDir.getTableAt i).sector.toNat := by
  rw [Directory.find, hi]
  exact c.entry_toInt (Directory.findIndex_some hi).1

theorem find_eq_neg_one (c : Coherent S fs o cur) {name : List Byte} :
    fs.currentDir.find name = -1 ↔ fs.currentDir.findIndex name = none := by
  cases h : fs.currentDir.findIndex name with
  | none => simp [Directory.find, h]
  | some i =>
    rw [c.find_of_index h]
    simp

end Coherent

theorem Coherent.overwrite {S : Support} {fs : FileSystem} {o : Owner} {cur : ℕ}
    (c : Coherent S fs o cur) {d : Disk} {touched : Owner → Prop} (ag : Agrees fs.disk d touched)
    (hfile : ∀ {o s kind}, touched o → Holds fs.disk o s kind → kind = .file) :
    Coherent S { fs with disk := d } o cur ∧ storedMap S d = storedMap S fs.disk := by
  have hdir : ∀ {o s}, Holds fs.disk o s .directory → ¬ touched o := fun ho ht =>
    absurd (hfile ht ho) (by decide)
  obtain ⟨hwf,hmap⟩ := c.disk.overwrite ag hfile
  refine ⟨.of_synced hwf (c.mapHeader.trans (ag.headerAt_eq .freeMap).symm)
    ((ag.holds_iff c.disk hdir).mpr c.held) ?_,hmap⟩
  exact c.synced.trans (ag.directoryAt_eq c.disk c.held (hdir c.held)).symm

/-- What a call that makes a node in sector `s` has left on the disk `d'`. -/
structure Placed (S : Support) (fs : FileSystem) (d' : Disk) (o : Owner) (cur : ℕ)
    (i : Fin numDirEntries) (name : List Byte) (isDir : Bool) (s : ℕ) : Prop where
  found : S.findClear (storedMap S fs.disk) = some s
  node : NodeOk d' s (.ofIsDir isDir)
  fresh : ∀ t ∈ ownedSectors d' s (.ofIsDir isDir), t ∉ storedMap S fs.disk
  map : storedMap S d' = storedMap S fs.disk ∪ (ownedSectors d' s (.ofIsDir isDir)).toFinset
  agrees : Agrees fs.disk d' (TouchesTable o)
  table : directoryAt d' cur = fs.currentDir.withEntry i name isDir s
  empty : isDir = true → (directoryAt d' s).Dots s cur ∧ ∀ j, ¬ (directoryAt d' s).Child j

/-- The state a call reaches that has entered a node in slot `i`. -/
structure Entered (S : Support) (fs fs' : FileSystem) (o : Owner) (cur : ℕ)
    (i : Fin numDirEntries) (name : List Byte) (isDir : Bool) (s : ℕ) : Prop where
  placed : Placed S fs fs'.disk o cur i name isDir s
  coherent : Coherent S fs' o cur
  holds : Holds fs'.disk (.entry cur i) s (.ofIsDir isDir)
  keeps : ∀ {o' s' kind}, Holds fs.disk o' s' kind → Holds fs'.disk o' s' kind
  mapFile : fs'.freeMapFile = fs.freeMapFile
  table : fs'.currentDir = fs.currentDir.withEntry i name isDir s

section Enter
variable {S : Support} {fs : FileSystem} {o : Owner} {cur : ℕ}

theorem Placed.numClear {d' : Disk} {i : Fin numDirEntries} {name : List Byte} {isDir : Bool}
    {s : ℕ} (p : Placed S fs d' o cur i name isDir s) : (storedMap S d').numClear =
      (storedMap S fs.disk).numClear - (ownedSectors d' s (.ofIsDir isDir)).length := by
  have hfresh : FreshIn (storedMap S fs.disk) (ownedSectors d' s (.ofIsDir isDir)) :=
    ⟨p.node.nodup,fun t ht => ⟨p.node.inDisk t ht,p.fresh t ht⟩⟩
  rw [p.map, hfresh.numClear_union]

theorem Placed.entry_eq {d' : Disk} {i : Fin numDirEntries} {name : List Byte} {isDir : Bool}
    {s : ℕ} (p : Placed S fs d' o cur i name isDir s) :
    (directoryAt d' cur).getTableAt i =
      Directory.fillEntry (fs.currentDir.getTableAt i) name isDir (BitVec.ofNat 32 s) := by
  rw [p.table, Directory.withEntry, Directory.getTableAt_setTableAt, if_pos rfl]

theorem Placed.entry_node {d' : Disk} {i : Fin numDirEntries} {name : List Byte} {isDir : Bool}
    {s : ℕ} (p : Placed S fs d' o cur i name isDir s) :
    ((directoryAt d' cur).getTableAt i).sector.toNat = s ∧
      ((directoryAt d' cur).getTableAt i).kind = .ofIsDir isDir := by
  rw [p.entry_eq]
  refine ⟨?_,by rw [DirectoryEntry.kind, Directory.isDir_fillEntry]⟩
  rw [Directory.sector_fillEntry]
  exact ofNat_toNat_sector p.node.self_lt

theorem NodeKind.ofIsDir_directory {isDir : Bool} (h : NodeKind.ofIsDir isDir = .directory) :
    isDir = true := by
  cases isDir <;> simp [NodeKind.ofIsDir] at h ⊢

theorem Coherent.placed_slotUpdate (c : Coherent S fs o cur) {i : Fin numDirEntries}
    {name : List Byte} {s : ℕ} {isDir : Bool} {d' : Disk}
    (p : Placed S fs d' o cur i name isDir s) : SlotUpdate fs.disk d' cur i := by
  obtain ⟨hn,hk⟩ := p.entry_node
  refine .of_agrees c.disk c.held p.agrees (fun j hj => ?_) fun _ hkind j => ?_
  · rw [p.table, Directory.withEntry, Directory.getTableAt_setTableAt, if_neg hj, c.synced]
  · rw [hk] at hkind
    rw [hn]
    exact (p.empty (NodeKind.ofIsDir_directory hkind)).2 j

theorem Coherent.enter (c : Coherent S fs o cur) {i : Fin numDirEntries} {name : List Byte}
    {s : ℕ} {isDir : Bool} {d' : Disk} (hfree : fs.currentDir.freeIndex = some i)
    (p : Placed S fs d' o cur i name isDir s) :
    Entered S fs ⟨d',fs.freeMapFile,fs.currentDir.withEntry i name isDir s⟩ o cur i name isDir
      s := by
  obtain ⟨hi,hunused⟩ := Directory.freeIndex_some hfree
  obtain ⟨hn,hk⟩ := p.entry_node
  have hchild : (directoryAt d' cur).Child i := by
    refine ⟨hi,?_⟩
    rw [Directory.isInUseOfIndex, p.entry_eq]
    exact Directory.inUse_fillEntry _ _ _ _
  have u := c.placed_slotUpdate p
  have hnot : ¬ (directoryAt fs.disk cur).Child i := fun hc => by
    rw [← c.synced] at hc
    rw [hc.2] at hunused
    exact absurd hunused (by decide)
  have hwf : WellFormed S d' := c.disk.extend p.agrees u hnot hi hn hk p.node p.fresh p.map
    fun hd => (p.empty (NodeKind.ofIsDir_directory hd)).1
  have hheld : Holds d' o cur .directory := u.holds_to hnot c.held
  have hmapHeader : fs.freeMapFile.hdr = headerAt d' freeMapSector :=
    c.mapHeader.trans (p.agrees.headerAt_eq .freeMap).symm
  exact ⟨p,.of_synced hwf hmapHeader hheld p.table.symm,.entry hheld hchild hn hk,
    fun h => u.holds_to hnot h,rfl,rfl⟩

theorem Entered.findIndex {fs' : FileSystem} {i : Fin numDirEntries}
    {name : List Byte} {isDir : Bool} {s : ℕ} (e : Entered S fs fs' o cur i name isDir s)
    (hname : fs.currentDir.findIndex name = none) :
    fs'.currentDir.findIndex name = some i := by
  rw [e.table]
  exact Directory.findIndex_withEntry hname

theorem Entered.sector {fs' : FileSystem} {i : Fin numDirEntries}
    {name : List Byte} {isDir : Bool} {s : ℕ} (e : Entered S fs fs' o cur i name isDir s) :
    (fs'.currentDir.getTableAt i).sector.toNat = s := by
  rw [e.table, Directory.getTableAt_withEntry, if_pos rfl, Directory.sector_fillEntry]
  exact ofNat_toNat_sector e.placed.node.self_lt

/-- The entry in slot `i` is no longer in use on the disk `d'`. -/
structure Dropped (fs : FileSystem) (d' : Disk) (o : Owner) (cur : ℕ) (i : Fin numDirEntries) :
    Prop where
  agrees : Agrees fs.disk d' (TouchesTable o)
  table : directoryAt d' cur = fs.currentDir.setInUseOfIndex i false

theorem Dropped.gone {d' : Disk} {i : Fin numDirEntries} (p : Dropped fs d' o cur i) :
    ¬ (directoryAt d' cur).Child i := by
  rintro ⟨-,hu⟩
  rw [p.table, Directory.isInUseOfIndex, Directory.setInUseOfIndex,
    Directory.getTableAt_setTableAt, if_pos rfl, DirectoryEntry.inUse_setInUse] at hu
  exact absurd hu (by decide)

theorem Coherent.dropped_slotUpdate (c : Coherent S fs o cur) {i : Fin numDirEntries} {d' : Disk}
    (p : Dropped fs d' o cur i) : SlotUpdate fs.disk d' cur i := by
  refine .of_agrees c.disk c.held p.agrees (fun j hj => ?_) fun hc _ => absurd hc p.gone
  rw [p.table, Directory.setInUseOfIndex, Directory.getTableAt_setTableAt, if_neg hj, c.synced]

/-- The entry in slot `i` is dropped, with some of the sectors of its node. -/
theorem Coherent.drop (c : Coherent S fs o cur) {i : Fin numDirEntries} {d' : Disk}
    {freed : Finset ℕ} (hchild : fs.currentDir.Child i)
    (hfreed : ∀ t ∈ freed, t ∈ owned fs.disk (.entry cur i)) (p : Dropped fs d' o cur i)
    (hmap : storedMap S d' = storedMap S fs.disk \ freed) :
    ∃ o', Coherent S ⟨d',fs.freeMapFile,fs.currentDir.setInUseOfIndex i false⟩ o' cur := by
  have u := c.dropped_slotUpdate p
  obtain ⟨o',ho'⟩ := u.holds_cur c.held
  exact ⟨o',.of_synced (c.disk.shrink p.agrees u hchild.1 p.gone hfreed hmap)
    (c.mapHeader.trans (p.agrees.headerAt_eq .freeMap).symm) ho' p.table.symm⟩

end Enter

end Nachos
