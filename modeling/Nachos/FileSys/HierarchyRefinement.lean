import Nachos.FileSys.DirectoryTree
import Nachos.FileSys.Hierarchy
import Nachos.FileSys.Mount
import Nachos.FileSys.NamedFile
import Nachos.FileSys.Paths

/-! # The file system refines a hierarchy

Every answer is the one that the tree gives, on any sequence of calls in any of its directories,
with transfers and new starts of the system in between.
-/
namespace Nachos
open FileSystem (freeMapSector rootSector)

namespace FileSystem
variable (S : Support) (heap : Heap) (chars : ℕ → Byte) (fs : FileSystem)

/-- The header sector of a new file is the one that is found under its name. -/
def answer : FileCall → Outcome (FileAnswer × FileSystem)
  | .call (.create name initialSize) => do
    let (b,fs') ← fs.create S heap name initialSize
    let contents := fileContents fs'.disk (fs'.currentDir.find name).toNat
    return (.created (if b then some contents else none),fs')
  | .call (.openFile name) => do
    let file ← fs.openFile S heap name
    return (.opened file.isSome,fs)
  | .call (.remove name) => do
    let (b,fs') ← fs.remove S heap name
    return (.removed b,fs')
  | .call (.createDirectory name) => do
    let (n,fs') ← fs.createDirectory S heap name
    return (.code n,fs')
  | .call (.removeDirectory name) => do
    let (n,fs') ← fs.removeDirectory S heap name
    return (.code n,fs')
  | .call (.changeDirectory name) => do
    let (n,fs') ← fs.changeDirectory S heap name
    return (.code n,fs')
  | .read name position numBytes => do
    match ← fs.openFile S heap name with
    | none => return (.opened false,fs)
    | some file =>
      let (count,into) ← file.readAt S fs.disk numBytes position 1
      return (.bytes count into,fs)
  | .write name position src numBytes => do
    match ← fs.openFile S heap name with
    | none => return (.opened false,fs)
    | some file =>
      let (count,disk) ← file.writeAt S chars fs.disk src numBytes position 1
      return (.written count,{ fs with disk := disk })
  | .mount => do
    let fs' ← FileSystem.mount S heap fs.disk
    return (.mounted,fs')

end FileSystem

def fileSystems (S : Support) : TransitionSystem FileSystem (FileCall × FileAnswer) where
  init fs := ∃ heap disk, FileSystem.format S heap disk = .ok fs
  step fs l fs' := ∃ heap chars, fs.answer S heap chars l.1 = .ok (l.2,fs')

/-- The calls behave, the size of a new file is not negative, and transfers go to files. -/
def Allowed (S : Support) (fs : FileSystem) : FileCall → Prop
  | .call (.create name initialSize) =>
      0 ≤ initialSize.toInt ∧ Behaved S fs (.create name initialSize)
  | .call c => Behaved S fs c
  | .read name position numBytes =>
      (∀ i, fs.currentDir.findIndex name = some i → fs.currentDir.isDirOfIndex i = false) ∧
      IsInt (position + numBytes)
  | .write name position src numBytes =>
      (∀ i, fs.currentDir.findIndex name = some i → fs.currentDir.isDirOfIndex i = false) ∧
      IsInt (position + numBytes) ∧ numBytes ≤ src.length
  | .mount => True

def Stores (d : Disk) (s : ℕ) : NodeKind → Node → Prop
  | .directory, .directory => True
  | .file, .file c => c = fileContents d s ∧ (headerAt d s).blocks = sectorCount c.length
  | _, _ => False

/-- The tree is what is live on the disk. -/
structure Mirrors (S : Support) (fs : FileSystem) (h : Hierarchy) : Prop where
  coherent : ∃ o cur, Coherent S fs o cur ∧ Leads fs.disk h.cwd o cur .directory
  distinct : AllDistinct fs.disk
  stores : ∀ {p o s kind}, Leads fs.disk p o s kind →
    ∃ n, h.tree.node p = some n ∧ Stores fs.disk s kind n
  leads : ∀ {p n}, h.tree.node p = some n → ∃ o s kind, Leads fs.disk p o s kind
  free : (storedMap S fs.disk).numClear = h.free

section Stores
variable {S : Support} {d d' : Disk} {s : ℕ} {kind : NodeKind} {n : Node} {o oc : Owner} {cur : ℕ}

theorem Stores.directory_iff (h : Stores d s kind n) : n.IsDirectory ↔ kind = .directory := by
  cases kind <;> cases n <;> simp_all [Stores, Node.IsDirectory]

theorem Stores.file (h : Stores d s .file n) : n = .file (fileContents d s) ∧
    (headerAt d s).blocks = sectorCount (fileContents d s).length := by
  cases n with
  | directory => exact h.elim
  | file c =>
    obtain ⟨rfl,hb⟩ := h
    exact ⟨rfl,hb⟩

theorem Stores.congr (h : Stores d s kind n) (hh : headerAt d' s = headerAt d s)
    (hc : kind = .file → fileContents d' s = fileContents d s) : Stores d' s kind n := by
  cases kind with
  | freeMap => cases n <;> exact h.elim
  | directory => cases n <;> exact h
  | file =>
    cases n with
    | directory => exact h
    | file c => exact ⟨h.1.trans (hc rfl).symm,by rw [hh]; exact h.2⟩

theorem Agrees.fileContents_eq {touched : Owner → Prop} (ag : Agrees d d' touched)
    (h : Holds d o s .file) (hn : ¬ touched o) : fileContents d' s = fileContents d s := by
  refine fileContents_congr fun t ht => ?_
  rcases List.mem_append.mp ht with ht | ht
  · exact ag.layout h t ht
  · exact ag.data h hn t ht

theorem Agrees.stores (ag : Agrees d d' (TouchesTable oc)) (hc : Holds d oc cur .directory)
    (h : Holds d o s kind) (hs : Stores d s kind n) : Stores d' s kind n := by
  refine hs.congr (ag.headerAt_eq h) ?_
  rintro rfl
  refine ag.fileContents_eq h ?_
  rintro (rfl | rfl)
  · exact absurd (h.unique hc).2 (by decide)
  · cases h

theorem Stores.length_owned (h : Stores d s kind n) (hn : NodeOk d s kind) :
    (ownedSectors d s kind).length = n.sectors := by
  cases kind with
  | freeMap => cases n <;> exact h.elim
  | directory =>
    cases n with
    | directory => exact hn.length_owned_directory
    | file c => exact h.elim
  | file =>
    obtain ⟨rfl,hb⟩ := h.file
    rw [length_ownedSectors_file, hb, Node.sectors]

theorem Stores.freed (h : Stores d s kind n) (hn : NodeOk d s kind) :
    (s :: (headerAt d s).indexSectors).Nodup ∧
      (s :: (headerAt d s).indexSectors).length = n.returned := by
  have hlen : (s :: (headerAt d s).indexSectors).length =
      indexCount (headerAt d s).blocks + 1 := by
    simp [FileHeader.indexSectors]
  cases kind with
  | freeMap => cases n <;> exact h.elim
  | directory =>
    cases n with
    | file c => exact h.elim
    | directory =>
      have hb := hn.size.2
      rw [hb] at hlen
      refine ⟨?_,hlen.trans (by decide)⟩
      have hindex : (headerAt d s).indexSectors = [(headerAt d s).entry 0] := by
        rw [FileHeader.indexSectors, hb]
        rfl
      have hself := hn.self_not_mem (by decide)
      rw [hindex, List.nodup_cons]
      refine ⟨fun hmem => hself ?_,List.nodup_singleton _⟩
      have hentry := entry_mem_direct (h := headerAt d s) (k := 0) (by omega)
      rwa [← List.mem_singleton.mp hmem] at hentry
  | file =>
    obtain ⟨rfl,hb⟩ := h.file
    refine ⟨(List.nodup_append.mp hn.nodup).1,?_⟩
    rw [hlen, hb, Node.returned]
    omega

end Stores

namespace Mirrors
variable {S : Support} {fs : FileSystem} {h : Hierarchy} {o : Owner} {cur : ℕ} {name : List Byte}
  {i : Fin numDirEntries}

section Names
theorem findIndex_of_key {dir : Directory} {k : List Byte} (hk : fileKey name = k)
    (hself : fileKey k = k) : dir.findIndex name = dir.findIndex k :=
  Directory.findIndex_congr (hk.trans hself.symm)

theorem dotName_iff (c : Coherent S fs o cur) (hi : fs.currentDir.findIndex name = some i) :
    IsDotName name ↔ i.val < 2 := by
  have hd := c.dots
  have hn := Directory.findIndex_some hi
  constructor
  · rintro (hk | hk)
    · rw [findIndex_of_key hk rfl, hd.findIndex_dot] at hi
      cases hi
      decide
    · rw [findIndex_of_key hk rfl, hd.findIndex_dotDot] at hi
      cases hi
      decide
  · intro h2
    rcases Directory.index_cases (Nat.not_le.mpr h2) with rfl | rfl
    · exact .inl (hn.2.symm.trans hd.current.name)
    · exact .inr (hn.2.symm.trans hd.parent.name)

theorem leads_entry (c : Coherent S fs o cur) (hcur : Leads fs.disk h.cwd o cur .directory)
    (hi : fs.currentDir.findIndex name = some i) (h2 : 2 ≤ i.val) :
    Leads fs.disk (h.path name) (.entry cur i) (fs.currentDir.getTableAt i).sector.toNat
      (fs.currentDir.getTableAt i).kind := by
  have hn := Directory.findIndex_some hi
  rw [c.synced] at hn ⊢
  exact .entry hcur ⟨h2,hn.1⟩ hn.2 rfl rfl

theorem node_none (M : Mirrors S fs h) (c : Coherent S fs o cur)
    (hcur : Leads fs.disk h.cwd o cur .directory) (hi : fs.currentDir.findIndex name = none) :
    h.tree.node (h.path name) = none := by
  by_contra hne
  obtain ⟨n,hn⟩ := Option.ne_none_iff_exists'.mp hne
  obtain ⟨o',s,kind,hlead⟩ := M.leads hn
  obtain ⟨o₁,t,j,hparent,hchild,hname,-⟩ := hlead.parent
  obtain ⟨-,rfl,-⟩ := hcur.unique M.distinct hparent
  rw [← c.synced] at hchild hname
  exact Directory.findIndex_eq_none.mp hi j ⟨hchild.2,hname⟩

theorem found_iff (M : Mirrors S fs h) (c : Coherent S fs o cur)
    (hcur : Leads fs.disk h.cwd o cur .directory) :
    h.Found name ↔ ∃ i, fs.currentDir.findIndex name = some i := by
  cases hi : fs.currentDir.findIndex name with
  | none =>
    refine iff_of_false ?_ (by rintro ⟨i,hi'⟩; cases hi')
    rintro (hdot | hne)
    · have hd := c.dots
      rcases hdot with hk | hk
      · rw [findIndex_of_key hk rfl, hd.findIndex_dot] at hi
        cases hi
      · rw [findIndex_of_key hk rfl, hd.findIndex_dotDot] at hi
        cases hi
    · exact hne (M.node_none c hcur hi)
  | some i =>
    refine iff_of_true ?_ ⟨i,rfl⟩
    by_cases h2 : 2 ≤ i.val
    · obtain ⟨n,hn,-⟩ := M.stores (leads_entry c hcur hi h2)
      exact .inr (by rw [hn]; exact Option.some_ne_none n)
    · exact .inl ((dotName_iff c hi).mpr (Nat.not_le.mp h2))

theorem names_eq (M : Mirrors S fs h) (c : Coherent S fs o cur)
    (hcur : Leads fs.disk h.cwd o cur .directory) :
    h.tree.names h.cwd = fs.currentDir.children.image fs.currentDir.nameAt := by
  ext k
  simp only [Namespace.names, Set.mem_ofPred_eq, Finset.coe_image, Set.mem_image, Finset.mem_coe,
    Directory.mem_children]
  constructor
  · intro hne
    obtain ⟨n,hn⟩ := Option.ne_none_iff_exists'.mp hne
    obtain ⟨o',s,kind,hlead⟩ := M.leads hn
    obtain ⟨o₁,t,j,hparent,hchild,hname,-⟩ := hlead.parent
    obtain ⟨-,rfl,-⟩ := hcur.unique M.distinct hparent
    rw [← c.synced] at hchild hname
    exact ⟨j,hchild,hname⟩
  · rintro ⟨j,hchild,rfl⟩
    rw [c.synced] at hchild ⊢
    obtain ⟨n,hn,-⟩ := M.stores (.entry hcur hchild rfl rfl rfl)
    rw [hn]
    exact Option.some_ne_none n

theorem room_iff (M : Mirrors S fs h) (c : Coherent S fs o cur)
    (hcur : Leads fs.disk h.cwd o cur .directory) : (h.tree.names h.cwd).ncard < numDirEntries - 2 ↔
    fs.currentDir.freeIndex ≠ none := by
  have hdist := M.distinct hcur.holds
  rw [← c.synced] at hdist
  rw [M.names_eq c hcur, Set.ncard_coe_finset, hdist.card_names, Directory.card_children_lt]

theorem enters_iff (M : Mirrors S fs h) (c : Coherent S fs o cur)
    (hcur : Leads fs.disk h.cwd o cur .directory) : h.Enters name ↔ Nachos.Enters S fs name := by
  have hfound : h.Found name ↔ _ := M.found_iff c hcur
  rw [Hierarchy.Enters, Nachos.Enters, M.room_iff c hcur, M.free]
  constructor
  · rintro ⟨hdot,hnone,hroom,hfree⟩
    refine ⟨?_,hfree,hroom⟩
    cases hi : fs.currentDir.findIndex name with
    | none => rfl
    | some i =>
      rcases hfound.mpr ⟨i,hi⟩ with hd | hne
      · exact absurd hd hdot
      · exact absurd hnone hne
  · rintro ⟨hi,hfree,hroom⟩
    refine ⟨fun hdot => ?_,M.node_none c hcur hi,hroom,hfree⟩
    obtain ⟨i,hi'⟩ := hfound.mp (.inl hdot)
    rw [hi] at hi'
    cases hi'

end Names

section Updates
theorem entered (M : Mirrors S fs h) (c : Coherent S fs o cur)
    (hcur : Leads fs.disk h.cwd o cur .directory) {fs' : FileSystem} {isDir : Bool} {s : ℕ}
    {n : Node}
    (hname : fs.currentDir.findIndex name = none) (hslot : fs.currentDir.freeIndex = some i)
    (e : Entered S fs fs' o cur i name isDir s) (hn : h.tree.node (h.path name) = none)
    (hstores : Stores fs'.disk s (.ofIsDir isDir) n) : Mirrors S fs' (h.enter name n hn) := by
  obtain ⟨hi,hunused⟩ := Directory.freeIndex_some hslot
  have u := c.placed_slotUpdate e.placed
  obtain ⟨hsector,hkind⟩ := e.placed.entry_node
  have hfree : ¬ (directoryAt fs.disk cur).Child i := by
    rw [← c.synced]
    exact fun hc => Bool.false_ne_true (hunused.symm.trans hc.2)
  have hchild : (directoryAt fs'.disk cur).Child i := by
    refine ⟨hi,?_⟩
    rw [e.placed.table]
    exact Directory.inUse_withEntry
  have hkey : (directoryAt fs'.disk cur).nameAt i = fileKey name := by
    rw [e.placed.table, Directory.nameAt_withEntry, if_pos rfl]
    rfl
  have hleads : ∀ {p o' s' kind}, Leads fs'.disk p o' s' kind ↔ Leads fs.disk p o' s' kind ∨
      (p = h.cwd ++ [fileKey name] ∧ o' = .entry cur i ∧ s' = s ∧ kind = .ofIsDir isDir) :=
    u.leads_enter c.disk hcur hfree hchild hkey hsector hkind
  refine ⟨⟨o,cur,e.coherent,hleads.mpr (.inl hcur)⟩,?_,?_,?_,?_⟩
  · intro o' t ht
    rcases u.holds_of ht with hold | ⟨-,-,rfl,hdir⟩
    · by_cases htc : t = cur
      · subst htc
        have hdist := M.distinct hold
        rw [← c.synced] at hdist
        rw [e.placed.table]
        exact hdist.withEntry hname i isDir s
      · rw [u.table hold htc]
        exact M.distinct hold
    · rw [hkind] at hdir
      rw [hsector]
      obtain ⟨hdots,hempty⟩ := e.placed.empty (NodeKind.ofIsDir_directory hdir)
      exact hdots.distinct hempty
  · intro p o' t kind hlead
    rcases hleads.mp hlead with hold | ⟨rfl,-,rfl,rfl⟩
    · obtain ⟨m,hm,hst⟩ := M.stores hold
      have hne : p ≠ h.cwd ++ [fileKey name] := by
        rintro rfl
        exact Option.some_ne_none m (hm.symm.trans hn)
      refine ⟨m,?_,e.placed.agrees.stores c.held hold.holds hst⟩
      rw [Hierarchy.enter, Namespace.node_put, if_neg hne]
      exact hm
    · refine ⟨n,?_,hstores⟩
      rw [Hierarchy.enter, Namespace.node_put, if_pos rfl]
  · intro p m hm
    rw [Hierarchy.enter, Namespace.node_put] at hm
    split_ifs at hm with hp
    · exact ⟨_,_,_,hleads.mpr (.inr ⟨hp,rfl,rfl,rfl⟩)⟩
    · obtain ⟨o',t,kind,hlead⟩ := M.leads hm
      exact ⟨o',t,kind,hleads.mpr (.inl hlead)⟩
  · rw [e.placed.numClear, M.free, hstores.length_owned e.placed.node]
    rfl

theorem dropped (M : Mirrors S fs h) (c : Coherent S fs o cur)
    (hcur : Leads fs.disk h.cwd o cur .directory) {fs' : FileSystem} {o' : Owner} {n : Node}
    (hi : fs.currentDir.findIndex name = some i) (h2 : 2 ≤ i.val)
    (hn : h.tree.node (h.path name) = some n) (c' : Coherent S fs' o' cur)
    (p : Dropped fs fs'.disk o cur i)
    (hmap : storedMap S fs'.disk = storedMap S fs.disk \
      insert (fs.currentDir.getTableAt i).sector.toNat (headerAt fs.disk
        (fs.currentDir.getTableAt i).sector.toNat).indexSectors.toFinset) :
    Mirrors S fs' (h.remove name n) := by
  have u := c.dropped_slotUpdate p
  have hlead := leads_entry c hcur hi h2
  have hnamed := Directory.findIndex_some hi
  have hchild : (directoryAt fs.disk cur).Child i := by
    rw [← c.synced]
    exact ⟨h2,hnamed.1⟩
  have hkey : (directoryAt fs.disk cur).nameAt i = fileKey name := by
    rw [← c.synced]
    exact hnamed.2
  have hleads : ∀ {q o' s' kind}, Leads fs'.disk q o' s' kind ↔ Leads fs.disk q o' s' kind ∧
      ¬ h.cwd ++ [fileKey name] <+: q :=
    u.leads_drop c.disk M.distinct hcur hchild hkey p.gone
  have hcur' : Leads fs'.disk h.cwd o cur .directory :=
    hleads.mpr ⟨hcur,Namespace.not_prefix_self⟩
  obtain ⟨rfl,-⟩ := c'.disk.header_eq c'.held hcur'.holds
  refine ⟨⟨_,cur,c',hcur'⟩,?_,?_,?_,?_⟩
  · intro o₁ t ht
    rcases u.holds_of ht with hold | ⟨-,hc,-⟩
    · by_cases htc : t = cur
      · subst htc
        have hdist := M.distinct hold
        rw [← c.synced] at hdist
        rw [p.table]
        intro a b ha hb hab
        rw [Directory.nameAt_cleared, Directory.nameAt_cleared] at hab
        exact hdist a b ((Directory.inUse_cleared _ _ _).mp ha).2
          ((Directory.inUse_cleared _ _ _).mp hb).2 hab
      · rw [u.table hold htc]
        exact M.distinct hold
    · exact absurd hc p.gone
  · intro q o₁ t kind hl
    obtain ⟨hold,hnot⟩ := hleads.mp hl
    obtain ⟨m,hm,hst⟩ := M.stores hold
    refine ⟨m,?_,p.agrees.stores c.held hold.holds hst⟩
    rw [Hierarchy.remove, Namespace.node_prune, if_neg hnot]
    exact hm
  · intro q m hm
    rw [Hierarchy.remove, Namespace.node_prune] at hm
    split_ifs at hm with hq
    obtain ⟨o₁,t,kind,hl⟩ := M.leads hm
    exact ⟨o₁,t,kind,hleads.mpr ⟨hl,hq⟩⟩
  · generalize hs : (fs.currentDir.getTableAt i).sector.toNat = s at hlead hmap
    obtain ⟨m,hm,hst⟩ := M.stores hlead
    obtain rfl := Option.some.inj (hm.symm.trans hn)
    obtain ⟨hnodup,hlen⟩ := hst.freed (c.disk.node hlead.holds)
    have hsub : (s :: (headerAt fs.disk s).indexSectors).toFinset ⊆ storedMap S fs.disk := by
      intro t ht
      obtain ⟨s₁,kind₁,hheld,hmem⟩ := freed_owned (c.disk.node hlead.holds) hlead.holds t (by
        rwa [List.toFinset_cons] at ht)
      exact c.disk.marked hheld hmem
    rw [← List.toFinset_cons] at hmap
    have hfresh : FreshIn (storedMap S fs'.disk) (s :: (headerAt fs.disk s).indexSectors) := by
      refine ⟨hnodup,fun t ht =>
        ⟨Finset.mem_range.mp (c.disk.inDisk (hsub (by simpa using ht))),?_⟩⟩
      rw [hmap]
      exact fun hmem => (Finset.mem_sdiff.mp hmem).2 (by simpa using ht)
    have hcount := hfresh.numClear_union
    rw [hmap, Finset.sdiff_union_of_subset hsub, ← hmap, M.free, hlen] at hcount
    change _ = h.free + (m.returned : ℤ)
    omega

theorem moved (M : Mirrors S fs h) {dir : Directory} {p : List (List Byte)}
    (hp : h.tree.IsDirectory p) {o' : Owner}
    {s : ℕ} (c' : Coherent S { fs with currentDir := dir } o' s)
    (hlead : Leads fs.disk p o' s .directory) :
    Mirrors S { fs with currentDir := dir } (h.goTo p hp) :=
  ⟨⟨o',s,c',hlead⟩,M.distinct,M.stores,M.leads,M.free⟩

theorem directory_of_leads (M : Mirrors S fs h) {p : List (List Byte)} {o' : Owner} {s : ℕ}
    (hlead : Leads fs.disk p o' s .directory) : h.tree.IsDirectory p := by
  obtain ⟨n,hn,hst⟩ := M.stores hlead
  exact ⟨n,hn,hst.directory_iff.mpr rfl⟩

theorem overwritten (M : Mirrors S fs h) (c : Coherent S fs o cur)
    (hcur : Leads fs.disk h.cwd o cur .directory) {bytes bytes' : List Byte} {s : ℕ} {d : Disk}
    (hlead : Leads fs.disk (h.path name) (.entry cur i) s .file)
    (hn : h.tree.node (h.path name) = some (.file bytes))
    (hbytes : fileContents d s = bytes') (hlen : bytes'.length = bytes.length)
    (hout : ∀ t, t ∉ dataSectors fs.disk s .file → d t = fs.disk t) :
    Mirrors S { fs with disk := d } (h.store name hn bytes') := by
  have ag : Agrees fs.disk d (· = .entry cur i) :=
    Agrees.write c.disk (.refl _ _) rfl hlead.holds hout
  have hfile : ∀ {o₁ s₁ kind}, o₁ = Owner.entry cur i → Holds fs.disk o₁ s₁ kind → kind = .file :=
    fun ho hs => ((ho ▸ hs).unique hlead.holds).2
  have hdir : ∀ {o₁ s₁}, Holds fs.disk o₁ s₁ .directory → ¬ o₁ = .entry cur i := fun hs ho =>
    absurd (hfile ho hs) (by decide)
  obtain ⟨c',hmap⟩ := c.overwrite ag hfile
  have hleads : ∀ {q o₁ t kind}, Leads d q o₁ t kind ↔ Leads fs.disk q o₁ t kind :=
    ag.leads_iff c.disk hdir
  obtain ⟨n,hn',hst⟩ := M.stores hlead
  obtain rfl := Option.some.inj (hn'.symm.trans hn)
  refine ⟨⟨o,cur,c',hleads.mpr hcur⟩,?_,?_,?_,?_⟩
  · intro o₁ t ht
    have hold := (ag.holds_iff c.disk hdir).mp ht
    rw [ag.directoryAt_eq c.disk hold (hdir hold)]
    exact M.distinct hold
  · intro q o₁ t kind hl
    have hold := hleads.mp hl
    rw [Hierarchy.store, Namespace.node_put]
    split_ifs with hq
    · subst hq
      obtain ⟨rfl,rfl,rfl⟩ := hold.unique M.distinct hlead
      refine ⟨_,rfl,hbytes.symm,?_⟩
      rw [ag.headerAt_eq hlead.holds, hst.2, hlen]
    · obtain ⟨m,hm,hst'⟩ := M.stores hold
      refine ⟨m,hm,hst'.congr (ag.headerAt_eq hold.holds) ?_⟩
      rintro rfl
      refine ag.fileContents_eq hold.holds ?_
      rintro rfl
      exact hq (hold.path_eq_of_owner hlead c.disk rfl)
  · intro q m hm
    rw [Hierarchy.store, Namespace.node_put] at hm
    split_ifs at hm with hq
    · subst hq
      exact ⟨_,_,_,hleads.mpr hlead⟩
    · obtain ⟨o₁,t,kind,hl⟩ := M.leads hm
      exact ⟨o₁,t,kind,hleads.mpr hl⟩
  · exact (congrArg BitMap.numClear hmap).trans M.free

end Updates

section Answers

theorem leads_parent {p : List (List Byte)} (hlead : Leads fs.disk p o cur .directory) :
    ∃ o', Leads fs.disk p.dropLast o' o.parent .directory := by
  cases hlead with
  | root => exact ⟨.root,.root⟩
  | entry hparent =>
    rw [List.dropLast_concat]
    exact ⟨_,hparent⟩

theorem file_of_plain (c : Coherent S fs o cur) (hcur : Leads fs.disk h.cwd o cur .directory)
    (hi : fs.currentDir.findIndex name = some i) (hplain : fs.currentDir.isDirOfIndex i = false) :
    Leads fs.disk (h.path name) (.entry cur i) (fs.currentDir.getTableAt i).sector.toNat .file := by
  have hheld := c.held_of_plain hi hplain
  have h2 : 2 ≤ i.val := by
    cases hheld with
    | entry _ hchild => exact hchild.1
  have hlead := leads_entry c hcur hi h2
  rwa [(hlead.holds.unique hheld).2] at hlead

theorem create (M : Mirrors S fs h) (heap : Heap) (chars : ℕ → Byte) {size : Word}
    (hl : Allowed S fs (.call (.create name size))) :
    ∃ a fs' h', fs.answer S heap chars (.call (.create name size)) = .ok (a,fs') ∧
      h.Step (.call (.create name size),a) h' ∧ Mirrors S fs' h' := by
  obtain ⟨o,cur,c,hcur⟩ := M.coherent
  obtain ⟨hpos,hbehaved⟩ := hl
  by_cases he : Nachos.Enters S fs name
  · obtain ⟨h0,hindex,hroom⟩ := hbehaved he
    have hen := (M.enters_iff c hcur).mpr he
    obtain ⟨hname,-,hslot⟩ := he
    obtain ⟨i,hi⟩ := Option.ne_none_iff_exists'.mp hslot
    obtain ⟨s,fs',hcreate,e,hbytes,hblocks,-⟩ := c.create_ok heap hname hi
      (Int.toNat_of_nonneg h0).symm hindex (by omega)
    have hfind : (fs'.currentDir.find name).toNat = s := by
      rw [e.coherent.find_of_index (e.findIndex hname), e.sector, Int.toNat_natCast]
    have hlen : (fileContents fs'.disk s).length = size.toInt.toNat := by
      rw [length_fileContents e.placed.node, FileHeader.fileLength, hbytes]
    have hsize : size.toInt = size.toNat := BitVec.toInt_eq_toNat_of_msb (by
      rw [BitVec.msb_eq_toInt]; simpa using hpos)
    have hstores : Stores fs'.disk s .file (.file (fileContents fs'.disk s)) := by
      refine ⟨rfl,?_⟩
      rw [hblocks, (FileHeader.sectorsFor_eq S hpos).1, Int.toNat_natCast, hlen, hsize,
        Int.toNat_natCast]
    refine ⟨_,fs',_,?_,.created hen (by rw [hlen]; omega),
      M.entered c hcur hname hi e hen.2.1 hstores⟩
    simp only [FileSystem.answer, hcreate, Outcome.ok_bind, hfind]
    rfl
  · refine ⟨.created none,fs,h,?_,.refused (mt (M.enters_iff c hcur).mp he),M⟩
    rcases not_enters he with ⟨i,hi⟩ | ⟨hname,hfull⟩
    · rw [FileSystem.answer, c.create_refused heap hi]
      rfl
    · rw [FileSystem.answer, c.create_full heap hname hfull]
      rfl

theorem createDirectory (M : Mirrors S fs h) (heap : Heap) (chars : ℕ → Byte)
    (hl : Allowed S fs (.call (.createDirectory name))) :
    ∃ a fs' h', fs.answer S heap chars (.call (.createDirectory name)) = .ok (a,fs') ∧
      h.Step (.call (.createDirectory name),a) h' ∧ Mirrors S fs' h' := by
  obtain ⟨o,cur,c,hcur⟩ := M.coherent
  have hfound : h.Found name ↔ _ := M.found_iff c hcur
  by_cases he : Nachos.Enters S fs name
  · have hroom := hl he
    have hen := (M.enters_iff c hcur).mpr he
    obtain ⟨hname,-,hslot⟩ := he
    obtain ⟨i,hi⟩ := Option.ne_none_iff_exists'.mp hslot
    obtain ⟨s,fs',hcreate,e⟩ := c.createDirectory_ok heap hname hi hroom
    refine ⟨.code 0,fs',_,?_,.directory hen,M.entered c hcur hname hi e hen.2.1 trivial⟩
    rw [FileSystem.answer, hcreate]
    rfl
  · rcases not_enters he with ⟨i,hi⟩ | ⟨hname,hfull⟩
    · refine ⟨.code (-2),fs,h,?_,.directoryFound (hfound.mpr ⟨i,hi⟩),M⟩
      rw [FileSystem.answer, c.createDirectory_refused heap hi]
      rfl
    · refine ⟨.code (-1),fs,h,?_,.directoryFull (fun hf => ?_)
        (mt (M.enters_iff c hcur).mp he),M⟩
      · rw [FileSystem.answer, c.createDirectory_full heap hname hfull]
        rfl
      · obtain ⟨i,hi⟩ := hfound.mp hf
        rw [hname] at hi
        cases hi

theorem changeDirectory (M : Mirrors S fs h) (heap : Heap) (chars : ℕ → Byte)
    (hl : Allowed S fs (.call (.changeDirectory name))) :
    ∃ a fs' h', fs.answer S heap chars (.call (.changeDirectory name)) = .ok (a,fs') ∧
      h.Step (.call (.changeDirectory name),a) h' ∧ Mirrors S fs' h' := by
  obtain ⟨o,cur,c,hcur⟩ := M.coherent
  have hfound : h.Found name ↔ _ := M.found_iff c hcur
  cases hi : fs.currentDir.findIndex name with
  | none =>
    refine ⟨.code (-1),fs,h,?_,.notChanged fun hf => ?_,M⟩
    · rw [FileSystem.answer, FileSystem.changeDirectory, hi]
      rfl
    · obtain ⟨i,hi'⟩ := hfound.mp hf
      rw [hi] at hi'
      cases hi'
  | some i =>
    obtain ⟨o',s,hs,hchange,c'⟩ := c.changeDirectory_ok heap hi (hl i hi)
    have hanswer : fs.answer S heap chars (.call (.changeDirectory name)) =
        .ok (.code 0,{ fs with currentDir := directoryAt fs.disk s }) := by
      rw [FileSystem.answer, hchange]
      rfl
    have hnamed := (Directory.findIndex_some hi).2
    by_cases h2 : 2 ≤ i.val
    · have hlead := leads_entry c hcur hi h2
      rw [DirectoryEntry.kind_directory (hl i hi), ← hs] at hlead
      obtain ⟨rfl,-⟩ := c.disk.header_eq c'.held hlead.holds
      have hdot : ¬ IsDotName name := fun hd =>
        absurd ((dotName_iff c hi).mp hd) (Nat.not_lt.mpr h2)
      exact ⟨_,_,_,hanswer,.wentDown (M.directory_of_leads hlead) hdot,M.moved _ c' hlead⟩
    · rcases Directory.index_cases h2 with rfl | rfl
      · have hsector : s = cur := hs.trans c.dots.current.sector
        subst hsector
        obtain ⟨rfl,-⟩ := c.disk.header_eq c'.held c.held
        exact ⟨_,_,_,hanswer,.stayed (hnamed.symm.trans c.dots.current.name),
          M.moved h.home c' hcur⟩
      · obtain ⟨o₁,hlead⟩ := leads_parent hcur
        have hsector : s = o.parent := hs.trans c.dots.parent.sector
        subst hsector
        obtain ⟨rfl,-⟩ := c.disk.header_eq c'.held hlead.holds
        exact ⟨_,_,_,hanswer,.wentUp (hnamed.symm.trans c.dots.parent.name),
          M.moved h.home.dropLast c' hlead⟩

theorem transfer (M : Mirrors S fs h) (heap : Heap) (chars : ℕ → Byte) {position : ℕ}
    {numBytes : ℤ} (src : List Byte)
    (hplain : ∀ i, fs.currentDir.findIndex name = some i → fs.currentDir.isDirOfIndex i = false)
    (hint : IsInt (position + numBytes)) :
    (∃ a fs' h', fs.answer S heap chars (.read name position numBytes) = .ok (a,fs') ∧
      h.Step (.read name position numBytes,a) h' ∧ Mirrors S fs' h') ∧
    (numBytes ≤ src.length →
      ∃ a fs' h', fs.answer S heap chars (.write name position src numBytes) = .ok (a,fs') ∧
        h.Step (.write name position src numBytes,a) h' ∧ Mirrors S fs' h') := by
  obtain ⟨o,cur,c,hcur⟩ := M.coherent
  have hfound : h.Found name ↔ _ := M.found_iff c hcur
  cases hi : fs.currentDir.findIndex name with
  | none =>
    have hnot : ¬ h.Found name := fun hf => by
      obtain ⟨i,hi'⟩ := hfound.mp hf
      rw [hi] at hi'
      cases hi'
    have hopen := c.openFile_none heap hi
    refine ⟨⟨.opened false,fs,h,?_,.unread hnot,M⟩,
      fun _ => ⟨.opened false,fs,h,?_,.unwritten hnot,M⟩⟩
    · rw [FileSystem.answer, hopen]
      rfl
    · rw [FileSystem.answer, hopen]
      rfl
  | some i =>
    have hlead := file_of_plain c hcur hi (hplain i hi)
    have hopen := c.openFile_some heap hi
    generalize (fs.currentDir.getTableAt i).sector.toNat = s at hlead hopen
    have hnode := c.disk.node hlead.holds
    obtain ⟨n,hn,hst⟩ := M.stores hlead
    obtain ⟨rfl,-⟩ := hst.file
    refine ⟨⟨_,fs,h,?_,.read hn rfl,M⟩,fun hsrc => ?_⟩
    · rw [FileSystem.answer, hopen, Outcome.ok_bind]
      simp only [hnode.readAt_contents (S := S) (f := ⟨headerAt fs.disk s,0⟩) rfl position numBytes
        hint, Outcome.ok_bind, Outcome.pure_eq]
    · obtain ⟨d,hwrite,hbytes,hout⟩ := hnode.writeAt_contents (S := S)
        (f := ⟨headerAt fs.disk s,0⟩) rfl chars src position numBytes hint hsrc
      have hcount : transferCount (fileContents fs.disk s).length position numBytes ≤
          src.length := by
        unfold transferCount
        omega
      have hlen : (splice (fileContents fs.disk s) position (src.take
          (transferCount (fileContents fs.disk s).length position numBytes))).length =
          (fileContents fs.disk s).length := by
        by_cases hpos : position ≤ (fileContents fs.disk s).length
        · refine length_splice ?_
          rw [List.length_take]
          unfold transferCount at *
          omega
        · have hzero : transferCount (fileContents fs.disk s).length position numBytes = 0 := by
            unfold transferCount
            omega
          rw [hzero, List.take_zero, splice_nil]
      refine ⟨_,_,_,?_,.written hn rfl,M.overwritten c hcur hlead hn hbytes hlen hout⟩
      rw [FileSystem.answer, hopen, Outcome.ok_bind]
      simp only [hwrite, Outcome.ok_bind, Outcome.pure_eq]

theorem answer (M : Mirrors S fs h) (heap : Heap) (chars : ℕ → Byte) {l : FileCall}
    (hl : Allowed S fs l) :
    ∃ a fs' h', fs.answer S heap chars l = .ok (a,fs') ∧ h.Step (l,a) h' ∧ Mirrors S fs' h' := by
  obtain ⟨o,cur,c,hcur⟩ := M.coherent
  have hfound : ∀ name, h.Found name ↔ _ := fun name => M.found_iff c hcur
  cases l with
  | call l =>
    cases l with
    | create name size => exact M.create heap chars hl
    | createDirectory name => exact M.createDirectory heap chars hl
    | changeDirectory name => exact M.changeDirectory heap chars hl
    | openFile name =>
      cases hi : fs.currentDir.findIndex name with
      | none =>
        refine ⟨.opened false,fs,h,?_,.opened (by simp [hfound name, hi]),M⟩
        rw [FileSystem.answer, c.openFile_none heap hi]
        rfl
      | some i =>
        refine ⟨.opened true,fs,h,?_,.opened (by simp [hfound name, hi]),M⟩
        rw [FileSystem.answer, c.openFile_some heap hi]
        rfl
    | remove name =>
      cases hi : fs.currentDir.findIndex name with
      | none =>
        refine ⟨.removed false,fs,h,?_,.absent (by simp [hfound name, hi]),M⟩
        rw [FileSystem.answer, c.remove_absent heap hi]
        rfl
      | some i =>
        have h2 := hl i hi
        obtain ⟨d',o',hremove,c',hdropped,hmap⟩ := c.remove_ok heap hi h2 rfl
        obtain ⟨n,hn,-⟩ := M.stores (leads_entry c hcur hi h2)
        have hdot : ¬ IsDotName name := fun hd =>
          absurd ((dotName_iff c hi).mp hd) (Nat.not_lt.mpr h2)
        refine ⟨.removed true,_,_,?_,.removed hdot hn,M.dropped c hcur hi h2 hn c' hdropped hmap⟩
        rw [FileSystem.answer, hremove]
        rfl
    | removeDirectory name =>
      cases hi : fs.currentDir.findIndex name with
      | none =>
        refine ⟨.code (-2),fs,h,?_,.unknown (by simp [hfound name, hi]),M⟩
        rw [FileSystem.answer, FileSystem.removeDirectory, hi]
        rfl
      | some i =>
        have hfull : fs.currentDir.isEmpty = false :=
          Or.resolve_left hl (by rw [hi]; exact Option.some_ne_none i)
        refine ⟨.code (-1),fs,h,?_,.kept ((hfound name).mpr ⟨i,hi⟩),M⟩
        rw [FileSystem.answer, c.removeDirectory_refused heap hi hfull]
        rfl
  | read name position numBytes => exact (M.transfer heap chars [] hl.1 hl.2).1
  | write name position src numBytes =>
    exact (M.transfer heap chars src hl.1 hl.2.1).2 hl.2.2
  | mount =>
    obtain ⟨fs',hmount,hdisk,c'⟩ := c.mount heap
    have hroot : Leads fs.disk [] .root rootSector .directory := .root
    refine ⟨.mounted,fs',_,?_,.mounted (M.directory_of_leads hroot),?_⟩
    · rw [FileSystem.answer, hmount]
      rfl
    · exact ⟨⟨_,_,c',hdisk ▸ hroot⟩,hdisk ▸ M.distinct,hdisk ▸ M.stores,hdisk ▸ M.leads,
        hdisk ▸ M.free⟩

end Answers

theorem of_format {heap : Heap} {disk : Disk} (hf : FileSystem.format S heap disk = .ok fs) :
    Mirrors S fs .empty := by
  obtain ⟨fs',hf',f⟩ := format_eq S heap disk
  rw [hf] at hf'
  cases hf'
  have c := f.coherent
  have hempty : ∀ j, ¬ (directoryAt fs.disk rootSector).Child j := by
    rw [← c.synced]
    exact f.not_child
  have hall : ∀ {p o s kind}, Leads fs.disk p o s kind → p = [] ∧ o = .root ∧
      s = rootSector ∧ kind = .directory := by
    intro p o s kind hlead
    induction hlead with
    | root => exact ⟨rfl,rfl,rfl,rfl⟩
    | @entry p o s t j k kind _ hchild _ _ _ ih =>
      obtain ⟨-,-,rfl,-⟩ := ih
      exact absurd hchild (hempty j)
  refine ⟨⟨_,_,c,.root⟩,?_,?_,?_,f.clear⟩
  · intro o s ho
    rcases ho.leads with rfl | ⟨p,hlead⟩
    · exact absurd (ho.unique .freeMap).2 (by decide)
    · obtain ⟨-,-,rfl,-⟩ := hall hlead
      exact (c.disk.dots ho).distinct hempty
  · intro p o s kind hlead
    obtain ⟨rfl,-,-,rfl⟩ := hall hlead
    exact ⟨.directory,rfl,trivial⟩
  · intro p n hn
    have hp : p = [] := by
      by_contra hne
      simp [Hierarchy.empty, Namespace.single, hne] at hn
    subst hp
    exact ⟨_,_,_,.root⟩

end Mirrors

theorem mirrors_of_run {S : Support} {ls : List (FileCall × FileAnswer)} {fs : FileSystem}
    (h : ((fileSystems S).guard fun fs l => Allowed S fs l.1).Run ls fs) :
    ∃ t, hierarchies.Run ls t ∧ Mirrors S fs t := by
  refine h.simulate ?_ ?_
  · rintro fs ⟨heap,disk,hf⟩
    exact ⟨_,rfl,.of_format hf⟩
  · rintro fs ⟨l,a⟩ fs' t M ⟨hl,heap,chars,hanswer⟩
    obtain ⟨a',fs'',t',hanswer',hstep,M'⟩ := M.answer heap chars hl
    obtain ⟨rfl,rfl⟩ := Prod.mk.inj (Except.ok.inj (hanswer'.symm.trans hanswer))
    exact ⟨t',hstep,M'⟩

/-- The tree runs along, and no allowed call fails. -/
theorem hierarchyRefinement (S : Support) {ls : List (FileCall × FileAnswer)} {fs : FileSystem}
    (h : ((fileSystems S).guard fun fs l => Allowed S fs l.1).Run ls fs) :
    (∃ t, hierarchies.Run ls t ∧ Mirrors S fs t) ∧ ∀ l, Allowed S fs l → ∀ heap chars,
      ∃ a fs', fs.answer S heap chars l = .ok (a,fs') := by
  obtain ⟨t,ht,M⟩ := mirrors_of_run h
  refine ⟨⟨t,ht,M⟩,fun l hl heap chars => ?_⟩
  obtain ⟨a,fs',-,hanswer,-⟩ := M.answer heap chars hl
  exact ⟨a,fs',hanswer⟩

/-- A directory is made and entered, and found again after a new start. -/
theorem hierarchyRefinement_mount : ∃ ls fs,
    ls.map Prod.fst = [FileCall.call (.createDirectory [100]),.call (.changeDirectory [100]),.mount,
      .call (.openFile [100])] ∧
    (∃ t, hierarchies.Run ls t ∧ Mirrors FirstFit.support fs t) ∧
    ∀ l, Allowed FirstFit.support fs l → ∀ heap chars,
      ∃ a fs', fs.answer FirstFit.support heap chars l = .ok (a,fs') := by
  obtain ⟨fs,fs₁,s,hformat,hcreate,he,hb,hindex,hdir⟩ := formatted_createDirectory
  let T := (fileSystems FirstFit.support).guard fun fs l => Allowed FirstFit.support fs l.1
  have h₀ : T.Run [] fs := .start ⟨_,_,hformat⟩
  have hanswer : fs.answer FirstFit.support FirstFit.heap (fun _ => 0)
      (.call (.createDirectory [100])) = .ok (.code 0,fs₁) := by
    rw [FileSystem.answer, hcreate]
    rfl
  have hmk : Allowed FirstFit.support fs (.call (.createDirectory [100])) := hb
  obtain ⟨a₁,fs₁',t₁,ha₁,-,M₁⟩ := (Mirrors.of_format hformat).answer FirstFit.heap (fun _ => 0) hmk
  obtain ⟨rfl,rfl⟩ := Prod.mk.inj (Except.ok.inj (ha₁.symm.trans hanswer))
  have h₁ : T.Run [(.call (.createDirectory [100]),.code 0)] fs₁' := h₀.step ⟨hmk,_,_,ha₁⟩
  have hcd : Allowed FirstFit.support fs₁' (.call (.changeDirectory [100])) := by
    intro i hi
    rw [hindex] at hi
    cases hi
    exact hdir
  obtain ⟨a₂,fs₂,t₂,ha₂,-,M₂⟩ := M₁.answer FirstFit.heap (fun _ => 0) hcd
  have h₂ := h₁.step (l := (.call (.changeDirectory [100]),a₂)) ⟨hcd,_,_,ha₂⟩
  have hmount : Allowed FirstFit.support fs₂ .mount := trivial
  obtain ⟨a₃,fs₃,t₃,ha₃,-,M₃⟩ := M₂.answer FirstFit.heap (fun _ => 0) hmount
  have h₃ := h₂.step (l := (.mount,a₃)) ⟨hmount,_,_,ha₃⟩
  have hopen : Allowed FirstFit.support fs₃ (.call (.openFile [100])) := trivial
  obtain ⟨a₄,fs₄,t₄,ha₄,-,-⟩ := M₃.answer FirstFit.heap (fun _ => 0) hopen
  have h₄ := h₃.step (l := (.call (.openFile [100]),a₄)) ⟨hopen,_,_,ha₄⟩
  exact ⟨_,fs₄,rfl,hierarchyRefinement FirstFit.support h₄⟩

end Nachos
