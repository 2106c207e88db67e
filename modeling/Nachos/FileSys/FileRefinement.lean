import Nachos.FileSys.Calls
import Nachos.FileSys.Contents
import Nachos.FileSys.ByteStore
import Nachos.FileSys.DirectoryMap
import Nachos.FileSys.FirstFit

/-! # File input and output refines byte arrays

A session creates files and moves data through any number of handles. Each reply is
the one the byte arrays give, where a new file starts with what its sectors held.
-/
namespace Nachos

/-- The file system with the handles opened so far, each with the name it was opened by. -/
structure Session where
  fs : FileSystem
  handles : List (List Byte × OpenFile)

/-- What the sectors of the file in sector `s` of `d'` held on the disk `d`. -/
def heldBefore (d d' : Disk) (s : ℕ) : List Byte :=
  fileBytes d ((headerAt d' s).block d') (headerAt d' s).blocks (headerAt d' s).fileLength.toNat

theorem heldBefore_eq {d d' : Disk} {s : ℕ} (h : ∀ t ∈ dataSectors d' s .file, d' t = d t) :
    heldBefore d d' s = fileContents d' s :=
  fileBytes_congr fun _ hk => (h _ (block_mem_data hk)).symm

namespace Session

def handle (s : Session) (k : ℕ) : Outcome (List Byte × OpenFile) :=
  match s.handles[k]? with
  | some h => .ok h
  | none => .error .outOfBounds

def setHandle (s : Session) (k : ℕ) (name : List Byte) (f : OpenFile) : Session :=
  { s with handles := s.handles.set k (name,f) }

def serve (S : Support) (heap : Heap) (chars : ℕ → Byte) (s : Session) :
    FileRequest → Outcome (FileReply × Session)
  | .create name initialSize => do
    let (b,fs) ← s.fs.create S heap name initialSize
    let sector := (fs.currentDir.find name).toNat
    let held := if b then some (heldBefore s.fs.disk fs.disk sector) else none
    return (.created held,{ s with fs := fs })
  | .openFile name => do
    let file ← s.fs.openFile S heap name
    match file with
    | some f => return (.opened true,{ s with handles := s.handles ++ [(name,f)] })
    | none => return (.opened false,s)
  | .seek k position => do
    let (name,f) ← s.handle k
    return (.sought,s.setHandle k name (f.seek position))
  | .read k numBytes => do
    let (name,f) ← s.handle k
    let (result,into,f) ← f.read S s.fs.disk numBytes
    return (.read result into,s.setHandle k name f)
  | .write k src numBytes => do
    let (name,f) ← s.handle k
    let (result,disk,f) ← f.write S chars s.fs.disk src numBytes
    return (.written result,{ s with fs := { s.fs with disk := disk } }.setHandle k name f)

end Session

def sessions (S : Support) : TransitionSystem Session (FileRequest × FileReply) where
  init s := s.handles = [] ∧ ∃ heap disk, FileSystem.format S heap disk = .ok s.fs
  step s l s' := ∃ heap chars, s.serve S heap chars l.1 = .ok (l.2,s')

def FileSystem.fileNamed (fs : FileSystem) (name : List Byte) : Option ℕ :=
  (fs.currentDir.findIndex name).bind fun i =>
    if 2 ≤ i.val then some (fs.currentDir.getTableAt i).sector.toNat else none

/-- Creations have room, and transfers go through the handle of a file, with an end
inside `int` and, for a write, with the bytes to be written. -/
def Permitted (S : Support) (s : Session) : FileRequest → Prop
  | .create name initialSize => Behaved S s.fs (.create name initialSize)
  | .openFile _ => True
  | .seek k _ => ∃ h, s.handles[k]? = some h
  | .read k numBytes => ∃ name f, s.handles[k]? = some (name,f) ∧
      s.fs.fileNamed name ≠ none ∧ IsInt (f.seekPosition + numBytes)
  | .write k src numBytes => ∃ name f, s.handles[k]? = some (name,f) ∧
      s.fs.fileNamed name ≠ none ∧ IsInt (f.seekPosition + numBytes) ∧ numBytes ≤ src.length

structure SameHandle (fs : FileSystem) (h : List Byte × OpenFile) (g : List Byte × ℕ) : Prop where
  key : g.1 = fileKey h.1
  cursor : h.2.seekPosition = g.2
  found : fs.currentDir.findIndex h.1 ≠ none
  header : ∀ t, fs.fileNamed h.1 = some t → h.2.hdr = headerAt fs.disk t

/-- The byte arrays are what the current directory's files hold. -/
structure Represents (S : Support) (s : Session) (b : ByteStore) : Prop where
  coherent : ∃ o cur, Coherent S s.fs o cur
  plain : ∀ name i, s.fs.currentDir.findIndex name = some i → 2 ≤ i.val →
    s.fs.currentDir.isDirOfIndex i = false
  distinct : s.fs.currentDir.Distinct
  keys : ∀ k, b.contents k ≠ none → fileKey k = k
  contents : ∀ name, b.contents (fileKey name) =
    (s.fs.fileNamed name).map (fileContents s.fs.disk)
  free : (storedMap S s.fs.disk).numClear = b.free
  handles : List.Forall₂ (SameHandle s.fs) s.handles b.handles

section Named
variable {S : Support} {fs : FileSystem} {o : Owner} {cur : ℕ} {name name' : List Byte} {t : ℕ}

theorem FileSystem.fileNamed_eq {i : Fin numDirEntries}
    (h : fs.currentDir.findIndex name = some i) (hi : 2 ≤ i.val) :
    fs.fileNamed name = some (fs.currentDir.getTableAt i).sector.toNat := by
  rw [FileSystem.fileNamed, h, Option.bind_some, if_pos hi]

theorem FileSystem.fileNamed_some (h : fs.fileNamed name = some t) :
    ∃ i, fs.currentDir.findIndex name = some i ∧ 2 ≤ i.val ∧
      (fs.currentDir.getTableAt i).sector.toNat = t := by
  obtain ⟨i,hi,ht⟩ := Option.bind_eq_some_iff.mp h
  split_ifs at ht with h2
  exact ⟨i,hi,h2,Option.some.inj ht⟩

theorem FileSystem.fileNamed_congr (h : fileKey name = fileKey name') :
    fs.fileNamed name = fs.fileNamed name' := by
  rw [FileSystem.fileNamed, Directory.findIndex_congr h, FileSystem.fileNamed]

/-- In a directory without subdirectories what is found under a name is a live file. -/
theorem Coherent.held_of_named (c : Coherent S fs o cur)
    (plain : ∀ name i, fs.currentDir.findIndex name = some i → 2 ≤ i.val →
      fs.currentDir.isDirOfIndex i = false) (h : fs.fileNamed name = some t) :
    ∃ i, fs.currentDir.findIndex name = some i ∧ Holds fs.disk (.entry cur i) t .file := by
  obtain ⟨i,hi,h2,ht⟩ := FileSystem.fileNamed_some h
  have hdir := plain name i hi h2
  have hu := (Directory.findIndex_some hi).1
  refine ⟨i,hi,?_⟩
  rw [c.synced] at hdir hu ht
  exact .entry c.held ⟨h2,hu⟩ ht (by
    rw [DirectoryEntry.kind, show ((directoryAt fs.disk cur).getTableAt i).isDir = false from hdir]
    rfl)

/-- The names no file has are those of no entry and those of the dots. -/
theorem Coherent.fileNamed_eq_none (c : Coherent S fs o cur)
    (h : fs.fileNamed name = none) :
    (fs.currentDir.findIndex name = none ∧ ¬ IsDotName name) ∨
    (∃ i, fs.currentDir.findIndex name = some i) ∧ IsDotName name := by
  have hd := c.dots
  cases hi : fs.currentDir.findIndex name with
  | none =>
    refine .inl ⟨rfl,?_⟩
    rintro (hk | hk)
    · exact Directory.findIndex_eq_none.mp hi 0 ⟨hd.current.inUse,hd.current.name.trans hk.symm⟩
    · exact Directory.findIndex_eq_none.mp hi 1 ⟨hd.parent.inUse,hd.parent.name.trans hk.symm⟩
  | some i =>
    refine .inr ⟨⟨i,rfl⟩,?_⟩
    have hnot : ¬ 2 ≤ i.val := fun h2 => by
      rw [FileSystem.fileNamed_eq hi h2] at h
      cases h
    have hn := (Directory.findIndex_some hi).2
    rcases Directory.index_cases hnot with rfl | rfl
    · exact .inl (hn.symm.trans hd.current.name)
    · exact .inr (hn.symm.trans hd.parent.name)

end Named

section Creation
variable {S : Support} {fs fs' : FileSystem} {o : Owner} {cur : ℕ} {i : Fin numDirEntries}
  {name name' : List Byte} {t u : ℕ}

theorem Entered.fileNamed (e : Entered S fs fs' o cur i name false t)
    (hname : fs.currentDir.findIndex name = none) (hi : 2 ≤ i.val) :
    fs'.fileNamed name = some t := by
  rw [FileSystem.fileNamed_eq (e.findIndex hname) hi, e.sector]

theorem Entered.findIndex_ne (e : Entered S fs fs' o cur i name false t)
    (hslot : fs.currentDir.freeIndex = some i) (hne : fileKey name ≠ fileKey name') :
    fs'.currentDir.findIndex name' = fs.currentDir.findIndex name' := by
  rw [e.table]
  exact Directory.findIndex_withEntry_ne (Directory.freeIndex_some hslot).2 hne

theorem Entered.getTableAt (e : Entered S fs fs' o cur i name false t)
    (hslot : fs.currentDir.freeIndex = some i) {j : Fin numDirEntries}
    (hj : fs.currentDir.findIndex name' = some j) :
    fs'.currentDir.getTableAt j = fs.currentDir.getTableAt j := by
  have hu := (Directory.findIndex_some hj).1
  have hunused := (Directory.freeIndex_some hslot).2
  rw [e.table, Directory.getTableAt_withEntry, if_neg]
  rintro rfl
  exact Bool.false_ne_true (hunused.symm.trans hu)

theorem Entered.fileNamed_ne (e : Entered S fs fs' o cur i name false t)
    (hslot : fs.currentDir.freeIndex = some i) (hne : fileKey name ≠ fileKey name') :
    fs'.fileNamed name' = fs.fileNamed name' := by
  unfold FileSystem.fileNamed
  rw [e.findIndex_ne hslot hne]
  cases hj : fs.currentDir.findIndex name' with
  | none => rfl
  | some j => rw [Option.bind_some, Option.bind_some, e.getTableAt hslot hj]

theorem Entered.fileContents (e : Entered S fs fs' o cur i name false t) (c : Coherent S fs o cur)
    {j : Fin numDirEntries} (h : Holds fs.disk (.entry cur j) u .file) :
    Nachos.fileContents fs'.disk u = Nachos.fileContents fs.disk u ∧
    headerAt fs'.disk u = headerAt fs.disk u := by
  refine ⟨fileContents_congr fun v hv => ?_,e.placed.agrees.headerAt_eq h⟩
  rcases List.mem_append.mp hv with hv | hv
  · exact e.placed.agrees.layout h v hv
  · refine e.placed.agrees.data h ?_ v hv
    rintro (ho | ho)
    · rw [ho] at h
      exact absurd (h.unique c.held).2 (by decide)
    · cases ho

end Creation

namespace Represents
variable {S : Support} {s : Session} {b : ByteStore}

theorem fileNamed_nameAt (R : Represents S s b) {i : Fin numDirEntries}
    (hi : s.fs.currentDir.Child i) : s.fs.fileNamed (s.fs.currentDir.nameAt i) ≠ none := by
  have hkey : fileKey (s.fs.currentDir.nameAt i) = s.fs.currentDir.nameAt i := fileKey_fileKey _
  cases hj : s.fs.currentDir.findIndex (s.fs.currentDir.nameAt i) with
  | none => exact absurd ⟨hi.2,hkey.symm⟩ (Directory.findIndex_eq_none.mp hj i)
  | some j =>
    obtain ⟨hu,hn⟩ := Directory.findIndex_some hj
    obtain rfl := R.distinct j i hu hi.2 (hn.trans hkey)
    rw [FileSystem.fileNamed_eq hj hi.1]
    exact Option.some_ne_none _

theorem names_eq (R : Represents S s b) :
    {k | b.contents k ≠ none} = s.fs.currentDir.children.image s.fs.currentDir.nameAt := by
  ext k
  simp only [Set.mem_ofPred_eq, Finset.coe_image, Set.mem_image, Finset.mem_coe,
    Directory.mem_children]
  constructor
  · intro hk
    have hkey := R.keys k hk
    rw [← hkey, R.contents] at hk
    obtain ⟨t,ht⟩ := Option.ne_none_iff_exists'.mp (fun h => hk (congrArg _ h) : s.fs.fileNamed k ≠ none)
    obtain ⟨i,hi,h2,-⟩ := FileSystem.fileNamed_some ht
    obtain ⟨hu,hn⟩ := Directory.findIndex_some hi
    exact ⟨i,⟨h2,hu⟩,hn.trans hkey⟩
  · rintro ⟨i,hi,rfl⟩
    have hkey : fileKey (s.fs.currentDir.nameAt i) = s.fs.currentDir.nameAt i := fileKey_fileKey _
    obtain ⟨t,ht⟩ := Option.ne_none_iff_exists'.mp (R.fileNamed_nameAt hi)
    rw [← hkey, R.contents, ht]
    exact Option.some_ne_none _

theorem enters_iff (R : Represents S s b) {o : Owner} {cur : ℕ} (c : Coherent S s.fs o cur)
    {name : List Byte} : b.Enters name ↔ Enters S s.fs name := by
  have hroom : {k | b.contents k ≠ none}.ncard < numDirEntries - 2 ↔
      s.fs.currentDir.freeIndex ≠ none := by
    rw [R.names_eq, Set.ncard_coe_finset, R.distinct.card_names, Directory.card_children_lt]
  rw [ByteStore.Enters, Enters, hroom, R.free, R.contents, Option.map_eq_none_iff]
  constructor
  · rintro ⟨hdot,hnamed,hslot,hfree⟩
    rcases c.fileNamed_eq_none hnamed with ⟨hname,-⟩ | ⟨-,hd⟩
    · exact ⟨hname,hfree,hslot⟩
    · exact absurd hd hdot
  · rintro ⟨hname,hfree,hslot⟩
    have hnamed : s.fs.fileNamed name = none := by
      rw [FileSystem.fileNamed, hname, Option.bind_none]
    rcases c.fileNamed_eq_none hnamed with ⟨-,hdot⟩ | ⟨⟨i,hi⟩,-⟩
    · exact ⟨hdot,hnamed,hslot,hfree⟩
    · rw [hname] at hi
      cases hi

theorem created (R : Represents S s b) {o : Owner} {cur : ℕ} {i : Fin numDirEntries}
    {name : List Byte} {t : ℕ} {fs : FileSystem} (c : Coherent S s.fs o cur)
    (hname : s.fs.currentDir.findIndex name = none) (hslot : s.fs.currentDir.freeIndex = some i)
    (e : Entered S s.fs fs o cur i name false t)
    (hdata : ∀ u ∈ dataSectors fs.disk t .file, fs.disk u = s.fs.disk u) :
    Represents S { s with fs := fs }
      { b.store (fileKey name) (heldBefore s.fs.disk fs.disk t) with
        free := b.free - (ownedSectors fs.disk t .file).length } := by
  obtain ⟨hi,-⟩ := Directory.freeIndex_some hslot
  have hsame : ∀ name' u, s.fs.fileNamed name' = some u → _ := fun name' u hu =>
    e.fileContents c (c.held_of_named R.plain hu).choose_spec.2
  refine ⟨⟨o,cur,e.coherent⟩,fun name' j hj h2 => ?_,?_,fun k hk => ?_,fun name' => ?_,?_,?_⟩
  · by_cases hne : fileKey name = fileKey name'
    · rw [← Directory.findIndex_congr hne, e.findIndex hname] at hj
      cases hj
      change (fs.currentDir.getTableAt i).isDir = false
      rw [e.table, Directory.getTableAt_withEntry, if_pos rfl]
      exact Directory.isDir_fillEntry _ _ _ _
    · rw [e.findIndex_ne hslot hne] at hj
      change (fs.currentDir.getTableAt j).isDir = false
      rw [e.getTableAt hslot hj]
      exact R.plain name' j hj h2
  · change fs.currentDir.Distinct
    rw [e.table]
    exact R.distinct.withEntry hname i false t
  · change (b.store (fileKey name) _).contents k ≠ none at hk
    rw [ByteStore.contents_store] at hk
    split_ifs at hk with hkey
    · rw [hkey, fileKey_fileKey]
    · exact R.keys k hk
  · change (b.store (fileKey name) _).contents (fileKey name') = _
    by_cases hne : fileKey name = fileKey name'
    · rw [← FileSystem.fileNamed_congr hne, e.fileNamed hname hi, ← hne, ByteStore.contents_store,
        if_pos rfl, Option.map_some, heldBefore_eq hdata]
    · rw [e.fileNamed_ne hslot hne, ByteStore.contents_store, if_neg (Ne.symm hne), R.contents]
      cases hu : s.fs.fileNamed name' with
      | none => rw [Option.map_none, Option.map_none]
      | some u => rw [Option.map_some, Option.map_some, (hsame name' u hu).1]
  · rw [e.placed.numClear, R.free]
    rfl
  · refine R.handles.imp fun h g r => ?_
    have hne : fileKey name ≠ fileKey h.1 := fun hk =>
      r.found (Directory.findIndex_congr hk ▸ hname)
    refine ⟨r.key,r.cursor,?_,fun u hu => ?_⟩
    · rw [e.findIndex_ne hslot hne]
      exact r.found
    · rw [e.fileNamed_ne hslot hne] at hu
      rw [(hsame h.1 u hu).2]
      exact r.header u hu

theorem handle (R : Represents S s b) {k : ℕ} {name : List Byte} {f : OpenFile}
    (hk : s.handles[k]? = some (name,f)) :
    ∃ cursor : ℕ, b.handles[k]? = some (fileKey name,cursor) ∧ f.seekPosition = cursor ∧
      ∀ t, s.fs.fileNamed name = some t → f.hdr = headerAt s.fs.disk t := by
  obtain ⟨⟨key,cursor⟩,hg,r⟩ := Pointwise.exists_getElem? R.handles hk
  obtain rfl : key = fileKey name := r.key
  exact ⟨cursor,hg,r.cursor,r.header⟩

theorem moved (R : Represents S s b) {k : ℕ} {name : List Byte} {f : OpenFile}
    (hk : s.handles[k]? = some (name,f)) (position : ℕ) :
    Represents S (s.setHandle k name (f.seek position)) (b.moveTo k (fileKey name) position) := by
  obtain ⟨g,-,r⟩ := Pointwise.exists_getElem? R.handles hk
  have hs : SameHandle s.fs (name,f.seek position) (fileKey name,position) :=
    ⟨rfl,rfl,r.found,r.header⟩
  exact ⟨R.coherent,R.plain,R.distinct,R.keys,R.contents,R.free,Pointwise.set R.handles hs k⟩

theorem overwritten (R : Represents S s b) {name : List Byte} {t : ℕ} {d : Disk}
    (h : s.fs.fileNamed name = some t)
    (hout : ∀ u, u ∉ dataSectors s.fs.disk t .file → d u = s.fs.disk u) :
    Represents S { s with fs := { s.fs with disk := d } }
      (b.store (fileKey name) (fileContents d t)) := by
  obtain ⟨o,cur,c⟩ := R.coherent
  obtain ⟨i,hi,ht⟩ := c.held_of_named R.plain h
  have ag : Agrees s.fs.disk d (· = .entry cur i) :=
    Agrees.write c.disk (.refl _ _) rfl ht hout
  have hfile : ∀ {o s' kind}, o = Owner.entry cur i → Holds s.fs.disk o s' kind → kind = .file :=
    fun ho hs => ((ho ▸ hs).unique ht).2
  obtain ⟨c',hmap⟩ := c.overwrite ag hfile
  refine ⟨⟨o,cur,c'⟩,R.plain,R.distinct,fun k hk => ?_,fun name' => ?_,?_,?_⟩
  · rw [ByteStore.contents_store] at hk
    split_ifs at hk with hkey
    · rw [hkey, fileKey_fileKey]
    · exact R.keys k hk
  · change _ = (s.fs.fileNamed name').map (fileContents d)
    rw [ByteStore.contents_store]
    by_cases hne : fileKey name' = fileKey name
    · rw [if_pos hne, FileSystem.fileNamed_congr hne, h, Option.map_some]
    · rw [if_neg hne, R.contents]
      cases hu : s.fs.fileNamed name' with
      | none => rw [Option.map_none, Option.map_none]
      | some u =>
        obtain ⟨j,hj,hheld⟩ := c.held_of_named R.plain hu
        have hji : Owner.entry cur j ≠ .entry cur i := by
          rintro he
          cases he
          exact hne ((Directory.findIndex_some hj).2.symm.trans (Directory.findIndex_some hi).2)
        have hsame : fileContents d u = fileContents s.fs.disk u := by
          refine fileContents_congr fun v hv => ?_
          rcases List.mem_append.mp hv with hv | hv
          · exact ag.layout hheld v hv
          · exact ag.data hheld hji v hv
        rw [Option.map_some, Option.map_some, hsame]
  · exact (congrArg BitMap.numClear hmap).trans R.free
  · refine R.handles.imp fun g g' r => ⟨r.key,r.cursor,r.found,fun u hu => ?_⟩
    obtain ⟨j,-,hheld⟩ := c.held_of_named R.plain hu
    exact (r.header u hu).trans (ag.headerAt_eq hheld).symm

theorem of_format {heap : Heap} {disk : Disk} (hh : s.handles = [])
    (hf : FileSystem.format S heap disk = .ok s.fs) : Represents S s .empty := by
  obtain ⟨fs,hf',f⟩ := format_eq S heap disk
  rw [hf] at hf'
  cases hf'
  have hnone : ∀ name i, s.fs.currentDir.findIndex name = some i → ¬ 2 ≤ i.val :=
    fun name i hi h2 => f.not_child i ⟨h2,(Directory.findIndex_some hi).1⟩
  refine ⟨⟨_,_,f.coherent⟩,fun name i hi h2 => absurd h2 (hnone name i hi),?_,
    fun k hk => absurd rfl hk,fun name => ?_,f.clear,?_⟩
  · exact (f.coherent.dots).distinct f.not_child
  · cases hu : s.fs.fileNamed name with
    | none => rfl
    | some t =>
      obtain ⟨i,hi,h2,-⟩ := FileSystem.fileNamed_some hu
      exact absurd h2 (hnone name i hi)
  · rw [hh]
    exact .nil

theorem serve (R : Represents S s b) (heap : Heap) (chars : ℕ → Byte) {l : FileRequest}
    (hl : Permitted S s l) :
    ∃ reply s' b', s.serve S heap chars l = .ok (reply,s') ∧ b.Step (l,reply) b' ∧
      Represents S s' b' := by
  obtain ⟨o,cur,c⟩ := R.coherent
  cases l with
  | create name size =>
    by_cases he : Enters S s.fs name
    · obtain ⟨h0,hindex,hroom⟩ := hl he
      have hen := (R.enters_iff c).mpr he
      obtain ⟨hname,-,hslot⟩ := he
      obtain ⟨i,hi⟩ := Option.ne_none_iff_exists'.mp hslot
      obtain ⟨t,fs,hcreate,e,hbytes,hblocks,hdata⟩ := c.create_ok heap hname hi
        (Int.toNat_of_nonneg h0).symm hindex (by omega)
      have hi2 := (Directory.freeIndex_some hi).1
      have hfind : (fs.currentDir.find name).toNat = t := by
        rw [e.coherent.find_of_index (e.findIndex hname), e.sector, Int.toNat_natCast]
      refine ⟨.created (some (heldBefore s.fs.disk fs.disk t)),_,_,?_,.created hen ?_ fun hpos => ?_,
        R.created c hname hi e hdata⟩
      · rw [Session.serve, hcreate, Outcome.ok_bind]
        simp only [hfind]
        rfl
      · rw [heldBefore_eq hdata, length_fileContents e.placed.node, FileHeader.fileLength, hbytes]
      · have hsize : size.toInt.toNat = size.toNat := by
          rw [BitVec.toInt_eq_toNat_of_msb (by rw [BitVec.msb_eq_toInt]; simpa using hpos),
            Int.toNat_natCast]
        rw [length_ownedSectors_file, hblocks, (FileHeader.sectorsFor_eq S hpos).1,
          Int.toNat_natCast, hsize, fileSectors]
    · refine ⟨.created none,s,b,?_,.refused (mt (R.enters_iff c).mp he),R⟩
      rcases not_enters he with ⟨i,hi⟩ | ⟨hname,hfull⟩
      · rw [Session.serve, c.create_refused heap hi]
        rfl
      · rw [Session.serve, c.create_full heap hname hfull]
        rfl
  | openFile name =>
    cases hn : s.fs.currentDir.findIndex name with
    | none =>
      have hnamed : s.fs.fileNamed name = none := by rw [FileSystem.fileNamed, hn]; rfl
      have hnot : ¬ IsDotName name := by
        rcases c.fileNamed_eq_none hnamed with ⟨-,h⟩ | ⟨⟨i,hi⟩,-⟩
        · exact h
        · rw [hn] at hi
          cases hi
      refine ⟨.opened false,s,b,?_,.missing ?_ hnot,R⟩
      · rw [Session.serve, c.openFile_none heap hn]
        rfl
      · rw [R.contents, hnamed]
        rfl
    | some i =>
      have hsame : SameHandle s.fs
          (name,⟨headerAt s.fs.disk (s.fs.currentDir.getTableAt i).sector.toNat,0⟩)
          (fileKey name,0) := by
        refine ⟨rfl,rfl,by rw [hn]; exact Option.some_ne_none i,fun t ht => ?_⟩
        obtain ⟨j,hj,-,hs⟩ := FileSystem.fileNamed_some ht
        rw [hn] at hj
        cases hj
        rw [hs]
      refine ⟨.opened true,{ s with handles := s.handles ++ [_] },_,?_,.opened ?_,
        ⟨⟨o,cur,c⟩,R.plain,R.distinct,R.keys,R.contents,R.free,
          List.rel_append R.handles (.cons hsame .nil)⟩⟩
      · rw [Session.serve, c.openFile_some heap hn]
        rfl
      · cases hnamed : s.fs.fileNamed name with
        | some t => exact .inl (by rw [R.contents, hnamed]; exact Option.some_ne_none _)
        | none =>
          rcases c.fileNamed_eq_none hnamed with ⟨h,-⟩ | ⟨-,h⟩
          · rw [hn] at h
            cases h
          · exact .inr h
  | seek k position =>
    obtain ⟨⟨name,f⟩,hk⟩ := hl
    obtain ⟨cursor,hg,-⟩ := R.handle hk
    refine ⟨.sought,_,_,?_,.sought hg,R.moved hk position⟩
    rw [Session.serve, Session.handle, hk]
    rfl
  | read k numBytes =>
    obtain ⟨name,f,hk,hfile,hint⟩ := hl
    obtain ⟨t,ht⟩ := Option.ne_none_iff_exists'.mp hfile
    obtain ⟨i,-,hheld⟩ := c.held_of_named R.plain ht
    obtain ⟨cursor,hg,hcur,hhdr⟩ := R.handle hk
    rw [hcur] at hint
    have hread := (c.disk.node hheld).readAt_contents (S := S) (hhdr t ht) cursor numBytes hint
    refine ⟨_,_,_,?_,.read hg (by rw [R.contents, ht, Option.map_some]) rfl,R.moved hk _⟩
    rw [Session.serve, Session.handle, hk, Outcome.ok_bind]
    simp only [OpenFile.read, hcur, hread, Outcome.ok_bind, Outcome.pure_eq]
    rfl
  | write k src numBytes =>
    obtain ⟨name,f,hk,hfile,hint,hsrc⟩ := hl
    obtain ⟨t,ht⟩ := Option.ne_none_iff_exists'.mp hfile
    obtain ⟨i,-,hheld⟩ := c.held_of_named R.plain ht
    obtain ⟨cursor,hg,hcur,hhdr⟩ := R.handle hk
    rw [hcur] at hint
    obtain ⟨d,hwrite,hbytes,hout⟩ := (c.disk.node hheld).writeAt_contents (S := S) (hhdr t ht)
      chars src cursor numBytes hint hsrc
    have R' := R.overwritten ht hout
    rw [hbytes] at R'
    refine ⟨_,_,_,?_,.written hg (by rw [R.contents, ht, Option.map_some]) rfl,R'.moved hk _⟩
    rw [Session.serve, Session.handle, hk, Outcome.ok_bind]
    simp only [OpenFile.write, hcur, hwrite, Outcome.ok_bind, Outcome.pure_eq]
    rfl

theorem file_of_handle (R : Represents S s b) {k cursor : ℕ} {key c : List Byte}
    (hk : b.handles[k]? = some (key,cursor)) (hc : b.contents key = some c) :
    ∃ name f, s.handles[k]? = some (name,f) ∧ s.fs.fileNamed name ≠ none ∧
      f.seekPosition = cursor := by
  obtain ⟨⟨name,f⟩,hh,r⟩ := Pointwise.exists_getElem? R.handles.flip hk
  obtain rfl : key = fileKey name := r.key
  refine ⟨name,f,hh,fun hnone => ?_,r.cursor⟩
  rw [R.contents, hnone] at hc
  cases hc

theorem step (R : Represents S s b) {ls : List (FileRequest × FileReply)} {l : FileRequest}
    (h : ((sessions S).guard fun s l => Permitted S s l.1).Run ls s) (hl : Permitted S s l) :
    ∃ reply s' b', ((sessions S).guard fun s l => Permitted S s l.1).Run (ls ++ [(l,reply)]) s' ∧
      b.Step (l,reply) b' ∧ Represents S s' b' := by
  obtain ⟨reply,s',b',hserve,hstep,R'⟩ := R.serve FirstFit.heap (fun _ => 0) hl
  exact ⟨reply,s',b',h.step ⟨hl,_,_,hserve⟩,hstep,R'⟩

end Represents

/-- The byte arrays run along, with the same replies, and no permitted request fails. -/
theorem fileRefinement (S : Support) {ls : List (FileRequest × FileReply)} {s : Session}
    (h : ((sessions S).guard fun s l => Permitted S s l.1).Run ls s) :
    (∃ b, byteStores.Run ls b) ∧ ∀ l, Permitted S s l → ∀ heap chars,
      ∃ reply s', s.serve S heap chars l = .ok (reply,s') := by
  have hsim : ∃ b, byteStores.Run ls b ∧ Represents S s b := by
    refine h.simulate (fun s hs => ?_) fun s l s' b R hs => ?_
    · obtain ⟨hh,heap,disk,hf⟩ := hs
      exact ⟨.empty,rfl,.of_format hh hf⟩
    · obtain ⟨hl,heap,chars,hserve⟩ := hs
      obtain ⟨reply,s'',b',hserve',hstep,R'⟩ := R.serve heap chars hl
      rw [hserve] at hserve'
      cases hserve'
      exact ⟨b',hstep,R'⟩
  obtain ⟨b,hb,R⟩ := hsim
  refine ⟨⟨b,hb⟩,fun l hl heap chars => ?_⟩
  obtain ⟨reply,s',-,hserve,-⟩ := R.serve heap chars hl
  exact ⟨reply,s',hserve⟩

/-- What is written through one handle of a file is read through another one, behind it what the
sectors of the file held. -/
theorem fileRefinement_two_handles : ∃ (c : List Byte) (ls : List (FileRequest × FileReply)) (s : _),
    ls = [(.create [97] 300,.created (some c)),(.openFile [97],.opened true),
      (.openFile [97],.opened true),(.seek 0 100,.sought),
      (.write 0 (List.replicate 40 42) 40,.written 40),(.seek 1 120,.sought),
      (.read 1 30,.read 30 (List.replicate 20 42 ++ (c.drop 140).take 10))] ∧
    ((sessions FirstFit.support).guard fun s l => Permitted FirstFit.support s l.1).Run ls s ∧
    (∃ b, byteStores.Run ls b) ∧ ∀ l, Permitted FirstFit.support s l → ∀ heap chars,
      ∃ reply s', s.serve FirstFit.support heap chars l = .ok (reply,s') := by
  obtain ⟨fs,hformat,f⟩ := format_eq FirstFit.support FirstFit.heap FirstFit.disk
  have hrun : ((sessions FirstFit.support).guard fun s l => Permitted FirstFit.support s l.1).Run
      [] ⟨fs,[]⟩ := .start ⟨rfl,_,_,hformat⟩
  have R := Represents.of_format (s := ⟨fs,[]⟩) rfl hformat
  have hcreate : Permitted FirstFit.support ⟨fs,[]⟩ (.create [97] 300) := fun _ => by
    refine ⟨by decide,by decide,?_⟩
    change _ ≤ (storedMap FirstFit.support fs.disk).numClear
    rw [f.clear]
    decide
  have hen : ByteStore.empty.Enters [97] := by
    have hnone : {k | ByteStore.empty.contents k ≠ none} = ∅ :=
      Set.eq_empty_of_forall_notMem fun k hk => hk rfl
    refine ⟨by decide,rfl,?_,by decide⟩
    rw [hnone, Set.ncard_empty]
    decide
  obtain ⟨_,s₁,b₁,hrun,hstep,R⟩ := R.step hrun hcreate
  cases hstep with
  | refused hno => exact absurd hen hno
  | @created _ c _ sectors _ hlen _ =>
  have hlen : c.length = 300 := hlen
  have hc : (ByteStore.empty.store (fileKey [97]) c).contents (fileKey [97]) = some c := by
    rw [ByteStore.contents_store, if_pos rfl]
  obtain ⟨_,s₂,_,hrun,hstep,R⟩ := R.step hrun (l := .openFile [97]) trivial
  obtain ⟨rfl,rfl⟩ := hstep.opened_eq hc
  obtain ⟨_,s₃,_,hrun,hstep,R⟩ := R.step hrun (l := .openFile [97]) trivial
  obtain ⟨rfl,rfl⟩ := hstep.opened_eq hc
  obtain ⟨_,_,hh,-,-⟩ := R.file_of_handle (k := 0) rfl hc
  obtain ⟨_,s₄,_,hrun,hstep,R⟩ := R.step hrun (l := .seek 0 100) ⟨_,hh⟩
  obtain ⟨rfl,rfl⟩ := hstep.sought_eq rfl
  -- a write over the end of the first sector
  obtain ⟨name,g,hh,hfile,hg⟩ := R.file_of_handle (k := 0) rfl hc
  have hwrite : Permitted FirstFit.support s₄ (.write 0 (List.replicate 40 42) 40) := by
    refine ⟨name,g,hh,hfile,?_,by decide⟩
    rw [hg]
    decide
  obtain ⟨_,s₅,_,hrun,hstep,R⟩ := R.step hrun hwrite
  obtain ⟨rfl,rfl⟩ := hstep.written_eq rfl hc (n := 40) (by rw [hlen]; decide)
  have hc' : ((ByteStore.empty.store (fileKey [97]) c).store (fileKey [97])
      (splice c 100 (List.replicate 40 42))).contents (fileKey [97]) =
        some (splice c 100 (List.replicate 40 42)) := by
    rw [ByteStore.contents_store, if_pos rfl]
  obtain ⟨_,_,hh,-,-⟩ := R.file_of_handle (k := 1) rfl hc'
  obtain ⟨_,s₆,_,hrun,hstep,R⟩ := R.step hrun (l := .seek 1 120) ⟨_,hh⟩
  obtain ⟨rfl,rfl⟩ := hstep.sought_eq rfl
  obtain ⟨name,g,hh,hfile,hg⟩ := R.file_of_handle (k := 1) rfl hc'
  have hread : Permitted FirstFit.support s₆ (.read 1 30) := by
    refine ⟨name,g,hh,hfile,?_⟩
    rw [hg]
    decide
  have hsplice : (splice c 100 (List.replicate 40 42)).length = 300 :=
    (length_splice (by rw [hlen]; decide)).trans hlen
  obtain ⟨_,s₇,_,hrun,hstep,R⟩ := R.step hrun hread
  obtain ⟨rfl,rfl⟩ := hstep.read_eq rfl hc' (n := 30) (by rw [hsplice]; decide)
  have hbytes : ((splice c 100 (List.replicate 40 42)).drop 120).take 30 =
      List.replicate 20 42 ++ (c.drop 140).take 10 := by
    have hfront : (c.take 100).length = 100 := by rw [List.length_take, hlen]; rfl
    rw [splice, List.append_assoc, show 120 = 100 + 20 from rfl, ← List.drop_drop,
      List.drop_left' hfront, List.drop_append_of_le_length (by decide), List.drop_replicate,
      List.take_append]
    rfl
  rw [hbytes] at hrun
  exact ⟨c,_,s₇,rfl,hrun,fileRefinement _ hrun⟩

end Nachos
