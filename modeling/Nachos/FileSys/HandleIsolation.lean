import Nachos.FileSys.Calls
import Nachos.FileSys.Contents
import Nachos.FileSys.FirstFit

/-! # What a write through a handle can change

A handle keeps the header it was opened with, but its index sectors are read from the disk at
every transfer. `Remove` leaves the data sectors of a file marked, so a handle on a removed file
writes to sectors that nobody owns, as long as its index sectors have not been used again.
-/
namespace Nachos
open FileSystem (freeMapSector rootSector)

/-- An open file. The last two fields record the slot of the current directory it was opened on,
until the file is removed, and the disk at that moment. -/
structure Handle where
  file : OpenFile
  slot : Option (Fin numDirEntries)
  opened : Disk

structure Handles where
  fs : FileSystem
  table : List Handle

inductive HandleRequest where
  | create (name : List Byte) (initialSize : Word)
  | openFile (name : List Byte)
  | remove (name : List Byte)
  | seek (k position : ℕ)
  | read (k : ℕ) (numBytes : ℤ)
  | write (k : ℕ) (src : List Byte) (numBytes : ℤ)

namespace Handles

def handle (s : Handles) (k : ℕ) : Outcome Handle :=
  match s.table[k]? with
  | some h => .ok h
  | none => .error .outOfBounds

def setFile (s : Handles) (k : ℕ) (h : Handle) (f : OpenFile) : Handles :=
  { s with table := s.table.set k { h with file := f } }

def drop (s : Handles) (slot : Option (Fin numDirEntries)) : List Handle :=
  s.table.map fun h => if h.slot = slot then { h with slot := none } else h

def serve (S : Support) (heap : Heap) (chars : ℕ → Byte) (s : Handles) :
    HandleRequest → Outcome Handles
  | .create name initialSize => do
    let (_,fs) ← s.fs.create S heap name initialSize
    return { s with fs := fs }
  | .openFile name => do
    let file ← s.fs.openFile S heap name
    match file with
    | some f => return { s with
        table := s.table ++ [⟨f,s.fs.currentDir.findIndex name,s.fs.disk⟩] }
    | none => return s
  | .remove name => do
    let (_,fs) ← s.fs.remove S heap name
    return ⟨fs,s.drop (s.fs.currentDir.findIndex name)⟩
  | .seek k position => do
    let h ← s.handle k
    return s.setFile k h (h.file.seek position)
  | .read k numBytes => do
    let h ← s.handle k
    let (_,_,f) ← h.file.read S s.fs.disk numBytes
    return s.setFile k h f
  | .write k src numBytes => do
    let h ← s.handle k
    let (_,disk,f) ← h.file.write S chars s.fs.disk src numBytes
    return { s with fs := { s.fs with disk := disk } }.setFile k h f

end Handles

def handles (S : Support) : TransitionSystem Handles HandleRequest where
  init s := s.table = [] ∧ ∃ heap disk, FileSystem.format S heap disk = .ok s.fs
  step s l s' := ∃ heap chars, s.serve S heap chars l = .ok s'

/-- `ByteToSector` gives the same for every sector of the file as when it was opened. -/
def Handle.SameSectors (h : Handle) (d : Disk) : Prop :=
  ∀ k < h.file.hdr.blocks, h.file.hdr.byteToSector d (k * sectorSize) 1 =
    h.file.hdr.byteToSector h.opened (k * sectorSize) 1

/-- Bytes are asked for, and the cursor is not at the end. -/
def Handle.Transfers (h : Handle) (numBytes : ℤ) : Prop :=
  0 < numBytes ∧ h.file.seekPosition < h.file.length

/-- Calls behave, `.` and `..` are not opened, and bytes are written through the handle of a
removed file only as long as it finds the sectors it found when it was opened. -/
def Careful (S : Support) (s : Handles) : HandleRequest → Prop
  | .create name initialSize => Behaved S s.fs (.create name initialSize)
  | .openFile name => ∀ i, s.fs.currentDir.findIndex name = some i → 2 ≤ i.val
  | .remove name => Behaved S s.fs (.remove name)
  | .seek _ _ => True
  | .read _ _ => True
  | .write k _ numBytes => ∀ h, s.table[k]? = some h → h.slot = none → h.Transfers numBytes →
      h.SameSectors s.fs.disk

def Handle.On (h : Handle) (s : Handles) (o : Owner) (kind : NodeKind) : Prop :=
  kind = .file ∧ ∃ i, h.slot = some i ∧ o = .entry s.fs.currentDir.getSector.toNat i

/-- No header, no index sector, and no data of any directory, of the free map or of another
file has changed. -/
def Isolated (s s' : Handles) (h : Handle) : Prop :=
  ∀ o p kind, Holds s.fs.disk o p kind →
    (∀ t ∈ metaSectors s.fs.disk p kind, s'.fs.disk t = s.fs.disk t) ∧
    (¬ h.On s o kind → ∀ t ∈ dataSectors s.fs.disk p kind, s'.fs.disk t = s.fs.disk t)

/-- The data sectors of a removed file. -/
def Leaked (S : Support) (d : Disk) (t : ℕ) : Prop :=
  t ∈ storedMap S d ∧ ∀ o, t ∉ owned d o

/-- What is known of a handle: it keeps the header of a file, which is live and where it was, or
has left its data sectors to nobody. -/
structure HandleOk (S : Support) (fs : FileSystem) (cur : ℕ) (h : Handle) : Prop where
  cursor : 0 ≤ h.file.seekPosition
  file : ∃ t, NodeOk h.opened t .file ∧ h.file.hdr = headerAt h.opened t
  live : ∀ i, h.slot = some i → h.SameSectors fs.disk ∧ ∃ t,
    Holds fs.disk (.entry cur i) t .file ∧ h.file.hdr = headerAt fs.disk t
  leaked : h.slot = none → ∀ k < h.file.hdr.blocks, Leaked S fs.disk (h.file.hdr.block h.opened k)

structure Tracked (S : Support) (s : Handles) (o : Owner) (cur : ℕ) : Prop where
  coherent : Coherent S s.fs o cur
  plain : ∀ i, s.fs.currentDir.Child i → s.fs.currentDir.isDirOfIndex i = false
  handles : ∀ h ∈ s.table, HandleOk S s.fs cur h

section Leaks
variable {S : Support} {fs fs' : FileSystem} {o : Owner} {cur t s : ℕ} {i : Fin numDirEntries}
  {name : List Byte} {d' : Disk}

theorem Leaked.entered (h : Leaked S fs.disk t) (c : Coherent S fs o cur)
    (e : Entered S fs fs' o cur i name false s) : Leaked S fs'.disk t := by
  refine ⟨?_,?_⟩
  · rw [e.placed.map]
    exact Finset.mem_union_left _ h.1
  · rintro o' ⟨p,kind,ho,ht⟩
    rcases (c.placed_slotUpdate e.placed).holds_of ho with ho | ⟨-,-,hs,hk⟩
    · exact h.2 o' ⟨p,kind,ho,e.placed.agrees.ownedSectors_eq ho ▸ ht⟩
    · obtain ⟨hn,hkind⟩ := e.placed.entry_node
      rw [← hs, ← hk, hn, hkind] at ht
      exact e.placed.fresh t ht h.1

theorem Leaked.dropped (h : Leaked S fs.disk t) (c : Coherent S fs o cur)
    (p : Dropped fs d' o cur i) {freed : Finset ℕ}
    (hfreed : ∀ t ∈ freed, t ∈ owned fs.disk (.entry cur i))
    (hmap : storedMap S d' = storedMap S fs.disk \ freed) : Leaked S d' t := by
  refine ⟨?_,?_⟩
  · rw [hmap]
    exact Finset.mem_sdiff.mpr ⟨h.1,fun ht => h.2 _ (hfreed t ht)⟩
  · rintro o' ⟨q,kind,ho,ht⟩
    rcases (c.dropped_slotUpdate p).holds_of ho with ho | ⟨-,hchild,-⟩
    · exact h.2 o' ⟨q,kind,ho,p.agrees.ownedSectors_eq ho ▸ ht⟩
    · exact p.gone hchild

/-- The data sectors of a file that is removed stay marked and are nobody's. -/
theorem leaked_of_dropped (c : Coherent S fs o cur) (p : Dropped fs d' o cur i)
    (hheld : Holds fs.disk (.entry cur i) s .file) (ht : t ∈ dataSectors fs.disk s .file)
    (hmap : storedMap S d' =
      storedMap S fs.disk \ insert s (headerAt fs.disk s).indexSectors.toFinset) :
    Leaked S d' t := by
  have hown : t ∈ ownedSectors fs.disk s .file := List.mem_append_right _ ht
  refine ⟨?_,?_⟩
  · rw [hmap]
    refine Finset.mem_sdiff.mpr ⟨c.disk.marked hheld hown,fun hfreed => ?_⟩
    refine (c.disk.node hheld).not_mem_data (t := t) ?_ ht
    simpa [metaSectors] using hfreed
  · rintro o' ⟨q,kind,ho,ht'⟩
    rcases (c.dropped_slotUpdate p).holds_of ho with hold | ⟨-,hchild,-⟩
    · have hown' := p.agrees.ownedSectors_eq hold ▸ ht'
      have he := c.disk.owner_eq hold hheld hown' hown
      subst he
      cases ho with
      | entry _ hchild _ _ => exact p.gone hchild
    · exact p.gone hchild

theorem Dropped.keeps (c : Coherent S fs o cur) (p : Dropped fs d' o cur i) {o' : Owner}
    (hcur : Holds d' o' cur .directory) {j : Fin numDirEntries} (hji : j ≠ i) {kind : NodeKind}
    (hheld : Holds fs.disk (.entry cur j) t kind) : Holds d' (.entry cur j) t kind := by
  have u := c.dropped_slotUpdate p
  cases hheld with
  | entry ho hchild hs hk =>
    refine .entry hcur ((u.child_iff hji).mpr hchild) ?_ ?_
    · rw [← hs, u.slot j hji]
    · rw [← hk, u.slot j hji]

theorem Leaked.overwritten {d : Disk} {touched : Owner → Prop} (h : Leaked S d t)
    (wf : WellFormed S d) (ag : Agrees d d' touched)
    (hfile : ∀ {o s kind}, touched o → Holds d o s kind → kind = .file) : Leaked S d' t := by
  have hdir : ∀ {o s}, Holds d o s .directory → ¬ touched o := fun ho ht =>
    absurd (hfile ht ho) (by decide)
  refine ⟨(wf.overwrite ag hfile).2 ▸ h.1,?_⟩
  rintro o ⟨p,kind,ho,ht⟩
  have ho := (ag.holds_iff wf hdir).mp ho
  exact h.2 o ⟨p,kind,ho,ag.ownedSectors_eq ho ▸ ht⟩

end Leaks

section Keep
variable {S : Support} {fs fs' : FileSystem} {cur : ℕ} {h : Handle}

theorem NodeOk.byteToSector_congr {d d' : Disk} {t : ℕ} (hn : NodeOk d t .file)
    (h : ∀ u ∈ metaSectors d t .file, d' u = d u) {k : ℕ} (hk : k < (headerAt d t).blocks) :
    (headerAt d t).byteToSector d' (k * sectorSize) 1 =
      (headerAt d t).byteToSector d (k * sectorSize) 1 := by
  obtain ⟨hdirect,hlt⟩ := hn.index_lt hk
  rw [FileHeader.byteToSector_index _ d' hdirect hlt, h _ (index_mem_meta hk),
    FileHeader.byteToSector_index _ d hdirect hlt]

/-- The file of the handle is live on the other disk too, with the same header and index
sectors. -/
theorem HandleOk.keep (hok : HandleOk S fs cur h) (wf : WellFormed S fs.disk)
    (hlive : ∀ i t, h.slot = some i → Holds fs.disk (.entry cur i) t .file →
      Holds fs'.disk (.entry cur i) t .file ∧
        ∀ u ∈ metaSectors fs.disk t .file, fs'.disk u = fs.disk u)
    (hleaked : ∀ t, Leaked S fs.disk t → Leaked S fs'.disk t) : HandleOk S fs' cur h := by
  refine ⟨hok.cursor,hok.file,fun i hi => ?_,fun hi k hk => hleaked _ (hok.leaked hi k hk)⟩
  obtain ⟨hsame,t,hheld,hhdr⟩ := hok.live i hi
  obtain ⟨hheld',hmeta⟩ := hlive i t hi hheld
  refine ⟨fun k hk => ?_,t,hheld',?_⟩
  · rw [← hsame k hk, hhdr]
    rw [hhdr] at hk
    exact (wf.node hheld).byteToSector_congr hmeta hk
  · rw [hhdr]
    exact (headerAt_congr (hmeta t (mem_metaSectors_self fs.disk t .file))).symm

theorem HandleOk.block_eq (hok : HandleOk S fs cur h) (wf : WellFormed S fs.disk)
    {i : Fin numDirEntries} (hi : h.slot = some i) {t : ℕ}
    (hheld : Holds fs.disk (.entry cur i) t .file) (hhdr : h.file.hdr = headerAt fs.disk t)
    {k : ℕ} (hk : k < h.file.hdr.blocks) :
    h.file.hdr.block h.opened k = h.file.hdr.block fs.disk k := by
  obtain ⟨hsame,-⟩ := hok.live i hi
  obtain ⟨u,hnode,hopen⟩ := hok.file
  have hlook := hsame k hk
  have M := (wf.node hheld).mapping_block
  have M₀ := hnode.mapping_block
  rw [← hhdr] at M
  rw [← hopen] at M₀
  rw [M.resolve_self hk, M₀.resolve_self hk] at hlook
  exact_mod_cast (Except.ok.inj hlook).symm

end Keep

theorem handle_eq {s : Handles} {k : ℕ} {h : Handle} (hk : s.handle k = .ok h) :
    s.table[k]? = some h := by
  unfold Handles.handle at hk
  split at hk
  case h_1 hget =>
    cases hk
    exact hget
  case h_2 => cases hk

namespace Tracked
variable {S : Support} {s : Handles} {o : Owner} {cur : ℕ}

theorem created (T : Tracked S s o cur) {heap : Heap} {name : List Byte} {size : Word}
    (hl : Behaved S s.fs (.create name size)) {b : Bool} {fs : FileSystem}
    (hcreate : s.fs.create S heap name size = .ok (b,fs)) :
    Tracked S { s with fs := fs } o cur := by
  have c := T.coherent
  by_cases he : Enters S s.fs name
  · obtain ⟨h0,hindex,hroom⟩ := hl he
    obtain ⟨hname,-,hslot⟩ := he
    obtain ⟨i,hi⟩ := Option.ne_none_iff_exists'.mp hslot
    obtain ⟨t,fs',hcreate',e,-⟩ := c.create_ok heap hname hi (Int.toNat_of_nonneg h0).symm hindex
      (by omega)
    cases hcreate.symm.trans hcreate'
    refine ⟨e.coherent,fun j hj => ?_,fun h hh => ?_⟩
    · change fs.currentDir.Child j at hj
      change (fs.currentDir.getTableAt j).isDir = false
      rw [Directory.Child, Directory.isInUseOfIndex] at hj
      rw [e.table, Directory.getTableAt_withEntry] at hj ⊢
      by_cases hji : j = i
      · rw [if_pos hji]
        exact Directory.isDir_fillEntry _ _ _ _
      · rw [if_neg hji] at hj ⊢
        exact T.plain j hj
    · exact (T.handles h hh).keep c.disk
        (fun j t _ hheld => ⟨e.keeps hheld,e.placed.agrees.layout hheld⟩)
        fun t ht => ht.entered c e
  · have hsame : fs = s.fs := by
      rcases not_enters he with ⟨i,hi⟩ | ⟨hname,hfull⟩
      · exact congrArg Prod.snd (Except.ok.inj (hcreate.symm.trans (c.create_refused heap hi)))
      · exact congrArg Prod.snd (Except.ok.inj (hcreate.symm.trans
          (c.create_full heap hname hfull)))
    exact hsame ▸ T

theorem held (T : Tracked S s o cur) {i : Fin numDirEntries} (hi : s.fs.currentDir.Child i) :
    Holds s.fs.disk (.entry cur i) (s.fs.currentDir.getTableAt i).sector.toNat .file := by
  have c := T.coherent
  have hkind : (s.fs.currentDir.getTableAt i).kind = .file := by
    rw [DirectoryEntry.kind, show (s.fs.currentDir.getTableAt i).isDir = false from T.plain i hi]
    rfl
  rw [c.synced] at hi hkind ⊢
  exact .entry c.held hi rfl hkind

theorem opened (T : Tracked S s o cur) {heap : Heap} {name : List Byte}
    (hl : ∀ i, s.fs.currentDir.findIndex name = some i → 2 ≤ i.val) {f : OpenFile}
    (hopen : s.fs.openFile S heap name = .ok (some f)) :
    HandleOk S s.fs cur ⟨f,s.fs.currentDir.findIndex name,s.fs.disk⟩ := by
  have c := T.coherent
  cases hi : s.fs.currentDir.findIndex name with
  | none => cases hopen.symm.trans (c.openFile_none heap hi)
  | some i =>
    cases hopen.symm.trans (c.openFile_some heap hi)
    have hchild : s.fs.currentDir.Child i := ⟨hl i hi,(Directory.findIndex_some hi).1⟩
    have hheld := T.held hchild
    refine ⟨le_rfl,⟨_,c.disk.node hheld,rfl⟩,?_,fun h => (nomatch h)⟩
    rintro j ⟨⟩
    exact ⟨fun _ _ => rfl,_,hheld,rfl⟩

theorem removed (T : Tracked S s o cur) {heap : Heap} {name : List Byte}
    (hl : Behaved S s.fs (.remove name)) {b : Bool} {fs : FileSystem}
    (hremove : s.fs.remove S heap name = .ok (b,fs)) :
    ∃ o', Tracked S ⟨fs,s.drop (s.fs.currentDir.findIndex name)⟩ o' cur := by
  have c := T.coherent
  cases hi : s.fs.currentDir.findIndex name with
  | none =>
    obtain rfl : fs = s.fs :=
      congrArg Prod.snd (Except.ok.inj (hremove.symm.trans (c.remove_absent heap hi)))
    refine ⟨o,c,T.plain,fun h hh => ?_⟩
    obtain ⟨h₀,hh₀,rfl⟩ := List.mem_map.mp hh
    split
    case isTrue hslot => exact hslot ▸ T.handles h₀ hh₀
    case isFalse => exact T.handles h₀ hh₀
  | some i =>
    obtain ⟨d',o',hremove',c',p,hmap⟩ := c.remove_ok heap hi (hl i hi) rfl
    cases hremove.symm.trans hremove'
    have hchild : s.fs.currentDir.Child i := ⟨hl i hi,(Directory.findIndex_some hi).1⟩
    have hheld := T.held hchild
    refine ⟨o',c',fun j hj => ?_,fun h hh => ?_⟩
    · change (s.fs.currentDir.setInUseOfIndex i false).Child j at hj
      change ((s.fs.currentDir.setInUseOfIndex i false).getTableAt j).isDir = false
      have hji : j ≠ i := by
        rintro rfl
        rw [← p.table] at hj
        exact p.gone hj
      rw [Directory.Child, Directory.isInUseOfIndex] at hj
      rw [Directory.setInUseOfIndex, Directory.getTableAt_setTableAt, if_neg hji] at hj ⊢
      exact T.plain j hj
    · obtain ⟨h₀,hh₀,rfl⟩ := List.mem_map.mp hh
      have hok := T.handles h₀ hh₀
      have hfreed := freed_owned (c.disk.node hheld) hheld
      split
      case isTrue hslot =>
        refine ⟨hok.cursor,hok.file,?_,fun _ k hk => ?_⟩
        · rintro j ⟨⟩
        obtain ⟨-,t,hheld',hhdr⟩ := hok.live i hslot
        obtain rfl := (hheld'.unique hheld).1
        refine leaked_of_dropped c p hheld ?_ hmap
        change h₀.file.hdr.block h₀.opened k ∈ _
        rw [hok.block_eq c.disk hslot hheld hhdr hk, hhdr]
        exact block_mem_data (hhdr ▸ hk)
      case isFalse hslot =>
        refine hok.keep c.disk (fun j t hj hheld' => ⟨?_,p.agrees.layout hheld'⟩)
          fun t ht => ht.dropped c p hfreed hmap
        refine p.keeps c c'.held ?_ hheld'
        rintro rfl
        exact hslot hj

theorem overwritten (T : Tracked S s o cur) {d : Disk} {touched : Owner → Prop}
    (ag : Agrees s.fs.disk d touched)
    (hfile : ∀ {o p kind}, touched o → Holds s.fs.disk o p kind → kind = .file) :
    Tracked S { s with fs := { s.fs with disk := d } } o cur := by
  have c := T.coherent
  have hdir : ∀ {o p}, Holds s.fs.disk o p .directory → ¬ touched o := fun ho ht =>
    absurd (hfile ht ho) (by decide)
  refine ⟨(c.overwrite ag hfile).1,T.plain,fun h hh => ?_⟩
  exact (T.handles h hh).keep c.disk
    (fun i t _ hheld => ⟨(ag.holds_iff c.disk hdir).mpr hheld,ag.layout hheld⟩)
    fun t ht => ht.overwritten c.disk ag hfile

theorem moved (T : Tracked S s o cur) {k : ℕ} {h : Handle} (hk : s.table[k]? = some h)
    {position : ℤ} (hp : 0 ≤ position) :
    Tracked S (s.setFile k h (h.file.seek position)) o cur := by
  refine ⟨T.coherent,T.plain,fun g hg => ?_⟩
  rcases List.mem_or_eq_of_mem_set hg with hg | rfl
  · exact T.handles g hg
  · have hok := T.handles h (List.mem_of_getElem? hk)
    exact ⟨hp,hok.file,hok.live,hok.leaked⟩

theorem write_agrees (T : Tracked S s o cur) {k : ℕ} {h : Handle} (hk : s.table[k]? = some h)
    {numBytes r : ℤ} (hl : h.slot = none → h.Transfers numBytes → h.SameSectors s.fs.disk)
    {chars : ℕ → Byte} {src : List Byte} {d : Disk} {f : OpenFile}
    (hw : h.file.write S chars s.fs.disk src numBytes = .ok (r,d,f)) :
    f = h.file.seek (h.file.seekPosition + r) ∧ 0 ≤ r ∧
      Agrees s.fs.disk d fun o => ∃ i, h.slot = some i ∧ o = .entry cur i := by
  have c := T.coherent
  have hok := T.handles h (List.mem_of_getElem? hk)
  obtain ⟨p,hp⟩ := Int.eq_ofNat_of_zero_le hok.cursor
  obtain ⟨⟨r',d'⟩,hwrite,heq⟩ := Outcome.bind_eq_ok.mp hw
  cases heq
  rw [hp] at hwrite
  cases hslot : h.slot with
  | some i =>
    obtain ⟨-,t,hheld,hhdr⟩ := hok.live i hslot
    have hn := c.disk.node hheld
    have M := hn.mapping_block
    rw [← hhdr] at M
    obtain ⟨hr,hout⟩ := writeAt_frame M (hhdr ▸ hn.size.1) hwrite
    refine ⟨rfl,hr,Agrees.write c.disk (.refl _ _) ⟨i,rfl,rfl⟩ hheld fun u hu => hout u ?_⟩
    intro n hn' he
    rw [hhdr] at he hn'
    exact hu (he ▸ block_mem_data hn')
  | none =>
    obtain ⟨t,hn,hhdr⟩ := hok.file
    by_cases hmove : h.Transfers numBytes
    case neg =>
      have h0 : numBytes ≤ 0 ∨ h.file.hdr.fileLength ≤ p := by
        rw [Handle.Transfers, hp, not_and_or, not_lt, not_lt] at hmove
        exact hmove
      rw [OpenFile.writeAt, if_pos h0] at hwrite
      cases hwrite
      exact ⟨rfl,le_rfl,.refl _ _⟩
    have hsame := hl hslot hmove
    unfold Handle.SameSectors at hsame
    rw [hhdr] at hsame
    have M := hn.mapping_of_same hsame
    rw [← hhdr] at M
    obtain ⟨hr,hout⟩ := writeAt_frame M (hhdr ▸ hn.size.1) hwrite
    have hlive : ∀ {o p kind}, Holds s.fs.disk o p kind → ∀ u ∈ ownedSectors s.fs.disk p kind,
        d u = s.fs.disk u := by
      intro o p kind ho u hu
      refine hout u fun n hn' he => (hok.leaked hslot n hn').2 o ?_
      exact ⟨p,kind,ho,he ▸ hu⟩
    exact ⟨rfl,hr,fun ho u hu => hlive ho u (List.mem_append_left _ hu),
      fun ho _ u hu => hlive ho u (List.mem_append_right _ hu)⟩

theorem same_removed (T : Tracked S s o cur) {heap : Heap} {name : List Byte}
    (hl : Behaved S s.fs (.remove name)) {b : Bool} {fs : FileSystem}
    (hremove : s.fs.remove S heap name = .ok (b,fs)) {h : Handle} (hh : h ∈ s.table)
    {j : Fin numDirEntries} (hj : h.slot = some j) : h.SameSectors fs.disk := by
  have c := T.coherent
  obtain ⟨hsame,t,hheld,hhdr⟩ := (T.handles h hh).live j hj
  cases hi : s.fs.currentDir.findIndex name with
  | none =>
    cases hremove.symm.trans (c.remove_absent heap hi)
    exact hsame
  | some i =>
    obtain ⟨d',o',hremove',-,p,-⟩ := c.remove_ok heap hi (hl i hi) rfl
    cases hremove.symm.trans hremove'
    intro k hk
    rw [← hsame k hk, hhdr]
    rw [hhdr] at hk
    exact (c.disk.node hheld).byteToSector_congr (p.agrees.layout hheld) hk

theorem touched_file (T : Tracked S s o cur) {h : Handle} (hh : h ∈ s.table) {o' : Owner} {p : ℕ}
    {kind : NodeKind} (ho : ∃ i, h.slot = some i ∧ o' = .entry cur i)
    (hheld : Holds s.fs.disk o' p kind) : kind = .file := by
  obtain ⟨i,hi,rfl⟩ := ho
  obtain ⟨-,t,hfile,-⟩ := (T.handles h hh).live i hi
  exact (hheld.unique hfile).2

theorem serve (T : Tracked S s o cur) {heap : Heap} {chars : ℕ → Byte} {l : HandleRequest}
    (hl : Careful S s l) {s' : Handles} (hs : s.serve S heap chars l = .ok s') :
    ∃ o', Tracked S s' o' cur := by
  cases l with
  | create name size =>
    obtain ⟨⟨b,fs⟩,hcreate,heq⟩ := Outcome.bind_eq_ok.mp hs
    cases heq
    exact ⟨o,T.created hl hcreate⟩
  | openFile name =>
    obtain ⟨file,hopen,hs⟩ := Outcome.bind_eq_ok.mp hs
    cases file with
    | none =>
      cases hs
      exact ⟨o,T⟩
    | some f =>
      cases hs
      refine ⟨o,T.coherent,T.plain,fun h hh => ?_⟩
      rcases List.mem_append.mp hh with hh | hh
      · exact T.handles h hh
      · exact List.mem_singleton.mp hh ▸ T.opened hl hopen
  | remove name =>
    obtain ⟨⟨b,fs⟩,hremove,heq⟩ := Outcome.bind_eq_ok.mp hs
    cases heq
    exact T.removed hl hremove
  | seek k position =>
    obtain ⟨h,hk,hs⟩ := Outcome.bind_eq_ok.mp hs
    cases hs
    exact ⟨o,T.moved (handle_eq hk) (Int.natCast_nonneg position)⟩
  | read k numBytes =>
    obtain ⟨h,hk,hs⟩ := Outcome.bind_eq_ok.mp hs
    obtain ⟨⟨r,bytes,f⟩,hread,hs⟩ := Outcome.bind_eq_ok.mp hs
    cases hs
    have hk := handle_eq hk
    have hcursor := (T.handles h (List.mem_of_getElem? hk)).cursor
    obtain ⟨p,hp⟩ := Int.eq_ofNat_of_zero_le hcursor
    obtain ⟨⟨r',bytes'⟩,hreadAt,heq⟩ := Outcome.bind_eq_ok.mp hread
    cases heq
    rw [hp] at hreadAt
    exact ⟨o,T.moved hk (Int.add_nonneg hcursor (readAt_nonneg hreadAt))⟩
  | write k src numBytes =>
    obtain ⟨h,hk,hs⟩ := Outcome.bind_eq_ok.mp hs
    obtain ⟨⟨r,d,f⟩,hw,hs⟩ := Outcome.bind_eq_ok.mp hs
    cases hs
    have hk := handle_eq hk
    have hh := List.mem_of_getElem? hk
    obtain ⟨rfl,hr,ag⟩ := T.write_agrees hk (hl h hk) hw
    have T' := T.overwritten ag (T.touched_file hh)
    exact ⟨o,T'.moved hk (Int.add_nonneg (T.handles h hh).cursor hr)⟩

end Tracked

theorem tracked_of_run {S : Support} {s : Handles}
    (h : ((handles S).guard (Careful S)).Reachable s) : ∃ o cur, Tracked S s o cur := by
  refine h.invariant (P := fun s => ∃ o cur, Tracked S s o cur) (fun s hs => ?_)
    fun s l s' T hs => ?_
  · obtain ⟨hnil,heap,disk,hf⟩ := hs
    obtain ⟨fs,hf',f⟩ := format_eq S heap disk
    cases hf.symm.trans hf'
    refine ⟨_,_,f.coherent,fun i hi => absurd hi (f.not_child i),?_⟩
    simp [hnil]
  · obtain ⟨o,cur,T⟩ := T
    obtain ⟨hl,heap,chars,hserve⟩ := hs
    obtain ⟨o',T'⟩ := T.serve hl hserve
    exact ⟨o',cur,T'⟩

/-- In a run of careful requests no write changes anything but its own file. -/
theorem handleIsolation {S : Support} {s s' : Handles} {k : ℕ} {src : List Byte} {numBytes : ℤ}
    (h : ((handles S).guard (Careful S)).Reachable s)
    (hw : ((handles S).guard (Careful S)).step s (.write k src numBytes) s') :
    ∃ hd, s.table[k]? = some hd ∧ Isolated s s' hd := by
  obtain ⟨o,cur,T⟩ := tracked_of_run h
  obtain ⟨hl,heap,chars,hs⟩ := hw
  obtain ⟨hd,hk,hs⟩ := Outcome.bind_eq_ok.mp hs
  obtain ⟨⟨r,d,f⟩,hwrite,hs⟩ := Outcome.bind_eq_ok.mp hs
  cases hs
  have hk := handle_eq hk
  obtain ⟨-,-,ag⟩ := T.write_agrees hk (hl hd hk) hwrite
  refine ⟨hd,hk,fun o' p kind ho => ⟨ag.layout ho,fun hnot => ag.data ho fun hon => ?_⟩⟩
  refine hnot ⟨T.touched_file (List.mem_of_getElem? hk) hon ho,?_⟩
  rw [T.coherent.home, Int.toNat_natCast]
  exact hon

theorem Careful.step {S : Support} {s : Handles} {l : HandleRequest} (hl : Careful S s l)
    (heap : Heap) (chars : ℕ → Byte) (s' : Handles) (hs : s.serve S heap chars l = .ok s') :
    ((handles S).guard (Careful S)).step s l s' :=
  ⟨hl,heap,chars,hs⟩

theorem exists_twoFiles : ∃ fs₁ fs₂ t u,
    ((handles FirstFit.support).guard (Careful FirstFit.support)).Reachable ⟨fs₂,[]⟩ ∧
    Holds fs₁.disk (.entry rootSector 2) t .file ∧
    Entered FirstFit.support fs₁ fs₂ .root rootSector 3 [97] false u ∧
    fs₂.currentDir.findIndex [97] = some 3 ∧ (headerAt fs₂.disk u).numBytes = 300 := by
  obtain ⟨fs,hformat,f⟩ := format_eq FirstFit.support FirstFit.heap FirstFit.disk
  have hn : (FileHeader.sectorsFor FirstFit.support 300).toInt = (3 : ℕ) := by decide
  have hname : fs.currentDir.findIndex [98] = none := f.findIndex_none (by decide) (by decide)
  obtain ⟨t,fs₁,hcreate₁,e₁,-,hblocks,-⟩ := f.coherent.create_ok FirstFit.heap hname
    f.freeIndex_eq hn (by decide) (by rw [f.clear]; decide)
  have hslot₁ : fs₁.currentDir.freeIndex = some 3 := by
    rw [e₁.table]
    exact f.freeIndex_withEntry
  have hname₁ : fs₁.currentDir.findIndex [97] = none := by
    rw [e₁.table, Directory.findIndex_withEntry_ne (Directory.freeIndex_some f.freeIndex_eq).2
      (by decide)]
    exact f.findIndex_none (by decide) (by decide)
  have hclear₁ : (storedMap FirstFit.support fs₁.disk).numClear = 1014 := by
    rw [e₁.placed.numClear, f.clear]
    change _ - ((ownedSectors fs₁.disk t .file).length : ℤ) = _
    rw [length_ownedSectors_file, hblocks]
    decide
  obtain ⟨u,fs₂,hcreate₂,e₂,hbytes,-⟩ := e₁.coherent.create_ok FirstFit.heap hname₁ hslot₁ hn
    (by decide) (by rw [hclear₁]; decide)
  have hroom : ∀ {g : FileSystem}, 5 ≤ (storedMap FirstFit.support g.disk).numClear →
      Room FirstFit.support g (FileHeader.sectorsFor FirstFit.support 300).toInt := by
    intro g hg
    rw [hn]
    exact ⟨by decide,by decide,hg⟩
  have hstart : ((handles FirstFit.support).guard (Careful FirstFit.support)).Reachable
      ⟨fs,[]⟩ := .start ⟨rfl,_,_,hformat⟩
  have careful₁ : Careful FirstFit.support ⟨fs,[]⟩ (.create [98] 300) := fun _ =>
    hroom (by rw [f.clear]; decide)
  have careful₂ : Careful FirstFit.support ⟨fs₁,[]⟩ (.create [97] 300) := fun _ =>
    hroom (by rw [hclear₁]; decide)
  have hcreated₁ := hstart.step (careful₁.step FirstFit.heap (fun _ => 0) ⟨fs₁,[]⟩ (by
    rw [Handles.serve, hcreate₁]
    rfl))
  have hcreated₂ := hcreated₁.step (careful₂.step FirstFit.heap (fun _ => 0) ⟨fs₂,[]⟩ (by
    rw [Handles.serve, hcreate₂]
    rfl))
  exact ⟨fs₁,fs₂,t,u,hcreated₂,e₁.holds,e₂,e₂.findIndex hname₁,hbytes⟩

/-- A byte is written through a handle on `a`, which has been removed, while there is a file `b`. -/
theorem handleIsolation_removed : ∃ s s' hd,
    ((handles FirstFit.support).guard (Careful FirstFit.support)).step s (.write 0 [7] 1) s' ∧
    s.table[0]? = some hd ∧ hd.slot = none ∧ hd.Transfers 1 ∧
    (∃ t, Holds s.fs.disk (.entry rootSector 2) t .file) ∧ Isolated s s' hd := by
  obtain ⟨fs₁,fs,t,u,hcreated,hb,e,hindex,hbytes⟩ := exists_twoFiles
  have hopen := e.coherent.openFile_some FirstFit.heap hindex
  rw [e.sector] at hopen
  have hcareful : Careful FirstFit.support ⟨fs,[]⟩ (.openFile [97]) := fun i hi => by
    cases hindex.symm.trans hi
    decide
  have hopened := hcreated.step (hcareful.step FirstFit.heap (fun _ => 0)
    ⟨fs,[⟨⟨headerAt fs.disk u,0⟩,some 3,fs.disk⟩]⟩ (by
      rw [Handles.serve, hopen, Outcome.ok_bind, hindex]
      rfl))
  -- `a` is removed, and its index sector stays where it was
  obtain ⟨d',o',hremove,c',p,-⟩ := e.coherent.remove_ok FirstFit.heap hindex (by decide) e.sector
  have hl : Careful FirstFit.support ⟨fs,[⟨⟨headerAt fs.disk u,0⟩,some 3,fs.disk⟩]⟩
      (.remove [97]) := fun i hi => by
    cases hindex.symm.trans hi
    decide
  have hremoved := hopened.step (hl.step FirstFit.heap (fun _ => 0)
    ⟨⟨d',fs.freeMapFile,fs.currentDir.setInUseOfIndex 3 false⟩,
      [⟨⟨headerAt fs.disk u,0⟩,none,fs.disk⟩]⟩ (by
      rw [Handles.serve, hremove, Outcome.ok_bind, hindex]
      rfl))
  obtain ⟨_,_,T⟩ := tracked_of_run hopened
  have hsame := T.same_removed hl hremove (List.mem_singleton_self _) rfl
  have hlength : (headerAt fs.disk u).fileLength = 300 := by
    rw [FileHeader.fileLength, hbytes]
    decide
  have hnode := e.coherent.disk.node e.holds
  obtain ⟨d,hwrite,-⟩ := writeAt_signed (S := FirstFit.support) (f := ⟨headerAt fs.disk u,0⟩)
    (hnode.mapping_of_same hsame) (Int.toNat_le.mpr (mod_cast hnode.size.1)) (fun _ => 0) [7] 0 1
    (by decide) (by rw [hlength]; decide)
  rw [Int.natCast_zero, hlength] at hwrite
  have hstale : Careful FirstFit.support
      ⟨⟨d',fs.freeMapFile,fs.currentDir.setInUseOfIndex 3 false⟩,
        [⟨⟨headerAt fs.disk u,0⟩,none,fs.disk⟩]⟩ (.write 0 [7] 1) := by
    rintro h ⟨⟩ - -
    exact hsame
  have hstep := hstale.step FirstFit.heap (fun _ => 0) _ (by
    rw [Handles.serve, show Handles.handle _ 0 = .ok _ from rfl, Outcome.ok_bind, OpenFile.write,
      hwrite]
    rfl)
  obtain ⟨hd,hk,hiso⟩ := handleIsolation hremoved hstep
  refine ⟨_,_,hd,hstep,hk,?_,?_,⟨t,p.keeps e.coherent c'.held (by decide) (e.keeps hb)⟩,hiso⟩
  all_goals cases hk
  · rfl
  · exact ⟨by decide,lt_of_lt_of_eq (by decide : (0 : ℤ) < 300) hlength.symm⟩

def Handles.serves (S : Support) (heap : Heap) (chars : ℕ → Byte) (s : Handles) :
    List HandleRequest → Outcome Handles
  | [] => return s
  | l :: ls => do
    let s ← s.serve S heap chars l
    s.serves S heap chars ls

theorem reachable_serves {S : Support} {heap : Heap} {chars : ℕ → Byte} {s s' : Handles}
    {ls : List HandleRequest} (h : (handles S).Reachable s)
    (hs : s.serves S heap chars ls = .ok s') : (handles S).Reachable s' := by
  induction ls generalizing s with
  | nil =>
    cases hs
    exact h
  | cons l ls ih =>
    obtain ⟨s₁,hserve,hrest⟩ := Outcome.bind_eq_ok.mp hs
    exact ih (h.step ⟨heap,chars,hserve⟩) hrest

/-- `a` is removed while a handle is open on it, and `b` gets its index sector. What is written
through the handle is found in `b`. -/
theorem not_handleIsolation :
    ¬ ∀ (s s' : Handles) (k : ℕ) (src : List Byte) (numBytes : ℤ),
      (handles FirstFit.support).Reachable s →
      (handles FirstFit.support).step s (.write k src numBytes) s' →
      ∃ hd, s.table[k]? = some hd ∧ Isolated s s' hd := by
  intro hall
  have hrun : (do
      let fs ← FileSystem.format FirstFit.support FirstFit.heap FirstFit.disk
      let s ← Handles.serves FirstFit.support FirstFit.heap (fun _ => 0) ⟨fs,[]⟩
        [.create [97] 1,.openFile [97],.remove [97],.create [98] 1]
      let s' ← s.serve FirstFit.support FirstFit.heap (fun _ => 0) (.write 0 [7] 1)
      let e := (directoryAt s.fs.disk rootSector).getTableAt 2
      return decide (s.table.map Handle.slot = [none] ∧ e.inUse = true ∧ e.isDir = false ∧
        ∃ t ∈ dataSectors s.fs.disk e.sector.toNat .file,
          (s'.fs.disk t).bytes.head? ≠ (s.fs.disk t).bytes.head?) : Outcome Bool) =
      .ok true := by decide +kernel
  obtain ⟨fs,hformat,hrun⟩ := Outcome.bind_eq_ok.mp hrun
  obtain ⟨s,hserves,hrun⟩ := Outcome.bind_eq_ok.mp hrun
  obtain ⟨s',hwrite,hrun⟩ := Outcome.bind_eq_ok.mp hrun
  obtain ⟨hslots,huse,hdir,t,ht,hne⟩ := of_decide_eq_true (Except.ok.inj hrun)
  have hreach : (handles FirstFit.support).Reachable s :=
    reachable_serves (.start ⟨rfl,_,_,hformat⟩) hserves
  obtain ⟨hd,hk,hiso⟩ := hall s s' 0 [7] 1 hreach ⟨_,_,hwrite⟩
  have hslot : hd.slot = none := by
    have hget := congrArg (·[0]?) hslots
    simp only [List.getElem?_map, hk] at hget
    simpa using hget
  have hb : Holds s.fs.disk (.entry rootSector 2) _ .file :=
    .entry .root ⟨le_rfl,huse⟩ rfl (by rw [DirectoryEntry.kind, hdir]; rfl)
  have hoff : ¬ hd.On s (.entry rootSector 2) .file := by
    rintro ⟨-,i,hi,-⟩
    cases hslot.symm.trans hi
  have hsame := (hiso _ _ _ hb).2 hoff t ht
  exact hne (by rw [hsame])

end Nachos
