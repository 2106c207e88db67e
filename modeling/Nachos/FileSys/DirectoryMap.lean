import Nachos.FileSys.Table
import Nachos.Library.BoundedMap
import Nachos.Library.Run
import Mathlib.Data.Fintype.Basic

/-! # A directory is a bounded map

The entries in use behind `.` and `..` are a finite map from the first characters
of a name to a sector and a kind, with room for `numDirEntries - 2` names. What
a slot was used for before does not show.
-/
namespace Nachos

inductive TableCall
  | add (name : List Byte) (newSector : Word)
  | addDirectory (name : List Byte) (sector : Word)
  | remove (name : List Byte)
  deriving DecidableEq

/-- What a table says of a name: a sector and whether it is a directory. -/
abbrev NameMap := BoundedMap (List Byte) (Word × Bool) (numDirEntries - 2)

namespace TableCall

def name : TableCall → List Byte
  | add name _ | addDirectory name _ | remove name => name

end TableCall

def PlainName (name : List Byte) : Prop :=
  cString fileNameMaxLen name ≠ Directory.dot ∧ cString fileNameMaxLen name ≠ Directory.dotDot

namespace Directory

def tableCall (dir : Directory) : TableCall → Bool × Directory
  | .add name newSector => dir.add name newSector
  | .addDirectory name sector => dir.addDirectory name sector
  | .remove name => dir.remove name

/-- What the callers see to: no `.` and no `..`, a sector that was found, and a name
that `Find` does not know for a new directory. -/
def Proper (dir : Directory) (c : TableCall) : Prop :=
  PlainName c.name ∧ match c with
    | .add _ newSector => newSector.toInt ≠ -1
    | .addDirectory name sector => sector.toInt ≠ -1 ∧ dir.find name = -1
    | .remove _ => True

/-- The calls on a table from its construction on, with their answers. -/
def tables : TransitionSystem Directory (TableCall × Bool) where
  init dir := ∃ mem, dir = new mem
  step dir l dir' := dir.Proper l.1 ∧ dir.tableCall l.1 = (l.2,dir')

noncomputable def mapCall (m : NameMap) : TableCall → Bool × NameMap
  | .add name newSector => m.add (cString fileNameMaxLen name) (newSector,false)
  | .addDirectory name sector => m.add (cString fileNameMaxLen name) (sector,true)
  | .remove name => m.remove (cString fileNameMaxLen name)

noncomputable def nameMaps : TransitionSystem NameMap (TableCall × Bool) where
  init m := m = .empty
  step m l m' := mapCall m l.1 = (l.2,m')

def valueAt (dir : Directory) (i : Fin numDirEntries) : Word × Bool :=
  ((dir.getTableAt i).sector,dir.isDirOfIndex i)

def binding (dir : Directory) (name : List Byte) : Option (Word × Bool) :=
  (dir.findIndex name).map dir.valueAt

def Distinct (dir : Directory) : Prop :=
  ∀ i j, dir.isInUseOfIndex i = true → dir.isInUseOfIndex j = true →
    dir.nameAt i = dir.nameAt j → i = j

/-- The entries in use are the map, each name in one entry. -/
structure Represents (dir : Directory) (m : NameMap) : Prop where
  dot : Named dir dot currentDirectoryIndex
  dotDot : Named dir dotDot parentDirectoryIndex
  distinct : Distinct dir
  entries : ∀ k v, m.lookup k = some v ↔ ∃ i, Child dir i ∧ dir.nameAt i = k ∧ dir.valueAt i = v
  sectors : ∀ k v, m.lookup k = some v → v.1.toInt ≠ -1

variable {dir : Directory} {m : NameMap} {name : List Byte} {i j : Fin numDirEntries}

theorem Represents.child_of_plain (r : Represents dir m) (hp : PlainName name)
    (hi : Named dir name i) : Child dir i := by
  refine ⟨?_,hi.1⟩
  by_contra h
  rcases index_cases h with rfl | rfl
  · exact hp.1 (hi.2.symm.trans r.dot.2)
  · exact hp.2 (hi.2.symm.trans r.dotDot.2)

theorem Represents.findIndex_iff (r : Represents dir m) :
    dir.findIndex name = some i ↔ Named dir name i := by
  constructor
  · exact findIndex_some
  · intro h
    refine findIndex_eq_some h fun j hj hn => ?_
    exact hj.ne (r.distinct j i hn.1 h.1 (hn.2.trans h.2.symm))

theorem Represents.binding_eq (r : Represents dir m) (hp : PlainName name) :
    dir.binding name = m.lookup (cString fileNameMaxLen name) := by
  apply Option.ext
  intro v
  rw [r.entries, binding, Option.map_eq_some_iff]
  constructor
  · rintro ⟨i,hi,hv⟩
    have hn := findIndex_some hi
    exact ⟨i,r.child_of_plain hp hn,hn.2,hv⟩
  · rintro ⟨i,hc,hn,hv⟩
    exact ⟨i,r.findIndex_iff.mpr ⟨hc.2,hn⟩,hv⟩

theorem Represents.findIndex_none (r : Represents dir m) (hp : PlainName name) :
    dir.findIndex name = none ↔ m.lookup (cString fileNameMaxLen name) = none := by
  rw [← r.binding_eq hp, binding, Option.map_eq_none_iff]

theorem Represents.find_eq (r : Represents dir m) (hp : PlainName name) :
    dir.find name =
      ((m.lookup (cString fileNameMaxLen name)).map fun v => v.1.toInt).getD (-1) := by
  rw [← r.binding_eq hp, binding, find]
  cases dir.findIndex name <;> simp [valueAt]

theorem Represents.find_absent (r : Represents dir m) (hp : PlainName name) :
    dir.find name = -1 ↔ dir.findIndex name = none := by
  rw [r.find_eq hp, r.findIndex_none hp]
  cases h : m.lookup (cString fileNameMaxLen name) with
  | none => simp
  | some v =>
    have := r.sectors _ _ h
    simpa using this

def slots : Finset (Fin numDirEntries) := Finset.univ.filter fun i => 2 ≤ i.val

def children (dir : Directory) : Finset (Fin numDirEntries) :=
  slots.filter fun i => dir.isInUseOfIndex i = true

theorem mem_children : i ∈ dir.children ↔ Child dir i := by
  simp [children, slots, Child]

/-- A table with its dots and nothing else. -/
theorem Dots.distinct {s t : ℕ} (h : Dots dir s t)
    (hempty : ∀ i, ¬ Child dir i) : Distinct dir := by
  have hcases : ∀ i, dir.isInUseOfIndex i = true →
      i = currentDirectoryIndex ∨ i = parentDirectoryIndex := fun i hi =>
    index_cases fun h2 => hempty i ⟨h2,hi⟩
  have hne : dir.nameAt currentDirectoryIndex ≠
      dir.nameAt parentDirectoryIndex := by
    rw [nameAt, h.current.name, nameAt, h.parent.name]
    decide
  intro i j hi hj hij
  rcases hcases i hi with rfl | rfl <;> rcases hcases j hj with rfl | rfl
  · rfl
  · exact absurd hij hne
  · exact absurd hij.symm hne
  · rfl

theorem freeIndex_eq_none : dir.freeIndex = none ↔ dir.children = slots := by
  simp only [freeIndex, List.find?_eq_none, children, Finset.filter_eq_self, slots,
    Finset.mem_filter, Finset.mem_univ, true_and, List.mem_finRange, forall_const]
  simp

theorem card_children_lt : dir.children.card < numDirEntries - 2 ↔ dir.freeIndex ≠ none := by
  have hslots : slots.card = numDirEntries - 2 := by decide
  have hsub : dir.children ⊆ slots := Finset.filter_subset _ _
  rw [ne_eq, freeIndex_eq_none, ← hslots]
  constructor
  · intro hlt heq
    rw [heq] at hlt
    exact hlt.false
  · intro hne
    exact lt_of_le_of_ne (Finset.card_le_card hsub) fun heq =>
      hne (Finset.eq_of_subset_of_card_le hsub heq.ge)

theorem freeIndex_ne_none_of_empty (h : ∀ i, ¬ Child dir i) : dir.freeIndex ≠ none := by
  have hnone : dir.children = ∅ :=
    Finset.eq_empty_of_forall_notMem fun i hi => h i (mem_children.mp hi)
  rw [← card_children_lt, hnone]
  decide

theorem Dots.findIndex_none {s t : ℕ} (h : Dots dir s t) (hempty : ∀ i, ¬ Child dir i)
    (hp : PlainName name) : dir.findIndex name = none := by
  refine findIndex_eq_none.mpr fun i hi => ?_
  rcases index_cases fun h2 => hempty i ⟨h2,hi.1⟩ with rfl | rfl
  · exact hp.1 (hi.2.symm.trans h.current.name)
  · exact hp.2 (hi.2.symm.trans h.parent.name)

theorem Distinct.card_names (hd : Distinct dir) :
    (dir.children.image dir.nameAt).card = dir.children.card :=
  Finset.card_image_of_injOn fun i hi j hj hij =>
    hd i j (mem_children.mp hi).2 (mem_children.mp hj).2 hij

theorem Represents.size_eq (r : Represents dir m) : m.size = dir.children.card := by
  have hkeys : m.map.keys = dir.children.image dir.nameAt := by
    ext k
    simp only [BoundedMap.mem_keys, Finset.mem_image, mem_children, r.entries]
    constructor
    · rintro ⟨v,i,hc,hn,-⟩
      exact ⟨i,hc,hn⟩
    · rintro ⟨i,hc,hn⟩
      exact ⟨_,i,hc,hn,rfl⟩
  rw [BoundedMap.size, hkeys, r.distinct.card_names]

theorem Represents.freeIndex_iff (r : Represents dir m) :
    dir.freeIndex = none ↔ ¬ m.size < numDirEntries - 2 := by
  rw [r.size_eq, card_children_lt, not_not]

theorem represents_new (mem : Directory) : Represents (new mem) .empty := by
  have hused : ∀ i : Fin numDirEntries, (new mem).isInUseOfIndex i = true →
      i = currentDirectoryIndex ∨ i = parentDirectoryIndex := by
    intro i hi
    by_contra h
    rw [not_or] at h
    rw [isInUseOfIndex, getTableAt_new, if_neg h.1, if_neg h.2, DirectoryEntry.inUse] at hi
    exact absurd hi (show ¬ decide ((0 : Byte) &&& 1 ≠ 0) = true by decide)
  have hdot : Named (new mem) dot currentDirectoryIndex := by
    constructor
    · rw [isInUseOfIndex, getTableAt_new, if_pos rfl]
      exact show decide ((3 : Byte) &&& 1 ≠ 0) = true by decide
    · rw [nameAt, getTableAt_new, if_pos rfl]
      exact cString_strcpy_dot _
  have hdotDot : Named (new mem) dotDot parentDirectoryIndex := by
    constructor
    · rw [isInUseOfIndex, getTableAt_new, if_neg (by decide), if_pos rfl]
      exact show decide ((3 : Byte) &&& 1 ≠ 0) = true by decide
    · rw [nameAt, getTableAt_new, if_neg (by decide), if_pos rfl]
      exact cString_strcpy_dotDot _
  have hne : (new mem).nameAt currentDirectoryIndex ≠ (new mem).nameAt parentDirectoryIndex := by
    rw [hdot.2, hdotDot.2]
    decide
  refine ⟨hdot,hdotDot,?_,?_,?_⟩
  · intro i j hi hj hij
    rcases hused i hi with rfl | rfl <;> rcases hused j hj with rfl | rfl
    · rfl
    · exact absurd hij hne
    · exact absurd hij.symm hne
    · rfl
  · intro k v
    simp only [BoundedMap.lookup_empty, reduceCtorEq, false_iff]
    rintro ⟨i,⟨h2,hi⟩,-⟩
    rcases hused i hi with rfl | rfl
    · exact absurd h2 (by decide)
    · exact absurd h2 (by decide)
  · intro k v h
    simp at h

theorem nameAt_withEntry (dir : Directory) (i j : Fin numDirEntries) (name : List Byte)
    (isDir : Bool) (s : ℕ) : (dir.withEntry i name isDir s).nameAt j =
      if j = i then cString fileNameMaxLen name else dir.nameAt j := by
  rw [nameAt, getTableAt_withEntry]
  split_ifs
  · exact name_fillEntry _ _ _ _
  · rfl

theorem valueAt_withEntry (dir : Directory) (i j : Fin numDirEntries) (name : List Byte)
    (isDir : Bool) (s : ℕ) : (dir.withEntry i name isDir s).valueAt j =
      if j = i then (BitVec.ofNat 32 s,isDir) else dir.valueAt j := by
  rw [valueAt, isDirOfIndex, getTableAt_withEntry]
  split_ifs
  · rw [isDir_fillEntry, sector_fillEntry]
  · rfl

theorem Distinct.withEntry (hd : Distinct dir) (hnone : dir.findIndex name = none)
    (i : Fin numDirEntries) (isDir : Bool) (s : ℕ) :
    Distinct (dir.withEntry i name isDir s) := by
  have hnew : ∀ j, dir.isInUseOfIndex j = true → dir.nameAt j ≠ cString fileNameMaxLen name := by
    intro j hj hn
    exact findIndex_eq_none.mp hnone j ⟨hj,hn⟩
  intro a b ha hb hab
  rw [nameAt_withEntry, nameAt_withEntry] at hab
  by_cases hai : a = i <;> by_cases hbi : b = i
  · rw [hai, hbi]
  · rw [if_pos hai, if_neg hbi] at hab
    rw [inUse_withEntry_ne hbi] at hb
    exact absurd hab.symm (hnew b hb)
  · rw [if_neg hai, if_pos hbi] at hab
    rw [inUse_withEntry_ne hai] at ha
    exact absurd hab (hnew a ha)
  · rw [if_neg hai, if_neg hbi] at hab
    rw [inUse_withEntry_ne hai] at ha
    rw [inUse_withEntry_ne hbi] at hb
    exact hd a b ha hb hab

theorem entries_withEntry (hnone : dir.findIndex name = none)
    (hi : 2 ≤ i.val ∧ dir.isInUseOfIndex i = false) (isDir : Bool) (s : ℕ)
    (k : List Byte) (v : Word × Bool) :
    (∃ j, Child (dir.withEntry i name isDir s) j ∧ (dir.withEntry i name isDir s).nameAt j = k ∧
      (dir.withEntry i name isDir s).valueAt j = v) ↔
    if k = cString fileNameMaxLen name then v = (BitVec.ofNat 32 s,isDir)
    else ∃ j, Child dir j ∧ dir.nameAt j = k ∧ dir.valueAt j = v := by
  constructor
  · rintro ⟨j,⟨h2,hj⟩,hn,hv⟩
    rw [nameAt_withEntry] at hn
    rw [valueAt_withEntry] at hv
    by_cases hji : j = i
    · rw [if_pos hji] at hn hv
      rw [if_pos hn.symm, hv]
    · rw [if_neg hji] at hn hv
      rw [inUse_withEntry_ne hji] at hj
      rw [if_neg fun hk => findIndex_eq_none.mp hnone j ⟨hj,hn.trans hk⟩]
      exact ⟨j,⟨h2,hj⟩,hn,hv⟩
  · split_ifs with hk
    · intro hv
      refine ⟨i,⟨hi.1,inUse_withEntry⟩,?_,?_⟩
      · rw [nameAt_withEntry, if_pos rfl, hk]
      · rw [valueAt_withEntry, if_pos rfl, hv]
    · rintro ⟨j,⟨h2,hj⟩,hn,hv⟩
      have hji : j ≠ i := by
        rintro rfl
        simp [hi.2] at hj
      refine ⟨j,⟨h2,(inUse_withEntry_ne hji).trans hj⟩,?_,?_⟩
      · rw [nameAt_withEntry, if_neg hji, hn]
      · rw [valueAt_withEntry, if_neg hji, hv]

theorem Represents.fill (r : Represents dir m) {w : Word} (hp : PlainName name)
    (hnone : dir.findIndex name = none)
    (hfree : dir.freeIndex = some i) (hw : w.toInt ≠ -1) (isDir : Bool) :
    m.Addable (cString fileNameMaxLen name) ∧
      Represents (dir.setTableAt i (fillEntry (dir.getTableAt i) name isDir w))
        (m.add (cString fileNameMaxLen name) (w,isDir)).2 := by
  have hi := freeIndex_some hfree
  have hadd : m.Addable (cString fileNameMaxLen name) := by
    refine ⟨(r.findIndex_none hp).mp hnone,?_⟩
    by_contra h
    simp [r.freeIndex_iff.mpr h] at hfree
  have he : dir.setTableAt i (fillEntry (dir.getTableAt i) name isDir w) =
      dir.withEntry i name isDir w.toNat := by simp [withEntry]
  refine ⟨hadd,?_⟩
  rw [he]
  constructor
  · rw [named_withEntry, if_neg (fun h => absurd (h ▸ hi.1) (by decide))]
    exact r.dot
  · rw [named_withEntry, if_neg (fun h => absurd (h ▸ hi.1) (by decide))]
    exact r.dotDot
  · exact r.distinct.withEntry hnone i isDir w.toNat
  · intro k v
    rw [entries_withEntry hnone hi, BoundedMap.lookup_add hadd]
    split_ifs
    · simp [eq_comm]
    · exact r.entries k v
  · intro k v hk
    rw [BoundedMap.lookup_add hadd] at hk
    split_ifs at hk
    · cases hk
      exact hw
    · exact r.sectors k v hk

theorem getTableAt_setInUse_false (dir : Directory) (i j : Fin numDirEntries) :
    (dir.setInUseOfIndex i false).getTableAt j =
      if j = i then (dir.getTableAt i).setInUse false else dir.getTableAt j :=
  getTableAt_setTableAt dir i j _

theorem inUse_cleared (dir : Directory) (i j : Fin numDirEntries) :
    (dir.setInUseOfIndex i false).isInUseOfIndex j = true ↔
      j ≠ i ∧ dir.isInUseOfIndex j = true := by
  rw [isInUseOfIndex, getTableAt_setInUse_false]
  by_cases h : j = i
  · simp [h]
  · simp [h, isInUseOfIndex]

theorem nameAt_cleared (dir : Directory) (i j : Fin numDirEntries) :
    (dir.setInUseOfIndex i false).nameAt j = dir.nameAt j := by
  rw [nameAt, getTableAt_setInUse_false]
  split_ifs with h
  · rw [h]
    rfl
  · rfl

theorem named_cleared :
    Named (dir.setInUseOfIndex i false) name j ↔ j ≠ i ∧ Named dir name j := by
  rw [Named, inUse_cleared, nameAt_cleared, and_assoc]
  rfl

theorem valueAt_cleared (h : j ≠ i) :
    (dir.setInUseOfIndex i false).valueAt j = dir.valueAt j := by
  rw [valueAt, isDirOfIndex, getTableAt_setInUse_false, if_neg h]
  rfl

theorem Represents.clear (r : Represents dir m) (hp : PlainName name)
    (hi : dir.findIndex name = some i) :
    Represents (dir.setInUseOfIndex i false) (m.remove (cString fileNameMaxLen name)).2 := by
  have hn := findIndex_some hi
  have hc := r.child_of_plain hp hn
  constructor
  · exact named_cleared.mpr ⟨fun h => absurd (h ▸ hc.1) (by decide),r.dot⟩
  · exact named_cleared.mpr ⟨fun h => absurd (h ▸ hc.1) (by decide),r.dotDot⟩
  · intro a b ha hb hab
    rw [inUse_cleared] at ha hb
    rw [nameAt_cleared, nameAt_cleared] at hab
    exact r.distinct a b ha.2 hb.2 hab
  · intro k v
    rw [BoundedMap.lookup_remove]
    by_cases hk : k = cString fileNameMaxLen name
    · simp only [if_pos hk, reduceCtorEq, false_iff]
      rintro ⟨j,⟨_,hj⟩,hjn,-⟩
      rw [inUse_cleared] at hj
      rw [nameAt_cleared, hk, ← hn.2] at hjn
      exact hj.1 (r.distinct j i hj.2 hn.1 hjn)
    · rw [if_neg hk, r.entries]
      apply exists_congr
      intro j
      by_cases hji : j = i
      · subst hji
        refine iff_of_false (fun h => hk (h.2.1.symm.trans hn.2)) fun h => ?_
        exact (inUse_cleared dir j j).mp h.1.2 |>.1 rfl
      · rw [Child, Child, inUse_cleared, nameAt_cleared, valueAt_cleared hji]
        simp only [ne_eq, hji, not_false_eq_true, true_and]
  · intro k v hk
    rw [BoundedMap.lookup_remove] at hk
    split_ifs at hk
    exact r.sectors k v hk

/-- A refused call leaves table and map as they are. -/
theorem Represents.refused (r : Represents dir m) (hp : PlainName name)
    (h : dir.findIndex name ≠ none ∨ dir.freeIndex = none) :
    ¬ m.Addable (cString fileNameMaxLen name) := by
  intro hadd
  rcases h with h | h
  · exact h ((r.findIndex_none hp).mpr hadd.1)
  · exact r.freeIndex_iff.mp h hadd.2

theorem Represents.add (r : Represents dir m) {w : Word} (hp : PlainName name)
    (hw : w.toInt ≠ -1) :
    (dir.add name w).1 = (m.add (cString fileNameMaxLen name) (w,false)).1 ∧
      Represents (dir.add name w).2 (m.add (cString fileNameMaxLen name) (w,false)).2 := by
  by_cases hnone : dir.findIndex name = none
  · cases hfree : dir.freeIndex with
    | none =>
      rw [BoundedMap.add_refused (r.refused hp (.inr hfree))]
      simpa [Directory.add, hnone, hfree] using r
    | some i =>
      obtain ⟨hadd,hr⟩ := r.fill hp hnone hfree hw false
      rw [add_eq hnone hfree]
      exact ⟨((BoundedMap.add_fst _ _ _).mpr hadd).symm,hr⟩
  · rw [BoundedMap.add_refused (r.refused hp (.inl hnone))]
    simpa [Directory.add, hnone] using r

/-- `AddDirectory` does not look for the name; its caller has. -/
theorem Represents.addDirectory (r : Represents dir m) {w : Word} (hp : PlainName name)
    (hw : w.toInt ≠ -1) (hfind : dir.find name = -1) :
    (dir.addDirectory name w).1 = (m.add (cString fileNameMaxLen name) (w,true)).1 ∧
      Represents (dir.addDirectory name w).2
        (m.add (cString fileNameMaxLen name) (w,true)).2 := by
  have hnone := (r.find_absent hp).mp hfind
  cases hfree : dir.freeIndex with
  | none =>
    rw [BoundedMap.add_refused (r.refused hp (.inr hfree))]
    simpa [Directory.addDirectory, hfree] using r
  | some i =>
    obtain ⟨hadd,hr⟩ := r.fill hp hnone hfree hw true
    rw [addDirectory_eq hfree]
    exact ⟨((BoundedMap.add_fst _ _ _).mpr hadd).symm,hr⟩

theorem Represents.remove (r : Represents dir m) (hp : PlainName name) :
    (dir.remove name).1 = (m.remove (cString fileNameMaxLen name)).1 ∧
      Represents (dir.remove name).2 (m.remove (cString fileNameMaxLen name)).2 := by
  have hl := r.binding_eq hp
  cases hi : dir.findIndex name with
  | none =>
    have hnone := (r.findIndex_none hp).mp hi
    have hm : (m.remove (cString fileNameMaxLen name)).2.lookup = m.lookup := by
      funext k
      rw [BoundedMap.lookup_remove]
      split_ifs with hk
      · rw [hk, hnone]
      · rfl
    refine ⟨?_,?_⟩
    · simp [Directory.remove, hi, BoundedMap.remove, hnone]
    · simp only [Directory.remove, hi]
      exact ⟨r.dot,r.dotDot,r.distinct,hm ▸ r.entries,hm ▸ r.sectors⟩
  | some i =>
    rw [binding, hi, Option.map_some] at hl
    refine ⟨?_,?_⟩
    · simp [Directory.remove, hi, BoundedMap.remove, ← hl]
    · simp only [Directory.remove, hi]
      exact r.clear hp hi

theorem Represents.call (r : Represents dir m) {c : TableCall} (hc : dir.Proper c) :
    (dir.tableCall c).1 = (mapCall m c).1 ∧
      Represents (dir.tableCall c).2 (mapCall m c).2 := by
  obtain ⟨hp,hc⟩ := hc
  cases c with
  | add name w => exact r.add hp hc
  | addDirectory name w => exact r.addDirectory hp hc.1 hc.2
  | remove name => exact r.remove hp

theorem binding_tableCall (dir : Directory) (c : TableCall) {name : List Byte}
    (h : cString fileNameMaxLen name ≠ cString fileNameMaxLen c.name) :
    (dir.tableCall c).2.binding name = dir.binding name := by
  have hfill : ∀ {i} (isDir : Bool) (w : Word), dir.freeIndex = some i →
      (dir.setTableAt i (fillEntry (dir.getTableAt i) c.name isDir w)).binding name =
        dir.binding name := by
    intro i isDir w hfree
    have he : dir.setTableAt i (fillEntry (dir.getTableAt i) c.name isDir w) =
        dir.withEntry i c.name isDir w.toNat := by simp [withEntry]
    have hi := (freeIndex_some hfree).2
    rw [he, binding, findIndex_withEntry_ne hi h.symm, binding]
    cases hj : dir.findIndex name with
    | none => rfl
    | some j =>
      have hji : j ≠ i := by
        rintro rfl
        simp [(findIndex_some hj).1] at hi
      simp [valueAt_withEntry, hji]
  cases c with
  | add n w =>
    simp only [tableCall, Directory.add]
    split_ifs
    · rfl
    · cases hfree : dir.freeIndex with
      | none => rfl
      | some i => exact hfill false w hfree
  | addDirectory n w =>
    simp only [tableCall, Directory.addDirectory]
    cases hfree : dir.freeIndex with
    | none => rfl
    | some i => exact hfill true w hfree
  | remove n =>
    simp only [tableCall, Directory.remove]
    cases hi : dir.findIndex n with
    | none => rfl
    | some i =>
      have hn := findIndex_some hi
      have hfind : (dir.setInUseOfIndex i false).findIndex name = dir.findIndex name := by
        rw [findIndex_eq, findIndex_eq]
        congr 1
        funext j
        refine decide_eq_decide.mpr (named_cleared.trans (and_iff_right_of_imp ?_))
        rintro hj rfl
        exact h (hj.2.symm.trans hn.2)
      rw [binding, hfind, binding]
      cases hj : dir.findIndex name with
      | none => rfl
      | some j =>
        have hji : j ≠ i := by
          rintro rfl
          exact h ((findIndex_some hj).2.symm.trans hn.2)
        simp [valueAt_cleared hji]

/-- Every run of calls on a table is a run on the map with the same answers: `Find`
gives the sector bound to the name, `Add` fails for a bound name or a full map, and
no call changes what is found under another name. -/
theorem directoryMap {ls : List (TableCall × Bool)} {dir : Directory} (hr : tables.Run ls dir) :
    ∃ m : NameMap, nameMaps.Run ls m ∧ Represents dir m ∧
      (∀ name, PlainName name → dir.binding name = m.lookup (cString fileNameMaxLen name) ∧
        dir.find name =
          ((m.lookup (cString fileNameMaxLen name)).map fun v => v.1.toInt).getD (-1)) ∧
      (∀ name sector, PlainName name → ((dir.add name sector).1 = false ↔
        m.lookup (cString fileNameMaxLen name) ≠ none ∨ m.size = numDirEntries - 2)) ∧
      ∀ c name, cString fileNameMaxLen name ≠ cString fileNameMaxLen c.name →
        (dir.tableCall c).2.binding name = dir.binding name := by
  obtain ⟨m,hm,r⟩ : ∃ m, nameMaps.Run ls m ∧ Represents dir m := by
    apply hr.simulate
    · rintro dir ⟨mem,rfl⟩
      exact ⟨.empty,rfl,represents_new mem⟩
    · rintro dir ⟨c,b⟩ dir' m r ⟨hc,hcall⟩
      obtain ⟨hb,hr'⟩ := r.call hc
      rw [hcall] at hb hr'
      exact ⟨(mapCall m c).2,Prod.ext hb.symm rfl,hr'⟩
  refine ⟨m,hm,r,fun name hp => ⟨r.binding_eq hp,r.find_eq hp⟩,?_,fun c name h =>
    binding_tableCall dir c h⟩
  intro name sector hp
  have hfull : m.size = numDirEntries - 2 ↔ dir.freeIndex = none := by
    have hle : m.size ≤ numDirEntries - 2 := m.bounded
    rw [r.freeIndex_iff, not_lt]
    exact ⟨fun h => h.ge,fun h => hle.antisymm h⟩
  rw [hfull, ne_eq, ← r.findIndex_none hp, Directory.add]
  split_ifs with hnone
  · exact iff_of_true rfl (.inl hnone)
  · cases hfree : dir.freeIndex with
    | none => simp
    | some i => simpa using hnone

def cleared : Directory := new ⟨.replicate numDirEntries ⟨.replicate _ 0,0,0,0⟩⟩

/-- A slot that a file has left is a directory's. -/
theorem directoryMap_reuse :
    ∃ m : NameMap, nameMaps.Run [(.add [97] 5,true),(.remove [97],true),
      (.addDirectory [97] 7,true)] m ∧ m.lookup [97] = some (7,true) := by
  let dir₁ := (cleared.tableCall (.add [97] 5)).2
  let dir₂ := (dir₁.tableCall (.remove [97])).2
  let dir₃ := (dir₂.tableCall (.addDirectory [97] 7)).2
  have hp : PlainName [97] := ⟨by decide,by decide⟩
  have h₁ : tables.step cleared (.add [97] 5,true) dir₁ :=
    ⟨⟨hp,show (5 : Word).toInt ≠ -1 by decide⟩,by decide +kernel⟩
  have h₂ : tables.step dir₁ (.remove [97],true) dir₂ := ⟨⟨hp,trivial⟩,by decide +kernel⟩
  have h₃ : tables.step dir₂ (.addDirectory [97] 7,true) dir₃ :=
    ⟨⟨hp,show (7 : Word).toInt ≠ -1 ∧ dir₂.find [97] = -1 by decide +kernel⟩,by decide +kernel⟩
  have h₀ : tables.Run [] cleared := .start ⟨_,rfl⟩
  obtain ⟨m,hm,-,hfind,-⟩ := directoryMap (((h₀.step h₁).step h₂).step h₃)
  refine ⟨m,hm,(hfind [97] hp).1.symm.trans ?_⟩
  exact show dir₃.binding [97] = some (7,true) by decide +kernel

end Directory

end Nachos
