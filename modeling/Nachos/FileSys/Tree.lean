import Nachos.FileSys.Storage
import Nachos.FileSys.Table
import Nachos.Library.Ownership

/-! # The tree of directories on disk

What is live is read off the disk from the root. A disk is well formed when live
nodes own their sectors exclusively, owned sectors are marked, and every live
directory has its `.` and `..`. An update that writes one slot of one table and
otherwise only unmarked sectors keeps all this.
-/
namespace Nachos
open FileSystem (freeMapSector rootSector)

/-- Whose sectors: those of the free map, of the root, or of entry `i` of the directory
with header sector `p`. -/
inductive Owner where
  | freeMap
  | root
  | entry (p : ℕ) (i : Fin numDirEntries)
  deriving DecidableEq

def Owner.parent : Owner → ℕ
  | .freeMap => freeMapSector
  | .root => rootSector
  | .entry p _ => p

def NodeKind.ofIsDir (isDir : Bool) : NodeKind := if isDir then .directory else .file

def DirectoryEntry.kind (e : DirectoryEntry) : NodeKind := .ofIsDir e.isDir

theorem DirectoryEntry.kind_directory {e : DirectoryEntry} (h : e.isDir = true) :
    e.kind = .directory := by rw [kind, h]; rfl

/-- The free map, the root, and what the tables of live directories name. -/
inductive Holds (d : Disk) : Owner → ℕ → NodeKind → Prop
  | freeMap : Holds d .freeMap freeMapSector .freeMap
  | root : Holds d .root rootSector .directory
  | entry {o : Owner} {p s : ℕ} {i : Fin numDirEntries} {kind : NodeKind} :
      Holds d o p .directory → (directoryAt d p).Child i →
      ((directoryAt d p).getTableAt i).sector.toNat = s →
      ((directoryAt d p).getTableAt i).kind = kind → Holds d (.entry p i) s kind

def owned (d : Disk) (o : Owner) : Set ℕ :=
  {t | ∃ s kind, Holds d o s kind ∧ t ∈ ownedSectors d s kind}

structure WellFormed (S : Support) (d : Disk) : Prop where
  node : ∀ {o s kind}, Holds d o s kind → NodeOk d s kind
  exclusive : Exclusive (owned d) {t | t ∈ storedMap S d}
  dots : ∀ {o s}, Holds d o s .directory → (directoryAt d s).Dots s o.parent
  inDisk : storedMap S d ⊆ Finset.range diskSectors

theorem Holds.unique {d : Disk} {o : Owner} {s s' : ℕ} {kind kind' : NodeKind}
    (h : Holds d o s kind) (h' : Holds d o s' kind') : s = s' ∧ kind = kind' := by
  cases h with
  | freeMap => cases h'; exact ⟨rfl,rfl⟩
  | root => cases h'; exact ⟨rfl,rfl⟩
  | entry _ _ hs hk =>
    cases h' with
    | entry _ _ hs' hk' => exact ⟨hs.symm.trans hs',hk.symm.trans hk'⟩

namespace WellFormed
variable {S : Support} {d : Disk} {o o' : Owner} {s s' t : ℕ} {kind kind' : NodeKind}

theorem marked (h : WellFormed S d) (ho : Holds d o s kind) (ht : t ∈ ownedSectors d s kind) :
    t ∈ storedMap S d := h.exclusive.covered o ⟨s,kind,ho,ht⟩

theorem owner_eq (h : WellFormed S d) (ho : Holds d o s kind) (ho' : Holds d o' s' kind')
    (ht : t ∈ ownedSectors d s kind) (ht' : t ∈ ownedSectors d s' kind') : o = o' :=
  h.exclusive.eq_of_mem ⟨s,kind,ho,ht⟩ ⟨s',kind',ho',ht'⟩

theorem header_eq (h : WellFormed S d) (ho : Holds d o s kind) (ho' : Holds d o' s kind') :
    o = o' ∧ kind = kind' := by
  have he := h.owner_eq ho ho' (mem_ownedSectors_self d s kind) (mem_ownedSectors_self d s kind')
  subst he
  exact ⟨rfl,(ho.unique ho').2⟩

theorem data_not_meta (h : WellFormed S d) (ho : Holds d o s kind) (ho' : Holds d o' s' kind')
    (ht : t ∈ metaSectors d s kind) : t ∉ dataSectors d s' kind' := by
  intro ht'
  have he := h.owner_eq ho ho' (List.mem_append_left _ ht) (List.mem_append_right _ ht')
  subst he
  obtain ⟨rfl,rfl⟩ := ho.unique ho'
  exact (h.node ho).not_mem_data ht ht'

end WellFormed

/-- `d'` agrees with `d` on all live nodes, the data of the touched ones apart. -/
structure Agrees (d d' : Disk) (touched : Owner → Prop) : Prop where
  layout : ∀ {o s kind}, Holds d o s kind → ∀ t ∈ metaSectors d s kind, d' t = d t
  data : ∀ {o s kind}, Holds d o s kind → ¬ touched o → ∀ t ∈ dataSectors d s kind, d' t = d t

namespace Agrees
variable {S : Support} {d d' : Disk} {touched : Owner → Prop} {o : Owner} {s : ℕ} {kind : NodeKind}

theorem refl (d : Disk) (touched : Owner → Prop) : Agrees d d touched :=
  ⟨fun _ _ _ => rfl,fun _ _ _ _ => rfl⟩

theorem write (h : WellFormed S d) (ag : Agrees d d' touched) {d'' : Disk} (hto : touched o)
    (ho : Holds d o s kind) (hout : ∀ t, t ∉ dataSectors d s kind → d'' t = d' t) :
    Agrees d d'' touched := by
  refine ⟨fun ho' t ht => ?_,fun ho' hn t ht => ?_⟩
  · rw [hout t (h.data_not_meta ho' ho ht)]
    exact ag.layout ho' t ht
  · rw [hout t fun ht' => hn ?_]
    · exact ag.data ho' hn t ht
    · rw [h.owner_eq ho' ho (List.mem_append_right _ ht) (List.mem_append_right _ ht')]
      exact hto

theorem write_unmarked (h : WellFormed S d) (ag : Agrees d d' touched) {d'' : Disk}
    (hout : ∀ t ∈ storedMap S d, d'' t = d' t) : Agrees d d'' touched :=
  ⟨fun ho t ht => (hout t (h.marked ho (List.mem_append_left _ ht))).trans (ag.layout ho t ht),
    fun ho hn t ht =>
      (hout t (h.marked ho (List.mem_append_right _ ht))).trans (ag.data ho hn t ht)⟩

/-- It is enough to leave alone the marked sectors that are not data of a touched node. -/
theorem of_marked (h : WellFormed S d) (hd : ∀ t ∈ storedMap S d,
    (∀ o s kind, touched o → Holds d o s kind → t ∉ dataSectors d s kind) → d' t = d t) :
    Agrees d d' touched := by
  refine ⟨fun ho t ht => ?_,fun {o s kind} ho hn t ht => ?_⟩
  · exact hd t (h.marked ho (List.mem_append_left _ ht)) fun o' s' kind' _ ho' =>
      h.data_not_meta ho ho' ht
  · refine hd t (h.marked ho (List.mem_append_right _ ht)) fun o' s' kind' hto ho' ht' => ?_
    have he := h.owner_eq ho ho' (List.mem_append_right _ ht) (List.mem_append_right _ ht')
    subst he
    exact hn hto

theorem ownedSectors_eq (ag : Agrees d d' touched) (ho : Holds d o s kind) :
    ownedSectors d' s kind = ownedSectors d s kind := ownedSectors_congr (ag.layout ho)

theorem node (ag : Agrees d d' touched) (h : WellFormed S d) (ho : Holds d o s kind) :
    NodeOk d' s kind := (h.node ho).congr (ag.layout ho)

theorem headerAt_eq (ag : Agrees d d' touched) (ho : Holds d o s kind) :
    headerAt d' s = headerAt d s :=
  headerAt_congr (ag.layout ho s (mem_metaSectors_self d s kind))

theorem directoryAt_eq (ag : Agrees d d' touched) (h : WellFormed S d)
    (ho : Holds d o s .directory) (hn : ¬ touched o) : directoryAt d' s = directoryAt d s := by
  refine directoryAt_congr (h.node ho) fun t ht => ?_
  rcases List.mem_append.mp ht with ht | ht
  · exact ag.layout ho t ht
  · exact ag.data ho hn t ht

end Agrees

/-- The tables of `d'` are those of `d`, slot `i` of the directory in sector `cur` apart;
a directory named there has no entries. -/
structure SlotUpdate (d d' : Disk) (cur : ℕ) (i : Fin numDirEntries) : Prop where
  table : ∀ {o s}, Holds d o s .directory → s ≠ cur → directoryAt d' s = directoryAt d s
  slot : ∀ j, j ≠ i →
    (directoryAt d' cur).getTableAt j = (directoryAt d cur).getTableAt j
  new : (directoryAt d' cur).Child i → ((directoryAt d' cur).getTableAt i).kind = .directory →
    ∀ j, ¬ (directoryAt d' ((directoryAt d' cur).getTableAt i).sector.toNat).Child j

namespace SlotUpdate
variable {d d' : Disk} {cur s : ℕ} {i : Fin numDirEntries} {o oc : Owner} {kind : NodeKind}

theorem child_iff (u : SlotUpdate d d' cur i) {j : Fin numDirEntries} (hj : j ≠ i) :
    (directoryAt d' cur).Child j ↔ (directoryAt d cur).Child j := by
  unfold Directory.Child Directory.isInUseOfIndex
  rw [u.slot j hj]

theorem holds_of (u : SlotUpdate d d' cur i) (h : Holds d' o s kind) :
    Holds d o s kind ∨ (o = .entry cur i ∧ (directoryAt d' cur).Child i ∧
      ((directoryAt d' cur).getTableAt i).sector.toNat = s ∧
      ((directoryAt d' cur).getTableAt i).kind = kind) := by
  induction h with
  | freeMap => exact .inl .freeMap
  | root => exact .inl .root
  | @entry o p s j kind _ hchild hs hk ih =>
    rcases ih with hp | ⟨-,hi,hn,hdir⟩
    · by_cases hpc : p = cur
      · subst hpc
        by_cases hj : j = i
        · subst hj
          exact .inr ⟨rfl,hchild,hs,hk⟩
        · rw [u.slot j hj] at hs hk
          exact .inl (.entry hp ((u.child_iff hj).mp hchild) hs hk)
      · rw [u.table hp hpc] at hchild hs hk
        exact .inl (.entry hp hchild hs hk)
    · subst hn
      exact absurd hchild (u.new hi hdir j)

/-- Nothing dies when the slot was free. -/
theorem holds_to (u : SlotUpdate d d' cur i) (hfree : ¬ (directoryAt d cur).Child i)
    (h : Holds d o s kind) : Holds d' o s kind := by
  induction h with
  | freeMap => exact .freeMap
  | root => exact .root
  | @entry o p s j kind hp hchild hs hk ih =>
    by_cases hpc : p = cur
    · subst hpc
      have hj : j ≠ i := fun hj => hfree (hj ▸ hchild)
      rw [← u.slot j hj] at hs hk
      exact .entry ih ((u.child_iff hj).mpr hchild) hs hk
    · rw [← u.table hp hpc] at hchild hs hk
      exact .entry ih hchild hs hk

/-- The directory whose table changes stays live: it is reached before its own table is
looked at. -/
theorem holds_cur (u : SlotUpdate d d' cur i) (h : Holds d oc cur .directory) :
    ∃ o, Holds d' o cur .directory := by
  have hmain : ∀ {o s kind}, Holds d o s kind →
      (∃ o, Holds d' o cur .directory) ∨ Holds d' o s kind := by
    intro o s kind ho
    induction ho with
    | freeMap => exact .inr .freeMap
    | root => exact .inr .root
    | @entry o p s j kind hp hchild hs hk ih =>
      rcases ih with hc | hp'
      · exact .inl hc
      · by_cases hpc : p = cur
        · subst hpc
          exact .inl ⟨o,hp'⟩
        · rw [← u.table hp hpc] at hchild hs hk
          exact .inr (.entry hp' hchild hs hk)
  rcases hmain h with hc | hc
  · exact hc
  · exact ⟨oc,hc⟩

end SlotUpdate

section Preservation
variable {S : Support} {d d' : Disk} {cur : ℕ} {i : Fin numDirEntries} {oc : Owner}

abbrev TouchesTable (oc o : Owner) : Prop := o = oc ∨ o = .freeMap

theorem SlotUpdate.of_agrees (h : WellFormed S d) (hc : Holds d oc cur .directory)
    (ag : Agrees d d' (TouchesTable oc))
    (hslot : ∀ j, j ≠ i → (directoryAt d' cur).getTableAt j = (directoryAt d cur).getTableAt j)
    (hnew : (directoryAt d' cur).Child i → ((directoryAt d' cur).getTableAt i).kind = .directory →
      ∀ j, ¬ (directoryAt d' ((directoryAt d' cur).getTableAt i).sector.toNat).Child j) :
    SlotUpdate d d' cur i := by
  refine ⟨fun ho hs => ag.directoryAt_eq h ho ?_,hslot,hnew⟩
  rintro (rfl | rfl)
  · exact hs (ho.unique hc).1
  · cases ho

theorem SlotUpdate.dots (u : SlotUpdate d d' cur i) (h : WellFormed S d) (hi : 2 ≤ i.val)
    {o : Owner} {s : ℕ} (ho : Holds d o s .directory) : (directoryAt d' s).Dots s o.parent := by
  have hd := h.dots ho
  by_cases hs : s = cur
  · subst hs
    have h0 : (0 : Fin numDirEntries) ≠ i := fun h0 => by subst h0; exact absurd hi (by decide)
    have h1 : (1 : Fin numDirEntries) ≠ i := fun h1 => by subst h1; exact absurd hi (by decide)
    exact hd.of_getTableAt (u.slot 0 h0) (u.slot 1 h1)
  · rw [u.table ho hs]
    exact hd

/-- A node is entered in a free slot; its sectors were not marked and now are. -/
theorem WellFormed.extend (h : WellFormed S d) (ag : Agrees d d' (TouchesTable oc))
    (u : SlotUpdate d d' cur i) (hfree : ¬ (directoryAt d cur).Child i)
    (hi : 2 ≤ i.val) {n : ℕ} {kind : NodeKind}
    (hn : ((directoryAt d' cur).getTableAt i).sector.toNat = n)
    (hk : ((directoryAt d' cur).getTableAt i).kind = kind) (hnode : NodeOk d' n kind)
    (hfresh : ∀ t ∈ ownedSectors d' n kind, t ∉ storedMap S d)
    (hmap : storedMap S d' = storedMap S d ∪ (ownedSectors d' n kind).toFinset)
    (hdots : kind = .directory → (directoryAt d' n).Dots n cur) : WellFormed S d' := by
  have hnot : ∀ {s kind}, ¬ Holds d (.entry cur i) s kind := by
    intro s kind ho
    cases ho with
    | entry _ hchild _ _ => exact hfree hchild
  refine ⟨fun ho => ?_,?_,fun ho => ?_,?_⟩
  · rcases u.holds_of ho with ho | ⟨-,-,hs,hk'⟩
    · exact ag.node h ho
    · rw [← hs, ← hk', hn, hk]
      exact hnode
  · have hset : {t | t ∈ storedMap S d'} =
        {t | t ∈ storedMap S d} ∪ {t | t ∈ ownedSectors d' n kind} := by
      ext t
      simp [hmap]
    rw [hset]
    refine h.exclusive.extend (.entry cur i) ?_ ?_ (Set.disjoint_left.mpr hfresh)
    · rintro j hj t ⟨s,kind',ho,ht⟩
      rcases u.holds_of ho with ho | ⟨he,-⟩
      · exact ⟨s,kind',ho,ag.ownedSectors_eq ho ▸ ht⟩
      · exact absurd he hj
    · rintro t ⟨s,kind',ho,ht⟩
      rcases u.holds_of ho with ho | ⟨-,-,hs,hk'⟩
      · exact absurd ho hnot
      · rw [← hs, ← hk', hn, hk] at ht
        exact ht
  · rcases u.holds_of ho with ho | ⟨rfl,-,hs,hk'⟩
    · exact u.dots h hi ho
    · rw [← hs, hn]
      exact hdots (hk.symm.trans hk')
  · rw [hmap]
    intro t ht
    rcases Finset.mem_union.mp ht with ht | ht
    · exact h.inDisk ht
    · exact Finset.mem_range.mpr (hnode.inDisk t (List.mem_toFinset.mp ht))

/-- An entry is dropped, and some of its sectors are no longer marked. -/
theorem WellFormed.shrink (h : WellFormed S d) (ag : Agrees d d' (TouchesTable oc))
    (u : SlotUpdate d d' cur i) (hi : 2 ≤ i.val) (hgone : ¬ (directoryAt d' cur).Child i)
    {freed : Finset ℕ} (hfreed : ∀ t ∈ freed, t ∈ owned d (.entry cur i))
    (hmap : storedMap S d' = storedMap S d \ freed) : WellFormed S d' := by
  have hold : ∀ {o s kind}, Holds d' o s kind → Holds d o s kind := by
    intro o s kind ho
    rcases u.holds_of ho with ho | ⟨-,hc,-⟩
    · exact ho
    · exact absurd hc hgone
  refine ⟨fun ho => ag.node h (hold ho),?_,fun ho => u.dots h hi (hold ho),?_⟩
  · have hset : {t | t ∈ storedMap S d'} = {t | t ∈ storedMap S d} \ {t | t ∈ freed} := by
      ext t
      simp [hmap]
    rw [hset]
    refine h.exclusive.release (.entry cur i) ?_ ?_ hfreed
    · rintro j - t ⟨s,kind,ho,ht⟩
      exact ⟨s,kind,hold ho,ag.ownedSectors_eq (hold ho) ▸ ht⟩
    · refine Set.eq_empty_iff_forall_notMem.mpr ?_
      rintro t ⟨s,kind,ho,-⟩
      cases ho with
      | entry _ hchild _ _ => exact hgone hchild
  · rw [hmap]
    exact Finset.sdiff_subset.trans h.inDisk

end Preservation

section Overwrite
variable {S : Support} {d d' : Disk} {touched : Owner → Prop} {o : Owner} {s : ℕ} {kind : NodeKind}

theorem Agrees.holds_iff (h : WellFormed S d) (ag : Agrees d d' touched)
    (hdir : ∀ {o s}, Holds d o s .directory → ¬ touched o) :
    Holds d' o s kind ↔ Holds d o s kind := by
  constructor
  · intro ho
    induction ho with
    | freeMap => exact .freeMap
    | root => exact .root
    | entry _ hchild hs hk ih =>
      rw [ag.directoryAt_eq h ih (hdir ih)] at hchild hs hk
      exact .entry ih hchild hs hk
  · intro ho
    induction ho with
    | freeMap => exact .freeMap
    | root => exact .root
    | entry hp hchild hs hk ih =>
      rw [← ag.directoryAt_eq h hp (hdir hp)] at hchild hs hk
      exact .entry ih hchild hs hk

theorem WellFormed.overwrite (h : WellFormed S d) (ag : Agrees d d' touched)
    (hfile : ∀ {o s kind}, touched o → Holds d o s kind → kind = .file) :
    WellFormed S d' ∧ storedMap S d' = storedMap S d := by
  have hdir : ∀ {o s}, Holds d o s .directory → ¬ touched o := fun ho ht =>
    absurd (hfile ht ho) (by decide)
  have hfree : ¬ touched .freeMap := fun ht => absurd (hfile ht .freeMap) (by decide)
  have hmap : storedMap S d' = storedMap S d := by
    refine storedMap_congr (h.node .freeMap) fun t ht => ?_
    rcases List.mem_append.mp ht with ht | ht
    · exact ag.layout .freeMap t ht
    · exact ag.data .freeMap hfree t ht
  refine ⟨⟨fun ho => ?_,?_,fun ho => ?_,by rw [hmap]; exact h.inDisk⟩,hmap⟩
  · exact ag.node h ((ag.holds_iff h hdir).mp ho)
  · rw [hmap]
    refine h.exclusive.shrink fun o t ⟨s,kind,ho,ht⟩ => ?_
    have ho := (ag.holds_iff h hdir).mp ho
    exact ⟨s,kind,ho,ag.ownedSectors_eq ho ▸ ht⟩
  · have ho := (ag.holds_iff h hdir).mp ho
    rw [ag.directoryAt_eq h ho (hdir ho)]
    exact h.dots ho

end Overwrite

end Nachos
