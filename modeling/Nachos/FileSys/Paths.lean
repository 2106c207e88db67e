import Nachos.FileSys.Coherence
import Nachos.FileSys.DirectoryMap

/-! # Paths from the root

`Leads` follows the names in the tables on the disk. On a well-formed disk on which no table has a
name twice, paths and live nodes are the same; entering a node adds one path, and dropping an entry
takes away the paths that go through it.
-/
namespace Nachos
open FileSystem (freeMapSector rootSector)

inductive Leads (d : Disk) : List (List Byte) → Owner → ℕ → NodeKind → Prop
  | root : Leads d [] .root rootSector .directory
  | entry {p : List (List Byte)} {o : Owner} {s t : ℕ} {i : Fin numDirEntries} {k : List Byte}
      {kind : NodeKind} : Leads d p o s .directory → (directoryAt d s).Child i →
      (directoryAt d s).nameAt i = k → ((directoryAt d s).getTableAt i).sector.toNat = t →
      ((directoryAt d s).getTableAt i).kind = kind → Leads d (p ++ [k]) (.entry s i) t kind

/-- No live table has a name twice. -/
def AllDistinct (d : Disk) : Prop :=
  ∀ {o s}, Holds d o s .directory → (directoryAt d s).Distinct

section Unique
variable {S : Support} {d : Disk} {p p' : List (List Byte)} {o o' : Owner} {s s' : ℕ}
  {kind kind' : NodeKind}

theorem Leads.holds (h : Leads d p o s kind) : Holds d o s kind := by
  induction h with
  | root => exact .root
  | entry _ hchild _ hs hk ih => exact .entry ih hchild hs hk

theorem Leads.unique (hd : AllDistinct d) (h : Leads d p o s kind) (h' : Leads d p o' s' kind') :
    o = o' ∧ s = s' ∧ kind = kind' := by
  induction h generalizing o' s' kind' with
  | root =>
    generalize hp : ([] : List (List Byte)) = q at h'
    cases h' with
    | root => exact ⟨rfl,rfl,rfl⟩
    | entry => simp at hp
  | @entry p o s t i k kind hparent hchild hname hs hk ih =>
    generalize hp : p ++ [k] = q at h'
    cases h' with
    | root => simp at hp
    | @entry p' o' s' t' j k' kind' hparent' hchild' hname' hs' hk' =>
      obtain ⟨rfl,hkey⟩ := List.append_inj' hp rfl
      obtain ⟨-,rfl,-⟩ := ih hparent'
      have hij : i = j := hd hparent.holds i j hchild.2 hchild'.2
        (hname.trans ((List.cons.inj hkey).1.trans hname'.symm))
      subst hij
      exact ⟨rfl,hs.symm.trans hs',hk.symm.trans hk'⟩

theorem Leads.path_eq_of_owner (h : Leads d p o s kind) (h' : Leads d p' o' s' kind')
    (hwf : WellFormed S d) (ho : o = o') : p = p' := by
  induction h generalizing p' o' s' kind' with
  | root =>
    cases h' with
    | root => rfl
    | entry => cases ho
  | entry hparent hchild hname hs hk ih =>
    cases h' with
    | root => cases ho
    | entry hparent' hchild' hname' hs' hk' =>
      obtain ⟨rfl,rfl⟩ := Owner.entry.inj ho
      rw [ih hparent' (hwf.header_eq hparent.holds hparent'.holds).1, ← hname, ← hname']

theorem Leads.path_eq (h : Leads d p o s kind) (h' : Leads d p' o' s kind')
    (hwf : WellFormed S d) : p = p' :=
  h.path_eq_of_owner h' hwf (hwf.header_eq h.holds h'.holds).1

theorem Holds.leads (h : Holds d o s kind) : o = .freeMap ∨ ∃ p, Leads d p o s kind := by
  induction h with
  | freeMap => exact .inl rfl
  | root => exact .inr ⟨_,.root⟩
  | entry hp hchild hs hk ih =>
    rcases ih with rfl | ⟨p,hlead⟩
    · exact absurd (hp.unique .freeMap).2 (by decide)
    · exact .inr ⟨_,.entry hlead hchild rfl hs hk⟩

theorem Leads.parent {k : List Byte} (h : Leads d (p ++ [k]) o s kind) :
    ∃ o' t i, Leads d p o' t .directory ∧ (directoryAt d t).Child i ∧
      (directoryAt d t).nameAt i = k ∧ o = .entry t i ∧
      ((directoryAt d t).getTableAt i).sector.toNat = s ∧
      ((directoryAt d t).getTableAt i).kind = kind := by
  generalize hq : p ++ [k] = q at h
  cases h with
  | root => simp at hq
  | entry hparent hchild hname hs hk =>
    obtain ⟨rfl,hkey⟩ := List.append_inj' hq rfl
    exact ⟨_,_,_,hparent,hchild,hname.trans (List.cons.inj hkey).1.symm,rfl,hs,hk⟩

end Unique

section Updates
variable {S : Support} {d d' : Disk} {cur : ℕ} {i : Fin numDirEntries} {oc : Owner}
  {cwd p : List (List Byte)} {k : List Byte} {o : Owner} {s n : ℕ} {kind new : NodeKind}

theorem SlotUpdate.nameAt (u : SlotUpdate d d' cur i) {j : Fin numDirEntries} (hj : j ≠ i) :
    (directoryAt d' cur).nameAt j = (directoryAt d cur).nameAt j := by
  rw [Directory.nameAt, u.slot j hj, Directory.nameAt]

theorem SlotUpdate.leads_entry (u : SlotUpdate d d' cur i) {j : Fin numDirEntries}
    (hold : Leads d p o s .directory) (hj : s = cur → j ≠ i) :
    ((directoryAt d' s).Child j ↔ (directoryAt d s).Child j) ∧
      (directoryAt d' s).nameAt j = (directoryAt d s).nameAt j ∧
      (directoryAt d' s).getTableAt j = (directoryAt d s).getTableAt j := by
  by_cases hs : s = cur
  · subst hs
    exact ⟨u.child_iff (hj rfl),u.nameAt (hj rfl),u.slot j (hj rfl)⟩
  · rw [u.table hold.holds hs]
    exact ⟨.rfl,rfl,rfl⟩

theorem SlotUpdate.leads_enter (u : SlotUpdate d d' cur i) (hwf : WellFormed S d)
    (hcur : Leads d cwd oc cur .directory) (hfree : ¬ (directoryAt d cur).Child i)
    (hchild : (directoryAt d' cur).Child i) (hname : (directoryAt d' cur).nameAt i = k)
    (hn : ((directoryAt d' cur).getTableAt i).sector.toNat = n)
    (hk : ((directoryAt d' cur).getTableAt i).kind = new) :
    Leads d' p o s kind ↔ Leads d p o s kind ∨
      (p = cwd ++ [k] ∧ o = .entry cur i ∧ s = n ∧ kind = new) := by
  have hkeep : ∀ {p o s kind}, Leads d p o s kind → Leads d' p o s kind := by
    intro p o s kind h
    induction h with
    | root => exact .root
    | @entry p o s t j k kind hparent hc hnm hs hkd ih =>
      have hj : s = cur → j ≠ i := by
        rintro rfl rfl
        exact hfree hc
      obtain ⟨h₁,h₂,h₃⟩ := u.leads_entry hparent hj
      exact .entry ih (h₁.mpr hc) (h₂.trans hnm) (h₃ ▸ hs) (h₃ ▸ hkd)
  constructor
  · intro h
    induction h with
    | root => exact .inl .root
    | @entry p o s t j k' kind _ hc hnm hs hkd ih =>
      rcases ih with hold | ⟨-,-,rfl,hdir⟩
      · by_cases hslot : s = cur ∧ j = i
        · obtain ⟨rfl,rfl⟩ := hslot
          refine .inr ⟨?_,rfl,hs.symm.trans hn,hkd.symm.trans hk⟩
          rw [hold.path_eq hcur hwf, ← hnm, hname]
        · have hj : s = cur → j ≠ i := fun hs hji => hslot ⟨hs,hji⟩
          obtain ⟨h₁,h₂,h₃⟩ := u.leads_entry hold hj
          exact .inl (.entry hold (h₁.mp hc) (h₂ ▸ hnm) (h₃ ▸ hs) (h₃ ▸ hkd))
      · -- the new node has no entries
        refine absurd hc ?_
        rw [← hn]
        exact u.new hchild (hk.trans hdir.symm) j
  · rintro (h | ⟨rfl,rfl,rfl,rfl⟩)
    · exact hkeep h
    · exact .entry (hkeep hcur) hchild hname hn hk

theorem SlotUpdate.leads_drop (u : SlotUpdate d d' cur i) (hwf : WellFormed S d)
    (hd : AllDistinct d) (hcur : Leads d cwd oc cur .directory)
    (hchild : (directoryAt d cur).Child i) (hname : (directoryAt d cur).nameAt i = k)
    (hgone : ¬ (directoryAt d' cur).Child i) :
    Leads d' p o s kind ↔ Leads d p o s kind ∧ ¬ cwd ++ [k] <+: p := by
  constructor
  · intro h
    induction h with
    | root => exact ⟨.root,by simp⟩
    | @entry p o s t j k' kind _ hc hnm hs hkd ih =>
      obtain ⟨hold,hnot⟩ := ih
      have hj : s = cur → j ≠ i := by
        rintro rfl rfl
        exact hgone hc
      obtain ⟨h₁,h₂,h₃⟩ := u.leads_entry hold hj
      have hc' := h₁.mp hc
      refine ⟨.entry hold hc' (h₂ ▸ hnm) (h₃ ▸ hs) (h₃ ▸ hkd),fun hpre => ?_⟩
      rcases List.prefix_concat_iff.mp hpre with heq | hpre
      · obtain ⟨rfl,hkey⟩ := List.append_inj' heq rfl
        obtain ⟨-,rfl,-⟩ := hcur.unique hd hold
        refine hj rfl (hd hcur.holds j i hc'.2 hchild.2 ?_)
        rw [hname, ← h₂, hnm, (List.cons.inj hkey).1]
      · exact hnot hpre
  · rintro ⟨h,hnot⟩
    induction h with
    | root => exact .root
    | @entry p o s t j k' kind hparent hc hnm hs hkd ih =>
      have hj : s = cur → j ≠ i := by
        rintro rfl rfl
        refine hnot ?_
        rw [hparent.path_eq hcur hwf, ← hname, hnm]
      obtain ⟨h₁,h₂,h₃⟩ := u.leads_entry hparent hj
      exact .entry (ih fun hpre => hnot (hpre.trans (List.prefix_append _ _))) (h₁.mpr hc)
        (h₂.trans hnm) (h₃ ▸ hs) (h₃ ▸ hkd)

/-- Without a change to a table the paths stay. -/
theorem Agrees.leads_iff {touched : Owner → Prop} (h : WellFormed S d) (ag : Agrees d d' touched)
    (hdir : ∀ {o s}, Holds d o s .directory → ¬ touched o) :
    Leads d' p o s kind ↔ Leads d p o s kind := by
  constructor
  · intro hl
    induction hl with
    | root => exact .root
    | entry _ hc hnm hs hk ih =>
      rw [ag.directoryAt_eq h ih.holds (hdir ih.holds)] at hc hnm hs hk
      exact .entry ih hc hnm hs hk
  · intro hl
    induction hl with
    | root => exact .root
    | entry hparent hc hnm hs hk ih =>
      rw [← ag.directoryAt_eq h hparent.holds (hdir hparent.holds)] at hc hnm hs hk
      exact .entry ih hc hnm hs hk

end Updates

end Nachos
