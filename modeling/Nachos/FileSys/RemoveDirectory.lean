import Nachos.FileSys.DirectoryTree
import Nachos.FileSys.DirectoryMap

/-! # Removing a directory

`RemoveDirectory` looks for entries in the table of the current directory, where
the directory to be removed has one itself. It refuses every directory for that,
an empty one as well.
-/
namespace Nachos
open FileSystem (rootSector)

/-- Slot `i` names a directory with entries of its own. -/
def Inhabited (fs : FileSystem) (i : Fin numDirEntries) : Prop :=
  ∃ j, (directoryAt fs.disk (fs.currentDir.getTableAt i).sector.toNat).Child j

/-- The entry in slot `i` is cleared, and the sectors of the directory it named are free. -/
structure Removed (S : Support) (fs fs' : FileSystem) (i : Fin numDirEntries) : Prop where
  table : fs'.currentDir = fs.currentDir.setInUseOfIndex i false
  stored : directoryAt fs'.disk fs.currentDir.getSector.toNat = fs'.currentDir
  map : storedMap S fs'.disk = storedMap S fs.disk \
    (ownedSectors fs.disk (fs.currentDir.getTableAt i).sector.toNat .directory).toFinset

/-- What is asked of `RemoveDirectory`: it tells a name that is not there and a directory
with entries and changes nothing, and removes an empty directory. -/
def RemovesDirectory (S : Support) (fs : FileSystem) (name : List Byte) : Prop :=
  ∀ heap, match fs.currentDir.findIndex name with
    | none => fs.removeDirectory S heap name = .ok (-2,fs)
    | some i => fs.currentDir.isDirOfIndex i = true →
      (Inhabited fs i → fs.removeDirectory S heap name = .ok (-1,fs)) ∧
      (¬ Inhabited fs i → ∃ fs', fs.removeDirectory S heap name = .ok (0,fs') ∧ Removed S fs fs' i)

section
variable {S : Support} {fs : FileSystem} {o : Owner} {cur : ℕ} {name : List Byte}

theorem Coherent.child_of_plain (c : Coherent S fs o cur) (hp : PlainName name)
    {i : Fin numDirEntries} (hi : fs.currentDir.findIndex name = some i) :
    fs.currentDir.Child i := by
  obtain ⟨hu,hn⟩ := Directory.findIndex_some hi
  refine ⟨?_,hu⟩
  by_contra h2
  rcases Directory.index_cases h2 with rfl | rfl
  · exact hp.1 (hn.symm.trans c.dots.current.name)
  · exact hp.2 (hn.symm.trans c.dots.parent.name)

theorem removeDirectory_absent (hi : fs.currentDir.findIndex name = none) (heap : Heap) :
    fs.removeDirectory S heap name = .ok (-2,fs) := by
  rw [FileSystem.removeDirectory, hi]
  rfl

/-- Whatever is found is refused: it is an entry of the table that is tested. -/
theorem Coherent.removeDirectory_found (c : Coherent S fs o cur) (hp : PlainName name)
    {i : Fin numDirEntries} (hi : fs.currentDir.findIndex name = some i) (heap : Heap) :
    fs.removeDirectory S heap name = .ok (-1,fs) :=
  c.removeDirectory_refused heap hi (isEmpty_of_child (c.child_of_plain hp hi))

theorem Coherent.removesDirectory_iff (c : Coherent S fs o cur) (hp : PlainName name) :
    RemovesDirectory S fs name ↔ ∀ i, fs.currentDir.findIndex name = some i →
      fs.currentDir.isDirOfIndex i = true → Inhabited fs i := by
  constructor
  · intro h i hi hdir
    by_contra hempty
    have := h FirstFit.heap
    simp only [hi] at this
    obtain ⟨fs',hremove,-⟩ := (this hdir).2 hempty
    rw [c.removeDirectory_found hp hi] at hremove
    cases hremove
  · intro h heap
    cases hi : fs.currentDir.findIndex name with
    | none => exact removeDirectory_absent hi heap
    | some i =>
      intro hdir
      refine ⟨fun _ => c.removeDirectory_found hp hi heap,?_⟩
      intro hempty
      exact absurd (h i hi hdir) hempty

/-- In every state a run of behaved calls reaches, `RemoveDirectory` does its work on a name
just when it is not that of an empty directory. -/
theorem removesDirectory_iff_of_run (h : ((calls S).guard (Behaved S)).Reachable fs)
    (hp : PlainName name) :
    RemovesDirectory S fs name ↔ ∀ i, fs.currentDir.findIndex name = some i →
      fs.currentDir.isDirOfIndex i = true → Inhabited fs i := by
  obtain ⟨o,cur,c⟩ := coherent_of_run h
  exact c.removesDirectory_iff hp

end

/-- A file is created in an empty directory, by way of it and back. -/
theorem Coherent.inhabit {S : Support} {fs : FileSystem} {o : Owner} {cur : ℕ}
    (c : Coherent S fs o cur) (heap : Heap) {name : List Byte} {i : Fin numDirEntries}
    (hi : fs.currentDir.findIndex name = some i) (hchild : fs.currentDir.Child i)
    (hdir : fs.currentDir.isDirOfIndex i = true) (hempty : ¬ Inhabited fs i)
    (name' : List Byte) (size : Word) (hp : PlainName name')
    (hroom : Room S fs (FileHeader.sectorsFor S size).toInt) :
    ∃ fs₁ fs₂ fs₃, fs.changeDirectory S heap name = .ok (0,fs₁) ∧
      fs₁.create S heap name' size = .ok (true,fs₂) ∧
      fs₂.changeDirectory S heap Directory.dotDot = .ok (0,fs₃) ∧
      Behaved S fs (.changeDirectory name) ∧ Behaved S fs₁ (.create name' size) ∧
      Behaved S fs₂ (.changeDirectory Directory.dotDot) ∧
      fs₃.currentDir.findIndex name = some i ∧ fs₃.currentDir.isDirOfIndex i = true ∧
      Inhabited fs₃ i := by
  obtain ⟨o₁,s,hs,hdown,c₁⟩ := c.changeDirectory_ok heap hi hdir
  have hheld : Holds fs.disk (.entry cur i) s .directory := by
    rw [c.synced] at hchild hs hdir
    exact .entry c.held hchild hs.symm (DirectoryEntry.kind_directory hdir)
  obtain ⟨rfl,-⟩ := c.disk.header_eq c₁.held hheld
  have hnone : ∀ j, ¬ (directoryAt fs.disk s).Child j := fun j hj => hempty ⟨j,hs ▸ hj⟩
  -- there is a slot, as there is in any directory with its dots only
  have hname := c₁.dots.findIndex_none hnone hp
  obtain ⟨j,hj⟩ := Option.ne_none_iff_exists'.mp (Directory.freeIndex_ne_none_of_empty hnone)
  obtain ⟨h0,hindex,hclear⟩ := hroom
  have hfit : (((FileHeader.sectorsFor S size).toInt.toNat +
      indexCount (FileHeader.sectorsFor S size).toInt.toNat + 1 : ℕ) : ℤ) ≤
        (storedMap S fs.disk).numClear := by
    omega
  obtain ⟨t,fs₂,hcreate,e,-⟩ := c₁.create_ok heap hname hj (Int.toNat_of_nonneg h0).symm hindex hfit
  have hup := e.coherent.dots.parent
  have hdotDot := e.coherent.dots.findIndex_dotDot
  obtain ⟨o₃,s₃,hs₃,hback,-⟩ := e.coherent.changeDirectory_ok heap hdotDot hup.isDir
  obtain rfl : s₃ = cur := hs₃.trans hup.sector
  have htable : directoryAt fs₂.disk s₃ = fs.currentDir := by
    refine (e.placed.agrees.directoryAt_eq c.disk c.held ?_).trans c.synced.symm
    rintro (rfl | rfl)
    · obtain ⟨rfl,-⟩ := c.held.unique hheld
      exact hnone i (c.synced ▸ hchild)
    · exact absurd (c.held.unique .freeMap).2 (by decide)
  refine ⟨_,_,_,hdown,hcreate,hback,?_,?_,?_,?_,?_,j,?_⟩
  · intro i' hi'
    obtain rfl := Option.some.inj (hi.symm.trans hi')
    exact hdir
  · exact fun _ => ⟨h0,hindex,hclear⟩
  · intro i' hi'
    obtain rfl := Option.some.inj (hdotDot.symm.trans hi')
    exact hup.isDir
  · change (directoryAt fs₂.disk s₃).findIndex name = some i
    rw [htable, hi]
  · change (directoryAt fs₂.disk s₃).isDirOfIndex i = true
    rw [htable, hdir]
  · change (directoryAt fs₂.disk ((directoryAt fs₂.disk s₃).getTableAt i).sector.toNat).Child j
    rw [htable, ← hs, e.placed.table]
    exact ⟨(Directory.freeIndex_some hj).1,Directory.inUse_withEntry⟩

/-- A directory in which there is a file is refused. -/
theorem removesDirectory_of_run_inhabited : ∃ fs₀ fs₁ fs₂ fs₃ fs₄ : FileSystem,
    FileSystem.format FirstFit.support FirstFit.heap FirstFit.disk = .ok fs₀ ∧
    fs₀.createDirectory FirstFit.support FirstFit.heap [100] = .ok (0,fs₁) ∧
    fs₁.changeDirectory FirstFit.support FirstFit.heap [100] = .ok (0,fs₂) ∧
    fs₂.create FirstFit.support FirstFit.heap [97] 10 = .ok (true,fs₃) ∧
    fs₃.changeDirectory FirstFit.support FirstFit.heap Directory.dotDot = .ok (0,fs₄) ∧
    fs₄.removeDirectory FirstFit.support FirstFit.heap [100] = .ok (-1,fs₄) ∧
    RemovesDirectory FirstFit.support fs₄ [100] := by
  obtain ⟨fs₀,fs₁,s,hformat,hcreate,he,hb,hfind,hdir⟩ := formatted_createDirectory
  have hempty : ¬ Inhabited fs₁ 2 := by
    rintro ⟨j,hj⟩
    rw [he.sector] at hj
    exact (he.placed.empty rfl).2 j hj
  have hp : PlainName [100] := ⟨by decide,by decide⟩
  have hchild := he.coherent.child_of_plain hp hfind
  have hclear : (storedMap FirstFit.support fs₁.disk).numClear = 1016 := by
    obtain ⟨fs₀',hformat',f⟩ := format_eq FirstFit.support FirstFit.heap FirstFit.disk
    cases hformat.symm.trans hformat'
    have howned : (ownedSectors fs₁.disk s (.ofIsDir true)).length = 3 :=
      NodeOk.length_owned_directory he.placed.node
    rw [he.placed.numClear, howned, f.clear]
    rfl
  obtain ⟨fs₂,fs₃,fs₄,hdown,hfile,hback,hb₁,hb₂,hb₃,hfind₄,hdir₄,hin⟩ := he.coherent.inhabit
    FirstFit.heap hfind hchild hdir hempty [97] 10 ⟨by decide,by decide⟩
    ⟨by decide,by decide,by rw [hclear]; decide⟩
  have hr : ((calls FirstFit.support).guard (Behaved FirstFit.support)).Reachable fs₄ := by
    refine .step (l := .changeDirectory Directory.dotDot) (.step (l := .create [97] 10)
      (.step (l := .changeDirectory [100]) (.step (l := .createDirectory [100])
        (.start ⟨_,_,hformat⟩) ⟨hb,FirstFit.heap,.code 0,?_⟩) ⟨hb₁,FirstFit.heap,.code 0,?_⟩)
      ⟨hb₂,FirstFit.heap,.success true,?_⟩) ⟨hb₃,FirstFit.heap,.code 0,?_⟩
    · rw [FileSystem.call, hcreate]
      rfl
    · rw [FileSystem.call, hdown]
      rfl
    · rw [FileSystem.call, hfile]
      rfl
    · rw [FileSystem.call, hback]
      rfl
  have hremoves := (removesDirectory_iff_of_run hr hp).mpr fun i hi _ => by
    obtain rfl := Option.some.inj (hfind₄.symm.trans hi)
    exact hin
  have hrefused := hremoves FirstFit.heap
  simp only [hfind₄] at hrefused
  exact ⟨fs₀,fs₁,fs₂,fs₃,fs₄,hformat,hcreate,hdown,hfile,hback,(hrefused hdir₄).1 hin,hremoves⟩

/-- The directory that `CreateDirectory("d")` has just made is not removed. -/
theorem not_removesDirectory : ∃ fs₀ fs₁ : FileSystem,
    FileSystem.format FirstFit.support FirstFit.heap FirstFit.disk = .ok fs₀ ∧
      fs₀.createDirectory FirstFit.support FirstFit.heap [100] = .ok (0,fs₁) ∧
      fs₁.removeDirectory FirstFit.support FirstFit.heap [100] = .ok (-1,fs₁) ∧
      ¬ RemovesDirectory FirstFit.support fs₁ [100] := by
  obtain ⟨fs,fs₁,s,hformat,hcreate,he,-,hfind,hdir⟩ := formatted_createDirectory
  have hp : PlainName [100] := ⟨by decide,by decide⟩
  refine ⟨fs,fs₁,hformat,hcreate,he.coherent.removeDirectory_found hp hfind FirstFit.heap,?_⟩
  intro h
  obtain ⟨j,hj⟩ := (he.coherent.removesDirectory_iff hp).mp h 2 hfind hdir
  rw [he.sector] at hj
  exact (he.placed.empty rfl).2 j hj

end Nachos
