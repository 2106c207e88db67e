import Nachos.FileSys.SectorOwnership

/-! # The directory tree

Every live directory keeps its entries `.` and `..`, and the way down to a child
and back leads to the same state. Removing `.` breaks this.
-/
namespace Nachos
open FileSystem (rootSector)

structure DirectoryTree (S : Support) (fs : FileSystem) : Prop where
  dots : ∀ {o s}, Holds fs.disk o s .directory → (directoryAt fs.disk s).Dots s o.parent
  allocated : ∀ {o s}, Holds fs.disk o s .directory → s ∈ storedMap S fs.disk
  current : ∃ o cur, Holds fs.disk o cur .directory ∧ fs.currentDir.Dots cur o.parent
  andBack : ∀ heap heap' {name i}, fs.currentDir.findIndex name = some i →
    fs.currentDir.Child i → fs.currentDir.isDirOfIndex i = true →
    ∃ fs₁, fs.changeDirectory S heap name = .ok (0,fs₁) ∧
      fs₁.changeDirectory S heap' Directory.dotDot = .ok (0,fs)

section
variable {S : Support} {fs : FileSystem} {o : Owner} {cur : ℕ} {name : List Byte}

theorem Coherent.child_and_back (c : Coherent S fs o cur) (heap heap' : Heap)
    {i : Fin numDirEntries} (h : fs.currentDir.findIndex name = some i)
    (hchild : fs.currentDir.Child i) (hdir : fs.currentDir.isDirOfIndex i = true) :
    ∃ fs₁, fs.changeDirectory S heap name = .ok (0,fs₁) ∧
      fs₁.changeDirectory S heap' Directory.dotDot = .ok (0,fs) := by
  obtain ⟨o',s,hs,hdown,c₁⟩ := c.changeDirectory_ok heap h hdir
  -- the child is held by its entry here, so its parent is the current directory
  have hheld : Holds fs.disk (.entry cur i) s .directory := by
    rw [c.synced] at hchild hs hdir
    exact .entry c.held hchild hs.symm (DirectoryEntry.kind_directory hdir)
  obtain ⟨rfl,-⟩ := c.disk.header_eq c₁.held hheld
  have hup := c₁.dots.parent
  obtain ⟨-,s',hs',hback,-⟩ := c₁.changeDirectory_ok heap' c₁.dots.findIndex_dotDot hup.isDir
  rw [hup.sector] at hs'
  have hcur : s' = cur := hs'
  subst hcur
  refine ⟨_,hdown,?_⟩
  rw [hback]
  change Except.ok ((0 : ℤ),FileSystem.mk fs.disk fs.freeMapFile (directoryAt fs.disk s')) = _
  rw [← c.synced]

theorem Coherent.directoryTree (c : Coherent S fs o cur) : DirectoryTree S fs :=
  ⟨fun ho => c.disk.dots ho,fun {_ s} ho => c.disk.marked ho (mem_ownedSectors_self _ s _),
    ⟨o,cur,c.held,c.dots⟩,fun heap heap' {_ _} h hchild hdir =>
      c.child_and_back heap heap' h hchild hdir⟩

theorem directoryTree_of_run (h : ((calls S).guard (Behaved S)).Reachable fs) :
    DirectoryTree S fs := by
  obtain ⟨o,cur,hc⟩ := coherent_of_run h
  exact hc.directoryTree

end

theorem formatted_createDirectory : ∃ (fs₀ fs₁ : FileSystem) (s : ℕ),
    FileSystem.format FirstFit.support FirstFit.heap FirstFit.disk = .ok fs₀ ∧
      fs₀.createDirectory FirstFit.support FirstFit.heap [100] = .ok (0,fs₁) ∧
      Entered FirstFit.support fs₀ fs₁ .root rootSector 2 [100] true s ∧
      Behaved FirstFit.support fs₀ (.createDirectory [100]) ∧
      fs₁.currentDir.findIndex [100] = some 2 ∧ fs₁.currentDir.isDirOfIndex 2 = true := by
  obtain ⟨fs,hformat,f⟩ := format_eq FirstFit.support FirstFit.heap FirstFit.disk
  have hname : fs.currentDir.findIndex [100] = none := f.findIndex_none (by decide) (by decide)
  obtain ⟨s,fs',hcreate,he⟩ := f.coherent.createDirectory_ok FirstFit.heap hname f.freeIndex_eq
    (by rw [f.clear]; decide)
  refine ⟨fs,fs',s,hformat,hcreate,he,fun _ => by rw [f.clear]; decide,?_,?_⟩
  · rw [he.table]
    exact Directory.findIndex_withEntry hname
  · rw [he.table, Directory.isDirOfIndex, Directory.getTableAt_withEntry, if_pos rfl]
    exact Directory.isDir_fillEntry _ _ _ _

/-- With a child directory, and by way of it and back. -/
theorem directoryTree_of_run_createDirectory : ∃ fs : FileSystem,
    DirectoryTree FirstFit.support fs ∧ ∃ s, Holds fs.disk (.entry rootSector 2) s .directory := by
  obtain ⟨fs,fs₁,s,hformat,hcreate,he,hb,-⟩ := formatted_createDirectory
  have hr : ((calls FirstFit.support).guard (Behaved FirstFit.support)).Reachable fs₁ :=
    .step (l := .createDirectory [100]) (.start ⟨_,_,hformat⟩)
      ⟨hb,FirstFit.heap,.code 0,by rw [FileSystem.call, hcreate]; rfl⟩
  exact ⟨fs₁,directoryTree_of_run hr,s,he.holds⟩

/-- `Remove(".")` succeeds on a formatted disk and drops slot `0` of the root. -/
theorem not_directoryTree_after_remove :
    ∃ fs₀ fs₁ : FileSystem,
      FileSystem.format FirstFit.support FirstFit.heap FirstFit.disk = .ok fs₀ ∧
      fs₀.remove FirstFit.support FirstFit.heap Directory.dot = .ok (true,fs₁) ∧
      ¬ DirectoryTree FirstFit.support fs₁ := by
  obtain ⟨fs,hformat,f⟩ := format_eq FirstFit.support FirstFit.heap FirstFit.disk
  obtain ⟨d',hremove,-,htable,-⟩ := f.coherent.remove_eq FirstFit.heap
    f.coherent.dots.findIndex_dot rfl
  refine ⟨fs,_,hformat,hremove,fun ht => ?_⟩
  have hu := (ht.dots .root).current.inUse
  change ((directoryAt d' rootSector).getTableAt 0).inUse = true at hu
  rw [htable, Directory.setInUseOfIndex, Directory.getTableAt_setTableAt, if_pos rfl,
    DirectoryEntry.inUse_setInUse] at hu
  exact absurd hu (by decide)

end Nachos
