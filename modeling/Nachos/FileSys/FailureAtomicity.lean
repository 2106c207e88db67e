import Nachos.FileSys.SectorOwnership

/-! # What a failing creation leaves behind

`Create` and `CreateDirectory` enter the name in the shared table before they
look for data sectors. When these are missing the name stays, in memory only;
every other failure changes nothing.
-/
namespace Nachos

def Unchanged (fs fs' : FileSystem) : Prop := fs'.currentDir = fs.currentDir ∧ fs'.disk = fs.disk

/-- The name is not found, there is a header sector, the entry is made by `enter`, and what
is then clear does not do for `n` data sectors. -/
def LeavesName (S : Support) (fs : FileSystem) (name : List Byte)
    (enter : Word → Bool × Directory) (n : ℤ) : Prop :=
  fs.currentDir.find name = -1 ∧ ∃ m, BitMap.fetchFrom S fs.freeMapFile fs.disk = .ok m ∧
    (BitMap.find S m).1 ≠ -1 ∧ (enter (BitMap.find S m).1).1 = true ∧
    (BitMap.find S m).2.numClear < n

section
variable {S : Support} {fs fs' : FileSystem} {heap : Heap} {name : List Byte} {size : Word}

theorem setTableAt_ne {dir : Directory} {i : Fin numDirEntries} (h : dir.freeIndex = some i)
    (isDir : Bool) (w : Word) :
    dir.setTableAt i (Directory.fillEntry (dir.getTableAt i) name isDir w) ≠ dir := by
  intro he
  have hu := (Directory.freeIndex_some h).2
  rw [← he, Directory.isInUseOfIndex, Directory.getTableAt_setTableAt, if_pos rfl,
    Directory.inUse_fillEntry] at hu
  exact absurd hu (by decide)

theorem add_changes (dir : Directory) (name : List Byte) (w : Word) :
    (dir.add name w).2 = dir ↔ (dir.add name w).1 = false := by
  unfold Directory.add
  split_ifs
  · exact iff_of_true rfl rfl
  · cases hi : dir.freeIndex with
    | none => exact iff_of_true rfl rfl
    | some i => exact iff_of_false (setTableAt_ne hi false w) Bool.false_ne_true.symm

theorem addDirectory_changes (dir : Directory) (name : List Byte) (w : Word) :
    (dir.addDirectory name w).2 = dir ↔ (dir.addDirectory name w).1 = false := by
  unfold Directory.addDirectory
  cases hi : dir.freeIndex with
  | none => exact iff_of_true rfl rfl
  | some i => exact iff_of_false (setTableAt_ne hi true w) Bool.false_ne_true.symm

theorem allocate_false_iff {hdr hdr' : FileHeader} {arrays : ℕ → FileHeader} {b : Bool}
    {m m' : BitMap} {d d' : Disk} (h : hdr.allocate S arrays m size d = .ok (b,hdr',m',d')) :
    b = false ↔ m.numClear < (FileHeader.sectorsFor S size).toInt := by
  rw [FileHeader.allocate] at h
  by_cases hlt : m.numClear < (FileHeader.sectorsFor S size).toInt
  · simp only [if_pos hlt] at h
    cases h
    exact iff_of_true rfl hlt
  · simp only [if_neg hlt] at h
    obtain ⟨r,-,hr⟩ := Outcome.bind_eq_ok.mp h
    cases hr
    exact iff_of_false (by decide) hlt

theorem allocateDirectory_false_iff {hdr hdr' : FileHeader} {b : Bool} {m m' : BitMap}
    (h : hdr.allocateDirectory S m size = .ok (b,hdr',m')) :
    b = false ↔ m.numClear < (FileHeader.sectorsFor S size).toInt := by
  rw [FileHeader.allocateDirectory] at h
  by_cases hlt : m.numClear < (FileHeader.sectorsFor S size).toInt
  · simp only [if_pos hlt] at h
    cases h
    exact iff_of_true rfl hlt
  · simp only [if_neg hlt] at h
    obtain ⟨r,-,hr⟩ := Outcome.bind_eq_ok.mp h
    cases hr
    exact iff_of_false (by decide) hlt

theorem leavesName_iff {enter : Word → Bool × Directory} {n : ℤ} {m : BitMap}
    (hfind : fs.currentDir.find name = -1)
    (hm : BitMap.fetchFrom S fs.freeMapFile fs.disk = .ok m) :
    LeavesName S fs name enter n ↔ (BitMap.find S m).1 ≠ -1 ∧
      (enter (BitMap.find S m).1).1 = true ∧ (BitMap.find S m).2.numClear < n := by
  refine ⟨fun ⟨_,m',hm',hl⟩ => ?_,fun hl => ⟨hfind,m,hm,hl⟩⟩
  rw [hm] at hm'
  cases hm'
  exact hl

theorem create_false (h : fs.create S heap name size = .ok (false,fs')) : Unchanged fs fs' ↔
    ¬ LeavesName S fs name (fs.currentDir.add name) (FileHeader.sectorsFor S size).toInt := by
  rw [FileSystem.create] at h
  by_cases hfind : fs.currentDir.find name ≠ -1
  · rw [if_pos hfind] at h
    cases h
    exact iff_of_true ⟨rfl,rfl⟩ fun hl => hfind hl.1
  rw [if_neg hfind] at h
  obtain ⟨m,hm,h⟩ := Outcome.bind_eq_ok.mp h
  rw [leavesName_iff (not_not.mp hfind) hm]
  have hadd := add_changes fs.currentDir name (BitMap.find S m).1
  generalize BitMap.find S m = r at h hadd
  obtain ⟨sector,m₁⟩ := r
  by_cases hsec : sector = -1
  · simp only [if_pos hsec] at h
    cases h
    exact iff_of_true ⟨rfl,rfl⟩ fun hl => hl.1 hsec
  simp only [if_neg hsec] at h
  generalize fs.currentDir.add name sector = a at h hadd
  obtain ⟨added,dir⟩ := a
  cases added with
  | false =>
    cases h
    exact iff_of_true ⟨hadd.mpr rfl,rfl⟩ fun hl => absurd hl.2.1 Bool.false_ne_true
  | true =>
    simp only [Bool.not_true, Bool.false_eq_true, if_false] at h
    obtain ⟨⟨b,hdr,m₂,d⟩,halloc,h⟩ := Outcome.bind_eq_ok.mp h
    have hb := allocate_false_iff halloc
    cases b with
    | false =>
      cases h
      refine iff_of_false (fun hu => ?_) (not_not.mpr ⟨hsec,rfl,hb.mp rfl⟩)
      exact absurd (hadd.mp hu.1) Bool.false_ne_true.symm
    | true =>
      -- what comes after the allocation cannot fail
      simp only [Bool.not_true, Bool.false_eq_true, if_false] at h
      obtain ⟨d₁,-,h⟩ := Outcome.bind_eq_ok.mp h
      obtain ⟨f,-,h⟩ := Outcome.bind_eq_ok.mp h
      obtain ⟨d₂,-,h⟩ := Outcome.bind_eq_ok.mp h
      obtain ⟨d₃,-,h⟩ := Outcome.bind_eq_ok.mp h
      cases h

theorem createDirectory_negative {n : ℤ} (hn : n < 0)
    (h : fs.createDirectory S heap name = .ok (n,fs')) : Unchanged fs fs' ↔
      ¬ LeavesName S fs name (fs.currentDir.addDirectory name)
        (FileHeader.sectorsFor S directoryFileSize).toInt := by
  rw [FileSystem.createDirectory] at h
  by_cases hfind : fs.currentDir.find name ≠ -1
  · rw [if_pos hfind] at h
    cases h
    exact iff_of_true ⟨rfl,rfl⟩ fun hl => hfind hl.1
  rw [if_neg hfind] at h
  obtain ⟨m,hm,h⟩ := Outcome.bind_eq_ok.mp h
  rw [leavesName_iff (not_not.mp hfind) hm]
  have hadd := addDirectory_changes fs.currentDir name (BitMap.find S m).1
  generalize BitMap.find S m = r at h hadd
  obtain ⟨sector,m₁⟩ := r
  by_cases hsec : sector = -1
  · simp only [if_pos hsec] at h
    cases h
    exact iff_of_true ⟨rfl,rfl⟩ fun hl => hl.1 hsec
  simp only [if_neg hsec] at h
  generalize fs.currentDir.addDirectory name sector = a at h hadd
  obtain ⟨added,dir⟩ := a
  cases added with
  | false =>
    cases h
    exact iff_of_true ⟨hadd.mpr rfl,rfl⟩ fun hl => absurd hl.2.1 Bool.false_ne_true
  | true =>
    simp only [Bool.not_true, Bool.false_eq_true, if_false] at h
    obtain ⟨⟨b,hdr,m₂⟩,halloc,h⟩ := Outcome.bind_eq_ok.mp h
    have hb := allocateDirectory_false_iff halloc
    cases b with
    | false =>
      cases h
      refine iff_of_false (fun hu => ?_) (not_not.mpr ⟨hsec,rfl,hb.mp rfl⟩)
      exact absurd (hadd.mp hu.1) Bool.false_ne_true.symm
    | true =>
      simp only [Bool.not_true, Bool.false_eq_true, if_false] at h
      obtain ⟨d₁,-,h⟩ := Outcome.bind_eq_ok.mp h
      obtain ⟨f,-,h⟩ := Outcome.bind_eq_ok.mp h
      obtain ⟨d₂,-,h⟩ := Outcome.bind_eq_ok.mp h
      obtain ⟨f₁,-,h⟩ := Outcome.bind_eq_ok.mp h
      obtain ⟨d₃,-,h⟩ := Outcome.bind_eq_ok.mp h
      obtain ⟨d₄,-,h⟩ := Outcome.bind_eq_ok.mp h
      cases h
      exact absurd hn (by decide)

theorem Coherent.refused_iff {o : Owner} {cur : ℕ} (c : Coherent S fs o cur) (heap : Heap)
    (name : List Byte) :
    fs.currentDir.find name ≠ -1 ↔ ∃ file, fs.openFile S heap name = .ok (some file) := by
  rw [ne_eq, c.find_eq_neg_one]
  cases h : fs.currentDir.findIndex name with
  | none =>
    refine iff_of_false (not_not.mpr rfl) fun ⟨file,hf⟩ => ?_
    rw [c.openFile_none heap h] at hf
    cases hf
  | some i => exact iff_of_true (Option.some_ne_none i) ⟨_,c.openFile_some heap h⟩

end

/-- A failing creation changes nothing unless it leaves the name; where no call does, what
`Create` refuses as present is what `Open` finds. -/
theorem failureAtomicity (S : Support) :
    (∀ fs fs' heap name size, fs.create S heap name size = .ok (false,fs') →
      (Unchanged fs fs' ↔
        ¬ LeavesName S fs name (fs.currentDir.add name) (FileHeader.sectorsFor S size).toInt)) ∧
    (∀ fs fs' heap name n, n < 0 → fs.createDirectory S heap name = .ok (n,fs') →
      (Unchanged fs fs' ↔ ¬ LeavesName S fs name (fs.currentDir.addDirectory name)
        (FileHeader.sectorsFor S directoryFileSize).toInt)) ∧
    (∀ fs, ((calls S).guard (Behaved S)).Reachable fs → ∀ heap name,
      fs.currentDir.find name ≠ -1 ↔ ∃ file, fs.openFile S heap name = .ok (some file)) := by
  refine ⟨fun _ _ _ _ _ h => create_false h,fun _ _ _ _ _ hn h => createDirectory_negative hn h,
    fun fs h heap name => ?_⟩
  obtain ⟨o,cur,hc⟩ := coherent_of_run h
  exact hc.refused_iff heap name

/-- `Create("a", 131072)` fails on a formatted disk; then the name is in memory, where
`Create` looks, and not on disk, where `Open` does. -/
theorem failed_create_leaves_name :
    ∃ fs₀ fs₁ : FileSystem,
      FileSystem.format FirstFit.support FirstFit.heap FirstFit.disk = .ok fs₀ ∧
      fs₀.create FirstFit.support FirstFit.heap [97] 131072 = .ok (false,fs₁) ∧
      ¬ Unchanged fs₀ fs₁ ∧ fs₁.currentDir.find [97] ≠ -1 ∧
      fs₁.openFile FirstFit.support FirstFit.heap [97] = .ok none := by
  obtain ⟨fs,hformat,f⟩ := format_eq FirstFit.support FirstFit.heap FirstFit.disk
  have hname : fs.currentDir.findIndex [97] = none := f.findIndex_none (by decide) (by decide)
  obtain ⟨s,hfound,-,hs,-⟩ := BitMap.find_eq (S := FirstFit.support) (m := storedMap _ fs.disk)
    (by rw [f.clear]; decide)
  have hfail : fs.create FirstFit.support FirstFit.heap [97] 131072 = _ :=
    f.coherent.create_noRoom FirstFit.heap hname f.freeIndex_eq hfound (by rw [f.clear]; decide)
  refine ⟨fs,_,hformat,hfail,fun hu => setTableAt_ne f.freeIndex_eq _ _ hu.1,?_,?_⟩
  · rw [Directory.find, Directory.findIndex_withEntry hname]
    simp only [Directory.getTableAt_withEntry, if_pos, Directory.sector_fillEntry,
      ofNat_toInt_sector hs]
    omega
  · have hopen := f.coherent.openFile_none FirstFit.heap hname
    rw [FileSystem.openFile] at hopen ⊢
    rw [getSector_withEntry fs.currentDir (by decide)]
    exact hopen

end Nachos
