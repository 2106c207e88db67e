import Nachos.FileSys.DirectoryTree

/-! # Files are used as files, directories as directories

An operation takes a header to have one level or two by what it is called, not
by the flag of the entry. `Open` and `Remove` on the name of a directory and
`ChangeDirectory` on that of a file go wrong; all other calls respect the kinds.
-/
namespace Nachos
open FileSystem (freeMapSector rootSector)

/-- How an operation reads a header: mode `0` and `DeallocateDirectory` take it to have one
level, mode `1` and `Deallocate` two. -/
inductive Levels where
  | one
  | two
  deriving DecidableEq

def NodeKind.levels : NodeKind → Levels
  | .freeMap => .one
  | .directory => .one
  | .file => .two

def foundHeader (dir : Directory) (name : List Byte) (l : Levels) : List (ℤ × Levels) :=
  match dir.findIndex name with
  | some i => [((dir.getTableAt i).sector.toInt,l)]
  | none => []

/-- The headers that exist and that a call reads or writes a file through, hands out in a
file, or frees the sectors of. `RemoveDirectory` frees only in an empty directory. -/
def headerUses (fs : FileSystem) (l : Call) : List (ℤ × Levels) :=
  ((freeMapSector : ℕ),.one) :: (fs.currentDir.getSector,.one) :: match l with
    | .create _ _ => []
    | .openFile name =>
      foundHeader (directoryAt fs.disk fs.currentDir.getSector.toNat) name .two
    | .remove name => foundHeader fs.currentDir name .two
    | .createDirectory _ => []
    | .removeDirectory name =>
      if fs.currentDir.isEmpty then foundHeader fs.currentDir name .one else []
    | .changeDirectory name => foundHeader fs.currentDir name .one

/-- The header is live and of a kind with these levels. -/
def Fits (d : Disk) (s : ℤ) (l : Levels) : Prop :=
  ∃ o n kind, s = (n : ℕ) ∧ Holds d o n kind ∧ kind.levels = l

/-- `Open` or `Remove` on the name of a directory, `RemoveDirectory` or `ChangeDirectory` on
the name of a file. -/
def WrongKind (fs : FileSystem) : Call → Prop
  | .openFile name | .remove name =>
    ∃ i, fs.currentDir.findIndex name = some i ∧ fs.currentDir.isDirOfIndex i = true
  | .removeDirectory name | .changeDirectory name =>
    ∃ i, fs.currentDir.findIndex name = some i ∧ fs.currentDir.isDirOfIndex i = false
  | .create _ _ | .createDirectory _ => False

def Reply.IsFailure : Reply → Prop
  | .success b => b = false
  | .handle file => file = none
  | .code n => n < 0

/-- The call reports failure and changes nothing. -/
def Refused (S : Support) (heap : Heap) (fs : FileSystem) (l : Call) : Prop :=
  ∃ reply, fs.call S heap l = .ok (reply,fs) ∧ reply.IsFailure

/-- A call of the wrong kind that is not `RemoveDirectory`. -/
def MixUp (fs : FileSystem) : Call → Prop
  | .removeDirectory _ => False
  | l => WrongKind fs l

def KindDiscipline (S : Support) (fs : FileSystem) (l : Call) : Prop :=
  (∀ u ∈ headerUses fs l, Fits fs.disk u.1 u.2) ∧
    ∀ heap, WrongKind fs l → Refused S heap fs l

section
variable {S : Support} {fs : FileSystem} {o : Owner} {cur : ℕ}

theorem Coherent.fits_found (c : Coherent S fs o cur) {name : List Byte} {l : Levels}
    (h : ∀ i, fs.currentDir.findIndex name = some i →
      (fs.currentDir.getTableAt i).kind.levels = l) :
    ∀ u ∈ foundHeader fs.currentDir name l, Fits fs.disk u.1 u.2 := by
  intro u hu
  unfold foundHeader at hu
  cases hn : fs.currentDir.findIndex name with
  | none =>
    rw [hn] at hu
    cases hu
  | some i =>
    rw [hn] at hu
    have hi := (Directory.findIndex_some hn).1
    obtain ⟨o',ho'⟩ := c.entry_live hi
    rw [List.mem_singleton.mp hu]
    exact ⟨o',_,_,c.entry_toInt hi,ho',h i hn⟩

theorem levels_of_isDir {e : DirectoryEntry} {b : Bool} (h : e.isDir = b) :
    e.kind.levels = if b then .one else .two := by
  subst h
  rw [DirectoryEntry.kind, NodeKind.ofIsDir]
  cases e.isDir <;> rfl

theorem Coherent.child_of_file (c : Coherent S fs o cur) {name : List Byte}
    {i : Fin numDirEntries} (hi : fs.currentDir.findIndex name = some i)
    (hfile : fs.currentDir.isDirOfIndex i = false) : fs.currentDir.Child i := by
  refine ⟨?_,(Directory.findIndex_some hi).1⟩
  by_contra h2
  rcases Directory.index_cases h2 with rfl | rfl
  · exact absurd (hfile.symm.trans c.dots.current.isDir) Bool.false_ne_true
  · exact absurd (hfile.symm.trans c.dots.parent.isDir) Bool.false_ne_true

/-- Without a mix-up every header is used for what it is. -/
theorem Coherent.fits (c : Coherent S fs o cur) {l : Call} (hm : ¬ MixUp fs l) :
    ∀ u ∈ headerUses fs l, Fits fs.disk u.1 u.2 := by
  have hfound : ∀ {name} {b : Bool} {lv : Levels}, (if b then Levels.one else .two) = lv →
      (¬ ∃ i, fs.currentDir.findIndex name = some i ∧ fs.currentDir.isDirOfIndex i = !b) →
      ∀ u ∈ foundHeader fs.currentDir name lv, Fits fs.disk u.1 u.2 := by
    intro name b lv hb hno
    refine c.fits_found fun i hi => ?_
    rw [levels_of_isDir (b := b), hb]
    cases hd : (fs.currentDir.getTableAt i).isDir with
    | false =>
      cases b with
      | false => rfl
      | true => exact absurd ⟨i,hi,hd⟩ hno
    | true =>
      cases b with
      | false => exact absurd ⟨i,hi,hd⟩ hno
      | true => rfl
  intro u hu
  rcases List.mem_cons.mp hu with rfl | hu
  · exact ⟨.freeMap,_,_,rfl,.freeMap,rfl⟩
  rcases List.mem_cons.mp hu with rfl | hu
  · exact ⟨o,cur,_,c.home,c.held,rfl⟩
  cases l with
  | create => cases hu
  | createDirectory => cases hu
  | openFile name =>
    rw [c.home, Int.toNat_natCast, ← c.synced] at hu
    exact hfound (b := false) rfl hm u hu
  | remove name => exact hfound (b := false) rfl hm u hu
  | removeDirectory name =>
    cases hempty : fs.currentDir.isEmpty with
    | false =>
      simp only [hempty, Bool.false_eq_true, if_false] at hu
      cases hu
    | true =>
      simp only [hempty, if_true] at hu
      refine hfound (b := true) rfl (fun ⟨i,hi,hd⟩ => ?_) u hu
      have hchild := c.child_of_file hi hd
      exact absurd (hempty.symm.trans (isEmpty_of_child hchild)) Bool.false_ne_true.symm
  | changeDirectory name => exact hfound (b := true) rfl hm u hu

/-- A file in the current directory keeps `RemoveDirectory` from freeing anything. -/
theorem Coherent.removeDirectory_file (c : Coherent S fs o cur) (heap : Heap) {name : List Byte}
    (h : WrongKind fs (.removeDirectory name)) : Refused S heap fs (.removeDirectory name) := by
  obtain ⟨i,hi,hfile⟩ := h
  have hchild := c.child_of_file hi hfile
  refine ⟨.code (-1),?_,show (-1 : ℤ) < 0 by decide⟩
  rw [FileSystem.call, c.removeDirectory_refused heap hi (isEmpty_of_child hchild)]
  rfl

theorem reply_eq {r r' : Reply} {fs fs' : FileSystem}
    (h : (Except.ok (r,fs) : Outcome (Reply × FileSystem)) = .ok (r',fs')) : r = r' :=
  congrArg Prod.fst (Except.ok.inj h)

/-- A mix-up is never refused: the code does not look at the kind of the entry. -/
theorem Coherent.not_refused (c : Coherent S fs o cur) (heap : Heap) {l : Call}
    (h : MixUp fs l) : ¬ Refused S heap fs l := by
  rintro ⟨reply,hcall,hfail⟩
  cases l with
  | create => exact h
  | createDirectory => exact h
  | removeDirectory => exact h
  | openFile name =>
    obtain ⟨i,hi,-⟩ := h
    rw [FileSystem.call, c.openFile_some heap hi] at hcall
    rw [← reply_eq hcall] at hfail
    cases hfail
  | remove name =>
    obtain ⟨i,hi,-⟩ := h
    obtain ⟨d',hremove,-⟩ := c.remove_eq heap hi rfl
    rw [FileSystem.call, hremove] at hcall
    rw [← reply_eq hcall] at hfail
    cases hfail
  | changeDirectory name =>
    obtain ⟨i,hi,-⟩ := h
    rw [FileSystem.call] at hcall
    obtain ⟨r,hr,hcall⟩ := Outcome.bind_eq_ok.mp hcall
    unfold FileSystem.changeDirectory at hr
    rw [hi] at hr
    obtain ⟨f,-,hr⟩ := Outcome.bind_eq_ok.mp hr
    obtain ⟨dir,-,hr⟩ := Outcome.bind_eq_ok.mp hr
    injection hr with hr
    rw [← hr] at hcall
    rw [← reply_eq hcall] at hfail
    exact absurd hfail (lt_irrefl (0 : ℤ))

theorem Coherent.kindDiscipline_iff (c : Coherent S fs o cur) (l : Call) :
    KindDiscipline S fs l ↔ ¬ MixUp fs l := by
  refine ⟨fun h hm => ?_,fun hm => ⟨c.fits hm,fun heap hw => ?_⟩⟩
  · have hw : WrongKind fs l := by
      cases l with
      | removeDirectory => exact absurd hm id
      | _ => exact hm
    exact c.not_refused FirstFit.heap hm (h.2 FirstFit.heap hw)
  · cases l with
    | removeDirectory name => exact c.removeDirectory_file heap hw
    | _ => exact absurd hw hm

end

/-- After behaved calls without mix-ups, the next call keeps the discipline just when it is
no mix-up either. -/
theorem kindDiscipline_iff_of_run {S : Support} {fs : FileSystem}
    (h : ((calls S).guard fun fs l => Behaved S fs l ∧ ¬ MixUp fs l).Reachable fs) (l : Call) :
    KindDiscipline S fs l ↔ ¬ MixUp fs l := by
  obtain ⟨o,cur,hc⟩ := coherent_of_run (h.guard_mono fun _ _ hg => hg.1)
  exact hc.kindDiscipline_iff l

theorem kindDiscipline_of_run_createDirectory : ∃ fs : FileSystem,
    KindDiscipline FirstFit.support fs (.changeDirectory [100]) ∧
      fs.currentDir.findIndex [100] ≠ none := by
  obtain ⟨fs,fs₁,s,hformat,hcreate,he,hb,hfind,hdir⟩ := formatted_createDirectory
  refine ⟨fs₁,(kindDiscipline_iff_of_run (.step (l := .createDirectory [100])
    (.start ⟨_,_,hformat⟩) ⟨⟨hb,id⟩,FirstFit.heap,.code 0,by
      rw [FileSystem.call, hcreate]; rfl⟩) _).mpr ?_,by rw [hfind]; exact Option.some_ne_none 2⟩
  rintro ⟨i,hi,hfile⟩
  rw [hfind] at hi
  cases hi
  exact absurd (hfile.symm.trans hdir) Bool.false_ne_true

/-- `Remove` deletes the directory that `CreateDirectory("d")` has made. -/
theorem not_kindDiscipline_remove : ∃ fs₀ fs₁ fs₂ : FileSystem,
    FileSystem.format FirstFit.support FirstFit.heap FirstFit.disk = .ok fs₀ ∧
      fs₀.createDirectory FirstFit.support FirstFit.heap [100] = .ok (0,fs₁) ∧
      fs₁.remove FirstFit.support FirstFit.heap [100] = .ok (true,fs₂) ∧
      ¬ KindDiscipline FirstFit.support fs₁ (.remove [100]) := by
  obtain ⟨fs,fs₁,s,hformat,hcreate,he,-,hfind,hdir⟩ := formatted_createDirectory
  obtain ⟨d',hremove,-⟩ := he.coherent.remove_eq FirstFit.heap hfind rfl
  have hm : MixUp fs₁ (.remove [100]) := ⟨2,hfind,hdir⟩
  exact ⟨fs,fs₁,_,hformat,hcreate,hremove,fun h =>
    he.coherent.not_refused FirstFit.heap hm (h.2 FirstFit.heap hm)⟩

end Nachos
