import Nachos.FileSys.Format
import Nachos.Library.Run

/-! # Sequences of calls

A run starts on a formatted disk and makes one call after another, each with
whatever its uninitialised memory holds. A call behaves when it stays clear of
the places where the code goes wrong; then it returns, and coherence is kept.
-/
namespace Nachos

inductive Call where
  | create (name : List Byte) (initialSize : Word)
  | openFile (name : List Byte)
  | remove (name : List Byte)
  | createDirectory (name : List Byte)
  | removeDirectory (name : List Byte)
  | changeDirectory (name : List Byte)

inductive Reply where
  | success (b : Bool)
  | handle (file : Option OpenFile)
  | code (n : ℤ)

namespace FileSystem

def call (S : Support) (heap : Heap) (fs : FileSystem) : Call → Outcome (Reply × FileSystem)
  | .create name initialSize => do
    let (b,fs) ← fs.create S heap name initialSize
    return (.success b,fs)
  | .openFile name => do
    let file ← fs.openFile S heap name
    return (.handle file,fs)
  | .remove name => do
    let (b,fs) ← fs.remove S heap name
    return (.success b,fs)
  | .createDirectory name => do
    let (n,fs) ← fs.createDirectory S heap name
    return (.code n,fs)
  | .removeDirectory name => do
    let (n,fs) ← fs.removeDirectory S heap name
    return (.code n,fs)
  | .changeDirectory name => do
    let (n,fs) ← fs.changeDirectory S heap name
    return (.code n,fs)

end FileSystem

def calls (S : Support) : TransitionSystem FileSystem Call where
  init fs := ∃ heap disk, FileSystem.format S heap disk = .ok fs
  step fs l fs' := ∃ heap reply, fs.call S heap l = .ok (reply,fs')

section Behaved
variable (S : Support) (fs : FileSystem)

/-- A creation that is not refused for its name, for want of a header sector or for want
of a slot. -/
def Enters (name : List Byte) : Prop :=
  fs.currentDir.findIndex name = none ∧ 0 < (storedMap S fs.disk).numClear ∧
    fs.currentDir.freeIndex ≠ none

/-- Room for a header, for `n` data sectors and for their index sectors. -/
def Room (n : ℤ) : Prop :=
  0 ≤ n ∧ indexCount n.toNat ≤ numDirect ∧
    n + indexCount n.toNat + 1 ≤ (storedMap S fs.disk).numClear

/-- `Create` and `CreateDirectory` have room when they get to allocate, `Remove` is not
given `.` or `..`, `RemoveDirectory` neither of them in an empty directory, and
`ChangeDirectory` no plain file. -/
def Behaved : Call → Prop
  | .create name initialSize => Enters S fs name →
      Room S fs (FileHeader.sectorsFor S initialSize).toInt
  | .openFile _ => True
  | .remove name => ∀ i, fs.currentDir.findIndex name = some i → 2 ≤ i.val
  | .createDirectory name => Enters S fs name → 3 ≤ (storedMap S fs.disk).numClear
  | .removeDirectory name =>
      fs.currentDir.findIndex name = none ∨ fs.currentDir.isEmpty = false
  | .changeDirectory name => ∀ i, fs.currentDir.findIndex name = some i →
      fs.currentDir.isDirOfIndex i = true

end Behaved

section
variable {S : Support} {fs : FileSystem} {o : Owner} {cur : ℕ}

/-- A call that does not enter a node is refused or finds the disk or the table full. -/
theorem not_enters {name : List Byte} (h : ¬ Enters S fs name) :
    (∃ i, fs.currentDir.findIndex name = some i) ∨ (fs.currentDir.findIndex name = none ∧
      ((storedMap S fs.disk).numClear ≤ 0 ∨ fs.currentDir.freeIndex = none)) := by
  cases hn : fs.currentDir.findIndex name with
  | some i => exact .inl ⟨i,rfl⟩
  | none =>
    refine .inr ⟨rfl,?_⟩
    by_contra hno
    obtain ⟨h1,h2⟩ := not_or.mp hno
    exact h ⟨hn,not_le.mp h1,h2⟩

theorem Formatted.room (f : Formatted S fs) {n : ℤ} : Room S fs n ↔
    0 ≤ n ∧ indexCount n.toNat ≤ numDirect ∧ n + indexCount n.toNat + 1 ≤ 1019 := by
  rw [Room, f.clear]

theorem Formatted.enters (f : Formatted S fs) {name : List Byte}
    (h : cString fileNameMaxLen name ≠ Directory.dot)
    (h' : cString fileNameMaxLen name ≠ Directory.dotDot) : Enters S fs name := by
  refine ⟨f.findIndex_none h h',?_,?_⟩
  · rw [f.clear]
    decide
  · rw [f.freeIndex_eq]
    exact Option.some_ne_none 2

theorem Coherent.call (c : Coherent S fs o cur) (heap : Heap) {l : Call} (hl : Behaved S fs l) :
    ∃ reply fs' o' cur', fs.call S heap l = .ok (reply,fs') ∧ Coherent S fs' o' cur' := by
  cases l with
  | create name size =>
    by_cases he : Enters S fs name
    · obtain ⟨h0,hindex,hroom⟩ := hl he
      obtain ⟨hname,-,hslot⟩ := he
      obtain ⟨i,hi⟩ := Option.ne_none_iff_exists'.mp hslot
      obtain ⟨s,fs',hcreate,he,-⟩ := c.create_ok heap hname hi (Int.toNat_of_nonneg h0).symm
        hindex (by omega)
      exact ⟨.success true,fs',o,cur,by rw [FileSystem.call, hcreate]; rfl,he.coherent⟩
    · refine ⟨.success false,fs,o,cur,?_,c⟩
      rcases not_enters he with ⟨i,hi⟩ | ⟨hname,hfull⟩
      · rw [FileSystem.call, c.create_refused heap hi]
        rfl
      · rw [FileSystem.call, c.create_full heap hname hfull]
        rfl
  | openFile name =>
    cases hn : fs.currentDir.findIndex name with
    | none =>
      exact ⟨.handle none,fs,o,cur,by rw [FileSystem.call, c.openFile_none heap hn]; rfl,c⟩
    | some i =>
      exact ⟨_,fs,o,cur,by rw [FileSystem.call, c.openFile_some heap hn]; rfl,c⟩
  | remove name =>
    cases hn : fs.currentDir.findIndex name with
    | none =>
      exact ⟨.success false,fs,o,cur,by rw [FileSystem.call, c.remove_absent heap hn]; rfl,c⟩
    | some i =>
      obtain ⟨d',o',hremove,c',-⟩ := c.remove_ok heap hn (hl i hn) rfl
      exact ⟨.success true,_,o',cur,by rw [FileSystem.call, hremove]; rfl,c'⟩
  | createDirectory name =>
    by_cases he : Enters S fs name
    · have hroom := hl he
      obtain ⟨hname,-,hslot⟩ := he
      obtain ⟨i,hi⟩ := Option.ne_none_iff_exists'.mp hslot
      obtain ⟨s,fs',hcreate,he⟩ := c.createDirectory_ok heap hname hi hroom
      exact ⟨.code 0,fs',o,cur,by rw [FileSystem.call, hcreate]; rfl,he.coherent⟩
    · rcases not_enters he with ⟨i,hi⟩ | ⟨hname,hfull⟩
      · exact ⟨.code (-2),fs,o,cur,by
          rw [FileSystem.call, c.createDirectory_refused heap hi]; rfl,c⟩
      · exact ⟨.code (-1),fs,o,cur,by
          rw [FileSystem.call, c.createDirectory_full heap hname hfull]; rfl,c⟩
  | removeDirectory name =>
    cases hn : fs.currentDir.findIndex name with
    | none =>
      refine ⟨.code (-2),fs,o,cur,?_,c⟩
      rw [FileSystem.call, FileSystem.removeDirectory, hn]
      rfl
    | some i =>
      have hfull := hl.resolve_left (by rw [hn]; exact Option.some_ne_none i)
      exact ⟨.code (-1),fs,o,cur,by
        rw [FileSystem.call, c.removeDirectory_refused heap hn hfull]; rfl,c⟩
  | changeDirectory name =>
    cases hn : fs.currentDir.findIndex name with
    | none =>
      refine ⟨.code (-1),fs,o,cur,?_,c⟩
      rw [FileSystem.call, FileSystem.changeDirectory, hn]
      rfl
    | some i =>
      obtain ⟨o',s,-,hchange,c'⟩ := c.changeDirectory_ok heap hn (hl i hn)
      exact ⟨.code 0,_,o',s,by rw [FileSystem.call, hchange]; rfl,c'⟩

theorem coherent_of_run (h : ((calls S).guard (Behaved S)).Reachable fs) :
    ∃ o cur, Coherent S fs o cur := by
  refine h.invariant (P := fun fs => ∃ o cur, Coherent S fs o cur) (fun fs hf => ?_) fun fs l fs' hc hs => ?_
  · obtain ⟨heap,disk,hf⟩ := hf
    obtain ⟨fs₀,hf₀,hfmt⟩ := format_eq S heap disk
    rw [hf] at hf₀
    cases hf₀
    exact ⟨_,_,hfmt.coherent⟩
  · obtain ⟨o,cur,hc⟩ := hc
    obtain ⟨hl,heap,reply,hcall⟩ := hs
    obtain ⟨reply',fs'',o',cur',hcall',hc'⟩ := hc.call heap hl
    rw [hcall] at hcall'
    cases hcall'
    exact ⟨o',cur',hc'⟩

end

end Nachos
