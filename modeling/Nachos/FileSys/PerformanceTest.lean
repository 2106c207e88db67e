import Nachos.FileSys.OpenHandle

/-! # The performance test

`FileWrite`, `FileRead` and `PerformanceTest` of `fstest.cc`: a large file is created, written a
bit at a time, read back and removed. Every call finds uninitialised memory of its own.
-/
namespace Nachos

inductive PerfLine where
  /-- `Starting file system performance test:` -/
  | starting
  /-- `Sequential write of %d byte file, in %zd byte chunks` -/
  | sequentialWrite (size chunk : ℕ)
  | cantCreate
  /-- `Perf test: unable to open %s` -/
  | unableToOpen
  | unableToWrite
  /-- `Sequential read of %d byte file, in %zd byte chunks` -/
  | sequentialRead (size chunk : ℕ)
  /-- `Perf test: unable to open file %s` -/
  | unableToOpenFile
  | unableToRead
  | unableToRemove

namespace PerfTest

/-- `TestFile` -/
def fileName : List Byte := [0x54,0x65,0x73,0x74,0x46,0x69,0x6C,0x65]

/-- `1234567890` -/
def contents : List Byte := [0x31,0x32,0x33,0x34,0x35,0x36,0x37,0x38,0x39,0x30]

def contentSize : ℕ := contents.length

def rounds : ℕ := 12000

def fileSize : ℕ := contentSize * rounds

theorem contentSize_eq : contentSize = 10 := rfl

theorem fileSize_eq : fileSize = 120000 := rfl

section Programs
variable (S : Support) (heap : ℕ → Heap) (chars : ℕ → ℕ → Byte)

def writeLoop (file : OpenFile) (disk : Disk) (i : ℕ) : Outcome (Bool × Disk) :=
  if i < fileSize then do
    let (numBytes,disk,file) ← file.write S (chars i) disk contents contentSize
    if numBytes < 10 then return (false,disk)
    else writeLoop file disk (i + contentSize)
  else return (true,disk)
termination_by fileSize - i
decreasing_by
  rw [contentSize_eq]
  omega

def fileWrite (fs : FileSystem) : Outcome (List PerfLine × FileSystem) := do
  let line := PerfLine.sequentialWrite fileSize contentSize
  let (success,fs) ← fs.create S (heap 0) fileName (BitVec.ofInt 32 fileSize)
  if success = false then return ([line,.cantCreate],fs)
  else
    match ← fs.openFile S (heap 1) fileName with
    | none => return ([line,.unableToOpen],fs)
    | some openFile =>
      let (done,disk) ← writeLoop S chars openFile fs.disk 0
      return (line :: (if done then [] else [.unableToWrite]),{ fs with disk := disk })

/-- `strncmp` compares with bytes that are not `NUL`. -/
def readLoop (file : OpenFile) (disk : Disk) (i : ℕ) : Outcome Bool :=
  if i < fileSize then do
    let (numBytes,buffer,file) ← file.read S disk contentSize
    if numBytes < 10 ∨ buffer.take contentSize ≠ contents then return false
    else readLoop file disk (i + contentSize)
  else return true
termination_by fileSize - i
decreasing_by
  rw [contentSize_eq]
  omega

def fileRead (fs : FileSystem) : Outcome (List PerfLine) := do
  let line := PerfLine.sequentialRead fileSize contentSize
  match ← fs.openFile S (heap 2) fileName with
  | none => return [line,.unableToOpenFile]
  | some openFile =>
    let done ← readLoop S openFile fs.disk 0
    return line :: if done then [] else [.unableToRead]

def performanceTest (fs : FileSystem) : Outcome (List PerfLine × FileSystem) := do
  let (written,fs) ← fileWrite S heap chars fs
  let read ← fileRead S heap fs
  let (success,fs) ← fs.remove S (heap 3) fileName
  return (.starting :: written ++ read ++ (if success then [] else [.unableToRemove]),fs)

end Programs

theorem take_drop_flatten_replicate {α : Type*} (c : List α) {j n : ℕ} (hj : j < n) :
    ((List.replicate n c).flatten.drop (c.length * j)).take c.length = c := by
  obtain ⟨k,rfl⟩ := Nat.exists_eq_add_of_lt hj
  have hfront : (List.replicate j c).flatten.length = c.length * j := by
    rw [List.length_flatten, List.map_replicate, List.sum_replicate_nat, mul_comm]
  rw [add_assoc, List.replicate_add, List.flatten_append, List.drop_left' hfront,
    List.replicate_succ, List.flatten_cons, List.take_left' rfl]

/-- A tree that is another one with a file under one name. -/
structure HasFile (h₀ : Hierarchy) (free : ℤ) (name bytes : List Byte) (h : Hierarchy) : Prop where
  cwd : h.cwd = h₀.cwd
  free : h.free = free
  node : ∀ q, h.tree.node q = if q = h₀.path name then some (.file bytes) else h₀.tree.node q

theorem length_copies : (List.replicate rounds contents).flatten.length = fileSize := by
  rw [List.length_flatten, List.map_replicate, List.sum_replicate_nat, mul_comm]
  rfl

section Loops
variable {S : Support} {chars : ℕ → ℕ → Byte} {fs : FileSystem} {h₀ h : Hierarchy} {free : ℤ}
  {name bytes bytes' : List Byte} {f : OpenFile} {j : ℕ}

theorem HasFile.store (x : HasFile h₀ free name bytes h)
    (hn : h.tree.node (h.path name) = some (.file bytes)) :
    HasFile h₀ free name bytes' (h.store name hn bytes') := by
  refine ⟨x.cwd,x.free,fun q => ?_⟩
  have hpath : h.cwd ++ [fileKey name] = h₀.path name := by rw [x.cwd, Hierarchy.path]
  rw [Hierarchy.store, Namespace.node_put, hpath]
  split_ifs with hq
  · rfl
  · rw [x.node, if_neg hq]

structure Written (j : ℕ) (bytes : List Byte) : Prop where
  length : bytes.length = fileSize
  front : bytes.take (contentSize * j) = (List.replicate j contents).flatten

theorem Written.next (x : Written j bytes) (hj : j < rounds) :
    Written (j + 1) (splice bytes (contentSize * j) contents) := by
  have hfit : contentSize * j + contents.length ≤ bytes.length := by
    rw [x.length, fileSize]
    have : contentSize * (j + 1) ≤ contentSize * rounds := Nat.mul_le_mul_left _ hj
    rwa [Nat.mul_succ] at this
  have hfront : (bytes.take (contentSize * j) ++ contents).length = contentSize * (j + 1) := by
    rw [List.length_append, List.length_take, Nat.mul_succ, ← contentSize]
    have : contents.length = contentSize := rfl
    omega
  refine ⟨(length_splice hfit).trans x.length,?_⟩
  rw [splice, List.take_left' hfront, x.front, List.replicate_succ', List.flatten_append,
    List.flatten_singleton]

theorem isInt_position (hj : j < rounds) : IsInt ((contentSize * j : ℕ) + contents.length) := by
  unfold IsInt
  rw [contentSize_eq, show contents.length = 10 from rfl]
  unfold rounds at hj
  omega

variable (chars) in
/-- By induction on the rounds that are left. -/
theorem writeLoop_eq (n : ℕ) (hj : j + n = rounds)
    (x : Opened S fs h fileName bytes f (contentSize * j)) (k : HasFile h₀ free fileName bytes h)
    (w : Written j bytes) : ∃ d h', writeLoop S chars f fs.disk (contentSize * j) = .ok (true,d) ∧
      Mirrors S { fs with disk := d } h' ∧
      HasFile h₀ free fileName (List.replicate rounds contents).flatten h' := by
  induction n generalizing fs h f bytes j with
  | zero =>
    obtain rfl : j = rounds := hj
    have hall : bytes = (List.replicate rounds contents).flatten := by
      rw [← w.front, List.take_of_length_le (by rw [w.length, fileSize])]
    refine ⟨fs.disk,h,?_,x.mirrors,hall ▸ k⟩
    rw [writeLoop, if_neg (by rw [fileSize]; exact lt_irrefl _)]
    rfl
  | succ n ih =>
    have hlt : j < rounds := by omega
    have hfit : contentSize * j + contents.length ≤ bytes.length := by
      rw [w.length, fileSize]
      exact (Nat.mul_succ _ _).symm.trans_le (Nat.mul_le_mul_left _ hlt)
    obtain ⟨d,hw,x'⟩ := x.write hfit (isInt_position hlt)
      (chars (contentSize * j))
    obtain ⟨d',h',hloop,hM,hk⟩ := ih (j := j + 1) (by omega) x' (k.store x.node) (w.next hlt)
    refine ⟨d',h',?_,hM,hk⟩
    rw [writeLoop, if_pos (by rw [fileSize]; exact Nat.mul_lt_mul_of_pos_left hlt (by decide))]
    simp only [show (contentSize : ℤ) = contents.length from rfl, hw, Outcome.ok_bind]
    rw [if_neg (by decide)]
    exact hloop

theorem readLoop_eq (n : ℕ) (hj : j + n = rounds)
    (x : Opened S fs h fileName (List.replicate rounds contents).flatten f (contentSize * j)) :
    readLoop S f fs.disk (contentSize * j) = .ok true := by
  induction n generalizing f j with
  | zero =>
    obtain rfl : j = rounds := hj
    rw [readLoop, if_neg (by rw [fileSize]; exact lt_irrefl _)]
    rfl
  | succ n ih =>
    have hlt : j < rounds := by omega
    have hcount : transferCount (List.replicate rounds contents).flatten.length (contentSize * j)
        contentSize = contentSize := by
      have : contentSize * (j + 1) ≤ fileSize := Nat.mul_le_mul_left _ hlt
      rw [Nat.mul_succ] at this
      rw [length_copies, transferCount]
      omega
    obtain ⟨hread,x'⟩ := x.read (n := contentSize) (isInt_position hlt)
    rw [hcount] at hread x'
    rw [readLoop, if_pos (by rw [fileSize]; exact Nat.mul_lt_mul_of_pos_left hlt (by decide))]
    simp only [hread, Outcome.ok_bind]
    have hslice := take_drop_flatten_replicate contents hlt
    rw [← contentSize] at hslice
    rw [hslice, if_neg (by decide)]
    exact ih (j := j + 1) (by omega) x'

end Loops

section Calls
variable {S : Support} {fs : FileSystem} {h₀ h : Hierarchy} {free : ℤ} {name bytes : List Byte}

/-- The size as the `int` that `Create` is given. -/
abbrev size : Word := BitVec.ofInt 32 fileSize

theorem not_dotName : ¬ IsDotName fileName := by decide

theorem sectors_size (hbytes : bytes.length = fileSize) : (Node.file bytes).sectors = 969 ∧
    (Node.file bytes).returned = 31 := by
  rw [Node.sectors, Node.returned, hbytes]
  decide

theorem sectorsFor_size (S : Support) : (FileHeader.sectorsFor S size).toInt = 938 := by
  have hpos : 0 ≤ size.toInt := by decide
  rw [(FileHeader.sectorsFor_eq S hpos).1]
  decide

theorem create_eq (M : Mirrors S fs h) (he : h.Enters fileName) (hroom : 969 ≤ h.free)
    (heap : Heap) : ∃ fs' h' bytes, fs.create S heap fileName size = .ok (true,fs') ∧
      Mirrors S fs' h' ∧ HasFile h (h.free - 969) fileName bytes h' ∧ bytes.length = fileSize := by
  have hl : Allowed S fs (.call (.create fileName size)) := by
    refine ⟨by decide,fun _ => ?_⟩
    rw [sectorsFor_size]
    refine ⟨by decide,by decide,?_⟩
    rw [M.free]
    exact hroom
  obtain ⟨a,fs',h',hanswer,hstep,M'⟩ := M.create heap (fun _ => 0) hl
  obtain ⟨⟨b,fs₁⟩,hcreate,heq⟩ := Outcome.bind_eq_ok.mp hanswer
  cases heq
  cases b with
  | false =>
    cases hstep with
    | refused hno => exact absurd he hno
  | true =>
    simp only [if_true] at hstep
    generalize fileContents fs'.disk (fs'.currentDir.find fileName).toNat = bytes at hstep
    cases hstep with
    | created hen hlen =>
      have hbytes : bytes.length = fileSize := by
        rw [fileSize_eq]
        have : size.toInt = 120000 := by decide
        omega
      refine ⟨fs',_,bytes,hcreate,M',⟨rfl,?_,fun q => ?_⟩,hbytes⟩
      · change h.free - ((Node.file bytes).sectors : ℤ) = _
        rw [(sectors_size hbytes).1]
        rfl
      · rw [Hierarchy.enter, Namespace.node_put]
        rfl

/-- The header and the index sectors come back, the data sectors do not. -/
theorem remove_eq (M : Mirrors S fs h) (k : HasFile h₀ (h₀.free - 969) fileName bytes h)
    (hbytes : bytes.length = fileSize) (hnone : h₀.tree.node (h₀.path fileName) = none)
    (heap : Heap) : ∃ fs', fs.remove S heap fileName = .ok (true,fs') ∧
      Mirrors S fs' { h₀ with free := h₀.free - 938 } := by
  have hpath : h.path fileName = h₀.path fileName := by rw [Hierarchy.path, k.cwd, Hierarchy.path]
  have hnode : h.tree.node (h.path fileName) = some (.file bytes) := by
    rw [k.node, if_pos hpath]
  obtain ⟨o,cur,c,hcur⟩ := M.coherent
  have hl : Allowed S fs (.call (.remove fileName)) := fun i hi => not_lt.mp fun hlt =>
    not_dotName ((Mirrors.dotName_iff c hi).mpr hlt)
  obtain ⟨a,fs',h',hanswer,hstep,M'⟩ := M.answer heap (fun _ => 0) hl
  obtain ⟨⟨b,fs₁⟩,hremove,heq⟩ := Outcome.bind_eq_ok.mp hanswer
  cases heq
  cases hstep with
  | absent hno => exact absurd (.inr (by rw [hnode]; exact Option.some_ne_none _)) hno
  | removed _ hn =>
    obtain rfl := Option.some.inj (hn.symm.trans hnode)
    refine ⟨fs',hremove,?_⟩
    have hfree : h.free + ((Node.file bytes).returned : ℤ) = h₀.free - 938 := by
      rw [k.free, (sectors_size hbytes).2]
      omega
    have htree : h.tree.prune h.cwd (fileKey fileName) = h₀.tree := by
      refine Namespace.ext_node fun q => ?_
      have hkey : h.cwd ++ [fileKey fileName] = h₀.path fileName := hpath
      rw [Namespace.node_prune, hkey, k.node]
      split_ifs with hbelow hq
      · exact (Namespace.node_none_of_prefix hnone hbelow).symm
      · exact absurd (hq ▸ List.prefix_rfl) hbelow
      · rfl
    convert M' using 1
    cases h₀
    simp only [Hierarchy.remove, Hierarchy.mk.injEq]
    exact ⟨htree.symm,k.cwd.symm,hfree.symm⟩

/-- There is no room for the file twice. -/
theorem create_refused (M : Mirrors S fs h) (hshort : h.free ≤ 938) (heap : Heap) :
    ∃ fs', fs.create S heap fileName size = .ok (false,fs') := by
  obtain ⟨o,cur,c,hcur⟩ := M.coherent
  by_cases he : Enters S fs fileName
  · obtain ⟨hname,hclear,hslot⟩ := he
    obtain ⟨i,hi⟩ := Option.ne_none_iff_exists'.mp hslot
    obtain ⟨s,hs⟩ := BitMap.findClear_isSome S hclear
    refine ⟨_,c.create_noRoom heap hname hi hs ?_⟩
    rw [M.free, sectorsFor_size]
    exact hshort.trans (by decide)
  · rcases not_enters he with ⟨i,hi⟩ | ⟨hname,hfull⟩
    · exact ⟨fs,c.create_refused heap hi⟩
    · exact ⟨fs,c.create_full heap hname hfull⟩

theorem free_le (M : Mirrors S fs h) : h.free ≤ 1024 := by
  rw [← M.free, BitMap.numClear]
  have hcard := Finset.card_le_card (Finset.sdiff_subset (s := Finset.range diskSectors)
    (t := storedMap S fs.disk))
  rw [Finset.card_range] at hcard
  exact Int.ofNat_le.mpr (hcard.trans (by decide))

theorem HasFile.found (k : HasFile h₀ free name bytes h) :
    h.tree.node (h.path name) = some (.file bytes) := by
  rw [k.node, if_pos]
  rw [Hierarchy.path, k.cwd, Hierarchy.path]

end Calls

section Routines
variable {S : Support} {heap : ℕ → Heap} {chars : ℕ → ℕ → Byte} {fs : FileSystem} {h : Hierarchy}

variable (heap chars) in
theorem fileWrite_eq (M : Mirrors S fs h) (he : h.Enters fileName) (hroom : 969 ≤ h.free) :
    ∃ fs' h', fileWrite S heap chars fs =
        .ok ([.sequentialWrite fileSize contentSize],fs') ∧ Mirrors S fs' h' ∧
      HasFile h (h.free - 969) fileName (List.replicate rounds contents).flatten h' := by
  obtain ⟨fs₁,h₁,bytes,hcreate,M₁,k₁,hbytes⟩ := create_eq M he hroom (heap 0)
  obtain ⟨f,hopen,x⟩ := Opened.of_openFile M₁ not_dotName k₁.found (heap 1)
  have w : Written 0 bytes := ⟨hbytes,by simp⟩
  obtain ⟨d,h₂,hwrite,M₂,k₂⟩ := writeLoop_eq chars rounds (Nat.zero_add _) x k₁ w
  refine ⟨_,h₂,?_,M₂,k₂⟩
  rw [mul_zero] at hwrite
  simp only [fileWrite, hcreate, hopen, hwrite, Outcome.ok_bind, Outcome.pure_eq]
  rfl

variable (heap) in
theorem fileRead_eq (M : Mirrors S fs h)
    (hn : h.tree.node (h.path fileName) =
      some (.file (List.replicate rounds contents).flatten)) :
    fileRead S heap fs = .ok [.sequentialRead fileSize contentSize] := by
  obtain ⟨f,hopen,x⟩ := Opened.of_openFile M not_dotName hn (heap 2)
  have hread := readLoop_eq rounds (Nat.zero_add _) x
  rw [mul_zero] at hread
  simp only [fileRead, hopen, hread, Outcome.ok_bind, Outcome.pure_eq, if_true]

end Routines

end PerfTest

open PerfTest in
/-- The test succeeds and leaves the tree as it was, but not the room for another test. -/
theorem performanceTest_passes (S : Support) {ls : List (FileCall × FileAnswer)} {fs : FileSystem}
    (h : ((fileSystems S).guard fun fs l => Allowed S fs l.1).Run ls fs) :
    ∃ t, hierarchies.Run ls t ∧ Mirrors S fs t ∧ (t.Enters fileName → 969 ≤ t.free →
      ∀ heap chars, ∃ fs', performanceTest S heap chars fs = .ok ([.starting,
          .sequentialWrite fileSize contentSize,.sequentialRead fileSize contentSize],fs') ∧
        Mirrors S fs' { t with free := t.free - 938 } ∧
        ∀ heap, ∃ fs'', fs'.create S heap fileName size = .ok (false,fs'')) := by
  obtain ⟨t,ht,M⟩ := mirrors_of_run h
  refine ⟨t,ht,M,fun he hroom heap chars => ?_⟩
  obtain ⟨fs₁,h₁,hwrite,M₁,k⟩ := fileWrite_eq heap chars M he hroom
  have hread := fileRead_eq heap M₁ k.found
  obtain ⟨fs',hremove,M'⟩ := remove_eq M₁ k length_copies he.2.1 (heap 3)
  refine ⟨fs',?_,M',fun heap => create_refused M' ?_ heap⟩
  · simp only [performanceTest, hwrite, hread, hremove, Outcome.ok_bind, Outcome.pure_eq]
    rfl
  · have hfree := free_le M
    change t.free - 938 ≤ 938
    omega

open PerfTest in
/-- A disk that has just been formatted is left with `81` free sectors. -/
theorem performanceTest_passes_formatted : ∃ fs : FileSystem,
    FileSystem.format FirstFit.support FirstFit.heap FirstFit.disk = .ok fs ∧
    ∀ heap chars, ∃ fs', performanceTest FirstFit.support heap chars fs = .ok ([.starting,
        .sequentialWrite fileSize contentSize,.sequentialRead fileSize contentSize],fs') ∧
      Mirrors FirstFit.support fs' { Hierarchy.empty with free := 81 } ∧
      ∀ heap, ∃ fs'', fs'.create FirstFit.support heap fileName size = .ok (false,fs'') := by
  obtain ⟨fs,hformat,-⟩ := format_eq FirstFit.support FirstFit.heap FirstFit.disk
  obtain ⟨t,ht,-,hpasses⟩ := performanceTest_passes FirstFit.support (.start ⟨_,_,hformat⟩)
  obtain rfl : t = .empty := ht.init_of_nil
  have hnames : Hierarchy.empty.tree.names Hierarchy.empty.cwd = ∅ :=
    Set.eq_empty_of_forall_notMem fun k hk => hk rfl
  have he : Hierarchy.empty.Enters fileName := by
    refine ⟨not_dotName,rfl,?_,by decide⟩
    rw [hnames, Set.ncard_empty]
    decide
  exact ⟨fs,hformat,hpasses he (by decide)⟩

end Nachos
