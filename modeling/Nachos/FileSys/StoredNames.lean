import Nachos.FileSys.DirectoryMap

/-! # The names that are stored and shown

`Add` and `AddDirectory` copy `fileNameMaxLen` characters into a field with one byte more,
and nothing ever writes that last byte. `List` and `Print` take the field for a C string:
where it holds no 0 they read on into the flags, the sector and the entries behind.
-/
namespace Nachos

/-- What `%s` prints of the bytes from `start` on. -/
def cStringAt (bytes : List Byte) (start : ℕ) : Outcome (List Byte) :=
  let rest := bytes.drop start
  if rest.contains 0 then .ok (rest.takeWhile (· ≠ 0)) else .error .outOfBounds

/-- What one `printf` of a listing prints. -/
inductive DirectoryText where
  /-- `\033[1;36m` for a directory and `\033[1;31m` for a file -/
  | colour (isDir : Bool)
  /-- `%s` and a new line -/
  | nameLine (name : List Byte)
  /-- `\033[0m` -/
  | plain
  | newline
  /-- `Directory %s contents:` -/
  | heading (name : List Byte)
  /-- `Directory name: %s, Directory header sector: %d` or
  `File name: %s, File header sector: %d` -/
  | entry (isDir : Bool) (name : List Byte) (sector : Word)
  /-- What `PrintDirectory` or `PrintFile` prints of the header in this sector. -/
  | header (isDir : Bool) (sector : Word)
  deriving DecidableEq

/-- The bytes of the name that `strncpy` does not write. -/
def DirectoryEntry.lastByte (e : DirectoryEntry) : Byte := e.name[fileNameMaxLen]

namespace Directory

/-- `printf("%s", table[i].name)`. -/
def nameShown (dir : Directory) (i : Fin numDirEntries) : Outcome (List Byte) :=
  cStringAt (codec.encode dir) (DirectoryEntry.codec.size * i)

def forEach (line : Fin numDirEntries → Outcome (List DirectoryText)) :
    List (Fin numDirEntries) → Outcome (List DirectoryText)
  | [] => return []
  | i :: rest => do
    let text ← line i
    let texts ← forEach line rest
    return text ++ texts

def listEntry (dir : Directory) (i : Fin numDirEntries) : Outcome (List DirectoryText) :=
  if dir.isInUseOfIndex i then do
    let name ← dir.nameShown i
    return [.colour (dir.isDirOfIndex i),.nameLine name]
  else return []

def list (dir : Directory) : Outcome (List DirectoryText) := do
  let lines ← forEach dir.listEntry (List.finRange numDirEntries)
  return lines ++ [.plain,.newline]

def printEntry (dir : Directory) (i : Fin numDirEntries) : Outcome (List DirectoryText) :=
  if dir.isInUseOfIndex i then do
    let name ← dir.nameShown i
    let isDir := dir.isDirOfIndex i
    let sector := (dir.getTableAt i).sector
    return [.entry isDir name sector,.header isDir sector,.newline]
  else return [.newline]

def print (dir : Directory) : Outcome (List DirectoryText) := do
  let current ← dir.nameShown currentDirectoryIndex
  let lines ← forEach dir.printEntry (List.finRange numDirEntries)
  return .heading current :: lines ++ [.newline]

/-- `List` and `Print` when slot `i` shows the name `shown i`. -/
def listing (dir : Directory) (shown : Fin numDirEntries → List Byte) : List DirectoryText :=
  ((List.finRange numDirEntries).flatMap fun i =>
    if dir.isInUseOfIndex i then [.colour (dir.isDirOfIndex i),.nameLine (shown i)] else []) ++
  [.plain,.newline]

def printing (dir : Directory) (shown : Fin numDirEntries → List Byte) : List DirectoryText :=
  .heading (shown currentDirectoryIndex) ::
  ((List.finRange numDirEntries).flatMap fun i =>
    if dir.isInUseOfIndex i then
      [.entry (dir.isDirOfIndex i) (shown i) (dir.getTableAt i).sector,
        .header (dir.isDirOfIndex i) (dir.getTableAt i).sector,.newline]
    else [.newline]) ++
  [.newline]

section Shown
variable {dir : Directory} {i : Fin numDirEntries}

theorem drop_flatMap_encode {α : Type*} (c : Codec α) (xs : List α) (i : ℕ) :
    (xs.flatMap c.encode).drop (c.size * i) = (xs.drop i).flatMap c.encode := by
  induction i generalizing xs with
  | zero => rfl
  | succ i ih =>
    cases xs with
    | nil => simp
    | cons x xs =>
      rw [List.flatMap_cons, Nat.mul_succ, Nat.add_comm, ← List.drop_drop,
        List.drop_left' (c.length_encode x), ih, List.drop_succ_cons]

theorem drop_encode (dir : Directory) (i : Fin numDirEntries) :
    ∃ rest, (codec.encode dir).drop (DirectoryEntry.codec.size * i) =
      (dir.getTableAt i).name.toList ++ rest := by
  have hencode : codec.encode dir = dir.table.toList.flatMap DirectoryEntry.codec.encode := rfl
  have hlen : i.val < dir.table.toList.length := by
    rw [Vector.length_toList]
    exact i.isLt
  have hname : ∀ v : Vector Byte (fileNameMaxLen + 1),
      (Codec.byte.vector (fileNameMaxLen + 1)).encode v = v.toList := by
    intro v
    exact List.flatMap_singleton' v.toList
  rw [hencode, drop_flatMap_encode, List.drop_eq_getElem_cons hlen, List.flatMap_cons]
  have hentry : DirectoryEntry.codec.encode dir.table.toList[i.val] =
      (Codec.byte.vector (fileNameMaxLen + 1)).encode (dir.getTableAt i).name ++
        ([(dir.getTableAt i).inUseAndIsDir] ++ [(dir.getTableAt i).pad]) ++
          Codec.word.encode (dir.getTableAt i).sector := rfl
  rw [hentry, hname, List.append_assoc, List.append_assoc]
  exact ⟨_,rfl⟩

theorem takeWhile_append_of_mem {bs : List Byte} (h : 0 ∈ bs) (rest : List Byte) :
    (bs ++ rest).takeWhile (· ≠ 0) = bs.takeWhile (· ≠ 0) := by
  induction bs with
  | nil => cases h
  | cons b bs ih =>
    by_cases hb : b = 0
    · simp [hb]
    · have hmem : 0 ∈ bs := (List.mem_cons.mp h).resolve_left fun h => hb h.symm
      rw [List.cons_append, List.takeWhile_cons, List.takeWhile_cons, ih hmem]

theorem length_takeWhile_lt {bs : List Byte} :
    (bs.takeWhile (· ≠ 0)).length < bs.length ↔ 0 ∈ bs := by
  constructor
  · intro hlt
    by_contra hno
    have hself : bs.takeWhile (· ≠ 0) = bs := by
      apply List.takeWhile_eq_self_iff.mpr
      intro b hb
      exact decide_eq_true fun h => hno (h ▸ hb)
    rw [hself] at hlt
    exact lt_irrefl _ hlt
  · intro h
    apply lt_of_le_of_ne (List.takeWhile_prefix _).length_le
    intro heq
    have hself := (List.takeWhile_prefix (p := fun b : Byte => decide (b ≠ 0)) (l := bs)).eq_of_length heq
    have hall := List.takeWhile_eq_self_iff.mp hself 0 h
    exact of_decide_eq_true hall rfl

theorem nameShown_eq (h : 0 ∈ (dir.getTableAt i).name.toList) :
    dir.nameShown i = .ok (dir.nameAt i) := by
  obtain ⟨rest,hrest⟩ := drop_encode dir i
  have hshort : ((dir.getTableAt i).name.toList.takeWhile (· ≠ 0)).length ≤ fileNameMaxLen := by
    have hlt := length_takeWhile_lt.mpr h
    rw [Vector.length_toList] at hlt
    exact Nat.le_of_lt_succ hlt
  have hzero : ((dir.getTableAt i).name.toList ++ rest).contains 0 = true :=
    List.contains_iff_mem.mpr (List.mem_append_left rest h)
  rw [nameShown, cStringAt, hrest, if_pos hzero, takeWhile_append_of_mem h, nameAt, cString, ← List.take_takeWhile,
    List.take_of_length_le hshort]

/-- `strncpy` ends a name by a 0 when it is short; else the byte behind it decides. -/
theorem zero_mem_name (e : DirectoryEntry) : 0 ∈ e.name.toList ↔
    (cString fileNameMaxLen e.name.toList).length < fileNameMaxLen ∨ e.lastByte = 0 := by
  have hlen : fileNameMaxLen < e.name.toList.length := by
    rw [Vector.length_toList]
    exact Nat.lt_succ_self _
  have hsplit : e.name.toList = e.name.toList.take fileNameMaxLen ++ [e.lastByte] := by
    have hlast : e.name.toList.drop fileNameMaxLen = [e.lastByte] := by
      rw [List.drop_eq_getElem_cons hlen, List.drop_of_length_le (by rw [Vector.length_toList])]
      rfl
    rw [← hlast, List.take_append_drop]
  have htake : (e.name.toList.take fileNameMaxLen).length = fileNameMaxLen :=
    List.length_take_of_le hlen.le
  have hfirst : (cString fileNameMaxLen e.name.toList).length < fileNameMaxLen ↔
      0 ∈ e.name.toList.take fileNameMaxLen := by
    rw [cString, ← length_takeWhile_lt, htake]
  rw [hfirst]
  nth_rewrite 1 [hsplit]
  rw [List.mem_append, List.mem_singleton]
  exact or_congr_right eq_comm

theorem forEach_ok {line : Fin numDirEntries → Outcome (List DirectoryText)}
    {text : Fin numDirEntries → List DirectoryText} (h : ∀ i, line i = .ok (text i))
    (is : List (Fin numDirEntries)) : forEach line is = .ok (is.flatMap text) := by
  induction is with
  | nil => rfl
  | cons i is ih =>
    rw [forEach, h, ih]
    rfl

variable {shown : Fin numDirEntries → List Byte}

theorem list_eq (h : ∀ i, dir.isInUseOfIndex i = true → dir.nameShown i = .ok (shown i)) :
    dir.list = .ok (dir.listing shown) := by
  have hentry : ∀ i, dir.listEntry i = .ok (if dir.isInUseOfIndex i then
      [.colour (dir.isDirOfIndex i),.nameLine (shown i)] else []) := by
    intro i
    unfold listEntry
    split_ifs with hi
    · rw [h i hi]
      rfl
    · rfl
  rw [list, forEach_ok hentry]
  rfl

theorem print_eq (hcurrent : dir.nameShown currentDirectoryIndex = .ok (shown currentDirectoryIndex))
    (h : ∀ i, dir.isInUseOfIndex i = true → dir.nameShown i = .ok (shown i)) :
    dir.print = .ok (dir.printing shown) := by
  have hentry : ∀ i, dir.printEntry i = .ok (if dir.isInUseOfIndex i then
      [.entry (dir.isDirOfIndex i) (shown i) (dir.getTableAt i).sector,
        .header (dir.isDirOfIndex i) (dir.getTableAt i).sector,.newline]
      else [.newline]) := by
    intro i
    unfold printEntry
    split_ifs with hi
    · rw [h i hi]
      rfl
    · rfl
  rw [print, hcurrent, forEach_ok hentry]
  rfl

end Shown

def filled (dir : Directory) : TableCall → Option (Fin numDirEntries)
  | .add name _ => if dir.findIndex name ≠ none then none else dir.freeIndex
  | .addDirectory _ _ => dir.freeIndex
  | .remove _ => none

section Calls
variable {dir : Directory} {c : TableCall} {i j : Fin numDirEntries}

theorem freeIndex_of_filled (h : dir.filled c = some i) : dir.freeIndex = some i := by
  cases c with
  | add name w =>
    by_cases hname : dir.findIndex name = none
    · rwa [filled, if_neg (not_not.mpr hname)] at h
    · rw [filled, if_pos hname] at h
      cases h
  | addDirectory name w => exact h
  | remove name => cases h

theorem tableCall_filled (h : dir.filled c = some i) : ∃ isDir sector, (dir.tableCall c).2 =
    dir.setTableAt i (fillEntry (dir.getTableAt i) c.name isDir sector) := by
  have hfree := freeIndex_of_filled h
  cases c with
  | add name w =>
    by_cases hname : dir.findIndex name = none
    · exact ⟨false,w,congrArg Prod.snd (add_eq hname hfree w)⟩
    · rw [filled, if_pos hname] at h
      cases h
  | addDirectory name w => exact ⟨true,w,congrArg Prod.snd (addDirectory_eq hfree w)⟩
  | remove name => cases h

/-- A call that fills no slot takes one out of use at most. -/
theorem tableCall_unfilled (h : dir.filled c = none) : (dir.tableCall c).2 = dir ∨
    ∃ i, (dir.tableCall c).2 = dir.setInUseOfIndex i false := by
  cases c with
  | add name w =>
    left
    rw [tableCall, add]
    by_cases hname : dir.findIndex name = none
    · rw [filled, if_neg (not_not.mpr hname)] at h
      rw [if_neg (not_not.mpr hname), h]
    · rw [if_pos hname]
  | addDirectory name w =>
    left
    have hfree : dir.freeIndex = none := h
    rw [tableCall, addDirectory, hfree]
  | remove name =>
    rw [tableCall, remove]
    cases hi : dir.findIndex name with
    | none => exact .inl rfl
    | some i => exact .inr ⟨i,rfl⟩

theorem strncpy_behind {size n k : ℕ} (dst : Vector Byte size) (src : List Byte) (hk : k < size)
    (h : n ≤ k) : (strncpy dst src n)[k] = dst[k] := by
  rw [strncpy, Vector.getElem_ofFn, if_neg (not_lt.mpr h)]
  rfl

theorem strcpy_behind {size k : ℕ} (dst : Vector Byte size) (src : List Byte) (hk : k < size)
    (h : src.length < k) : (strcpy dst src)[k] = dst[k] := by
  rw [strcpy, Vector.getElem_ofFn, if_neg (not_le.mpr h)]
  rfl

theorem lastByte_fillEntry (e : DirectoryEntry) (name : List Byte) (isDir : Bool) (sector : Word) :
    (fillEntry e name isDir sector).lastByte = e.lastByte :=
  strncpy_behind e.name name (Nat.lt_succ_self _) le_rfl

theorem lastByte_new (mem : Directory) (i : Fin numDirEntries) :
    ((new mem).getTableAt i).lastByte = (mem.getTableAt i).lastByte := by
  rw [getTableAt_new]
  split_ifs
  · exact strcpy_behind _ dot (Nat.lt_succ_self _) (by decide)
  · exact strcpy_behind _ dotDot (Nat.lt_succ_self _) (by decide)
  · rfl

end Calls

end Directory

structure NamedTable where
  dir : Directory
  names : Fin numDirEntries → List Byte

namespace NamedTable
open Directory

def new (mem : Directory) : NamedTable where
  dir := .new mem
  names i := if i = currentDirectoryIndex then dot else if i = parentDirectoryIndex then dotDot else []

def call (t : NamedTable) (c : TableCall) : NamedTable where
  dir := (t.dir.tableCall c).2
  names := match t.dir.filled c with
    | some i => Function.update t.names i c.name
    | none => t.names

/-- Any calls on a table that was made in the memory `mem`. -/
def tables (mem : Directory) : TransitionSystem NamedTable TableCall where
  init t := t = new mem
  step t c t' := t' = t.call c

/-- The fields of the entries in use hold a 0, and `List` and `Print` show the first
characters of their names. -/
structure Terminated (t : NamedTable) : Prop where
  zero : ∀ i, t.dir.isInUseOfIndex i = true → 0 ∈ (t.dir.getTableAt i).name.toList
  listed : t.dir.list = .ok (t.dir.listing fun i => cString fileNameMaxLen (t.names i))
  printed : t.dir.print = .ok (t.dir.printing fun i => cString fileNameMaxLen (t.names i))

/-- The last bytes are those of the memory, and what is in use has the name it was filled
under; so have the first two slots whatever becomes of them. -/
structure Kept (mem : Directory) (t : NamedTable) : Prop where
  last : ∀ i, (t.dir.getTableAt i).lastByte = (mem.getTableAt i).lastByte
  current : t.names currentDirectoryIndex = dot
  named : ∀ i, i.val < 2 ∨ t.dir.isInUseOfIndex i = true →
    t.dir.nameAt i = cString fileNameMaxLen (t.names i)

variable {mem : Directory} {t : NamedTable} {c : TableCall}

theorem kept_new (mem : Directory) : Kept mem (new mem) := by
  constructor
  · exact lastByte_new mem
  · rfl
  · intro i hi
    by_cases h0 : i = currentDirectoryIndex
    · subst h0
      rw [nameAt, new, getTableAt_new, if_pos rfl, cString_strcpy_dot]
      rfl
    · by_cases h1 : i = parentDirectoryIndex
      · subst h1
        rw [nameAt, new, getTableAt_new, if_neg h0, if_pos rfl, cString_strcpy_dotDot]
        rfl
      · exfalso
        rcases hi with hi | hi
        · rcases index_cases (not_le.mpr hi) with rfl | rfl
          · exact h0 rfl
          · exact h1 rfl
        · rw [new, isInUseOfIndex, getTableAt_new, if_neg h0, if_neg h1] at hi
          simp [DirectoryEntry.inUse] at hi

theorem Kept.call (h : Kept mem t) (c : TableCall) : Kept mem (t.call c) := by
  cases hf : t.dir.filled c with
  | none =>
    have hnames : (t.call c).names = t.names := by rw [NamedTable.call, hf]
    rcases tableCall_unfilled hf with hdir | ⟨i,hdir⟩
    · have hsame : t.call c = t := by
        obtain ⟨dir,names⟩ := t
        exact congrArg₂ NamedTable.mk hdir hnames
      rw [hsame]
      exact h
    · have hdir' : (t.call c).dir = t.dir.setInUseOfIndex i false := hdir
      constructor
      · intro j
        rw [hdir', getTableAt_setInUse_false]
        split_ifs with hj
        · rw [hj]
          exact h.last i
        · exact h.last j
      · rw [hnames]
        exact h.current
      · intro j hj
        rw [hdir', inUse_cleared] at hj
        rw [hdir', hnames, nameAt_cleared]
        exact h.named j (hj.imp_right And.right)
  | some i =>
    have hi := freeIndex_some (freeIndex_of_filled hf)
    have hnames : (t.call c).names = Function.update t.names i c.name := by
      rw [NamedTable.call, hf]
    obtain ⟨isDir,sector,hdir⟩ := tableCall_filled hf
    have hdir' : (t.call c).dir =
        t.dir.setTableAt i (fillEntry (t.dir.getTableAt i) c.name isDir sector) := hdir
    constructor
    · intro j
      rw [hdir', getTableAt_setTableAt]
      split_ifs with hj
      · rw [hj, lastByte_fillEntry]
        exact h.last i
      · exact h.last j
    · have hne : currentDirectoryIndex ≠ i := by
        rintro rfl
        exact absurd hi.1 (by decide)
      rw [hnames, Function.update_of_ne hne]
      exact h.current
    · intro j hj
      rw [hdir', hnames, nameAt, getTableAt_setTableAt]
      by_cases hji : j = i
      · subst hji
        rw [if_pos rfl, Function.update_self, name_fillEntry]
      · rw [if_neg hji, Function.update_of_ne hji]
        rw [hdir', isInUseOfIndex, getTableAt_setTableAt, if_neg hji] at hj
        exact h.named j hj

theorem kept_of_run {ls : List TableCall} (hr : (tables mem).Run ls t) : Kept mem t := by
  apply hr.invariant
  · rintro t rfl
    exact kept_new mem
  · rintro t c t' h rfl
    exact h.call c

/-- The byte behind the name is what the memory of the table held. -/
theorem terminated_iff {ls : List TableCall} (hr : (tables mem).Run ls t) :
    Terminated t ↔ ∀ i, t.dir.isInUseOfIndex i = true →
      (cString fileNameMaxLen (t.names i)).length < fileNameMaxLen ∨
        (mem.getTableAt i).lastByte = 0 := by
  have h := kept_of_run hr
  have hzero : ∀ i, i.val < 2 ∨ t.dir.isInUseOfIndex i = true →
      (0 ∈ (t.dir.getTableAt i).name.toList ↔
        (cString fileNameMaxLen (t.names i)).length < fileNameMaxLen ∨
          (mem.getTableAt i).lastByte = 0) := by
    intro i hi
    rw [zero_mem_name, h.last, ← h.named i hi]
    rfl
  have hshown : ∀ i, i.val < 2 ∨ t.dir.isInUseOfIndex i = true →
      0 ∈ (t.dir.getTableAt i).name.toList →
      t.dir.nameShown i = .ok (cString fileNameMaxLen (t.names i)) := by
    intro i hi hmem
    rw [nameShown_eq hmem, h.named i hi]
  constructor
  · intro ht i hi
    exact (hzero i (.inr hi)).mp (ht.zero i hi)
  · intro hcond
    have hmem : ∀ i, t.dir.isInUseOfIndex i = true → 0 ∈ (t.dir.getTableAt i).name.toList := by
      intro i hi
      exact (hzero i (.inr hi)).mpr (hcond i hi)
    have hlines : ∀ i, t.dir.isInUseOfIndex i = true →
        t.dir.nameShown i = .ok (cString fileNameMaxLen (t.names i)) := by
      intro i hi
      exact hshown i (.inr hi) (hmem i hi)
    constructor
    · exact hmem
    · exact list_eq hlines
    · refine print_eq ?_ hlines
      apply hshown currentDirectoryIndex (.inl (by decide))
      apply (hzero currentDirectoryIndex (.inl (by decide))).mpr
      left
      rw [h.current]
      decide

def filledMemory : Directory :=
  ⟨.replicate numDirEntries ⟨.replicate _ 255,255,255,BitVec.allOnes 32⟩⟩

/-- Eight characters, in a slot that had nine. -/
theorem terminated_iff_eight :
    Terminated ((((new filledMemory).call (.add [97,98,99,100,101,102,103,104,105] 5)).call
      (.remove [97,98,99,100,101,102,103,104,105])).call
      (.addDirectory [97,98,99,100,101,102,103,104] 7)) := by
  have hrun : (tables filledMemory).Run [] (new filledMemory) := .start rfl
  have hrun := ((hrun.step (l := .add [97,98,99,100,101,102,103,104,105] 5) rfl).step
    (l := .remove [97,98,99,100,101,102,103,104,105]) rfl).step
    (l := .addDirectory [97,98,99,100,101,102,103,104] 7) rfl
  exact (terminated_iff hrun).mpr (by decide +kernel)

/-- Nine characters. -/
theorem not_terminated : ¬ ∀ (mem : Directory) (ls : List TableCall) (t : NamedTable),
    (tables mem).Run ls t → Terminated t := by
  intro h
  have hstart : (tables filledMemory).Run [] (new filledMemory) := .start rfl
  have hrun := hstart.step (l := .add [97,98,99,100,101,102,103,104,105] 5) rfl
  have hzero := (h _ _ _ hrun).zero 2 (by decide +kernel)
  exact absurd hzero (by decide +kernel)

end NamedTable

end Nachos
