import Nachos.FileSys.Directory
import Mathlib.Data.List.TakeWhile
import Mathlib.Data.List.GetD

/-! # Lookup and update of a directory table

A lookup finds the first entry in use whose name agrees with the one searched
for. An update of one slot leaves the others alone.
-/
namespace Nachos

/-- What `strncpy` has copied compares equal to its source. -/
theorem cString_strncpy {size n : ℕ} (dst : Vector Byte size) (src : List Byte) (h : n ≤ size) :
    cString n (strncpy dst src n).toList = cString n src := by
  have hlen : (cString n src).length ≤ n :=
    (List.takeWhile_prefix _).length_le.trans (List.length_take_le n src)
  have htake : (strncpy dst src n).toList.take n =
      cString n src ++ List.replicate (n - (cString n src).length) 0 := by
    apply List.ext_getElem
    · simp only [List.length_take, Vector.length_toList, List.length_append, List.length_replicate]
      omega
    · intro i h1 h2
      rw [List.length_take] at h1
      have hi : i < n := by omega
      simp only [strncpy, List.getElem_take, Vector.getElem_toList, Vector.getElem_ofFn, if_pos hi]
      rw [List.getElem_append]
      split_ifs with hi
      · rw [List.getD_eq_getElem _ _ hi]
      · rw [List.getElem_replicate, List.getD_eq_default _ _ (by omega)]
  have hall : ∀ b ∈ cString n src, decide (b ≠ 0) = true := fun b hb => by
    have := List.mem_takeWhile_imp (p := fun b => decide (b ≠ 0)) hb
    exact this
  rw [cString, htake, List.takeWhile_append_of_pos hall]
  cases n - (cString n src).length <;> simp [List.replicate_succ]

theorem cString_strcpy_dot (dst : Vector Byte (fileNameMaxLen + 1)) :
    cString fileNameMaxLen (strcpy dst Directory.dot).toList = Directory.dot := by
  simp [cString, strcpy, Directory.dot, Vector.toList_ofFn, List.ofFn_succ]

theorem cString_strcpy_dotDot (dst : Vector Byte (fileNameMaxLen + 1)) :
    cString fileNameMaxLen (strcpy dst Directory.dotDot).toList = Directory.dotDot := by
  simp [cString, strcpy, Directory.dotDot, Vector.toList_ofFn, List.ofFn_succ]

namespace DirectoryEntry

@[simp] theorem inUse_setInUse (e : DirectoryEntry) (v : Bool) : (e.setInUse v).inUse = v := by
  have h : ∀ (b : Byte) (v : Bool),
      decide ((if v then b ||| 1 else b &&& ~~~1) &&& 1 ≠ 0) = v := by decide
  exact h e.inUseAndIsDir v

@[simp] theorem inUse_setIsDir (e : DirectoryEntry) (v : Bool) :
    (e.setIsDir v).inUse = e.inUse := by
  have h : ∀ (b : Byte) (v : Bool),
      decide ((if v then b ||| (1 : Byte) <<< 1 else b &&& ~~~2) &&& 1 ≠ 0) =
        decide (b &&& 1 ≠ 0) := by decide
  exact h e.inUseAndIsDir v

@[simp] theorem isDir_setIsDir (e : DirectoryEntry) (v : Bool) : (e.setIsDir v).isDir = v := by
  have h : ∀ (b : Byte) (v : Bool),
      decide (((if v then b ||| (1 : Byte) <<< 1 else b &&& ~~~2) &&& 2) >>> 1 ≠ 0) = v := by
    decide
  exact h e.inUseAndIsDir v

end DirectoryEntry

namespace Directory
variable {dir : Directory} {name : List Byte} {i j : Fin numDirEntries}

def nameAt (dir : Directory) (i : Fin numDirEntries) : List Byte :=
  cString fileNameMaxLen (dir.getTableAt i).name.toList

theorem getTableAt_setTableAt (dir : Directory) (i j : Fin numDirEntries) (e : DirectoryEntry) :
    (dir.setTableAt i e).getTableAt j = if j = i then e else dir.getTableAt j := by
  by_cases h : j = i
  · subst h
    simp [getTableAt, setTableAt]
  · have hv : i.val ≠ j.val := fun hv => h (Fin.ext hv.symm)
    rw [if_neg h]
    simp [getTableAt, setTableAt, hv]

def Named (dir : Directory) (name : List Byte) (i : Fin numDirEntries) : Prop :=
  dir.isInUseOfIndex i = true ∧ dir.nameAt i = cString fileNameMaxLen name

instance : Decidable (Named dir name i) := inferInstanceAs (Decidable (_ ∧ _))

theorem findIndex_eq (dir : Directory) (name : List Byte) :
    dir.findIndex name = (List.finRange numDirEntries).find? fun i => decide (Named dir name i) := by
  unfold findIndex
  congr 1
  funext i
  rw [Bool.eq_iff_iff, Bool.and_eq_true, strncmpEq, decide_eq_true_iff]
  exact decide_eq_true_iff.symm

theorem findIndex_some (h : dir.findIndex name = some i) : Named dir name i := by
  rw [findIndex_eq] at h
  have hd := List.find?_some h
  exact of_decide_eq_true hd

theorem findIndex_eq_none : dir.findIndex name = none ↔ ∀ i, ¬ Named dir name i := by
  rw [findIndex_eq, List.find?_eq_none]
  simp

theorem find?_finRange {n : ℕ} {p : Fin n → Bool} {i : Fin n} (h : p i = true)
    (hlt : ∀ j < i, p j = false) : (List.finRange n).find? p = some i := by
  cases hf : (List.finRange n).find? p with
  | none => exact absurd h (List.find?_eq_none.mp hf i (List.mem_finRange i))
  | some k =>
    obtain ⟨hk,as,bs,has,hnot⟩ := List.find?_eq_some_iff_append.mp hf
    rcases lt_trichotomy k i with hki | rfl | hik
    · exact absurd hk (by rw [hlt k hki]; decide)
    · rfl
    · have hi : i ∈ as := by
        have hsorted := List.pairwise_lt_finRange n
        rw [has, List.pairwise_append] at hsorted
        have hmem : i ∈ as ++ k :: bs := has ▸ List.mem_finRange i
        rcases List.mem_append.mp hmem with hm | hm
        · exact hm
        · rcases List.mem_cons.mp hm with rfl | hm
          · exact absurd hik (lt_irrefl _)
          · exact absurd (List.rel_of_pairwise_cons hsorted.2.1 hm) (lt_asymm hik)
      have := hnot i hi
      simp [h] at this

theorem findIndex_eq_some (h : Named dir name i) (hlt : ∀ j < i, ¬ Named dir name j) :
    dir.findIndex name = some i := by
  rw [findIndex_eq]
  exact find?_finRange (decide_eq_true h) fun j hj => decide_eq_false (hlt j hj)

theorem freeIndex_some (h : dir.freeIndex = some i) :
    2 ≤ i.val ∧ dir.isInUseOfIndex i = false := by
  have := List.find?_some h
  simpa using this

theorem freeIndex_eq_some (hi : 2 ≤ i.val) (h : dir.isInUseOfIndex i = false)
    (hlt : ∀ j < i, 2 ≤ j.val → dir.isInUseOfIndex j = true) : dir.freeIndex = some i := by
  refine find?_finRange (by simp [hi, h]) fun j hj => ?_
  by_cases h2 : 2 ≤ j.val
  · simp [hlt j hj h2]
  · simp [h2]

@[simp] theorem inUse_fillEntry (e : DirectoryEntry) (name : List Byte) (isDir : Bool)
    (sector : Word) : (fillEntry e name isDir sector).inUse = true :=
  (DirectoryEntry.inUse_setIsDir (e.setInUse true) isDir).trans (e.inUse_setInUse true)

@[simp] theorem isDir_fillEntry (e : DirectoryEntry) (name : List Byte) (isDir : Bool)
    (sector : Word) : (fillEntry e name isDir sector).isDir = isDir :=
  DirectoryEntry.isDir_setIsDir (e.setInUse true) isDir

@[simp] theorem sector_fillEntry (e : DirectoryEntry) (name : List Byte) (isDir : Bool)
    (sector : Word) : (fillEntry e name isDir sector).sector = sector := rfl

@[simp] theorem name_fillEntry (e : DirectoryEntry) (name : List Byte) (isDir : Bool)
    (sector : Word) : cString fileNameMaxLen (fillEntry e name isDir sector).name.toList =
      cString fileNameMaxLen name := cString_strncpy _ name (by decide)

theorem add_eq (hname : dir.findIndex name = none) (hslot : dir.freeIndex = some i) (w : Word) :
    dir.add name w = (true,dir.setTableAt i (fillEntry (dir.getTableAt i) name false w)) := by
  simp [add, hname, hslot]

theorem addDirectory_eq (hslot : dir.freeIndex = some i) (w : Word) :
    dir.addDirectory name w =
      (true,dir.setTableAt i (fillEntry (dir.getTableAt i) name true w)) := by
  simp [addDirectory, hslot]

/-- The table with the entry a call makes for a node in sector `s`. -/
def withEntry (dir : Directory) (i : Fin numDirEntries) (name : List Byte) (isDir : Bool)
    (s : ℕ) : Directory :=
  dir.setTableAt i (fillEntry (dir.getTableAt i) name isDir (BitVec.ofNat 32 s))

section WithEntry
variable {isDir : Bool} {s : ℕ}

theorem getTableAt_withEntry (dir : Directory) (i j : Fin numDirEntries) (name : List Byte)
    (isDir : Bool) (s : ℕ) : (dir.withEntry i name isDir s).getTableAt j =
      if j = i then fillEntry (dir.getTableAt i) name isDir (BitVec.ofNat 32 s)
      else dir.getTableAt j := getTableAt_setTableAt dir i j _

theorem inUse_withEntry : (dir.withEntry i name isDir s).isInUseOfIndex i = true := by
  rw [isInUseOfIndex, getTableAt_withEntry, if_pos rfl]
  exact inUse_fillEntry _ _ _ _

theorem inUse_withEntry_ne (h : j ≠ i) :
    (dir.withEntry i name isDir s).isInUseOfIndex j = dir.isInUseOfIndex j := by
  rw [isInUseOfIndex, getTableAt_withEntry, if_neg h, isInUseOfIndex]

theorem named_withEntry {name' : List Byte} :
    Named (dir.withEntry i name isDir s) name' j ↔
      if j = i then cString fileNameMaxLen name = cString fileNameMaxLen name'
      else Named dir name' j := by
  by_cases h : j = i
  · subst h
    rw [if_pos rfl, Named, nameAt, getTableAt_withEntry, if_pos rfl, name_fillEntry]
    exact and_iff_right inUse_withEntry
  · rw [if_neg h, Named, Named, inUse_withEntry_ne h, nameAt, getTableAt_withEntry, if_neg h, nameAt]

theorem findIndex_withEntry (hnone : dir.findIndex name = none) :
    (dir.withEntry i name isDir s).findIndex name = some i := by
  refine findIndex_eq_some (named_withEntry.mpr (by rw [if_pos rfl])) fun j hj hn => ?_
  rw [named_withEntry, if_neg hj.ne] at hn
  exact findIndex_eq_none.mp hnone j hn

/-- What is found under another name stays the same. -/
theorem findIndex_withEntry_ne {name' : List Byte} (hfree : dir.isInUseOfIndex i = false)
    (hne : cString fileNameMaxLen name ≠ cString fileNameMaxLen name') :
    (dir.withEntry i name isDir s).findIndex name' = dir.findIndex name' := by
  rw [findIndex_eq, findIndex_eq]
  congr 1
  funext j
  refine decide_eq_decide.mpr (named_withEntry.trans ?_)
  by_cases h : j = i
  · rw [if_pos h, h]
    exact iff_of_false hne fun hn => Bool.false_ne_true (hfree.symm.trans hn.1)
  · rw [if_neg h]

/-- What is found depends on the first characters of the name only. -/
theorem findIndex_congr {name' : List Byte}
    (h : cString fileNameMaxLen name = cString fileNameMaxLen name') :
    dir.findIndex name = dir.findIndex name' := by
  unfold findIndex strncmpEq
  rw [h]

end WithEntry

/-- Slot `i` names the directory with header sector `s`. -/
structure IsDirEntry (e : DirectoryEntry) (name : List Byte) (s : ℕ) : Prop where
  inUse : e.inUse = true
  isDir : e.isDir = true
  name : cString fileNameMaxLen e.name.toList = name
  sector : e.sector.toNat = s

theorem IsDirEntry.of_flags {e : DirectoryEntry} {s : ℕ} (hf : e.inUseAndIsDir = 3)
    (hn : cString fileNameMaxLen e.name.toList = name) (hs : e.sector.toNat = s) :
    IsDirEntry e name s := by
  refine ⟨?_,?_,hn,hs⟩
  · rw [DirectoryEntry.inUse, hf]
    decide
  · rw [DirectoryEntry.isDir, hf]
    decide

/-- The entries `.` and `..` of the directory with header sector `s`. -/
structure Dots (dir : Directory) (s parent : ℕ) : Prop where
  current : IsDirEntry (dir.getTableAt currentDirectoryIndex) dot s
  parent : IsDirEntry (dir.getTableAt parentDirectoryIndex) dotDot parent

theorem index_cases (h : ¬ 2 ≤ i.val) :
    i = currentDirectoryIndex ∨ i = parentDirectoryIndex := by
  rcases Nat.lt_or_ge i.val 1 with h' | h'
  · exact .inl (Fin.ext (Nat.lt_one_iff.mp h'))
  · exact .inr (Fin.ext (show i.val = 1 by omega))

/-- The entries behind `.` and `..`. -/
def Child (dir : Directory) (i : Fin numDirEntries) : Prop :=
  2 ≤ i.val ∧ dir.isInUseOfIndex i = true

theorem Dots.of_getTableAt {dir' : Directory} {s p : ℕ} (h : Dots dir s p)
    (h0 : dir'.getTableAt 0 = dir.getTableAt 0) (h1 : dir'.getTableAt 1 = dir.getTableAt 1) :
    Dots dir' s p := ⟨h0 ▸ h.current,h1 ▸ h.parent⟩

theorem Dots.findIndex_dot {s p : ℕ} (h : Dots dir s p) :
    dir.findIndex dot = some currentDirectoryIndex :=
  findIndex_eq_some ⟨h.current.inUse,h.current.name⟩ fun _ hj => absurd hj (Fin.not_lt_zero _)

theorem Dots.findIndex_dotDot {s p : ℕ} (h : Dots dir s p) :
    dir.findIndex dotDot = some parentDirectoryIndex := by
  refine findIndex_eq_some ⟨h.parent.inUse,h.parent.name⟩ fun j hj hn => ?_
  have hj0 : j = 0 := Fin.ext (Nat.lt_one_iff.mp hj)
  have hname : dir.nameAt 0 = cString fileNameMaxLen dotDot := hj0 ▸ hn.2
  rw [nameAt, h.current.name] at hname
  exact absurd hname (by decide)

/-- The table of a new directory in sector `s` below the one in sector `p`. -/
def fresh (mem : Directory) (s p : Word) : Directory :=
  ((new mem).setSectorAt currentDirectoryIndex s).setSectorAt parentDirectoryIndex p

theorem getTableAt_new (mem : Directory) (i : Fin numDirEntries) :
    (new mem).getTableAt i =
      if i = currentDirectoryIndex then
        { mem.getTableAt i with
          inUseAndIsDir := 3, name := strcpy (mem.getTableAt i).name dot }
      else if i = parentDirectoryIndex then
        { mem.getTableAt i with
          inUseAndIsDir := 3, name := strcpy (mem.getTableAt i).name dotDot }
      else { mem.getTableAt i with inUseAndIsDir := 0 } := by
  simp only [new, getTableAt, Fin.getElem_fin, Vector.getElem_ofFn]

theorem getTableAt_fresh (mem : Directory) (s p : Word) (i : Fin numDirEntries) :
    (fresh mem s p).getTableAt i =
      if i = parentDirectoryIndex then { (new mem).getTableAt i with sector := p }
      else if i = currentDirectoryIndex then { (new mem).getTableAt i with sector := s }
      else (new mem).getTableAt i := by
  rw [fresh, setSectorAt, getTableAt_setTableAt]
  by_cases h1 : i = parentDirectoryIndex
  · rw [if_pos h1, if_pos h1, setSectorAt, getTableAt_setTableAt, if_neg (by decide), h1]
  · rw [if_neg h1, if_neg h1, setSectorAt, getTableAt_setTableAt]
    by_cases h0 : i = currentDirectoryIndex
    · rw [if_pos h0, if_pos h0, h0]
    · rw [if_neg h0, if_neg h0]

theorem fresh_dots (mem : Directory) (s p : Word) : Dots (fresh mem s p) s.toNat p.toNat := by
  constructor
  · rw [getTableAt_fresh, if_neg (by decide), if_pos rfl, getTableAt_new, if_pos rfl]
    exact .of_flags rfl (cString_strcpy_dot _) rfl
  · rw [getTableAt_fresh, if_pos rfl, getTableAt_new, if_neg (by decide), if_pos rfl]
    exact .of_flags rfl (cString_strcpy_dotDot _) rfl

theorem fresh_not_child (mem : Directory) (s p : Word) : ¬ Child (fresh mem s p) i := by
  rintro ⟨hi,hu⟩
  have h0 : i ≠ currentDirectoryIndex := fun h => by subst h; exact absurd hi (by decide)
  have h1 : i ≠ parentDirectoryIndex := fun h => by subst h; exact absurd hi (by decide)
  rw [isInUseOfIndex, getTableAt_fresh, if_neg h1, if_neg h0, getTableAt_new, if_neg h0,
    if_neg h1, DirectoryEntry.inUse] at hu
  exact absurd hu (show ¬ decide ((0 : Byte) &&& 1 ≠ 0) = true by decide)

theorem findIndex_fresh (mem : Directory) (s p : Word)
    (h : cString fileNameMaxLen name ≠ dot) (h' : cString fileNameMaxLen name ≠ dotDot) :
    (fresh mem s p).findIndex name = none := by
  have hd := fresh_dots mem s p
  refine findIndex_eq_none.mpr fun i hn => ?_
  by_cases h0 : i = currentDirectoryIndex
  · subst h0
    exact h (hn.2.symm.trans hd.current.name)
  by_cases h1 : i = parentDirectoryIndex
  · subst h1
    exact h' (hn.2.symm.trans hd.parent.name)
  have hu := hn.1
  rw [isInUseOfIndex, getTableAt_fresh, if_neg h1, if_neg h0, getTableAt_new, if_neg h0,
    if_neg h1, DirectoryEntry.inUse] at hu
  exact absurd hu (show ¬ decide ((0 : Byte) &&& 1 ≠ 0) = true by decide)

theorem freeIndex_fresh (mem : Directory) (s p : Word) :
    (fresh mem s p).freeIndex = some 2 := by
  refine freeIndex_eq_some (by decide) ?_ fun j hj h2 => absurd hj (Nat.not_lt.mpr h2)
  exact Bool.eq_false_iff.mpr fun h => fresh_not_child mem s p ⟨by decide,h⟩

end Directory

end Nachos
