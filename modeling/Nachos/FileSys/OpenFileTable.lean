import Nachos.Machine.Disk
import Nachos.Library.Run
import Mathlib.Data.List.FinRange

/-! # Open-file descriptors

`getEmptyIndex` and `insertOpenFileTable` of `openfile.cc`, on the table of ten pointers that the
kernel keeps. The kernel sets an entry back to `NULL` when a file is closed.
-/
namespace Nachos

/-- `openfileTable`, with `none` for `NULL`. -/
abbrev OpenFileTable (α : Type*) := Fin 10 → Option α

namespace OpenFileTable
variable {α : Type*} (t : OpenFileTable α) (this : α)

/-- The first slot that is free, or -1. -/
def getEmptyIndex : ℤ :=
  match (List.finRange 10).find? fun i => (t i).isNone with
  | some i => i
  | none => -1

/-- What is returned, and the table after it; `false` is 0. -/
def insertOpenFileTable : ℤ × OpenFileTable α :=
  let i := t.getEmptyIndex
  if i = -1 then (0,t) else (i,fun k => if (k : ℤ) = i then some this else t k)

def HasRoom : Prop := ∃ k, t k = none

def Owns (this : α) (descriptor : ℤ) : Prop := ∃ k : Fin 10, descriptor = k ∧ t k = some this

/-- A call that finds a slot puts the file there, and one that finds none returns what no call
returns that finds one. -/
structure InsertOk : Prop where
  found : t.HasRoom → ∃ k, t k = none ∧
    t.insertOpenFileTable this = ((k : ℤ),Function.update t k (some this))
  full : ¬ t.HasRoom → ∀ (t' : OpenFileTable α) (other : α), t'.HasRoom →
    (t'.insertOpenFileTable other).1 ≠ (t.insertOpenFileTable this).1

variable {t this}

theorem getEmptyIndex_room (h : t.HasRoom) : ∃ k, t k = none ∧ t.getEmptyIndex = k := by
  obtain ⟨k,hk⟩ := h
  unfold getEmptyIndex
  cases hfind : (List.finRange 10).find? fun i => (t i).isNone with
  | none =>
    have hnone := List.find?_eq_none.mp hfind k (List.mem_finRange k)
    simp [hk] at hnone
  | some i => exact ⟨i,by simpa using List.find?_some hfind,rfl⟩

theorem getEmptyIndex_full (h : ¬ t.HasRoom) : t.getEmptyIndex = -1 := by
  unfold getEmptyIndex
  cases hfind : (List.finRange 10).find? fun i => (t i).isNone with
  | none => rfl
  | some i => exact absurd ⟨i,by simpa using List.find?_some hfind⟩ h

theorem insert_room (this : α) (h : t.HasRoom) : ∃ k, t k = none ∧
    t.insertOpenFileTable this = ((k : ℤ),Function.update t k (some this)) := by
  obtain ⟨k,hk,hindex⟩ := getEmptyIndex_room h
  refine ⟨k,hk,?_⟩
  have hne : ¬ (k : ℤ) = -1 := by omega
  simp only [insertOpenFileTable, hindex, if_neg hne, Prod.mk.injEq, true_and]
  funext j
  simp only [Function.update_apply, Fin.ext_iff, Int.natCast_inj]

theorem insert_full (h : ¬ t.HasRoom) : t.insertOpenFileTable this = (0,t) := by
  simp only [insertOpenFileTable, getEmptyIndex_full h, if_true]

/-- `false` is a descriptor as well. -/
theorem insertOk_iff : t.InsertOk this ↔ t.HasRoom := by
  constructor
  · intro h
    by_contra hfull
    refine h.full hfull (fun _ => none) this ⟨0,rfl⟩ ?_
    rw [insert_full hfull]
    rfl
  · intro h
    exact ⟨fun _ => insert_room this h,fun hfull => absurd h hfull⟩

/-- The descriptors that the calls have returned, for the files that have not been closed. -/
structure History (α : Type*) where
  table : OpenFileTable α
  issued : List (α × ℤ)

inductive TableStep (α : Type*) where
  | insert (this : α)
  /-- `openfileTable[k] = NULL` -/
  | clear (k : Fin 10)

def History.after (s : History α) : TableStep α → History α
  | .insert this => ⟨(s.table.insertOpenFileTable this).2,
      (this,(s.table.insertOpenFileTable this).1) :: s.issued⟩
  | .clear k => ⟨Function.update s.table k none,s.issued.filter (·.2 ≠ k)⟩

def histories (α : Type*) : TransitionSystem (History α) (TableStep α) where
  init s := s.issued = []
  step s l s' := s.after l = s'

/-- An insertion when there is room. -/
def InTime (s : History α) : TableStep α → Prop
  | .insert _ => s.table.HasRoom
  | .clear _ => True

def History.Sound (s : History α) : Prop := ∀ p ∈ s.issued, s.table.Owns p.1 p.2

theorem History.Sound.step {s s' : History α} {l : TableStep α} (h : s.Sound)
    (htime : InTime s l) (hstep : (histories α).step s l s') : s'.Sound := by
  cases l with
  | insert this =>
    obtain ⟨k,hk,hinsert⟩ := insert_room this htime
    obtain rfl := hstep
    simp only [History.after, hinsert]
    intro p hp
    obtain rfl | hp := List.mem_cons.mp hp
    · exact ⟨k,rfl,Function.update_self ..⟩
    · obtain ⟨j,hj,hown⟩ := h p hp
      have hne : j ≠ k := by
        rintro rfl
        cases hk.symm.trans hown
      exact ⟨j,hj,(Function.update_of_ne hne ..).trans hown⟩
  | clear k =>
    obtain rfl := hstep
    intro p hp
    simp only [History.after, List.mem_filter, decide_eq_true_eq] at hp
    obtain ⟨j,hj,hown⟩ := h p hp.1
    have hne : j ≠ k := by
      rintro rfl
      exact hp.2 hj
    exact ⟨j,hj,(Function.update_of_ne hne ..).trans hown⟩

theorem sound_of_run {s : History α} (h : ((histories α).guard InTime).Reachable s) : s.Sound := by
  refine h.invariant ?_ fun _ _ _ hs hstep => hs.step hstep.1 hstep.2
  intro s hs p hp
  rw [hs] at hp
  cases hp

theorem openFileTable (α : Type*) :
    (∀ (t : OpenFileTable α) (this : α), t.InsertOk this ↔ t.HasRoom) ∧
    ∀ s : History α, ((histories α).guard InTime).Reachable s →
      ∀ p ∈ s.issued, s.table.Owns p.1 p.2 :=
  ⟨fun _ _ => insertOk_iff,fun _ h => sound_of_run h⟩

theorem reachable_foldl {s : History α} (h : (histories α).Reachable s) (ls : List (TableStep α)) :
    (histories α).Reachable (ls.foldl History.after s) := by
  induction ls generalizing s with
  | nil => exact h
  | cons l ls ih => exact ih (h.step rfl)

/-- Ten files fill the table, and the eleventh one is given the descriptor of the first. -/
theorem not_openFileTable :
    let s := (List.range 10).foldl (fun s this => s.after (.insert this))
      (⟨fun _ => none,[]⟩ : History ℕ)
    (histories ℕ).Reachable s ∧ (0,0) ∈ s.issued ∧
      s.table.insertOpenFileTable 10 = (0,s.table) ∧ s.table 0 = some 0 ∧
      ¬ s.table.InsertOk 10 := by
  intro s
  have hfull : ¬ s.table.HasRoom := by
    unfold HasRoom
    decide +kernel
  refine ⟨?_,by decide +kernel,insert_full hfull,by decide +kernel,fun h => hfull (insertOk_iff.mp h)⟩
  have hrun := reachable_foldl (.start rfl : (histories ℕ).Reachable ⟨fun _ => none,[]⟩)
    ((List.range 10).map .insert)
  rw [List.foldl_map] at hrun
  exact hrun

end OpenFileTable

end Nachos
