import Mathlib.Algebra.Order.Group.Int
import Mathlib.Data.Finset.Card

/-! # Ranges that make one range

When ranges cover just as much as their sizes add up to, no two of them overlap: put in order, each
begins where the one before it ends.
-/
namespace Nachos

structure Extent where
  start : ℤ
  size : ℤ
  deriving DecidableEq

namespace Extent
variable {x : ℤ} {es order : List Extent}

def Holds (e : Extent) (a : ℤ) : Prop := e.start ≤ a ∧ a < e.start + e.size

def total : List Extent → ℤ
  | [] => 0
  | e :: es => e.size + total es

/-- Each starts at the end of the one before it, the first at `x`. -/
def Follows : ℤ → List Extent → Prop
  | _, [] => True
  | x, e :: es => e.start = x ∧ Follows (x + e.size) es

/-- Together they hold what one range at `x` of their total size holds. -/
def Covers (x : ℤ) (es : List Extent) : Prop := ∀ a, Holds ⟨x,total es⟩ a ↔ ∃ e ∈ es, e.Holds a

def members (e : Extent) : List ℤ := (List.range e.size.toNat).map fun k : ℕ => e.start + k

def held (es : List Extent) : Finset ℤ := (es.flatMap members).toFinset

theorem total_append (es es' : List Extent) : total (es ++ es') = total es + total es' := by
  induction es with
  | nil => simp [total]
  | cons e es ih => rw [List.cons_append, total, ih, total, Int.add_assoc]

theorem total_perm (h : order.Perm es) : total order = total es := by
  induction h with
  | nil => rfl
  | cons e _ ih => rw [total, total, ih]
  | swap e e' es =>
    simp only [total]
    omega
  | trans _ _ ih ih' => exact ih.trans ih'

theorem total_nonneg (hpos : ∀ e ∈ es, 0 < e.size) : 0 ≤ total es := by
  induction es with
  | nil => exact le_rfl
  | cons e es ih =>
    have he := hpos e List.mem_cons_self
    have hes := ih fun e he => hpos e (List.mem_cons_of_mem _ he)
    rw [total]
    omega

theorem mem_members {e : Extent} {a : ℤ} : a ∈ e.members ↔ e.Holds a := by
  rw [members, List.mem_map]
  constructor
  · rintro ⟨k,hk,rfl⟩
    rw [List.mem_range] at hk
    exact ⟨by omega,by omega⟩
  · rintro ⟨hlow,hhigh⟩
    exact ⟨(a - e.start).toNat,List.mem_range.mpr (by omega),by omega⟩

theorem nodup_members (e : Extent) : e.members.Nodup :=
  List.nodup_range.map fun _ _ hkl => Int.ofNat_inj.mp (Int.add_left_cancel hkl)

theorem mem_held {a : ℤ} : a ∈ held es ↔ ∃ e ∈ es, e.Holds a := by
  simp only [held, List.mem_toFinset, List.mem_flatMap, mem_members]

theorem card_held_le (hpos : ∀ e ∈ es, 0 < e.size) : ((held es).card : ℤ) ≤ total es := by
  have hlength : ((es.flatMap members).length : ℤ) = total es := by
    induction es with
    | nil => rfl
    | cons e es ih =>
      have he := hpos e List.mem_cons_self
      have hes := ih fun e he => hpos e (List.mem_cons_of_mem _ he)
      have hcount : e.members.length = e.size.toNat := by simp [members]
      rw [List.flatMap_cons, List.length_append, total]
      omega
  exact hlength ▸ Int.ofNat_le.mpr (List.toFinset_card_le _)

theorem Follows.covers (hpos : ∀ e ∈ es, 0 < e.size) (h : Follows x es) : Covers x es := by
  induction es generalizing x with
  | nil =>
    intro a
    simp [Holds, total]
  | cons e es ih =>
    obtain ⟨hstart,hrest⟩ := h
    have he := hpos e List.mem_cons_self
    have hes : ∀ e ∈ es, 0 < e.size := fun e he => hpos e (List.mem_cons_of_mem _ he)
    have hnonneg := total_nonneg hes
    intro a
    have hcovers := ih hes hrest a
    rw [List.exists_mem_cons_iff, ← hcovers]
    simp only [Holds, total, hstart]
    omega

/-- The range that holds the first integer starts there, and the others cover what it leaves. -/
theorem Covers.head (hpos : ∀ e ∈ es, 0 < e.size) (hne : es ≠ []) (h : Covers x es) :
    ∃ e ∈ es, e.start = x ∧ Covers (x + e.size) (es.erase e) := by
  obtain ⟨e₀,he₀⟩ := List.exists_mem_of_ne_nil es hne
  have htotal : 0 < total es := by
    have hrest := total_nonneg fun e he => hpos e (List.mem_of_mem_erase (b := e₀) he)
    have hpos₀ := hpos e₀ he₀
    rw [total_perm (List.perm_cons_erase he₀), total]
    omega
  obtain ⟨e,he,hholds⟩ := (h x).mp ⟨le_rfl,by simpa using htotal⟩
  have hsize := hpos e he
  have hstart : e.start = x := by
    have hfirst := ((h e.start).mpr ⟨e,he,le_rfl,by omega⟩).1
    exact le_antisymm hholds.1 hfirst
  have hperm := List.perm_cons_erase he
  have hsum : total es = e.size + total (es.erase e) := by rw [total_perm hperm, total]
  have hrest : ∀ e' ∈ es.erase e, 0 < e'.size := fun e' he' => hpos e' (List.mem_of_mem_erase he')
  have hsub : (members ⟨x + e.size,total (es.erase e)⟩).toFinset ⊆ held (es.erase e) := by
    intro a ha
    obtain ⟨hlow,hhigh⟩ := mem_members.mp (List.mem_toFinset.mp ha)
    simp only at hlow hhigh
    obtain ⟨e',he',hholds'⟩ := (h a).mp ⟨by simp only; omega,by simp only [hsum]; omega⟩
    obtain rfl | hmem := List.mem_cons.mp (hperm.mem_iff.mp he')
    · have hend := hholds'.2
      omega
    · exact mem_held.mpr ⟨e',hmem,hholds'⟩
  -- they have no room to cover anything else
  have heq := Finset.eq_of_subset_of_card_le hsub <| by
    have hcard := card_held_le hrest
    rw [List.toFinset_card_of_nodup (nodup_members _)]
    simp only [members, List.length_map, List.length_range]
    omega
  refine ⟨e,he,hstart,fun a => ?_⟩
  rw [← mem_held, ← heq, List.mem_toFinset, mem_members]

theorem covers_iff (hpos : ∀ e ∈ es, 0 < e.size) :
    Covers x es ↔ ∃ order : List Extent, order.Perm es ∧ Follows x order := by
  constructor
  · intro h
    generalize hn : es.length = n
    induction n generalizing es x with
    | zero => exact ⟨[],by rw [List.eq_nil_of_length_eq_zero hn],trivial⟩
    | succ n ih =>
      have hne : es ≠ [] := by
        rintro rfl
        simp at hn
      obtain ⟨e,he,hstart,hcovers⟩ := h.head hpos hne
      obtain ⟨order,hperm,hfollows⟩ := ih (fun e' he' => hpos e' (List.mem_of_mem_erase he')) hcovers
        (by rw [List.length_erase_of_mem he]; omega)
      exact ⟨e :: order,(hperm.cons e).trans (List.perm_cons_erase he).symm,hstart,hfollows⟩
  · rintro ⟨order,hperm,hfollows⟩ a
    have hcovers := hfollows.covers (fun e he => hpos e (hperm.mem_iff.mp he)) a
    rw [total_perm hperm] at hcovers
    simpa only [hperm.mem_iff] using hcovers

end Extent

end Nachos
