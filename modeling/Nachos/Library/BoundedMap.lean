import Mathlib.Data.Finmap

/-! # Finite maps with room for a number of keys

A binding is refused for a key that is bound already and when there is no room.
-/
namespace Nachos

structure BoundedMap (κ υ : Type*) (capacity : ℕ) where
  map : Finmap fun _ : κ => υ
  bounded : map.keys.card ≤ capacity

namespace BoundedMap
variable {κ υ : Type*} [DecidableEq κ] {capacity : ℕ} {m : BoundedMap κ υ capacity}

def empty : BoundedMap κ υ capacity := ⟨∅,by simp⟩

def lookup (m : BoundedMap κ υ capacity) (k : κ) : Option υ := m.map.lookup k

def size (m : BoundedMap κ υ capacity) : ℕ := m.map.keys.card

def Addable (m : BoundedMap κ υ capacity) (k : κ) : Prop := m.lookup k = none ∧ m.size < capacity

theorem Addable.bounded {k : κ} (h : m.Addable k) (v : υ) :
    (m.map.insert k v).keys.card ≤ capacity := by
  have hkeys : (m.map.insert k v).keys = insert k m.map.keys := by
    ext k'
    simp only [Finmap.mem_keys, Finmap.mem_insert, Finset.mem_insert]
  rw [hkeys]
  exact (Finset.card_insert_le k m.map.keys).trans h.2

open Classical in
noncomputable def add (m : BoundedMap κ υ capacity) (k : κ) (v : υ) :
    Bool × BoundedMap κ υ capacity :=
  if h : m.Addable k then (true,⟨m.map.insert k v,h.bounded v⟩) else (false,m)

def remove (m : BoundedMap κ υ capacity) (k : κ) : Bool × BoundedMap κ υ capacity :=
  ((m.lookup k).isSome,⟨m.map.erase k,by
    rw [Finmap.keys_erase]
    exact (Finset.card_erase_le).trans m.bounded⟩)

@[simp] theorem lookup_empty (k : κ) : (empty : BoundedMap κ υ capacity).lookup k = none :=
  Finmap.lookup_empty k

theorem add_fst (m : BoundedMap κ υ capacity) (k : κ) (v : υ) :
    (m.add k v).1 = true ↔ m.Addable k := by
  by_cases h : m.Addable k <;> simp [add, h]

theorem add_refused {k : κ} (h : ¬ m.Addable k) (v : υ) : m.add k v = (false,m) := dif_neg h

theorem lookup_add {k : κ} (h : m.Addable k) (v : υ) (k' : κ) :
    (m.add k v).2.lookup k' = if k' = k then some v else m.lookup k' := by
  simp only [add, dif_pos h, lookup]
  split_ifs with hk
  · rw [hk, Finmap.lookup_insert]
  · exact Finmap.lookup_insert_of_ne _ hk

theorem lookup_remove (m : BoundedMap κ υ capacity) (k k' : κ) :
    (m.remove k).2.lookup k' = if k' = k then none else m.lookup k' := by
  simp only [remove, lookup]
  split_ifs with hk
  · rw [hk, Finmap.lookup_erase]
  · exact Finmap.lookup_erase_ne hk

theorem mem_keys (m : BoundedMap κ υ capacity) (k : κ) :
    k ∈ m.map.keys ↔ ∃ v, m.lookup k = some v := by
  rw [Finmap.mem_keys, Finmap.mem_iff]
  rfl

end BoundedMap

end Nachos
