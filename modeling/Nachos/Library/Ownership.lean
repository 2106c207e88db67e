import Mathlib.Data.Set.Lattice
import Mathlib.Order.CompletePartialOrder

/-! # Exclusive ownership of cells

Owners hold sets of cells, a set of cells is marked. The lemmas say how the
discipline survives a new owner on unmarked cells and an owner that goes.
-/
namespace Nachos
variable {ι α : Type*}

structure Exclusive (own : ι → Set α) (marked : Set α) : Prop where
  disjoint : Pairwise (Function.onFun Disjoint own)
  covered : ∀ i, own i ⊆ marked

namespace Exclusive
variable {own own' : ι → Set α} {marked cells : Set α} {i j : ι} {x : α}

theorem eq_of_mem (h : Exclusive own marked) (hi : x ∈ own i) (hj : x ∈ own j) : i = j := by
  by_contra hne
  exact Set.disjoint_left.mp (h.disjoint hne) hi hj

theorem shrink (h : Exclusive own marked) (hs : ∀ i, own' i ⊆ own i) : Exclusive own' marked :=
  ⟨fun i j hij => (h.disjoint hij).mono (hs i) (hs j),fun i => (hs i).trans (h.covered i)⟩

theorem extend (h : Exclusive own marked) (i : ι) (hold : ∀ j, j ≠ i → own' j ⊆ own j)
    (hnew : own' i ⊆ cells) (hfresh : Disjoint cells marked) :
    Exclusive own' (marked ∪ cells) := by
  have hj : ∀ j, j ≠ i → Disjoint (own' i) (own' j) := fun j hji =>
    hfresh.mono hnew ((hold j hji).trans (h.covered j))
  refine ⟨fun k l hkl => ?_,fun k => ?_⟩
  · by_cases hk : k = i
    · subst hk
      exact hj l (Ne.symm hkl)
    · by_cases hl : l = i
      · subst hl
        exact (hj k hk).symm
      · exact (h.disjoint hkl).mono (hold k hk) (hold l hl)
  · by_cases hk : k = i
    · subst hk
      exact hnew.trans Set.subset_union_right
    · exact ((hold k hk).trans (h.covered k)).trans Set.subset_union_left

theorem release (h : Exclusive own marked) (i : ι) (hold : ∀ j, j ≠ i → own' j ⊆ own j)
    (hgone : own' i = ∅) (hcells : cells ⊆ own i) : Exclusive own' (marked \ cells) := by
  have hs : ∀ j, own' j ⊆ own j := fun j => by
    by_cases hj : j = i
    · subst hj
      rw [hgone]
      exact Set.empty_subset _
    · exact hold j hj
  refine ⟨(h.shrink hs).disjoint,fun j x hx => ⟨h.covered j (hs j hx),fun hc => ?_⟩⟩
  have hji : j = i := h.eq_of_mem (hs j hx) (hcells hc)
  subst hji
  rw [hgone] at hx
  exact hx

end Exclusive

end Nachos
