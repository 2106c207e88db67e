import Mathlib.Data.List.Infix
import Mathlib.Data.Set.Card
import Mathlib.Logic.Function.Basic

/-! # Trees of names

A namespace says what stands under each path from the root. Everything stands in a directory, so
a path can be extended only where it leads to one, and what is pruned goes with all that stands
below it.
-/
namespace Nachos

structure Namespace (κ ν : Type*) (isDir : ν → Prop) where
  node : List κ → Option ν
  root : ∃ n, node [] = some n ∧ isDir n
  parent : ∀ {p k n}, node (p ++ [k]) = some n → ∃ m, node p = some m ∧ isDir m

namespace Namespace
variable {κ ν : Type*} {isDir : ν → Prop} (T : Namespace κ ν isDir)

def IsDirectory (p : List κ) : Prop := ∃ n, T.node p = some n ∧ isDir n

def names (p : List κ) : Set κ := {k | T.node (p ++ [k]) ≠ none}

def single (n : ν) (h : isDir n) [DecidableEq κ] : Namespace κ ν isDir where
  node p := if p = [] then some n else none
  root := ⟨n,rfl,h⟩
  parent := by
    intro p k m hm
    simp at hm

section Paths
variable {T} {p q : List κ} {k : κ}

theorem IsDirectory.dropLast (h : T.IsDirectory q) : T.IsDirectory q.dropLast := by
  rcases List.eq_nil_or_concat q with rfl | ⟨p,k,rfl⟩
  · exact h
  · rw [List.concat_eq_append, List.dropLast_concat]
    obtain ⟨n,hn,-⟩ := h
    rw [List.concat_eq_append] at hn
    exact T.parent hn

theorem node_none_of_prefix (h : T.node p = none) (hpq : p <+: q) : T.node q = none := by
  obtain ⟨r,rfl⟩ := hpq
  induction r using List.reverseRecOn with
  | nil => rwa [List.append_nil]
  | append_singleton r k ih =>
    by_contra hne
    obtain ⟨n,hn⟩ := Option.ne_none_iff_exists'.mp hne
    rw [← List.append_assoc] at hn
    obtain ⟨m,hm,-⟩ := T.parent hn
    rw [ih] at hm
    cases hm

theorem not_prefix_self : ¬ p ++ [k] <+: p := fun h => by
  have := h.length_le
  simp at this

end Paths

variable [DecidableEq κ]

/-- Something is put where there is no directory yet. -/
def put (p : List κ) (k : κ) (n : ν) (hp : T.IsDirectory p) (hk : ¬ T.IsDirectory (p ++ [k])) :
    Namespace κ ν isDir where
  node := Function.update T.node (p ++ [k]) (some n)
  root := by
    rw [Function.update_of_ne (by simp)]
    exact T.root
  parent := by
    intro q j m hm
    by_cases hq : q ++ [j] = p ++ [k]
    · obtain ⟨rfl,-⟩ := List.append_inj' hq rfl
      rw [Function.update_of_ne (by simp)]
      exact hp
    · rw [Function.update_of_ne hq] at hm
      have hdir := T.parent hm
      have hne : q ≠ p ++ [k] := by
        rintro rfl
        exact hk hdir
      rw [Function.update_of_ne hne]
      exact hdir

def prune (p : List κ) (k : κ) : Namespace κ ν isDir where
  node q := if (p ++ [k]).isPrefixOf q then none else T.node q
  root := by
    rw [if_neg (by simp)]
    exact T.root
  parent := by
    intro q j m hm
    split_ifs at hm with hj
    have hq : ¬ (p ++ [k]).isPrefixOf q = true := by
      rw [List.isPrefixOf_iff_prefix] at hj ⊢
      exact fun h => hj (h.trans (List.prefix_append q [j]))
    rw [if_neg hq]
    exact T.parent hm

variable {T} {p q : List κ} {k : κ} {n : ν}

theorem node_put {hp : T.IsDirectory p} {hk : ¬ T.IsDirectory (p ++ [k])} (q : List κ) :
    (T.put p k n hp hk).node q = if q = p ++ [k] then some n else T.node q :=
  Function.update_apply _ _ _ _

theorem node_prune (q : List κ) :
    (T.prune p k).node q = if p ++ [k] <+: q then none else T.node q := by
  rw [prune]
  simp only [List.isPrefixOf_iff_prefix]

omit [DecidableEq κ] in
theorem ext_node {T' : Namespace κ ν isDir} (h : ∀ q, T.node q = T'.node q) : T = T' := by
  cases T
  cases T'
  simp only [mk.injEq]
  exact funext h

theorem IsDirectory.put {hp : T.IsDirectory p} {hk : ¬ T.IsDirectory (p ++ [k])}
    (h : T.IsDirectory q) : (T.put p k n hp hk).IsDirectory q := by
  have hne : q ≠ p ++ [k] := by
    rintro rfl
    exact hk h
  rw [IsDirectory, node_put, if_neg hne]
  exact h

theorem IsDirectory.prune (h : T.IsDirectory q) (hq : ¬ p ++ [k] <+: q) :
    (T.prune p k).IsDirectory q := by
  rw [IsDirectory, node_prune, if_neg hq]
  exact h

end Namespace

end Nachos
