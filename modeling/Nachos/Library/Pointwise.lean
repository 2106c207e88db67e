import Mathlib.Data.List.Forall2

/-! # Lists that are related place by place -/
namespace Nachos

variable {α β : Type*} {R : α → β → Prop} {l : List α} {l' : List β} {a : α} {b : β}

namespace Pointwise

theorem getElem? (h : List.Forall₂ R l l') (i : ℕ) : Option.Rel R l[i]? l'[i]? := by
  induction h generalizing i with
  | nil => exact .none
  | cons hab _ ih =>
    cases i with
    | zero => exact .some hab
    | succ i => exact ih i

theorem exists_getElem? (h : List.Forall₂ R l l') {i : ℕ} (ha : l[i]? = some a) :
    ∃ b, l'[i]? = some b ∧ R a b := by
  have hrel := getElem? h i
  rw [ha] at hrel
  generalize l'[i]? = o at hrel
  cases hrel with
  | some hab => exact ⟨_,rfl,hab⟩

theorem set (h : List.Forall₂ R l l') (hab : R a b) (i : ℕ) :
    List.Forall₂ R (l.set i a) (l'.set i b) := by
  induction h generalizing i with
  | nil => exact .nil
  | cons hcd hl ih =>
    cases i with
    | zero => exact .cons hab hl
    | succ i => exact .cons hcd (ih i)

theorem findIdx?_eq {p : α → Bool} {q : β → Bool} (h : List.Forall₂ R l l')
    (hpq : ∀ {a b}, R a b → q b = p a) : l'.findIdx? q = l.findIdx? p := by
  induction h with
  | nil => rfl
  | cons hab _ ih => rw [List.findIdx?_cons, List.findIdx?_cons, hpq hab, ih]

end Pointwise

end Nachos
