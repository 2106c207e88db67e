import Nachos.Library.Interaction
import Mathlib.Data.Nat.Notation

/-! # Total correctness of interactive programs

The world answers each operation by a relation. A program ends when along every
path of answers it gets one to each operation and comes to its result, however often
its loops go around. A loop ends when a variant falls in each round.
-/
namespace Nachos.Prog
variable {Op : Type} {Resp : Op → Type} {σ : Type*} {α β ν : Type}

/-- The answers of a world, with its state after each. -/
abbrev World (Op : Type) (Resp : Op → Type) (σ : Type*) := (op : Op) → σ → Resp op → σ → Prop

/-- The program comes to an end, and with it the postcondition holds. -/
inductive Ends (W : World Op Resp σ) (Q : α → σ → Prop) : Prog Op Resp α → σ → Prop
  | ret {a : α} {s : σ} : Q a s → Ends W Q (.ret a) s
  | act {op : Op} {next : Resp op → Prog Op Resp α} {s : σ} : (∃ r t, W op s r t) →
      (∀ r t, W op s r t → Ends W Q (next r) t) → Ends W Q (.act op next) s
  | loop {ν β : Type} {body : ν → Prog Op Resp (ν ⊕ β)} {x : ν} {next : β → Prog Op Resp α}
      {s : σ} : Ends W Q (unroll body x next) s → Ends W Q (.loop body x next) s

variable {W : World Op Resp σ} {Q Q' : α → σ → Prop} {s : σ}

theorem ends_ret {a : α} : Ends W Q (.ret a) s ↔ Q a s := by
  constructor
  · intro h
    cases h with
    | ret h => exact h
  · exact .ret

theorem ends_act {op : Op} {next : Resp op → Prog Op Resp α} :
    Ends W Q (.act op next) s ↔
      (∃ r t, W op s r t) ∧ ∀ r t, W op s r t → Ends W Q (next r) t := by
  constructor
  · intro h
    cases h with
    | act hr h => exact ⟨hr,h⟩
  · rintro ⟨hr,h⟩
    exact .act hr h

theorem ends_loop {body : ν → Prog Op Resp (ν ⊕ β)} {x : ν} {next : β → Prog Op Resp α} :
    Ends W Q (.loop body x next) s ↔ Ends W Q (unroll body x next) s := by
  constructor
  · intro h
    cases h with
    | loop h => exact h
  · exact .loop

theorem Ends.mono {p : Prog Op Resp α} (h : Ends W Q p s) (hQ : ∀ a t, Q a t → Q' a t) :
    Ends W Q' p s := by
  induction h with
  | ret h => exact .ret (hQ _ _ h)
  | act hr _ ih => exact .act hr ih
  | loop _ ih => exact .loop ih

theorem Ends.bind {p : Prog Op Resp α} {f : α → Prog Op Resp β} {R : β → σ → Prop}
    (h : Ends W Q p s) (hf : ∀ a t, Q a t → Ends W R (f a) t) : Ends W R (p >>= f) s := by
  induction h with
  | ret h => exact hf _ _ h
  | act hr _ ih => exact .act hr ih
  | loop _ ih =>
    rw [loop_bind]
    rw [unroll_bind] at ih
    exact .loop ih

theorem ends_bind {p : Prog Op Resp α} {f : α → Prog Op Resp β} {R : β → σ → Prop} :
    Ends W R (p >>= f) s ↔ Ends W (fun a t => Ends W R (f a) t) p s := by
  refine ⟨fun h => ?_,fun h => h.bind fun _ _ ha => ha⟩
  generalize hq : p >>= f = q at h
  induction h generalizing p with
  | ret h =>
    cases p with
    | ret a =>
      rw [ret_bind] at hq
      exact .ret (hq ▸ .ret h)
    | act op next => cases hq
    | loop body x next => cases hq
  | act hr h ih =>
    cases p with
    | ret a =>
      rw [ret_bind] at hq
      exact .ret (hq ▸ .act hr h)
    | act op next =>
      rw [act_bind] at hq
      cases hq
      exact .act hr fun r t hrt => ih r t hrt rfl
    | loop body x next => cases hq
  | loop h ih =>
    cases p with
    | ret a =>
      rw [ret_bind] at hq
      exact .ret (hq ▸ .loop h)
    | act op next => cases hq
    | loop body x next =>
      rw [loop_bind] at hq
      cases hq
      exact .loop (ih (unroll_bind _ _ _ f))

theorem Ends.both {p : Prog Op Resp α} (h : Ends W Q p s) (h' : Ends W Q' p s) :
    ∃ a t, Q a t ∧ Q' a t := by
  induction h with
  | ret h => exact ⟨_,_,h,ends_ret.mp h'⟩
  | act hr _ ih =>
    obtain ⟨r,t,hrt⟩ := hr
    exact ih r t hrt ((ends_act.mp h').2 r t hrt)
  | loop _ ih =>
    cases h' with
    | loop h' => exact ih h'

/-- The rule for a loop: each round keeps the invariant and lets the variant fall. -/
theorem Ends.iterate {x : ν} {body : ν → Prog Op Resp (ν ⊕ β)} {R : β → σ → Prop}
    (I : ν → σ → Prop) (variant : ν → σ → ℕ) (hx : I x s)
    (hbody : ∀ y t, I y t →
      Ends W (Sum.elim (fun z u => I z u ∧ variant z u < variant y t) R) (body y) t) :
    Ends W R (Prog.iterate x body) s := by
  generalize hn : variant x s = n
  induction n using Nat.strongRecOn generalizing x s with
  | _ n ih =>
    refine .loop ((hbody x s hx).bind ?_)
    rintro (z | b) u hu
    · exact ih _ (hn ▸ hu.2) hu.1 rfl
    · exact .ret hu

end Nachos.Prog
