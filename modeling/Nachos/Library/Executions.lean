import Nachos.Library.Interaction
import Mathlib.Logic.Function.Basic

/-! # Executions of interactive programs

An execution steps through the operations of a program, with any response that the
contract admits, and through the rounds of its loops. A program satisfies a postcondition
just when no execution of it does what the contract forbids or returns without the
postcondition.
-/
namespace Nachos.Prog
variable {Op : Type} {Resp : Op → Type} {σ : Type*} {α β ν : Type}
variable {C : Contract Op Resp σ} {Q : α → σ → Prop} {s t u : σ}

inductive Step (C : Contract Op Resp σ) : {α : Type} →
    Prog Op Resp α → σ → Prog Op Resp α → σ → Prop
  | respond {α : Type} {op : Op} {next : Resp op → Prog Op Resp α} {r : Resp op} {s t : σ} :
      C.post op s r t → Step C (.act op next) s (next r) t
  | turn {α ν β : Type} {body : ν → Prog Op Resp (ν ⊕ β)} {x : ν} {next : β → Prog Op Resp α}
      {s : σ} : Step C (.loop body x next) s (unroll body x next) s

inductive Reaches (C : Contract Op Resp σ) :
    Prog Op Resp α → σ → Prog Op Resp α → σ → Prop
  | refl {p : Prog Op Resp α} {s : σ} : Reaches C p s p s
  | head {p q q' : Prog Op Resp α} {s t u : σ} :
      Step C p s q t → Reaches C q t q' u → Reaches C p s q' u

/-- What the program does next is allowed. -/
def Allowed (C : Contract Op Resp σ) : {α : Type} → Prog Op Resp α → σ → Prop
  | _, .act op _, s => C.pre op s
  | _, _, _ => True

theorem Reaches.trans {p q q' : Prog Op Resp α} (h : Reaches C p s q t)
    (h' : Reaches C q t q' u) : Reaches C p s q' u := by
  induction h with
  | refl => exact h'
  | head hs _ ih => exact .head hs (ih h')

theorem Step.bind {p q : Prog Op Resp α} (h : Step C p s q t) (f : α → Prog Op Resp β) :
    Step C (p >>= f) s (q >>= f) t := by
  cases h with
  | respond h => exact .respond h
  | turn =>
    rw [loop_bind, unroll_bind]
    exact .turn

theorem Reaches.bind {p q : Prog Op Resp α} (h : Reaches C p s q t) (f : α → Prog Op Resp β) :
    Reaches C (p >>= f) s (q >>= f) t := by
  induction h with
  | refl => exact .refl
  | head hs _ ih => exact .head (hs.bind f) ih

theorem Allowed.of_bind {p : Prog Op Resp α} {f : α → Prog Op Resp β}
    (h : (p >>= f).Allowed C s) : p.Allowed C s := by
  cases p with
  | ret a => trivial
  | act op next => exact h
  | loop body x next => trivial

theorem Sat.allowed {p : Prog Op Resp α} (h : p.Sat C Q s) : p.Allowed C s := by
  cases p with
  | ret a => trivial
  | act op next => exact h.1
  | loop body x next => trivial

theorem Sat.step {p q : Prog Op Resp α} (h : p.Sat C Q s) (hs : Step C p s q t) :
    q.Sat C Q t := by
  cases hs with
  | respond hr => exact h.next hr
  | turn => exact h.silent rfl

theorem Sat.reaches {p q : Prog Op Resp α} (h : p.Sat C Q s) (hr : Reaches C p s q t) :
    q.Sat C Q t := by
  induction hr with
  | refl => exact h
  | head hs _ ih => exact ih (h.step hs)

/-- An execution does only what is allowed, and returns only with the postcondition. -/
def Safe (C : Contract Op Resp σ) (Q : α → σ → Prop) (p : Prog Op Resp α) (s : σ) : Prop :=
  ∀ q t, Reaches C p s q t → q.Allowed C t ∧ ∀ a, q = .ret a → Q a t

theorem Safe.reaches {p q : Prog Op Resp α} (h : Safe C Q p s) (hr : Reaches C p s q t) :
    Safe C Q q t := fun q' u hu => h q' u (hr.trans hu)

/-- The invariant of a loop is that the loop is reached with these variables. -/
theorem sat_iff_safe {p : Prog Op Resp α} : p.Sat C Q s ↔ Safe C Q p s := by
  constructor
  · intro h q t hr
    have hq := h.reaches hr
    refine ⟨hq.allowed,?_⟩
    rintro a rfl
    exact hq
  · intro h
    induction p generalizing s with
    | ret a => exact (h _ _ .refl).2 a rfl
    | act op next ih =>
      exact ⟨(h _ _ .refl).1,fun r t hr => ih r (h.reaches (.head (.respond hr) .refl))⟩
    | loop body x next ihb ihn =>
      refine ⟨fun y t => Reaches C (.loop body x next) s (.loop body y next) t,.refl,?_⟩
      intro y t hy
      refine ihb y fun q u hq => ?_
      have hbody := hy.trans (.head .turn (hq.bind _))
      refine ⟨(h _ _ hbody).1.of_bind,?_⟩
      rintro (z | b) rfl
      · exact hbody
      · exact ihn b (h.reaches hbody)

/-! A program that runs with the operations of a larger interface. -/

section Lift
variable {Op' : Type} {Resp' : Op' → Type}

/-- Each operation is one of the larger interface, and so is its response. -/
def lift (f : Op → Op') (g : ∀ op, Resp' (f op) → Resp op) :
    {α : Type} → Prog Op Resp α → Prog Op' Resp' α
  | _, .ret a => .ret a
  | _, .act op next => .act (f op) fun r => (next (g op r)).lift f g
  | _, .loop body x next => .loop (fun y => (body y).lift f g) x fun b => (next b).lift f g

variable {f : Op → Op'} {g : ∀ op, Resp' (f op) → Resp op} {C' : Contract Op' Resp' σ}

theorem lift_bind (p : Prog Op Resp α) (k : α → Prog Op Resp β) :
    (p >>= k).lift f g = p.lift f g >>= fun a => (k a).lift f g := by
  induction p with
  | ret a => rfl
  | act op next ih =>
    simp only [act_bind, lift, ih]
  | loop body x next _ ih =>
    simp only [loop_bind, lift, ih]

theorem lift_lift {f' : Op' → Op} {g' : ∀ op, Resp (f' op) → Resp' op} (hf : ∀ op, f' (f op) = op)
    (hg : ∀ op (r : Resp (f' (f op))), HEq (g op (g' (f op) r)) r) (p : Prog Op Resp α) :
    (p.lift f g).lift f' g' = p := by
  induction p with
  | ret a => rfl
  | act op next ih =>
    simp only [lift, ih]
    congr 1
    · exact hf op
    · refine Function.hfunext (congrArg Resp (hf op)) fun r r' hr => ?_
      exact heq_of_eq (congrArg next (eq_of_heq ((hg op r).trans hr)))
  | loop body x next ihb ihn =>
    simp only [lift, ihb, ihn]

/-- A program keeps to the part of a contract that is about its own operations. -/
theorem sat_lift (hg : ∀ op, Function.Surjective (g op))
    (hpre : ∀ op s, C'.pre (f op) s ↔ C.pre op s)
    (hpost : ∀ op s r t, C'.post (f op) s r t ↔ C.post op s (g op r) t) {p : Prog Op Resp α} :
    (p.lift f g).Sat C' Q s ↔ p.Sat C Q s := by
  induction p generalizing s with
  | ret a => exact Iff.rfl
  | act op next ih =>
    simp only [lift, Sat, hpre, hpost, ih]
    refine and_congr_right fun _ => ⟨fun h r t hr => ?_,fun h r t hr => h (g op r) t hr⟩
    obtain ⟨r',rfl⟩ := hg op r
    exact h r' t hr
  | loop body x next ihb ihn =>
    simp only [lift, Sat, ihb, ihn]

end Lift

end Nachos.Prog
