import Mathlib.Logic.Basic

/-! # Interactive programs

A program returns, performs an operation and goes on with the response, or runs a loop
whose body gives the next value of the loop's variables or the result of the loop. A
contract says what a thread may do in a state that is kept along with it and how that state
follows the responses. A program satisfies a postcondition when it keeps to the contract
whatever the responses are.
-/
namespace Nachos

inductive Prog (Op : Type) (Resp : Op → Type) : Type → Type 1
  | ret {α : Type} (a : α) : Prog Op Resp α
  | act {α : Type} (op : Op) (next : Resp op → Prog Op Resp α) : Prog Op Resp α
  | loop {ν β α : Type} (body : ν → Prog Op Resp (ν ⊕ β)) (x : ν)
      (next : β → Prog Op Resp α) : Prog Op Resp α

namespace Prog
variable {Op : Type} {Resp : Op → Type} {α β ν : Type}

protected def bind {α β : Type} : Prog Op Resp α → (α → Prog Op Resp β) → Prog Op Resp β
  | .ret a, f => f a
  | .act op next, f => .act op fun r => (next r).bind f
  | .loop body x next, f => .loop body x fun b => (next b).bind f

instance : Monad (Prog Op Resp) where
  pure := .ret
  bind := .bind

def perform (op : Op) : Prog Op Resp (Resp op) := .act op .ret

/-- A loop as a program of its own. -/
def iterate (x : ν) (body : ν → Prog Op Resp (ν ⊕ β)) : Prog Op Resp β := .loop body x .ret

@[simp] theorem pure_eq (a : α) : (pure a : Prog Op Resp α) = .ret a := rfl

@[simp] theorem ret_bind (a : α) (f : α → Prog Op Resp β) : (ret a >>= f) = f a := rfl

@[simp] theorem act_bind (op : Op) (next : Resp op → Prog Op Resp α) (f : α → Prog Op Resp β) :
    (act op next >>= f) = act op fun r => next r >>= f := rfl

@[simp] theorem loop_bind {γ : Type} (body : ν → Prog Op Resp (ν ⊕ β)) (x : ν)
    (next : β → Prog Op Resp α) (f : α → Prog Op Resp γ) :
    (loop body x next >>= f) = loop body x fun b => next b >>= f := rfl

@[simp] theorem perform_bind (op : Op) (f : Resp op → Prog Op Resp β) :
    (perform op >>= f) = act op f := rfl

def unroll (body : ν → Prog Op Resp (ν ⊕ β)) (x : ν) (next : β → Prog Op Resp α) :
    Prog Op Resp α :=
  body x >>= fun
    | .inl y => loop body y next
    | .inr b => next b

theorem bind_assoc' {γ : Type} (p : Prog Op Resp α) (f : α → Prog Op Resp β)
    (g : β → Prog Op Resp γ) : p >>= f >>= g = p >>= fun a => f a >>= g := by
  induction p with
  | ret a => rfl
  | act op next ih =>
    simp only [act_bind]
    congr
    funext r
    exact ih r f
  | loop body x next _ ih =>
    simp only [loop_bind]
    congr
    funext b
    exact ih b f

theorem unroll_bind (body : ν → Prog Op Resp (ν ⊕ β)) (x : ν) {γ : Type}
    (next : β → Prog Op Resp α) (f : α → Prog Op Resp γ) :
    unroll body x next >>= f = unroll body x fun b => next b >>= f := by
  rw [unroll, bind_assoc', unroll]
  congr
  funext r
  cases r <;> rfl

def nextOp : Prog Op Resp α → Option Op
  | .act op _ => some op
  | _ => none

def silent : Prog Op Resp α → Option (Prog Op Resp α)
  | .loop body x next => some (unroll body x next)
  | _ => none

end Prog

/-- What a thread may do, and how the state kept along with it changes. -/
structure Contract (Op : Type) (Resp : Op → Type) (σ : Type*) where
  pre : Op → σ → Prop
  post : (op : Op) → σ → Resp op → σ → Prop

namespace Prog
variable {Op : Type} {Resp : Op → Type} {σ : Type*}

/-- For a loop, there is an invariant. -/
def Sat (C : Contract Op Resp σ) :
    {α : Type} → Prog Op Resp α → (α → σ → Prop) → σ → Prop
  | _, .ret a, Q, s => Q a s
  | _, .act op next, Q, s => C.pre op s ∧ ∀ r t, C.post op s r t → (next r).Sat C Q t
  | _, .loop body x next, Q, s => ∃ I : _ → σ → Prop, I x s ∧ ∀ y t, I y t →
      (body y).Sat C (fun r u => match r with
        | .inl z => I z u
        | .inr b => (next b).Sat C Q u) t

variable {C : Contract Op Resp σ} {α β ν : Type} {Q Q' : α → σ → Prop} {s t : σ}

theorem Sat.mono {p : Prog Op Resp α} (h : p.Sat C Q s) (hQ : ∀ a t, Q a t → Q' a t) :
    p.Sat C Q' s := by
  induction p generalizing s with
  | ret a => exact hQ a s h
  | act op next ih => exact ⟨h.1,fun r t hr => ih r (h.2 r t hr) hQ⟩
  | loop body x next ihb ihn =>
    obtain ⟨I,hx,hbody⟩ := h
    refine ⟨I,hx,fun y t hy => ihb y (hbody y t hy) ?_⟩
    rintro (z | b) u hu
    · exact hu
    · exact ihn b hu hQ

theorem Sat.contract {C' : Contract Op Resp σ} {p : Prog Op Resp α} (h : p.Sat C Q s)
    (hpre : ∀ op s, C.pre op s → C'.pre op s)
    (hpost : ∀ op s r t, C'.post op s r t → C.post op s r t) : p.Sat C' Q s := by
  induction p generalizing s with
  | ret a => exact h
  | act op next ih => exact ⟨hpre op s h.1,fun r t hr => ih r (h.2 r t (hpost op s r t hr))⟩
  | loop body x next ihb ihn =>
    obtain ⟨I,hx,hbody⟩ := h
    refine ⟨I,hx,fun y t hy => (ihb y (hbody y t hy)).mono ?_⟩
    rintro (z | b) u hu
    · exact hu
    · exact ihn b hu

theorem Sat.bind {p : Prog Op Resp α} {f : α → Prog Op Resp β} {R : β → σ → Prop}
    (h : p.Sat C Q s) (hf : ∀ a t, Q a t → (f a).Sat C R t) : (p >>= f).Sat C R s := by
  induction p generalizing s with
  | ret a => exact hf a s h
  | act op next ih => exact ⟨h.1,fun r t hr => ih r (h.2 r t hr) hf⟩
  | loop body x next ihb ihn =>
    obtain ⟨I,hx,hbody⟩ := h
    refine ⟨I,hx,fun y t hy => (hbody y t hy).mono ?_⟩
    rintro (z | b) u hu
    · exact hu
    · exact ihn b hu hf

/-- A sequence is satisfied when its first part leads to a state where the rest is. -/
theorem sat_bind {p : Prog Op Resp α} {f : α → Prog Op Resp β} {R : β → σ → Prop} :
    (p >>= f).Sat C R s ↔ p.Sat C (fun a t => (f a).Sat C R t) s := by
  refine ⟨fun h => ?_,fun h => h.bind fun _ _ ha => ha⟩
  induction p generalizing s with
  | ret a => exact h
  | act op next ih => exact ⟨h.1,fun r t hr => ih r (h.2 r t hr)⟩
  | loop body x next ihb ihn =>
    obtain ⟨I,hx,hbody⟩ := h
    refine ⟨I,hx,fun y t hy => (hbody y t hy).mono ?_⟩
    rintro (z | b) u hu
    · exact hu
    · exact ihn b hu

theorem Sat.next {op : Op} {next : Resp op → Prog Op Resp α} {r : Resp op}
    (h : (Prog.act op next).Sat C Q s) (hr : C.post op s r t) : (next r).Sat C Q t := h.2 r t hr

theorem Sat.silent {p q : Prog Op Resp α} (h : p.Sat C Q s) (hp : p.silent = some q) :
    q.Sat C Q s := by
  cases p with
  | ret a => cases hp
  | act op next => cases hp
  | loop body x next =>
    obtain rfl := Option.some_inj.mp hp
    obtain ⟨I,hx,hbody⟩ := h
    refine (hbody x s hx).bind ?_
    rintro (z | b) u hu
    · exact ⟨I,hu,hbody⟩
    · exact hu

/-- The rule for a loop. -/
theorem Sat.iterate {x : ν} {body : ν → Prog Op Resp (ν ⊕ β)} {R : β → σ → Prop}
    (I : ν → σ → Prop) (hx : I x s)
    (hbody : ∀ y t, I y t → (body y).Sat C (Sum.elim I R) t) :
    (Prog.iterate x body).Sat C R s := by
  refine ⟨I,hx,fun y t hy => (hbody y t hy).mono ?_⟩
  rintro (z | b) u hu
  · exact hu
  · exact hu

def Uses (P : Op → Prop) : {α : Type} → Prog Op Resp α → Prop
  | _, .ret _ => True
  | _, .act op next => P op ∧ ∀ r, (next r).Uses P
  | _, .loop body _ next => (∀ y, (body y).Uses P) ∧ ∀ b, (next b).Uses P

variable {P : Op → Prop}

theorem Uses.of_forall {p : Prog Op Resp α} (h : ∀ op, P op) : p.Uses P := by
  induction p with
  | ret a => trivial
  | act op next ih => exact ⟨h op,ih⟩
  | loop body x next ihb ihn => exact ⟨ihb,ihn⟩

theorem Uses.perform {op : Op} (h : P op) : (perform op : Prog Op Resp _).Uses P :=
  ⟨h,fun _ => trivial⟩

theorem Uses.bind {p : Prog Op Resp α} {f : α → Prog Op Resp β} (h : p.Uses P)
    (hf : ∀ a, (f a).Uses P) : (p >>= f).Uses P := by
  induction p with
  | ret a => exact hf a
  | act op next ih => exact ⟨h.1,fun r => ih r (h.2 r) hf⟩
  | loop body x next _ ihn => exact ⟨h.1,fun b => ihn b (h.2 b) hf⟩

theorem Uses.iterate {x : ν} {body : ν → Prog Op Resp (ν ⊕ β)} (h : ∀ y, (body y).Uses P) :
    (Prog.iterate x body).Uses P := ⟨h,fun _ => trivial⟩

theorem Uses.silent {p q : Prog Op Resp α} (h : p.Uses P) (hp : p.silent = some q) :
    q.Uses P := by
  cases p with
  | ret a => cases hp
  | act op next => cases hp
  | loop body x next =>
    obtain rfl := Option.some_inj.mp hp
    refine (h.1 x).bind ?_
    rintro (y | b)
    · exact h
    · exact h.2 b

theorem Uses.mono {P' : Op → Prop} {p : Prog Op Resp α} (h : p.Uses P)
    (hP : ∀ op, P op → P' op) : p.Uses P' := by
  induction p with
  | ret a => trivial
  | act op next ih => exact ⟨hP op h.1,fun r => ih r (h.2 r)⟩
  | loop body x next ihb ihn => exact ⟨fun y => ihb y (h.1 y),fun b => ihn b (h.2 b)⟩

theorem Sat.of_forall {p : Prog Op Resp α} (hpre : ∀ op s, C.pre op s) (hQ : ∀ a t, Q a t) :
    p.Sat C Q s := by
  induction p generalizing s with
  | ret a => exact hQ a s
  | act op next ih => exact ⟨hpre op s,fun r t _ => ih r hQ⟩
  | loop body x next ihb ihn =>
    refine ⟨fun _ _ => True,trivial,fun y t _ => ihb y ?_⟩
    rintro (z | b) u
    · trivial
    · exact ihn b hQ

/-- What all operations of a program keep holds when it is over. -/
theorem Uses.sat {I : σ → Prop} {p : Prog Op Resp α} (h : p.Uses P)
    (hop : ∀ op s, P op → I s → C.pre op s ∧ ∀ r t, C.post op s r t → I t) (hs : I s) :
    p.Sat C (fun _ t => I t) s := by
  induction p generalizing s with
  | ret a => exact hs
  | act op next ih =>
    obtain ⟨hpre,hpost⟩ := hop op s h.1 hs
    exact ⟨hpre,fun r t hr => ih r (h.2 r) (hpost r t hr)⟩
  | loop body x next ihb ihn =>
    refine ⟨fun _ t => I t,hs,fun y t ht => (ihb y (h.1 y) ht).mono ?_⟩
    rintro (z | b) u hu
    · exact hu
    · exact ihn b (h.2 b) hu

end Prog

/-! A second state beside the first: the world that a thread acts on. -/

namespace Contract
variable {Op : Type} {Resp : Op → Type} {σ ε : Type*}

/-- A contract, and another one for a world that responds to the same operations. -/
def along (C : Contract Op Resp σ) (E : Contract Op Resp ε) : Contract Op Resp (σ × ε) where
  pre op s := C.pre op s.1 ∧ E.pre op s.2
  post op s r t := C.post op s.1 r t.1 ∧ E.post op s.2 r t.2

def free (Op : Type) (Resp : Op → Type) : Contract Op Resp Unit where
  pre _ _ := True
  post _ _ _ _ := True

end Contract

namespace Prog
variable {Op : Type} {Resp : Op → Type} {σ ε : Type*} {C : Contract Op Resp σ}
  {E : Contract Op Resp ε} {α : Type} {Q : α → σ → Prop} {s : σ} {e : ε}

/-- The frame rule: a program keeps of the world what its operations keep. -/
theorem Sat.along {P : Op → Prop} {I : ε → Prop} {p : Prog Op Resp α} (h : p.Sat C Q s)
    (hp : p.Uses P)
    (hop : ∀ op e, P op → I e → E.pre op e ∧ ∀ r e', E.post op e r e' → I e') (he : I e) :
    p.Sat (C.along E) (fun a t => Q a t.1 ∧ I t.2) (s,e) := by
  induction p generalizing s e with
  | ret a => exact ⟨h,he⟩
  | act op next ih =>
    obtain ⟨hpre,hpost⟩ := hop op e hp.1 he
    refine ⟨⟨h.1,hpre⟩,?_⟩
    rintro r ⟨t,e'⟩ ⟨ht,he'⟩
    exact ih r (h.2 r t ht) (hp.2 r) (hpost r e' he')
  | loop body x next ihb ihn =>
    obtain ⟨J,hx,hbody⟩ := h
    refine ⟨fun y t => J y t.1 ∧ I t.2,⟨hx,he⟩,?_⟩
    rintro y ⟨t,e'⟩ ⟨hy,he'⟩
    refine (ihb y (hbody y t hy) (hp.1 y) he').mono ?_
    rintro (z | b) ⟨u,e''⟩ ⟨hu,he''⟩
    · exact ⟨hu,he''⟩
    · exact ihn b hu (hp.2 b) he''

theorem Sat.along_free {p : Prog Op Resp α} (h : p.Sat C Q s) :
    p.Sat (C.along (.free Op Resp)) (fun a t => Q a t.1) (s,()) :=
  (h.along (E := .free Op Resp) (P := fun _ => True) (I := fun _ => True)
    (Uses.of_forall fun _ => trivial)
    (fun _ _ _ _ => ⟨trivial,fun _ _ _ => trivial⟩) trivial).mono fun _ _ ha => ha.1

end Prog

end Nachos
