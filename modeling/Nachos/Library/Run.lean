import Mathlib.Data.List.Basic

/-! # Runs of a labelled transition system

A run is known by its labels and its last state. An invariant is proved of one
step at a time, a guard restricts the steps a run may take, and a forward
simulation carries a run to a run with the same labels.
-/
namespace Nachos

structure TransitionSystem (σ ι : Type*) where
  init : σ → Prop
  step : σ → ι → σ → Prop

namespace TransitionSystem
variable {σ τ ι : Type*}

inductive Run (T : TransitionSystem σ ι) : List ι → σ → Prop
  | start {s : σ} : T.init s → Run T [] s
  | step {ls : List ι} {s t : σ} {l : ι} : Run T ls s → T.step s l t → Run T (ls ++ [l]) t

def Reachable (T : TransitionSystem σ ι) (s : σ) : Prop := ∃ ls, T.Run ls s

/-- The runs of `T` whose steps all meet a condition. -/
def guard (T : TransitionSystem σ ι) (ok : σ → ι → Prop) : TransitionSystem σ ι :=
  ⟨T.init,fun s l t => ok s l ∧ T.step s l t⟩

/-- The runs that go on from a state. -/
def startAt (T : TransitionSystem σ ι) (s : σ) : TransitionSystem σ ι := ⟨(· = s),T.step⟩

variable {T : TransitionSystem σ ι} {U : TransitionSystem τ ι} {ok : σ → ι → Prop}
  {P : σ → Prop} {ls : List ι} {s t : σ}

theorem Reachable.start (h : T.init s) : T.Reachable s := ⟨[],.start h⟩

theorem Reachable.step {l : ι} (h : T.Reachable s) (hs : T.step s l t) : T.Reachable t := by
  obtain ⟨ls,hr⟩ := h
  exact ⟨ls ++ [l],hr.step hs⟩

/-- What holds at the start and survives each step holds along every run. -/
theorem Run.invariant (hr : T.Run ls s) (hinit : ∀ s, T.init s → P s)
    (hstep : ∀ s l t, P s → T.step s l t → P t) : P s := by
  induction hr with
  | start h => exact hinit _ h
  | step _ hs ih => exact hstep _ _ _ ih hs

theorem Reachable.invariant (h : T.Reachable s) (hinit : ∀ s, T.init s → P s)
    (hstep : ∀ s l t, P s → T.step s l t → P t) : P s := by
  obtain ⟨ls,hr⟩ := h
  exact hr.invariant hinit hstep

theorem Reachable.startAt (h : T.Reachable s) (ht : (T.startAt s).Reachable t) : T.Reachable t :=
  ht.invariant (fun _ hi => hi ▸ h) fun _ _ _ hr hs => hr.step hs

theorem Run.of_guard (hr : (T.guard ok).Run ls s) : T.Run ls s := by
  induction hr with
  | start h => exact .start h
  | step _ hs ih => exact ih.step hs.2

theorem Reachable.guard_mono {ok' : σ → ι → Prop} (h : (T.guard ok).Reachable s)
    (hok : ∀ s l, ok s l → ok' s l) : (T.guard ok').Reachable s :=
  h.invariant (fun _ hi => .start hi) fun _ _ _ hr hs => hr.step ⟨hok _ _ hs.1,hs.2⟩

/-- A forward simulation matches every run by one with the same labels. -/
theorem Run.simulate {R : σ → τ → Prop} (hr : T.Run ls s)
    (hinit : ∀ s, T.init s → ∃ u, U.init u ∧ R s u)
    (hstep : ∀ s l t u, R s u → T.step s l t → ∃ v, U.step u l v ∧ R t v) :
    ∃ u, U.Run ls u ∧ R s u := by
  induction hr with
  | start h =>
    obtain ⟨u,hu,hR⟩ := hinit _ h
    exact ⟨u,.start hu,hR⟩
  | step _ hs ih =>
    obtain ⟨u,hu,hR⟩ := ih
    obtain ⟨v,hv,hR'⟩ := hstep _ _ _ _ hR hs
    exact ⟨v,hu.step hv,hR'⟩

theorem Run.init_of_nil (hr : T.Run [] s) : T.init s := by
  generalize hls : ([] : List ι) = ls at hr
  cases hr with
  | start h => exact h
  | step _ _ => exact absurd hls (List.append_ne_nil_of_right_ne_nil _ (List.cons_ne_nil _ _)).symm

/-- What holds after so many steps, when the steps of a run are all of one kind. -/
theorem Run.counted {P : ℕ → σ → Prop} {kind : ι → Prop} (hr : T.Run ls s)
    (hkind : ∀ l ∈ ls, kind l) (hinit : ∀ s, T.init s → P 0 s)
    (hstep : ∀ n s l t, kind l → P n s → T.step s l t → P (n + 1) t) : P ls.length s := by
  induction hr with
  | start h => exact hinit _ h
  | step _ hs ih =>
    rw [List.length_append]
    exact hstep _ _ _ _ (hkind _ (List.mem_append_right _ List.mem_cons_self))
      (ih fun l hl => hkind l (List.mem_append_left _ hl)) hs

def follow (next : σ → ι → Option σ) (ok : σ → ι → Prop) [∀ s l, Decidable (ok s l)] (s : σ) :
    List ι → Option σ
  | [] => some s
  | l :: ls => if ok s l then (next s l).bind fun s => follow next ok s ls else none

theorem Reachable.follow {next : σ → ι → Option σ} [∀ s l, Decidable (ok s l)]
    (h : (T.guard ok).Reachable s) (hnext : ∀ s l t, next s l = some t → T.step s l t)
    (ht : TransitionSystem.follow next ok s ls = some t) : (T.guard ok).Reachable t := by
  induction ls generalizing s with
  | nil =>
    cases ht
    exact h
  | cons l ls ih =>
    rw [TransitionSystem.follow] at ht
    split_ifs at ht with hok
    obtain ⟨s₁,hs,hrest⟩ := Option.bind_eq_some_iff.mp ht
    exact ih (h.step ⟨hok,hnext s l s₁ hs⟩) hrest

end TransitionSystem

end Nachos
