import Nachos.Machine.InterruptSource

/-! # The timer

`timer.cc`. `TimerExpired` schedules the next interrupt before it calls the kernel's handler, so
just one interrupt of the timer is in the queue at any time, and the handler is called again and
again.
-/
namespace Nachos

/-- The average time between the interrupts of a timer. -/
abbrev timerTicks : ℤ := 100

/-- The function `TimerHandler`, the object that it is called for, and whether the intervals are
random. -/
structure Timer where
  timerHandler : ℕ
  object : ℤ
  randomize : Bool

namespace Timer
variable (t : Timer)

def timeOfNextInterrupt (random : ℕ) : ℤ :=
  if t.randomize then 1 + random % (timerTicks * 2) else timerTicks

theorem timeOfNextInterrupt_pos (random : ℕ) : 0 < t.timeOfNextInterrupt random := by
  unfold timeOfNextInterrupt timerTicks
  split_ifs <;> omega

def new (L : SortedList) (random : ℕ) (s : Interrupt) : Outcome Interrupt :=
  s.schedule L t.timerHandler t.object (t.timeOfNextInterrupt random) .timerInt

/-- `handler` is what the kernel does each time. -/
def timerExpired (random : ℕ) (handler : List HandlerCall) : List HandlerCall :=
  .schedule t.timerHandler t.object (t.timeOfNextInterrupt random) .timerInt
    (t.timeOfNextInterrupt_pos random) :: handler

/-- `TimerHandler` is static, so no other file schedules it. -/
def source : InterruptSource := ⟨t.timerHandler,t.object⟩

/-- The devices of a machine with this timer. `random` is what `Random` returns. -/
def devices {μ : Type} (random : Interrupt → μ → ℕ) (dev : Devices μ) : Devices μ :=
  fun p s mem =>
    if t.source.Owns p then (t.timerExpired (random s mem) (dev p s mem).1,(dev p s mem).2)
    else dev p s mem

def shortest : ℤ := if t.randomize then 1 else timerTicks
def longest : ℤ := if t.randomize then timerTicks * 2 else timerTicks

def lastCall (start : ℤ) (s : Interrupt) : ℤ :=
  InterruptSource.lastCall start (t.source.calls s)

/-- One interrupt of the timer is in the queue, and none came too early. -/
def Ticking (start : ℤ) (s : Interrupt) : Prop :=
  InterruptSource.Periodic .timerInt t.shortest t.longest start (t.source.waiting s)
    (t.source.calls s)

variable {t} {L : SortedList} {s u : Interrupt}

theorem timeOfNextInterrupt_le (random : ℕ) : t.shortest ≤ t.timeOfNextInterrupt random ∧
    t.timeOfNextInterrupt random ≤ t.longest := by
  unfold timeOfNextInterrupt shortest longest timerTicks
  split_ifs <;> omega

section Runs
variable {μ : Type} {random : Interrupt → μ → ℕ} {dev : Devices μ}

theorem request_timerExpired (r : ℕ) {calls : List HandlerCall}
    (h : ∀ c ∈ calls, t.source.request c = none) :
    (t.timerExpired r calls).filterMap t.source.request =
      [(t.timeOfNextInterrupt r,.timerInt)] := by
  have hfirst : t.source.request (.schedule t.timerHandler t.object (t.timeOfNextInterrupt r)
      .timerInt (t.timeOfNextInterrupt_pos r)) = some (t.timeOfNextInterrupt r,.timerInt) :=
    if_pos ⟨rfl,rfl⟩
  rw [timerExpired, List.filterMap_cons_some hfirst, List.filterMap_eq_nil_iff.mpr h]

variable (random) in
theorem ticking_guards (hdev : ∀ p s mem, ∀ c ∈ (dev p s mem).1, t.source.request c = none)
    (start : ℤ) : t.source.Guards (t.devices random dev) fun w cs _ =>
      InterruptSource.Periodic .timerInt t.shortest t.longest start w cs := by
  refine InterruptSource.periodic_guards (fun p s mem hp => ?_) (fun p s mem hp => ?_) start
  · rw [devices, if_neg hp]
    exact List.filterMap_eq_nil_iff.mpr (hdev p s mem)
  · rw [devices, if_pos hp]
    exact ⟨_,request_timerExpired _ (hdev p s mem),t.timeOfNextInterrupt_le _⟩

/-- In every run of a machine with a timer, just one interrupt of the timer is in the queue, its
calls are no closer than the shortest interval, and whenever a tick of a machine that is not idle
is over, the last call was less than the longest interval ago. -/
theorem timer (L : SortedList) (t : Timer) (random : Interrupt → μ → ℕ) (dev : Devices μ) (r : ℕ)
    (s₀ s : Kernel μ) (u : Interrupt)
    (hdev : ∀ p s mem, ∀ c ∈ (dev p s mem).1, t.source.request c = none)
    (hboot : (kernels L (t.devices random dev)).Reachable s₀)
    (hnone : ∀ p ∈ s₀.interrupt.scheduled, ¬ t.source.Owns p)
    (hnew : t.new L r s₀.interrupt = .ok u)
    (hrun : (((kernels L (t.devices random dev)).guard fun _ => t.source.Alone).startAt
      { s₀ with interrupt := u }).Reachable s) :
    t.Ticking s₀.interrupt.stats.totalTicks s.interrupt ∧
    (s.interrupt.status ≠ .idleMode → ∀ passes v old mem,
      s.interrupt.oneTick L (t.devices random dev) passes s.mem = .ok (some (v,old,mem)) →
      v.stats.totalTicks < t.lastCall s₀.interrupt.stats.totalTicks v + t.longest) := by
  have hsound₀ := sound_of_run hboot
  have hguards := ticking_guards random hdev s₀.interrupt.stats.totalTicks
  have hinv : s.interrupt.Sound ∧ t.Ticking s₀.interrupt.stats.totalTicks s.interrupt := by
    refine hrun.invariant (P := fun s => s.interrupt.Sound ∧
      t.Ticking s₀.interrupt.stats.totalTicks s.interrupt) ?_ ?_
    · rintro _ rfl
      obtain ⟨v,hv,hsound,-⟩ := Interrupt.schedule_spec (L := L) hsound₀ t.timerHandler t.object
        .timerInt (t.timeOfNextInterrupt_pos r)
      rw [Timer.new, hv] at hnew
      cases hnew
      obtain ⟨hlo,hhi⟩ := t.timeOfNextInterrupt_le r
      exact ⟨hsound,InterruptSource.periodic_new hsound₀ hnone hv hlo hhi⟩
    · rintro a l b ⟨hsound,hticking⟩ ⟨halone,-,hstep⟩
      exact ⟨(hstep.sound hsound).1,hguards.step hstep hsound hticking halone fun _ _ => hticking⟩
  refine ⟨hinv.2,fun hidle passes v old mem htick => ?_⟩
  obtain ⟨p,hwait,-,-,hhigh⟩ := (hguards.kept.oneTick hinv.1 hinv.2 htick).next
  have hlate := InterruptSource.late_of_oneTick t.source hinv.1 hidle htick
    (p := p) (by rw [hwait]; exact List.mem_singleton_self p)
  exact hlate.trans_le hhigh

end Runs

end Timer

/-- A fixed interval, a handler that asks for a switch, and the first tick of the kernel. -/
theorem timer_fixed : ∃ s : Kernel Unit, s.interrupt.stats.totalTicks = 10 ∧
    (⟨1,0,false⟩ : Timer).Ticking 0 s.interrupt ∧
    (s.interrupt.status ≠ .idleMode → ∀ passes v old mem,
      s.interrupt.oneTick .ordered ((⟨1,0,false⟩ : Timer).devices (fun _ _ => 0)
        fun _ _ mem => ([.yieldOnReturn],mem)) passes s.mem = .ok (some (v,old,mem)) →
      v.stats.totalTicks < (⟨1,0,false⟩ : Timer).lastCall 0 v + 100) := by
  have hnew : ∃ u, (⟨1,0,false⟩ : Timer).new .ordered 0 .new = .ok u ∧
      ∃ v, u.oneTick .ordered ((⟨1,0,false⟩ : Timer).devices (fun _ _ => 0)
        fun _ _ mem => ([.yieldOnReturn],mem)) 1 () = .ok (some (v,none,())) ∧
        v.stats.totalTicks = 10 := ⟨_,rfl,_,rfl,rfl⟩
  obtain ⟨u,hu,v,hv,hten⟩ := hnew
  refine ⟨⟨v,(),[],false⟩,hten,Timer.timer .ordered ⟨1,0,false⟩ (fun _ _ => 0)
    (fun _ _ mem => ([.yieldOnReturn],mem)) 0 ⟨.new,(),[],false⟩ _ u ?_ (.start ⟨rfl,rfl,rfl⟩) ?_ hu
    ?_⟩
  · intro p s mem c hc
    obtain rfl := List.mem_singleton.mp hc
    rfl
  · exact fun p hp => absurd hp List.not_mem_nil
  · have hstep := Kernel.Step.oneTick (s := ⟨u,(),[],false⟩) hv
    exact (TransitionSystem.Reachable.start rfl).step (l := .oneTick) ⟨trivial,rfl,hstep⟩

end Nachos
