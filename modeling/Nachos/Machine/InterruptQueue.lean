import Nachos.Machine.Interrupt
import Nachos.Library.Run
import Mathlib.Algebra.Order.Group.Int
import Mathlib.Data.List.Nodup
import Mathlib.Data.List.Range
import Mathlib.Data.List.Sort

/-! # The interrupt queue over whole runs

Interrupts are taken from the queue, looked at and put back, and a handler may add to
it. `Sound` survives all of this. A handler only schedules for later, so each pass of the
draining loop leaves one interrupt less that is due.
-/
namespace Nachos.Interrupt

structure Sound (s : Interrupt) : Prop where
  balance : s.stats.totalTicks = s.stats.idleTicks + s.stats.systemTicks + s.stats.userTicks
  sorted : s.pending.Pairwise fun a b => a.1 ≤ b.1
  keys : ∀ x ∈ s.pending, x.1 = x.2.when
  notEarly : ∀ x ∈ s.invoked, x.1.when ≤ x.2
  once : s.scheduled.Perm (s.pending.map Prod.snd ++ s.invoked.map Prod.fst)
  serials : s.scheduled.map PendingInterrupt.serial = List.range s.scheduled.length

def dueCount (s : Interrupt) : ℕ := s.pending.countP fun x => decide (x.1 ≤ s.stats.totalTicks)

/-- What a handler does not change. -/
structure SameMode (s t : Interrupt) : Prop where
  level : t.level = s.level
  status : t.status = s.status
  stats : t.stats = s.stats

theorem Sound.new : Sound new := by
  constructor <;> simp [Interrupt.new]

theorem SameMode.trans {s t u : Interrupt} (h : SameMode s t) (h' : SameMode t u) :
    SameMode s u :=
  ⟨h'.level.trans h.level,h'.status.trans h.status,h'.stats.trans h.stats⟩

section Handlers
variable {L : SortedList} {s : Interrupt}

theorem Sound.putBack {k : ℤ} {p : PendingInterrupt} {rest : List (ℤ × PendingInterrupt)}
    (h : Sound s) (hs : s.pending = (k,p) :: rest) :
    Sound { s with pending := L.sortedInsert p k rest } := by
  have hp : (L.sortedInsert p k rest).Perm s.pending := by
    rw [hs]
    exact L.sortedInsert_perm p k rest
  refine ⟨h.balance,L.sortedInsert_sorted p k rest ?_,fun x hx => h.keys x (hp.mem_iff.mp hx),
    h.notEarly,?_,h.serials⟩
  · have := h.sorted
    rw [hs] at this
    exact this.of_cons
  · exact h.once.trans ((hp.symm.map Prod.snd).append_right _)

theorem schedule_spec (h : Sound s) (handler : ℕ) (arg : ℤ) {fromNow : ℤ} (type : IntType)
    (hpos : 0 < fromNow) :
    ∃ t, s.schedule L handler arg fromNow type = .ok t ∧ Sound t ∧ SameMode s t ∧
      t.inHandler = s.inHandler ∧ t.dueCount = s.dueCount := by
  have hp := L.sortedInsert_perm ⟨s.scheduled.length,handler,arg,s.stats.totalTicks + fromNow,type⟩
    (s.stats.totalTicks + fromNow) s.pending
  refine ⟨_,if_pos hpos,?_,⟨rfl,rfl,rfl⟩,rfl,?_⟩
  · refine ⟨h.balance,L.sortedInsert_sorted _ _ _ h.sorted,fun x hx => ?_,h.notEarly,?_,?_⟩
    · rcases List.mem_cons.mp (hp.mem_iff.mp hx) with rfl | hx
      · rfl
      · exact h.keys x hx
    · have hadd := (h.once.append_right [(⟨s.scheduled.length,handler,arg,
        s.stats.totalTicks + fromNow,type⟩ : PendingInterrupt)]).trans List.perm_append_comm
      exact hadd.trans ((hp.symm.map Prod.snd).append_right (s.invoked.map Prod.fst))
    · simp [h.serials, List.range_succ]
  · have hlate : ¬ s.stats.totalTicks + fromNow ≤ s.stats.totalTicks := by omega
    simp only [dueCount, hp.countP_eq, List.countP_cons, hlate, decide_false, Bool.false_eq_true,
      if_false, Nat.add_zero]

/-- The calls a handler makes are accepted, and none of them makes an interrupt due. -/
theorem runCalls_spec (h : Sound s) (hin : s.inHandler = true) (calls : List HandlerCall) :
    ∃ t, s.runCalls L calls = .ok t ∧ Sound t ∧ SameMode s t ∧ t.dueCount = s.dueCount := by
  induction calls generalizing s with
  | nil => exact ⟨s,rfl,h,⟨rfl,rfl,rfl⟩,rfl⟩
  | cons call calls ih =>
    cases call with
    | yieldOnReturn =>
      have h' : Sound { s with yieldOnReturn := true } :=
        ⟨h.balance,h.sorted,h.keys,h.notEarly,h.once,h.serials⟩
      obtain ⟨t,hrun,ht,hm,hd⟩ := ih h' hin
      refine ⟨t,?_,ht,⟨hm.level,hm.status,hm.stats⟩,hd⟩
      rw [runCalls, requestYield, if_pos hin]
      exact hrun
    | schedule handler arg fromNow type hpos =>
      obtain ⟨s',hs,h',hm,hin',hd⟩ := schedule_spec (L := L) h handler arg type hpos
      obtain ⟨t,hrun,ht,hm',hd'⟩ := ih h' (hin'.trans hin)
      refine ⟨t,?_,ht,hm.trans hm',hd'.trans hd⟩
      rw [runCalls, hs]
      exact hrun

end Handlers

section Check
variable {L : SortedList} {μ : Type} {dev : Devices μ} {s : Interrupt} {mem : μ}

variable (L dev mem) in
/-- An interrupt that is due is handled, or put back when there is nothing more to do. -/
theorem invoke_spec {k : ℤ} {p : PendingInterrupt} {rest : List (ℤ × PendingInterrupt)}
    (h : Sound s) (hs : s.pending = (k,p) :: rest) (hk : k ≤ s.stats.totalTicks) :
    ∃ fired t mem', invoke L dev k p { s with pending := rest } mem = .ok (fired,t,mem') ∧
      Sound t ∧ SameMode s t ∧ (fired = true → t.dueCount < s.dueCount) ∧
      (fired = false → s.status = .idleMode) := by
  by_cases hidle : s.status = .idleMode ∧ p.type = .timerInt ∧ rest = []
  · refine ⟨false,_,mem,if_pos hidle,h.putBack hs,⟨rfl,rfl,rfl⟩,fun hf => ?_,fun _ => hidle.1⟩
    exact absurd hf Bool.false_ne_true
  have hkey : k = p.when := h.keys (k,p) (by rw [hs]; exact List.mem_cons_self)
  let s₁ : Interrupt := { s with
    pending := rest
    inHandler := true
    status := .systemMode
    invoked := s.invoked ++ [(p,s.stats.totalTicks)] }
  have h₁ : Sound s₁ := by
    refine ⟨h.balance,?_,fun x hx => h.keys x (by rw [hs]; exact List.mem_cons_of_mem _ hx),?_,?_,
      h.serials⟩
    · have := h.sorted
      rw [hs] at this
      exact this.of_cons
    · intro x hx
      rcases List.mem_append.mp hx with hx | hx
      · exact h.notEarly x hx
      · rw [List.mem_singleton.mp hx]
        change p.when ≤ s.stats.totalTicks
        omega
    · have honce := h.once
      rw [hs] at honce
      refine honce.trans ?_
      simp only [s₁, List.map_cons, List.map_append, List.map_nil, List.cons_append]
      rw [← List.append_assoc]
      exact (List.perm_append_singleton _ _).symm
  obtain ⟨t,hrun,ht,hm,hd⟩ := runCalls_spec (L := L) h₁ rfl (dev p s₁ mem).1
  refine ⟨true,{ t with status := s.status, inHandler := false },(dev p s₁ mem).2,?_,
    ⟨ht.balance,ht.sorted,ht.keys,ht.notEarly,ht.once,ht.serials⟩,⟨hm.level,rfl,hm.stats⟩,
    fun _ => ?_,fun hf => absurd hf.symm Bool.false_ne_true⟩
  · rw [invoke, if_neg hidle]
    simp only [s₁] at hrun
    simp only [hrun, Outcome.ok_bind, Outcome.pure_eq, s₁]
  · have hcount : s.dueCount = rest.countP (fun x => decide (x.1 ≤ s.stats.totalTicks)) + 1 := by
      simp [dueCount, hs, hk]
    have hsame : ({ t with status := s.status, inHandler := false } : Interrupt).dueCount =
        t.dueCount := rfl
    rw [hsame, hd, hcount]
    exact Nat.lt_succ_self _

variable (L dev mem) in
theorem checkIfDue_spec (h : Sound s) (hlevel : s.level = .intOff) (advanceClock : Bool) :
    ∃ fired t mem', checkIfDue L dev advanceClock s mem = .ok (fired,t,mem') ∧ Sound t ∧
      t.level = .intOff ∧ t.status = s.status ∧ s.stats.totalTicks ≤ t.stats.totalTicks ∧
      (advanceClock = false → t.stats = s.stats ∧ (fired = true → t.dueCount < s.dueCount) ∧
        (fired = false → s.status ≠ .idleMode → t.dueCount = 0)) := by
  rw [checkIfDue, if_neg (not_not.mpr hlevel)]
  cases hs : s.pending with
  | nil =>
    refine ⟨false,s,mem,rfl,h,hlevel,rfl,le_refl _,fun _ => ⟨rfl,?_,?_⟩⟩
    · exact fun hf => absurd hf Bool.false_ne_true
    · exact fun _ _ => by simp [dueCount, hs]
  | cons x rest =>
    obtain ⟨k,p⟩ := x
    by_cases hdue : k ≤ s.stats.totalTicks
    · obtain ⟨fired,t,mem',hi,ht,hm,hf,hn⟩ := invoke_spec L dev mem h hs
        hdue
      have hno : ¬ s.stats.totalTicks < k := by omega
      refine ⟨fired,t,mem',?_,ht,hm.level.trans hlevel,hm.status,by rw [hm.stats],
        fun _ => ⟨hm.stats,hf,fun he hne => absurd (hn he) hne⟩⟩
      simp only [hno, and_false, if_false]
      exact hi
    have hlate : s.stats.totalTicks < k := by omega
    cases advanceClock with
    | false =>
      refine ⟨false,_,mem,?_,h.putBack (L := L) hs,hlevel,rfl,le_refl _,fun _ => ⟨rfl,?_,fun _ _ => ?_⟩⟩
      · simp only [Bool.false_eq_true, false_and, if_false, hlate, if_true]
      · exact fun hf => absurd hf Bool.false_ne_true
      · -- the head is not due, and no key is smaller
        have hsort := h.sorted
        rw [hs] at hsort
        have hp := L.sortedInsert_perm p k rest
        simp only [dueCount, hp.countP_eq, List.countP_eq_zero, decide_eq_true_eq, not_le]
        intro x hx
        rcases List.mem_cons.mp hx with rfl | hx
        · exact hlate
        · exact lt_of_lt_of_le hlate (List.rel_of_pairwise_cons hsort hx)
    | true =>
      have h₁ : Sound { s with stats := { s.stats with
          idleTicks := s.stats.idleTicks + (k - s.stats.totalTicks), totalTicks := k } } := by
        refine ⟨?_,h.sorted,h.keys,h.notEarly,h.once,h.serials⟩
        have := h.balance
        simp only []
        omega
      obtain ⟨fired,t,mem',hi,ht,hm,-,-⟩ := invoke_spec L dev mem h₁ hs
        (le_refl k)
      refine ⟨fired,t,mem',?_,ht,hm.level.trans hlevel,hm.status,?_,fun hf =>
        absurd hf.symm Bool.false_ne_true⟩
      · simp only [hlate, and_self, if_true]
        exact hi
      · rw [hm.stats]
        exact hlate.le

end Check

section Loops
variable {L : SortedList} {μ : Type} {dev : Devices μ} {s t : Interrupt} {mem mem' : μ}

theorem drain_sound {passes : ℕ} (h : Sound s) (hlevel : s.level = .intOff)
    (hd : drain L dev passes s mem = .ok (some (t,mem'))) :
    Sound t ∧ t.stats = s.stats ∧ (s.status ≠ .idleMode → t.dueCount = 0) := by
  induction passes generalizing s mem with
  | zero => cases hd
  | succ passes ih =>
    obtain ⟨fired,u,mem₁,hc,hu,hul,hus,-,hf⟩ := checkIfDue_spec L dev mem h
      hlevel false
    obtain ⟨hstats,-,hnone⟩ := hf rfl
    rw [drain, hc] at hd
    cases fired with
    | true =>
      obtain ⟨ht,hts,hdue⟩ := ih hu hul hd
      exact ⟨ht,hts.trans hstats,fun hne => hdue (hus ▸ hne)⟩
    | false =>
      cases hd
      exact ⟨hu,hstats,hnone rfl⟩

variable (L dev mem) in
/-- By induction on the number of interrupts that are due. -/
theorem drain_terminates (h : Sound s) (hlevel : s.level = .intOff) :
    ∃ passes t mem', drain L dev passes s mem = .ok (some (t,mem')) := by
  induction hn : s.dueCount using Nat.strong_induction_on generalizing s mem with
  | _ n ih =>
    obtain ⟨fired,u,mem₁,hc,hu,hul,-,-,hf⟩ := checkIfDue_spec L dev mem h
      hlevel false
    cases fired with
    | false =>
      refine ⟨1,u,mem₁,?_⟩
      rw [drain, hc]
      rfl
    | true =>
      have hlt := (hf rfl).2.1 rfl
      obtain ⟨passes,t,mem',hd⟩ := ih u.dueCount (by omega) mem₁ hu hul rfl
      refine ⟨passes + 1,t,mem',?_⟩
      rw [drain, hc]
      exact hd

theorem Sound.advance (h : Sound s) : Sound s.advance ∧
    s.stats.totalTicks < s.advance.stats.totalTicks := by
  have hb := h.balance
  unfold Interrupt.advance
  split_ifs with hmode
  · exact ⟨⟨by simp only []; omega,h.sorted,h.keys,h.notEarly,h.once,h.serials⟩,by
      simp [systemTick]⟩
  · exact ⟨⟨by simp only []; omega,h.sorted,h.keys,h.notEarly,h.once,h.serials⟩,by
      simp [userTick]⟩

theorem status_advance (s : Interrupt) : s.advance.status = s.status := by
  unfold advance
  split_ifs <;> rfl

theorem Sound.setLevel (h : Sound s) (now : IntStatus) : Sound { s with level := now } :=
  ⟨h.balance,h.sorted,h.keys,h.notEarly,h.once,h.serials⟩

theorem Sound.setStatus (h : Sound s) (st : MachineStatus) : Sound { s with status := st } :=
  ⟨h.balance,h.sorted,h.keys,h.notEarly,h.once,h.serials⟩

/-- Nothing is due any more, unless the machine was idle. -/
theorem oneTick_sound {passes : ℕ} {old : Option MachineStatus} (h : Sound s)
    (ht : oneTick L dev passes s mem = .ok (some (t,old,mem'))) :
    Sound t ∧ s.stats.totalTicks ≤ t.stats.totalTicks ∧
      (s.status ≠ .idleMode → t.dueCount = 0) := by
  obtain ⟨ha,hlt⟩ := h.advance
  obtain ⟨r,hd,ht⟩ := Outcome.bind_eq_ok.mp ht
  cases r with
  | none => cases ht
  | some r =>
    obtain ⟨u,mem₁⟩ := r
    obtain ⟨hu,hstats,hdue⟩ := drain_sound (ha.setLevel .intOff) rfl hd
    have htotal : s.stats.totalTicks ≤ u.stats.totalTicks := by
      rw [hstats]
      exact hlt.le
    have hdue : s.status ≠ .idleMode → u.dueCount = 0 := fun hne =>
      hdue (by simpa [status_advance] using hne)
    simp only [] at ht
    split_ifs at ht
    · cases ht
      exact ⟨⟨hu.balance,hu.sorted,hu.keys,hu.notEarly,hu.once,hu.serials⟩,htotal,hdue⟩
    · cases ht
      exact ⟨hu.setLevel .intOn,htotal,hdue⟩

variable (L dev mem) in
theorem oneTick_terminates (h : Sound s) :
    ∃ passes t old mem', oneTick L dev passes s mem = .ok (some (t,old,mem')) := by
  obtain ⟨passes,u,mem₁,hd⟩ := drain_terminates L dev mem
    (h.advance.1.setLevel .intOff) rfl
  have hres : ∃ r, oneTick L dev passes s mem = .ok (some r) := by
    simp only [oneTick, hd, Outcome.ok_bind, Outcome.pure_eq]
    split_ifs <;> exact ⟨_,rfl⟩
  obtain ⟨⟨t,old,mem'⟩,hr⟩ := hres
  exact ⟨passes,t,old,mem',hr⟩

theorem idle_sound {passes : ℕ} {awake : Bool} (h : Sound s)
    (ht : idle L dev passes s mem = .ok (some (awake,t,mem'))) :
    Sound t ∧ s.stats.totalTicks ≤ t.stats.totalTicks := by
  by_cases hlevel : s.level = .intOff
  · obtain ⟨fired,u,mem₁,hc,hu,hul,-,hle,-⟩ := checkIfDue_spec L dev mem
      (h.setStatus .idleMode) hlevel true
    rw [idle, hc, Outcome.ok_bind] at ht
    cases fired with
    | false =>
      cases ht
      exact ⟨hu,hle⟩
    | true =>
      simp only [if_true] at ht
      obtain ⟨r,hd,ht⟩ := Outcome.bind_eq_ok.mp ht
      cases r with
      | none => cases ht
      | some r =>
        obtain ⟨v,mem₂⟩ := r
        obtain ⟨hv,hstats,-⟩ := drain_sound hu hul hd
        cases ht
        exact ⟨⟨hv.balance,hv.sorted,hv.keys,hv.notEarly,hv.once,hv.serials⟩,by
          rw [hstats]; exact hle⟩
  · rw [idle, checkIfDue, if_pos hlevel] at ht
    cases ht

end Loops

end Nachos.Interrupt

namespace Nachos

/-- The machine with the memory of the devices, the statuses of the threads that have
yielded inside `OneTick`, and whether it has halted. -/
structure Kernel (μ : Type) where
  interrupt : Interrupt
  mem : μ
  yielded : List MachineStatus
  halted : Bool

inductive KernelCall (μ : Type) where
  | schedule (handler : ℕ) (arg fromNow : ℤ) (type : IntType)
  | oneTick
  | idle
  | setLevel (now : IntStatus)
  | setStatus (st : MachineStatus)
  /-- `Yield` returns in the thread in place `k`. -/
  | resume (k : ℕ)
  /-- Code outside of handlers works on the devices. -/
  | device (mem : μ)

section Runs
variable (L : SortedList) {μ : Type} (dev : Devices μ)

inductive Kernel.Step (s : Kernel μ) : KernelCall μ → Kernel μ → Prop
  | schedule {handler : ℕ} {arg fromNow : ℤ} {type : IntType} {t : Interrupt} :
      s.interrupt.schedule L handler arg fromNow type = .ok t →
      Step s (.schedule handler arg fromNow type) { s with interrupt := t }
  | oneTick {passes : ℕ} {t : Interrupt} {old : Option MachineStatus} {mem : μ} :
      s.interrupt.oneTick L dev passes s.mem = .ok (some (t,old,mem)) →
      Step s .oneTick { s with interrupt := t, mem := mem, yielded := s.yielded ++ old.toList }
  | idle {passes : ℕ} {t : Interrupt} {awake : Bool} {mem : μ} :
      s.interrupt.idle L dev passes s.mem = .ok (some (awake,t,mem)) →
      Step s .idle { s with interrupt := t, mem := mem, halted := !awake }
  | setLevel {now : IntStatus} {passes : ℕ} {t : Interrupt} {old : Option MachineStatus} {mem : μ} :
      s.interrupt.setLevel L dev passes now s.mem = .ok (some (t,old,mem)) →
      Step s (.setLevel now)
        { s with interrupt := t, mem := mem, yielded := s.yielded ++ old.toList }
  | setStatus {st : MachineStatus} :
      Step s (.setStatus st) { s with interrupt := { s.interrupt with status := st } }
  | resume {k : ℕ} {old : MachineStatus} : s.yielded[k]? = some old →
      Step s (.resume k) { s with
        interrupt := { s.interrupt with status := old }
        yielded := s.yielded.eraseIdx k }
  | device {mem : μ} : Step s (.device mem) { s with mem := mem }

/-- A machine runs until it halts. -/
def kernels : TransitionSystem (Kernel μ) (KernelCall μ) where
  init s := s.interrupt = .new ∧ s.yielded = [] ∧ s.halted = false
  step s l t := s.halted = false ∧ Kernel.Step L dev s l t

end Runs

section
variable {L : SortedList} {μ : Type} {dev : Devices μ} {s t : Kernel μ}

theorem Kernel.Step.sound {l : KernelCall μ} (hs : Kernel.Step L dev s l t)
    (h : s.interrupt.Sound) :
    t.interrupt.Sound ∧ s.interrupt.stats.totalTicks ≤ t.interrupt.stats.totalTicks := by
  cases hs with
  | schedule hs =>
    rename_i handler arg fromNow type u
    by_cases hpos : 0 < fromNow
    · obtain ⟨v,hv,hsound,hm,-⟩ := Interrupt.schedule_spec (L := L) h handler arg type hpos
      rw [hs] at hv
      cases hv
      exact ⟨hsound,le_of_eq (by rw [hm.stats])⟩
    · rw [Interrupt.schedule, if_neg hpos] at hs
      cases hs
  | oneTick hs =>
    obtain ⟨hsound,hle,-⟩ := Interrupt.oneTick_sound h hs
    exact ⟨hsound,hle⟩
  | idle hs => exact Interrupt.idle_sound h hs
  | setLevel hs =>
    rename_i now passes u old mem
    unfold Interrupt.setLevel at hs
    simp only [] at hs
    split_ifs at hs
    · obtain ⟨hsound,hle,-⟩ := Interrupt.oneTick_sound (h.setLevel now) hs
      exact ⟨hsound,hle⟩
    · cases hs
      exact ⟨h.setLevel now,le_refl _⟩
  | setStatus => exact ⟨h.setStatus _,le_refl _⟩
  | resume _ => exact ⟨h.setStatus _,le_refl _⟩
  | device => exact ⟨h,le_refl _⟩

theorem sound_of_run (h : (kernels L dev).Reachable s) : s.interrupt.Sound := by
  refine h.invariant (P := fun s => s.interrupt.Sound) (fun s hs => ?_) fun s l t h hs => ?_
  · rw [hs.1]
    exact Interrupt.Sound.new
  · exact (hs.2.sound h).1

/-- The clock adds up and never goes back, no handler is called before its time, every
interrupt that was scheduled is pending or was handled once, and a tick of a machine that
is not idle returns and leaves nothing that is due. -/
theorem interruptQueue (h : (kernels L dev).Reachable s) :
    (s.interrupt.stats.totalTicks = s.interrupt.stats.idleTicks +
        s.interrupt.stats.systemTicks + s.interrupt.stats.userTicks ∧
      ∀ l t, (kernels L dev).step s l t →
        s.interrupt.stats.totalTicks ≤ t.interrupt.stats.totalTicks) ∧
    (∀ x ∈ s.interrupt.invoked, x.1.when ≤ x.2) ∧
    (s.interrupt.scheduled.Perm
        (s.interrupt.pending.map Prod.snd ++ s.interrupt.invoked.map Prod.fst) ∧
      s.interrupt.scheduled.Nodup) ∧
    (s.interrupt.status ≠ .idleMode → ∃ passes t old mem,
      s.interrupt.oneTick L dev passes s.mem = .ok (some (t,old,mem)) ∧
      ∀ x ∈ t.pending, t.stats.totalTicks < x.2.when) := by
  have hs := sound_of_run h
  refine ⟨⟨hs.balance,fun l t ht => (ht.2.sound hs).2⟩,hs.notEarly,⟨hs.once,?_⟩,fun hidle => ?_⟩
  · refine List.Nodup.of_map PendingInterrupt.serial ?_
    rw [hs.serials]
    exact List.nodup_range
  · obtain ⟨passes,t,old,mem,ht⟩ := Interrupt.oneTick_terminates L dev s.mem hs
    obtain ⟨hsound,-,hdue⟩ := Interrupt.oneTick_sound hs ht
    refine ⟨passes,t,old,mem,ht,fun x hx => ?_⟩
    have hnone := List.countP_eq_zero.mp (hdue hidle) x hx
    rw [← hsound.keys x hx]
    simpa using hnone

end

abbrev KeyLE (a b : ℤ × PendingInterrupt) : Prop := a.1 ≤ b.1

instance : Std.Total KeyLE := ⟨fun a b => le_total a.1 b.1⟩
instance : IsTrans _ KeyLE := ⟨fun _ _ _ => le_trans⟩

def SortedList.ordered : SortedList where
  sortedInsert p k l := l.orderedInsert KeyLE (k,p)
  sortedInsert_perm p k l := l.perm_orderedInsert KeyLE (k,p)
  sortedInsert_sorted p k _ h := h.orderedInsert (k,p)

/-- A timer whose handler asks for a switch and schedules the next one. -/
def timerDevice : Devices Unit := fun p _ mem =>
  ([.yieldOnReturn,.schedule p.handler p.arg 100 .timerInt (by decide)],mem)

/-- Ten ticks of the kernel, with a timer that is due at tick 5. -/
theorem interruptQueue_timer : ∃ s : Kernel Unit,
    (∃ p, s.interrupt.pending = [(5,p)] ∧ s.interrupt.status ≠ .idleMode) ∧
    ∃ passes t old mem, s.interrupt.oneTick .ordered timerDevice passes s.mem =
      .ok (some (t,old,mem)) ∧ ∀ x ∈ t.pending, t.stats.totalTicks < x.2.when := by
  have hrun : (kernels .ordered timerDevice).Reachable ⟨.new,(),[],false⟩ :=
    .start ⟨rfl,rfl,rfl⟩
  have hrun := hrun.step (l := .schedule 0 0 5 .timerInt) ⟨rfl,.schedule rfl⟩
  exact ⟨_,⟨_,rfl,by decide⟩,(interruptQueue hrun).2.2.2 (by decide)⟩

end Nachos
