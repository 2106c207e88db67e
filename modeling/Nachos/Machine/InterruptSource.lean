import Nachos.Machine.InterruptQueue

/-! # Interrupt sources

A device is known to the queue by its handler and the object it is called for. What holds of the
interrupts that the device has in the queue, of the times at which its handler was called and of
its memory need only be looked at when that handler runs: other devices leave it alone.
-/
namespace Nachos

namespace Interrupt
variable (L : SortedList) {μ : Type} (dev : Devices μ)

/-- The head of the queue is taken, and its handler is about to be called. -/
def enter (s : Interrupt) (p : PendingInterrupt) (rest : List (ℤ × PendingInterrupt)) :
    Interrupt :=
  { s with
    pending := rest
    inHandler := true
    status := .systemMode
    invoked := s.invoked ++ [(p,s.stats.totalTicks)] }

/-- What depends on the queue and on the calls made so far, and survives any handler. -/
structure Kept (P : Interrupt → μ → Prop) : Prop where
  queue : ∀ {s t mem}, P s mem → t.pending.Perm s.pending → t.invoked = s.invoked → P t mem
  handler : ∀ {s mem k p rest t}, Sound s → P s mem → s.pending = (k,p) :: rest →
    k ≤ s.stats.totalTicks →
    (s.enter p rest).runCalls L (dev p (s.enter p rest) mem).1 = .ok t →
    P t (dev p (s.enter p rest) mem).2

namespace Kept
variable {L dev} {P : Interrupt → μ → Prop} {s t : Interrupt} {mem mem' : μ} {passes : ℕ}

theorem invoke {k : ℤ} {p : PendingInterrupt} {rest : List (ℤ × PendingInterrupt)} {fired : Bool}
    (hP : Kept L dev P) (h : Sound s) (hs : P s mem) (hpending : s.pending = (k,p) :: rest)
    (hk : k ≤ s.stats.totalTicks)
    (hi : Interrupt.invoke L dev k p { s with pending := rest } mem = .ok (fired,t,mem')) :
    P t mem' := by
  unfold Interrupt.invoke at hi
  simp only [] at hi
  split_ifs at hi
  · cases hi
    refine hP.queue hs ?_ rfl
    rw [hpending]
    exact L.sortedInsert_perm p k rest
  · obtain ⟨u,hu,hi⟩ := Outcome.bind_eq_ok.mp hi
    cases hi
    exact hP.queue (hP.handler h hs hpending hk hu) (.refl _) rfl

theorem checkIfDue {advanceClock fired : Bool} (hP : Kept L dev P) (h : Sound s) (hs : P s mem)
    (hc : Interrupt.checkIfDue L dev advanceClock s mem = .ok (fired,t,mem')) : P t mem' := by
  unfold Interrupt.checkIfDue at hc
  split_ifs at hc
  cases hpending : s.pending with
  | nil =>
    rw [hpending] at hc
    cases hc
    exact hs
  | cons x rest =>
    obtain ⟨k,p⟩ := x
    rw [hpending] at hc
    simp only [] at hc
    split_ifs at hc with hadvance hlate
    · have h' : Sound { s with stats := { s.stats with
          idleTicks := s.stats.idleTicks + (k - s.stats.totalTicks), totalTicks := k } } := by
        refine ⟨?_,h.sorted,h.keys,h.notEarly,h.once,h.serials⟩
        have := h.balance
        simp only []
        omega
      exact hP.invoke h' (hP.queue hs (.refl _) rfl) hpending (le_refl k) hc
    · cases hc
      refine hP.queue hs ?_ rfl
      rw [hpending]
      exact L.sortedInsert_perm p k rest
    · exact hP.invoke h hs hpending (not_lt.mp hlate) hc

theorem drain (hP : Kept L dev P) (h : Sound s) (hlevel : s.level = .intOff) (hs : P s mem)
    (hd : Interrupt.drain L dev passes s mem = .ok (some (t,mem'))) : P t mem' := by
  induction passes generalizing s mem with
  | zero => cases hd
  | succ passes ih =>
    obtain ⟨fired,u,mem₁,hc,hu,hul,-⟩ := checkIfDue_spec L dev mem h hlevel false
    have hPu := hP.checkIfDue h hs hc
    rw [Interrupt.drain, hc] at hd
    cases fired with
    | true => exact ih hu hul hPu hd
    | false =>
      cases hd
      exact hPu

theorem advance (hP : Kept L dev P) (hs : P s mem) : P s.advance mem := by
  refine hP.queue hs ?_ ?_ <;> unfold Interrupt.advance <;> split_ifs <;> rfl

theorem oneTick {old : Option MachineStatus} (hP : Kept L dev P) (h : Sound s) (hs : P s mem)
    (ht : Interrupt.oneTick L dev passes s mem = .ok (some (t,old,mem'))) : P t mem' := by
  obtain ⟨r,hd,ht⟩ := Outcome.bind_eq_ok.mp ht
  cases r with
  | none => cases ht
  | some r =>
    obtain ⟨u,mem₁⟩ := r
    have hPu := hP.drain (h.advance.1.setLevel .intOff) rfl
      (hP.queue (hP.advance hs) (.refl _) rfl) hd
    simp only [] at ht
    split_ifs at ht <;> cases ht <;> exact hP.queue hPu (.refl _) rfl

theorem idle {awake : Bool} (hP : Kept L dev P) (h : Sound s) (hs : P s mem)
    (ht : Interrupt.idle L dev passes s mem = .ok (some (awake,t,mem'))) : P t mem' := by
  obtain ⟨⟨fired,u,mem₁⟩,hc,ht⟩ := Outcome.bind_eq_ok.mp ht
  have hPu := hP.checkIfDue (h.setStatus .idleMode) (hP.queue hs (.refl _) rfl) hc
  by_cases hlevel : s.level = .intOff
  · obtain ⟨fired',u',mem',hc',hu,hul,-⟩ := checkIfDue_spec L dev mem
      (h.setStatus .idleMode) hlevel true
    rw [hc] at hc'
    cases hc'
    cases fired with
    | false =>
      cases ht
      exact hPu
    | true =>
      simp only [if_true] at ht
      obtain ⟨r,hd,ht⟩ := Outcome.bind_eq_ok.mp ht
      cases r with
      | none => cases ht
      | some r =>
        cases ht
        exact hP.queue (hP.drain hu hul hPu hd) (.refl _) rfl
  · rw [Interrupt.checkIfDue, if_pos hlevel] at hc
    cases hc

theorem step {l : KernelCall μ} {s t : Kernel μ} (hP : Kept L dev P)
    (hs : Kernel.Step L dev s l t) (h : s.interrupt.Sound) (hPs : P s.interrupt s.mem)
    (hschedule : ∀ handler arg fromNow type u, l = .schedule handler arg fromNow type →
      s.interrupt.schedule L handler arg fromNow type = .ok u → P u s.mem)
    (hdevice : ∀ mem, l = .device mem → P s.interrupt mem) : P t.interrupt t.mem := by
  cases hs with
  | schedule hs => exact hschedule _ _ _ _ _ rfl hs
  | oneTick ht => exact hP.oneTick h hPs ht
  | idle ht => exact hP.idle h hPs ht
  | setLevel ht =>
    rename_i now passes u old mem
    unfold Interrupt.setLevel at ht
    simp only [] at ht
    split_ifs at ht
    · exact hP.oneTick (h.setLevel now) (hP.queue hPs (.refl _) rfl) ht
    · cases ht
      exact hP.queue hPs (.refl _) rfl
  | setStatus => exact hP.queue hPs (.refl _) rfl
  | resume _ => exact hP.queue hPs (.refl _) rfl
  | device => exact hdevice _ rfl

end Kept

section Idle
variable {L : SortedList} {μ : Type} {dev : Devices μ} {s t : Interrupt} {mem mem' : μ}
  {passes : ℕ} {fired : Bool}

/-- When nothing is handled, nothing is due, or only timers are left to an idle machine. -/
theorem checkIfDue_stops (h : Sound s)
    (hc : checkIfDue L dev false s mem = .ok (false,t,mem')) :
    (∀ x ∈ t.pending, t.stats.totalTicks < x.1) ∨ ∀ x ∈ t.pending, x.2.type = .timerInt := by
  unfold checkIfDue at hc
  split_ifs at hc
  cases hpending : s.pending with
  | nil =>
    rw [hpending] at hc
    cases hc
    left
    rw [hpending]
    exact fun x hx => absurd hx List.not_mem_nil
  | cons x rest =>
    obtain ⟨k,p⟩ := x
    rw [hpending] at hc
    simp only [false_and, if_false] at hc
    split_ifs at hc with hlate
    · cases hc
      left
      have hsorted := h.sorted
      rw [hpending] at hsorted
      intro x hx
      rcases List.mem_cons.mp ((L.sortedInsert_perm p k rest).mem_iff.mp hx) with rfl | hx
      · exact hlate
      · exact lt_of_lt_of_le hlate (List.rel_of_pairwise_cons hsorted hx)
    · unfold invoke at hc
      simp only [] at hc
      split_ifs at hc with hidle
      · cases hc
        right
        obtain ⟨-,htimer,rfl⟩ := hidle
        intro x hx
        obtain rfl := List.mem_singleton.mp ((L.sortedInsert_perm p k []).mem_iff.mp hx)
        exact htimer
      · obtain ⟨v,-,hc⟩ := Outcome.bind_eq_ok.mp hc
        cases hc

theorem drain_stops (h : Sound s) (hlevel : s.level = .intOff)
    (hd : drain L dev passes s mem = .ok (some (t,mem'))) :
    (∀ x ∈ t.pending, t.stats.totalTicks < x.1) ∨ ∀ x ∈ t.pending, x.2.type = .timerInt := by
  induction passes generalizing s mem with
  | zero => cases hd
  | succ passes ih =>
    obtain ⟨fired,u,mem₁,hc,hu,hul,-⟩ := checkIfDue_spec L dev mem h hlevel false
    rw [drain, hc] at hd
    cases fired with
    | true => exact ih hu hul hd
    | false =>
      cases hd
      exact checkIfDue_stops h hc

/-- The head of the queue is handled unless it is a timer and the last one. -/
theorem invoke_fires {k : ℤ} {p : PendingInterrupt} {rest : List (ℤ × PendingInterrupt)}
    (h : Sound s) (hpending : s.pending = (k,p) :: rest) (hk : k ≤ s.stats.totalTicks)
    (hmore : p.type ≠ .timerInt ∨ rest ≠ [])
    (hi : invoke L dev k p { s with pending := rest } mem = .ok (fired,t,mem')) :
    fired = true ∧ t.stats = s.stats := by
  obtain ⟨fired',t',mem₁,hi',-,hmode,-⟩ := invoke_spec L dev mem h hpending hk
  rw [hi] at hi'
  cases hi'
  refine ⟨?_,hmode.stats⟩
  unfold invoke at hi
  simp only [] at hi
  rw [if_neg (by rintro ⟨-,htimer,hnil⟩; exact hmore.elim (· htimer) (· hnil))] at hi
  obtain ⟨v,-,hi⟩ := Outcome.bind_eq_ok.mp hi
  cases hi
  rfl

/-- With something other than a timer in the queue, the clock goes on to the next interrupt. -/
theorem checkIfDue_fires {x : ℤ × PendingInterrupt} (h : Sound s) (hx : x ∈ s.pending)
    (htype : x.2.type ≠ .timerInt)
    (hc : checkIfDue L dev true s mem = .ok (fired,t,mem')) :
    fired = true ∧
      ((∀ y ∈ s.pending, s.stats.totalTicks < y.1) → s.stats.totalTicks < t.stats.totalTicks) := by
  unfold checkIfDue at hc
  split_ifs at hc
  cases hpending : s.pending with
  | nil => exact absurd (hpending ▸ hx) List.not_mem_nil
  | cons y rest =>
    obtain ⟨k,p⟩ := y
    have hmore : p.type ≠ .timerInt ∨ rest ≠ [] := by
      rw [hpending] at hx
      rcases List.mem_cons.mp hx with rfl | hx
      · exact .inl htype
      · exact .inr (List.ne_nil_of_mem hx)
    rw [hpending] at hc
    simp only [true_and] at hc
    split_ifs at hc with hlate
    · have h' : Sound { s with stats := { s.stats with
          idleTicks := s.stats.idleTicks + (k - s.stats.totalTicks), totalTicks := k } } := by
        refine ⟨?_,h.sorted,h.keys,h.notEarly,h.once,h.serials⟩
        have := h.balance
        simp only []
        omega
      obtain ⟨hfired,hstats⟩ := invoke_fires h' hpending (le_refl k) hmore hc
      refine ⟨hfired,fun _ => ?_⟩
      rw [hstats]
      exact hlate
    · obtain ⟨hfired,-⟩ := invoke_fires h hpending (not_lt.mp hlate) hmore hc
      exact ⟨hfired,fun hall => absurd (hall (k,p) List.mem_cons_self) hlate⟩

/-- `Idle` does not halt while something other than a timer is in the queue. After it either that
has been handled or nothing is due, and if nothing was due before the clock has advanced. -/
theorem idle_wakes {x : ℤ × PendingInterrupt} {awake : Bool} (h : Sound s) (hx : x ∈ s.pending)
    (htype : x.2.type ≠ .timerInt)
    (ht : idle L dev passes s mem = .ok (some (awake,t,mem'))) :
    awake = true ∧ (x ∈ t.pending → ∀ y ∈ t.pending, t.stats.totalTicks < y.1) ∧
      ((∀ y ∈ s.pending, s.stats.totalTicks < y.1) → s.stats.totalTicks < t.stats.totalTicks) := by
  obtain ⟨⟨fired,u,mem₁⟩,hc,ht⟩ := Outcome.bind_eq_ok.mp ht
  obtain ⟨rfl,hclock⟩ := checkIfDue_fires (h.setStatus .idleMode) hx htype hc
  by_cases hlevel : s.level = .intOff
  · obtain ⟨fired,u',mem₂,hc',hu,hul,-⟩ := checkIfDue_spec L dev mem (h.setStatus .idleMode)
      hlevel true
    rw [hc] at hc'
    cases hc'
    simp only [if_true] at ht
    obtain ⟨r,hd,ht⟩ := Outcome.bind_eq_ok.mp ht
    cases r with
    | none => cases ht
    | some r =>
      obtain ⟨v,mem₃⟩ := r
      obtain ⟨-,hstats,-⟩ := drain_sound hu hul hd
      have hstops := drain_stops hu hul hd
      cases ht
      refine ⟨rfl,fun hstill => ?_,fun hall => ?_⟩
      · exact hstops.resolve_right fun htimers => htype (htimers x hstill)
      · change s.stats.totalTicks < v.stats.totalTicks
        rw [hstats]
        exact hclock hall
  · rw [checkIfDue, if_pos hlevel] at hc
    cases hc

end Idle

theorem schedule_perm {L : SortedList} {s u : Interrupt} {handler : ℕ} {arg fromNow : ℤ}
    {type : IntType} (hs : s.schedule L handler arg fromNow type = .ok u) :
    0 < fromNow ∧ u.invoked = s.invoked ∧ u.stats = s.stats ∧
    ∃ q : PendingInterrupt, q.handler = handler ∧ q.arg = arg ∧ q.type = type ∧
      q.when = s.stats.totalTicks + fromNow ∧ u.pending.Perm ((q.when,q) :: s.pending) := by
  unfold Interrupt.schedule at hs
  simp only [] at hs
  split_ifs at hs with hpos
  cases hs
  exact ⟨hpos,rfl,rfl,⟨s.scheduled.length,handler,arg,s.stats.totalTicks + fromNow,type⟩,rfl,rfl,
    rfl,rfl,L.sortedInsert_perm _ _ _⟩

end Interrupt

/-- A handler, and the object that it is called for. -/
structure InterruptSource where
  handler : ℕ
  object : ℤ

namespace InterruptSource
variable (src : InterruptSource)

def Owns (p : PendingInterrupt) : Prop := p.handler = src.handler ∧ p.arg = src.object

instance : DecidablePred src.Owns := fun _ => inferInstanceAs (Decidable (_ ∧ _))

def waiting (s : Interrupt) : List PendingInterrupt :=
  (s.pending.map Prod.snd).filter fun p => src.Owns p

def calls (s : Interrupt) : List ℤ := (s.invoked.filter fun x => src.Owns x.1).map Prod.snd

/-- When a handler asks for an interrupt of the source, after how many ticks, and the type. -/
def request : HandlerCall → Option (ℤ × IntType)
  | .yieldOnReturn => none
  | .schedule handler arg fromNow type _ =>
    if handler = src.handler ∧ arg = src.object then some (fromNow,type) else none

def Requested (now : ℤ) (asked : List (ℤ × IntType)) (new : List PendingInterrupt) : Prop :=
  new.map (fun p => (p.when,p.type)) = asked.map fun x => (now + x.1,x.2)

/-- Code outside of the handlers schedules no interrupt of the source. -/
def Alone {μ : Type} : KernelCall μ → Prop
  | .schedule handler arg _ _ => ¬ (handler = src.handler ∧ arg = src.object)
  | _ => True

variable {src} {L : SortedList} {s u : Interrupt}

theorem waiting_perm (h : u.pending.Perm s.pending) : (src.waiting u).Perm (src.waiting s) :=
  (h.map _).filter _

variable (src) in
theorem waiting_cons {k : ℤ} {p : PendingInterrupt} {rest : List (ℤ × PendingInterrupt)}
    (h : s.pending = (k,p) :: rest) :
    src.waiting s = if src.Owns p then p :: src.waiting { s with pending := rest }
      else src.waiting { s with pending := rest } := by
  simp only [waiting, h, List.map_cons, List.filter_cons, decide_eq_true_eq]

variable (src) in
theorem waiting_schedule {handler : ℕ} {arg fromNow : ℤ} {type : IntType}
    (hs : s.schedule L handler arg fromNow type = .ok u) :
    ∃ new, (src.waiting u).Perm (src.waiting s ++ new) ∧
      (if handler = src.handler ∧ arg = src.object then
        ∃ q, new = [q] ∧ q.when = s.stats.totalTicks + fromNow ∧ q.type = type else new = []) := by
  obtain ⟨-,-,-,q,rfl,rfl,htype,hwhen,hp⟩ := Interrupt.schedule_perm hs
  have hperm : (src.waiting u).Perm (src.waiting { s with pending := (q.when,q) :: s.pending }) :=
    waiting_perm hp
  rw [waiting_cons src (s := { s with pending := (q.when,q) :: s.pending }) rfl] at hperm
  by_cases hq : src.Owns q
  · rw [if_pos hq] at hperm
    refine ⟨[q],hperm.trans (List.perm_append_singleton _ _).symm,?_⟩
    rw [if_pos (show _ ∧ _ from hq)]
    exact ⟨q,rfl,hwhen,htype⟩
  · rw [if_neg hq] at hperm
    refine ⟨[],by simpa using hperm,?_⟩
    rw [if_neg (show ¬ (_ ∧ _) from hq)]

variable (src) in
/-- What the calls of a handler add to the queue. -/
theorem waiting_runCalls {cs : List HandlerCall} (hs : s.runCalls L cs = .ok u) :
    u.invoked = s.invoked ∧ ∃ new, (src.waiting u).Perm (src.waiting s ++ new) ∧
      Requested s.stats.totalTicks (cs.filterMap src.request) new := by
  induction cs generalizing s with
  | nil =>
    cases hs
    exact ⟨rfl,[],by simp,rfl⟩
  | cons c cs ih =>
    cases c with
    | yieldOnReturn =>
      obtain ⟨v,hv,hs⟩ := Outcome.bind_eq_ok.mp hs
      unfold Interrupt.requestYield at hv
      split_ifs at hv
      cases hv
      have htail := ih (s := { s with yieldOnReturn := true }) hs
      exact htail
    | schedule handler arg fromNow type hpos =>
      obtain ⟨v,hv,hs⟩ := Outcome.bind_eq_ok.mp hs
      obtain ⟨-,hi,hstats,-⟩ := Interrupt.schedule_perm hv
      obtain ⟨new,hperm,hnew⟩ := waiting_schedule src hv
      obtain ⟨hi',new',hperm',hnew'⟩ := ih hs
      refine ⟨hi'.trans hi,new ++ new',?_,?_⟩
      · rw [← List.append_assoc]
        exact hperm'.trans (hperm.append_right new')
      · rw [hstats] at hnew'
        by_cases hown : handler = src.handler ∧ arg = src.object
        · rw [if_pos hown] at hnew
          obtain ⟨q,rfl,hwhen,htype⟩ := hnew
          simpa [Requested, request, hown, hwhen, htype] using hnew'
        · rw [if_neg hown] at hnew
          simpa [Requested, request, hown, hnew] using hnew'

section Rule
variable {μ : Type} {dev : Devices μ} {Q : List PendingInterrupt → List ℤ → μ → Prop}

/-- What is to be shown of a device: every handler keeps `Q`, with the interrupts that it asks for
added to the queue. -/
structure Guards (src : InterruptSource) (dev : Devices μ)
    (Q : List PendingInterrupt → List ℤ → μ → Prop) : Prop where
  perm : ∀ {w w' c mem}, w.Perm w' → Q w c mem → Q w' c mem
  other : ∀ {p s mem w c new}, ¬ src.Owns p → Q w c mem →
    Requested s.stats.totalTicks ((dev p s mem).1.filterMap src.request) new →
    Q (w ++ new) c (dev p s mem).2
  own : ∀ {p s mem w c new}, src.Owns p → p.when ≤ s.stats.totalTicks → Q (p :: w) c mem →
    Requested s.stats.totalTicks ((dev p s mem).1.filterMap src.request) new →
    Q (w ++ new) (c ++ [s.stats.totalTicks]) (dev p s mem).2

theorem requested_nil {now : ℤ} {new : List PendingInterrupt} (h : Requested now [] new) :
    new = [] := List.map_eq_nil_iff.mp h

/-- A device whose interrupts no other handler asks for. -/
theorem guards_of_foreign
    (hperm : ∀ {w w' c mem}, w.Perm w' → Q w c mem → Q w' c mem)
    (hother : ∀ {p s mem w c}, ¬ src.Owns p → Q w c mem →
      Q w c (dev p s mem).2 ∧ (dev p s mem).1.filterMap src.request = [])
    (hown : ∀ {p s mem w c new}, src.Owns p → p.when ≤ s.stats.totalTicks → Q (p :: w) c mem →
      Requested s.stats.totalTicks ((dev p s mem).1.filterMap src.request) new →
      Q (w ++ new) (c ++ [s.stats.totalTicks]) (dev p s mem).2) : src.Guards dev Q := by
  refine ⟨hperm,fun {p s mem w c new} hp hQ hnew => ?_,hown⟩
  obtain ⟨hQ',hnone⟩ := hother (s := s) hp hQ
  rw [hnone] at hnew
  rw [requested_nil hnew, List.append_nil]
  exact hQ'

theorem Guards.kept (h : Guards src dev Q) :
    Interrupt.Kept L dev fun s mem => Q (src.waiting s) (src.calls s) mem := by
  refine ⟨fun hQ hp hi => ?_,fun {s mem k p rest t} hsound hQ hpending hk hrun => ?_⟩
  · rw [calls, hi]
    exact h.perm (waiting_perm hp).symm hQ
  · have hkey : k = p.when := hsound.keys (k,p) (by rw [hpending]; exact List.mem_cons_self)
    obtain ⟨hi,new,hperm,hnew⟩ := waiting_runCalls src hrun
    have hentered : src.waiting (s.enter p rest) = src.waiting { s with pending := rest } := rfl
    have hwait := waiting_cons src hpending
    refine h.perm hperm.symm ?_
    by_cases hp : src.Owns p
    · rw [if_pos hp] at hwait
      have hcalls : src.calls t = src.calls s ++ [s.stats.totalTicks] := by
        rw [calls, hi]
        simp [calls, Interrupt.enter, List.filter_append, hp]
      rw [hcalls, hentered]
      refine h.own hp (hkey ▸ hk) ?_ hnew
      rwa [← hwait]
    · rw [if_neg hp] at hwait
      have hcalls : src.calls t = src.calls s := by
        rw [calls, hi]
        simp [calls, Interrupt.enter, List.filter_append, hp]
      rw [hcalls, hentered, ← hwait]
      exact h.other (s := s.enter p rest) hp hQ hnew

end Rule

def lastCall (start : ℤ) (cs : List ℤ) : ℤ := (start :: cs).getLast (by simp)

/-- One interrupt is in the queue, between `lo` and `hi` ticks after the last call, and no two
calls were closer than that. -/
structure Periodic (type : IntType) (lo hi start : ℤ) (w : List PendingInterrupt) (cs : List ℤ) :
    Prop where
  spaced : (start :: cs).IsChain fun a b => a + lo ≤ b
  next : ∃ p, w = [p] ∧ p.type = type ∧ lastCall start cs + lo ≤ p.when ∧
    p.when ≤ lastCall start cs + hi

theorem periodic_guards {μ : Type} {dev : Devices μ} {type : IntType} {lo hi : ℤ}
    (hother : ∀ p s mem, ¬ src.Owns p → (dev p s mem).1.filterMap src.request = [])
    (hown : ∀ p s mem, src.Owns p → ∃ n,
      (dev p s mem).1.filterMap src.request = [(n,type)] ∧ lo ≤ n ∧ n ≤ hi) (start : ℤ) :
    Guards src dev fun w cs _ => Periodic type lo hi start w cs := by
  refine guards_of_foreign (fun hp h => ?_) (fun hp h => ⟨h,hother _ _ _ hp⟩)
    fun {p s mem w c new} hp hdue h hnew => ?_
  · obtain ⟨q,rfl,hq⟩ := h.next
    exact ⟨h.spaced,q,List.singleton_perm.mp hp |>.symm,hq⟩
  · obtain ⟨q,hq,-,hlow,-⟩ := h.next
    obtain ⟨rfl,rfl⟩ := List.cons.inj hq
    obtain ⟨n,hcalls,hlo,hhi⟩ := hown p s mem hp
    rw [hcalls] at hnew
    obtain ⟨r,rfl,hr⟩ := List.map_eq_singleton_iff.mp hnew
    have hwhen : r.when = s.stats.totalTicks + n := congrArg Prod.fst hr
    have hlast : lastCall start (c ++ [s.stats.totalTicks]) = s.stats.totalTicks := by
      simp only [lastCall, ← List.cons_append, List.getLast_append_singleton]
    refine ⟨?_,r,rfl,congrArg Prod.snd hr,?_,?_⟩
    · rw [← List.cons_append]
      refine List.IsChain.append h.spaced (.singleton _) fun a ha b hb => ?_
      obtain rfl : s.stats.totalTicks = b := by simpa using hb
      have hlast' : lastCall start c = a := by
        rw [List.getLast?_eq_some_getLast (by simp)] at ha
        exact Option.some.inj ha
      omega
    · omega
    · omega

theorem periodic_new {fromNow lo hi : ℤ} {type : IntType} (hsound : s.Sound)
    (hnone : ∀ p ∈ s.scheduled, ¬ src.Owns p)
    (hnew : s.schedule L src.handler src.object fromNow type = .ok u) (hlo : lo ≤ fromNow)
    (hhi : fromNow ≤ hi) :
    Periodic type lo hi s.stats.totalTicks (src.waiting u) (src.calls u) := by
  obtain ⟨-,hi',-⟩ := Interrupt.schedule_perm hnew
  obtain ⟨new,hperm,hq⟩ := waiting_schedule src hnew
  rw [if_pos ⟨rfl,rfl⟩] at hq
  obtain ⟨q,rfl,hwhen,htype⟩ := hq
  have hmem : ∀ p ∈ s.pending.map Prod.snd ++ s.invoked.map Prod.fst, ¬ src.Owns p := fun p hp =>
    hnone p (hsound.once.mem_iff.mpr hp)
  have hempty : src.waiting s = [] := by
    refine List.filter_eq_nil_iff.mpr fun p hp => ?_
    simpa using hmem p (List.mem_append_left _ hp)
  have hcalls : src.calls u = [] := by
    rw [calls, hi', List.map_eq_nil_iff, List.filter_eq_nil_iff]
    intro x hx
    have := hmem x.1 (List.mem_append_right _ (List.mem_map_of_mem hx))
    simpa using this
  rw [hempty, List.nil_append, List.perm_singleton] at hperm
  rw [hcalls, hperm]
  refine ⟨.singleton _,q,rfl,htype,?_,?_⟩
  · rw [hwhen]
    exact add_le_add_right hlo _
  · rw [hwhen]
    exact add_le_add_right hhi _

variable (src) in
theorem waiting_of_alone {handler : ℕ} {arg fromNow : ℤ} {type : IntType}
    (h : ¬ (handler = src.handler ∧ arg = src.object))
    (hs : s.schedule L handler arg fromNow type = .ok u) :
    (src.waiting u).Perm (src.waiting s) ∧ src.calls u = src.calls s := by
  obtain ⟨-,hi,-⟩ := Interrupt.schedule_perm hs
  obtain ⟨new,hperm,hnew⟩ := waiting_schedule src hs
  rw [if_neg h] at hnew
  subst hnew
  exact ⟨by simpa using hperm,by rw [calls, calls, hi]⟩

section Steps
variable {μ : Type} {dev : Devices μ} {Q : List PendingInterrupt → List ℤ → μ → Prop}

theorem Guards.step {l : KernelCall μ} {k k' : Kernel μ} (h : Guards src dev Q)
    (hs : Kernel.Step L dev k l k') (hsound : k.interrupt.Sound)
    (hQ : Q (src.waiting k.interrupt) (src.calls k.interrupt) k.mem) (halone : src.Alone l)
    (hdevice : ∀ mem, l = .device mem → Q (src.waiting k.interrupt) (src.calls k.interrupt) mem) :
    Q (src.waiting k'.interrupt) (src.calls k'.interrupt) k'.mem := by
  refine h.kept.step hs hsound hQ ?_ hdevice
  rintro handler arg fromNow type v rfl hv
  obtain ⟨hperm,hcalls⟩ := waiting_of_alone src halone hv
  rw [hcalls]
  exact h.perm hperm.symm hQ

variable (src) in
/-- After a tick of a machine that is not idle, what is still in the queue is to come later. -/
theorem late_of_oneTick {passes : ℕ} {mem mem' : μ} {old : Option MachineStatus}
    (hsound : s.Sound) (hidle : s.status ≠ .idleMode)
    (ht : s.oneTick L dev passes mem = .ok (some (u,old,mem'))) {p : PendingInterrupt}
    (hp : p ∈ src.waiting u) : u.stats.totalTicks < p.when := by
  obtain ⟨hsound',-,hdue⟩ := Interrupt.oneTick_sound hsound ht
  obtain ⟨x,hx,rfl⟩ := List.mem_map.mp (List.mem_of_mem_filter hp)
  have hnot := List.countP_eq_zero.mp (hdue hidle) x hx
  rw [decide_eq_true_eq, hsound'.keys x hx] at hnot
  omega

end Steps

end InterruptSource

end Nachos
