import Nachos.FileSys.DiskDrive
import Nachos.Machine.DiskBounds

/-! # The disk on the kernel is the synchronous disk

Every run of the threads over the interrupt queue is one of `synchDisks`. The disk is active just
while one `DiskDone` is in the queue, the time of which is known within bounds, so that the kernel
never halts on a request and comes to the end of it.
-/
namespace Nachos

namespace SynchDisk
variable {ι : Type} [DecidableEq ι] {d d' : Disk} {s t : SynchDisk ι} {i : ι} {c : DiskCall}
  {data : Option Sector}

theorem consistent_of_run (h : (synchDisks ι d).Reachable s) : s.Consistent d := by
  refine h.invariant (P := fun s => s.Consistent d) (fun s hs => hs ▸ .start d) ?_
  rintro s l t hc ⟨-,hin,hs⟩
  cases l with
  | call i r =>
    simp only [SynchDisk.step] at hs
    cases hi : s.threads i with
    | outside =>
      rw [hi] at hs
      cases hs
      exact hc.call hi (hin i r rfl)
    | acquiring q | inside c =>
      rw [hi] at hs
      cases hs
  | act i => exact hc.act hs
  | interrupt n => exact hc.interrupt hs

theorem reachable_act (h : (synchDisks ι d).Reachable s) (hs : s.act i = some t) :
    (synchDisks ι d).Reachable t := by
  refine h.step (l := .act i) ⟨(consistent_of_run h).running,?_,hs⟩
  intro j r hj
  cases hj

theorem reachable_proceed (h : (synchDisks ι d).Reachable s) (hi : s.threads i = .inside c)
    (hs : s.proceed i c = some t) : (synchDisks ι d).Reachable t :=
  reachable_act (i := i) h (by rw [act, hi]; exact hs)

theorem quiet_of_check (h : (synchDisks ι d).Reachable s) (hi : s.threads i = .inside c)
    (hphase : c.phase = .check) : s.Quiet ∧ Disk.InRange c.request.sectorNumber := by
  have hc := consistent_of_run h
  obtain ⟨e,before,hold,hin⟩ := hc.held i (hc.alone i c hi)
  have hec : DiskThread.inside e = .inside c := hold.thread.symm.trans hi
  cases hec
  have hres := hold.resources
  simp only [Resources, hphase] at hres
  exact ⟨hres,hin⟩

theorem reachable_request (h : (synchDisks ι d).Reachable s) (hi : s.threads i = .inside c)
    (hphase : c.phase = .check) (hdata : c.request.transfer s.contents = .ok (data,d')) :
    (synchDisks ι d).Reachable ({ s with
      contents := d'
      active := true
      pending := s.pending ++ [c.number] }.setThread i
        (.inside { c with phase := .wait, data := data })) := by
  obtain ⟨⟨hactive,-,-⟩,-⟩ := quiet_of_check h hi hphase
  have h₁ := reachable_proceed (t := s.setThread i (.inside { c with phase := .transfer })) h hi
    (by simp only [proceed, hphase, hactive, Bool.false_eq_true, if_false])
  have h₂ := reachable_proceed (t := { s with contents := d' }.setThread i
      (.inside { c with phase := .activate, data := data })) h₁ (Function.update_self _ _ _)
    (by simp only [proceed, setThread, hdata, Function.update_idem])
  have h₃ := reachable_proceed (t := { s with contents := d', active := true }.setThread i
      (.inside { c with phase := .schedule, data := data })) h₂ (Function.update_self _ _ _)
    (by simp only [proceed, setThread, Function.update_idem])
  exact reachable_proceed h₃ (Function.update_self _ _ _)
    (by simp only [proceed, setThread, Function.update_idem])

end SynchDisk

namespace DiskDrive
variable {ι ν : Type} [DecidableEq ι] {L : SortedList} {src : InterruptSource} {d : Disk}
  {m m' : DiskDrive ι} {s t : Interrupt} {i : ι} {c : DiskCall} {T : ℤ}
  {w w' : List PendingInterrupt}

/-- The disk as `synchDisks` has it. -/
def seen (m : DiskDrive ι) (pending fired : List ℕ) : SynchDisk ι where
  contents := m.contents
  active := m.active
  semaphore := m.semaphore
  lock := m.lock
  threads := m.threads
  pending := pending
  crashed := false
  acquired := m.acquired
  fired := fired
  returned := m.returned

def Stands (c : DiskCall) : Prop := c.phase = .check ∨ c.phase = .wait ∨ c.phase = .release

/-- The disk up to a time, with the interrupts it has in the queue. -/
structure Served (d : Disk) (T : ℤ) (w : List PendingInterrupt) (m : DiskDrive ι) : Prop where
  seen : ∃ pending fired, (synchDisks ι d).Reachable (m.seen pending fired) ∧
    pending.length = w.length
  stands : ∀ i c, m.threads i = .inside c → Stands c
  lastSector : Disk.InRange m.head.lastSector
  issued : 0 ≤ m.issued ∧ m.issued ≤ T
  due : ∀ p ∈ w, p.type = .diskInt ∧ m.issued + rotationTime ≤ p.when ∧
    p.when ≤ m.issued + longestRequest
  fault : ∀ f, m.fault = some f → f = .overflow
  short : m.issued + 2 ^ 15 < 2 ^ 31 → m.head.Sound ∧ m.fault = none

theorem Served.start (d : Disk) : Served d 0 [] (start d : DiskDrive ι) where
  seen := ⟨[],[],.start rfl,rfl⟩
  stands _ _ h := by cases h
  lastSector := show Disk.InRange 0 by decide
  issued := ⟨le_refl _,le_refl _⟩
  due _ h := absurd h List.not_mem_nil
  fault _ h := by cases h
  short _ := ⟨.new,rfl⟩

theorem Served.perm (h : Served d T w m) (hp : w.Perm w') : Served d T w' m := by
  obtain ⟨pending,fired,hr,hlen⟩ := h.seen
  exact ⟨⟨pending,fired,hr,hlen.trans hp.length_eq⟩,h.stands,h.lastSector,h.issued,
    fun p hmem => h.due p (hp.mem_iff.mpr hmem),h.fault,h.short⟩

theorem Served.mono {T' : ℤ} (h : Served d T w m) (hT : T ≤ T') : Served d T' w m :=
  { h with issued := ⟨h.issued.1,h.issued.2.trans hT⟩ }

/-- Only a call in `wait` has an interrupt under way. -/
theorem Served.waits (h : Served d T w m) {pending fired : List ℕ}
    (hr : (synchDisks ι d).Reachable (m.seen pending fired)) :
    (m.active = true → ∃ k, pending = [k]) ∧ (m.active = false → pending = []) := by
  have hc := SynchDisk.consistent_of_run hr
  cases hlock : (m.seen pending fired).lock with
  | none =>
    obtain ⟨⟨hactive,-,hpending⟩,-⟩ := hc.free hlock
    exact ⟨fun ha => absurd (ha.symm.trans hactive) (by decide),fun _ => hpending⟩
  | some i =>
    obtain ⟨c,before,hold,-⟩ := hc.held i hlock
    have hres := hold.resources
    unfold SynchDisk.Resources at hres
    have hquiet : (m.seen pending fired).Quiet →
        (m.active = true → ∃ k, pending = [k]) ∧ (m.active = false → pending = []) :=
      fun hq => ⟨fun ha => absurd (ha.symm.trans hq.1) (by decide),fun _ => hq.2.2⟩
    rcases h.stands i c hold.thread with hphase | hphase | hphase
    · simp only [hphase] at hres
      exact hquiet hres
    · simp only [hphase] at hres
      rcases hres with ⟨hactive,-,hpending⟩ | ⟨hactive,-,hpending,-⟩
      · exact ⟨fun _ => ⟨_,hpending⟩,fun ha => absurd (ha.symm.trans hactive) (by decide)⟩
      · exact ⟨fun ha => absurd (ha.symm.trans hactive) (by decide),fun _ => hpending⟩
    · simp only [hphase] at hres
      exact hquiet hres.1

theorem Served.active (h : Served d T w m) :
    (m.active = true → ∃ p, w = [p]) ∧ (m.active = false → w = []) := by
  obtain ⟨pending,fired,hr,hlen⟩ := h.seen
  obtain ⟨hbusy,hfree⟩ := h.waits hr
  constructor
  · intro hactive
    obtain ⟨k,rfl⟩ := hbusy hactive
    exact List.length_eq_one_iff.mp hlen.symm
  · intro hactive
    obtain rfl := hfree hactive
    exact List.length_eq_zero_iff.mp hlen.symm

theorem Served.handleInterrupt {p : PendingInterrupt} (h : Served d T (p :: w) m) :
    Served d T w m.handleInterrupt := by
  obtain ⟨pending,fired,hr,hlen⟩ := h.seen
  cases pending with
  | nil => cases hlen
  | cons k pending =>
    refine ⟨⟨pending,fired ++ [k],?_,Nat.succ.inj hlen⟩,h.stands,h.lastSector,h.issued,
      fun q hq => h.due q (List.mem_cons_of_mem p hq),h.fault,h.short⟩
    refine hr.step (l := .interrupt 0) ⟨rfl,?_,rfl⟩
    intro j r hj
    cases hj

theorem served_guards {dev : Devices ν}
    (hdev : ∀ p s x, ∀ c ∈ (dev p s x).1, src.request c = none) (d : Disk) (T : ℤ) :
    src.Guards (devices src dev) fun w _ (mem : DiskDrive ι × ν) => Served d T w mem.1 := by
  refine InterruptSource.guards_of_foreign (fun hp h => h.perm hp)
    (fun {p s mem w c} hp h => ?_) fun {p s mem w c new} hp _ h hnew => ?_
  · rw [devices, if_neg hp]
    exact ⟨h,List.filterMap_eq_nil_iff.mpr (hdev p s mem.2)⟩
  · rw [devices, if_pos hp] at hnew ⊢
    obtain rfl := InterruptSource.requested_nil hnew
    rw [List.append_nil]
    exact h.handleInterrupt

theorem Served.call {r : DiskRequest} (h : Served d T w m) (hi : m.threads i = .outside)
    (hr : Disk.InRange r.sectorNumber) : Served d T w (m.setThread i (.acquiring r)) := by
  obtain ⟨pending,fired,hrun,hlen⟩ := h.seen
  refine ⟨⟨pending,fired,?_,hlen⟩,?_,h.lastSector,h.issued,h.due,h.fault,h.short⟩
  · refine hrun.step (l := .call i r) ⟨rfl,?_,?_⟩
    · intro j q hj
      cases hj
      exact hr
    · have hi' : (m.seen pending fired).threads i = .outside := hi
      rw [SynchDisk.step, hi']
      rfl
  · intro j c hj
    simp only [setThread, Function.update_apply] at hj
    split_ifs at hj
    exact h.stands j c hj

/-- A call gets the lock, waits for its interrupt or returns: one step of `synchDisks`. -/
theorem Served.same {pending fired : List ℕ} (h : Served d T w m)
    (hr : (synchDisks ι d).Reachable (m'.seen pending fired)) (hlen : pending.length = w.length)
    (hstands : ∀ i c, m'.threads i = .inside c → Stands c) (hhead : m'.head = m.head)
    (hissued : m'.issued = m.issued) (hfault : m'.fault = m.fault) : Served d T w m' :=
  ⟨⟨pending,fired,hr,hlen⟩,hstands,hhead ▸ h.lastSector,hissued ▸ h.issued,hissued ▸ h.due,
    hfault ▸ h.fault,by rw [hissued, hhead, hfault]; exact h.short⟩

theorem Served.stands_setThread (h : Served d T w m) {th : DiskThread}
    (hth : ∀ c, th = .inside c → Stands c) (j : ι) (c : DiskCall)
    (hj : Function.update m.threads i th j = .inside c) : Stands c := by
  rw [Function.update_apply] at hj
  split_ifs at hj
  · exact hth c hj
  · exact h.stands j c hj

omit [DecidableEq ι] in
theorem request_ok {data : Option Sector} {r : DiskRequest}
    (hlast : Disk.InRange m.head.lastSector) (hin : Disk.InRange r.sectorNumber)
    (hticks : 0 ≤ s.stats.totalTicks) (h : m.request L src r s = .ok (data,m',t)) :
    ∃ d' head, r.transfer m.contents = .ok (data,d') ∧
      m.head.updateLast s.stats.totalTicks r.sectorNumber = .ok head ∧
      m' = { m with
        contents := d'
        head := head
        active := true
        issued := s.stats.totalTicks } ∧
      t.stats = s.stats ∧ ∃ q, (src.waiting t).Perm (src.waiting s ++ [q]) ∧ q.type = .diskInt ∧
        s.stats.totalTicks + rotationTime ≤ q.when ∧
        q.when ≤ s.stats.totalTicks + longestRequest := by
  obtain ⟨latency,hlatency,h⟩ := Outcome.bind_eq_ok.mp h
  obtain ⟨hlow,hhigh⟩ := DiskHead.latency_bounds hlast hin hticks hlatency
  split_ifs at h
  obtain ⟨⟨data',d'⟩,hdata,h⟩ := Outcome.bind_eq_ok.mp h
  obtain ⟨head,hhead,h⟩ := Outcome.bind_eq_ok.mp h
  obtain ⟨u,hu,h⟩ := Outcome.bind_eq_ok.mp h
  cases h
  obtain ⟨-,-,hstats,-⟩ := Interrupt.schedule_perm hu
  obtain ⟨new,hperm,hq⟩ := InterruptSource.waiting_schedule src hu
  rw [if_pos ⟨rfl,rfl⟩] at hq
  obtain ⟨q,rfl,hwhen,htype⟩ := hq
  exact ⟨d',head,hdata,hhead,rfl,hstats,q,hperm,htype,by omega,by omega⟩

omit [DecidableEq ι] in
theorem request_overflows {r : DiskRequest} (hlast : Disk.InRange m.head.lastSector)
    (hin : Disk.InRange r.sectorNumber) (hticks : 0 ≤ s.stats.totalTicks)
    (hactive : m.active = false) : (m.request L src r s).Overflows := by
  obtain ⟨data,d',hdata⟩ := DiskRequest.transfer_ok (d := m.contents) hin
  refine .bind_of_ok DiskHead.computeLatency_overflows fun latency hlatency => ?_
  have hlow := (DiskHead.latency_bounds hlast hin hticks hlatency).1
  rw [hactive, hdata]
  simp only [Bool.false_eq_true, if_false, Outcome.ok_bind]
  refine .bind DiskHead.updateLast_overflows fun head => ?_
  have hpos : 0 < latency := lt_of_lt_of_le (by decide) hlow
  rw [Interrupt.schedule, if_pos hpos]
  exact .ok _

omit [DecidableEq ι] in
variable (L src) in
theorem request_short {r : DiskRequest} (h : m.head.Sound) (hin : Disk.InRange r.sectorNumber)
    (hticks : 0 ≤ s.stats.totalTicks) (hactive : m.active = false)
    (hshort : s.stats.totalTicks + 2 ^ 15 < 2 ^ 31) : ∃ x, m.request L src r s = .ok x := by
  obtain ⟨⟨latency,hlatency⟩,head,hhead,-⟩ := h.request hin hticks hshort r.writing
  obtain ⟨data,d',hdata⟩ := DiskRequest.transfer_ok (d := m.contents) hin
  have hlow := (DiskHead.latency_bounds h.lastSector hin hticks hlatency).1
  have hpos : 0 < latency := lt_of_lt_of_le (by decide) hlow
  rw [request, hlatency, hactive, hdata, hhead]
  simp only [Outcome.ok_bind, Bool.false_eq_true, if_false, Interrupt.schedule, if_pos hpos]
  exact ⟨_,rfl⟩

theorem Served.request (h : Served d T (src.waiting s) m) (hT : T = s.stats.totalTicks)
    (hi : m.threads i = .inside c) (hphase : c.phase = .check)
    (hs : m.proceed L src i c s = some (m',t)) :
    Served d T (src.waiting t) m' ∧ t.stats = s.stats := by
  obtain ⟨pending,fired,hr,hlen⟩ := h.seen
  obtain ⟨⟨hactive,-,hpending⟩,hin⟩ := SynchDisk.quiet_of_check hr hi hphase
  have hwaiting := h.active.2 hactive
  have hticks : 0 ≤ s.stats.totalTicks := hT ▸ h.issued.1.trans h.issued.2
  have hlate : m.issued ≤ s.stats.totalTicks := hT ▸ h.issued.2
  simp only [proceed, hphase] at hs
  cases hreq : m.request L src c.request s with
  | error f =>
    rw [hreq] at hs
    cases hs
    refine ⟨⟨⟨pending,fired,hr,hlen⟩,h.stands,h.lastSector,⟨hticks,hT.ge⟩,?_,?_,?_⟩,rfl⟩
    · rw [hwaiting]
      exact fun p hp => absurd hp List.not_mem_nil
    · intro g hg
      cases hg
      exact request_overflows h.lastSector hin hticks hactive f hreq
    · intro hshort
      change s.stats.totalTicks + 2 ^ 15 < 2 ^ 31 at hshort
      obtain ⟨x,hx⟩ := request_short L src (h.short (by omega)).1 hin hticks
        hactive hshort
      rw [hreq] at hx
      cases hx
  | ok r =>
    obtain ⟨data,m₁,u⟩ := r
    rw [hreq] at hs
    cases hs
    obtain ⟨d',head,hdata,hhead,rfl,hstats,q,hperm,htype,hlow,hhigh⟩ :=
      request_ok h.lastSector hin hticks hreq
    rw [hwaiting, List.nil_append, List.perm_singleton] at hperm
    refine ⟨⟨⟨[c.number],fired,?_,by rw [hperm]; rfl⟩,?_,?_,⟨hticks,hT.ge⟩,?_,h.fault,?_⟩,hstats⟩
    · have hrun := SynchDisk.reachable_request hr hi hphase hdata
      rw [hpending] at hrun
      exact hrun
    · exact h.stands_setThread fun e he => by
        cases he
        exact .inr (.inl rfl)
    · change Disk.InRange head.lastSector
      rw [DiskHead.updateLast_lastSector hhead]
      exact hin
    · intro p hp
      rw [hperm] at hp
      obtain rfl := List.mem_singleton.mp hp
      exact ⟨htype,hlow,hhigh⟩
    · intro hshort
      change s.stats.totalTicks + 2 ^ 15 < 2 ^ 31 at hshort
      obtain ⟨hsound,hnone⟩ := h.short (by omega)
      obtain ⟨-,head',hhead',hsound'⟩ := hsound.request hin hticks hshort true
      rw [hhead] at hhead'
      cases hhead'
      exact ⟨hsound',hnone⟩

/-- By cases on where the thread stands. -/
theorem Served.act (h : Served d T (src.waiting s) m) (hT : T = s.stats.totalTicks)
    (hs : m.act L src i s = some (m',t)) :
    Served d T (src.waiting t) m' ∧ t.stats = s.stats := by
  obtain ⟨pending,fired,hr,hlen⟩ := h.seen
  cases hi : m.threads i with
  | outside =>
    rw [DiskDrive.act, hi] at hs
    cases hs
  | acquiring r =>
    rw [DiskDrive.act, hi] at hs
    simp only [] at hs
    split_ifs at hs with hlock
    cases hs
    have hrun := SynchDisk.reachable_act (i := i)
      (t := { m with lock := some i, acquired := m.acquired ++ [r] }.setThread i
        (.inside ⟨r,m.acquired.length,.check,none⟩) |>.seen pending fired) hr
      (by rw [SynchDisk.act, show (m.seen pending fired).threads i = _ from hi]
          exact if_pos hlock)
    refine ⟨h.same hrun hlen (h.stands_setThread fun e he => ?_) rfl rfl rfl,rfl⟩
    cases he
    exact .inl rfl
  | inside c =>
    rw [DiskDrive.act, hi] at hs
    rcases h.stands i c hi with hphase | hphase | hphase
    · exact h.request hT hi hphase hs
    · simp only [proceed, hphase] at hs
      split_ifs at hs with hpos
      cases hs
      have hrun := SynchDisk.reachable_proceed (i := i) (c := c)
        (t := { m with semaphore := m.semaphore - 1 }.setThread i
          (.inside { c with phase := .release }) |>.seen pending fired) hr hi
        (by simp only [SynchDisk.proceed, hphase]
            exact if_pos hpos)
      refine ⟨h.same hrun hlen (h.stands_setThread fun e he => ?_) rfl rfl rfl,rfl⟩
      cases he
      exact .inr (.inr rfl)
    · simp only [proceed, hphase] at hs
      cases hs
      have hrun := SynchDisk.reachable_proceed (i := i) (c := c)
        (t := { m with lock := none, returned := m.returned ++ [(c.number,c.data)] }.setThread i
          .outside |>.seen pending fired) hr hi
        (by simp only [SynchDisk.proceed, hphase]
            rfl)
      refine ⟨h.same hrun hlen (h.stands_setThread fun e he => ?_) rfl rfl rfl,rfl⟩
      cases he

omit [DecidableEq ι] in
theorem request_sound {data : Option Sector} {r : DiskRequest} (hsound : s.Sound)
    (h : m.request L src r s = .ok (data,m',t)) : t.Sound := by
  obtain ⟨latency,-,h⟩ := Outcome.bind_eq_ok.mp h
  split_ifs at h
  obtain ⟨⟨data',d'⟩,-,h⟩ := Outcome.bind_eq_ok.mp h
  obtain ⟨head,-,h⟩ := Outcome.bind_eq_ok.mp h
  obtain ⟨u,hu,h⟩ := Outcome.bind_eq_ok.mp h
  cases h
  obtain ⟨v,hv,hsound',-⟩ := Interrupt.schedule_spec (L := L) hsound src.handler src.object
    .diskInt (Interrupt.schedule_perm hu).1
  rw [hu] at hv
  cases hv
  exact hsound'

theorem act_sound (hsound : s.Sound) (hs : m.act L src i s = some (m',t)) : t.Sound := by
  unfold DiskDrive.act at hs
  cases hi : m.threads i with
  | outside =>
    rw [hi] at hs
    cases hs
  | acquiring r =>
    rw [hi] at hs
    simp only [] at hs
    split_ifs at hs
    cases hs
    exact hsound
  | inside c =>
    rw [hi] at hs
    simp only [proceed] at hs
    cases hphase : c.phase with
    | check =>
      simp only [hphase] at hs
      cases hreq : m.request L src c.request s with
      | error f =>
        rw [hreq] at hs
        cases hs
        exact hsound
      | ok r =>
        rw [hreq] at hs
        cases hs
        exact request_sound hsound hreq
    | wait =>
      simp only [hphase] at hs
      split_ifs at hs
      cases hs
      exact hsound
    | release =>
      simp only [hphase] at hs
      cases hs
      exact hsound
    | transfer | activate | schedule =>
      simp only [hphase] at hs
      cases hs

omit [DecidableEq ι] in
theorem underway_guards {dev : Devices ν}
    (hdev : ∀ p s x, ∀ c ∈ (dev p s x).1, src.request c = none) (o : Option PendingInterrupt) :
    src.Guards (devices src dev) fun w _ (mem : DiskDrive ι × ν) =>
      (w = o.toList ∧ mem.1.active = o.isSome) ∨ (w = [] ∧ mem.1.active = false) := by
  refine InterruptSource.guards_of_foreign (fun hp h => ?_) (fun {q s mem w c} hq h => ?_)
    fun {q s mem w c new} hq _ h hnew => ?_
  · refine h.imp (fun ⟨hw,h⟩ => ⟨?_,h⟩) fun ⟨hw,h⟩ => ⟨List.nil_perm.mp (hw ▸ hp),h⟩
    rw [hw] at hp
    cases o with
    | none => exact List.nil_perm.mp hp
    | some p => exact (List.singleton_perm.mp hp).symm
  · rw [devices, if_neg hq]
    exact ⟨h,List.filterMap_eq_nil_iff.mpr (hdev q s mem.2)⟩
  · rw [devices, if_pos hq] at hnew ⊢
    obtain rfl := InterruptSource.requested_nil hnew
    rcases h with ⟨hw,-⟩ | ⟨hw,-⟩
    · cases o with
      | none => cases hw
      | some p =>
        obtain ⟨-,rfl⟩ := List.cons.inj hw
        exact .inr ⟨rfl,rfl⟩
    · cases hw

end DiskDrive

namespace Kernel
variable {ι ν : Type} [DecidableEq ι] {L : SortedList} {src : InterruptSource} {dev : Devices ν}
  {d : Disk} {k k' : Kernel (DiskDrive ι × ν)} {ls : List (DriveStep ι ν)}

structure Driving (src : InterruptSource) (d : Disk) (k : Kernel (DiskDrive ι × ν)) : Prop where
  sound : k.interrupt.Sound
  served : DiskDrive.Served d k.interrupt.stats.totalTicks (src.waiting k.interrupt) k.mem.1
  awake : k.halted = true → k.mem.1.active = false

theorem Driving.pending (h : k.Driving src d) (hactive : k.mem.1.active = true) :
    ∃ p, src.waiting k.interrupt = [p] ∧ (p.when,p) ∈ k.interrupt.pending ∧
      p.type ≠ .timerInt ∧ k.mem.1.issued + rotationTime ≤ p.when ∧
      p.when ≤ k.mem.1.issued + longestRequest := by
  obtain ⟨p,hp⟩ := h.served.active.1 hactive
  have hmem : p ∈ src.waiting k.interrupt := by
    rw [hp]
    exact List.mem_singleton_self p
  obtain ⟨htype,hlow,hhigh⟩ := h.served.due p hmem
  obtain ⟨x,hx,rfl⟩ := List.mem_map.mp (List.mem_of_mem_filter hmem)
  refine ⟨x.2,hp,?_,by rw [htype]; decide,hlow,hhigh⟩
  rw [← h.sound.keys x hx]
  exact hx

omit [DecidableEq ι] in
theorem Driving.underway {l : KernelCall (DiskDrive ι × ν)} {o : Option PendingInterrupt}
    (hdev : ∀ p s x, ∀ c ∈ (dev p s x).1, src.request c = none) (hsound : k.interrupt.Sound)
    (hs : Kernel.Step L (DiskDrive.devices src dev) k l k') (halone : src.Alone l)
    (hdevice : ∀ mem, l = .device mem → mem.1 = k.mem.1)
    (h : src.waiting k.interrupt = o.toList ∧ k.mem.1.active = o.isSome) :
    (src.waiting k'.interrupt = o.toList ∧ k'.mem.1.active = o.isSome) ∨
      (src.waiting k'.interrupt = [] ∧ k'.mem.1.active = false) :=
  (DiskDrive.underway_guards hdev o).step hs hsound (.inl h) halone fun mem hmem =>
    .inl (by rw [hdevice mem hmem]; exact h)

theorem Driving.step {l : DriveStep ι ν} (h : k.Driving src d)
    (hdev : ∀ p s x, ∀ c ∈ (dev p s x).1, src.request c = none)
    (hs : (diskKernels ι L src dev d).step k l k') :
    k'.Driving src d ∧ k.interrupt.stats.totalTicks ≤ k'.interrupt.stats.totalTicks := by
  obtain ⟨hrunning,-,hs⟩ := hs
  cases l with
  | kernel l =>
    obtain ⟨halone,hdevice,hs⟩ := hs
    obtain ⟨hsound,htime⟩ := hs.sound h.sound
    have hserved := (DiskDrive.served_guards hdev d k.interrupt.stats.totalTicks).step hs h.sound
      h.served halone fun mem hmem => by rw [hdevice mem hmem]; exact h.served
    refine ⟨⟨hsound,hserved.mono htime,fun hhalted => ?_⟩,htime⟩
    cases hactive : k.mem.1.active with
    | true =>
      obtain ⟨p,-,hmem,htype,-⟩ := h.pending hactive
      cases hs with
      | idle ht =>
        obtain ⟨rfl,-⟩ := Interrupt.idle_wakes h.sound hmem htype ht
        cases hhalted
      | schedule | oneTick | setLevel | setStatus | resume | device =>
        exact absurd (hhalted.symm.trans hrunning) (by decide)
    | false =>
      have hempty := h.served.active.2 hactive
      exact ((Driving.underway (o := none) hdev h.sound hs halone hdevice ⟨hempty,hactive⟩).elim
        And.right And.right)
  | call i r =>
    obtain ⟨hin,hi,rfl⟩ := hs
    refine ⟨⟨h.sound,h.served.call hi hin,fun hhalted => ?_⟩,le_refl _⟩
    exact absurd (hhalted.symm.trans hrunning) (by decide)
  | act i =>
    obtain ⟨m,s,hact,rfl⟩ := hs
    obtain ⟨hserved,hstats⟩ := h.served.act rfl hact
    refine ⟨⟨DiskDrive.act_sound h.sound hact,?_,fun hhalted => ?_⟩,(congrArg _ hstats).ge⟩
    · simpa only [hstats] using hserved
    · exact absurd (hhalted.symm.trans hrunning) (by decide)

theorem driving_of_run (hdev : ∀ p s x, ∀ c ∈ (dev p s x).1, src.request c = none)
    (h : (diskKernels ι L src dev d).Reachable k) : k.Driving src d := by
  refine h.invariant ?_ fun _ _ _ h hs => (h.step hdev hs).1
  rintro k ⟨⟨hnew,-,hrunning⟩,hstart⟩
  refine ⟨hnew ▸ .new,?_,fun hhalted => absurd (hhalted.symm.trans hrunning) (by decide)⟩
  rw [hnew, hstart]
  exact .start d

/-- `n` calls of `Idle` in a row have brought the clock on, or come to the end of the request. -/
theorem Driving.idleRun (h : k.Driving src d) (hactive : k.mem.1.active = true)
    (hdev : ∀ p s x, ∀ c ∈ (dev p s x).1, src.request c = none)
    (hr : ((diskKernels ι L src dev d).startAt k).Run ls k')
    (hidle : ∀ l ∈ ls, l = .kernel .idle) :
    k'.mem.1.active = true → ls.length ≤ longestRequest := by
  obtain ⟨p,hwaiting,-,-,-,hhigh⟩ := h.pending hactive
  have hrun := hr.counted (P := fun n k'' => k''.Driving src d ∧
    ((src.waiting k''.interrupt = [p] ∧ k''.mem.1.active = true ∧
      k.interrupt.stats.totalTicks + (n - 1 : ℕ) ≤ k''.interrupt.stats.totalTicks ∧
      (0 < n → ∀ y ∈ k''.interrupt.pending, k''.interrupt.stats.totalTicks < y.1)) ∨
    (src.waiting k''.interrupt = [] ∧ k''.mem.1.active = false))) hidle ?_ ?_
  · obtain ⟨hdriving,⟨hw,hactive',htime,hlate⟩ | ⟨-,hno⟩⟩ := hrun
    · intro _
      have hissued := h.served.issued.2
      obtain ⟨p',hp',hmem,-⟩ := hdriving.pending hactive'
      rw [hw] at hp'
      obtain ⟨rfl,-⟩ := List.cons.inj hp'
      by_cases hpos : 0 < ls.length
      · have := hlate hpos _ hmem
        simp only [] at this
        omega
      · have hzero : ls.length = 0 := by omega
        rw [hzero]
        decide
    · intro hyes
      exact absurd (hyes.symm.trans hno) (by decide)
  · rintro _ rfl
    refine ⟨h,.inl ⟨hwaiting,hactive,by simp,fun h => absurd h (by decide)⟩⟩
  · rintro n a l b rfl ⟨hdriving,hcase⟩ hstep
    have hmove : (diskKernels ι L src dev d).step a (.kernel .idle) b := hstep
    obtain ⟨hdriving',htime'⟩ := hdriving.step hdev hmove
    refine ⟨hdriving',?_⟩
    obtain ⟨-,-,halone,hdevice,hs⟩ := hstep
    rcases hcase with ⟨hw,hactive',htime,hlate⟩ | ⟨hw,hno⟩
    · have hunder := Driving.underway (o := some p) hdev hdriving.sound hs halone hdevice
        ⟨hw,hactive'⟩
      refine hunder.imp_left fun ⟨hw',hactive''⟩ => ⟨hw',hactive'',?_⟩
      obtain ⟨q,hq,hmem,htype,-⟩ := hdriving.pending hactive'
      obtain ⟨q',hq',hmem',-⟩ := hdriving'.pending hactive''
      rw [hw] at hq
      obtain ⟨rfl,-⟩ := List.cons.inj hq
      rw [hw'] at hq'
      obtain ⟨rfl,-⟩ := List.cons.inj hq'
      cases hs with
      | idle ht =>
        obtain ⟨-,hlate',hclock⟩ := Interrupt.idle_wakes hdriving.sound hmem htype ht
        refine ⟨?_,fun _ => hlate' hmem'⟩
        cases n with
        | zero => simpa using htime.trans htime'
        | succ n =>
          have := hclock (hlate (Nat.succ_pos n))
          simp only [Nat.add_sub_cancel] at htime ⊢
          push_cast
          omega
    · exact .inr ((Driving.underway (o := none) hdev hdriving.sound hs halone hdevice
        ⟨hw,hno⟩).elim id id)

end Kernel

/-- Every run on the kernel is one of the synchronous disk, with the answers of the requests made
one after another. Nothing but a clock that comes near to the end of an `int` goes wrong. An active
disk has one interrupt in the queue, which comes within the bounds; the kernel does not halt on it,
and so many calls of `Idle` in a row come to its end. -/
theorem diskRefinement {ι ν : Type} [DecidableEq ι] (L : SortedList) (src : InterruptSource)
    (dev : Devices ν) (d : Disk) (k : Kernel (DiskDrive ι × ν))
    (hdev : ∀ p s x, ∀ c ∈ (dev p s x).1, src.request c = none)
    (h : (diskKernels ι L src dev d).Reachable k) :
    (∃ pending fired, (synchDisks ι d).Reachable (k.mem.1.seen pending fired)) ∧
    (∃ answers d', DiskRequest.sequential d k.mem.1.acquired = .ok (answers,d') ∧
      ∀ x ∈ k.mem.1.returned, answers[x.1]? = some x.2) ∧
    (∀ f, k.mem.1.fault = some f →
      f = .overflow ∧ 2 ^ 31 ≤ k.interrupt.stats.totalTicks + 2 ^ 15) ∧
    (if k.mem.1.active then
      ∃ p, src.waiting k.interrupt = [p] ∧ k.mem.1.issued + rotationTime ≤ p.when ∧
        p.when ≤ k.mem.1.issued + longestRequest
    else src.waiting k.interrupt = []) ∧
    (k.mem.1.active = true → k.halted = false ∧
      ∀ ls k', ((diskKernels ι L src dev d).startAt k).Run ls k' →
        (∀ l ∈ ls, l = .kernel .idle) → longestRequest < ls.length →
        k'.mem.1.active = false) := by
  have hdriving := Kernel.driving_of_run hdev h
  obtain ⟨pending,fired,hr,-⟩ := hdriving.served.seen
  obtain ⟨answers,d',hseq,hreturned⟩ := (SynchDisk.consistent_of_run hr).answered
  refine ⟨⟨pending,fired,hr⟩,⟨answers,d',hseq,fun x hx => (hreturned x hx).2⟩,fun f hf => ?_,?_,
    fun hactive => ⟨?_,fun ls k' hls hidle hlong => ?_⟩⟩
  · refine ⟨hdriving.served.fault f hf,not_lt.mp fun hshort => ?_⟩
    have hissued := hdriving.served.issued.2
    have hnone := (hdriving.served.short (by omega)).2
    rw [hf] at hnone
    cases hnone
  · split_ifs with hactive
    · obtain ⟨p,hp,-,-,hlow,hhigh⟩ := hdriving.pending hactive
      exact ⟨p,hp,hlow,hhigh⟩
    · exact hdriving.served.active.2 (Bool.not_eq_true _ ▸ hactive)
  · by_contra hhalted
    have hno := hdriving.awake (by simpa using hhalted)
    exact absurd (hactive.symm.trans hno) (by decide)
  · by_contra hno
    have := hdriving.idleRun hactive hdev hls hidle (by simpa using hno)
    omega

/-- At the start of the kernel a thread asks for sector 3, which takes 2000 ticks. -/
theorem diskRefinement_read : ∃ k : Kernel (DiskDrive ℕ × Unit), k.mem.1.acquired = [.read 3] ∧
    (∃ p, InterruptSource.waiting ⟨0,0⟩ k.interrupt = [p] ∧ p.when = 2000) ∧ k.halted = false := by
  let d : Disk := fun _ => ⟨List.replicate sectorSize 0,List.length_replicate⟩
  let dev : Devices Unit := fun _ _ mem => ([],mem)
  have hrun : (diskKernels ℕ .ordered ⟨0,0⟩ dev d).Reachable
      ⟨.new,(.start d,()),[],false⟩ := .start ⟨⟨rfl,rfl,rfl⟩,rfl⟩
  have hcall : (diskKernels ℕ .ordered ⟨0,0⟩ dev d).Reachable
      ⟨.new,((DiskDrive.start d).setThread 0 (.acquiring (.read 3)),()),[],false⟩ :=
    hrun.step (l := .call 0 (.read 3)) ⟨rfl,rfl,show Disk.InRange 3 by decide,rfl,rfl⟩
  have hact : ∀ {k : Kernel (DiskDrive ℕ × Unit)} {m : DiskDrive ℕ} {s : Interrupt},
      (diskKernels ℕ .ordered ⟨0,0⟩ dev d).Reachable k → k.halted = false →
      k.mem.1.fault = none → k.mem.1.act .ordered ⟨0,0⟩ 0 k.interrupt = some (m,s) →
      (diskKernels ℕ .ordered ⟨0,0⟩ dev d).Reachable
        { k with interrupt := s, mem := (m,k.mem.2) } :=
    fun hr hrunning hfault hs => hr.step (l := .act 0) ⟨hrunning,hfault,_,_,hs,rfl⟩
  have hrun := hact (hact hcall rfl rfl rfl) rfl rfl rfl
  obtain ⟨-,-,-,-,hidle⟩ := diskRefinement .ordered ⟨0,0⟩ dev d _
    (fun _ _ _ c hc => absurd hc List.not_mem_nil) hrun
  exact ⟨_,rfl,⟨_,rfl,rfl⟩,(hidle rfl).1⟩

end Nachos
