import Nachos.Machine.Disk
import Nachos.Library.Run
import Mathlib.Data.List.Basic

/-! # The synchronous disk

`synchdisk.cc` over the requests of `disk.cc`, for any number of threads. A lock gives
mutual exclusion, a semaphore counts, and the interrupt a request schedules fires once,
at any later time. What the threads and the interrupt do is interleaved step by step.
-/
namespace Nachos

inductive DiskRequest where
  | read (sectorNumber : ℤ)
  | write (sectorNumber : ℤ) (data : Sector)

namespace DiskRequest

def sectorNumber : DiskRequest → ℤ
  | .read n => n
  | .write n _ => n

/-- The data that is read, and the disk afterwards. -/
def transfer (d : Disk) : DiskRequest → Outcome (Option Sector × Disk)
  | .read n => do
    let data ← d.readRequest n
    return (some data,d)
  | .write n data => do
    let d ← d.writeRequest n data
    return (none,d)

/-- The requests one after another, without threads. -/
def sequential (d : Disk) : List DiskRequest → Outcome (List (Option Sector) × Disk)
  | [] => return ([],d)
  | r :: rs => do
    let (data,d) ← r.transfer d
    let (answers,d) ← sequential d rs
    return (data :: answers,d)

end DiskRequest

/-- Where a thread stands that holds the lock. -/
inductive DiskPhase where
  /-- `ASSERT(!active)` -/
  | check
  | transfer
  /-- `active = TRUE` -/
  | activate
  | schedule
  /-- `semaphore->P()` -/
  | wait
  | release
  deriving DecidableEq

/-- A call in progress; `number` counts the calls that acquired the lock before. -/
structure DiskCall where
  request : DiskRequest
  number : ℕ
  phase : DiskPhase
  data : Option Sector

inductive DiskThread where
  | outside
  | acquiring (request : DiskRequest)
  | inside (call : DiskCall)

/-- `pending` has the disk interrupts that are scheduled, by the number of the call. The
last three fields record the requests as they acquired the lock, the interrupts that have
fired, and what each call returned. -/
structure SynchDisk (ι : Type) where
  contents : Disk
  active : Bool
  semaphore : ℕ
  lock : Option ι
  threads : ι → DiskThread
  pending : List ℕ
  crashed : Bool
  acquired : List DiskRequest
  fired : List ℕ
  returned : List (ℕ × Option Sector)

inductive DiskStep (ι : Type) where
  | call (i : ι) (request : DiskRequest)
  | act (i : ι)
  /-- The interrupt in place `n` fires. -/
  | interrupt (n : ℕ)

namespace SynchDisk
variable {ι : Type} [DecidableEq ι]

def start (d : Disk) : SynchDisk ι where
  contents := d
  active := false
  semaphore := 0
  lock := none
  threads _ := .outside
  pending := []
  crashed := false
  acquired := []
  fired := []
  returned := []

def setThread (s : SynchDisk ι) (i : ι) (t : DiskThread) : SynchDisk ι :=
  { s with threads := Function.update s.threads i t }

/-- The next step of a call that holds the lock. -/
def proceed (s : SynchDisk ι) (i : ι) (c : DiskCall) : Option (SynchDisk ι) :=
  match c.phase with
  | .check =>
    if s.active then some { s with crashed := true }
    else some (s.setThread i (.inside { c with phase := .transfer }))
  | .transfer =>
    match c.request.transfer s.contents with
    | .ok (data,d) => some ({ s with contents := d }.setThread i
        (.inside { c with phase := .activate, data := data }))
    | .error _ => some { s with crashed := true }
  | .activate => some ({ s with active := true }.setThread i (.inside { c with phase := .schedule }))
  | .schedule => some ({ s with pending := s.pending ++ [c.number] }.setThread i
      (.inside { c with phase := .wait }))
  | .wait =>
    if 0 < s.semaphore then
      some ({ s with semaphore := s.semaphore - 1 }.setThread i
        (.inside { c with phase := .release }))
    else none
  | .release => some ({ s with
      lock := none
      returned := s.returned ++ [(c.number,c.data)] }.setThread i .outside)

def act (s : SynchDisk ι) (i : ι) : Option (SynchDisk ι) :=
  match s.threads i with
  | .outside => none
  | .acquiring r =>
    if s.lock.isNone then
      some ({ s with lock := some i, acquired := s.acquired ++ [r] }.setThread i
        (.inside ⟨r,s.acquired.length,.check,none⟩))
    else none
  | .inside c => s.proceed i c

/-- `HandleInterrupt`, which calls `RequestDone`. -/
def handleInterrupt (s : SynchDisk ι) (n : ℕ) : Option (SynchDisk ι) :=
  match s.pending[n]? with
  | none => none
  | some k => some { s with
      pending := s.pending.eraseIdx n
      active := false
      semaphore := s.semaphore + 1
      fired := s.fired ++ [k] }

def step (s : SynchDisk ι) : DiskStep ι → Option (SynchDisk ι)
  | .call i r =>
    match s.threads i with
    | .outside => some (s.setThread i (.acquiring r))
    | _ => none
  | .act i => s.act i
  | .interrupt n => s.handleInterrupt n

end SynchDisk

/-- Runs on a disk with contents `d`, with calls for sectors of the disk. -/
def synchDisks (ι : Type) [DecidableEq ι] (d : Disk) :
    TransitionSystem (SynchDisk ι) (DiskStep ι) where
  init s := s = .start d
  step s l t := s.crashed = false ∧
    (∀ i r, l = .call i r → Disk.InRange r.sectorNumber) ∧ s.step l = some t

namespace DiskRequest
variable {d : Disk}

theorem transfer_ok {r : DiskRequest} (h : Disk.InRange r.sectorNumber) :
    ∃ data d', r.transfer d = .ok (data,d') := by
  cases r with
  | read n =>
    have hn : Disk.InRange n := h
    exact ⟨some (d n.toNat),d,by simp [transfer, Disk.readRequest, hn]⟩
  | write n data =>
    have hn : Disk.InRange n := h
    exact ⟨none,Function.update d n.toNat data,by simp [transfer, Disk.writeRequest, hn]⟩

theorem sequential_append {rs : List DiskRequest} {r : DiskRequest} {answers : List (Option Sector)}
    {d₁ d₂ : Disk} {data : Option Sector} (h : sequential d rs = .ok (answers,d₁))
    (hr : r.transfer d₁ = .ok (data,d₂)) :
    sequential d (rs ++ [r]) = .ok (answers ++ [data],d₂) := by
  induction rs generalizing d answers with
  | nil =>
    cases h
    simp [sequential, hr]
  | cons q rs ih =>
    obtain ⟨⟨data',d'⟩,hq,h⟩ := Outcome.bind_eq_ok.mp h
    obtain ⟨⟨answers',d''⟩,hs,h⟩ := Outcome.bind_eq_ok.mp h
    cases h
    have := ih hs
    simp only [List.cons_append, sequential, hq, Outcome.ok_bind, this, Outcome.pure_eq]

theorem sequential_length {rs : List DiskRequest} {answers : List (Option Sector)} {d₁ : Disk}
    (h : sequential d rs = .ok (answers,d₁)) : answers.length = rs.length := by
  induction rs generalizing d answers with
  | nil =>
    cases h
    rfl
  | cons q rs ih =>
    obtain ⟨⟨data',d'⟩,hq,h⟩ := Outcome.bind_eq_ok.mp h
    obtain ⟨⟨answers',d''⟩,hs,h⟩ := Outcome.bind_eq_ok.mp h
    cases h
    simp [ih hs]

def written (n : ℕ) : DiskRequest → Option Sector
  | .read _ => none
  | .write k data => if k.toNat = n then some data else none

theorem transfer_contents {r : DiskRequest} {data : Option Sector} {d' : Disk}
    (h : r.transfer d = .ok (data,d')) (n : ℕ) : d' n = (r.written n).getD (d n) := by
  cases r with
  | read k =>
    obtain ⟨x,-,h⟩ := Outcome.bind_eq_ok.mp h
    cases h
    rfl
  | write k x =>
    obtain ⟨d₁,hd,h⟩ := Outcome.bind_eq_ok.mp h
    cases h
    rw [Disk.writeRequest] at hd
    split_ifs at hd
    cases hd
    by_cases hn : n = k.toNat
    · simp [written, hn]
    · simp [written, hn, Ne.symm hn]

/-- A sector holds what was written to it last. -/
theorem sequential_contents {rs : List DiskRequest} {answers : List (Option Sector)} {d₁ : Disk}
    (h : sequential d rs = .ok (answers,d₁)) (n : ℕ) :
    d₁ n = (rs.filterMap (written n)).getLastD (d n) := by
  induction rs generalizing d answers with
  | nil =>
    cases h
    rfl
  | cons r rs ih =>
    obtain ⟨⟨data,d'⟩,hr,h⟩ := Outcome.bind_eq_ok.mp h
    obtain ⟨⟨answers',d''⟩,hs,h⟩ := Outcome.bind_eq_ok.mp h
    cases h
    rw [ih hs, transfer_contents hr, List.filterMap_cons]
    cases r.written n with
    | none => rfl
    | some x => exact (List.getLastD_cons ..).symm

theorem sequential_read {rs : List DiskRequest} {answers : List (Option Sector)} {d₁ : Disk}
    (h : sequential d rs = .ok (answers,d₁)) {k : ℕ} {n : ℤ} (hk : rs[k]? = some (.read n)) :
    answers[k]? = some (some (((rs.take k).filterMap (written n.toNat)).getLastD (d n.toNat))) := by
  induction rs generalizing d answers k with
  | nil => simp at hk
  | cons r rs ih =>
    obtain ⟨⟨data,d'⟩,hr,h⟩ := Outcome.bind_eq_ok.mp h
    obtain ⟨⟨answers',d''⟩,hs,h⟩ := Outcome.bind_eq_ok.mp h
    cases h
    cases k with
    | zero =>
      rw [List.getElem?_cons_zero] at hk
      cases hk
      obtain ⟨x,hx,hr⟩ := Outcome.bind_eq_ok.mp hr
      cases hr
      rw [Disk.readRequest] at hx
      split_ifs at hx
      cases hx
      rfl
    | succ k =>
      rw [List.getElem?_cons_succ] at hk ⊢
      rw [ih hs hk, transfer_contents hr, List.take_succ_cons, List.filterMap_cons]
      cases r.written n.toNat with
      | none => rfl
      | some x => rw [List.getLastD_cons, Option.getD_some]

end DiskRequest

namespace SynchDisk
variable {ι : Type} [DecidableEq ι] {d : Disk} {s t : SynchDisk ι} {i : ι} {c : DiskCall}

def Quiet (s : SynchDisk ι) : Prop := s.active = false ∧ s.semaphore = 0 ∧ s.pending = []

/-- A request is under way, up to its interrupt or up to the `P` of its caller. -/
def Waiting (s : SynchDisk ι) (k : ℕ) : Prop :=
  (s.active = true ∧ s.semaphore = 0 ∧ s.pending = [k]) ∨
    (s.active = false ∧ s.semaphore = 1 ∧ s.pending = [] ∧ k ∈ s.fired)

def Resources (s : SynchDisk ι) (c : DiskCall) : Prop :=
  match c.phase with
  | .check | .transfer | .activate => s.Quiet
  | .schedule => s.active = true ∧ s.semaphore = 0 ∧ s.pending = []
  | .wait => s.Waiting c.number
  | .release => s.Quiet ∧ c.number ∈ s.fired

/-- The disk is the one the calls before have left, or has the transfer of this call too. -/
def Transferred (d : Disk) (s : SynchDisk ι) (before : List DiskRequest) (c : DiskCall) : Prop :=
  ∃ answers, match c.phase with
  | .check | .transfer => DiskRequest.sequential d before = .ok (answers,s.contents)
  | _ => DiskRequest.sequential d (before ++ [c.request]) = .ok (answers ++ [c.data],s.contents)

structure Holding (d : Disk) (s : SynchDisk ι) (i : ι) (c : DiskCall) (before : List DiskRequest) :
    Prop where
  thread : s.threads i = .inside c
  acquired : s.acquired = before ++ [c.request]
  number : c.number = before.length
  resources : s.Resources c
  transferred : Transferred d s before c

structure Consistent (d : Disk) (s : SynchDisk ι) : Prop where
  running : s.crashed = false
  inRange : ∀ i r, s.threads i = .acquiring r → Disk.InRange r.sectorNumber
  alone : ∀ i c, s.threads i = .inside c → s.lock = some i
  free : s.lock = none → s.Quiet ∧
    ∃ answers, DiskRequest.sequential d s.acquired = .ok (answers,s.contents)
  held : ∀ i, s.lock = some i → ∃ c before, Holding d s i c before ∧
    Disk.InRange c.request.sectorNumber
  answered : ∃ answers d', DiskRequest.sequential d s.acquired = .ok (answers,d') ∧
    ∀ x ∈ s.returned, x.1 ∈ s.fired ∧ answers[x.1]? = some x.2

omit [DecidableEq ι] in
theorem Consistent.start (d : Disk) : Consistent d (start d : SynchDisk ι) := by
  refine ⟨rfl,?_,?_,fun _ => ⟨⟨rfl,rfl,rfl⟩,[],rfl⟩,?_,[],d,rfl,?_⟩
  · intro i r h
    cases h
  · intro i c h
    cases h
  · intro i h
    cases h
  · intro x hx
    cases hx

omit [DecidableEq ι] in
theorem Holding.of_thread {before : List DiskRequest} (h : Holding d s i c before)
    (ht : t.threads i = s.threads i) (ha : t.acquired = s.acquired)
    (hr : t.Resources c ↔ s.Resources c) (hc : t.contents = s.contents) :
    Holding d t i c before :=
  ⟨ht.trans h.thread,ha.trans h.acquired,h.number,hr.mpr h.resources,by
    rw [Transferred, hc]; exact h.transferred⟩

theorem Consistent.call (h : Consistent d s) {r : DiskRequest} (hi : s.threads i = .outside)
    (hr : Disk.InRange r.sectorNumber) : Consistent d (s.setThread i (.acquiring r)) := by
  refine ⟨h.running,?_,?_,h.free,?_,h.answered⟩
  · intro j q hj
    simp only [setThread, Function.update_apply] at hj
    split_ifs at hj
    · cases hj
      exact hr
    · exact h.inRange j q hj
  · intro j c hj
    simp only [setThread, Function.update_apply] at hj
    split_ifs at hj
    exact h.alone j c hj
  · intro j hj
    obtain ⟨c,before,hold,hin⟩ := h.held j hj
    have hne : j ≠ i := by
      rintro rfl
      have := hold.thread
      rw [hi] at this
      cases this
    exact ⟨c,before,hold.of_thread (Function.update_of_ne hne _ _) rfl Iff.rfl rfl,hin⟩

theorem Consistent.acquire (h : Consistent d s) {r : DiskRequest}
    (hi : s.threads i = .acquiring r) (hlock : s.lock = none) :
    Consistent d ({ s with lock := some i, acquired := s.acquired ++ [r] }.setThread i
      (.inside ⟨r,s.acquired.length,.check,none⟩)) := by
  obtain ⟨hquiet,answers,hseq⟩ := h.free hlock
  obtain ⟨data,d',hdata⟩ := DiskRequest.transfer_ok (d := s.contents) (h.inRange i r hi)
  refine ⟨h.running,?_,?_,?_,?_,answers ++ [data],d',DiskRequest.sequential_append hseq hdata,?_⟩
  · intro j q hj
    simp only [setThread, Function.update_apply] at hj
    split_ifs at hj
    exact h.inRange j q hj
  · intro j c hj
    simp only [setThread, Function.update_apply] at hj
    split_ifs at hj with hji
    · exact congrArg some hji.symm
    · have := h.alone j c hj
      rw [hlock] at this
      cases this
  · intro hno
    cases hno
  · intro j hj
    cases hj
    exact ⟨⟨r,s.acquired.length,.check,none⟩,s.acquired,⟨Function.update_self _ _ _,rfl,rfl,hquiet,
      answers,hseq⟩,h.inRange i r hi⟩
  · intro x hx
    obtain ⟨answers',d'',hseq',hret⟩ := h.answered
    rw [hseq] at hseq'
    cases hseq'
    obtain ⟨hfired,hx⟩ := hret x hx
    refine ⟨hfired,?_⟩
    rw [List.getElem?_append_left (List.getElem?_eq_some_iff.mp hx).1]
    exact hx

theorem Consistent.proceed (h : Consistent d s) {before : List DiskRequest} {c' : DiskCall}
    (hold : Holding d s i c before) (hin : Disk.InRange c.request.sectorNumber)
    (hlock : s.lock = some i) (ht : t.threads = Function.update s.threads i (.inside c'))
    (hl : t.lock = s.lock) (ha : t.acquired = s.acquired) (hret : t.returned = s.returned)
    (hf : t.fired = s.fired) (hcr : t.crashed = s.crashed) (hreq : c'.request = c.request)
    (hnum : c'.number = c.number) (hres : t.Resources c') (htr : Transferred d t before c') :
    Consistent d t := by
  refine ⟨hcr.trans h.running,?_,?_,?_,?_,?_⟩
  · intro j q hj
    rw [ht, Function.update_apply] at hj
    split_ifs at hj
    exact h.inRange j q hj
  · intro j e hj
    rw [ht, Function.update_apply] at hj
    rw [hl]
    split_ifs at hj with hji
    · rw [hlock, hji]
    · exact h.alone j e hj
  · intro hno
    rw [hl, hlock] at hno
    cases hno
  · intro j hj
    rw [hl, hlock] at hj
    cases hj
    refine ⟨c',before,⟨by rw [ht, Function.update_self],?_,hnum.trans hold.number,hres,htr⟩,?_⟩
    · rw [ha, hreq]
      exact hold.acquired
    · rw [hreq]
      exact hin
  · rw [ha, hret, hf]
    exact h.answered

theorem Consistent.release (h : Consistent d s) {before : List DiskRequest}
    (hold : Holding d s i c before) (hlock : s.lock = some i) (hphase : c.phase = .release) :
    Consistent d ({ s with lock := none, returned := s.returned ++ [(c.number,c.data)] }.setThread i
      .outside) := by
  have hres := hold.resources
  obtain ⟨answers,htr⟩ := hold.transferred
  rw [Resources, hphase] at hres
  simp only [hphase] at htr
  rw [← hold.acquired] at htr
  refine ⟨h.running,?_,?_,fun _ => ⟨hres.1,_,htr⟩,?_,_,_,htr,?_⟩
  · intro j q hj
    simp only [setThread, Function.update_apply] at hj
    split_ifs at hj
    exact h.inRange j q hj
  · intro j e hj
    simp only [setThread, Function.update_apply] at hj
    split_ifs at hj with hji
    have := h.alone j e hj
    rw [hlock] at this
    cases this
    exact absurd rfl hji
  · intro j hj
    cases hj
  · intro x hx
    rcases List.mem_append.mp hx with hx | hx
    · obtain ⟨answers',d',hseq,hret⟩ := h.answered
      rw [htr] at hseq
      cases hseq
      exact hret x hx
    · cases List.mem_singleton.mp hx
      refine ⟨hres.2,?_⟩
      have hlen := DiskRequest.sequential_length htr
      rw [hold.acquired] at hlen
      have hnum : c.number = answers.length := by
        have := hold.number
        simp at hlen
        omega
      rw [hnum, List.getElem?_append_right (Nat.le_refl _), Nat.sub_self]
      rfl

/-- By cases on what the call does next. -/
theorem Consistent.act (h : Consistent d s) (hs : s.act i = some t) : Consistent d t := by
  unfold SynchDisk.act at hs
  cases hi : s.threads i with
  | outside =>
    rw [hi] at hs
    cases hs
  | acquiring r =>
    rw [hi] at hs
    simp only [] at hs
    split_ifs at hs with hlock
    cases hs
    exact h.acquire hi (Option.isNone_iff_eq_none.mp hlock)
  | inside c =>
    rw [hi] at hs
    have hlock := h.alone i c hi
    obtain ⟨c₁,before,hold,hin⟩ := h.held i hlock
    obtain rfl : c₁ = c := by
      have := hold.thread
      rw [hi] at this
      cases this
      rfl
    have hres := hold.resources
    obtain ⟨answers,htr⟩ := hold.transferred
    simp only [SynchDisk.proceed] at hs
    cases hphase : c₁.phase with
    | check =>
      simp only [Resources, hphase] at hres
      simp only [hphase] at hs htr
      rw [if_neg (by rw [hres.1]; decide)] at hs
      cases hs
      exact h.proceed hold hin hlock rfl rfl rfl rfl rfl rfl rfl rfl hres ⟨answers,htr⟩
    | transfer =>
      simp only [Resources, hphase] at hres
      simp only [hphase] at hs htr
      obtain ⟨data,d',hdata⟩ := DiskRequest.transfer_ok (d := s.contents) hin
      rw [hdata] at hs
      cases hs
      exact h.proceed hold hin hlock rfl rfl rfl rfl rfl rfl rfl rfl
        hres
        ⟨answers,DiskRequest.sequential_append htr hdata⟩
    | activate =>
      simp only [Resources, hphase] at hres
      simp only [hphase] at hs htr
      cases hs
      exact h.proceed hold hin hlock rfl rfl rfl rfl rfl rfl rfl rfl
        ⟨rfl,hres.2⟩ ⟨answers,htr⟩
    | schedule =>
      simp only [Resources, hphase] at hres
      simp only [hphase] at hs htr
      cases hs
      refine h.proceed hold hin hlock rfl rfl rfl rfl rfl rfl rfl rfl (.inl ⟨hres.1,hres.2.1,?_⟩)
        ⟨answers,htr⟩
      simp [setThread, hres.2.2]
    | wait =>
      simp only [Resources, hphase] at hres
      simp only [hphase] at hs htr
      rcases hres with ⟨-,hzero,-⟩ | ⟨hact,hone,hpend,hfired⟩
      · rw [if_neg (by omega)] at hs
        cases hs
      · rw [if_pos (by omega)] at hs
        cases hs
        refine h.proceed hold hin hlock rfl rfl rfl rfl rfl rfl rfl rfl ⟨⟨hact,?_,hpend⟩,hfired⟩
          ⟨answers,htr⟩
        simp [setThread, hone]
    | release =>
      simp only [hphase] at hs
      cases hs
      exact h.release hold hlock hphase

omit [DecidableEq ι] in
/-- An interrupt fires only while the call that scheduled it waits. -/
theorem Consistent.interrupt (h : Consistent d s) {n : ℕ} (hs : s.handleInterrupt n = some t) :
    Consistent d t := by
  unfold handleInterrupt at hs
  cases hk : s.pending[n]? with
  | none =>
    rw [hk] at hs
    cases hs
  | some k =>
    rw [hk] at hs
    cases hs
    have hne : s.pending ≠ [] := fun hnil => by simp [hnil] at hk
    cases hlock : s.lock with
    | none => exact absurd (h.free hlock).1.2.2 hne
    | some i =>
      obtain ⟨c,before,hold,hin⟩ := h.held i hlock
      have hres := hold.resources
      have hwait : c.phase = .wait ∧ s.pending = [c.number] ∧ s.semaphore = 0 := by
        unfold Resources at hres
        cases hphase : c.phase with
        | check | transfer | activate =>
          simp only [hphase] at hres
          exact absurd hres.2.2 hne
        | schedule =>
          simp only [hphase] at hres
          exact absurd hres.2.2 hne
        | release =>
          simp only [hphase] at hres
          exact absurd hres.1.2.2 hne
        | wait =>
          simp only [hphase] at hres
          rcases hres with ⟨-,hzero,hpend⟩ | ⟨-,-,hpend,-⟩
          · exact ⟨rfl,hpend,hzero⟩
          · exact absurd hpend hne
      obtain ⟨hphase,hpend,hzero⟩ := hwait
      have hkn : n = 0 ∧ k = c.number := by
        rw [hpend] at hk
        cases n with
        | zero => exact ⟨rfl,(Option.some.inj hk).symm⟩
        | succ n => cases hk
      obtain ⟨rfl,rfl⟩ := hkn
      refine ⟨h.running,h.inRange,fun j e hj => hlock ▸ h.alone j e hj,?_,?_,?_⟩
      · intro hno
        cases hno
      · intro j hj
        cases hj
        refine ⟨c,before,⟨hold.thread,hold.acquired,hold.number,?_,?_⟩,hin⟩
        · simp only [Resources, hphase]
          refine .inr ⟨rfl,?_,?_,List.mem_append_right _ List.mem_cons_self⟩
          · simp [hzero]
          · simp [hpend]
        · exact hold.transferred
      · obtain ⟨answers,d',hseq,hret⟩ := h.answered
        exact ⟨answers,d',hseq,fun x hx =>
          ⟨List.mem_append_left _ (hret x hx).1,(hret x hx).2⟩⟩

end SynchDisk

/-- `ASSERT(!active)` holds, a call returns after its own interrupt, and it returns what it
returns when the calls are made one after another in the order they got the lock. -/
theorem synchronousDisk {ι : Type} [DecidableEq ι] {d : Disk} {s : SynchDisk ι}
    (h : (synchDisks ι d).Reachable s) :
    s.crashed = false ∧ ∃ answers d', DiskRequest.sequential d s.acquired = .ok (answers,d') ∧
      ∀ x ∈ s.returned, x.1 ∈ s.fired ∧ answers[x.1]? = some x.2 := by
  have hc : s.Consistent d := by
    refine h.invariant (P := fun s => s.Consistent d) (fun s hs => ?_) fun s l t hc hs => ?_
    · rw [hs]
      exact .start d
    · obtain ⟨-,hin,hs⟩ := hs
      cases l with
      | call i r =>
        simp only [SynchDisk.step] at hs
        cases hi : s.threads i with
        | outside =>
          rw [hi] at hs
          cases hs
          exact hc.call hi (hin i r rfl)
        | acquiring q | inside c =>
          rw [hi] at hs
          cases hs
      | act i => exact hc.act hs
      | interrupt n => exact hc.interrupt hs
  exact ⟨hc.running,hc.answered⟩

/-- Thread 0 reads sector 3 while thread 1 waits for the lock. -/
theorem synchronousDisk_read : ∃ (d : Disk) (s : SynchDisk ℕ),
    s.acquired = [.read 3] ∧ s.threads 1 = .acquiring (.read 5) ∧ s.returned = [(0,some (d 3))] ∧
    s.crashed = false ∧ ∃ answers d', DiskRequest.sequential d s.acquired = .ok (answers,d') ∧
      ∀ x ∈ s.returned, x.1 ∈ s.fired ∧ answers[x.1]? = some x.2 := by
  let d : Disk := fun _ => ⟨List.replicate sectorSize 0,List.length_replicate⟩
  have hrun : (synchDisks ℕ d).Reachable (.start d) := .start rfl
  have hcall : ∀ (j : ℕ) (n : ℤ), Disk.InRange n → ∀ i r,
      DiskStep.call j (.read n) = .call i r → Disk.InRange r.sectorNumber := by
    rintro j n hn i r h
    cases h
    exact hn
  have hrun := hrun.step (l := .call 0 (.read 3)) ⟨rfl,hcall 0 3 (by decide),rfl⟩
  have hrun := hrun.step (l := .call 1 (.read 5)) ⟨rfl,hcall 1 5 (by decide),rfl⟩
  have hact : ∀ {s t : SynchDisk ℕ} {l : DiskStep ℕ}, (synchDisks ℕ d).Reachable s →
      s.crashed = false → (∀ i r, l ≠ .call i r) → s.step l = some t →
      (synchDisks ℕ d).Reachable t := fun hr hc hl hs =>
    hr.step ⟨hc,fun i r h => absurd h (hl i r),hs⟩
  have hrun := hact (l := .act 0) hrun rfl (by simp) rfl
  have hrun := hact (l := .act 0) hrun rfl (by simp) rfl
  have hrun := hact (l := .act 0) hrun rfl (by simp) rfl
  have hrun := hact (l := .act 0) hrun rfl (by simp) rfl
  have hrun := hact (l := .act 0) hrun rfl (by simp) rfl
  have hrun := hact (l := .interrupt 0) hrun rfl (by simp) rfl
  have hrun := hact (l := .act 0) hrun rfl (by simp) rfl
  have hrun := hact (l := .act 0) hrun rfl (by simp) rfl
  exact ⟨d,_,rfl,rfl,rfl,synchronousDisk hrun⟩

end Nachos
