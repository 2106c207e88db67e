import Nachos.Network.RelayRuns
import Mathlib.Algebra.Group.Fin.Basic
import Mathlib.Algebra.Group.Units.Equiv
import Mathlib.Algebra.GroupWithZero.Nat
import Mathlib.Data.Fintype.Card

/-! # The tests of the post office are relays

`MailTest` on machines of which each has another one, and `RingTest` on a ring. On a network that
loses nothing every machine comes to its end, after a number of steps that is known, and has
printed what was sent to it; when packets are lost nothing else is printed and no assertion fails.
-/
namespace Nachos

/-- What is expected of a test on these machines. -/
structure TestWorks {ι : Type} [Fintype ι] [DecidableEq ι]
    (T : TransitionSystem (ι → PostalMachine) (ι × PostalAct)) (lines : ι → List Line) : Prop where
  /-- Whatever is lost, nothing fails and no machine halts before its test is done. -/
  safe : ∀ w, T.Reachable w → ∀ a, (w a).crashed = false ∧ (w a).station.crashed = false ∧
    ((w a).halted = true → (w a).printed = lines a)
  /-- The steps come to an end. -/
  finite : ∀ ls w, (T.guard Relay.Busy).Run ls w → ls.length ≤ 121 * Fintype.card ι
  /-- As long as nothing has been lost, some machine can go on until all have halted. -/
  finishes : ∀ ls w, T.Run ls w → (∀ l ∈ ls, ¬ l.2.Loses) → (∀ a, (w a).halted = true) ∨
    ∃ l w', T.step w l w' ∧ ¬ l.2.Loses ∧ Relay.Busy w l

namespace Relay
variable {ι : Type} {R : Relay ι} {numBoxes : ℤ} {program : ι → PostProg Empty} {exact : Prop}
  {w : ι → PostalMachine} {ls : List (ι × PostalAct)}

/-- Programs that do their errand. -/
def Keeps (R : Relay ι) (program : ι → PostProg Empty) : Prop :=
  ∀ a, (program a).Straight ∧ (program a).Sat (R.contract a) (fun _ _ => False) (.start 20)

theorem attends_start {a : ι} {m : PostalMachine} (hprogram : R.Keeps program)
    (h : m.Starts (R.addr a) numBoxes (program a)) :
    R.Attends numBoxes a m (.start 20) ∧ cost m (.start 20) = 121 := by
  obtain ⟨hstation,hbusy,hprog,hlock,hunder,hsent,hprinted,hcrashed,hhalted⟩ := h
  have hdel := Delivering.start hstation
  obtain ⟨-,-,-,hsocket,havail,hworker,-,-,hread,-,htaken⟩ := hstation
  obtain ⟨hstraight,hsat⟩ := hprogram a
  refine ⟨⟨hdel,hbusy,hprog ▸ hsat,hprog ▸ hstraight,hlock,?_,hprinted,hcrashed,?_,?_,?_⟩,?_⟩
  · rw [hunder, hsent]
    rfl
  · intro k
    rw [htaken]
    rfl
  · intro p hp
    rw [Station.arrived, hread, hsocket] at hp
    cases hp
  · intro hh
    rw [hhalted] at hh
    cases hh
  · simp [cost, Station.remaining, hsocket, havail, hworker, hunder, hhalted, Errand.start]

variable [Fintype ι] [DecidableEq ι]

theorem inStep_start (hprogram : R.Keeps program)
    (h : (postalNet R.addr numBoxes program).init w) :
    InStep R numBoxes exact w (fun _ => .start 20) ∧
      total w (fun _ => .start 20) = 121 * Fintype.card ι := by
  have hempty : ∀ a, (w a).station.arrived = [] := by
    intro a
    obtain ⟨⟨-,-,-,hsocket,-,-,-,-,hread,-⟩,-⟩ := h a
    rw [Station.arrived, hread, hsocket]
    rfl
  refine ⟨⟨fun a => (attends_start hprogram (h a)).1,fun a k => ?_,fun _ a k => Nat.zero_le _⟩,?_⟩
  · rw [hempty]
    exact Nat.zero_le _
  · rw [total, Finset.sum_const_nat fun a _ => (attends_start hprogram (h a)).2, Nat.mul_comm]
    rfl

theorem inStep_of_run (exact : Prop) (hprogram : R.Keeps program) (hboxes : 2 ≤ numBoxes)
    (hrun : (postalNet R.addr numBoxes program).Run ls w)
    (hlossless : exact → ∀ l ∈ ls, ¬ l.2.Loses) : ∃ g, InStep R numBoxes exact w g := by
  induction hrun with
  | start h => exact ⟨_,(inStep_start hprogram h).1⟩
  | @step ls u v l _ hstep ih =>
    obtain ⟨g,hg⟩ := ih fun he l' hl' => hlossless he l' (List.mem_append_left _ hl')
    obtain ⟨g',hg',-⟩ := hg.step hboxes hstep fun he =>
      hlossless he l (List.mem_append_right _ (List.mem_singleton_self l))
    exact ⟨g',hg'⟩

theorem length_add_total (hprogram : R.Keeps program) (hboxes : 2 ≤ numBoxes)
    (hrun : ((postalNet R.addr numBoxes program).guard Busy).Run ls w) :
    ∃ g, InStep R numBoxes False w g ∧ ls.length + total w g ≤ 121 * Fintype.card ι := by
  induction hrun with
  | start h =>
    obtain ⟨hg,htotal⟩ := inStep_start hprogram h
    exact ⟨_,hg,by rw [htotal, List.length_nil, Nat.zero_add]⟩
  | @step ls u v l _ hstep ih =>
    obtain ⟨hbusy,hstep⟩ := hstep
    obtain ⟨g,hg,hle⟩ := ih
    obtain ⟨g',hg',⟨hsame,hpoll⟩ | hless⟩ := hg.step hboxes hstep False.elim
    · refine absurd ?_ (hbusy hpoll)
      have hnext : PostalNet.step u l.1 l.2 = some v := hstep
      rw [hpoll, PostalNet.step] at hnext
      split_ifs at hnext
      have hupdate := (Option.some_inj.mp hnext).trans hsame
      have hmachine : ({ u l.1 with station := (u l.1).station.poll } : PostalMachine) = u l.1 := by
        have := congrFun hupdate l.1
        simpa [PostalNet.deliver] using this
      exact congrArg PostalMachine.station hmachine
    · refine ⟨g',hg',?_⟩
      rw [List.length_append, List.length_singleton]
      omega

/-- Whatever program each machine runs, if it does its errand the test works. -/
theorem works (hprogram : R.Keeps program) (hboxes : 2 ≤ numBoxes) :
    TestWorks (postalNet R.addr numBoxes program) R.lines := by
  refine ⟨fun w hw a => ?_,fun ls w hrun => ?_,fun ls w hrun hlossless => ?_⟩
  · obtain ⟨ls,hrun⟩ := hw
    obtain ⟨g,hg⟩ := inStep_of_run False hprogram hboxes hrun False.elim
    have ha := hg.attends a
    refine ⟨ha.running,ha.delivering.crashed,fun hh => ?_⟩
    rw [ha.printed, (ha.halted hh).1]
  · obtain ⟨g,-,hle⟩ := length_add_total hprogram hboxes hrun
    omega
  · obtain ⟨g,hg⟩ := inStep_of_run True hprogram hboxes hrun fun _ => hlossless
    by_contra hnot
    rw [not_or, not_exists] at hnot
    refine hnot.1 (hg.all_halted hboxes fun a act w' hstep hlost hbusy => ?_)
    exact hnot.2 (a,act) ⟨w',hstep,hlost,hbusy⟩

end Relay

/-! The tests. -/

section MailTest
variable {ι : Type} (addr : ι → Word) (far : Equiv.Perm ι)

/-- What `MailTest` prints. -/
def mailTestLines (a : ι) : List Line :=
  [.got helloText.dropLast (addr (far.symm a)) 1,.got gotItText.dropLast (addr (far a)) 1]

variable {addr}

/-- Each machine sends first. -/
def mailRelay (haddr : Function.Injective addr) : Relay ι where
  addr := addr
  addr_injective := haddr
  next := far
  starts _ := true
  reached a := ⟨a,0,rfl,rfl⟩
  chars := helloText.dropLast
  chars_ne := by decide
  chars_fit := by decide
  lines := mailTestLines addr far

/-- `MailTest` on machines each of which has a machine of its own to write to. -/
theorem mailTest_works [Fintype ι] [DecidableEq ι] (haddr : Function.Injective addr) (numBoxes : ℤ)
    (hboxes : 2 ≤ numBoxes) (vars : ι → TestLocals) :
    TestWorks (postalNet addr numBoxes fun a => mailTest (addr (far a)) (vars a))
      (mailTestLines addr far) := by
  refine Relay.works (R := mailRelay far haddr) (fun a => ⟨?_,?_⟩) hboxes
  · exact (straight_sendFirst _ _ _).bind fun _ => straight_post _
  · refine Prog.Sat.bind (Relay.sat_sendFirst (R := mailRelay far haddr) rfl
      ⟨rfl,rfl,fun _ => rfl,fun _ => rfl,by decide⟩ rfl rfl rfl) fun _ t ht =>
      Relay.sat_halt ht

end MailTest

def TestLocals.zero : TestLocals := ⟨⟨0,0,0⟩,⟨List.replicate _ 0,List.length_replicate⟩⟩

/-- Machines 0 and 1 write to each other. -/
theorem mailTest_works_two :
    let T := postalNet (fun a : Fin 2 => BitVec.ofNat 32 a) 10 fun a =>
      mailTest (BitVec.ofNat 32 (Equiv.swap 0 1 a : Fin 2)) .zero
    (∃ w, T.init w) ∧
      TestWorks T (mailTestLines (fun a : Fin 2 => BitVec.ofNat 32 a) (Equiv.swap 0 1)) :=
  ⟨⟨_,fun _ => PostalMachine.new_starts _ _ _⟩,
    mailTest_works (Equiv.swap 0 1) (by decide) 10 (by decide) fun _ => .zero⟩

section RingTest
variable (n : ℕ)

/-- Machines 0 to `n - 1`. -/
def ringAddr (a : Fin n) : Word := BitVec.ofNat 32 a

variable {n}

theorem toInt_ringAddr (hn : IsInt n) (a : Fin n) : (ringAddr n a).toInt = a := by
  have ha := a.isLt
  unfold IsInt at hn
  have hnat : (BitVec.ofNat 32 a.val).toNat = a := by
    rw [BitVec.toNat_ofNat]
    omega
  rw [ringAddr, BitVec.toInt_eq_toNat_of_lt (by omega), hnat]

variable [NeZero n]

/-- What `RingTest` prints. -/
def ringTestLines (n : ℕ) [NeZero n] (a : Fin n) : List Line :=
  [.machine a n] ++ (if a = 0 then [.got helloThereText.dropLast (ringAddr n (a - 1)) 1] else []) ++
    [.got gotItText.dropLast (ringAddr n (a + 1)) 1]

/-- The next machine is the one `RingTest` computes. -/
theorem ofInt_next (hn : IsInt n) (a : Fin n) :
    BitVec.ofInt 32 (Int.tmod ((ringAddr n a).toInt + 1) n) = ringAddr n (a + 1) := by
  rw [toInt_ringAddr hn, ringAddr, Fin.val_add, Fin.val_one', Nat.add_mod_mod]
  have hmod : Int.tmod ((a : ℤ) + 1) n = ((a.val + 1) % n : ℕ) := by
    rw [Int.tmod_eq_emod_of_nonneg (by omega)]
    norm_cast
  rw [hmod, BitVec.ofInt_natCast]

/-- Only machine 0 sends first. -/
def ringRelay (hn : IsInt n) : Relay (Fin n) where
  addr := ringAddr n
  addr_injective a b hab := by
    have hint := congrArg BitVec.toInt hab
    rw [toInt_ringAddr hn, toInt_ringAddr hn] at hint
    exact Fin.ext (by exact_mod_cast hint)
  next := Equiv.addRight 1
  starts a := decide (a = 0)
  reached a := ⟨0,a,by simp,by
    have hadd : ∀ k : ℕ, (Equiv.addRight (1 : Fin n))^[k] 0 = Fin.ofNat n k := by
      intro k
      induction k with
      | zero => rfl
      | succ k ih =>
        rw [Function.iterate_succ_apply', ih]
        ext
        simp [Fin.val_add]
    rw [hadd]
    exact Fin.ext (Nat.mod_eq_of_lt a.isLt)⟩
  chars := helloThereText.dropLast
  chars_ne := by decide
  chars_fit := by decide
  lines := ringTestLines n

theorem sat_ringTest (hn : IsInt n) (a : Fin n) (vars : TestLocals) :
    (ringTest n vars).Sat ((ringRelay hn).contract a) (fun _ _ => False) (.start 20) := by
  have hpos : ¬ (n : ℤ) < 1 := by
    have := a.isLt
    omega
  rw [ringTest, if_neg hpos]
  refine ⟨⟨by decide,trivial⟩,?_⟩
  rintro r t ⟨rfl,rfl⟩
  refine ⟨⟨by decide,trivial⟩,?_⟩
  rintro - t rfl
  have hint : ((ringRelay hn).addr a).toInt = a := toInt_ringAddr hn a
  have hdest := ofInt_next hn a
  change Prog.Sat _ ((if _ then _ else _) >>= fun _ => halt) _ _
  refine Prog.Sat.bind ?_ fun _ t ht => Relay.sat_halt ht
  by_cases ha : a = 0
  · have hzero : ((ringRelay hn).addr a).toInt = 0 := by
      rw [hint, ha]
      rfl
    have hlines : (ringRelay hn).lines a = [.machine ((ringRelay hn).addr a).toInt n] ++
        [(ringRelay hn).firstLine a] ++ [(ringRelay hn).lastLine a] := by
      rw [hint]
      change ringTestLines n a = _
      rw [ringTestLines, if_pos ha, sub_eq_add_neg]
      rfl
    have hfirst : BitVec.ofInt 32 (Int.tmod 1 n) = ringAddr n (a + 1) := by
      rw [← hdest, show (ringAddr n a).toInt = 0 from hzero]
      rfl
    rw [if_pos hzero, hlines]
    refine Relay.sat_sendFirst (R := ringRelay hn) (a := a) rfl ?_ (decide_eq_true ha) hfirst rfl
    exact ⟨rfl,rfl,fun _ => rfl,fun _ => rfl,show 16 ≤ 20 - 1 - 1 by decide⟩
  · have hzero : ¬ ((ringRelay hn).addr a).toInt = 0 := by
      rw [hint]
      exact fun h => ha (by exact_mod_cast h)
    have hlines : (ringRelay hn).lines a = [.machine ((ringRelay hn).addr a).toInt n] ++
        [(ringRelay hn).lastLine a] := by
      rw [hint]
      change ringTestLines n a = _
      rw [ringTestLines, if_neg ha]
      rfl
    rw [if_neg hzero, hlines]
    refine Relay.sat_receiveFirst (R := ringRelay hn) (a := a) rfl ?_ (decide_eq_false ha) hdest
    exact ⟨rfl,rfl,fun _ => rfl,fun _ => rfl,show 16 ≤ 20 - 1 - 1 by decide⟩

theorem straight_ringTest (n : ℤ) (hn : ¬ n < 1) (vars : TestLocals) :
    (ringTest n vars).Straight := by
  rw [ringTest, if_neg hn]
  refine .bind (straight_post _) fun netAddr => .bind (straight_post _) fun _ => ?_
  refine .bind ?_ fun _ => straight_post _
  split_ifs
  · exact straight_sendFirst _ _ _
  · exact straight_receiveFirst _ _

/-- `RingTest` on machines 0 to `n - 1`. -/
theorem ringTest_works (hn : IsInt n) (numBoxes : ℤ) (hboxes : 2 ≤ numBoxes)
    (vars : Fin n → TestLocals) :
    TestWorks (postalNet (ringAddr n) numBoxes fun a => ringTest n (vars a)) (ringTestLines n) := by
  refine Relay.works (R := ringRelay hn) (fun a => ⟨?_,sat_ringTest hn a (vars a)⟩) hboxes
  refine straight_ringTest _ ?_ _
  have := a.isLt
  omega

theorem ringTest_works_three :
    let T := postalNet (ringAddr 3) 10 fun _ => ringTest 3 .zero
    (∃ w, T.init w) ∧ TestWorks T (ringTestLines 3) :=
  ⟨⟨_,fun _ => PostalMachine.new_starts _ _ _⟩,
    ringTest_works (n := 3) ⟨by decide,by decide⟩ 10 (by decide) fun _ => .zero⟩

end RingTest

end Nachos
