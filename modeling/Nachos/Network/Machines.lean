import Nachos.Network.Office

/-! # Machines on a network

Any number of machines, each with its own clock. Between two of them packets keep their order,
and any packet may be lost.
-/
namespace Nachos

/-- The machines by their addresses, and the packets under way from one to another. -/
structure Machines where
  office : ℤ → Office
  channel : ℤ × ℤ → List (PktType × TcpMail)

inductive MachinesStep where
  | own (a : ℤ) (l : OfficeStep)
  | lose (a b : ℤ) (k : ℕ)
  | deliver (a b : ℤ)

namespace Machines

/-- A packet handed to the network. -/
def transmit (w : Machines) (a : ℤ) : Option Message → ℤ × ℤ → List (PktType × TcpMail)
  | none => w.channel
  | some m => Function.update w.channel (a,m.toAddr)
      (w.channel (a,m.toAddr) ++ [(m.type,(w.office a).mail m)])

def step (w : Machines) : MachinesStep → Option Machines
  | .own _ (.arrive _ _) => none
  | .own a l => ((w.office a).step l).map fun (o,sent) =>
      ⟨Function.update w.office a o,w.transmit a sent⟩
  | .lose a b k =>
    some ⟨w.office,Function.update w.channel (a,b) ((w.channel (a,b)).eraseIdx k)⟩
  | .deliver a b =>
    match w.channel (a,b) with
    | [] => none
    | (box,mail) :: rest =>
      some ⟨Function.update w.office b ((w.office b).put box mail),
        Function.update w.channel (a,b) rest⟩

def New (w : Machines) : Prop :=
  (∀ a, (w.office a).New ∧ (w.office a).id = a) ∧ ∀ ab, w.channel ab = []

def new : Machines := ⟨Office.new,fun _ => []⟩

theorem new_new : new.New := ⟨fun a => ⟨Office.new_new a,rfl⟩,fun _ => rfl⟩

def steps (w : Machines) : List MachinesStep → Option Machines
  | [] => some w
  | l :: ls => (w.step l).bind fun w => w.steps ls

variable {w w' : Machines} {l : MachinesStep}

theorem own_eq {a : ℤ} {l : OfficeStep} (h : w.step (.own a l) = some w') :
    (∀ box mail, l ≠ .arrive box mail) ∧ ∃ o sent, (w.office a).step l = some (o,sent) ∧
      w' = ⟨Function.update w.office a o,w.transmit a sent⟩ := by
  cases l with
  | arrive box mail => cases h
  | call | listen | run | finish | wakeUp | elapse =>
    simp only [step] at h
    obtain ⟨⟨o,sent⟩,hstep,heq⟩ := Option.map_eq_some_iff.mp h
    exact ⟨fun _ _ h => (nomatch h),o,sent,hstep,heq.symm⟩

theorem deliver_eq {a b : ℤ} (h : w.step (.deliver a b) = some w') :
    ∃ box mail rest, w.channel (a,b) = (box,mail) :: rest ∧
      w' = ⟨Function.update w.office b ((w.office b).put box mail),
        Function.update w.channel (a,b) rest⟩ := by
  simp only [step] at h
  split at h
  · cases h
  case h_2 box mail rest hchannel =>
    cases h
    exact ⟨box,mail,rest,hchannel,rfl⟩

theorem step_office (h : w.step l = some w') (a : ℤ) :
    w'.office a = w.office a ∨
      ∃ l' sent, (w.office a).step l' = some (w'.office a,sent) ∧
        (l = .own a l' ∨ ∃ b box mail, l = .deliver b a ∧ l' = .arrive box mail) := by
  cases l with
  | own c l =>
    obtain ⟨-,o,sent,hstep,rfl⟩ := own_eq h
    by_cases hac : a = c
    · subst hac
      exact .inr ⟨l,sent,by simpa using hstep,.inl rfl⟩
    · exact .inl (Function.update_of_ne hac _ _)
  | lose c b k =>
    cases h
    exact .inl rfl
  | deliver c b =>
    obtain ⟨box,mail,rest,-,rfl⟩ := deliver_eq h
    by_cases hab : a = b
    · subst hab
      exact .inr ⟨.arrive box mail,none,by simp [Office.step],.inr ⟨c,box,mail,rfl,rfl⟩⟩
    · exact .inl (Function.update_of_ne hab _ _)

end Machines

/-- The runs of the network. -/
def machines : TransitionSystem Machines MachinesStep where
  init := Machines.New
  step w l w' := w.step l = some w'

theorem reachable_office {w : Machines} (h : machines.Reachable w) (a : ℤ) :
    offices.Reachable (w.office a) := by
  refine h.invariant (P := fun w => offices.Reachable (w.office a)) ?_ ?_
  · exact fun w hw => .start (hw.1 a).1
  · intro w l w' hw hstep
    rcases Machines.step_office hstep a with heq | ⟨l',sent,hl,-⟩
    · exact heq ▸ hw
    · exact hw.step ⟨sent,hl⟩

/-- The same for what a machine does from some moment on. -/
theorem startAt_office {w₀ w : Machines} (h : (machines.startAt w₀).Reachable w) (a : ℤ) :
    (offices.startAt (w₀.office a)).Reachable (w.office a) := by
  refine h.invariant (P := fun w => (offices.startAt (w₀.office a)).Reachable (w.office a)) ?_ ?_
  · exact fun w hw => .start (hw ▸ rfl)
  · intro w l w' hw hstep
    rcases Machines.step_office hstep a with heq | ⟨l',sent,hl,-⟩
    · exact heq ▸ hw
    · exact hw.step ⟨sent,hl⟩

theorem startAt_steps {ls : List MachinesStep} {w₀ w w' : Machines}
    (h : (machines.startAt w₀).Reachable w) (hsteps : w.steps ls = some w') :
    (machines.startAt w₀).Reachable w' := by
  induction ls generalizing w with
  | nil =>
    cases hsteps
    exact h
  | cons l ls ih =>
    obtain ⟨w₁,hstep,hrest⟩ := Option.bind_eq_some_iff.mp hsteps
    exact ih (h.step hstep) hrest

def Machines.stepsWhere (ok : Machines → MachinesStep → Prop) [∀ w l, Decidable (ok w l)]
    (w : Machines) : List MachinesStep → Option Machines
  | [] => some w
  | l :: ls => if ok w l then (w.step l).bind fun w => w.stepsWhere ok ls else none

theorem reachable_stepsWhere {ok : Machines → MachinesStep → Prop} [∀ w l, Decidable (ok w l)]
    {T : TransitionSystem Machines MachinesStep} (hT : T.step = machines.step)
    {ls : List MachinesStep} {w w' : Machines} (h : (T.guard ok).Reachable w)
    (hsteps : w.stepsWhere ok ls = some w') : (T.guard ok).Reachable w' := by
  induction ls generalizing w with
  | nil =>
    cases hsteps
    exact h
  | cons l ls ih =>
    rw [Machines.stepsWhere] at hsteps
    split_ifs at hsteps with hok
    obtain ⟨w₁,hstep,hrest⟩ := Option.bind_eq_some_iff.mp hsteps
    exact ih (h.step ⟨hok,by rw [hT]; exact hstep⟩) hrest

/-! Schedules, for runs on fixed inputs. -/

namespace Machines

/-- Steps of one thread, with nothing but zeros in files and memory. -/
def runs (a : ℤ) (thread : TcpThread) (n : ℕ) : List MachinesStep :=
  List.replicate n (.own a (.run thread ⟨true,0,[0]⟩))

/-- The wake-up of a wait. -/
def wakes (a : ℤ) (ticks : ℕ) : List MachinesStep :=
  [.own a (.elapse ticks),.own a (.wakeUp 0)]

/-- The loop of `CatchWithAnswer` when nothing comes. -/
def catchesNothing (a : ℤ) (thread : TcpThread) : List MachinesStep :=
  (List.replicate maxCatch (runs a thread 2 ++ wakes a tempo ++ runs a thread 4)).flatten ++
    runs a thread 1

/-- `SyncWithMachine` on one machine and `OpenConnection` on the other. -/
def connects (a b : ℤ) : List MachinesStep :=
  [.own a (.call (.syncWithMachine b)),.own b (.call .openConnection)] ++
    runs a .user 4 ++ [.deliver a b] ++ runs b .user 4 ++ [.deliver b a] ++
    catchesNothing b .user ++ runs b .user 3 ++ [.deliver b a] ++
    wakes a tempo ++ runs a .user 8 ++ wakes a tempo ++ runs a .user 6 ++ [.deliver a b] ++
    catchesNothing a .user ++ runs a .user 2 ++ [.own a (.finish .user)] ++
    wakes b tempo ++ runs b .user 8 ++ [.own b (.finish .user)]

def ends (a b : ℤ) : List MachinesStep :=
  [.own b .listen,.own a (.call .endConnection)] ++ runs a .user 6 ++ [.deliver a b] ++
    runs b .listener 3 ++ [.deliver b a] ++ wakes a tempo ++ runs a .user 9 ++
    [.own a (.finish .user)] ++ catchesNothing b .listener ++ runs b .listener 2 ++
    [.own b (.finish .listener)]

/-- A mail goes to machine 1. -/
def mailToReceiver : List MachinesStep := [.deliver 0 1] ++ wakes 1 tempo

/-- An ack goes to machine 0. -/
def ackToSender : List MachinesStep := [.deliver 1 0] ++ wakes 0 tempo

def waitsOut (a : ℤ) : List MachinesStep :=
  (List.replicate maxCatch (wakes a tempo ++ runs a .user 6)).flatten

end Machines

end Nachos
