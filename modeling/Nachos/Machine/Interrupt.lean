import Nachos.Machine.Disk

/-! # Interrupts and the simulated clock

`interrupt.cc`. `List` is not part of the tree: what the code relies on is that
`SortedInsert` keeps ascending keys, and `SortedRemove` takes the head with its key.
What a handler does is up to the device that scheduled it; it sees the machine and its
own memory and may schedule further interrupts. Times are `long long` in the source and
unbounded here.
-/
namespace Nachos

inductive IntStatus where
  | intOff
  | intOn
  deriving DecidableEq

inductive MachineStatus where
  | idleMode
  | systemMode
  | userMode
  deriving DecidableEq

inductive IntType where
  | timerInt
  | diskInt
  | consoleWriteInt
  | consoleReadInt
  | networkSendInt
  | networkRecvInt
  deriving DecidableEq

structure Ticks where
  totalTicks : ℤ
  idleTicks : ℤ
  systemTicks : ℤ
  userTicks : ℤ

abbrev userTick : ℤ := 1
abbrev systemTick : ℤ := 10

/-- `serial` tells apart the objects that `new` has made. -/
structure PendingInterrupt where
  serial : ℕ
  handler : ℕ
  arg : ℤ
  when : ℤ
  type : IntType
  deriving DecidableEq

structure SortedList where
  sortedInsert : PendingInterrupt → ℤ → List (ℤ × PendingInterrupt) → List (ℤ × PendingInterrupt)
  sortedInsert_perm : ∀ p k l, (sortedInsert p k l).Perm ((k,p) :: l)
  sortedInsert_sorted : ∀ p k l, l.Pairwise (fun a b => a.1 ≤ b.1) →
    (sortedInsert p k l).Pairwise fun a b => a.1 ≤ b.1

/-- The last two fields record every interrupt that was scheduled, and every one whose
handler was called, with the time of the call. -/
structure Interrupt where
  level : IntStatus
  pending : List (ℤ × PendingInterrupt)
  inHandler : Bool
  yieldOnReturn : Bool
  status : MachineStatus
  stats : Ticks
  scheduled : List PendingInterrupt
  invoked : List (PendingInterrupt × ℤ)

/-- A handler calls `YieldOnReturn` and `Schedule`, which asserts `fromNow > 0`. -/
inductive HandlerCall where
  | yieldOnReturn
  | schedule (handler : ℕ) (arg fromNow : ℤ) (type : IntType) (positive : 0 < fromNow)

/-- What each handler does, in a machine and a memory of the devices. -/
abbrev Devices (μ : Type) := PendingInterrupt → Interrupt → μ → List HandlerCall × μ

namespace Interrupt

def new : Interrupt where
  level := .intOff
  pending := []
  inHandler := false
  yieldOnReturn := false
  status := .systemMode
  stats := ⟨0,0,0,0⟩
  scheduled := []
  invoked := []

variable (L : SortedList) {μ : Type} (dev : Devices μ)

def schedule (s : Interrupt) (handler : ℕ) (arg fromNow : ℤ) (type : IntType) :
    Outcome Interrupt :=
  let when := s.stats.totalTicks + fromNow
  let toOccur : PendingInterrupt := ⟨s.scheduled.length,handler,arg,when,type⟩
  if 0 < fromNow then
    .ok { s with
      pending := L.sortedInsert toOccur when s.pending
      scheduled := s.scheduled ++ [toOccur] }
  else .error .assertion

def requestYield (s : Interrupt) : Outcome Interrupt :=
  if s.inHandler then .ok { s with yieldOnReturn := true } else .error .assertion

def runCalls : List HandlerCall → Interrupt → Outcome Interrupt
  | [], s => return s
  | .yieldOnReturn :: calls, s => do
    let s ← s.requestYield
    runCalls calls s
  | .schedule handler arg fromNow type _ :: calls, s => do
    let s ← s.schedule L handler arg fromNow type
    runCalls calls s

/-- The end of `CheckIfDue`: `toOccur` has been taken from the list and is due. The
registers of a user program, whose delayed load ends here, are not part of this state. -/
def invoke (when : ℤ) (toOccur : PendingInterrupt) (s : Interrupt) (mem : μ) :
    Outcome (Bool × Interrupt × μ) := do
  let old := s.status
  -- nothing more to do
  if s.status = .idleMode ∧ toOccur.type = .timerInt ∧ s.pending = [] then
    return (false,{ s with pending := L.sortedInsert toOccur when s.pending },mem)
  let s := { s with
    inHandler := true
    status := .systemMode
    invoked := s.invoked ++ [(toOccur,s.stats.totalTicks)] }
  let (calls,mem) := dev toOccur s mem
  let s ← s.runCalls L calls
  return (true,{ s with status := old, inHandler := false },mem)

def checkIfDue (advanceClock : Bool) (s : Interrupt) (mem : μ) : Outcome (Bool × Interrupt × μ) :=
  if s.level ≠ .intOff then .error .assertion
  else match s.pending with
  | [] => .ok (false,s,mem)
  | (when,toOccur) :: rest =>
    let s := { s with pending := rest }
    if advanceClock = true ∧ s.stats.totalTicks < when then
      let stats := { s.stats with
        idleTicks := s.stats.idleTicks + (when - s.stats.totalTicks)
        totalTicks := when }
      invoke L dev when toOccur { s with stats := stats } mem
    else if s.stats.totalTicks < when then
      .ok (false,{ s with pending := L.sortedInsert toOccur when s.pending },mem)
    else invoke L dev when toOccur s mem

/-- `while (CheckIfDue(FALSE));`, for at most the given number of passes. -/
def drain : ℕ → Interrupt → μ → Outcome (Option (Interrupt × μ))
  | 0, _, _ => return none
  | passes + 1, s, mem => do
    let (fired,s,mem) ← checkIfDue L dev false s mem
    if fired then drain passes s mem else return some (s,mem)

def advance (s : Interrupt) : Interrupt :=
  if s.status = .systemMode then
    { s with stats := { s.stats with
        totalTicks := s.stats.totalTicks + systemTick
        systemTicks := s.stats.systemTicks + systemTick } }
  else
    { s with stats := { s.stats with
        totalTicks := s.stats.totalTicks + userTick
        userTicks := s.stats.userTicks + userTick } }

/-- Up to the call of `Yield`, with the status that is to be restored after it. -/
def oneTick (passes : ℕ) (s : Interrupt) (mem : μ) :
    Outcome (Option (Interrupt × Option MachineStatus × μ)) := do
  let old := s.status
  let s := s.advance
  let r ← drain L dev passes { s with level := .intOff } mem
  match r with
  | none => return none
  | some (s,mem) =>
    let s := { s with level := .intOn }
    if s.yieldOnReturn then
      return some ({ s with yieldOnReturn := false, status := .systemMode },some old,mem)
    else return some (s,none,mem)

/-- `true` when there is something to run again, `false` when the machine halts. -/
def idle (passes : ℕ) (s : Interrupt) (mem : μ) : Outcome (Option (Bool × Interrupt × μ)) := do
  let (fired,s,mem) ← checkIfDue L dev true { s with status := .idleMode } mem
  if fired then
    let r ← drain L dev passes s mem
    match r with
    | none => return none
    | some (s,mem) => return some (true,{ s with yieldOnReturn := false, status := .systemMode },mem)
  else return some (false,s,mem)

def setLevel (passes : ℕ) (now : IntStatus) (s : Interrupt) (mem : μ) :
    Outcome (Option (Interrupt × Option MachineStatus × μ)) :=
  let old := s.level
  if now = .intOff ∨ s.inHandler = false then
    let s := { s with level := now }
    if now = .intOn ∧ old = .intOff then oneTick L dev passes s mem else .ok (some (s,none,mem))
  else .error .assertion

end Interrupt

end Nachos
