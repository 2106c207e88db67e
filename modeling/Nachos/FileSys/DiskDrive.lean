import Nachos.FileSys.SynchDisk
import Nachos.Machine.DiskLatency
import Nachos.Machine.InterruptSource

/-! # The synchronous disk and the interrupt queue

`disk.cc` and `synchdisk.cc` on the kernel. A request computes how long it takes and schedules
`DiskDone` for that time; the clock, the other devices and the threads go on in any order. The
level of the interrupts does not change inside `ReadRequest` and `WriteRequest`, so they are one
step.
-/
namespace Nachos

def DiskRequest.writing : DiskRequest → Bool
  | .read _ => false
  | .write _ _ => true

/-- The disk, what `SynchDisk` adds to it, and the threads, of which the one with the lock stands
at `check`, `wait` or `release`. The last three fields record the time of the last request, the
requests as they acquired the lock, and what each call returned. -/
structure DiskDrive (ι : Type) where
  contents : Disk
  head : DiskHead
  active : Bool
  semaphore : ℕ
  lock : Option ι
  threads : ι → DiskThread
  fault : Option Fault
  issued : ℤ
  acquired : List DiskRequest
  returned : List (ℕ × Option Sector)

inductive DriveStep (ι ν : Type) where
  | kernel (l : KernelCall (DiskDrive ι × ν))
  | call (i : ι) (request : DiskRequest)
  | act (i : ι)

namespace DiskDrive
variable {ι ν : Type} [DecidableEq ι] (L : SortedList) (src : InterruptSource)

def start (d : Disk) : DiskDrive ι where
  contents := d
  head := .new
  active := false
  semaphore := 0
  lock := none
  threads _ := .outside
  fault := none
  issued := 0
  acquired := []
  returned := []

def setThread (m : DiskDrive ι) (i : ι) (t : DiskThread) : DiskDrive ι :=
  { m with threads := Function.update m.threads i t }

omit [DecidableEq ι] in
/-- `ReadRequest` or `WriteRequest`, at the time of the clock. -/
def request (m : DiskDrive ι) (r : DiskRequest) (s : Interrupt) :
    Outcome (Option Sector × DiskDrive ι × Interrupt) := do
  let ticks ← m.head.computeLatency s.stats.totalTicks r.sectorNumber r.writing
  if m.active then .error .assertion
  else
    let (data,contents) ← r.transfer m.contents
    let head ← m.head.updateLast s.stats.totalTicks r.sectorNumber
    let t ← s.schedule L src.handler src.object ticks .diskInt
    return (data,{ m with
      contents := contents
      head := head
      active := true
      issued := s.stats.totalTicks },t)

def proceed (m : DiskDrive ι) (i : ι) (c : DiskCall) (s : Interrupt) :
    Option (DiskDrive ι × Interrupt) :=
  match c.phase with
  | .check =>
    match m.request L src c.request s with
    | .ok (data,m,s) => some (m.setThread i (.inside { c with phase := .wait, data := data }),s)
    | .error f => some ({ m with fault := some f, issued := s.stats.totalTicks },s)
  | .wait =>
    if 0 < m.semaphore then
      some ({ m with semaphore := m.semaphore - 1 }.setThread i
        (.inside { c with phase := .release }),s)
    else none
  | .release => some ({ m with
      lock := none
      returned := m.returned ++ [(c.number,c.data)] }.setThread i .outside,s)
  | .transfer | .activate | .schedule => none

def act (m : DiskDrive ι) (i : ι) (s : Interrupt) : Option (DiskDrive ι × Interrupt) :=
  match m.threads i with
  | .outside => none
  | .acquiring r =>
    if m.lock.isNone then
      some ({ m with lock := some i, acquired := m.acquired ++ [r] }.setThread i
        (.inside ⟨r,m.acquired.length,.check,none⟩),s)
    else none
  | .inside c => m.proceed L src i c s

omit [DecidableEq ι] in
/-- `HandleInterrupt`, which calls `RequestDone`. -/
def handleInterrupt (m : DiskDrive ι) : DiskDrive ι :=
  { m with active := false, semaphore := m.semaphore + 1 }

omit [DecidableEq ι] in
def devices (dev : Devices ν) : Devices (DiskDrive ι × ν) := fun p s mem =>
  if src.Owns p then ([],(mem.1.handleInterrupt,mem.2))
  else ((dev p s mem.2).1,(mem.1,(dev p s mem.2).2))

end DiskDrive

/-- The kernel with a disk of contents `d`, on which the threads make calls for its sectors.
`DiskDone` is static, so only a request schedules it, and the fields of the disk are private. -/
def diskKernels (ι : Type) {ν : Type} [DecidableEq ι] (L : SortedList) (src : InterruptSource)
    (dev : Devices ν) (d : Disk) :
    TransitionSystem (Kernel (DiskDrive ι × ν)) (DriveStep ι ν) where
  init k := (kernels L (DiskDrive.devices src dev)).init k ∧ k.mem.1 = .start d
  step k l k' := k.halted = false ∧ k.mem.1.fault = none ∧ match l with
    | .kernel l => src.Alone l ∧ (∀ mem, l = .device mem → mem.1 = k.mem.1) ∧
        Kernel.Step L (DiskDrive.devices src dev) k l k'
    | .call i r => Disk.InRange r.sectorNumber ∧ k.mem.1.threads i = .outside ∧
        k' = { k with mem := (k.mem.1.setThread i (.acquiring r),k.mem.2) }
    | .act i => ∃ m s, k.mem.1.act L src i k.interrupt = some (m,s) ∧
        k' = { k with interrupt := s, mem := (m,k.mem.2) }

end Nachos
