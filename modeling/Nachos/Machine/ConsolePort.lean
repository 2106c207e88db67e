import Nachos.Machine.Console
import Nachos.Machine.InterruptSource

/-! # The console and the interrupt queue

`console.cc` on the kernel, with any handlers and any other devices. `ConsoleReadPoll` schedules
itself again before it looks for a character, and `PutChar` schedules `ConsoleWriteDone`, which
clears the flag that `PutChar` asserts. A failed assertion ends the program: nothing is modelled
behind it.
-/
namespace Nachos

abbrev consoleTime : ℤ := 100

/-- `ConsoleReadPoll` and `ConsoleWriteDone`, two functions, with the console they are called
for. -/
structure ConsolePort where
  readPoll : ℕ
  writeDone : ℕ
  object : ℤ
  distinct : readPoll ≠ writeDone

/-- `written` is `numConsoleCharsWritten`; the time of the last `PutChar` is recorded. -/
structure Terminal where
  console : Console
  putBusy : Bool
  display : List Byte
  written : ℕ
  lastPut : ℤ
  failed : Bool

/-- What a handler does with the console, and its other calls. -/
inductive ConsoleCall where
  | putChar (ch : Byte)
  | getChar
  | other (c : HandlerCall)

/-- Which handler is called: one of the two of the console, or that of another device. -/
inductive ConsoleEvent where
  | readAvail
  | writeDone
  | other (p : PendingInterrupt)

namespace ConsolePort
variable (port : ConsolePort)

def read : InterruptSource := ⟨port.readPoll,port.object⟩
def write : InterruptSource := ⟨port.writeDone,port.object⟩

/-- `ConsoleReadPoll` and `ConsoleWriteDone` are static: no other file schedules them. -/
def Foreign (c : HandlerCall) : Prop := port.read.request c = none ∧ port.write.request c = none

theorem not_owns {p : PendingInterrupt} (h : port.read.Owns p) : ¬ port.write.Owns p :=
  fun h' => port.distinct (h.1.symm.trans h'.1)

end ConsolePort

/-- The characters that are typed, whether one is there to be read, and the code that is called
at each interrupt. -/
structure ConsoleClient (port : ConsolePort) (ν : Type) where
  input : ℕ → Option Byte
  pollFile : Interrupt → ν → Bool
  handle : ConsoleEvent → Interrupt → Terminal → ν → List ConsoleCall × ν
  foreign : ∀ e s m x c, .other c ∈ (handle e s m x).1 → port.Foreign c

inductive TerminalStep (ν : Type) where
  | kernel (l : KernelCall (Terminal × ν))
  | putChar (ch : Byte)
  | getChar

namespace Terminal

def new : Terminal := ⟨⟨eof,0,[]⟩,false,[],0,0,false⟩

def putChar (m : Terminal) (ch : Byte) (now : ℤ) : Outcome Terminal :=
  if m.putBusy then .error .assertion
  else .ok { m with display := m.display ++ [ch], putBusy := true, lastPut := now }

def getChar (m : Terminal) : Terminal := { m with console := m.console.getChar }

/-- The calls of a handler, up to a failed assertion. -/
def perform (port : ConsolePort) (now : ℤ) : List ConsoleCall → Terminal →
    List HandlerCall × Terminal
  | [], m => ([],m)
  | .putChar ch :: cs, m =>
    match m.putChar ch now with
    | .ok m =>
      let (calls,m) := perform port now cs m
      (.schedule port.writeDone port.object consoleTime .consoleWriteInt (by decide) :: calls,m)
    | .error _ => ([],{ m with failed := true })
  | .getChar :: cs, m => perform port now cs m.getChar
  | .other c :: cs, m =>
    let (calls,m) := perform port now cs m
    (c :: calls,m)

/-- `WriteDone`, up to the call of the handler. -/
def writeDone (m : Terminal) : Terminal := { m with putBusy := false, written := m.written + 1 }

section Devices
variable {port : ConsolePort} {ν : Type} (client : ConsoleClient port ν)

def react (e : ConsoleEvent) (s : Interrupt) (mem : Terminal × ν) :
    List HandlerCall × (Terminal × ν) :=
  let (cs,x) := client.handle e s mem.1 mem.2
  let (calls,m) := mem.1.perform port s.stats.totalTicks cs
  (calls,(m,x))

/-- `CheckCharAvail`, behind the line that schedules the next poll. -/
def poll (s : Interrupt) (mem : Terminal × ν) : List HandlerCall × (Terminal × ν) :=
  let pollFile := client.pollFile s mem.2
  if mem.1.console.incoming ≠ eof ∨ pollFile = false then ([],mem)
  else
    let console := mem.1.console.checkCharAvail pollFile (client.input mem.1.console.reads)
    react client .readAvail s ({ mem.1 with console := console },mem.2)

def devices : Devices (Terminal × ν) := fun p s mem =>
  if port.read.Owns p then
    let (calls,mem) := poll client s mem
    (.schedule port.readPoll port.object consoleTime .consoleReadInt (by decide) :: calls,mem)
  else if port.write.Owns p then react client .writeDone s (mem.1.writeDone,mem.2)
  else react client (.other p) s mem

end Devices

end Terminal

/-- The kernel with a console that is built at a point of its run; the fields of the console are
private. -/
def consoleKernels {port : ConsolePort} {ν : Type} (L : SortedList) (client : ConsoleClient port ν)
    (s₀ : Interrupt) : TransitionSystem (Kernel (Terminal × ν)) (TerminalStep ν) where
  init k := k.mem.1 = .new ∧ k.halted = false ∧
    s₀.schedule L port.readPoll port.object consoleTime .consoleReadInt = .ok k.interrupt
  step k l k' := k.halted = false ∧ k.mem.1.failed = false ∧ match l with
    | .kernel l => port.read.Alone l ∧ port.write.Alone l ∧
        (∀ mem, l = .device mem → mem.1 = k.mem.1) ∧
        Kernel.Step L (Terminal.devices client) k l k'
    | .putChar ch =>
      match k.mem.1.putChar ch k.interrupt.stats.totalTicks with
      | .ok m => ∃ t, k.interrupt.schedule L port.writeDone port.object consoleTime
          .consoleWriteInt = .ok t ∧ k' = { k with interrupt := t, mem := (m,k.mem.2) }
      | .error _ => k' = { k with mem := ({ k.mem.1 with failed := true },k.mem.2) }
    | .getChar => k' = { k with mem := (k.mem.1.getChar,k.mem.2) }

namespace Terminal
variable {port : ConsolePort} {ν : Type} {client : ConsoleClient port ν} {L : SortedList}
  {m : Terminal} {w : List PendingInterrupt} {now : ℤ} {cs : List ConsoleCall}

/-- The display is busy just while one of its interrupts is in the queue, which comes `consoleTime`
after the last `PutChar`; all the characters before that one are done. -/
structure Writing (w : List PendingInterrupt) (m : Terminal) : Prop where
  busy : m.putBusy = true → ∃ p, w = [p] ∧ p.when = m.lastPut + consoleTime
  ready : m.putBusy = false → w = []
  shown : m.display.length = m.written + m.putBusy.toNat

theorem Writing.new : Writing [] new where
  busy h := by cases h
  ready _ := rfl
  shown := rfl

theorem Writing.perm {w' : List PendingInterrupt} (h : Writing w m) (hp : w.Perm w') :
    Writing w' m := by
  refine ⟨fun hbusy => ?_,fun hready => ?_,h.shown⟩
  · obtain ⟨p,rfl,hwhen⟩ := h.busy hbusy
    exact ⟨p,(List.singleton_perm.mp hp).symm,hwhen⟩
  · rw [h.ready hready] at hp
    exact List.nil_perm.mp hp

theorem Writing.putChar {ch : Byte} {m' : Terminal} {p : PendingInterrupt} (h : Writing w m)
    (hput : m.putChar ch now = .ok m') (hp : p.when = now + consoleTime) :
    w = [] ∧ Writing [p] m' := by
  unfold Terminal.putChar at hput
  split_ifs at hput with hbusy
  cases hput
  have hready : m.putBusy = false := by simpa using hbusy
  have hshown := h.shown
  rw [hready] at hshown
  refine ⟨h.ready hready,fun _ => ⟨p,rfl,hp⟩,fun hno => absurd hno.symm Bool.false_ne_true,?_⟩
  rw [List.length_append, hshown]
  rfl

/-- By induction on the calls, each of which finds what the one before has left. -/
theorem Writing.perform (h : Writing w m) (hforeign : ∀ c, .other c ∈ cs → port.Foreign c)
    {new : List PendingInterrupt}
    (hnew : InterruptSource.Requested now
      ((m.perform port now cs).1.filterMap port.write.request) new) :
    Writing (w ++ new) (m.perform port now cs).2 := by
  induction cs generalizing m w new with
  | nil =>
    rw [InterruptSource.requested_nil hnew, List.append_nil]
    exact h
  | cons c cs ih =>
    have hrest : ∀ c, .other c ∈ cs → port.Foreign c := fun c hc =>
      hforeign c (List.mem_cons_of_mem _ hc)
    cases c with
    | putChar ch =>
      rw [Terminal.perform] at hnew ⊢
      cases hput : m.putChar ch now with
      | error f =>
        rw [hput] at hnew
        rw [InterruptSource.requested_nil hnew, List.append_nil]
        exact ⟨h.busy,h.ready,h.shown⟩
      | ok m' =>
        rw [hput] at hnew
        have hown : port.write.request (.schedule port.writeDone port.object consoleTime
            .consoleWriteInt (by decide)) = some (consoleTime,.consoleWriteInt) :=
          if_pos ⟨rfl,rfl⟩
        simp only [List.filterMap_cons_some hown] at hnew
        obtain ⟨q,rest,rfl,hq,hrestNew⟩ := List.map_eq_cons_iff.mp hnew
        obtain ⟨rfl,hwriting⟩ := h.putChar hput (congrArg Prod.fst hq)
        exact ih hwriting hrest hrestNew
    | getChar =>
      have hget : Writing w m.getChar := ⟨h.busy,h.ready,h.shown⟩
      exact ih hget hrest hnew
    | other c =>
      rw [Terminal.perform] at hnew ⊢
      simp only [List.filterMap_cons_none (hforeign c List.mem_cons_self).2] at hnew
      exact ih h hrest hnew

/-- No handler asks for another poll. -/
theorem perform_read (hforeign : ∀ c, .other c ∈ cs → port.Foreign c) :
    (m.perform port now cs).1.filterMap port.read.request = [] := by
  induction cs generalizing m with
  | nil => rfl
  | cons c cs ih =>
    have hrest : ∀ c, .other c ∈ cs → port.Foreign c := fun c hc =>
      hforeign c (List.mem_cons_of_mem _ hc)
    cases c with
    | putChar ch =>
      rw [perform]
      cases m.putChar ch now with
      | error f => rfl
      | ok m' =>
        have hother : port.read.request (.schedule port.writeDone port.object consoleTime
            .consoleWriteInt (by decide)) = none :=
          if_neg fun h => port.distinct h.1.symm
        simp only [List.filterMap_cons_none hother]
        exact ih hrest
    | getChar => exact ih hrest
    | other c =>
      rw [perform]
      simp only [List.filterMap_cons_none (hforeign c List.mem_cons_self).1]
      exact ih hrest

variable (client) in
theorem read_guards (start : ℤ) : port.read.Guards (devices client) fun w c _ =>
    InterruptSource.Periodic .consoleReadInt consoleTime consoleTime start w c := by
  have hreact : ∀ e s mem, (react client e s mem).1.filterMap port.read.request = [] :=
    fun e s mem => perform_read (client.foreign e s mem.1 mem.2)
  refine InterruptSource.periodic_guards (fun p s mem hp => ?_) (fun p s mem hp => ?_) start
  · rw [devices, if_neg hp]
    split_ifs <;> exact hreact _ _ _
  · have hown : port.read.request (.schedule port.readPoll port.object consoleTime
        .consoleReadInt (by decide)) = some (consoleTime,.consoleReadInt) := if_pos ⟨rfl,rfl⟩
    refine ⟨consoleTime,?_,le_refl _,le_refl _⟩
    rw [devices, if_pos hp]
    simp only [List.filterMap_cons_some hown, List.cons.injEq, true_and]
    unfold poll
    simp only []
    split_ifs
    · rfl
    · exact hreact _ _ _

variable (client) in
theorem write_guards : port.write.Guards (devices client) fun w _ mem => Writing w mem.1 := by
  have hreact : ∀ {e s mem w new}, Writing w mem.1 →
      InterruptSource.Requested s.stats.totalTicks
        ((react client e s mem).1.filterMap port.write.request) new →
      Writing (w ++ new) (react client e s mem).2.1 := fun {e s mem w new} h hnew =>
    h.perform (client.foreign e s mem.1 mem.2) hnew
  refine ⟨fun hp h => h.perm hp,fun {p s mem w c new} hp h hnew => ?_,
    fun {p s mem w c new} hp _ h hnew => ?_⟩
  · by_cases hread : port.read.Owns p
    · have hother : port.write.request (.schedule port.readPoll port.object consoleTime
          .consoleReadInt (by decide)) = none := if_neg fun h => port.distinct h.1
      rw [devices, if_pos hread] at hnew ⊢
      simp only [List.filterMap_cons_none hother] at hnew
      unfold poll at hnew ⊢
      simp only [] at hnew ⊢
      split_ifs at hnew ⊢
      · rw [InterruptSource.requested_nil hnew, List.append_nil]
        exact h
      · exact hreact ⟨h.busy,h.ready,h.shown⟩ hnew
    · rw [devices, if_neg hread, if_neg hp] at hnew ⊢
      exact hreact h hnew
  · have hread : ¬ port.read.Owns p := fun hread => port.not_owns hread hp
    rw [devices, if_neg hread, if_pos hp] at hnew ⊢
    have hdone : Writing w mem.1.writeDone := by
      have hbusy : mem.1.putBusy = true := by
        by_contra hno
        have := h.ready (by simpa using hno)
        cases this
      obtain ⟨q,hq,-⟩ := h.busy hbusy
      have hshown := h.shown
      rw [hbusy] at hshown
      exact ⟨fun hno => absurd hno Bool.false_ne_true,fun _ => (List.cons.inj hq).2,hshown⟩
    exact hreact hdone hnew

/-- The console is built, and after that the kernel does not halt. -/
structure Attached (port : ConsolePort) (start : ℤ) (k : Kernel (Terminal × ν)) : Prop where
  sound : k.interrupt.Sound
  writing : Writing (port.write.waiting k.interrupt) k.mem.1
  polling : InterruptSource.Periodic .consoleReadInt consoleTime consoleTime start
    (port.read.waiting k.interrupt) (port.read.calls k.interrupt)
  running : k.halted = false

theorem attached_init {s₀ : Interrupt} {k : Kernel (Terminal × ν)} (hsound : s₀.Sound)
    (hnone : ∀ p ∈ s₀.scheduled, ¬ port.read.Owns p ∧ ¬ port.write.Owns p)
    (h : (consoleKernels L client s₀).init k) : Attached port s₀.stats.totalTicks k := by
  obtain ⟨hmem,hrunning,hnew⟩ := h
  obtain ⟨u,hu,hsound',-⟩ := Interrupt.schedule_spec (L := L) hsound port.readPoll port.object
    .consoleReadInt (show 0 < consoleTime by decide)
  rw [hnew] at hu
  cases hu
  refine ⟨hsound',?_,InterruptSource.periodic_new hsound (fun p hp => (hnone p hp).1) hnew
    (le_refl _) (le_refl _),hrunning⟩
  have hempty : port.write.waiting s₀ = [] := by
    refine List.filter_eq_nil_iff.mpr fun p hp => ?_
    simpa using (hnone p (hsound.once.mem_iff.mpr (List.mem_append_left _ hp))).2
  have hperm := (InterruptSource.waiting_of_alone port.write
    (fun h => port.distinct h.1) hnew).1
  rw [hempty] at hperm
  rw [hmem, List.perm_nil.mp hperm]
  exact .new

theorem Attached.step {start : ℤ} {s₀ : Interrupt} {l : TerminalStep ν}
    {k k' : Kernel (Terminal × ν)} (h : Attached port start k)
    (hs : (consoleKernels L client s₀).step k l k') : Attached port start k' := by
  obtain ⟨hrunning,-,hs⟩ := hs
  cases l with
  | kernel l =>
    obtain ⟨hread,hwrite,hdevice,hs⟩ := hs
    refine ⟨(hs.sound h.sound).1,?_,?_,?_⟩
    · exact (write_guards client).step hs h.sound h.writing hwrite fun mem hmem => by
        rw [hdevice mem hmem]
        exact h.writing
    · exact (read_guards client start).step hs h.sound h.polling hread fun _ _ => h.polling
    · cases hs with
      | idle ht =>
        obtain ⟨p,hp,htype,-⟩ := h.polling.next
        have hmem : p ∈ port.read.waiting k.interrupt := by
          rw [hp]
          exact List.mem_singleton_self p
        obtain ⟨x,hx,rfl⟩ := List.mem_map.mp (List.mem_of_mem_filter hmem)
        obtain ⟨rfl,-⟩ := Interrupt.idle_wakes h.sound hx (by rw [htype]; decide) ht
        rfl
      | schedule | oneTick | setLevel | setStatus | resume | device => exact hrunning
  | putChar ch =>
    simp only [] at hs
    cases hput : k.mem.1.putChar ch k.interrupt.stats.totalTicks with
    | error f =>
      rw [hput] at hs
      cases hs
      exact ⟨h.sound,⟨h.writing.busy,h.writing.ready,h.writing.shown⟩,h.polling,hrunning⟩
    | ok m =>
      rw [hput] at hs
      obtain ⟨t,ht,rfl⟩ := hs
      obtain ⟨u,hu,hsound,-⟩ := Interrupt.schedule_spec (L := L) h.sound port.writeDone
        port.object .consoleWriteInt (show 0 < consoleTime by decide)
      rw [ht] at hu
      cases hu
      obtain ⟨hperm,hcalls⟩ := InterruptSource.waiting_of_alone port.read
        (fun h => port.distinct h.1.symm) ht
      obtain ⟨new,hnew,hq⟩ := InterruptSource.waiting_schedule port.write ht
      rw [if_pos ⟨rfl,rfl⟩] at hq
      obtain ⟨q,rfl,hwhen,-⟩ := hq
      obtain ⟨hempty,hwriting⟩ := h.writing.putChar hput hwhen
      rw [hempty, List.nil_append] at hnew
      refine ⟨hsound,hwriting.perm hnew.symm,?_,hrunning⟩
      obtain ⟨p,hp,hnext⟩ := h.polling.next
      rw [hp, List.perm_singleton] at hperm
      rw [hcalls, hperm]
      exact ⟨h.polling.spaced,p,rfl,hnext⟩
  | getChar =>
    obtain rfl := hs
    exact ⟨h.sound,⟨h.writing.busy,h.writing.ready,h.writing.shown⟩,h.polling,hrunning⟩

/-- In every run of a kernel with a console, whatever its handlers and the other devices do, the
flag is set just while one `ConsoleWriteDone` is in the queue, the characters on the display are
those that are done and the one under way, after a tick of a machine that is not idle that one was
put less than `consoleTime` ago, just one poll is in the queue, and the kernel never halts. -/
theorem consolePort {port : ConsolePort} {ν μ : Type} (L : SortedList)
    (client : ConsoleClient port ν) (dev₀ : Devices μ) (k₀ : Kernel μ) (k : Kernel (Terminal × ν))
    (hboot : (kernels L dev₀).Reachable k₀)
    (hnone : ∀ p ∈ k₀.interrupt.scheduled, ¬ port.read.Owns p ∧ ¬ port.write.Owns p)
    (h : (consoleKernels L client k₀.interrupt).Reachable k) :
    Writing (port.write.waiting k.interrupt) k.mem.1 ∧
    InterruptSource.Periodic .consoleReadInt consoleTime consoleTime
      k₀.interrupt.stats.totalTicks (port.read.waiting k.interrupt)
      (port.read.calls k.interrupt) ∧
    (k.interrupt.status ≠ .idleMode → ∀ passes v old mem,
      k.interrupt.oneTick L (devices client) passes k.mem = .ok (some (v,old,mem)) →
      mem.1.putBusy = true → v.stats.totalTicks < mem.1.lastPut + consoleTime) ∧
    k.halted = false := by
  have hattached : Attached port k₀.interrupt.stats.totalTicks k :=
    h.invariant (fun _ => attached_init (sound_of_run hboot) hnone) fun _ _ _ h hs => h.step hs
  refine ⟨hattached.writing,hattached.polling,fun hidle passes v old mem htick hbusy => ?_,
    hattached.running⟩
  have hwriting := (write_guards client).kept.oneTick hattached.sound hattached.writing htick
  obtain ⟨p,hp,hwhen⟩ := hwriting.busy hbusy
  rw [← hwhen]
  exact InterruptSource.late_of_oneTick port.write hattached.sound hidle htick
    (by rw [hp]; exact List.mem_singleton_self p)

/-- A console that is never read, and the first character put to it. -/
theorem consolePort_put : ∃ k : Kernel (Terminal × Unit), k.mem.1.display = [0x41] ∧
    Writing (InterruptSource.waiting ⟨2,0⟩ k.interrupt) k.mem.1 ∧ k.halted = false := by
  let port : ConsolePort := ⟨1,2,0,by decide⟩
  let client : ConsoleClient port Unit :=
    ⟨fun _ => none,fun _ _ => false,fun _ _ _ x => ([],x),fun _ _ _ _ _ h =>
      absurd h List.not_mem_nil⟩
  have hnew : ∃ u, Interrupt.new.schedule .ordered 1 0 consoleTime .consoleReadInt = .ok u ∧
      ∃ t, u.schedule .ordered 2 0 consoleTime .consoleWriteInt = .ok t := ⟨_,rfl,_,rfl⟩
  obtain ⟨u,hu,t,ht⟩ := hnew
  have hrun : (consoleKernels .ordered client .new).Reachable ⟨u,(.new,()),[],false⟩ :=
    .start ⟨rfl,rfl,hu⟩
  have hstep : (consoleKernels .ordered client .new).step ⟨u,(.new,()),[],false⟩ (.putChar 0x41)
      ⟨t,({ Terminal.new with
        display := [0x41]
        putBusy := true
        lastPut := u.stats.totalTicks },()),[],false⟩ := ⟨rfl,rfl,t,ht,rfl⟩
  obtain ⟨hwriting,-,-,hrunning⟩ := consolePort .ordered client (fun _ _ (mem : Unit) => ([],mem))
    ⟨.new,(),[],false⟩ _ (.start ⟨rfl,rfl,rfl⟩) (fun p hp => absurd hp List.not_mem_nil)
    (hrun.step hstep)
  exact ⟨_,rfl,hwriting,hrunning⟩

section Input

/-- A client that takes each character in the handler that tells of it, and nowhere else. -/
structure Prompt (client : ConsoleClient port ν) : Prop where
  takes : ∀ s m x, ∃ cs, (client.handle .readAvail s m x).1 = .getChar :: cs ∧ .getChar ∉ cs
  leaves : ∀ e s m x, e ≠ .readAvail → .getChar ∉ (client.handle e s m x).1

/-- The buffer is empty, and what was read has been returned, from the first character on. -/
structure Taken (input : ℕ → Option Byte) (m : Terminal) : Prop where
  incoming : m.console.incoming = eof
  returned : m.console.returned =
    (List.range m.console.reads).map fun i => (input i).getD eof

theorem perform_console (h : .getChar ∉ cs) :
    (m.perform port now cs).2.console = m.console := by
  induction cs generalizing m with
  | nil => rfl
  | cons c cs ih =>
    have hrest : .getChar ∉ cs := fun hc => h (List.mem_cons_of_mem _ hc)
    cases c with
    | putChar ch =>
      rw [perform]
      unfold Terminal.putChar
      split_ifs
      · rfl
      · exact ih hrest
    | getChar => exact absurd List.mem_cons_self h
    | other c =>
      rw [perform]
      exact ih hrest

theorem react_getChar {s : Interrupt} {x : ν} (h : Prompt client) :
    (react client .readAvail s (m,x)).2.1.console = m.console.getChar := by
  obtain ⟨cs,hcs,hnone⟩ := h.takes s m x
  unfold react
  simp only [hcs]
  exact perform_console (m := m.getChar) hnone

theorem Taken.poll (h : Taken client.input m) (hprompt : Prompt client) (s : Interrupt) (x : ν) :
    Taken client.input (poll client s (m,x)).2.1 := by
  unfold Terminal.poll
  simp only []
  split_ifs with hread
  · exact h
  · have hcheck : m.console.checkCharAvail (client.pollFile s x) (client.input m.console.reads) =
        { m.console with
          incoming := (client.input m.console.reads).getD eof
          reads := m.console.reads + 1 } := if_neg hread
    rw [hcheck]
    generalize hm : ({ m with console := _ } : Terminal) = m'
    have hconsole := react_getChar (m := m') (s := s) (x := x) hprompt
    refine ⟨by rw [hconsole]; rfl,?_⟩
    rw [hconsole, ← hm]
    simp only [Console.getChar, h.returned, List.range_succ, List.map_append, List.map_cons,
      List.map_nil]

theorem Taken.devices (h : Taken client.input m) (hprompt : Prompt client) (p : PendingInterrupt)
    (s : Interrupt) (x : ν) : Taken client.input (devices client p s (m,x)).2.1 := by
  have hreact : ∀ e n, e ≠ .readAvail → n.console = m.console →
      Taken client.input (react client e s (n,x)).2.1 := fun e n he hn => by
    have hsame : (react client e s (n,x)).2.1.console = m.console :=
      (perform_console (hprompt.leaves e s n x he)).trans hn
    exact ⟨by rw [hsame]; exact h.incoming,by rw [hsame]; exact h.returned⟩
  unfold Terminal.devices
  split_ifs
  · exact h.poll hprompt s x
  · exact hreact .writeDone _ (by simp) rfl
  · exact hreact (.other p) _ (by simp) rfl

/-- A client that takes each character at once is handed every character that is typed, the byte
255 too, once and in its order. -/
theorem promptInput {port : ConsolePort} {ν μ : Type} (L : SortedList)
    (client : ConsoleClient port ν) (dev₀ : Devices μ) (k₀ : Kernel μ) (k : Kernel (Terminal × ν))
    (hprompt : Prompt client) (hboot : (kernels L dev₀).Reachable k₀)
    (h : ((consoleKernels L client k₀.interrupt).guard fun _ l => l ≠ .getChar).Reachable k) :
    k.mem.1.console.returned =
      (List.range k.mem.1.console.reads).map fun i => (client.input i).getD eof := by
  have hkept : Interrupt.Kept L (devices client) fun _ mem => Taken client.input mem.1 :=
    ⟨fun h _ _ => h,fun _ h _ _ _ => h.devices hprompt _ _ _⟩
  have hinv : k.interrupt.Sound ∧ Taken client.input k.mem.1 := by
    refine h.invariant (P := fun k => k.interrupt.Sound ∧ Taken client.input k.mem.1) ?_ ?_
    · rintro k ⟨hmem,-,hnew⟩
      obtain ⟨u,hu,hsound,-⟩ := Interrupt.schedule_spec (L := L) (sound_of_run hboot)
        port.readPoll port.object .consoleReadInt (show 0 < consoleTime by decide)
      rw [hnew] at hu
      cases hu
      exact ⟨hsound,by rw [hmem]; exact ⟨rfl,rfl⟩⟩
    · rintro k l k' ⟨hsound,htaken⟩ ⟨hne,-,-,hs⟩
      cases l with
      | kernel l =>
        obtain ⟨-,-,hdevice,hs⟩ := hs
        refine ⟨(hs.sound hsound).1,hkept.step hs hsound htaken (fun _ _ _ _ _ _ _ => htaken) ?_⟩
        intro mem hmem
        rw [hdevice mem hmem]
        exact htaken
      | putChar ch =>
        simp only [] at hs
        unfold Terminal.putChar at hs
        split_ifs at hs
        · cases hs
          exact ⟨hsound,htaken.incoming,htaken.returned⟩
        · obtain ⟨t,ht,rfl⟩ := hs
          obtain ⟨u,hu,hsound',-⟩ := Interrupt.schedule_spec (L := L) hsound port.writeDone
            port.object .consoleWriteInt (show 0 < consoleTime by decide)
          rw [ht] at hu
          cases hu
          exact ⟨hsound',htaken.incoming,htaken.returned⟩
      | getChar => exact absurd rfl hne
  exact hinv.2.returned

/-- The byte 255 is typed, and the kernel is idle until it is read. -/
theorem promptInput_eof : ∃ k : Kernel (Terminal × Unit), k.interrupt.stats.totalTicks = 100 ∧
    k.mem.1.console.returned = [eof] := by
  let port : ConsolePort := ⟨1,2,0,by decide⟩
  let client : ConsoleClient port Unit :=
    ⟨fun _ => some eof,fun _ _ => true,fun e _ _ x =>
      (match e with | .readAvail => [.getChar] | _ => [],x),fun e _ _ _ _ h => by
        cases e <;> simp at h⟩
  have hprompt : Prompt client := by
    refine ⟨fun _ _ _ => ⟨[],rfl,List.not_mem_nil⟩,fun e s m x he => ?_⟩
    cases e with
    | readAvail => exact absurd rfl he
    | writeDone | other p => exact List.not_mem_nil
  have hnew : ∃ u, Interrupt.new.schedule .ordered 1 0 consoleTime .consoleReadInt = .ok u ∧
      ∃ t mem, u.idle .ordered (devices client) 1 (Terminal.new,()) =
        .ok (some (true,t,mem)) ∧ t.stats.totalTicks = 100 ∧ mem.1.console.reads = 1 :=
    ⟨_,rfl,_,_,rfl,rfl,rfl⟩
  obtain ⟨u,hu,t,mem,ht,htime,hreads⟩ := hnew
  have hidle : Kernel.Step .ordered (devices client) ⟨u,(new,()),[],false⟩ .idle
      ⟨t,mem,[],false⟩ := Kernel.Step.idle (s := ⟨u,(new,()),[],false⟩) ht
  have hstep : ((consoleKernels .ordered client .new).guard fun _ l => l ≠ .getChar).step
      ⟨u,(.new,()),[],false⟩ (.kernel .idle) ⟨t,mem,[],false⟩ :=
    ⟨by simp,rfl,rfl,trivial,trivial,fun _ h => absurd h (by simp),hidle⟩
  have hrun : ((consoleKernels .ordered client .new).guard fun _ l => l ≠ .getChar).Reachable
      ⟨u,(.new,()),[],false⟩ := .start ⟨rfl,rfl,hu⟩
  have hreturned := promptInput .ordered client (fun _ _ (mem : Unit) => ([],mem))
    ⟨.new,(),[],false⟩ _ hprompt (.start ⟨rfl,rfl,rfl⟩) (hrun.step hstep)
  rw [hreads] at hreturned
  exact ⟨_,htime,hreturned⟩

end Input

end Terminal

end Nachos
