import Nachos.Machine.RegisterFile

/-! # User programs

What the loop of `Run` does to the machine: an instruction is done, or it traps and the kernel
goes on. A program depends on its registers, on its table and on what is in its own frames, not on
which frames these are nor on what is in the others.
-/
namespace Nachos

/-- `ExceptionHandler`, by what it leaves of a machine that has trapped. -/
abbrev Handler := ExceptionType → Machine → Machine → Prop

namespace Machine

/-- No load is pending, and register 0 is zero. -/
structure AtRest (m : Machine) : Prop where
  load : m.registers .load = 0
  loadValue : m.registers .loadValue = 0
  zero : m.registers (.gpr 0) = 0

/-- An instruction that traps, or its fetch; `t` is what the kernel is handed. -/
structure Traps (debug : Bool) (m : Machine) (i : Option Instruction) (which : ExceptionType)
    (t : Machine) : Prop where
  switch :
    match i with
    | none => m.readMem (m.registers .pc) 4 = .error (.trap which t)
    | some i => ∃ raw u, m.readMem (m.registers .pc) 4 = .ok (raw,u) ∧
        Instruction.decode raw = i ∧ u.execute i = .error (.trap which t)
  trap : m.oneInstruction debug = .error (.trap which t)

end Machine

/-- What a turn of the loop comes to. A fetch that traps has no instruction. -/
inductive Turn where
  | done (i : Instruction)
  | trap (i : Option Instruction) (which : ExceptionType)

namespace Turn

def loadTarget : Turn → Option (Fin numGPRegs)
  | done i => i.loadTarget
  | trap _ _ => none

/-- The registers that the instruction reads or writes. -/
def touches : Turn → List Register
  | done i => i.reads ++ i.writes
  | trap none _ => []
  | trap (some i) _ => i.reads ++ i.writes

/-- The second instruction leaves the target of the first one alone. -/
def Respects (l l' : Turn) : Prop :=
  ∀ r, l.loadTarget = some r → Register.gpr r ∉ l'.touches

end Turn

def program (debug : Bool) (handler : Handler) : TransitionSystem Machine Turn where
  init m := m.AtRest
  step m l m' :=
    match l with
    | .done i => ∃ e, Machine.Completes debug m i e m'
    | .trap i which => ∃ t, Machine.Traps debug m i which t ∧ handler which t m'

namespace Machine
variable {debug : Bool} {m m' t : Machine} {i : Option Instruction} {which : ExceptionType}

theorem exists_traps (h : m.oneInstruction debug = .error (.trap which t)) :
    ∃ i, Traps debug m i which t := by
  cases hread : m.readMem (m.registers .pc) 4 with
  | error s =>
    have hs := h
    rw [oneInstruction, hread] at hs
    cases hs
    exact ⟨none,hread,h⟩
  | ok p =>
    obtain ⟨raw,u⟩ := p
    have hs := h
    rw [oneInstruction, hread] at hs
    simp only [Exec.ok_bind] at hs
    split_ifs at hs
    · cases hs
    cases hexec : u.execute (Instruction.decode raw) with
    | error s =>
      rw [hexec] at hs
      cases hs
      exact ⟨some _,⟨raw,u,hread,rfl,hexec⟩,h⟩
    | ok e =>
      rw [hexec] at hs
      simp only [Exec.ok_bind] at hs
      cases hd : e.machine.delayedLoad e.nextLoadReg e.nextLoadValue with
      | error f =>
        rw [hd] at hs
        cases hs
      | ok w =>
        rw [hd] at hs
        cases hs

/-- A turn of the loop is a step, unless it stops the simulator. -/
theorem step_of_oneInstruction {handler : Handler} :
    (∀ m', m.oneInstruction debug = .ok m' →
      ∃ i, (program debug handler).step m (.done i) m') ∧
    ∀ which t m', m.oneInstruction debug = .error (.trap which t) → handler which t m' →
      ∃ i, (program debug handler).step m (.trap i which) m' := by
  refine ⟨fun m' h => ?_,fun which t m' h hm => ?_⟩
  · obtain ⟨raw,u,e,-,hdone⟩ := exists_completes h
    exact ⟨_,e,hdone⟩
  · obtain ⟨i,ht⟩ := exists_traps h
    exact ⟨i,t,ht,hm⟩

end Machine

namespace Relocated
variable {K : Correspondence} {debug : Bool} {m m' u t : Machine}

theorem completes {i : Instruction} {e : Effect} (h : Relocated K m m')
    (hdone : Machine.Completes debug m i e u) :
    ∃ e' u', Machine.Completes debug m' i e' u' ∧ Relocated K u u' := by
  obtain ⟨⟨raw,w,hread,rfl,hexec⟩,hone⟩ := hdone
  obtain ⟨⟨raw',w'⟩,hread',rfl,hw⟩ :=
    (h.readMem (.inr (.inr rfl)) (m.registers .pc)).ok_left hread
  obtain ⟨e',hexec',-⟩ := (Relocated.execute hw _).ok_left hexec
  obtain ⟨u',hone',hu⟩ := (h.oneInstruction debug).ok_left hone
  rw [← h.registers] at hread'
  exact ⟨e',u',⟨⟨raw',w',hread',rfl,hexec'⟩,hone'⟩,hu⟩

theorem traps {i : Option Instruction} {which : ExceptionType} (h : Relocated K m m')
    (ht : Machine.Traps debug m i which t) :
    ∃ t', Machine.Traps debug m' i which t' ∧ Relocated K t t' := by
  obtain ⟨hswitch,hone⟩ := ht
  obtain ⟨t',hone',ht⟩ := (h.oneInstruction debug).trap_left hone
  refine ⟨t',⟨?_,hone'⟩,ht⟩
  cases i with
  | none =>
    obtain ⟨t₁,hread',-⟩ := (h.readMem (.inr (.inr rfl)) (m.registers .pc)).trap_left hswitch
    rw [← h.registers] at hread'
    rw [Machine.oneInstruction, hread'] at hone'
    cases hone'
    exact hread'
  | some i =>
    obtain ⟨raw,w,hread,rfl,hexec⟩ := hswitch
    obtain ⟨⟨raw',w'⟩,hread',rfl,hw⟩ :=
      (h.readMem (.inr (.inr rfl)) (m.registers .pc)).ok_left hread
    obtain ⟨t₁,hexec',-⟩ := (Relocated.execute hw _).trap_left hexec
    rw [← h.registers] at hread'
    rw [Machine.oneInstruction, hread'] at hone'
    simp only [Exec.ok_bind, hexec'] at hone'
    split_ifs at hone'
    · cases hone'
    · cases hone'
      exact ⟨raw',w',hread',rfl,hexec'⟩

end Relocated

/-- A program does not notice which frames its pages are in, nor what is in the frames that are
not its own. -/
theorem relocation (K : Correspondence) (debug : Bool) (handler : Handler)
    (hhandler : ∀ which t t' m, Relocated K t t' → handler which t m →
      ∃ m', handler which t' m' ∧ Relocated K m m')
    (m m' n : Machine) (ls : List Turn) (h : Relocated K m m')
    (hrun : ((program debug handler).startAt m).Run ls n) :
    ∃ n', ((program debug handler).startAt m').Run ls n' ∧ Relocated K n n' := by
  refine hrun.simulate ?_ ?_
  · rintro _ rfl
    exact ⟨m',rfl,h⟩
  · rintro u l v u' hu hstep
    cases l with
    | done i =>
      obtain ⟨e,hdone⟩ := hstep
      obtain ⟨e',v',hdone',hv⟩ := hu.completes hdone
      exact ⟨v',⟨e',hdone'⟩,hv⟩
    | trap i which =>
      obtain ⟨t,ht,hm⟩ := hstep
      obtain ⟨t',ht',hrel⟩ := hu.traps ht
      obtain ⟨v',hv',hv⟩ := hhandler which t t' v hrel hm
      exact ⟨v',⟨t',ht',hv'⟩,hv⟩

/-- `addiu r3,r0,7` and a system call in one frame, and the same byte everywhere else. -/
def Machine.framed (frame : Fin numPhysPages) (other : Byte) : Machine where
  mainMemory := ⟨List.replicate (frame * pageSize) other ++ (Codec.word.encode 0x24030007 ++
    Codec.word.encode 0x0000000c ++ List.replicate (pageSize - 8) 0) ++
    List.replicate (memorySize - (frame + 1) * pageSize) other,by
      have hlt := frame.isLt
      have hword : Codec.word.size = 4 := rfl
      simp only [List.length_append, List.length_replicate, Codec.word.length_encode]
      unfold memorySize numPhysPages pageSize sectorSize at *
      omega⟩
  registers r := if r = .nextPC then 4 else 0
  tlb := none
  pageTable := some [⟨0,BitVec.ofNat 32 frame,true,false,false,false⟩]

theorem Machine.framed_bytes (frame : Fin numPhysPages) (other : Byte) {off : ℕ}
    (hoff : off < pageSize) :
    (Machine.framed frame other).mainMemory.bytes[frame * pageSize + off]? =
      (Codec.word.encode 0x24030007 ++ Codec.word.encode 0x0000000c ++
        List.replicate (pageSize - 8) 0)[off]? := by
  unfold Machine.framed
  simp only []
  rw [List.getElem?_append_left, List.getElem?_append_right, List.length_replicate,
    Nat.add_sub_cancel_left]
  · simp
  · have hword : Codec.word.size = 4 := rfl
    simp only [List.length_append, List.length_replicate, Codec.word.length_encode]
    unfold pageSize sectorSize at *
    omega

/-- A page that has moved from one frame to another. -/
def Correspondence.moved (frame frame' : Fin numPhysPages) : Correspondence where
  entries e e' := e.physicalPage = BitVec.ofNat 32 frame ∧
    e' = { e with physicalPage := BitVec.ofNat 32 frame' }
  frames p p' := p = frame ∧ p' = frame'
  unique := ⟨fun _ _ _ h h' => h.1.trans h'.1.symm,fun _ _ _ h h' => h.2.trans h'.2.symm⟩
  mapping h := h.2 ▸ ⟨rfl,rfl,rfl⟩
  placed {e e'} h _ := by
    obtain ⟨he,rfl⟩ := h
    have hnat : ∀ f : Fin numPhysPages, (BitVec.ofNat 32 f).toNat = f := fun f => by
      rw [BitVec.toNat_ofNat]
      exact Nat.mod_eq_of_lt (f.isLt.trans (by decide))
    rw [he, hnat, hnat]
    exact .inr ⟨frame.isLt,frame'.isLt,rfl,rfl⟩
  touched h _ := h.2 ▸ ⟨h.1,rfl⟩

/-- In frame 5 of a memory full of ones the program does what it does in frame 0. -/
theorem relocation_syscall : ∃ n n',
    ((program false fun _ t m => m = t.set (.gpr 2) 1).startAt (.framed 0 0)).Run
      [.done (Instruction.decode 0x24030007),.trap (some (Instruction.decode 0x0000000c)) .syscall]
      n ∧
    ((program false fun _ t m => m = t.set (.gpr 2) 1).startAt (.framed 5 0xff)).Run
      [.done (Instruction.decode 0x24030007),.trap (some (Instruction.decode 0x0000000c)) .syscall]
      n' ∧ n'.registers (.gpr 3) = 7 ∧ n'.registers (.gpr 2) = 1 := by
  let T := (program false fun _ t m => m = t.set (.gpr 2) 1).startAt (.framed 0 0)
  have h₀ : T.Run [] (.framed 0 0) := .start rfl
  obtain ⟨e,m,t,hdone,htrap,h₃⟩ : ∃ e m t,
      Machine.Completes false (.framed 0 0) (Instruction.decode 0x24030007) e m ∧
      Machine.Traps false m (some (Instruction.decode 0x0000000c)) .syscall t ∧
      (t.set (.gpr 2) 1).registers (.gpr 3) = 7 :=
    ⟨_,_,_,⟨⟨0x24030007,_,rfl,rfl,rfl⟩,rfl⟩,⟨⟨0x0000000c,_,rfl,rfl,rfl⟩,rfl⟩,rfl⟩
  have h₁ : T.Run [.done (Instruction.decode 0x24030007)] m := h₀.step ⟨e,hdone⟩
  have h₂ := h₁.step (T := T) (l := .trap (some (Instruction.decode 0x0000000c)) .syscall)
    ⟨t,htrap,rfl⟩
  have hrel : Relocated (.moved 0 5) (.framed 0 0) (.framed 5 0xff) := by
    refine ⟨rfl,.none,.some (.cons ⟨rfl,rfl⟩ .nil),?_⟩
    rintro _ _ ⟨rfl,rfl⟩ off hoff
    rw [Machine.framed_bytes 0 0 hoff, Machine.framed_bytes 5 0xff hoff]
  obtain ⟨n',hn',hn⟩ := relocation (.moved 0 5) false _ (by
    rintro _ t t' _ ht rfl
    exact ⟨_,rfl,ht.set _ _⟩) _ _ _ _ hrel h₂
  refine ⟨_,n',h₂,hn',?_,?_⟩
  · rw [hn.registers]
    exact h₃
  · rw [hn.registers]
    rfl

end Nachos
