import Nachos.Library.Pointwise
import Nachos.Machine.HostSafety
import Nachos.Machine.TranslationModes
import Mathlib.Logic.Relator

/-! # Relocation

An instruction does the same whatever frames its pages are in. `Correspondence` says how the entries
of two tables may differ and how their frames belong together.
-/
namespace Nachos

structure Correspondence where
  entries : TranslationEntry → TranslationEntry → Prop
  frames : ℕ → ℕ → Prop
  unique : Relator.BiUnique frames
  mapping : ∀ {e e'}, entries e e' →
    e'.virtualPage = e.virtualPage ∧ e'.valid = e.valid ∧ e'.readOnly = e.readOnly
  placed : ∀ {e e'}, entries e e' → e.valid →
    numPhysPages ≤ e.physicalPage.toNat ∧ numPhysPages ≤ e'.physicalPage.toNat ∨
    e.physicalPage.toNat < numPhysPages ∧ e'.physicalPage.toNat < numPhysPages ∧
      frames e.physicalPage.toNat e'.physicalPage.toNat
  touched : ∀ {e e'}, entries e e' → ∀ writing, entries (e.touched writing) (e'.touched writing)

/-- The same registers, corresponding tables, and the same bytes in the frames. -/
structure Relocated (K : Correspondence) (m m' : Machine) : Prop where
  registers : m'.registers = m.registers
  tlb : Option.Rel (List.Forall₂ K.entries) m.tlb m'.tlb
  pageTable : Option.Rel (List.Forall₂ K.entries) m.pageTable m'.pageTable
  bytes : ∀ {p p'}, K.frames p p' → ∀ off < pageSize,
    m'.mainMemory.bytes[p' * pageSize + off]? = m.mainMemory.bytes[p * pageSize + off]?

/-- Two executions that end in the same way. -/
inductive Exec.Matches {α β : Type} (R : α → β → Prop) (T : Machine → Machine → Prop) :
    Exec α → Exec β → Prop
  | ok {a : α} {b : β} : R a b → Matches R T (.ok a) (.ok b)
  | trap {which : ExceptionType} {m m' : Machine} : T m m' →
      Matches R T (.error (.trap which m)) (.error (.trap which m'))
  | fault (f : Fault) : Matches R T (.error (.fault f)) (.error (.fault f))

section Ends
variable {α β : Type} {R : α → β → Prop} {T : Machine → Machine → Prop} {x : Exec α} {y : Exec β}
  {a : α} {b : β} {which : ExceptionType} {m m' : Machine}

theorem Exec.Matches.ok_left (h : Exec.Matches R T x y) (hx : x = .ok a) :
    ∃ b, y = .ok b ∧ R a b := by
  subst hx
  cases h with
  | ok hab => exact ⟨_,rfl,hab⟩

theorem Exec.Matches.ok_right (h : Exec.Matches R T x y) (hy : y = .ok b) :
    ∃ a, x = .ok a ∧ R a b := by
  subst hy
  cases h with
  | ok hab => exact ⟨_,rfl,hab⟩

theorem Exec.Matches.trap_left (h : Exec.Matches R T x y) (hx : x = .error (.trap which m)) :
    ∃ m', y = .error (.trap which m') ∧ T m m' := by
  subst hx
  cases h with
  | trap hm => exact ⟨_,rfl,hm⟩

theorem Exec.Matches.trap_right (h : Exec.Matches R T x y) (hy : y = .error (.trap which m')) :
    ∃ m, x = .error (.trap which m) ∧ T m m' := by
  subst hy
  cases h with
  | trap hm => exact ⟨_,rfl,hm⟩

end Ends

theorem Exec.Matches.trans {α β γ : Type} {R : α → β → Prop} {S : β → γ → Prop} {Q : α → γ → Prop}
    {T U V : Machine → Machine → Prop} {x : Exec α} {y : Exec β} {z : Exec γ}
    (h : Exec.Matches R T x y) (h' : Exec.Matches S U y z)
    (hQ : ∀ a b c, R a b → S b c → Q a c) (hV : ∀ m n k, T m n → U n k → V m k) :
    Exec.Matches Q V x z := by
  cases h with
  | ok hab =>
    cases h' with
    | ok hbc => exact .ok (hQ _ _ _ hab hbc)
  | trap hm =>
    cases h' with
    | trap hn => exact .trap (hV _ _ _ hm hn)
  | fault f =>
    cases h' with
    | fault => exact .fault f

theorem Exec.Matches.bind {α β γ δ : Type} {R : α → β → Prop} {S : γ → δ → Prop}
    {T : Machine → Machine → Prop} {x : Exec α} {y : Exec β} {f : α → Exec γ} {g : β → Exec δ}
    (h : Exec.Matches R T x y) (hf : ∀ a b, R a b → Exec.Matches S T (f a) (g b)) :
    Exec.Matches S T (x >>= f) (y >>= g) := by
  cases h with
  | ok hab => exact hf _ _ hab
  | trap hm => exact .trap hm
  | fault f => exact .fault f

namespace Relocated
variable {K : Correspondence} {m m' : Machine} {i : Instruction}

theorem set (h : Relocated K m m') (r : Register) (v : Word) :
    Relocated K (m.set r v) (m'.set r v) := by
  refine ⟨?_,h.tlb,h.pageTable,h.bytes⟩
  simp only [Machine.set, h.registers]

theorem delayedLoad (h : Relocated K m m') (nextReg nextValue : Word) :
    (∃ f, m.delayedLoad nextReg nextValue = .error f ∧
      m'.delayedLoad nextReg nextValue = .error f) ∨
    ∃ u u', m.delayedLoad nextReg nextValue = .ok u ∧
      m'.delayedLoad nextReg nextValue = .ok u' ∧ Relocated K u u' := by
  unfold Machine.delayedLoad
  rw [h.registers]
  split_ifs with hload
  · exact .inr ⟨_,_,rfl,rfl,(((h.set _ _).set _ _).set _ _).set _ _⟩
  · exact .inl ⟨_,rfl,rfl⟩

theorem raiseException {α β : Type} {R : α → β → Prop} (h : Relocated K m m')
    (which : ExceptionType) (addr : Word) : Exec.Matches R (Relocated K)
      (m.raiseException which addr) (m'.raiseException which addr) := by
  unfold Machine.raiseException
  obtain ⟨f,hf,hf'⟩ | ⟨u,u',hu,hu',hrel⟩ := (h.set .badVAddr addr).delayedLoad 0 0
  · simp only [hf, hf', Outcome.exec_error, Exec.error_bind]
    exact .fault f
  · simp only [hu, hu', Outcome.exec_ok, Exec.ok_bind]
    exact .trap hrel

section Memory
variable {size : ℕ}

theorem findEntry (h : Relocated K m m') (vpn : ℕ) :
    (∃ f, m.findEntry vpn = .error f ∧ m'.findEntry vpn = .error f) ∨
    (∃ which, m.findEntry vpn = .ok (.error which) ∧ m'.findEntry vpn = .ok (.error which)) ∨
    ∃ e e' u u', m.findEntry vpn = .ok (.ok (e,u)) ∧ m'.findEntry vpn = .ok (.ok (e',u')) ∧
      K.entries e e' ∧ e.valid ∧ ∀ d d', K.entries d d' → Relocated K (u d) (u' d') := by
  obtain ⟨mem,regs,tlb,pageTable⟩ := m
  obtain ⟨mem',regs',tlb',pageTable'⟩ := m'
  obtain ⟨hregs,htlb,htable,hbytes⟩ := h
  cases htlb with
  | none =>
    cases htable with
    | none => exact .inl ⟨_,rfl,rfl⟩
    | @some l l' hl =>
      have hget := Pointwise.getElem? hl vpn
      simp only [Machine.findEntry]
      revert hget
      cases l[vpn]? with
      | none =>
        cases l'[vpn]? with
        | none => exact fun _ => .inr (.inl ⟨_,rfl,rfl⟩)
        | some _ =>
          intro hnone
          cases hnone
      | some e =>
        cases l'[vpn]? with
        | none =>
          intro hnone
          cases hnone
        | some e' =>
          rintro ⟨he⟩
          obtain ⟨-,hvalid,-⟩ := K.mapping he
          simp only [hvalid]
          split_ifs with hv
          · refine .inr (.inr ⟨e,e',_,_,rfl,rfl,he,hv,fun d d' hd => ?_⟩)
            exact ⟨hregs,.none,.some (Pointwise.set hl hd vpn),hbytes⟩
          · exact .inr (.inl ⟨_,rfl,rfl⟩)
  | @some l l' hl =>
    cases htable with
    | some _ => exact .inl ⟨_,rfl,rfl⟩
    | none =>
      have hfind : l'.findIdx? (fun e => e.valid && e.virtualPage.toNat == vpn) =
          l.findIdx? (fun e => e.valid && e.virtualPage.toNat == vpn) := by
        refine Pointwise.findIdx?_eq hl fun he => ?_
        obtain ⟨hpage,hvalid,-⟩ := K.mapping he
        rw [hpage, hvalid]
      simp only [Machine.findEntry, hfind]
      cases hidx : l.findIdx? (fun e => e.valid && e.virtualPage.toNat == vpn) with
      | none => exact .inr (.inl ⟨_,rfl,rfl⟩)
      | some i =>
        obtain ⟨hlt,hmatch,-⟩ := List.findIdx?_eq_some_iff_getElem.mp hidx
        have hget := Pointwise.getElem? hl i
        rw [List.getElem?_eq_getElem hlt] at hget
        simp only [List.getElem?_eq_getElem hlt]
        revert hget
        cases l'[i]? with
        | none =>
          intro hnone
          cases hnone
        | some e' =>
          rintro ⟨he⟩
          have hvalid : l[i].valid = true := (Bool.and_eq_true_iff.mp hmatch).1
          refine .inr (.inr ⟨_,e',_,_,rfl,rfl,he,hvalid,fun d d' hd => ?_⟩)
          exact ⟨hregs,.some (Pointwise.set hl hd i),.none,hbytes⟩

theorem translate (h : Relocated K m m') (hsize : AccessSize size) (addr : Word)
    (writing : Bool) :
    (∃ f, m.translate addr size writing = .error f ∧ m'.translate addr size writing = .error f) ∨
    (∃ which, m.translate addr size writing = .ok (.error which) ∧
      m'.translate addr size writing = .ok (.error which)) ∨
    ∃ p p' off u u', m.translate addr size writing = .ok (.ok (p * pageSize + off,u)) ∧
      m'.translate addr size writing = .ok (.ok (p' * pageSize + off,u')) ∧ K.frames p p' ∧
      p < numPhysPages ∧ p' < numPhysPages ∧ off + size ≤ pageSize ∧ Relocated K u u' := by
  by_cases hal : Misaligned addr size
  · exact .inr (.inl ⟨.addressError,if_pos hal,if_pos hal⟩)
  have hfit := offset_add_size_le hsize hal
  have hal' := hal
  rw [Misaligned] at hal'
  simp only [Machine.translate, if_neg hal']
  obtain ⟨f,hf,hf'⟩ | ⟨which,hw,hw'⟩ | ⟨e,e',u,u',he,he',hrel,hvalid,hset⟩ :=
    h.findEntry (addr.toNat / pageSize)
  · exact .inl ⟨f,by rw [hf]; rfl,by rw [hf']; rfl⟩
  · exact .inr (.inl ⟨which,by rw [hw]; rfl,by rw [hw']; rfl⟩)
  obtain ⟨-,-,hreadOnly⟩ := K.mapping hrel
  simp only [he, he', Outcome.ok_bind, TranslationEntry.access_eq hfit, TranslationEntry.permit,
    TranslationEntry.refusal, hreadOnly]
  by_cases hro : e.readOnly ∧ writing
  · exact .inr (.inl ⟨.readOnly,by simp [hro],by simp [hro]⟩)
  simp only [if_neg hro]
  obtain ⟨hout,hout'⟩ | ⟨hin,hin',hframes⟩ := K.placed hrel hvalid
  · exact .inr (.inl ⟨.busError,by simp [hout],by simp [hout']⟩)
  · refine .inr (.inr ⟨_,_,_,_,_,?_,?_,hframes,hin,hin',hfit,hset _ _ (K.touched hrel writing)⟩)
    · rw [if_neg (Nat.not_le.mpr hin)]
      rfl
    · rw [if_neg (Nat.not_le.mpr hin')]
      rfl

variable {p p' off : ℕ}

theorem frame_fits (hp : p < numPhysPages) (hfit : off + size ≤ pageSize) :
    p * pageSize + off + size ≤ memorySize := by
  unfold memorySize numPhysPages pageSize sectorSize at *
  omega

theorem get (h : Relocated K m m') (hframes : K.frames p p') (hp : p < numPhysPages)
    (hp' : p' < numPhysPages) (hfit : off + size ≤ pageSize) :
    ∃ bytes, m.mainMemory.get (p * pageSize + off) size = .ok bytes ∧
      m'.mainMemory.get (p' * pageSize + off) size = .ok bytes := by
  refine ⟨_,if_pos (frame_fits hp hfit),(if_pos (frame_fits hp' hfit)).trans ?_⟩
  refine congrArg Except.ok (List.ext_getElem? fun j => ?_)
  rw [List.getElem?_take, List.getElem?_take, List.getElem?_drop, List.getElem?_drop]
  split_ifs with hj
  · rw [add_assoc, add_assoc]
    exact h.bytes hframes _ (by omega)
  · rfl

/-- The bytes of another frame are left alone on both sides. -/
theorem put (h : Relocated K m m') (hframes : K.frames p p') (hp : p < numPhysPages)
    (hp' : p' < numPhysPages) {src : List Byte} (hfit : off + src.length ≤ pageSize) :
    ∃ mem mem', m.mainMemory.put (p * pageSize + off) src = .ok mem ∧
      m'.mainMemory.put (p' * pageSize + off) src = .ok mem' ∧
      Relocated K { m with mainMemory := mem } { m' with mainMemory := mem' } := by
  have hle := frame_fits hp hfit
  have hle' := frame_fits hp' hfit
  refine ⟨_,_,dif_pos hle,dif_pos hle',h.registers,h.tlb,h.pageTable,fun {q q'} hq j hj => ?_⟩
  have hiff : q = p ↔ q' = p' :=
    ⟨fun he => K.unique.2 (he ▸ hq) hframes,fun he => K.unique.1 (he ▸ hq) hframes⟩
  change (splice m'.mainMemory.bytes _ src)[_]? = (splice m.mainMemory.bytes _ src)[_]?
  rw [getElem?_splice (by rw [m'.mainMemory.length_bytes]; exact hle'),
    getElem?_splice (by rw [m.mainMemory.length_bytes]; exact hle), h.bytes hq j hj]
  have hhit : ∀ {a b : ℕ}, b * pageSize + off ≤ a * pageSize + j ∧
      a * pageSize + j < b * pageSize + off + src.length ↔
        a = b ∧ off ≤ j ∧ j < off + src.length := by
    intro a b
    constructor
    · rintro ⟨h₁,h₂⟩
      have hab : a = b := by
        unfold pageSize sectorSize at *
        omega
      subst hab
      exact ⟨rfl,by omega,by omega⟩
    · rintro ⟨rfl,h₁,h₂⟩
      omega
  simp only [hhit, hiff]
  by_cases hin : q' = p' ∧ off ≤ j ∧ j < off + src.length
  · obtain ⟨rfl,-,-⟩ := hin
    obtain rfl := hiff.mpr rfl
    congr 2
    omega
  · rw [if_neg hin, if_neg hin]

theorem readMem (h : Relocated K m m') (hsize : AccessSize size) (addr : Word) :
    Exec.Matches (fun x y => y.1 = x.1 ∧ Relocated K x.2 y.2) (Relocated K)
      (m.readMem addr size) (m'.readMem addr size) := by
  unfold Machine.readMem
  obtain ⟨f,hf,hf'⟩ | ⟨which,hw,hw'⟩ | ⟨p,p',off,u,u',ht,ht',hframes,hp,hp',hfit,hrel⟩ :=
    h.translate hsize addr false
  · rw [hf, hf']
    exact .fault f
  · rw [hw, hw']
    exact h.raiseException which addr
  · obtain ⟨bytes,hget,hget'⟩ := hrel.get hframes hp hp' hfit
    simp only [ht, ht', Outcome.exec_ok, Exec.ok_bind, hget, hget']
    rcases hsize with rfl | rfl | rfl
    · exact .ok ⟨rfl,hrel⟩
    · exact .ok ⟨rfl,hrel⟩
    · exact .ok ⟨rfl,hrel⟩

theorem writeMem (h : Relocated K m m') (hsize : AccessSize size) (addr value : Word) :
    Exec.Matches (Relocated K) (Relocated K) (m.writeMem addr size value)
      (m'.writeMem addr size value) := by
  unfold Machine.writeMem
  obtain ⟨f,hf,hf'⟩ | ⟨which,hw,hw'⟩ | ⟨p,p',off,u,u',ht,ht',hframes,hp,hp',hfit,hrel⟩ :=
    h.translate hsize addr true
  · rw [hf, hf']
    exact .fault f
  · rw [hw, hw']
    exact h.raiseException which addr
  · have hput : ∀ src : List Byte, src.length = size → Exec.Matches (Relocated K) (Relocated K)
        (do
          let mainMemory ← (u.mainMemory.put (p * pageSize + off) src).exec
          return { u with mainMemory := mainMemory })
        (do
          let mainMemory ← (u'.mainMemory.put (p' * pageSize + off) src).exec
          return { u' with mainMemory := mainMemory }) := by
      rintro src rfl
      obtain ⟨mem,mem',hmem,hmem',hrel'⟩ := hrel.put hframes hp hp' hfit
      simp only [hmem, hmem', Outcome.exec_ok, Exec.ok_bind]
      exact .ok hrel'
    simp only [ht, ht', Outcome.exec_ok, Exec.ok_bind]
    rcases hsize with rfl | rfl | rfl
    · exact hput _ rfl
    · exact hput _ rfl
    · exact hput _ (Codec.word.length_encode value)

end Memory

theorem pcAfter_eq (h : Relocated K m m') : m'.pcAfter = m.pcAfter := by
  rw [Machine.pcAfter, h.registers, Machine.pcAfter]

theorem link (h : Relocated K m m') (r : Fin numGPRegs) : Relocated K (m.link r) (m'.link r) := by
  unfold Machine.link
  rw [h.registers]
  exact h.set _ _

end Relocated

structure RelocatedEffect (K : Correspondence) (e e' : Effect) : Prop where
  machine : Relocated K e.machine e'.machine
  pcAfter : e'.pcAfter = e.pcAfter
  nextLoadReg : e'.nextLoadReg = e.nextLoadReg
  nextLoadValue : e'.nextLoadValue = e.nextLoadValue

namespace Relocated
variable {K : Correspondence} {m m' : Machine} {i : Instruction}

section Switch

theorem assign (h : Relocated K m m') (r : Register) (v : Word) :
    Exec.Matches (RelocatedEffect K) (Relocated K) (m.assign r v) (m'.assign r v) :=
  .ok ⟨h.set r v,h.pcAfter_eq,rfl,rfl⟩

theorem assignHiLo (h : Relocated K m m') (hi lo : Word) :
    Exec.Matches (RelocatedEffect K) (Relocated K) (m.assignHiLo hi lo) (m'.assignHiLo hi lo) :=
  .ok ⟨(h.set _ _).set _ _,h.pcAfter_eq,rfl,rfl⟩

theorem jump (h : Relocated K m m') (pcAfter : Word) :
    Exec.Matches (RelocatedEffect K) (Relocated K) (m.jump pcAfter) (m'.jump pcAfter) :=
  .ok ⟨h,rfl,rfl,rfl⟩

theorem branch (h : Relocated K m m') (taken : Prop) [Decidable taken] :
    Exec.Matches (RelocatedEffect K) (Relocated K) (m.branch i taken) (m'.branch i taken) := by
  rw [Machine.branch, Machine.branch, h.registers, h.pcAfter_eq]
  exact h.jump _

theorem load (h : Relocated K m m') {size : ℕ} (hsize : AccessSize size) (addr : Word)
    (convert : Word → Word) : Exec.Matches (RelocatedEffect K) (Relocated K)
      (m.load i addr size convert) (m'.load i addr size convert) := by
  refine (h.readMem hsize addr).bind ?_
  rintro ⟨value,u⟩ ⟨_,u'⟩ ⟨rfl,hu⟩
  exact .ok ⟨hu,h.pcAfter_eq,rfl,rfl⟩

theorem store (h : Relocated K m m') {size : ℕ} (hsize : AccessSize size) (addr value : Word) :
    Exec.Matches (RelocatedEffect K) (Relocated K) (m.store addr size value)
      (m'.store addr size value) :=
  (h.writeMem hsize addr value).bind fun _ _ hu => .ok ⟨hu,h.pcAfter_eq,rfl,rfl⟩

theorem loadMerged (h : Relocated K m m') (addr : Word) (merge : Word → Word → Word → Word) :
    Exec.Matches (RelocatedEffect K) (Relocated K) (m.loadMerged i addr merge)
      (m'.loadMerged i addr merge) := by
  unfold Machine.loadMerged
  split_ifs
  · exact .fault _
  refine (h.readMem (.inr (.inr rfl)) addr).bind ?_
  rintro ⟨_,u⟩ ⟨value,u'⟩ ⟨rfl,(hu : Relocated K u u')⟩
  refine .ok ⟨hu,h.pcAfter_eq,rfl,?_⟩
  simp only [Machine.mergeInto, hu.registers]

theorem storeMerged (h : Relocated K m m') (addr : Word) (merge : Word → Word → Word → Word) :
    Exec.Matches (RelocatedEffect K) (Relocated K) (m.storeMerged i addr merge)
      (m'.storeMerged i addr merge) := by
  unfold Machine.storeMerged
  split_ifs
  · exact .fault _
  refine (h.readMem (.inr (.inr rfl)) _).bind ?_
  rintro ⟨_,u⟩ ⟨value,u'⟩ ⟨rfl,(hu : Relocated K u u')⟩
  simp only [hu.registers]
  exact hu.store (.inr (.inr rfl)) _ _

end Switch

theorem execute (h : Relocated K m m') (i : Instruction) :
    Exec.Matches (RelocatedEffect K) (Relocated K) (m.execute i) (m'.execute i) := by
  obtain ⟨op,rs,rt,rd,extra⟩ := i
  cases op <;> simp only [Machine.execute, h.registers, h.pcAfter_eq]
  case add | addi | sub =>
    split_ifs
    · exact h.raiseException _ _
    · exact h.assign _ _
  case beq | bgez | bgtz | blez | bltz | bne => exact h.branch _
  case bgezal | bltzal =>
    simp only [(h.link 31).registers]
    exact (h.link 31).branch _
  case jalr =>
    simp only [(h.link rd).registers]
    exact (h.link rd).jump _
  case jal => exact (h.link 31).jump _
  case j | jr => exact h.jump _
  case div =>
    split_ifs
    · exact h.assignHiLo _ _
    · exact .fault _
    · exact h.assignHiLo _ _
  case divu => split_ifs <;> exact h.assignHiLo _ _
  case mult | multu => exact h.assignHiLo _ _
  case lb | lbu => exact h.load (.inl rfl) _ _
  case lh | lhu =>
    split_ifs
    · exact h.raiseException _ _
    · exact h.load (.inr (.inl rfl)) _ _
  case lw =>
    split_ifs
    · exact h.raiseException _ _
    · exact h.load (.inr (.inr rfl)) _ _
  case lwl | lwr => exact h.loadMerged _ _
  case swl | swr => exact h.storeMerged _ _
  case sb => exact h.store (.inl rfl) _ _
  case sh => exact h.store (.inr (.inl rfl)) _ _
  case sw => exact h.store (.inr (.inr rfl)) _ _
  case syscall | unimp | res => exact h.raiseException _ _
  case rfe | special | bcond => exact .fault _
  all_goals exact h.assign _ _

theorem oneInstruction (h : Relocated K m m') (debug : Bool) :
    Exec.Matches (Relocated K) (Relocated K) (m.oneInstruction debug)
      (m'.oneInstruction debug) := by
  unfold Machine.oneInstruction
  rw [h.registers]
  refine (h.readMem (.inr (.inr rfl)) _).bind ?_
  rintro ⟨_,u⟩ ⟨raw,u'⟩ ⟨rfl,(hu : Relocated K u u')⟩
  dsimp only
  split_ifs
  · exact .fault _
  refine (hu.execute _).bind fun e e' he => ?_
  rw [he.pcAfter, he.nextLoadReg, he.nextLoadValue]
  obtain ⟨f,hf,hf'⟩ | ⟨w,w',hw,hw',hrel⟩ := he.machine.delayedLoad e.nextLoadReg e.nextLoadValue
  · rw [hf, hf']
    exact .fault f
  · simp only [hw, hw', Outcome.exec_ok, Exec.ok_bind, Exec.pure_eq, hrel.registers]
    have hprev := hrel.set .prevPC (w.registers .pc)
    rw [hprev.registers]
    exact .ok ((hprev.set _ _).set _ _)

end Relocated

/-- The same mapping, whatever the `use` and `dirty` bits. -/
structure TranslationEntry.SameMapping (e e' : TranslationEntry) : Prop where
  virtualPage : e'.virtualPage = e.virtualPage
  physicalPage : e'.physicalPage = e.physicalPage
  valid : e'.valid = e.valid
  readOnly : e'.readOnly = e.readOnly

def Correspondence.sameMapping : Correspondence where
  entries := TranslationEntry.SameMapping
  frames := Eq
  unique := ⟨fun _ _ _ h h' => h.trans h'.symm,fun _ _ _ h h' => h.symm.trans h'⟩
  mapping h := ⟨h.virtualPage,h.valid,h.readOnly⟩
  placed {e e'} h _ := by
    rw [h.physicalPage]
    rcases Nat.lt_or_ge e.physicalPage.toNat numPhysPages with hlt | hge
    · exact .inr ⟨hlt,hlt,rfl⟩
    · exact .inl ⟨hge,hge⟩
  touched h _ := ⟨h.virtualPage,h.physicalPage,h.valid,h.readOnly⟩

theorem Relocated.mainMemory_eq {m m' : Machine} (h : Relocated .sameMapping m m') :
    m'.mainMemory = m.mainMemory := by
  have hbytes : m'.mainMemory.bytes = m.mainMemory.bytes := by
    refine List.ext_getElem? fun j => ?_
    rw [← Nat.div_add_mod' j pageSize]
    exact h.bytes rfl _ (Nat.mod_lt _ (by decide))
  obtain ⟨⟨bytes,hlen⟩,regs,tlb,pageTable⟩ := m
  obtain ⟨⟨bytes',hlen'⟩,regs',tlb',pageTable'⟩ := m'
  subst hbytes
  rfl

end Nachos
