import Nachos.Machine.Translate
import Mathlib.Algebra.Order.Ring.Nat

/-! # What a memory access can do

Translation looks at the tables and sets bits in them; it never fails an `ASSERT` on a
machine with one of the two tables. The registers go through it unread.
-/
namespace Nachos

namespace Exec
variable {α β : Type}

@[simp] theorem ok_bind (a : α) (f : α → Exec β) : (Except.ok a >>= f) = f a := rfl
@[simp] theorem error_bind (e : Stop) (f : α → Exec β) :
    ((Except.error e : Exec α) >>= f) = .error e := rfl
@[simp] theorem pure_eq (a : α) : (pure a : Exec α) = .ok a := rfl
@[simp] theorem throw_eq (e : Stop) : (throw e : Exec α) = .error e := rfl

end Exec

@[simp] theorem Outcome.exec_ok {α : Type} (a : α) : Outcome.exec (.ok a) = .ok a := rfl
@[simp] theorem Outcome.exec_error {α : Type} (f : Fault) :
    (Outcome.exec (.error f) : Exec α) = .error (.fault f) := rfl

def AccessSize (size : ℕ) : Prop := size = 1 ∨ size = 2 ∨ size = 4

theorem mod_eq_zero_of_and {addr : Word} {k : ℕ} (hk : k < 32)
    (h : addr &&& BitVec.ofNat 32 (2 ^ k - 1) = 0) : addr.toNat % 2 ^ k = 0 := by
  have hlt : 2 ^ k - 1 < 2 ^ 32 := by
    have := Nat.pow_lt_pow_right (a := 2) (by omega) hk
    omega
  have := congrArg BitVec.toNat h
  rw [BitVec.toNat_and, BitVec.toNat_ofNat, Nat.mod_eq_of_lt hlt,
    Nat.and_two_pow_sub_one_eq_mod] at this
  exact this

theorem offset_add_size_le {addr : Word} {size : ℕ} (hsize : AccessSize size)
    (h : ¬ (size = 4 ∧ addr &&& 3 ≠ 0 ∨ size = 2 ∧ addr &&& 1 ≠ 0)) :
    addr.toNat % pageSize + size ≤ pageSize := by
  unfold pageSize sectorSize
  rcases hsize with rfl | rfl | rfl
  · omega
  · have := mod_eq_zero_of_and (k := 1) (by omega) (by simpa using h)
    omega
  · have := mod_eq_zero_of_and (k := 2) (by omega) (by simpa using h)
    omega

theorem TranslationEntry.access_ok (entry : TranslationEntry) {offset size : ℕ} (writing : Bool)
    (h : offset + size ≤ pageSize) :
    ∃ r, entry.access offset size writing = .ok r ∧
      ∀ p, r = .ok p → p.1 + size ≤ memorySize := by
  by_cases hro : entry.readOnly ∧ writing
  · exact ⟨_,if_pos hro,fun _ hp => by cases hp⟩
  by_cases hframe : numPhysPages ≤ entry.physicalPage.toNat
  · exact ⟨_,by rw [access, if_neg hro]; exact if_pos hframe,fun _ hp => by cases hp⟩
  have hfit : entry.physicalPage.toNat * pageSize + offset + size ≤ memorySize := by
    unfold memorySize numPhysPages pageSize sectorSize at *
    omega
  refine ⟨_,by
    simp only [access, if_neg hro, if_neg hframe, hfit, not_true_eq_false, if_false]; rfl,?_⟩
  rintro p ⟨⟩
  exact hfit

namespace Machine

def OneTable (m : Machine) : Prop := m.tlb.isSome ≠ m.pageTable.isSome

instance (m : Machine) : Decidable m.OneTable := inferInstanceAs (Decidable (_ ≠ _))

/-- The same registers and memory, and tables of the same kind. -/
structure SameBut (m m' : Machine) : Prop where
  registers : m'.registers = m.registers
  mainMemory : m'.mainMemory = m.mainMemory
  tlb : m'.tlb.isSome = m.tlb.isSome
  pageTable : m'.pageTable.isSome = m.pageTable.isSome

variable {m m' : Machine} {addr : Word} {size physAddr : ℕ} {writing : Bool}

theorem SameBut.oneTable (h : m.SameBut m') (hm : m.OneTable) : m'.OneTable := by
  unfold OneTable
  rw [h.tlb, h.pageTable]
  exact hm

theorem findEntry_sameBut {vpn : ℕ} {entry : TranslationEntry}
    {update : TranslationEntry → Machine} (h : m.findEntry vpn = .ok (.ok (entry,update)))
    (e : TranslationEntry) : m.SameBut (update e) := by
  unfold findEntry at h
  split at h
  · cases h
  · cases h
  · split at h
    · cases h
    · split_ifs at h <;> cases h
      exact ⟨rfl,rfl,rfl,by simp [*]⟩
  · split at h
    · cases h
    · split at h
      · cases h
      · cases h
        exact ⟨rfl,rfl,by simp [*],rfl⟩

theorem findEntry_ok (hm : m.OneTable) (vpn : ℕ) : ∃ r, m.findEntry vpn = .ok r := by
  unfold findEntry
  split
  · next h₁ h₂ => exact absurd (by rw [h₁, h₂]; rfl) hm
  · next h₁ h₂ => exact absurd (by rw [h₁, h₂]) hm
  · split
    · exact ⟨_,rfl⟩
    · split_ifs <;> exact ⟨_,rfl⟩
  · split
    · exact ⟨_,rfl⟩
    · next i hi =>
      obtain ⟨hlt,-⟩ := List.findIdx?_eq_some_iff_getElem.mp hi
      rw [List.getElem?_eq_getElem hlt]
      exact ⟨_,rfl⟩

theorem translate_sameBut (h : m.translate addr size writing = .ok (.ok (physAddr,m'))) :
    m.SameBut m' := by
  unfold translate at h
  split_ifs at h
  · cases h
  · obtain ⟨r,hfind,h⟩ := Outcome.bind_eq_ok.mp h
    rcases r with _ | ⟨entry,update⟩
    · cases h
    obtain ⟨r,-,h⟩ := Outcome.bind_eq_ok.mp h
    rcases r with _ | ⟨physAddr,entry⟩
    · cases h
    cases h
    exact findEntry_sameBut hfind _

theorem translate_ok (hm : m.OneTable) (hsize : AccessSize size) (addr : Word) (writing : Bool) :
    ∃ r, m.translate addr size writing = .ok r ∧ ∀ p, r = .ok p → p.1 + size ≤ memorySize := by
  by_cases hal : size = 4 ∧ addr &&& 3 ≠ 0 ∨ size = 2 ∧ addr &&& 1 ≠ 0
  · exact ⟨_,by rw [translate, if_pos hal]; rfl,fun _ hp => by cases hp⟩
  obtain ⟨r,hfind⟩ := findEntry_ok hm (addr.toNat / pageSize)
  rcases r with which | ⟨entry,update⟩
  · exact ⟨_,by rw [translate, if_neg hal, hfind]; rfl,fun _ hp => by cases hp⟩
  obtain ⟨r,haccess,hfit⟩ := entry.access_ok writing (offset_add_size_le hsize hal)
  rcases r with which | ⟨physAddr,entry'⟩
  · refine ⟨.error which,?_,fun _ hp => by cases hp⟩
    rw [translate, if_neg hal, hfind]
    simp [haccess]
  · refine ⟨.ok (physAddr,update entry'),?_,?_⟩
    · rw [translate, if_neg hal, hfind]
      simp [haccess]
    · rintro p ⟨⟩
      exact hfit _ rfl

theorem readMem_sameBut {value : Word} (h : m.readMem addr size = .ok (value,m')) :
    m.SameBut m' := by
  unfold readMem at h
  cases htr : m.translate addr size false with
  | error f => rw [htr] at h; cases h
  | ok r =>
    rw [htr] at h
    rcases r with which | ⟨physAddr,m₁⟩
    · simp only [Outcome.exec_ok, Exec.ok_bind, raiseException] at h
      cases hd : (m.set .badVAddr addr).delayedLoad 0 0 <;> rw [hd] at h <;> cases h
    · simp only [Outcome.exec_ok, Exec.ok_bind] at h
      cases hget : m₁.mainMemory.get physAddr size with
      | error f => rw [hget] at h; cases h
      | ok bytes =>
        rw [hget] at h
        simp only [Outcome.exec_ok, Exec.ok_bind] at h
        split at h <;> cases h <;> exact translate_sameBut htr

theorem writeMem_registers {value : Word} (h : m.writeMem addr size value = .ok m') :
    m'.registers = m.registers := by
  unfold writeMem at h
  cases htr : m.translate addr size true with
  | error f => rw [htr] at h; cases h
  | ok r =>
    rw [htr] at h
    rcases r with which | ⟨physAddr,m₁⟩
    · simp only [Outcome.exec_ok, Exec.ok_bind, raiseException] at h
      cases hd : (m.set .badVAddr addr).delayedLoad 0 0 <;> rw [hd] at h <;> cases h
    · simp only [Outcome.exec_ok, Exec.ok_bind] at h
      have hput : ∀ bytes : List Byte, (do
          let mainMemory ← (m₁.mainMemory.put physAddr bytes).exec
          return { m₁ with mainMemory := mainMemory } : Exec Machine) = .ok m' →
          m'.registers = m.registers := by
        intro bytes h
        cases hp : m₁.mainMemory.put physAddr bytes with
        | error f => rw [hp] at h; cases h
        | ok mem => rw [hp] at h; cases h; exact (translate_sameBut htr).registers
      split at h
      · exact hput _ h
      · exact hput _ h
      · exact hput _ h
      · cases h

theorem readMem_cases (hm : m.OneTable) (hsize : AccessSize size) (addr : Word) :
    (∃ which, m.readMem addr size = m.raiseException which addr) ∨
      ∃ value m', m.readMem addr size = .ok (value,m') := by
  obtain ⟨r,htr,hfit⟩ := translate_ok hm hsize addr false
  rcases r with which | ⟨physAddr,m₁⟩
  · refine .inl ⟨which,?_⟩
    rw [readMem, htr]
    rfl
  · have hget : m₁.mainMemory.get physAddr size =
        .ok ((m₁.mainMemory.bytes.drop physAddr).take size) := if_pos (hfit _ rfl)
    refine .inr ?_
    rw [readMem, htr]
    simp only [Outcome.exec_ok, Exec.ok_bind, hget]
    rcases hsize with rfl | rfl | rfl <;> exact ⟨_,_,rfl⟩

theorem writeMem_cases (hm : m.OneTable) (hsize : AccessSize size) (addr value : Word) :
    (∃ which, m.writeMem addr size value = m.raiseException which addr) ∨
      ∃ m', m.writeMem addr size value = .ok m' := by
  obtain ⟨r,htr,hfit⟩ := translate_ok hm hsize addr true
  rcases r with which | ⟨physAddr,m₁⟩
  · refine .inl ⟨which,?_⟩
    rw [writeMem, htr]
    rfl
  · have hput : ∀ bytes : List Byte, bytes.length = size →
        ∃ mem, m₁.mainMemory.put physAddr bytes = .ok mem := fun bytes hb =>
      ⟨_,dif_pos (by rw [hb]; exact hfit _ rfl)⟩
    refine .inr ?_
    rw [writeMem, htr]
    rcases hsize with rfl | rfl | rfl
    · obtain ⟨mem,hmem⟩ := hput [Codec.wordByte value 0] rfl
      exact ⟨_,by simp only [Outcome.exec_ok, Exec.ok_bind, Exec.pure_eq, hmem]; rfl⟩
    · obtain ⟨mem,hmem⟩ := hput [Codec.wordByte value 0, Codec.wordByte value 1] rfl
      exact ⟨_,by simp only [Outcome.exec_ok, Exec.ok_bind, Exec.pure_eq, hmem]; rfl⟩
    · obtain ⟨mem,hmem⟩ := hput (Codec.word.encode value) (Codec.word.length_encode value)
      exact ⟨_,by simp only [Outcome.exec_ok, Exec.ok_bind, Exec.pure_eq, hmem]; rfl⟩

end Machine

end Nachos
