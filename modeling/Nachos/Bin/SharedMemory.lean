import Nachos.Bin.SameDecoding
import Nachos.Machine.ByteMemory
import Nachos.Machine.RegisterFile

/-! # One memory for two programs

The addresses that the machine translates are places in the array of the interpreter, and the
bytes are the same there. An access that the machine makes then finds the same bytes in the
array, and leaves the same ones behind.
-/
namespace Nachos

/-- `m` as a window on the array `mem`: no byte is seen at two addresses. -/
structure Machine.Window (m : Machine) (mem : ℕ → Byte) : Prop where
  inside : ∀ addr p, translation m.lookup addr 1 false = .ok p →
    memOffset ≤ addr.toNat ∧ addr.toNat < memOffset + memSize
  byte : ∀ addr p, translation m.lookup addr 1 false = .ok p →
    m.mainMemory.bytes[p]? = some (mem (addr.toNat - memOffset))
  apart : ∀ a b p, translation m.lookup a 1 false = .ok p →
    translation m.lookup b 1 false = .ok p → a = b

/-- The value of the bytes that `ReadMem` has read. -/
def accessValue (size : ℕ) (bytes : List Byte) : Word :=
  match size with
  | 1 => (bytes.getD 0 0).signExtend 32
  | 2 => (bytes.getD 1 0 ++ bytes.getD 0 0).zeroExtend 32
  | _ => Codec.word.decode bytes

variable {m m' : Machine} {mem : ℕ → Byte} {addr : Word} {size p : ℕ} {writing : Bool}

theorem translation_byte {lookup : ℕ → Except ExceptionType TranslationEntry}
    (hsize : AccessSize size) (h : translation lookup addr size writing = .ok p) {j : ℕ}
    (hj : j < size) : (addr + BitVec.ofNat 32 j).toNat = addr.toNat + j ∧
      translation lookup (addr + BitVec.ofNat 32 j) 1 false = .ok (p + j) := by
  unfold translation at h
  split_ifs at h with hal
  have hfit : addr.toNat % pageSize + size ≤ pageSize := offset_add_size_le hsize hal
  have hlt := addr.isLt
  unfold pageSize sectorSize at *
  have hsum : (addr + BitVec.ofNat 32 j).toNat = addr.toNat + j := by
    rw [BitVec.toNat_add, BitVec.toNat_ofNat]
    omega
  refine ⟨hsum,?_⟩
  have haligned : ¬ Misaligned (addr + BitVec.ofNat 32 j) 1 := by simp [Misaligned]
  have hpage : (addr.toNat + j) / 128 = addr.toNat / 128 := by omega
  have hoffset : (addr.toNat + j) % 128 = addr.toNat % 128 + j := by omega
  simp only [translation, if_neg haligned, hsum, pageSize, sectorSize, hpage, hoffset]
  cases hlook : lookup (addr.toNat / 128) with
  | error which => rw [hlook] at h; cases h
  | ok entry =>
    rw [hlook] at h
    simp only [TranslationEntry.permit] at h ⊢
    cases hrefusal : entry.refusal writing with
    | some which => rw [hrefusal] at h; cases h
    | none =>
      rw [hrefusal] at h
      obtain rfl := Except.ok.inj h
      have hread : entry.refusal false = none := by
        have hframe := TranslationEntry.frame_lt hrefusal
        simp [TranslationEntry.refusal, Nat.not_le.mpr hframe]
      rw [hread]
      exact congrArg Except.ok (Nat.add_assoc _ _ _).symm

namespace Machine

theorem translation_after (hsize : AccessSize size)
    (htr : m.translate addr size writing = .ok (.ok (p,m'))) {addr' : Word} {p' : ℕ} :
    translation m'.lookup addr' 1 false = .ok p' ↔ translation m.lookup addr' 1 false = .ok p' := by
  have hm : m.OneTable := Maps.oneTable ⟨m',htr⟩
  obtain ⟨-,-,i,entry,hentry,rfl⟩ := (touchesOne hm hsize addr writing).found _ _ htr
  have hbyte : AccessSize 1 := .inl rfl
  rw [← maps_iff (oneTable_access hm) hbyte, maps_access hm hentry hbyte, maps_iff hm hbyte]

theorem translate_of_readMem (hsize : AccessSize size) {v : Word}
    (h : m.readMem addr size = .ok (v,m')) :
    ∃ p, m.translate addr size false = .ok (.ok (p,m')) := by
  unfold Machine.readMem at h
  cases htr : m.translate addr size false with
  | error f => rw [htr] at h; cases h
  | ok r =>
    rw [htr] at h
    simp only [Outcome.exec_ok, Exec.ok_bind] at h
    rcases r with which | ⟨p,m₁⟩
    · exact absurd h raiseException_ne_ok
    · simp only at h
      cases hget : m₁.mainMemory.get p size with
      | error f => rw [hget] at h; cases h
      | ok bs =>
        rw [hget] at h
        rcases hsize with rfl | rfl | rfl <;> cases h <;> exact ⟨p,rfl⟩

namespace Window

theorem congr (h : m.Window mem) (hmem : m'.mainMemory = m.mainMemory)
    (hlookup : ∀ addr p, translation m'.lookup addr 1 false = .ok p →
      translation m.lookup addr 1 false = .ok p) : m'.Window mem where
  inside addr p hp := h.inside addr p (hlookup addr p hp)
  byte addr p hp := hmem ▸ h.byte addr p (hlookup addr p hp)
  apart a b p ha hb := h.apart a b p (hlookup a p ha) (hlookup b p hb)

/-- A translation sets bits of an entry. -/
theorem translate (h : m.Window mem) (hsize : AccessSize size)
    (htr : m.translate addr size writing = .ok (.ok (p,m'))) : m'.Window mem :=
  h.congr (translate_sameBut htr).mainMemory fun _ _ hp => (translation_after hsize htr).mp hp

theorem bytes_eq (h : m.Window mem) (hsize : AccessSize size)
    (htr : translation m.lookup addr size writing = .ok p) :
    Interpreter.place addr size = .ok (addr.toNat - memOffset) ∧
      (List.range size).map (fun j => mem (addr.toNat - memOffset + j)) =
        (m.mainMemory.bytes.drop p).take size := by
  have hpos : 0 < size := by rcases hsize with rfl | rfl | rfl <;> decide
  obtain ⟨hfirst,htr₀⟩ := translation_byte hsize htr hpos
  obtain ⟨hlast,htr₁⟩ := translation_byte hsize htr (Nat.sub_lt hpos Nat.one_pos)
  have hlow := (h.inside _ _ htr₀).1
  have hhigh := (h.inside _ _ htr₁).2
  rw [hfirst] at hlow
  rw [hlast] at hhigh
  refine ⟨if_pos ⟨hlow,by omega⟩,List.ext_getElem? fun j => ?_⟩
  rw [List.getElem?_map, List.getElem?_take, List.getElem?_drop]
  by_cases hj : j < size
  · obtain ⟨hsum,htrj⟩ := translation_byte hsize htr hj
    have hplace : addr.toNat + j - memOffset = addr.toNat - memOffset + j := by omega
    rw [if_pos hj, h.byte _ _ htrj, hsum, hplace]
    simp [hj]
  · rw [if_neg hj]
    simp [hj]

variable {s : Interpreter}

theorem readMem (h : m.Window s.mem) (hsize : AccessSize size) {v : Word}
    (hread : m.readMem addr size = .ok (v,m')) : m'.Window s.mem ∧
      ∃ bs, s.bytesAt addr size = .ok bs ∧ v = accessValue size bs := by
  obtain ⟨p,htr⟩ := translate_of_readMem hsize hread
  have hmaps : m.Maps addr size false p := ⟨m',htr⟩
  obtain ⟨r,htr',hfit⟩ := translate_ok hmaps.oneTable hsize addr false
  cases htr.symm.trans htr'
  obtain ⟨hplace,hbytes⟩ := h.bytes_eq hsize ((maps_iff hmaps.oneTable hsize).mp hmaps)
  have hget : m'.mainMemory.get p size = .ok ((m.mainMemory.bytes.drop p).take size) := by
    rw [(translate_sameBut htr).mainMemory]
    exact if_pos (hfit _ rfl)
  refine ⟨h.translate hsize htr,(m.mainMemory.bytes.drop p).take size,
    by rw [Interpreter.bytesAt, hplace, ← hbytes]; rfl,?_⟩
  rw [Machine.readMem, htr] at hread
  simp only [Outcome.exec_ok, Exec.ok_bind, hget] at hread
  generalize (m.mainMemory.bytes.drop p).take size = bs at hread
  rcases hsize with rfl | rfl | rfl <;> exact (congrArg Prod.fst (Except.ok.inj hread)).symm

theorem writeMem (h : m.Window s.mem) {v : Word} (hwrite : m.writeMem addr size v = .ok m') :
    ∃ mem', s.putBytes addr (LittleEndian.bytes size v.toNat) = .ok { s with mem := mem' } ∧
      m'.Window mem' := by
  obtain ⟨p,m₁,memory,hsize,htr,hmemory,rfl⟩ := writeMem_stores hwrite
  have hmaps : m.Maps addr size true p := ⟨m₁,htr⟩
  have htranslation := (maps_iff hmaps.oneTable hsize).mp hmaps
  obtain ⟨hplace,-⟩ := h.bytes_eq hsize htranslation
  obtain ⟨r,htr',hfit⟩ := translate_ok hmaps.oneTable hsize addr true
  cases htr.symm.trans htr'
  generalize hbs : LittleEndian.bytes size v.toNat = bs at hmemory
  have hlength : bs.length = size := hbs ▸ LittleEndian.length_bytes _ _
  have hinto : p + bs.length ≤ m.mainMemory.bytes.length := by
    rw [m.mainMemory.length_bytes, hlength]
    exact hfit _ rfl
  refine ⟨_,by rw [Interpreter.putBytes, hlength, hplace]; rfl,?_⟩
  have hafter : ∀ {a q}, translation (Machine.lookup { m₁ with mainMemory := memory }) a 1 false =
      .ok q → translation m.lookup a 1 false = .ok q := (translation_after hsize htr).mp
  refine ⟨fun a q hq => h.inside a q (hafter hq),fun a q hq => ?_,
    fun a b q ha hb => h.apart a b q (hafter ha) (hafter hb)⟩
  have hq' := hafter hq
  have hin := (h.inside a q hq').1
  have hpos : 0 < size := by rcases hsize with rfl | rfl | rfl <;> decide
  have hstart := (h.inside _ _ (translation_byte hsize htranslation hpos).2).1
  rw [(translation_byte hsize htranslation hpos).1] at hstart
  change memory.bytes[q]? = _
  rw [hmemory, getElem?_splice hinto, hlength]
  by_cases hhit : p ≤ q ∧ q < p + size
  · -- the byte at this address was written
    obtain ⟨j,rfl⟩ := Nat.exists_eq_add_of_le hhit.1
    have hj : j < size := by omega
    obtain ⟨hsum,htrj⟩ := translation_byte hsize htranslation hj
    obtain rfl := h.apart _ _ _ hq' htrj
    have hplace : (addr + BitVec.ofNat 32 j).toNat - memOffset - (addr.toNat - memOffset) = j := by
      omega
    have hback : p + j - p = j := by omega
    rw [if_pos hhit, if_pos (by omega), hplace, hback, List.getElem?_eq_getElem (hlength ▸ hj)]
    rfl
  · rw [if_neg hhit, h.byte a q hq']
    by_cases hlow : addr.toNat - memOffset ≤ a.toNat - memOffset
    · -- otherwise the address would be one of those written
      have hfar : size ≤ a.toNat - memOffset - (addr.toNat - memOffset) := by
        by_contra hlt
        have hj : a.toNat - addr.toNat < size := by omega
        obtain ⟨hsum,htrj⟩ := translation_byte hsize htranslation hj
        have ha : a = addr + BitVec.ofNat 32 (a.toNat - addr.toNat) := by
          apply BitVec.eq_of_toNat_eq
          omega
        rw [← ha, hq'] at htrj
        have := Except.ok.inj htrj
        omega
      rw [if_pos hlow, List.getElem?_eq_none (hlength ▸ hfar)]
      rfl
    · rw [if_neg hlow]

end Window

end Machine

end Nachos
