import Nachos.Machine.TranslationModes
import Nachos.Machine.HostSafety
import Nachos.Library.LittleEndian
import Nachos.Library.DoubleWord

/-! # Virtual memory as bytes

Behind the translation the memory is an array of bytes: a write replaces the bytes at the
physical address, and whatever page a read goes through, it gives the bytes that are there.
-/
namespace Nachos
open LittleEndian

/-- The value of some bytes: a single one is a `char`, two are an `unsigned short`. -/
def readValue (size : ℕ) (bs : List Byte) : Word :=
  if size = 1 then (BitVec.ofNat 8 (value bs)).signExtend 32 else BitVec.ofNat 32 (value bs)

namespace Machine

/-- `Translate` gives this physical address. -/
def Maps (m : Machine) (addr : Word) (size : ℕ) (writing : Bool) (physAddr : ℕ) : Prop :=
  ∃ m', m.translate addr size writing = .ok (.ok (physAddr,m'))

/-- The memory holds these bytes, and every access that is translated reads them. -/
structure Holds (m : Machine) (mem : List Byte) : Prop where
  bytes : m.mainMemory.bytes = mem
  reads : ∀ addr size physAddr, AccessSize size → m.Maps addr size false physAddr →
    ∃ m', m.readMem addr size =
      .ok (readValue size ((mem.drop physAddr).take size),m')

/-- The memory and all bits of the tables are as they were. -/
structure SameMemory (m t : Machine) : Prop where
  mainMemory : t.mainMemory = m.mainMemory
  tlb : t.tlb = m.tlb
  pageTable : t.pageTable = m.pageTable

variable {m m' t : Machine} {addr : Word} {size physAddr : ℕ} {writing : Bool}

theorem Maps.oneTable (h : m.Maps addr size writing physAddr) : m.OneTable := by
  obtain ⟨m',h⟩ := h
  unfold translate at h
  split_ifs at h
  · cases h
  · obtain ⟨r,hfind,-⟩ := Outcome.bind_eq_ok.mp h
    unfold findEntry at hfind
    unfold OneTable
    cases htlb : m.tlb <;> cases htable : m.pageTable <;> simp_all

theorem maps_iff (hm : m.OneTable) (hsize : AccessSize size) :
    m.Maps addr size writing physAddr ↔ translation m.lookup addr size writing = .ok physAddr := by
  obtain ⟨r,hr,htranslation⟩ := translate_eq hm hsize addr writing
  rw [← htranslation, Maps, hr]
  constructor
  · rintro ⟨m',h⟩
    cases h
    rfl
  · intro h
    cases r with
    | error which => cases h
    | ok p =>
      cases h
      exact ⟨_,rfl⟩

/-- A delayed load and the faulting address are all that a trap leaves behind. -/
theorem raiseException_sameMemory {α : Type} {which which' : ExceptionType} {badVAddr : Word}
    (h : (m.raiseException which badVAddr : Exec α) = .error (.trap which' t)) :
    m.SameMemory t := by
  unfold raiseException delayedLoad at h
  simp only at h
  split_ifs at h
  · cases h
    exact ⟨rfl,rfl,rfl⟩
  · cases h

theorem readMem_trap {which : ExceptionType}
    (h : m.readMem addr size = .error (.trap which t)) : m.SameMemory t := by
  unfold readMem at h
  cases htr : m.translate addr size false with
  | error f => rw [htr] at h; cases h
  | ok r =>
    rw [htr] at h
    simp only [Outcome.exec_ok, Exec.ok_bind] at h
    rcases r with which' | ⟨physAddr,m₁⟩
    · exact raiseException_sameMemory h
    · simp only at h
      cases hget : m₁.mainMemory.get physAddr size with
      | error f => rw [hget] at h; cases h
      | ok bytes =>
        rw [hget] at h
        simp only [Outcome.exec_ok, Exec.ok_bind] at h
        split at h <;> cases h

theorem writeMem_trap {value : Word} {which : ExceptionType}
    (h : m.writeMem addr size value = .error (.trap which t)) : m.SameMemory t := by
  unfold writeMem at h
  cases htr : m.translate addr size true with
  | error f => rw [htr] at h; cases h
  | ok r =>
    rw [htr] at h
    simp only [Outcome.exec_ok, Exec.ok_bind] at h
    rcases r with which' | ⟨physAddr,m₁⟩
    · exact raiseException_sameMemory h
    · have hput : ∀ bytes : List Byte, (do
          let mainMemory ← (m₁.mainMemory.put physAddr bytes).exec
          return { m₁ with mainMemory := mainMemory } : Exec Machine) ≠ .error (.trap which t) := by
        intro bytes h
        cases hp : m₁.mainMemory.put physAddr bytes <;> rw [hp] at h <;> cases h
      simp only at h
      split at h
      · exact absurd h (hput _)
      · exact absurd h (hput _)
      · exact absurd h (hput _)
      · cases h

theorem readMem_of_maps (hsize : AccessSize size) (h : m.Maps addr size false physAddr) :
    ∃ m', m.readMem addr size =
      .ok (readValue size ((m.mainMemory.bytes.drop physAddr).take size),m') := by
  obtain ⟨r,hr,hfit⟩ := translate_ok h.oneTable hsize addr false
  obtain ⟨m',htr⟩ := h
  rw [hr] at htr
  cases htr
  have hle := hfit _ rfl
  have hmem := (translate_sameBut hr).mainMemory
  have hget : m'.mainMemory.get physAddr size =
      .ok ((m.mainMemory.bytes.drop physAddr).take size) := by
    rw [hmem]
    exact if_pos hle
  have hlen : ((m.mainMemory.bytes.drop physAddr).take size).length = size := by
    rw [List.length_take, List.length_drop, m.mainMemory.length_bytes]
    omega
  refine ⟨m',?_⟩
  rw [readMem, hr]
  simp only [Outcome.exec_ok, Exec.ok_bind, hget]
  generalize (m.mainMemory.bytes.drop physAddr).take size = bs at hlen
  unfold readValue
  rcases hsize with rfl | rfl | rfl
  · obtain ⟨b,rfl⟩ := List.length_eq_one_iff.mp hlen
    simp [value]
  · obtain ⟨b₀,b₁,rfl⟩ := List.length_eq_two.mp hlen
    have h₀ := b₀.isLt
    have h₁ := b₁.isLt
    refine congrArg (fun v => Except.ok (v,m')) ?_
    change (b₁ ++ b₀).zeroExtend 32 = BitVec.ofNat 32 (b₀.toNat + 256 * (b₁.toNat + 256 * 0))
    rw [DoubleWord.append_eq_ofNat]
    apply BitVec.eq_of_toNat_eq
    simp only [BitVec.truncate_eq_setWidth, BitVec.toNat_setWidth, BitVec.toNat_ofNat]
    omega
  · simp only [decode_word hlen, if_neg (by decide : ¬ 4 = 1)]
    rfl

theorem oneTable_access {i : ℕ} {entry : TranslationEntry} (hm : m.OneTable) :
    (m.access i entry writing).OneTable := by
  simpa [OneTable, access, withEntries] using hm

/-- The bits set by an access do not change a translation. -/
theorem maps_access {i : ℕ} {entry : TranslationEntry} (hm : m.OneTable)
    (hget : m.entries[i]? = some entry) {addr' : Word} {size' : ℕ} (hsize : AccessSize size') :
    (m.access i entry writing).Maps addr' size' false physAddr ↔
      m.Maps addr' size' false physAddr := by
  have hmap : (m.entries.set i (entry.touched writing)).map (·.mapping) =
      m.entries.map (·.mapping) := by
    rw [List.map_set, TranslationEntry.mapping_touched]
    refine List.ext_getElem? fun j => ?_
    rw [List.getElem?_set]
    split_ifs with hij hlt
    · rw [← hij, List.getElem?_map, hget]
      rfl
    · rw [← hij, List.getElem?_eq_none (Nat.le_of_not_lt hlt)]
    · rfl
  rw [maps_iff (oneTable_access hm) hsize, maps_iff hm hsize]
  refine Eq.congr_left (translation_congr ?_ _ _)
  generalize addr'.toNat / pageSize = vpn
  obtain ⟨mem,regs,tlb,pageTable⟩ := m
  cases tlb with
  | some tlb =>
    change (tlbLookup _ vpn).map _ = (tlbLookup _ vpn).map _
    rw [← tlbLookup_mapping, ← tlbLookup_mapping]
    exact congrArg (tlbLookup · vpn) hmap
  | none =>
    cases pageTable with
    | none => exact absurd rfl hm
    | some pageTable =>
      change (tableLookup _ vpn).map _ = (tableLookup _ vpn).map _
      rw [← tableLookup_mapping, ← tableLookup_mapping]
      exact congrArg (tableLookup · vpn) hmap

theorem holds (m : Machine) : m.Holds m.mainMemory.bytes :=
  ⟨rfl,fun _ _ _ hsize h => readMem_of_maps hsize h⟩

theorem writeMem_stores {value : Word} (h : m.writeMem addr size value = .ok m') :
    ∃ physAddr m₁ mem, AccessSize size ∧ m.translate addr size true = .ok (.ok (physAddr,m₁)) ∧
      mem.bytes = splice m.mainMemory.bytes physAddr (bytes size value.toNat) ∧
      m' = { m₁ with mainMemory := mem } := by
  unfold writeMem at h
  cases htr : m.translate addr size true with
  | error f => rw [htr] at h; cases h
  | ok r =>
    rw [htr] at h
    simp only [Outcome.exec_ok, Exec.ok_bind] at h
    rcases r with which' | ⟨physAddr,m₁⟩
    · exact absurd h raiseException_ne_ok
    refine ⟨physAddr,m₁,?_⟩
    have hput : ∀ bytes : List Byte, (do
        let mainMemory ← (m₁.mainMemory.put physAddr bytes).exec
        return { m₁ with mainMemory := mainMemory } : Exec Machine) = .ok m' →
        ∃ mem : Buffer memorySize, mem.bytes = splice m.mainMemory.bytes physAddr bytes ∧
          m' = { m₁ with mainMemory := mem } := by
      intro bytes h
      rw [← (translate_sameBut htr).mainMemory]
      unfold Buffer.put at h
      split_ifs at h
      · cases h
        exact ⟨_,rfl,rfl⟩
      · cases h
    simp only at h
    split at h
    · obtain ⟨mem,hmem,hm'⟩ := hput _ h
      exact ⟨mem,.inl rfl,rfl,by rw [hmem, ← map_wordByte]; rfl,hm'⟩
    · obtain ⟨mem,hmem,hm'⟩ := hput _ h
      exact ⟨mem,.inr (.inl rfl),rfl,by rw [hmem, ← map_wordByte]; rfl,hm'⟩
    · obtain ⟨mem,hmem,hm'⟩ := hput _ h
      exact ⟨mem,.inr (.inr rfl),rfl,by rw [hmem, encode_word],hm'⟩
    · cases h

theorem maps_withMemory (mem : Buffer memorySize) (hm : m.OneTable) (hsize : AccessSize size) :
    ({ m with mainMemory := mem } : Machine).Maps addr size writing physAddr ↔
      m.Maps addr size writing physAddr :=
  (maps_iff (m := { m with mainMemory := mem }) hm hsize).trans (maps_iff hm hsize).symm

theorem byteMemory (m : Machine) (addr : Word) (size : ℕ) :
    (∀ value m', m.writeMem addr size value = .ok m' → ∃ physAddr, m.Maps addr size true physAddr ∧
      m'.Holds (splice m.mainMemory.bytes physAddr (bytes size value.toNat)) ∧
      ∀ addr' size' physAddr', AccessSize size' →
        (m'.Maps addr' size' false physAddr' ↔ m.Maps addr' size' false physAddr')) ∧
    (∀ value m', m.readMem addr size = .ok (value,m') → m'.mainMemory = m.mainMemory) ∧
    (∀ value which t, m.writeMem addr size value = .error (.trap which t) → m.SameMemory t) ∧
    ∀ which t, m.readMem addr size = .error (.trap which t) → m.SameMemory t := by
  refine ⟨?_,fun _ _ h => (readMem_sameBut h).mainMemory,fun _ _ _ h => writeMem_trap h,
    fun _ _ h => readMem_trap h⟩
  intro value m' h
  obtain ⟨physAddr,m₁,mem,hsize,htr,hmem,rfl⟩ := writeMem_stores h
  have hmaps : m.Maps addr size true physAddr := ⟨m₁,htr⟩
  refine ⟨physAddr,hmaps,hmem ▸ holds _,fun addr' size' physAddr' hsize' => ?_⟩
  obtain ⟨-,-,i,entry,hentry,rfl⟩ := (touchesOne hmaps.oneTable hsize addr true).found _ _ htr
  rw [maps_withMemory mem (oneTable_access hmaps.oneTable) hsize']
  exact maps_access hmaps.oneTable hentry hsize'

end Machine

/-- A word stored through page 1, and one of its bytes loaded through page 0 of the same frame. -/
theorem byteMemory_alias :
    let m := Machine.blank.withPageTable
      [⟨0,2,true,false,false,false⟩,⟨1,2,true,false,false,false⟩]
    ∃ m' m'', m.writeMem 132 4 0x8899aabb = .ok m' ∧ m'.readMem 6 1 = .ok (0xffffff99,m'') := by
  intro m
  obtain ⟨m',hwrite⟩ : ∃ m', m.writeMem 132 4 0x8899aabb = .ok m' := ⟨_,rfl⟩
  obtain ⟨physAddr,⟨m₁,htr⟩,hholds,hmaps⟩ := (Machine.byteMemory m 132 4).1 _ _ hwrite
  obtain rfl : 260 = physAddr := congrArg Prod.fst (Except.ok.inj (Except.ok.inj htr))
  obtain ⟨m'',hread⟩ := hholds.reads 6 1 262 (.inl rfl) ((hmaps 6 1 262 (.inl rfl)).mpr ⟨_,rfl⟩)
  exact ⟨m',m'',hwrite,hread⟩

end Nachos
