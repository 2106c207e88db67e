import Nachos.Machine.MemoryAccess

/-! # Translation in two modes

A page table is looked up by index and a TLB by search; the checks behind the lookup are the
same. Where the TLB holds copies of entries of the table, an access that hits the TLB ends as it
does with the table.
-/
namespace Nachos

namespace TranslationEntry
variable (e : TranslationEntry) (writing : Bool)

/-- What an entry maps and allows, without the bits that accesses set. -/
def mapping : TranslationEntry := { e with use := false, dirty := false }

def touched : TranslationEntry := { e with use := true, dirty := e.dirty || writing }

def refusal : Option ExceptionType :=
  if e.readOnly ∧ writing then some .readOnly
  else if numPhysPages ≤ e.physicalPage.toNat then some .busError
  else none

def physAddr (offset : ℕ) : ℕ := e.physicalPage.toNat * pageSize + offset

/-- The second half of `Translate`: a refusal, or the address of an entry with its bits set. -/
def permit (offset : ℕ) : Except ExceptionType (ℕ × TranslationEntry) :=
  match e.refusal writing with
  | some which => .error which
  | none => .ok (e.physAddr offset,e.touched writing)

variable {e writing} {offset size : ℕ}

@[simp] theorem mapping_touched : (e.touched writing).mapping = e.mapping := rfl

theorem permit_mapping (e : TranslationEntry) (writing : Bool) (offset : ℕ) :
    (e.mapping.permit writing offset).map Prod.fst = (e.permit writing offset).map Prod.fst := by
  have hrefusal : e.mapping.refusal writing = e.refusal writing := rfl
  unfold permit
  rw [hrefusal]
  cases e.refusal writing <;> rfl

theorem frame_lt (h : e.refusal writing = none) : e.physicalPage.toNat < numPhysPages := by
  unfold refusal at h
  split_ifs at h with h₁ h₂
  exact Nat.lt_of_not_le h₂

/-- Inside a page, the assertion on the physical address holds. -/
theorem access_eq (h : offset + size ≤ pageSize) :
    e.access offset size writing = .ok (e.permit writing offset) := by
  by_cases hro : e.readOnly ∧ writing
  · simp only [access, permit, refusal, if_pos hro]
  by_cases hframe : numPhysPages ≤ e.physicalPage.toNat
  · simp only [access, permit, refusal, if_neg hro, if_pos hframe]
  have hfit : e.physicalPage.toNat * pageSize + offset + size ≤ memorySize := by
    unfold memorySize numPhysPages pageSize sectorSize at *
    omega
  simp only [access, permit, refusal, if_neg hro, if_neg hframe, hfit,
    not_true_eq_false, if_false]
  rfl

end TranslationEntry

def tableLookup (pageTable : List TranslationEntry) (vpn : ℕ) :
    Except ExceptionType TranslationEntry :=
  match pageTable[vpn]? with
  | none => .error .addressError
  | some entry => if entry.valid then .ok entry else .error .pageFault

/-- The entry of a TLB for a page. -/
def TranslationEntry.isFor (vpn : ℕ) (e : TranslationEntry) : Bool :=
  e.valid && e.virtualPage.toNat == vpn

def tlbLookup (tlb : List TranslationEntry) (vpn : ℕ) : Except ExceptionType TranslationEntry :=
  match tlb.find? (·.isFor vpn) with
  | none => .error .pageFault
  | some entry => .ok entry

/-- Every valid entry stands for a valid entry of the page table, at the index of its page. -/
def Caches (tlb pageTable : List TranslationEntry) : Prop :=
  ∀ e ∈ tlb, e.valid → ∃ p ∈ pageTable[e.virtualPage.toNat]?, e.mapping = p.mapping

theorem tableLookup_mapping (l : List TranslationEntry) (vpn : ℕ) :
    tableLookup (l.map (·.mapping)) vpn = (tableLookup l vpn).map (·.mapping) := by
  unfold tableLookup
  rw [List.getElem?_map]
  cases l[vpn]? with
  | none => rfl
  | some e =>
    have hvalid : e.mapping.valid = e.valid := rfl
    simp only [Option.map_some, hvalid]
    split_ifs <;> rfl

theorem tlbLookup_mapping (l : List TranslationEntry) (vpn : ℕ) :
    tlbLookup (l.map (·.mapping)) vpn = (tlbLookup l vpn).map (·.mapping) := by
  unfold tlbLookup
  rw [List.find?_map]
  have hfor : ((·.isFor vpn) ∘ TranslationEntry.mapping) = (·.isFor vpn) := rfl
  rw [hfor]
  cases l.find? (·.isFor vpn) <;> rfl

theorem Caches.lookup {tlb pageTable : List TranslationEntry} (h : Caches tlb pageTable)
    (vpn : ℕ) : (tlbLookup tlb vpn = .error .pageFault ∧ ∀ e ∈ tlb, ¬ e.isFor vpn) ∨
      (tlbLookup tlb vpn).map (·.mapping) = (tableLookup pageTable vpn).map (·.mapping) := by
  unfold tlbLookup
  cases hfind : tlb.find? (·.isFor vpn) with
  | none => exact .inl ⟨rfl,List.find?_eq_none.mp hfind⟩
  | some e =>
    have hmem := List.mem_of_find?_eq_some hfind
    have hfor := List.find?_some hfind
    simp only [TranslationEntry.isFor, Bool.and_eq_true, beq_iff_eq] at hfor
    obtain ⟨hvalid,rfl⟩ := hfor
    obtain ⟨p,hp,hmap⟩ := h e hmem hvalid
    have hvalid' : p.valid = true := (congrArg TranslationEntry.valid hmap).symm.trans hvalid
    refine .inr ?_
    rw [tableLookup, Option.mem_def.mp hp]
    simp only [hvalid', if_true]
    exact congrArg Except.ok hmap

/-- A word or a half word at an address that is not a multiple of its size. -/
def Misaligned (addr : Word) (size : ℕ) : Prop :=
  size = 4 ∧ addr &&& 3 ≠ 0 ∨ size = 2 ∧ addr &&& 1 ≠ 0

instance (addr : Word) (size : ℕ) : Decidable (Misaligned addr size) :=
  inferInstanceAs (Decidable (_ ∨ _))

/-- The translation of an address with either lookup. -/
def translation (lookup : ℕ → Except ExceptionType TranslationEntry) (addr : Word) (size : ℕ)
    (writing : Bool) : Except ExceptionType ℕ :=
  if Misaligned addr size then .error .addressError
  else match lookup (addr.toNat / pageSize) with
    | .error which => .error which
    | .ok entry => (entry.permit writing (addr.toNat % pageSize)).map Prod.fst

theorem translation_mapping (lookup : ℕ → Except ExceptionType TranslationEntry) (addr : Word)
    (size : ℕ) (writing : Bool) :
    translation (fun vpn => (lookup vpn).map (·.mapping)) addr size writing =
      translation lookup addr size writing := by
  simp only [translation]
  cases lookup (addr.toNat / pageSize) with
  | error which => rfl
  | ok e =>
    split_ifs
    · rfl
    · exact e.permit_mapping _ _

/-- The bits that accesses set do not matter to a translation. -/
theorem translation_congr {lookup lookup' : ℕ → Except ExceptionType TranslationEntry}
    {addr : Word} (h : (lookup (addr.toNat / pageSize)).map (·.mapping) =
      (lookup' (addr.toNat / pageSize)).map (·.mapping)) (size : ℕ) (writing : Bool) :
    translation lookup addr size writing = translation lookup' addr size writing := by
  rw [← translation_mapping lookup, ← translation_mapping lookup']
  simp only [translation, h]

theorem Caches.translation {tlb pageTable : List TranslationEntry} (h : Caches tlb pageTable)
    (addr : Word) (size : ℕ) (writing : Bool) :
    (translation (tlbLookup tlb) addr size writing = .error .pageFault ∧
      ∀ e ∈ tlb, ¬ e.isFor (addr.toNat / pageSize)) ∨
    translation (tlbLookup tlb) addr size writing =
      translation (tableLookup pageTable) addr size writing := by
  obtain ⟨hmiss,hnone⟩ | hhit := h.lookup (addr.toNat / pageSize)
  · by_cases hal : Misaligned addr size
    · exact .inr (by simp only [Nachos.translation, if_pos hal])
    · exact .inl ⟨by simp only [Nachos.translation, if_neg hal, hmiss],hnone⟩
  · exact .inr (translation_congr hhit size writing)

namespace Machine

def withPageTable (m : Machine) (pageTable : List TranslationEntry) : Machine :=
  { m with tlb := none, pageTable := some pageTable }

def withTlb (m : Machine) (tlb : List TranslationEntry) : Machine :=
  { m with tlb := some tlb, pageTable := none }

def entries (m : Machine) : List TranslationEntry := (m.tlb.or m.pageTable).getD []

def withEntries (m : Machine) (l : List TranslationEntry) : Machine :=
  { m with tlb := m.tlb.map fun _ => l, pageTable := m.pageTable.map fun _ => l }

def lookup (m : Machine) : ℕ → Except ExceptionType TranslationEntry :=
  match m.tlb with
  | some tlb => tlbLookup tlb
  | none => tableLookup (m.pageTable.getD [])

variable {m m' : Machine} {addr : Word} {size : ℕ} {writing : Bool}

/-- What `findEntry` gives for the outcome of a lookup. -/
def Finds (m : Machine) (vpn : ℕ) : Prop :=
  (∃ which, m.findEntry vpn = .ok (.error which) ∧ m.lookup vpn = .error which) ∨
    ∃ (i : ℕ) (entry : TranslationEntry), m.entries[i]? = some entry ∧ m.lookup vpn = .ok entry ∧
      m.findEntry vpn = .ok (.ok (entry,fun e => m.withEntries (m.entries.set i e)))

theorem finds_pageTable (m : Machine) (pageTable : List TranslationEntry) (vpn : ℕ) :
    (m.withPageTable pageTable).Finds vpn := by
  cases hget : pageTable[vpn]? with
  | none =>
    exact .inl ⟨.addressError,by simp [findEntry, withPageTable, hget],
      by simp [lookup, withPageTable, tableLookup, hget]⟩
  | some entry =>
    cases hvalid : entry.valid with
    | false =>
      exact .inl ⟨.pageFault,by simp [findEntry, withPageTable, hget, hvalid],
        by simp [lookup, withPageTable, tableLookup, hget, hvalid]⟩
    | true =>
      refine .inr ⟨vpn,entry,hget,?_,?_⟩
      · simp [lookup, withPageTable, tableLookup, hget, hvalid]
      · simp [findEntry, withPageTable, hget, hvalid, withEntries, entries]

theorem finds_tlb (m : Machine) (tlb : List TranslationEntry) (vpn : ℕ) :
    (m.withTlb tlb).Finds vpn := by
  have hindex : tlb.find? (·.isFor vpn) = (tlb.findIdx? (·.isFor vpn)).bind (tlb[·]?) :=
    List.find?_eq_bind_findIdx?_getElem?
  have hlookup : (m.withTlb tlb).lookup vpn = tlbLookup tlb vpn := rfl
  cases hidx : tlb.findIdx? (·.isFor vpn) with
  | none =>
    have hfind : (m.withTlb tlb).findEntry vpn = .ok (.error .pageFault) := by
      change tlb.findIdx? (fun e => e.valid && e.virtualPage.toNat == vpn) = none at hidx
      simp only [findEntry, withTlb, hidx]
    refine .inl ⟨.pageFault,hfind,?_⟩
    simp only [hlookup, tlbLookup, hindex, hidx, Option.bind_none]
  | some i =>
    obtain ⟨hlt,-⟩ := List.findIdx?_eq_some_iff_getElem.mp hidx
    have hget := List.getElem?_eq_getElem hlt
    refine .inr ⟨i,tlb[i],hget,?_,?_⟩
    · simp only [hlookup, tlbLookup, hindex, hidx, Option.bind_some, hget]
    · change tlb.findIdx? (fun e => e.valid && e.virtualPage.toNat == vpn) = some i at hidx
      simp only [findEntry, withTlb, hidx, hget]
      rfl

theorem finds (hm : m.OneTable) (vpn : ℕ) : m.Finds vpn := by
  obtain ⟨mem,regs,tlb,pageTable⟩ := m
  cases tlb with
  | some tlb =>
    cases pageTable with
    | some _ => exact absurd rfl hm
    | none => exact finds_tlb ⟨mem,regs,none,none⟩ tlb vpn
  | none =>
    cases pageTable with
    | some pageTable => exact finds_pageTable ⟨mem,regs,none,none⟩ pageTable vpn
    | none => exact absurd rfl hm

/-- The machine after an access through an entry. -/
def access (m : Machine) (i : ℕ) (entry : TranslationEntry) (writing : Bool) : Machine :=
  m.withEntries (m.entries.set i (entry.touched writing))

/-- A translation through the entry at an index of the table in use. -/
structure Translates (m : Machine) (addr : Word) (size : ℕ) (writing : Bool) (i : ℕ)
    (entry : TranslationEntry) : Prop where
  aligned : ¬ Misaligned addr size
  found : m.entries[i]? = some entry
  allowed : entry.refusal writing = none
  looked : m.lookup (addr.toNat / pageSize) = .ok entry

/-- Everything a translation can do. -/
theorem translate_cases (hm : m.OneTable) (hsize : AccessSize size) (addr : Word)
    (writing : Bool) :
    (∃ which, m.translate addr size writing = .ok (.error which) ∧
      translation m.lookup addr size writing = .error which) ∨
    ∃ i entry, m.Translates addr size writing i entry ∧
      translation m.lookup addr size writing = .ok (entry.physAddr (addr.toNat % pageSize)) ∧
      m.translate addr size writing =
        .ok (.ok (entry.physAddr (addr.toNat % pageSize),m.access i entry writing)) := by
  by_cases hal : Misaligned addr size
  · exact .inl ⟨.addressError,if_pos hal,if_pos hal⟩
  have hal' := hal
  rw [Misaligned] at hal'
  obtain ⟨which,hfind,hlook⟩ | ⟨i,entry,hget,hlook,hfind⟩ := finds hm (addr.toNat / pageSize)
  · refine .inl ⟨which,?_,by simp only [translation, if_neg hal, hlook]⟩
    rw [translate, if_neg hal', hfind]
    rfl
  have haccess : entry.access (addr.toNat % pageSize) size writing =
      .ok (entry.permit writing (addr.toNat % pageSize)) :=
    TranslationEntry.access_eq (offset_add_size_le hsize hal)
  have htranslation : translation m.lookup addr size writing =
      (entry.permit writing (addr.toNat % pageSize)).map Prod.fst := by
    simp only [translation, if_neg hal, hlook]
  rw [translate, if_neg hal', hfind, htranslation]
  simp only [Outcome.ok_bind, haccess]
  unfold TranslationEntry.permit
  cases hrefusal : entry.refusal writing with
  | some which => exact .inl ⟨which,rfl,rfl⟩
  | none => exact .inr ⟨i,entry,⟨hal,hget,hrefusal,hlook⟩,rfl,rfl⟩

theorem translate_eq (hm : m.OneTable) (hsize : AccessSize size) (addr : Word) (writing : Bool) :
    ∃ r, m.translate addr size writing = .ok r ∧
      r.map Prod.fst = translation m.lookup addr size writing := by
  obtain ⟨which,h,htranslation⟩ | ⟨i,entry,-,htranslation,h⟩ := translate_cases hm hsize addr writing
  · exact ⟨_,h,htranslation.symm⟩
  · exact ⟨_,h,htranslation.symm⟩

/-- The bytes of an access lie in one frame of the memory. -/
def InOneFrame (physAddr size : ℕ) : Prop :=
  ∃ frame < numPhysPages, frame * pageSize ≤ physAddr ∧ physAddr + size ≤ (frame + 1) * pageSize

theorem InOneFrame.le {physAddr : ℕ} (h : InOneFrame physAddr size) :
    physAddr + size ≤ memorySize := by
  obtain ⟨frame,hframe,-,hle⟩ := h
  exact hle.trans (Nat.mul_le_mul_right _ hframe)

theorem Translates.inOneFrame {i : ℕ} {entry : TranslationEntry} (hsize : AccessSize size)
    (h : m.Translates addr size writing i entry) :
    InOneFrame (entry.physAddr (addr.toNat % pageSize)) size := by
  have hfit := offset_add_size_le hsize h.aligned
  refine ⟨entry.physicalPage.toNat,TranslationEntry.frame_lt h.allowed,Nat.le_add_right _ _,?_⟩
  unfold TranslationEntry.physAddr
  rw [Nat.succ_mul]
  omega

/-- The machine that the caller of a translation goes on with. -/
def afterTranslate (m : Machine) (addr : Word) (size : ℕ) (writing : Bool) : Machine :=
  match m.translate addr size writing with
  | .ok (.ok (_,m')) => m'
  | _ => m

/-- A translation sets the bits of one entry, or none at all. -/
structure TouchesOne (m : Machine) (addr : Word) (size : ℕ) (writing : Bool) : Prop where
  found : ∀ physAddr m', m.translate addr size writing = .ok (.ok (physAddr,m')) →
    InOneFrame physAddr size ∧ m.afterTranslate addr size writing = m' ∧
      ∃ i entry, m.entries[i]? = some entry ∧ m' = m.access i entry writing
  refused : ∀ which, m.translate addr size writing = .ok (.error which) →
    m.afterTranslate addr size writing = m

theorem touchesOne (hm : m.OneTable) (hsize : AccessSize size) (addr : Word) (writing : Bool) :
    m.TouchesOne addr size writing := by
  obtain ⟨which,h,-⟩ | ⟨i,entry,hentry,-,h⟩ := translate_cases hm hsize addr writing
  · constructor
    · intro physAddr m' h'
      rw [h] at h'
      cases h'
    · intro which' _
      rw [afterTranslate, h]
  · constructor
    · intro physAddr m' h'
      rw [h] at h'
      cases h'
      exact ⟨hentry.inOneFrame hsize,by rw [afterTranslate, h],i,entry,hentry.found,rfl⟩
    · intro which h'
      rw [h] at h'
      cases h'

theorem translationModes (m : Machine) {tlb pageTable : List TranslationEntry}
    (h : Caches tlb pageTable) (addr : Word) (hsize : AccessSize size) (writing : Bool) :
    (∃ r r', (m.withTlb tlb).translate addr size writing = .ok r ∧
      (m.withPageTable pageTable).translate addr size writing = .ok r' ∧
      (r = .error .pageFault ∧ (∀ e ∈ tlb, ¬ e.isFor (addr.toNat / pageSize)) ∨
        r.map Prod.fst = r'.map Prod.fst)) ∧
    (m.withTlb tlb).TouchesOne addr size writing ∧
    (m.withPageTable pageTable).TouchesOne addr size writing := by
  have hm : (m.withTlb tlb).OneTable := by simp [OneTable, withTlb]
  have hm' : (m.withPageTable pageTable).OneTable := by simp [OneTable, withPageTable]
  refine ⟨?_,touchesOne hm hsize addr writing,touchesOne hm' hsize addr writing⟩
  obtain ⟨r,hr,htlb⟩ := translate_eq hm hsize addr writing
  obtain ⟨r',hr',htable⟩ := translate_eq hm' hsize addr writing
  refine ⟨r,r',hr,hr',?_⟩
  obtain ⟨hmiss,hnone⟩ | hhit := h.translation addr size writing
  · refine .inl ⟨?_,hnone⟩
    have hfault : r.map Prod.fst = .error .pageFault := htlb.trans hmiss
    cases r with
    | error which => exact congrArg _ (Except.error.inj hfault)
    | ok _ => cases hfault
  · exact .inr ((htlb.trans hhit).trans htable.symm)

end Machine

def Machine.blank : Machine where
  mainMemory := ⟨List.replicate memorySize 0,List.length_replicate⟩
  registers _ := 0
  tlb := none
  pageTable := none

/-- A store to page 1, which the TLB holds and which lies in frame 7. -/
theorem translationModes_store :
    let entry : TranslationEntry := ⟨1,7,true,false,false,false⟩
    (∃ r r', (Machine.blank.withTlb [entry]).translate 132 4 true = .ok r ∧
      (Machine.blank.withPageTable [⟨0,3,true,true,true,false⟩,entry]).translate 132 4 true = .ok r' ∧
      (r = .error .pageFault ∧ (∀ e ∈ [entry], ¬ e.isFor 1) ∨
        r.map Prod.fst = r'.map Prod.fst)) ∧
    (Machine.blank.withTlb [entry]).TouchesOne 132 4 true ∧
    (Machine.blank.withPageTable [⟨0,3,true,true,true,false⟩,entry]).TouchesOne 132 4 true := by
  refine Machine.translationModes Machine.blank ?_ 132 (.inr (.inr rfl)) true
  intro e he _
  obtain rfl := List.mem_singleton.mp he
  exact ⟨_,rfl,rfl⟩

end Nachos
