import Nachos.Bin.Coff2Noff

/-! # The program that an object file holds

What the conversion of an object file keeps: the contents of the sections, each at the place that
its segment gives its address, and the memory without contents.
-/
namespace Nachos
open Coff2Noff

def Segment.Holds (seg : Segment) (addr : ℤ) : Prop :=
  seg.virtualAddr ≤ addr ∧ addr < seg.virtualAddr + seg.size

namespace Scnhdr
variable (s : Scnhdr)

def IsText : Prop := s.sSize ≠ 0 ∧ s.Named text

def IsData : Prop := s.sSize ≠ 0 ∧ (s.Named data ∨ s.Named rdata)

def IsBss : Prop := s.sSize ≠ 0 ∧ (s.Named bss ∨ s.Named sbss)

instance : Decidable s.IsText := inferInstanceAs (Decidable (_ ∧ _))
instance : Decidable s.IsData := inferInstanceAs (Decidable (_ ∧ _))
instance : Decidable s.IsBss := inferInstanceAs (Decidable (_ ∧ _))

def extent : Extent := ⟨s.sPaddr,s.sSize⟩

def contents (file : List Byte) : List Byte := (file.drop s.sScnptr.toNat).take s.sSize.toNat

/-- The size is one, and the contents, if any, are at an offset of the file. -/
structure Sensible : Prop where
  size : 0 ≤ s.sSize
  offset : s.IsText ∨ s.IsData → 0 ≤ s.sScnptr

end Scnhdr

/-- The byte is at the place in the file that the segment gives the address. -/
def Noff.At (noff : Noff) (seg : Segment) (addr : ℤ) (b : Byte) : Prop :=
  seg.Holds addr ∧ ∃ k : ℕ, (k : ℤ) = seg.inFileAddr + (addr - seg.virtualAddr) ∧
    noff.bytes[k]? = some b

structure Preserved (file : List Byte) (sections : List Scnhdr) (noff : Noff) : Prop where
  text : ∀ s ∈ sections, s.IsText → ∀ i : ℕ, (i : ℤ) < s.sSize →
    ∃ b, (s.contents file)[i]? = some b ∧ noff.At noff.noffH.code (s.sPaddr + i) b
  data : ∀ s ∈ sections, s.IsData → ∀ i : ℕ, (i : ℤ) < s.sSize →
    ∃ b, (s.contents file)[i]? = some b ∧ noff.At noff.noffH.initData (s.sPaddr + i) b
  uninit : ∀ addr, noff.noffH.uninitData.Holds addr ↔
    ∃ s ∈ sections, s.IsBss ∧ s.extent.Holds addr

/-- The last `.text` section holds what the others hold. -/
def TextAgrees (file : List Byte) (sections : List Scnhdr) : Prop :=
  ∀ last ∈ (sections.filter (·.IsText)).getLast?, ∀ s ∈ sections, s.IsText →
    ∀ i : ℕ, (i : ℤ) < s.sSize → ∃ j : ℕ, (j : ℤ) < last.sSize ∧
      last.sPaddr + j = s.sPaddr + i ∧ (last.contents file)[j]? = (s.contents file)[i]?

/-- In some order, the `.bss` and `.sbss` sections follow one another from the address of the
first of them. -/
def BssFollows (sections : List Scnhdr) : Prop :=
  ∀ first ∈ (sections.filter (·.IsBss)).head?, ∃ order : List Extent,
    order.Perm ((sections.filter (·.IsBss)).map Scnhdr.extent) ∧ Extent.Follows first.sPaddr order

variable {file : List Byte} {sections done : List Scnhdr} {s : Scnhdr} {c c' : Conversion}
  {noff : Noff} {seg : Segment} {addr : ℤ} {b b' : Byte}

namespace Scnhdr

theorem Named.unique {a b : List Byte} (ha : s.Named a) (hb : s.Named b) : a = b :=
  ha.symm.trans hb

theorem IsText.not_isData (h : s.IsText) : ¬ s.IsData := by
  rintro ⟨-,hdata | hdata⟩
  · exact absurd (h.2.unique hdata) (by decide)
  · exact absurd (h.2.unique hdata) (by decide)

theorem IsBss.not_isText (h : s.IsBss) : ¬ s.IsText := by
  intro htext
  obtain hbss | hbss := h.2
  · exact absurd (hbss.unique htext.2) (by decide)
  · exact absurd (hbss.unique htext.2) (by decide)

theorem IsBss.not_isData (h : s.IsBss) : ¬ s.IsData := by
  rintro ⟨-,hdata | hdata⟩ <;> obtain hbss | hbss := h.2 <;>
    exact absurd (hbss.unique hdata) (by decide)

end Scnhdr

namespace Coff2Noff

theorem bind_eq_ok {α β : Type} {x : Except Exit α} {f : α → Except Exit β} {b : β} :
    (x >>= f) = .ok b ↔ ∃ a, x = .ok a ∧ f a = .ok b := by
  cases x with
  | error e => simp [bind, Except.bind]
  | ok a => simp [bind, Except.bind]

theorem add_ok {x y z : ℤ} (h : add x y = .ok z) : z = x + y := by
  unfold add cint at h
  split at h
  · exact (Except.ok.inj h).symm
  · cases h

theorem read_ok {fd : ℕ} {n : ℤ} {bytes : List Byte} (hn : 0 ≤ n) (h : read file fd n = .ok bytes) :
    bytes = (file.drop fd).take n.toNat ∧ (bytes.length : ℤ) = n := by
  simp only [read, readBytes, if_neg (Int.not_lt.mpr hn)] at h
  split at h
  · rename_i hlength
    obtain rfl := Except.ok.inj h
    exact ⟨rfl,hlength⟩
  · cases h

theorem copySection_cases (h : copySection file s c = .ok c') : ∃ buffer,
    read file (lseek c.fdIn s.sScnptr) s.sSize = .ok buffer ∧ c'.noffH = c.noffH ∧
      c'.inNoffFile = c.inNoffFile + s.sSize ∧ c'.fdOut = c.fdOut ++ buffer := by
  unfold copySection at h
  obtain ⟨buffer,hread,h⟩ := bind_eq_ok.mp h
  obtain ⟨next,hnext,h⟩ := bind_eq_ok.mp h
  obtain rfl := Except.ok.inj h
  exact ⟨buffer,hread,rfl,add_ok hnext,rfl⟩

theorem copySection_contents (h : copySection file s c = .ok c') (hsize : 0 ≤ s.sSize)
    (hoffset : 0 ≤ s.sScnptr) : c'.noffH = c.noffH ∧ c'.inNoffFile = c.inNoffFile + s.sSize ∧
      c'.fdOut = c.fdOut ++ s.contents file ∧ ((s.contents file).length : ℤ) = s.sSize := by
  obtain ⟨buffer,hread,hheader,hoff,hout⟩ := copySection_cases h
  obtain ⟨hbuffer,hlength⟩ := read_ok hsize hread
  have hcontents : buffer = s.contents file := by rw [hbuffer, lseek, if_pos hoffset]; rfl
  rw [← hcontents]
  exact ⟨hheader,hoff,hout,hlength⟩

theorem convertSection_cases (h : convertSection file c s = .ok c') :
    (s.sSize = 0 ∧ c' = c) ∨
    (s.IsText ∧
      copySection file s { c with noffH.code := ⟨s.sPaddr,c.inNoffFile,s.sSize⟩ } = .ok c') ∨
    (s.IsData ∧ c.noffH.initData.size = 0 ∧
      copySection file s { c with noffH.initData := ⟨s.sPaddr,c.inNoffFile,s.sSize⟩ } = .ok c') ∨
    (s.IsBss ∧ c.noffH.uninitData.size ≠ 0 ∧
      s.sPaddr ≠ c.noffH.uninitData.virtualAddr + c.noffH.uninitData.size ∧
      c' = { c with noffH.uninitData.size := c.noffH.uninitData.size + s.sSize }) ∨
    (s.IsBss ∧ c.noffH.uninitData.size = 0 ∧
      c' = { c with
        noffH.uninitData.virtualAddr := s.sPaddr
        noffH.uninitData.size := s.sSize }) := by
  unfold convertSection at h
  split at h
  · rename_i hsize
    exact .inl ⟨hsize,(Except.ok.inj h).symm⟩
  rename_i hsize
  split at h
  · rename_i htext
    exact .inr (.inl ⟨⟨hsize,htext⟩,h⟩)
  split at h
  · rename_i hdata
    split at h
    · cases h
    · rename_i hempty
      exact .inr (.inr (.inl ⟨⟨hsize,hdata⟩,not_not.mp hempty,h⟩))
  split at h
  · rename_i hbss
    split at h
    · rename_i hused
      obtain ⟨next,hnext,h⟩ := bind_eq_ok.mp h
      split at h
      · cases h
      · rename_i hne
        obtain ⟨size,hadd,h⟩ := bind_eq_ok.mp h
        obtain rfl := add_ok hnext
        obtain rfl := add_ok hadd
        exact .inr (.inr (.inr (.inl ⟨⟨hsize,hbss⟩,hused,hne,(Except.ok.inj h).symm⟩)))
    · rename_i hempty
      exact .inr (.inr (.inr (.inr ⟨⟨hsize,hbss⟩,not_not.mp hempty,(Except.ok.inj h).symm⟩)))
  · obtain ⟨_,_,h⟩ := bind_eq_ok.mp h
    cases h

/-- The segment has the section's addresses, and the contents are where it says. -/
structure Placed (file : List Byte) (out : List Byte) (seg : Segment) (s : Scnhdr) : Prop where
  virtualAddr : seg.virtualAddr = s.sPaddr
  size : seg.size = s.sSize
  length : ((s.contents file).length : ℤ) = s.sSize
  inFile : ∃ before, seg.inFileAddr = noffHeaderSize + (before : List Byte).length ∧
    before ++ s.contents file <+: out

/-- What the loop knows of the sections it has done. -/
structure Converted (file : List Byte) (done : List Scnhdr) (c : Conversion) : Prop where
  inNoffFile : c.inNoffFile = noffHeaderSize + c.fdOut.length
  code : ∀ last ∈ (done.filter (·.IsText)).getLast?, Placed file c.fdOut c.noffH.code last
  initData : (done.filter (·.IsData) = [] ∧ c.noffH.initData.size = 0) ∨
    ∃ s, done.filter (·.IsData) = [s] ∧ Placed file c.fdOut c.noffH.initData s
  uninitAddr : ∀ first ∈ (done.filter (·.IsBss)).head?,
    c.noffH.uninitData.virtualAddr = first.sPaddr
  uninitSize : c.noffH.uninitData.size =
    Extent.total ((done.filter (·.IsBss)).map Scnhdr.extent)

theorem Placed.mono {out out' : List Byte} (h : Placed file out seg s) (hout : out <+: out') :
    Placed file out' seg s := by
  obtain ⟨before,hstart,hfront⟩ := h.inFile
  exact ⟨h.virtualAddr,h.size,h.length,before,hstart,hfront.trans hout⟩

theorem filter_concat {P : Scnhdr → Prop} [DecidablePred P] (h : P s) :
    (done ++ [s]).filter P = done.filter P ++ [s] := by
  simp [List.filter_append, h]

theorem filter_concat_not {P : Scnhdr → Prop} [DecidablePred P] (h : ¬ P s) :
    (done ++ [s]).filter P = done.filter P := by
  simp [List.filter_append, h]

theorem bss_pos (hsensible : ∀ s ∈ done, s.Sensible) :
    ∀ e ∈ (done.filter (·.IsBss)).map Scnhdr.extent, 0 < e.size := by
  intro e he
  obtain ⟨s,hs,rfl⟩ := List.mem_map.mp he
  obtain ⟨hmem,hbss⟩ := List.mem_filter.mp hs
  have hsize := (hsensible s hmem).size
  have hne := (of_decide_eq_true hbss).1
  exact lt_of_le_of_ne hsize (Ne.symm hne)

theorem Converted.bss_nil (h : Converted file done c) (hsensible : ∀ s ∈ done, s.Sensible)
    (hsize : c.noffH.uninitData.size = 0) : done.filter (·.IsBss) = [] := by
  by_contra hne
  obtain ⟨s,hs⟩ := List.exists_mem_of_ne_nil _ hne
  have hpos := bss_pos hsensible
  have hmem : s.extent ∈ (done.filter (·.IsBss)).map Scnhdr.extent := List.mem_map.mpr ⟨s,hs,rfl⟩
  have hrest := Extent.total_nonneg fun e he => hpos e (List.mem_of_mem_erase (b := s.extent) he)
  have hs_pos := hpos _ hmem
  have htotal := h.uninitSize
  rw [Extent.total_perm (List.perm_cons_erase hmem), Extent.total] at htotal
  omega

theorem Converted.empty_section (h : Converted file done c) (hsize : s.sSize = 0) :
    Converted file (done ++ [s]) c := by
  have htext : ¬ s.IsText := fun ht => ht.1 hsize
  have hdata : ¬ s.IsData := fun hd => hd.1 hsize
  have hbss : ¬ s.IsBss := fun hb => hb.1 hsize
  refine ⟨h.inNoffFile,?_,?_,?_,?_⟩
  · rw [filter_concat_not htext]
    exact h.code
  · rw [filter_concat_not hdata]
    exact h.initData
  · rw [filter_concat_not hbss]
    exact h.uninitAddr
  · rw [filter_concat_not hbss]
    exact h.uninitSize

theorem Converted.placed (h : Converted file done c) (hsize : 0 ≤ s.sSize)
    (hoffset : 0 ≤ s.sScnptr) {noffH : NoffHeader}
    (hcopy : copySection file s { c with noffH := noffH } = .ok c') :
    c'.noffH = noffH ∧ c'.inNoffFile = noffHeaderSize + c'.fdOut.length ∧
      c.fdOut <+: c'.fdOut ∧ Placed file c'.fdOut ⟨s.sPaddr,c.inNoffFile,s.sSize⟩ s := by
  obtain ⟨hheader,hoff,hout,hlength⟩ := copySection_contents hcopy hsize hoffset
  simp only at hheader hoff hout
  have hbefore := h.inNoffFile
  refine ⟨hheader,?_,?_,rfl,rfl,hlength,c.fdOut,hbefore,?_⟩
  · rw [hoff, hout, List.length_append, Int.natCast_add, hbefore, hlength, add_assoc]
  · exact hout ▸ List.prefix_append ..
  · exact hout ▸ List.prefix_rfl

theorem Converted.text_section (h : Converted file done c) (hs : s.Sensible) (htext : s.IsText)
    (hcopy : copySection file s { c with noffH.code := ⟨s.sPaddr,c.inNoffFile,s.sSize⟩ } = .ok c') :
    Converted file (done ++ [s]) c' := by
  obtain ⟨hheader,hoff,hfront,hplaced⟩ := h.placed hs.size (hs.offset (.inl htext)) hcopy
  have hdata := htext.not_isData
  have hbss : ¬ s.IsBss := fun hb => hb.not_isText htext
  refine ⟨hoff,?_,?_,?_,?_⟩
  · rw [filter_concat htext, List.getLast?_concat, hheader]
    intro last hlast
    obtain rfl := Option.some.inj hlast
    exact hplaced
  · rw [filter_concat_not hdata, hheader]
    obtain hnone | ⟨d,hd,hplaced⟩ := h.initData
    · exact .inl hnone
    · exact .inr ⟨d,hd,hplaced.mono hfront⟩
  · rw [filter_concat_not hbss, hheader]
    exact h.uninitAddr
  · rw [filter_concat_not hbss, hheader]
    exact h.uninitSize

theorem Converted.data_section (h : Converted file done c) (hs : s.Sensible) (hdata : s.IsData)
    (hempty : c.noffH.initData.size = 0)
    (hcopy : copySection file s { c with noffH.initData := ⟨s.sPaddr,c.inNoffFile,s.sSize⟩ } =
      .ok c') : Converted file (done ++ [s]) c' := by
  obtain ⟨hheader,hoff,hfront,hplaced⟩ := h.placed hs.size (hs.offset (.inr hdata)) hcopy
  have htext : ¬ s.IsText := fun ht => ht.not_isData hdata
  have hbss : ¬ s.IsBss := fun hb => hb.not_isData hdata
  have hnone : done.filter (·.IsData) = [] := by
    obtain hnone | ⟨d,hd,hplaced⟩ := h.initData
    · exact hnone.1
    · have hmem : d ∈ done.filter (·.IsData) := by rw [hd]; exact List.mem_singleton_self d
      have hne := (of_decide_eq_true (List.mem_filter.mp hmem).2).1
      exact absurd (hplaced.size.symm.trans hempty) hne
  refine ⟨hoff,?_,?_,?_,?_⟩
  · rw [filter_concat_not htext, hheader]
    intro last hlast
    exact (h.code last hlast).mono hfront
  · rw [filter_concat hdata, hnone, hheader]
    exact .inr ⟨s,rfl,hplaced⟩
  · rw [filter_concat_not hbss, hheader]
    exact h.uninitAddr
  · rw [filter_concat_not hbss, hheader]
    exact h.uninitSize

theorem Converted.bss_section (h : Converted file done c) (hbss : s.IsBss) (uninitData : Segment)
    (haddr : ∀ first ∈ (done.filter (·.IsBss) ++ [s]).head?,
      uninitData.virtualAddr = first.sPaddr)
    (hsize : uninitData.size = c.noffH.uninitData.size + s.sSize) :
    Converted file (done ++ [s]) { c with noffH.uninitData := uninitData } := by
  refine ⟨h.inNoffFile,?_,?_,?_,?_⟩
  · rw [filter_concat_not hbss.not_isText]
    exact h.code
  · rw [filter_concat_not hbss.not_isData]
    exact h.initData
  · rw [filter_concat hbss]
    exact haddr
  · rw [filter_concat hbss]
    simp only [hsize, h.uninitSize, Extent.total_append, List.map_append, List.map_cons,
      List.map_nil, Extent.total, Int.add_zero]
    rfl

theorem Converted.step (h : Converted file done c) (hsensible : ∀ s ∈ done, s.Sensible)
    (hs : s.Sensible) (hround : convertSection file c s = .ok c') :
    Converted file (done ++ [s]) c' := by
  obtain ⟨hsize,rfl⟩ | ⟨htext,hcopy⟩ | ⟨hdata,hempty,hcopy⟩ | ⟨hbss,hused,_,rfl⟩ |
    ⟨hbss,hempty,rfl⟩ := convertSection_cases hround
  · exact h.empty_section hsize
  · exact h.text_section hs htext hcopy
  · exact h.data_section hs hdata hempty hcopy
  · refine h.bss_section hbss _ ?_ rfl
    have hne : done.filter (·.IsBss) ≠ [] := by
      intro hnil
      refine hused ?_
      rw [h.uninitSize, hnil]
      rfl
    intro first hfirst
    rw [List.head?_append_of_ne_nil _ hne] at hfirst
    exact h.uninitAddr first hfirst
  · refine h.bss_section hbss { c.noffH.uninitData with
      virtualAddr := s.sPaddr, size := s.sSize } ?_ (by simp only [hempty, zero_add])
    rw [h.bss_nil hsensible hempty]
    intro first hfirst
    obtain rfl := Option.some.inj hfirst
    rfl

theorem Converted.rounds (h : Converted file done c)
    (hsensible : ∀ s ∈ done ++ sections, s.Sensible)
    (hrounds : sections.foldlM (convertSection file) c = .ok c') :
    Converted file (done ++ sections) c' := by
  induction sections generalizing done c with
  | nil =>
    obtain rfl := Except.ok.inj hrounds
    rwa [List.append_nil]
  | cons s sections ih =>
    rw [List.foldlM_cons] at hrounds
    obtain ⟨c₁,hround,hrounds⟩ := bind_eq_ok.mp hrounds
    have hstep := h.step (fun s hs => hsensible s (List.mem_append_left _ hs))
      (hsensible s (by simp)) hround
    rw [List.append_cons]
    exact ih hstep (by simpa using hsensible) hrounds

theorem Converted.start (file : List Byte) (noffH : NoffHeader) (fdIn : ℕ) :
    Converted file [] ⟨initialHeader noffH,noffHeaderSize,fdIn,[]⟩ := by
  refine ⟨by simp,?_,.inl ⟨rfl,rfl⟩,?_,rfl⟩
  · intro last hlast
    cases hlast
  · intro first hfirst
    cases hfirst

theorem length_encode (noffH : NoffHeader) : noffH.encode.length = noffHeaderSize := by
  simp [NoffHeader.encode, Segment.encode, Codec.word]

theorem Placed.byte (h : Placed file noff.segments seg s) {i : ℕ} (hi : (i : ℤ) < s.sSize) :
    ∃ b, (s.contents file)[i]? = some b ∧ noff.At seg (s.sPaddr + i) b := by
  obtain ⟨before,hstart,hfront⟩ := h.inFile
  have hlength := h.length
  have hvirtualAddr := h.virtualAddr
  have hsize := h.size
  have hi' : i < (s.contents file).length := by omega
  refine ⟨(s.contents file)[i],List.getElem?_eq_getElem hi',⟨by omega,by omega⟩,
    noffHeaderSize + (before.length + i),?_,?_⟩
  · rw [hstart, hvirtualAddr]
    push_cast
    omega
  · obtain ⟨rest,hsegments⟩ := hfront
    rw [Noff.bytes, List.getElem?_append_right (by rw [length_encode]; omega), length_encode,
      Nat.add_sub_cancel_left, ← hsegments, List.append_assoc,
      List.getElem?_append_right (Nat.le_add_right ..), Nat.add_sub_cancel_left,
      List.getElem?_append_left hi', List.getElem?_eq_getElem hi']

end Coff2Noff

theorem Noff.At.unique (h : noff.At seg addr b) (h' : noff.At seg addr b') : b = b' := by
  obtain ⟨_,k,hk,hb⟩ := h
  obtain ⟨_,k',hk',hb'⟩ := h'
  obtain rfl : k = k' := by omega
  exact Option.some.inj (hb.symm.trans hb')

namespace Coff2Noff

theorem text_iff (h : Converted file sections c) (hheader : noff.noffH = c.noffH)
    (hout : noff.segments = c.fdOut) :
    (∀ s ∈ sections, s.IsText → ∀ i : ℕ, (i : ℤ) < s.sSize →
      ∃ b, (s.contents file)[i]? = some b ∧ noff.At noff.noffH.code (s.sPaddr + i) b) ↔
    TextAgrees file sections := by
  constructor
  · intro htext last hlast s hs his i hi
    have hplaced := h.code last hlast
    rw [← hout, ← hheader] at hplaced
    obtain ⟨b,hb,hat⟩ := htext s hs his i hi
    obtain ⟨hlow,hhigh⟩ := hat.1
    rw [hplaced.virtualAddr] at hlow hhigh
    rw [hplaced.size] at hhigh
    obtain ⟨j,hj⟩ := Int.eq_ofNat_of_zero_le (Int.sub_nonneg_of_le hlow)
    have hjsize : (j : ℤ) < last.sSize := by omega
    have haddr : last.sPaddr + j = s.sPaddr + i := by omega
    obtain ⟨b',hb',hat'⟩ := hplaced.byte hjsize
    rw [haddr] at hat'
    exact ⟨j,hjsize,haddr,by rw [hb', hb, hat.unique hat']⟩
  · intro hagrees s hs his i hi
    have hne : sections.filter (·.IsText) ≠ [] :=
      List.ne_nil_of_mem (List.mem_filter.mpr ⟨hs,decide_eq_true his⟩)
    have hlast := List.getLast?_eq_some_getLast hne
    have hplaced := h.code _ hlast
    rw [← hout, ← hheader] at hplaced
    obtain ⟨j,hj,haddr,hbyte⟩ := hagrees _ hlast s hs his i hi
    obtain ⟨b,hb,hat⟩ := hplaced.byte hj
    exact ⟨b,hbyte.symm.trans hb,haddr ▸ hat⟩

theorem data_preserved (h : Converted file sections c) (hheader : noff.noffH = c.noffH)
    (hout : noff.segments = c.fdOut) (hs : s ∈ sections) (hdata : s.IsData) {i : ℕ}
    (hi : (i : ℤ) < s.sSize) :
    ∃ b, (s.contents file)[i]? = some b ∧ noff.At noff.noffH.initData (s.sPaddr + i) b := by
  have hmem : s ∈ sections.filter (·.IsData) := List.mem_filter.mpr ⟨hs,decide_eq_true hdata⟩
  obtain ⟨hnone,_⟩ | ⟨d,hd,hplaced⟩ := h.initData
  · rw [hnone] at hmem
    cases hmem
  · rw [hd] at hmem
    obtain rfl := List.mem_singleton.mp hmem
    rw [← hout, ← hheader] at hplaced
    exact hplaced.byte hi

theorem uninit_iff (h : Converted file sections c) (hsensible : ∀ s ∈ sections, s.Sensible) :
    (∀ addr, c.noffH.uninitData.Holds addr ↔ ∃ s ∈ sections, s.IsBss ∧ s.extent.Holds addr) ↔
    BssFollows sections := by
  have hmem : ∀ addr, (∃ s ∈ sections, s.IsBss ∧ s.extent.Holds addr) ↔
      ∃ e ∈ (sections.filter (·.IsBss)).map Scnhdr.extent, e.Holds addr := by
    intro addr
    simp only [List.mem_map, List.mem_filter, decide_eq_true_eq]
    constructor
    · rintro ⟨s,hs,hbss,hholds⟩
      exact ⟨_,⟨s,⟨hs,hbss⟩,rfl⟩,hholds⟩
    · rintro ⟨_,⟨s,⟨hs,hbss⟩,rfl⟩,hholds⟩
      exact ⟨s,hs,hbss,hholds⟩
  simp only [hmem]
  have hsize := h.uninitSize
  have haddr := h.uninitAddr
  unfold BssFollows
  cases hlist : sections.filter (·.IsBss) with
  | nil =>
    rw [hlist] at hsize
    simp only [Extent.total, List.map_nil] at hsize
    simp only [List.head?_nil, Option.mem_def, reduceCtorEq, false_implies, implies_true, iff_true,
      List.map_nil, List.not_mem_nil, false_and, exists_false, iff_false, Segment.Holds, hsize]
    intro addr
    omega
  | cons first rest =>
    rw [hlist] at hsize haddr
    have hfirst := haddr first rfl
    have hpos := bss_pos hsensible
    rw [hlist] at hpos
    have hcovers := Extent.covers_iff (x := first.sPaddr) hpos
    simp only [List.head?_cons, Option.mem_def, Option.some.injEq, forall_eq']
    rw [← hcovers, Extent.Covers, ← hsize, ← hfirst]
    rfl

theorem preserved_iff (h : Converted file sections c) (hsensible : ∀ s ∈ sections, s.Sensible)
    (hheader : noff.noffH = c.noffH) (hout : noff.segments = c.fdOut) :
    Preserved file sections noff ↔ TextAgrees file sections ∧ BssFollows sections := by
  rw [← text_iff h hheader hout, ← uninit_iff h hsensible, ← hheader]
  constructor
  · intro hpreserved
    exact ⟨hpreserved.text,hpreserved.uninit⟩
  · rintro ⟨htext,huninit⟩
    exact ⟨htext,fun s hs hdata i hi => data_preserved h hheader hout hs hdata hi,huninit⟩

theorem convert_ok {noffH : NoffHeader} {fdIn : ℕ} (h : convert file noffH fdIn sections = .ok noff) :
    ∃ c, sections.foldlM (convertSection file) ⟨initialHeader noffH,noffHeaderSize,fdIn,[]⟩ = .ok c ∧
      noff.noffH = c.noffH ∧ noff.segments = c.fdOut := by
  unfold convert at h
  obtain ⟨c,hrounds,h⟩ := bind_eq_ok.mp h
  obtain rfl := Except.ok.inj h
  exact ⟨c,hrounds,rfl,rfl⟩

theorem convertSection_uninitData (h : convertSection file c s = .ok c') (hs : ¬ s.IsBss) :
    c'.noffH.uninitData = c.noffH.uninitData := by
  obtain ⟨_,rfl⟩ | ⟨_,hcopy⟩ | ⟨_,_,hcopy⟩ | ⟨hbss,_⟩ | ⟨hbss,_⟩ := convertSection_cases h
  · rfl
  · obtain ⟨_,_,hheader,_⟩ := copySection_cases hcopy
    rw [hheader]
  · obtain ⟨_,_,hheader,_⟩ := copySection_cases hcopy
    rw [hheader]
  · exact absurd hbss hs
  · exact absurd hbss hs

theorem rounds_uninitData (h : sections.foldlM (convertSection file) c = .ok c')
    (hs : ∀ s ∈ sections, ¬ s.IsBss) : c'.noffH.uninitData = c.noffH.uninitData := by
  induction sections generalizing c with
  | nil =>
    obtain rfl := Except.ok.inj h
    rfl
  | cons s sections ih =>
    rw [List.foldlM_cons] at h
    obtain ⟨c₁,hround,hrounds⟩ := bind_eq_ok.mp h
    rw [ih hrounds fun s hs' => hs s (List.mem_cons_of_mem _ hs'),
      convertSection_uninitData hround (hs s List.mem_cons_self)]

end Coff2Noff

/-- A `.bss` section and, after it, an `.sbss` section that starts at its end, among sections of
other kinds. -/
structure Adjoining (before between after : List Scnhdr) (bss sbss : Scnhdr) : Prop where
  bss_size : bss.sSize ≠ 0
  bss_name : bss.Named Coff2Noff.bss
  sbss_size : sbss.sSize ≠ 0
  sbss_name : sbss.Named Coff2Noff.sbss
  adjoin : sbss.sPaddr = bss.sPaddr + bss.sSize
  others : ∀ s ∈ before ++ between ++ after, ¬ s.IsBss

namespace Coff2Noff

theorem adjoining_refused {noffH : NoffHeader} {fdIn : ℕ} {before between after : List Scnhdr}
    {bss sbss : Scnhdr} (h : Adjoining before between after bss sbss) :
    convert file noffH fdIn (before ++ bss :: (between ++ sbss :: after)) ≠ .ok noff := by
  intro hok
  obtain ⟨c,hrounds,_⟩ := convert_ok hok
  have hothers := h.others
  rw [List.foldlM_append] at hrounds
  obtain ⟨c₁,hbefore,hrounds⟩ := bind_eq_ok.mp hrounds
  rw [List.foldlM_cons] at hrounds
  obtain ⟨c₂,hbss,hrounds⟩ := bind_eq_ok.mp hrounds
  rw [List.foldlM_append] at hrounds
  obtain ⟨c₃,hbetween,hrounds⟩ := bind_eq_ok.mp hrounds
  rw [List.foldlM_cons] at hrounds
  obtain ⟨c₄,hsbss,_⟩ := bind_eq_ok.mp hrounds
  have hstart := rounds_uninitData hbefore fun s hs => hothers s (by simp [hs])
  have hkeep := rounds_uninitData hbetween fun s hs => hothers s (by simp [hs])
  have hkind : bss.IsBss := ⟨h.bss_size,.inl h.bss_name⟩
  have hkind' : sbss.IsBss := ⟨h.sbss_size,.inr h.sbss_name⟩
  -- the `.bss` section is the first of the segment
  have hsegment : c₂.noffH.uninitData.virtualAddr = bss.sPaddr ∧
      c₂.noffH.uninitData.size = bss.sSize := by
    obtain ⟨hsize,_⟩ | ⟨htext,_⟩ | ⟨hdata,_⟩ | ⟨_,hused,_⟩ | ⟨_,_,rfl⟩ := convertSection_cases hbss
    · exact absurd hsize h.bss_size
    · exact absurd htext hkind.not_isText
    · exact absurd hdata hkind.not_isData
    · exact absurd (by rw [hstart]; rfl) hused
    · exact ⟨rfl,rfl⟩
  rw [← hkeep] at hsegment
  obtain ⟨hsize,_⟩ | ⟨htext,_⟩ | ⟨hdata,_⟩ | ⟨_,_,hne,_⟩ | ⟨_,hempty,_⟩ :=
    convertSection_cases hsbss
  · exact absurd hsize h.sbss_size
  · exact absurd htext hkind'.not_isText
  · exact absurd hdata hkind'.not_isData
  · exact hne (by rw [hsegment.1, hsegment.2, h.adjoin])
  · exact h.bss_size (hsegment.2.symm.trans hempty)

theorem convert_preserved_iff {noffH : NoffHeader} {fdIn : ℕ}
    (hok : convert file noffH fdIn sections = .ok noff) (hsensible : ∀ s ∈ sections, s.Sensible) :
    Preserved file sections noff ↔ TextAgrees file sections ∧ BssFollows sections := by
  obtain ⟨c,hrounds,hheader,hout⟩ := convert_ok hok
  have hconverted := (Converted.start file noffH fdIn).rounds hsensible hrounds
  exact preserved_iff hconverted hsensible hheader hout

/-- The whole program, from the bytes of the COFF file. -/
theorem main_preserved_iff {noffH : NoffHeader} (h : main file noffH = .ok noff) :
    ∃ fdIn sections, sectionHeaders file = .ok (fdIn,sections) ∧
      ((∀ s ∈ sections, s.Sensible) →
        (Preserved file sections noff ↔ TextAgrees file sections ∧ BssFollows sections)) := by
  unfold main at h
  obtain ⟨⟨fdIn,sections⟩,hheaders,hok⟩ := bind_eq_ok.mp h
  exact ⟨fdIn,sections,hheaders,convert_preserved_iff hok⟩

theorem programImage (file : List Byte) (noffH : NoffHeader) (fdIn : ℕ) :
    (∀ sections noff, convert file noffH fdIn sections = .ok noff →
      (∀ s ∈ sections, s.Sensible) →
        (Preserved file sections noff ↔ TextAgrees file sections ∧ BssFollows sections)) ∧
    ∀ before between after bss sbss noff, Adjoining before between after bss sbss →
      convert file noffH fdIn (before ++ bss :: (between ++ sbss :: after)) ≠ .ok noff := by
  constructor
  · intro sections noff hok hsensible
    exact convert_preserved_iff hok hsensible
  · intro before between after bss sbss noff hadjoining
    exact adjoining_refused hadjoining

/-- One `.text` section and one `.bss` section. -/
theorem programImage_two (noffH : NoffHeader) :
    ∃ noff, Preserved [1,2,3,4] [⟨#v[0x2E,0x74,0x65,0x78,0x74,0,0,0],0,4,0⟩,
      ⟨#v[0x2E,0x62,0x73,0x73,0,0,0,0],4,8,0⟩] noff := by
  refine ⟨_,((programImage [1,2,3,4] noffH 0).1 _ _ rfl ?_).mpr ⟨?_,?_⟩⟩
  · intro s hs
    simp only [List.mem_cons, List.not_mem_nil, or_false] at hs
    obtain rfl | rfl := hs
    · exact ⟨by decide,fun _ => by decide⟩
    · exact ⟨by decide,fun _ => by decide⟩
  · intro last hlast s hs htext i hi
    obtain rfl := Option.some.inj hlast
    simp only [List.mem_cons, List.not_mem_nil, or_false] at hs
    obtain rfl | rfl := hs
    · exact ⟨i,hi,rfl,rfl⟩
    · exact absurd htext (by decide)
  · intro first hfirst
    obtain rfl := Option.some.inj hfirst
    exact ⟨[⟨4,8⟩],.refl _,rfl,trivial⟩

/-- A gap between `.bss` and `.sbss` is accepted, and no gap is refused. -/
theorem not_programImage :
    (¬ ∀ file noffH fdIn sections noff, (∀ s ∈ sections, s.Sensible) →
      convert file noffH fdIn sections = .ok noff → Preserved file sections noff) ∧
    ¬ ∀ file noffH fdIn before between after bss sbss, Adjoining before between after bss sbss →
      (∃ noff, convert file noffH fdIn (before ++ bss :: (between ++ after)) = .ok noff) →
      ∃ noff, convert file noffH fdIn (before ++ bss :: (between ++ sbss :: after)) = .ok noff := by
  let zero : Segment := ⟨0,0,0⟩
  let bss : Scnhdr := ⟨#v[0x2E,0x62,0x73,0x73,0,0,0,0],0,8,0⟩
  let sbss (start : ℤ) : Scnhdr := ⟨#v[0x2E,0x73,0x62,0x73,0x73,0,0,0],start,8,0⟩
  constructor
  · intro h
    have hpreserved := h [] ⟨0,zero,zero,zero⟩ 0 [bss,sbss 16] _ (by
      intro s hs
      simp only [List.mem_cons, List.not_mem_nil, or_false] at hs
      obtain rfl | rfl := hs
      · exact ⟨by decide,fun _ => by decide⟩
      · exact ⟨by decide,fun _ => by decide⟩) rfl
    obtain ⟨s,hs,_,hholds⟩ := (hpreserved.uninit 8).mp ⟨by decide,by decide⟩
    simp only [List.mem_cons, List.not_mem_nil, or_false] at hs
    obtain rfl | rfl := hs
    · exact absurd hholds.2 (by decide)
    · exact absurd hholds.1 (by decide)
  · intro h
    obtain ⟨noff,hok⟩ := h [] ⟨0,zero,zero,zero⟩ 0 [] [] [] bss (sbss 8)
      ⟨by decide,by decide,by decide,by decide,by decide,by simp⟩ ⟨_,rfl⟩
    cases hok

end Coff2Noff

end Nachos
