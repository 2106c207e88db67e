import Nachos.FileSys.Allocation

/-! # Allocation without room for the index sectors

`Allocate` counts the data sectors only. What it has done when it returns is known in
any case: with fewer clear sectors than data and index sectors together, some data
sector is recorded as `-1`, and a transfer that meets it faults.
-/
namespace Nachos

namespace BitMap
variable {S : Support} {m : BitMap}

theorem find_grows : m ⊆ (find S m).2 ∧
    (m ⊆ Finset.range diskSectors → (find S m).2 ⊆ Finset.range diskSectors) := by
  cases hf : S.findClear m with
  | none =>
    rw [find, hf]
    exact ⟨subset_rfl,id⟩
  | some s =>
    rw [find, hf]
    refine ⟨Finset.subset_insert s m,fun hm => Finset.insert_subset ?_ hm⟩
    exact Finset.mem_range.mpr (S.findClear_some m s hf).1

end BitMap

namespace FileHeader

section Fill
variable {S : Support} {count i : ℕ} {a : FileHeader} {m : BitMap}

theorem fillSectorArray_grows : m ⊆ (fillSectorArray S count i a m).2 ∧
    (m ⊆ Finset.range diskSectors →
      (fillSectorArray S count i a m).2 ⊆ Finset.range diskSectors) := by
  induction count generalizing i a m with
  | zero => exact ⟨subset_rfl,id⟩
  | succ count ih =>
    obtain ⟨hg,hr⟩ := BitMap.find_grows (S := S) (m := m)
    obtain ⟨hg',hr'⟩ := ih (i := i + 1) (a := a.setWord i (BitMap.find S m).1)
      (m := (BitMap.find S m).2)
    exact ⟨hg.trans hg',fun hm => hr' (hr hm)⟩

theorem fillSectorArray_word {t : ℕ} (ht : t < i) (hi : i + count ≤ sectorWords) :
    (fillSectorArray S count i a m).1.word t = a.word t := by
  induction count generalizing i a m with
  | zero => rfl
  | succ count ih =>
    have h := ih (i := i + 1) (a := a.setWord i (BitMap.find S m).1)
      (m := (BitMap.find S m).2) (by omega) (by omega)
    rw [word_setWord a _ (by omega), if_neg (by omega)] at h
    exact h

/-- When the clear sectors run out, `-1` is recorded. -/
theorem fillSectorArray_short (hi : i + count ≤ sectorWords) (hm : m.numClear < count) :
    ∃ t, i ≤ t ∧ t < i + count ∧ (fillSectorArray S count i a m).1.word t = -1 := by
  induction count generalizing i a m with
  | zero =>
    unfold BitMap.numClear at hm
    omega
  | succ count ih =>
    by_cases hc : m.numClear ≤ 0
    · refine ⟨i,le_refl i,by omega,?_⟩
      change (fillSectorArray S count (i + 1) (a.setWord i (BitMap.find S m).1)
        (BitMap.find S m).2).1.word i = -1
      rw [fillSectorArray_word (by omega) (by omega), word_setWord a _ (by omega), if_pos rfl,
        BitMap.find_none hc]
    · obtain ⟨s,-,hfind,hs,hsm⟩ := BitMap.find_eq (S := S) (m := m) (by omega)
      have hn := BitMap.numClear_insert hs hsm
      obtain ⟨t,ht,ht',hw⟩ := ih (i := i + 1) (a := a.setWord i (BitMap.find S m).1)
        (m := (BitMap.find S m).2) (by omega) (by
          rw [hfind]
          change BitMap.numClear (insert s m) < _
          omega)
      exact ⟨t,by omega,by omega,hw⟩

end Fill

structure LoopDone (count j : ℕ) (fill : ℤ) (hdr hdr' : FileHeader) (m m' : BitMap)
    (d d' : Disk) : Prop where
  numBytes : hdr'.numBytes = hdr.numBytes
  numSectors : hdr'.numSectors = hdr.numSectors
  bound : count = 0 ∨ j + count ≤ numDirect
  earlier : ∀ t < j, hdr'.dataSectors.getD t 0 = hdr.dataSectors.getD t 0
  grows : m ⊆ m'
  inDisk : m ⊆ Finset.range diskSectors → m' ⊆ Finset.range diskSectors
  keeps : ∀ t ∈ m, d' t = d t
  short : count = (fill.toNat + (sectorWords - 1)) / sectorWords →
    m.numClear < (count + fill.toNat : ℕ) → ∃ k < fill.toNat, ∃ s < diskSectors, s ∉ m ∧
      hdr'.dataSectors.getD (j + k / sectorWords) 0 = BitVec.ofNat 32 s ∧
      (ofSector (d' s)).word (k % sectorWords) = -1

theorem writeBack_ok {a : FileHeader} {d d' : Disk} {w : Word}
    (h : a.writeBack d w.toInt = .ok d') : Disk.InRange w.toInt := by
  by_contra hr
  rw [writeBack, Disk.writeRequest, if_neg hr] at h
  cases h

theorem setDataSector_ok {h h' : FileHeader} {j : ℕ} {w : Word}
    (he : h.setDataSector j w = .ok h') : j < numDirect := by
  by_contra hj
  rw [setDataSector, if_neg hj] at he
  cases he

theorem allocateLoop_ok {S : Support} {arrays : ℕ → FileHeader} {count j : ℕ} {fill : ℤ}
    {hdr hdr' : FileHeader} {m m' : BitMap} {d d' : Disk}
    (h : allocateLoop S arrays count j fill hdr m d = .ok (hdr',m',d')) :
    LoopDone count j fill hdr hdr' m m' d d' := by
  induction count generalizing j fill hdr m d with
  | zero =>
    cases h
    refine ⟨rfl,rfl,.inl rfl,fun _ _ => rfl,subset_rfl,id,fun _ _ => rfl,fun hc hm => ?_⟩
    have hf : fill.toNat = 0 := by unfold sectorWords sectorSize at hc; omega
    unfold BitMap.numClear at hm
    omega
  | succ count ih =>
    -- without a clear sector the index sector would be written to sector -1
    have hclear : 0 < m.numClear := by
      by_contra hn
      rw [allocateLoop, BitMap.find_none (by omega)] at h
      obtain ⟨hdr₁,-,h⟩ := Outcome.bind_eq_ok.mp h
      obtain ⟨d₁,hwrite,-⟩ := Outcome.bind_eq_ok.mp h
      exact absurd (writeBack_ok hwrite).1 (by decide)
    obtain ⟨s,-,hfind,hs,hsm⟩ := BitMap.find_eq (S := S) hclear
    have hn := BitMap.numClear_insert hs hsm
    rw [allocateLoop, hfind] at h
    obtain ⟨hdr₁,hset,h⟩ := Outcome.bind_eq_ok.mp h
    obtain ⟨d₁,hwrite,h⟩ := Outcome.bind_eq_ok.mp h
    have hj := setDataSector_ok hset
    obtain ⟨hdr₁',hset',hb₁,hn₁,hg₁⟩ := getD_setDataSector hdr (BitVec.ofNat 32 s) hj
    rw [hset'] at hset
    cases hset
    obtain ⟨hgrow,hrange⟩ :=
      @fillSectorArray_grows S (min fill.toNat sectorWords) 0 (arrays j) (insert s m)
    have hwritten : d₁ = Function.update d s
        (fillSectorArray S (min fill.toNat sectorWords) 0 (arrays j) (insert s m)).1.toSector := by
      rw [ofNat_toInt_sector hs, writeBack, Disk.writeRequest_natCast hs] at hwrite
      cases hwrite
      rfl
    have done := ih h
    have hsub : m ⊆ (fillSectorArray S (min fill.toNat sectorWords) 0 (arrays j)
        (insert s m)).2 := (Finset.subset_insert s m).trans hgrow
    refine ⟨done.numBytes.trans hb₁,done.numSectors.trans hn₁,.inr ?_,fun t ht => ?_,
      hsub.trans done.grows,fun hm => done.inDisk (hrange (Finset.insert_subset
        (Finset.mem_range.mpr hs) hm)),fun t ht => ?_,fun hc hshort => ?_⟩
    · rcases done.bound with h0 | h0 <;> omega
    · rw [done.earlier t (by omega), hg₁, if_neg (by omega)]
    · have hts : t ≠ s := fun h => hsm (h ▸ ht)
      rw [done.keeps t (hsub ht), hwritten, Function.update_of_ne hts]
    · by_cases hfew : BitMap.numClear (insert s m) < (min fill.toNat sectorWords : ℕ)
      · obtain ⟨t,-,ht,hw⟩ := fillSectorArray_short (S := S) (i := 0) (a := arrays j)
          (show 0 + min fill.toNat sectorWords ≤ sectorWords by omega) hfew
        refine ⟨t,by omega,s,hs,hsm,?_,?_⟩
        · rw [Nat.div_eq_of_lt (by omega), Nat.add_zero, done.earlier j (by omega), hg₁,
            if_pos rfl]
        · rw [Nat.mod_eq_of_lt (by omega), done.keeps s (hgrow (Finset.mem_insert_self s m)),
            hwritten, Function.update_self, ofSector_toSector, hw]
      · obtain ⟨l,a,hfill,hl,hfresh,-⟩ := fillSectorArray_eq S (min fill.toNat sectorWords) 0
          (arrays j) (insert s m) (by omega) (by omega)
        have hn₂ := hfresh.numClear_union
        have hmap : (fillSectorArray S (min fill.toNat sectorWords) 0 (arrays j)
            (insert s m)).2 = insert s m ∪ l.toFinset := by rw [hfill]
        obtain ⟨k,hk,s',hs',hsm',hg,hw⟩ := done.short
          (by unfold sectorWords sectorSize at *; omega) (by
            rw [hmap]
            unfold sectorWords sectorSize at *
            omega)
        refine ⟨k + sectorWords,by omega,s',hs',fun hm => hsm' (hsub hm),?_,?_⟩
        · rw [← hg]
          congr 1
          unfold sectorWords sectorSize
          omega
        · rw [Nat.add_mod_right]
          exact hw

/-- An allocation that returns found a number of data sectors that the layout can hold. -/
theorem allocate_ok {S : Support} {arrays : ℕ → FileHeader} {size : Word} {hdr hdr' : FileHeader}
    {m m' : BitMap} {d d' : Disk}
    (h : hdr.allocate S arrays m size d = .ok (true,hdr',m',d')) :
    ∃ n : ℕ, (sectorsFor S size).toInt = n ∧ indexCount n ≤ numDirect ∧ (n : ℤ) ≤ m.numClear ∧
      LoopDone (indexCount n) 0 n
        { hdr with numBytes := size, numSectors := sectorsFor S size } hdr' m m' d d' := by
  rw [allocate] at h
  simp only [] at h
  split_ifs at h with hfull
  · cases h
  obtain ⟨⟨hdr₁,m₁,d₁⟩,hloop,h⟩ := Outcome.bind_eq_ok.mp h
  cases h
  have hcount : (S.divRoundUp ((sectorsFor S size).toNat : ℕ) sectorWords).toNat =
      indexCount (sectorsFor S size).toNat := by
    rw [S.divRoundUp_natCast _ _ (by decide), Int.toNat_natCast, indexCount]
    rfl
  rw [hcount] at hloop
  have done := allocateLoop_ok hloop
  have hbound : indexCount (sectorsFor S size).toNat ≤ numDirect := by
    rcases done.bound with h0 | h0 <;> omega
  -- a negative count is a large one when it is divided
  have hn : (sectorsFor S size).toInt = (sectorsFor S size).toNat :=
    BitVec.toInt_eq_toNat_of_lt (by
      unfold indexCount numDirect sectorWords sectorSize at hbound
      omega)
  rw [hn] at done hfull
  exact ⟨_,hn,hbound,not_lt.mp hfull,done⟩

theorem size_of_sectors (S : Support) {size : Word} {k : ℕ}
    (hk : (k : ℤ) < (sectorsFor S size).toInt) : ((k * sectorSize : ℕ) : ℤ) < size.toInt := by
  have hpos : 0 < size.toInt := by
    by_contra hneg
    have hv := S.divRoundUp_nonpos size.toInt sectorSize (not_lt.mp hneg) (by decide)
    have hlow := BitVec.le_toInt size
    have hle : (sectorsFor S size).toInt ≤ 0 := by
      rw [sectorsFor, BitVec.toInt_ofInt, Int.bmod_eq_of_le (by omega) (by omega)]
      exact hv.2
    omega
  have hs : size.toInt = size.toNat := BitVec.toInt_eq_toNat_of_msb (by
    rw [BitVec.msb_eq_toInt]; simpa using hpos.le)
  rw [(sectorsFor_eq S hpos.le).1, sectorCount] at hk
  rw [hs]
  unfold sectorSize at *
  omega

/-- A byte of a data sector that is recorded as `-1` cannot be read. -/
theorem readAt_fault {S : Support} {f : OpenFile} {d : Disk} {k s : ℕ}
    (hk : k / sectorWords < numDirect) (hlen : ((k * sectorSize : ℕ) : ℤ) < f.hdr.fileLength)
    (hs : s < diskSectors)
    (hentry : f.hdr.dataSectors.getD (k / sectorWords) 0 = BitVec.ofNat 32 s)
    (hword : (ofSector (d s)).word (k % sectorWords) = -1) (r : ℤ × List Byte) :
    f.readAt S d 1 ((k * sectorSize : ℕ) : ℤ) 1 ≠ .ok r := by
  have hint : IsInt (((k * sectorSize : ℕ) : ℤ) + 1) := by
    have := isInt_fileLength f.hdr
    unfold IsInt at *
    omega
  have hdiv : S.divRoundDown ((k * sectorSize : ℕ) : ℤ) sectorSize = k := by
    rw [S.divRoundDown_natCast _ _ (by decide), Nat.mul_div_cancel _ (by decide)]
  have hbyte : f.hdr.byteToSector d ((k : ℤ) * sectorSize) 1 = .ok (-1) := by
    have hindex : f.hdr.entry (k / sectorWords) = s := by
      rw [entry, hentry]
      exact ofNat_toNat_sector hs
    rw [byteToSector_index f.hdr d hk (hindex ▸ hs), hindex, hword]
    rfl
  have hlast : ((k * sectorSize : ℕ) : ℤ) + 1 - 1 = ((k * sectorSize : ℕ) : ℤ) := by omega
  have hone : (1 + (k : ℤ) - k).toNat = 1 := by omega
  have hsectors : OpenFile.readSectors f.hdr d 1 1 k = .error .assertion := by
    rw [OpenFile.readSectors, hbyte]
    rfl
  rw [OpenFile.readAt, if_neg (by omega), cint_eq_ok hint, Outcome.ok_bind, if_neg (by omega)]
  simp only [Outcome.pure_eq, Outcome.ok_bind, hlast, hdiv, hone, hsectors]
  intro hr
  cases hr

end FileHeader

end Nachos
