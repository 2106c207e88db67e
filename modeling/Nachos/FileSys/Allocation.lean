import Nachos.FileSys.Layout
import Mathlib.Data.List.GetD

/-! # What allocation and deallocation do

With room for everything, `allocate` marks exactly the index and the data sectors
it records, in the order the two-level layout is read back. `deallocate` frees
the index sectors and nothing else.
-/
namespace Nachos

/-- Distinct sectors of the disk that are clear in `m`. -/
def FreshIn (m : BitMap) (l : List ℕ) : Prop := l.Nodup ∧ ∀ s ∈ l, s < diskSectors ∧ s ∉ m

namespace FreshIn
variable {m : BitMap} {l l' : List ℕ} {s : ℕ}

theorem nil (m : BitMap) : FreshIn m [] := ⟨List.nodup_nil,by simp⟩

theorem cons (hs : s < diskSectors) (hm : s ∉ m) (h : FreshIn (insert s m) l) :
    FreshIn m (s :: l) := by
  refine ⟨List.nodup_cons.mpr ⟨fun hl => (h.2 s hl).2 (Finset.mem_insert_self s m),h.1⟩,?_⟩
  intro t ht
  rcases List.mem_cons.mp ht with rfl | ht
  · exact ⟨hs,hm⟩
  · exact ⟨(h.2 t ht).1,fun h' => (h.2 t ht).2 (Finset.mem_insert_of_mem h')⟩

theorem append (h : FreshIn m l) (h' : FreshIn (m ∪ l.toFinset) l') : FreshIn m (l ++ l') := by
  refine ⟨List.nodup_append.mpr ⟨h.1,h'.1,?_⟩,?_⟩
  · rintro a ha b hb rfl
    exact (h'.2 a hb).2 (Finset.mem_union_right _ (List.mem_toFinset.mpr ha))
  · intro t ht
    rcases List.mem_append.mp ht with ht | ht
    · exact h.2 t ht
    · exact ⟨(h'.2 t ht).1,fun hm => (h'.2 t ht).2 (Finset.mem_union_left _ hm)⟩

theorem perm (h : FreshIn m l) (hp : l.Perm l') : FreshIn m l' :=
  ⟨hp.nodup_iff.mp h.1,fun t ht => h.2 t (hp.mem_iff.mpr ht)⟩

theorem numClear_union (h : FreshIn m l) :
    BitMap.numClear (m ∪ l.toFinset) = BitMap.numClear m - l.length := by
  induction l generalizing m with
  | nil => simp
  | cons s l ih =>
    obtain ⟨hnot,hnd⟩ := List.nodup_cons.mp h.1
    have hs := h.2 s List.mem_cons_self
    have hf : FreshIn (insert s m) l := by
      refine ⟨hnd,fun t ht => ?_⟩
      have ht' := h.2 t (List.mem_cons_of_mem s ht)
      refine ⟨ht'.1,fun hm => ?_⟩
      rcases Finset.mem_insert.mp hm with rfl | hm
      · exact hnot ht
      · exact ht'.2 hm
    have he := ih hf
    rw [BitMap.numClear_insert hs.1 hs.2] at he
    rw [List.toFinset_cons, Finset.union_insert, ← Finset.insert_union, he, List.length_cons]
    omega

theorem subset (h : FreshIn m l) (hm : m ⊆ Finset.range diskSectors) :
    m ∪ l.toFinset ⊆ Finset.range diskSectors := by
  refine Finset.union_subset hm fun t ht => ?_
  exact Finset.mem_range.mpr (h.2 t (List.mem_toFinset.mp ht)).1

end FreshIn

theorem BitMap.find_none {S : Support} {m : BitMap} (h : m.numClear ≤ 0) :
    BitMap.find S m = (-1,m) := by
  cases hf : S.findClear m with
  | none => rw [find, hf]
  | some s =>
    obtain ⟨hs,hm⟩ := S.findClear_some m s hf
    have hpos := Finset.card_pos.mpr
      ⟨s,Finset.mem_sdiff.mpr ⟨Finset.mem_range.mpr hs,hm⟩⟩
    unfold numClear at h
    omega

theorem insert_union_toFinset (m : BitMap) (s : ℕ) (l : List ℕ) :
    insert s m ∪ l.toFinset = m ∪ (s :: l).toFinset := by
  rw [List.toFinset_cons, Finset.union_insert, Finset.insert_union]

theorem ofNat_toNat_sector {s : ℕ} (h : s < diskSectors) : (BitVec.ofNat 32 s).toNat = s := by
  unfold diskSectors sectorsPerTrack numTracks at h
  rw [BitVec.toNat_ofNat]
  omega

theorem ofNat_toInt_sector {s : ℕ} (h : s < diskSectors) : (BitVec.ofNat 32 s).toInt = s := by
  have ht := ofNat_toNat_sector h
  rw [toInt_of_lt (by omega), ht]

theorem ofNat_ne_neg_one {s : ℕ} (h : s < diskSectors) : BitVec.ofNat 32 s ≠ -1 := by
  intro he
  have ht := ofNat_toInt_sector h
  rw [he] at ht
  exact absurd ht (by simp)

theorem BitMap.find_eq {S : Support} {m : BitMap} (h : 0 < m.numClear) :
    ∃ s, S.findClear m = some s ∧ BitMap.find S m = (BitVec.ofNat 32 s,insert s m) ∧
      s < diskSectors ∧ s ∉ m := by
  obtain ⟨s,hs⟩ := BitMap.findClear_isSome S h
  have hf := S.findClear_some m s hs
  exact ⟨s,hs,by rw [BitMap.find, hs],hf⟩

namespace FileHeader

theorem getD_setIfInBounds {α : Type*} {n : ℕ} (v : Vector α n) {i : ℕ} (j : ℕ) (x y : α)
    (hi : i < n) : (v.setIfInBounds i x).getD j y = if j = i then x else v.getD j y := by
  unfold Vector.getD
  rw [Vector.toArray_setIfInBounds, Array.getD_eq_getD_getElem?, Array.getD_eq_getD_getElem?,
    Array.getElem?_setIfInBounds]
  by_cases h : j = i
  · subst h
    simp [hi]
  · rw [if_neg h, if_neg (Ne.symm h)]

theorem word_setWord (h : FileHeader) (w : Word) {k t : ℕ} (hk : k < sectorWords) :
    (h.setWord k w).word t = if t = k then w else h.word t := by
  unfold sectorWords sectorSize at hk
  have hb : k - 2 < numDirect := by unfold numDirect sectorSize; omega
  by_cases h0 : k = 0
  · subst h0
    by_cases ht : t = 0 <;> simp [setWord, word, ht]
  by_cases h1 : k = 1
  · subst h1
    by_cases ht : t = 1 <;> simp [setWord, word, ht]
  simp only [setWord, if_neg h0, if_neg h1, word]
  rw [getD_setIfInBounds _ _ _ _ hb]
  split_ifs <;> first | rfl | omega

theorem fillSectorArray_eq (S : Support) (count i : ℕ) (a : FileHeader) (m : BitMap)
    (hi : i + count ≤ sectorWords) (hm : (count : ℤ) ≤ m.numClear) :
    ∃ l a', fillSectorArray S count i a m = (a',m ∪ l.toFinset) ∧ l.length = count ∧
      FreshIn m l ∧ ∀ t < sectorWords,
        a'.word t = if i ≤ t ∧ t < i + count then BitVec.ofNat 32 (l.getD (t - i) 0)
          else a.word t := by
  induction count generalizing i a m with
  | zero =>
    refine ⟨[],a,by simp [fillSectorArray],rfl,FreshIn.nil m,fun t _ => ?_⟩
    rw [if_neg (by omega)]
  | succ count ih =>
    obtain ⟨s,-,hfind,hs,hsm⟩ := BitMap.find_eq (S := S) (m := m) (by omega)
    have hc := BitMap.numClear_insert hs hsm
    obtain ⟨l,a',heq,hlen,hfresh,hword⟩ := ih (i + 1) (a.setWord i (BitVec.ofNat 32 s))
      (insert s m) (by omega) (by omega)
    refine ⟨s :: l,a',?_,by simp [hlen],FreshIn.cons hs hsm hfresh,fun t ht => ?_⟩
    · rw [fillSectorArray, hfind, List.toFinset_cons, Finset.union_insert, ← Finset.insert_union]
      exact heq
    · rw [hword t ht, word_setWord a _ (by omega)]
      by_cases h1 : i + 1 ≤ t ∧ t < i + 1 + count
      · rw [if_pos h1, if_pos (by omega), show t - i = t - (i + 1) + 1 by omega, List.getD_cons_succ]
      · rw [if_neg h1]
        by_cases h2 : t = i
        · rw [if_pos h2, if_pos (by omega), h2, Nat.sub_self, List.getD_cons_zero]
        · rw [if_neg h2, if_neg (by omega)]

theorem getD_setDataSector (h : FileHeader) {j : ℕ} (w : Word) (hj : j < numDirect) :
    ∃ h', h.setDataSector j w = .ok h' ∧ h'.numBytes = h.numBytes ∧
      h'.numSectors = h.numSectors ∧
      ∀ t, h'.dataSectors.getD t 0 = if t = j then w else h.dataSectors.getD t 0 :=
  ⟨_,if_pos hj,rfl,rfl,fun t => getD_setIfInBounds _ t w 0 hj⟩

/-- The sectors one pass of the outer loop takes, moved to their places in the lists of
index sectors and data sectors. -/
private theorem perm_pass (s : ℕ) (l idx data : List ℕ) :
    ((s :: l) ++ (idx ++ data)).Perm ((s :: idx) ++ (l ++ data)) := by
  simp only [List.cons_append, List.perm_cons, ← List.append_assoc]
  exact List.Perm.append_right _ List.perm_append_comm

/-- By induction on the index sectors still to be made; the later ones are fresh in the
map that has the earlier ones marked, so their writes leave the earlier ones alone. -/
theorem allocateLoop_eq (S : Support) (arrays : ℕ → FileHeader) (count j : ℕ) (fill : ℤ)
    (hdr : FileHeader) (m : BitMap) (d : Disk)
    (hcount : count = (fill.toNat + (sectorWords - 1)) / sectorWords)
    (hj : j + count ≤ numDirect) (hm : ((count + fill.toNat : ℕ) : ℤ) ≤ m.numClear) :
    ∃ idx data hdr' d',
      allocateLoop S arrays count j fill hdr m d =
        .ok (hdr',m ∪ (idx ++ data).toFinset,d') ∧
      idx.length = count ∧ data.length = fill.toNat ∧ FreshIn m (idx ++ data) ∧
      hdr'.numBytes = hdr.numBytes ∧ hdr'.numSectors = hdr.numSectors ∧
      (∀ t, hdr'.dataSectors.getD t 0 = if j ≤ t ∧ t < j + count
        then BitVec.ofNat 32 (idx.getD (t - j) 0) else hdr.dataSectors.getD t 0) ∧
      (∀ s, s ∉ idx → d' s = d s) ∧
      ∀ k < fill.toNat, (ofSector (d' (idx.getD (k / sectorWords) 0))).word (k % sectorWords) =
        BitVec.ofNat 32 (data.getD k 0) := by
  induction count generalizing j fill hdr m d with
  | zero =>
    have hf : fill.toNat = 0 := by unfold sectorWords sectorSize at hcount; omega
    refine ⟨[],[],hdr,d,by simp [allocateLoop],rfl,hf.symm,FreshIn.nil m,rfl,rfl,fun t => ?_,
      fun _ _ => rfl,fun k hk => ?_⟩
    · rw [if_neg (by omega)]
    · omega
  | succ count ih =>
    obtain ⟨s,-,hfind,hs,hsm⟩ := BitMap.find_eq (S := S) (m := m) (by omega)
    have hc := BitMap.numClear_insert hs hsm
    obtain ⟨hdr₁,hset,hb₁,hn₁,hg₁⟩ := getD_setDataSector hdr (BitVec.ofNat 32 s)
      (show j < numDirect by omega)
    obtain ⟨l,a,hfill,hl,hfresh,hword⟩ := fillSectorArray_eq S (min fill.toNat sectorWords) 0
      (arrays j) (insert s m) (by omega) (by omega)
    have hc₁ := hfresh.numClear_union
    let d₁ : Disk := Function.update d s a.toSector
    have hwrite : a.writeBack d (BitVec.ofNat 32 s).toInt = .ok d₁ := by
      rw [ofNat_toInt_sector hs]
      exact Disk.writeRequest_natCast hs
    have hrest : (fill - (sectorWords : ℕ)).toNat = fill.toNat - sectorWords := by omega
    obtain ⟨idx,data,hdr',d',heq,hli,hld,hfr,hb,hn,hg,hd,hw⟩ := ih (j + 1)
      (fill - (sectorWords : ℕ)) hdr₁ (insert s m ∪ l.toFinset) d₁
      (by rw [hrest]; unfold sectorWords sectorSize at *; omega) (by omega)
      (by rw [hrest]; unfold sectorWords sectorSize at *; omega)
    have hall : FreshIn m ((s :: l) ++ (idx ++ data)) :=
      FreshIn.append (FreshIn.cons hs hsm hfresh) (by
        rw [List.toFinset_cons, Finset.union_insert, ← Finset.insert_union]; exact hfr)
    have hsi : s ∉ idx := fun hi =>
      (hfr.2 s (List.mem_append_left _ hi)).2
        (Finset.mem_union_left _ (Finset.mem_insert_self s m))
    refine ⟨s :: idx,l ++ data,hdr',d',?_,by simp [hli],?_,hall.perm (perm_pass s l idx data),
      hb.trans hb₁,hn.trans hn₁,fun t => ?_,fun t ht => ?_,fun k hk => ?_⟩
    · have hmap : insert s m ∪ l.toFinset ∪ (idx ++ data).toFinset =
          m ∪ ((s :: idx) ++ (l ++ data)).toFinset := by
        rw [← List.toFinset_eq_of_perm _ _ (perm_pass s l idx data)]
        rw [List.toFinset_append (l := s :: l), List.toFinset_cons, ← Finset.union_assoc,
          Finset.union_insert, ← Finset.insert_union]
      rw [allocateLoop, hfind, ← hmap]
      simp only [hset, Outcome.ok_bind, hfill, hwrite]
      exact heq
    · rw [List.length_append, hl, hld, hrest]
      omega
    · rw [hg t, hg₁ t]
      by_cases h1 : j + 1 ≤ t ∧ t < j + 1 + count
      · rw [if_pos h1, if_pos (by omega), show t - j = t - (j + 1) + 1 by omega,
          List.getD_cons_succ]
      · rw [if_neg h1]
        by_cases h2 : t = j
        · rw [if_pos h2, if_pos (by omega), h2, Nat.sub_self, List.getD_cons_zero]
        · rw [if_neg h2, if_neg (by omega)]
    · rw [List.mem_cons, not_or] at ht
      rw [hd t ht.2]
      exact Function.update_of_ne ht.1 _ _
    · by_cases hlow : k < sectorWords
      · have hkl : k < l.length := by omega
        rw [Nat.div_eq_of_lt hlow, Nat.mod_eq_of_lt hlow, List.getD_cons_zero, hd s hsi,
          List.getD_append _ _ _ _ hkl]
        rw [show d₁ s = a.toSector from Function.update_self s _ d, ofSector_toSector,
          hword k hlow, if_pos (by omega), Nat.sub_zero]
      · have hll : l.length = sectorWords := by omega
        have hk' := hw (k - sectorWords) (by omega)
        have hdiv : k / sectorWords = (k - sectorWords) / sectorWords + 1 := by
          unfold sectorWords sectorSize at *; omega
        have hmod : k % sectorWords = (k - sectorWords) % sectorWords := by
          unfold sectorWords sectorSize at *; omega
        rw [hdiv, hmod, List.getD_cons_succ, hk', List.getD_append_right _ _ _ _ (by omega), hll]

theorem allocateDirectoryLoop_eq (S : Support) (count i : ℕ) (hdr : FileHeader) (m : BitMap)
    (hi : i + count ≤ numDirect) (hm : (count : ℤ) ≤ m.numClear) :
    ∃ l hdr', allocateDirectoryLoop S count i hdr m = .ok (hdr',m ∪ l.toFinset) ∧
      l.length = count ∧ FreshIn m l ∧
      hdr'.numBytes = hdr.numBytes ∧ hdr'.numSectors = hdr.numSectors ∧
      ∀ t, hdr'.dataSectors.getD t 0 = if i ≤ t ∧ t < i + count
        then BitVec.ofNat 32 (l.getD (t - i) 0) else hdr.dataSectors.getD t 0 := by
  induction count generalizing i hdr m with
  | zero =>
    refine ⟨[],hdr,by simp [allocateDirectoryLoop],rfl,FreshIn.nil m,rfl,rfl,fun t => ?_⟩
    rw [if_neg (by omega)]
  | succ count ih =>
    obtain ⟨s,-,hfind,hs,hsm⟩ := BitMap.find_eq (S := S) (m := m) (by omega)
    have hc := BitMap.numClear_insert hs hsm
    obtain ⟨hdr₁,hset,hb₁,hn₁,hg₁⟩ := getD_setDataSector hdr (BitVec.ofNat 32 s)
      (show i < numDirect by omega)
    obtain ⟨l,hdr',heq,hlen,hfresh,hb,hn,hg⟩ := ih (i + 1) hdr₁ (insert s m) (by omega) (by omega)
    refine ⟨s :: l,hdr',?_,by simp [hlen],FreshIn.cons hs hsm hfresh,hb.trans hb₁,hn.trans hn₁,
      fun t => ?_⟩
    · rw [allocateDirectoryLoop, hfind, List.toFinset_cons, Finset.union_insert,
        ← Finset.insert_union]
      simp only [hset, Outcome.ok_bind]
      exact heq
    · rw [hg t, hg₁ t]
      by_cases h1 : i + 1 ≤ t ∧ t < i + 1 + count
      · rw [if_pos h1, if_pos (by omega), show t - i = t - (i + 1) + 1 by omega,
          List.getD_cons_succ]
      · rw [if_neg h1]
        by_cases h2 : t = i
        · rw [if_pos h2, if_pos (by omega), h2, Nat.sub_self, List.getD_cons_zero]
        · rw [if_neg h2, if_neg (by omega)]

theorem sectorsFor_eq (S : Support) {size : Word} (h : 0 ≤ size.toInt) :
    (sectorsFor S size).toInt = sectorCount size.toNat ∧
    (sectorsFor S size).toNat = sectorCount size.toNat := by
  have hlt : size.toNat < 2 ^ 31 := by
    rw [BitVec.toInt_eq_toNat_cond] at h
    split_ifs at h <;> omega
  have hs : size.toInt = size.toNat := BitVec.toInt_eq_toNat_of_lt (by omega)
  have hc : sectorCount size.toNat < 2 ^ 31 := by unfold sectorCount sectorSize; omega
  have hn : (BitVec.ofInt 32 (sectorCount size.toNat : ℕ)).toNat = sectorCount size.toNat := by
    rw [BitVec.ofInt_natCast, BitVec.toNat_ofNat]
    omega
  rw [sectorsFor, hs, S.divRoundUp_natCast _ _ (by decide)]
  change (BitVec.ofInt 32 ((sectorCount size.toNat : ℕ) : ℤ)).toInt = _ ∧
    (BitVec.ofInt 32 ((sectorCount size.toNat : ℕ) : ℤ)).toNat = _
  refine ⟨?_,hn⟩
  rw [BitVec.toInt_eq_toNat_of_lt (by omega), hn]

private theorem map_range_getD {f : ℕ → ℕ} {l : List ℕ} (h : ∀ k < l.length, f k = l.getD k 0) :
    (List.range l.length).map f = l := by
  apply List.ext_getElem (by simp)
  intro k hk hk'
  rw [List.getElem_map, List.getElem_range, h k hk', List.getD_eq_getElem _ _ hk']

theorem allocate_false (S : Support) (hdr : FileHeader) (arrays : ℕ → FileHeader) {m : BitMap}
    (size : Word) (d : Disk)
    (h : m.numClear < (sectorsFor S size).toInt) :
    ∃ hdr', hdr.allocate S arrays m size d = .ok (false,hdr',m,d) :=
  ⟨_,by rw [allocate]; exact if_pos h⟩

theorem sectorsFor_holds (S : Support) (size : Word) :
    size.toInt ≤ (sectorsFor S size).toNat * sectorSize := by
  by_cases h0 : 0 ≤ size.toInt
  · have hs : size.toInt = size.toNat := BitVec.toInt_eq_toNat_of_msb (by
      rw [BitVec.msb_eq_toInt]; simpa using h0)
    rw [(sectorsFor_eq S h0).2, hs, sectorCount]
    unfold sectorSize
    omega
  · unfold sectorSize
    omega

theorem allocate_eq (S : Support) (hdr : FileHeader) (arrays : ℕ → FileHeader) (m : BitMap)
    {size : Word} {n : ℕ} (d : Disk) (hn : (sectorsFor S size).toInt = n)
    (hindex : indexCount n ≤ numDirect) (hroom : ((n + indexCount n : ℕ) : ℤ) ≤ m.numClear) :
    ∃ idx data hdr' d',
      hdr.allocate S arrays m size d = .ok (true,hdr',m ∪ (idx ++ data).toFinset,d') ∧
      FreshIn m (idx ++ data) ∧ hdr'.numBytes = size ∧ hdr'.blocks = n ∧
      hdr'.indexSectors = idx ∧ hdr'.blockSectors d' = data ∧ ∀ s, s ∉ idx → d' s = d s := by
  have hnat := toNat_of_toInt hn
  obtain ⟨idx,data,hdr',d',heq,hli,hld,hfresh,hb,hns,hg,hd,hword⟩ :=
    allocateLoop_eq S arrays (indexCount n) 0 n
      { hdr with numBytes := size, numSectors := sectorsFor S size } m d
      (by rw [Int.toNat_natCast, indexCount]) (by omega) (by rw [Int.toNat_natCast]; omega)
  rw [Int.toNat_natCast] at hld hword
  have hcount : (S.divRoundUp ((sectorsFor S size).toNat : ℕ) sectorWords).toNat =
      indexCount n := by
    rw [S.divRoundUp_natCast _ _ (by decide), Int.toNat_natCast, hnat, indexCount]
    rfl
  have hblocks : hdr'.blocks = n := by
    rw [blocks, hns]
    exact hnat
  have hentry : ∀ k < idx.length, hdr'.entry k = idx.getD k 0 := by
    intro k hk
    rw [entry, hg, if_pos (by omega), Nat.sub_zero]
    apply ofNat_toNat_sector
    rw [List.getD_eq_getElem _ _ hk]
    exact (hfresh.2 _ (List.mem_append_left _ (List.getElem_mem hk))).1
  refine ⟨idx,data,hdr',d',?_,hfresh,hb,hblocks,?_,?_,hd⟩
  · rw [allocate]
    simp only []
    rw [if_neg (by rw [hn]; omega), hcount, hn]
    simp only [heq, Outcome.ok_bind, Outcome.pure_eq]
  · rw [indexSectors, hblocks, ← hli]
    exact map_range_getD hentry
  · rw [blockSectors, hblocks, ← hld]
    refine map_range_getD fun k hk => ?_
    have hj : k / sectorWords < idx.length := by
      rw [hli]
      unfold indexCount sectorWords sectorSize at *
      omega
    rw [block, hentry _ hj, hword k (by omega)]
    apply ofNat_toNat_sector
    rw [List.getD_eq_getElem _ _ hk]
    exact (hfresh.2 _ (List.mem_append_right _ (List.getElem_mem hk))).1

theorem allocateDirectory_eq (S : Support) (hdr : FileHeader) (m : BitMap) (size : Word)
    (h0 : 0 ≤ size.toInt) (hdirect : sectorCount size.toNat ≤ numDirect)
    (hroom : (sectorCount size.toNat : ℤ) ≤ m.numClear) :
    ∃ l hdr', hdr.allocateDirectory S m size = .ok (true,hdr',m ∪ l.toFinset) ∧
      FreshIn m l ∧ hdr'.numBytes = size ∧ hdr'.blocks = sectorCount size.toNat ∧
      hdr'.directSectors = l := by
  obtain ⟨hi,hn⟩ := sectorsFor_eq S h0
  obtain ⟨l,hdr',heq,hlen,hfresh,hb,hns,hg⟩ := allocateDirectoryLoop_eq S
    (sectorCount size.toNat) 0 { hdr with numBytes := size, numSectors := sectorsFor S size } m
    (by omega) hroom
  have hblocks : hdr'.blocks = sectorCount size.toNat := by
    rw [blocks, hns]
    exact hn
  refine ⟨l,hdr',?_,hfresh,hb,hblocks,?_⟩
  · rw [allocateDirectory]
    simp only []
    rw [if_neg (by rw [hi]; omega), hi, Int.toNat_natCast]
    simp only [heq, Outcome.ok_bind, Outcome.pure_eq]
  · rw [directSectors, hblocks, ← hlen]
    refine map_range_getD fun k hk => ?_
    rw [entry, hg, if_pos (by omega), Nat.sub_zero]
    apply ofNat_toNat_sector
    rw [List.getD_eq_getElem _ _ hk]
    exact (hfresh.2 _ (List.getElem_mem hk)).1

/-- The inner loop of `deallocate` never makes a pass. -/
theorem clearSectorArray_eq (z : ℤ) (a : FileHeader) (bound : ℕ) (m : BitMap) :
    clearSectorArray z a bound 0 m = .ok m := by
  cases bound with
  | zero => rfl
  | succ bound => rw [clearSectorArray, if_neg (by simp)]; rfl

theorem deallocateLoop_eq (h : FileHeader) (d : Disk) (count j : ℕ) (z : ℤ) (m : BitMap)
    (hj : j + count ≤ numDirect) (hlt : ∀ t < j + count, h.entry t < diskSectors) :
    h.deallocateLoop d count j z m =
      .ok (m \ ((List.range count).map fun k => h.entry (j + k)).toFinset) := by
  induction count generalizing j z m with
  | zero => simp [deallocateLoop]
  | succ count ih =>
    have hs := hlt j (by omega)
    have hfetch : fetchFrom d (h.dataSectors.getD j 0).toInt = .ok (ofSector (d (h.entry j))) := by
      rw [toInt_of_lt hs, fetchFrom]
      change Disk.readRequest d (h.entry j) >>= _ = _
      rw [Disk.readRequest_natCast hs]
      rfl
    have hclear : m.clear (h.dataSectors.getD j 0).toInt = .ok (m.erase (h.entry j)) := by
      rw [toInt_of_lt hs]
      exact BitMap.clear_natCast hs
    rw [deallocateLoop, getDataSector_eq h (by omega)]
    simp only [Outcome.ok_bind, hfetch, clearSectorArray_eq, hclear]
    rw [ih (j + 1) _ _ (by omega) (fun t ht => hlt t (by omega)), List.range_succ_eq_map,
      List.map_cons, List.map_map, List.toFinset_cons, Nat.add_zero, Finset.sdiff_insert,
      Finset.erase_sdiff_comm]
    congr 4
    apply List.map_congr_left
    intro k _
    simp only [Function.comp_apply, Nat.succ_eq_add_one]
    congr 1
    omega

/-- Every live header names its index sectors among the sectors it owns; for a directory
the code takes its first data sector for one. -/
theorem index_owned {d : Disk} {s : ℕ} {kind : NodeKind} (hn : NodeOk d s kind) :
    indexCount (headerAt d s).blocks ≤ numDirect ∧
    ∀ t ∈ (headerAt d s).indexSectors, t ∈ ownedSectors d s kind := by
  have hdirect : ∀ {n}, (headerAt d s).blocks = n → indexCount n ≤ n →
      ∀ t ∈ (headerAt d s).indexSectors, t ∈ (headerAt d s).directSectors := by
    intro n hb hle t ht
    obtain ⟨k,hk,rfl⟩ := List.mem_map.mp ht
    rw [hb, List.mem_range] at hk
    exact entry_mem_direct (by omega)
  have hs := hn.size
  cases kind with
  | file => exact ⟨hs.2,fun t ht => List.mem_append_left _ (List.mem_cons_of_mem s ht)⟩
  | freeMap =>
    exact ⟨by rw [hs.2]; decide,fun t ht =>
      List.mem_append_right _ (hdirect hs.2 (by decide) t ht)⟩
  | directory =>
    exact ⟨by rw [hs.2]; decide,fun t ht =>
      List.mem_append_right _ (hdirect hs.2 (by decide) t ht)⟩

theorem deallocate_eq (S : Support) {h : FileHeader} (d : Disk) (m : BitMap)
    (hindex : indexCount h.blocks ≤ numDirect)
    (hlt : ∀ t ∈ h.indexSectors, t < diskSectors) :
    h.deallocate S d m = .ok (m \ h.indexSectors.toFinset) := by
  have hcount : (S.divRoundUp (h.numSectors.toNat : ℕ) sectorWords).toNat =
      indexCount h.blocks := by
    rw [S.divRoundUp_natCast _ _ (by decide), Int.toNat_natCast, indexCount]
    rfl
  rw [deallocate, hcount, deallocateLoop_eq h d _ 0 _ m (by omega) fun t ht =>
    hlt _ (List.mem_map.mpr ⟨t,List.mem_range.mpr (by omega),rfl⟩)]
  simp only [Nat.zero_add]
  rfl

end FileHeader

end Nachos
