import Nachos.FileSys.Overcommit
import Nachos.FileSys.FirstFit

/-! # What Allocate promises

`Allocate` compares the clear sectors with the data sectors alone. It keeps the promise
of an allocation when the data sectors do not fit and when the index sectors fit as
well; in between it goes ahead although the file has no room.
-/
namespace Nachos.FileHeader

/-- The index sectors and the `n` data sectors of the header are the clear sectors that
have been marked. -/
structure Allocated (m m₁ : BitMap) (hdr : FileHeader) (d : Disk) (n : ℕ) : Prop where
  grows : m ⊆ m₁
  marked : (m₁ \ m).card = n + indexCount n
  sectors : ∃ σ : ℕ → ℕ, (∀ k < n, hdr.byteToSector d (k * sectorSize) 1 = .ok (σ k)) ∧
    FreshIn m ((List.range (indexCount n)).map hdr.entry ++ (List.range n).map σ)

def HasRoom (m : BitMap) (n : ℕ) : Prop :=
  indexCount n ≤ numDirect ∧ ((n + indexCount n : ℕ) : ℤ) ≤ m.numClear

instance (m : BitMap) (n : ℕ) : Decidable (HasRoom m n) := inferInstanceAs (Decidable (_ ∧ _))

def AllocateContract (S : Support) (hdr : FileHeader) (arrays : ℕ → FileHeader) (m : BitMap)
    (size : Word) (d : Disk) : Prop :=
  ∃ done hdr' m' d', hdr.allocate S arrays m size d = .ok (done,hdr',m',d') ∧
    (done = true ↔ HasRoom m (sectorCount size.toNat)) ∧
    (done = false → m' = m ∧ d' = d) ∧
    (done = true → Allocated m m' hdr' d' (sectorCount size.toNat))

section Contract
variable {S : Support} {hdr : FileHeader} {arrays : ℕ → FileHeader} {m m' : BitMap} {size : Word}
  {d : Disk} {n : ℕ}

theorem allocate_allocated (hn : (sectorsFor S size).toInt = n) (hroom : HasRoom m n) :
    ∃ hdr' m' d', hdr.allocate S arrays m size d = .ok (true,hdr',m',d') ∧
      Allocated m m' hdr' d' n := by
  obtain ⟨idx,data,hdr',d',halloc,hfresh,-,hblocks,hidx,hdata,-⟩ :=
    allocate_eq S hdr arrays m d hn hroom.1 hroom.2
  have hlists : (List.range (indexCount n)).map hdr'.entry ++ (List.range n).map (hdr'.block d') =
      idx ++ data := by
    rw [← hidx, ← hdata, indexSectors, blockSectors, hblocks]
  have hlen : (idx ++ data).length = n + indexCount n := by
    rw [← hlists, List.length_append, List.length_map, List.length_map, List.length_range,
      List.length_range, Nat.add_comm]
  refine ⟨hdr',_,d',halloc,Finset.subset_union_left,?_,hdr'.block d',fun k hk => ?_,?_⟩
  · have hdisj : Disjoint (idx ++ data).toFinset m :=
      Finset.disjoint_left.mpr fun t ht => (hfresh.2 t (List.mem_toFinset.mp ht)).2
    rw [Finset.union_sdiff_cancel_left hdisj.symm, List.toFinset_card_of_nodup hfresh.1, hlen]
  · have hj : k / sectorWords < indexCount n := by
      unfold indexCount sectorWords sectorSize
      omega
    rw [← hlists] at hfresh
    have hi := (hfresh.2 _ (List.mem_append_left _ (List.mem_map.mpr
      ⟨_,List.mem_range.mpr hj,rfl⟩))).1
    have hb := (hfresh.2 _ (List.mem_append_right _ (List.mem_map.mpr
      ⟨_,List.mem_range.mpr hk,rfl⟩))).1
    rw [byteToSector_index hdr' d' (lt_of_lt_of_le hj hroom.1) hi]
    exact congrArg _ (toInt_of_lt hb)
  · rw [hlists]
    exact hfresh

theorem not_allocateContract (hn : (sectorsFor S size).toInt = sectorCount size.toNat)
    (hdata : (sectorCount size.toNat : ℤ) ≤ m.numClear)
    (hroom : ¬ HasRoom m (sectorCount size.toNat)) :
    ¬ AllocateContract S hdr arrays m size d := by
  rintro ⟨done,hdr',m',d',halloc,hdone,-⟩
  cases done with
  | true => exact hroom (hdone.mp rfl)
  | false =>
    rw [allocate] at halloc
    simp only [] at halloc
    rw [if_neg (by rw [hn]; omega)] at halloc
    obtain ⟨⟨hdr₁,m₁,d₁⟩,-,h⟩ := Outcome.bind_eq_ok.mp halloc
    cases h

end Contract

/-- `Allocate` meets its contract just when the data sectors do not fit or everything does. -/
theorem allocateContract_iff (S : Support) (hdr : FileHeader) (arrays : ℕ → FileHeader)
    (m : BitMap) (size : Word) (d : Disk) (hsize : 0 ≤ size.toInt) :
    AllocateContract S hdr arrays m size d ↔
      m.numClear < sectorCount size.toNat ∨ HasRoom m (sectorCount size.toNat) := by
  obtain ⟨hn,-⟩ := sectorsFor_eq S hsize
  constructor
  · intro h
    by_contra hno
    obtain ⟨hdata,hroom⟩ := not_or.mp hno
    exact not_allocateContract hn (not_lt.mp hdata) hroom h
  · rintro (hfull | hroom)
    · obtain ⟨hdr',halloc⟩ := allocate_false S hdr arrays size d (show m.numClear < _ by omega)
      refine ⟨false,hdr',m,d,halloc,iff_of_false Bool.false_ne_true fun hroom => ?_,
        fun _ => ⟨rfl,rfl⟩,fun h => absurd h Bool.false_ne_true⟩
      have := hroom.2
      omega
    · obtain ⟨hdr',m',d',halloc,hall⟩ := @allocate_allocated S hdr arrays m size d _ hn hroom
      exact ⟨true,hdr',m',d',halloc,iff_of_true rfl hroom,fun h => absurd h.symm
        Bool.false_ne_true,fun _ => hall⟩

/-- On an empty map a file of one byte gets its two sectors. -/
theorem allocateContract_one : AllocateContract FirstFit.support FirstFit.heap.hdr
    FirstFit.heap.sectorArray ∅ 1 FirstFit.disk :=
  (allocateContract_iff _ _ _ _ _ _ (by decide)).mpr
    (.inr ⟨by decide,by rw [BitMap.numClear_empty]; decide⟩)

/-- One clear sector is enough for the data of a file of one byte, not for its index
sector. -/
theorem not_allocateContract_one : ¬ AllocateContract FirstFit.support FirstFit.heap.hdr
    FirstFit.heap.sectorArray (Finset.range 1023) 1 FirstFit.disk := by
  have hclear : BitMap.numClear (Finset.range 1023) = 1 := by
    rw [BitMap.numClear, Finset.card_sdiff_of_subset (Finset.range_subset_range.mpr (by decide)),
      Finset.card_range, Finset.card_range]
    rfl
  refine not_allocateContract (by decide) (by rw [hclear]; decide) fun hroom => ?_
  have := hroom.2
  rw [hclear] at this
  exact absurd this (by decide)

end Nachos.FileHeader
