import Nachos.FileSys.OpenFile

/-! # What a transfer does

A header maps the blocks of its file to sectors. Whatever the layout, as long as
the blocks lie on distinct sectors and the map does not depend on them, reading
returns a slice of the file's bytes and writing splices into them.
-/
namespace Nachos
open BlockRegion

/-- Block `k < n` of the file of `h` is sector `σ k`, also after writes to the file. -/
structure Mapping (d : Disk) (h : FileHeader) (mode : ℤ) (n : ℕ) (σ : ℕ → ℕ) : Prop where
  resolve : ∀ d' : Disk, (∀ s, (∀ k < n, s ≠ σ k) → d' s = d s) →
    ∀ k < n, h.byteToSector d' (k * sectorSize) mode = .ok (σ k)
  injective : ∀ k < n, ∀ l < n, σ k = σ l → k = l
  inDisk : ∀ k < n, σ k < diskSectors

def fileBytes (d : Disk) (σ : ℕ → ℕ) (n L : ℕ) : List Byte :=
  (contents Sector.bytes d σ n).take L

/-- How many of `numBytes` bytes from `position` on lie inside a file of length `L`. -/
def transferCount (L position : ℕ) (numBytes : ℤ) : ℕ := min numBytes.toNat (L - position)

theorem length_fileBytes {d : Disk} {σ : ℕ → ℕ} {n L : ℕ} (hL : L ≤ n * sectorSize) :
    (fileBytes d σ n L).length = L := by
  rw [fileBytes, List.length_take, length_contents Sector.length_bytes]
  omega

theorem fileBytes_congr {d d' : Disk} {σ σ' : ℕ → ℕ} {n L : ℕ}
    (h : ∀ k < n, d' (σ' k) = d (σ k)) : fileBytes d' σ' n L = fileBytes d σ n L := by
  rw [fileBytes, contents_congr h, fileBytes]

namespace Mapping
variable {d d' : Disk} {h : FileHeader} {mode : ℤ} {n : ℕ} {σ : ℕ → ℕ}

theorem of_agree (M : Mapping d h mode n σ) (ha : ∀ s, (∀ k < n, s ≠ σ k) → d' s = d s) :
    Mapping d' h mode n σ :=
  ⟨fun e he => M.resolve e fun s hs => (he s hs).trans (ha s hs),M.injective,M.inDisk⟩

theorem blocks_le (M : Mapping d h mode n σ) : n ≤ diskSectors := by
  have hc := Finset.card_le_card_of_injOn (s := Finset.range n) (t := Finset.range diskSectors) σ
    (fun k hk => by simpa using M.inDisk k (by simpa using hk))
    (fun k hk l hl he => M.injective k (by simpa using hk) l (by simpa using hl) he)
  simpa using hc

theorem resolve_self (M : Mapping d h mode n σ) {k : ℕ} (hk : k < n) :
    h.byteToSector d (k * sectorSize) mode = .ok (σ k) :=
  M.resolve d (fun _ _ => rfl) k hk

theorem readSectors_eq (M : Mapping d h mode n σ) (count i : ℕ) (hi : i + count ≤ n) :
    OpenFile.readSectors h d mode count i =
      .ok (contents Sector.bytes d (fun k => σ (i + k)) count) := by
  induction count generalizing i with
  | zero => rfl
  | succ count ih =>
    have hs := ih (i + 1) (by omega)
    rw [Int.natCast_succ] at hs
    have hb := M.inDisk i (by omega)
    simp only [OpenFile.readSectors, M.resolve_self (show i < n by omega), Outcome.ok_bind,
      Disk.readRequest_natCast hb, hs, Outcome.pure_eq]
    rw [contents_succ', Nat.add_zero]
    congr 3
    funext k
    congr 1
    omega

theorem writeSectors_eq (M : Mapping d h mode n σ) (count i : ℕ) (buf : List Byte)
    (hi : i + count ≤ n) (hbuf : buf.length = count * sectorSize) :
    ∃ d' : Disk, OpenFile.writeSectors h mode count i buf d = .ok d' ∧
      (∀ k < count, (d' (σ (i + k))).bytes = (buf.drop (k * sectorSize)).take sectorSize) ∧
      ∀ s, (∀ k < count, s ≠ σ (i + k)) → d' s = d s := by
  induction count generalizing i buf d with
  | zero => exact ⟨d,rfl,fun k hk => absurd hk (Nat.not_lt_zero k),fun _ _ => rfl⟩
  | succ count ih =>
    have hb := M.inDisk i (by omega)
    have ht : (buf.take sectorSize).length = sectorSize := by
      rw [List.length_take, hbuf, Nat.succ_mul]; omega
    let d₁ : Disk := Function.update d (σ i) ⟨buf.take sectorSize,ht⟩
    have hd₁ : ∀ s, s ≠ σ i → d₁ s = d s := fun s hs => Function.update_of_ne hs _ _
    have M₁ : Mapping d₁ h mode n σ := M.of_agree fun s hs => hd₁ s (hs i (by omega))
    obtain ⟨d',hw,hin,hout⟩ := ih (d := d₁) M₁ (i + 1) (buf.drop sectorSize) (by omega)
      (by rw [List.length_drop, hbuf, Nat.succ_mul]; omega)
    rw [Int.natCast_succ] at hw
    refine ⟨d',?_,?_,?_⟩
    · simp only [OpenFile.writeSectors, M.resolve_self (show i < n by omega), Outcome.ok_bind,
        Sector.ofBytes_eq_ok ht, Disk.writeRequest_natCast hb]
      exact hw
    · intro k hk
      cases k with
      | zero =>
        have h0 : d' (σ i) = d₁ (σ i) := by
          refine hout (σ i) fun k hk he => ?_
          have := M.injective _ (by omega) _ (by omega) he
          omega
        rw [Nat.add_zero, h0, Nat.zero_mul, List.drop_zero]
        exact congrArg Sector.bytes (Function.update_self (σ i) _ d)
      | succ k =>
        have hk' := hin k (by omega)
        rw [List.drop_drop, show i + 1 + k = i + (k + 1) by omega] at hk'
        rw [hk', Nat.succ_mul, Nat.add_comm]
    · intro s hs
      rw [hout s fun k hk => by rw [show i + 1 + k = i + (k + 1) by omega]; exact hs _ (by omega),
        hd₁ s (hs 0 (by omega))]

theorem writeSectors_frame (M : Mapping d h mode n σ) (count i : ℕ) (buf : List Byte)
    (hi : i + count ≤ n) (hw : OpenFile.writeSectors h mode count i buf d = .ok d') :
    ∀ s, (∀ k < n, s ≠ σ k) → d' s = d s := by
  induction count generalizing i buf d with
  | zero =>
    cases hw
    exact fun _ _ => rfl
  | succ count ih =>
    have hb := M.inDisk i (by omega)
    simp only [OpenFile.writeSectors, M.resolve_self (show i < n by omega), Outcome.ok_bind] at hw
    obtain ⟨data,-,hw⟩ := Outcome.bind_eq_ok.mp hw
    rw [Disk.writeRequest_natCast hb, Outcome.ok_bind, ← Int.natCast_succ] at hw
    have hd₁ : ∀ s, s ≠ σ i → Function.update d (σ i) data s = d s := fun s hs =>
      Function.update_of_ne hs _ _
    intro s hs
    rw [ih (M.of_agree fun s hs => hd₁ s (hs i (by omega))) (i + 1) _ (by omega) hw s hs,
      hd₁ s (hs i (by omega))]

end Mapping

theorem isInt_fileLength (h : FileHeader) : IsInt h.fileLength := by
  have h1 := BitVec.le_toInt h.numBytes
  have h2 := BitVec.toInt_lt (x := h.numBytes)
  unfold IsInt FileHeader.fileLength
  omega

/-- The sectors `a, …, b` are those that the bytes from `p` to `p + c` touch. -/
structure Span (p c a b : ℕ) : Prop where
  le : a ≤ b
  first_le : a * sectorSize ≤ p
  lt_first : p < (a + 1) * sectorSize
  last_lt : b * sectorSize < p + c
  le_last : p + c ≤ (b + 1) * sectorSize

theorem span_div {p c : ℕ} (hc : 0 < c) :
    Span p c (p / sectorSize) ((p + c - 1) / sectorSize) := by
  constructor <;> unfold sectorSize <;> omega

namespace Span
variable {p c a b : ℕ}

theorem last_lt_blocks (s : Span p c a b) {n : ℕ} (h : p + c ≤ n * sectorSize) : b < n :=
  Nat.lt_of_mul_lt_mul_right (Nat.lt_of_lt_of_le s.last_lt h)

theorem size (s : Span p c a b) : p - a * sectorSize + c ≤ (b - a + 1) * sectorSize := by
  have h1 := s.le
  have h2 := s.first_le
  have h3 := s.le_last
  unfold sectorSize at *
  omega

end Span

/-- The request of a transfer that moves something, after clipping. -/
structure Clipped (S : Support) (L p : ℕ) (numBytes : ℤ) (c a b : ℕ) : Prop where
  pos : 0 < c
  le : p + c ≤ L
  count : transferCount L p numBytes = c
  span : Span p c a b
  clip : (if (L : ℤ) < p + numBytes then cint (L - p) else pure numBytes) = .ok (c : ℤ)
  first : S.divRoundDown p sectorSize = a
  last : S.divRoundDown (p + c - 1) sectorSize = b

theorem clipped {S : Support} {L p : ℕ} {numBytes : ℤ} (hL : IsInt L)
    (h : ¬ (numBytes ≤ 0 ∨ (L : ℤ) ≤ p)) :
    ∃ c, Clipped S L p numBytes c (p / sectorSize) ((p + c - 1) / sectorSize) := by
  obtain ⟨h1,h2⟩ := not_or.mp h
  have hcpos : 0 < transferCount L p numBytes := by unfold transferCount; omega
  refine ⟨transferCount L p numBytes,hcpos,by unfold transferCount; omega,rfl,span_div hcpos,
    ?_,S.divRoundDown_natCast _ _ (by decide),?_⟩
  · unfold transferCount
    split_ifs with hlt
    · rw [cint_eq_ok (by unfold IsInt at *; omega)]
      congr 1
      omega
    · rw [Outcome.pure_eq]
      congr 1
      omega
  · rw [← S.divRoundDown_natCast _ _ (by decide)]
    congr 1
    omega

theorem transferCount_eq_zero {L p : ℕ} {numBytes : ℤ} (h : numBytes ≤ 0 ∨ (L : ℤ) ≤ p) :
    transferCount L p numBytes = 0 := by
  unfold transferCount
  omega

section ReadAt
variable {S : Support} {d : Disk} {f : OpenFile} {mode : ℤ} {n L : ℕ} {σ : ℕ → ℕ}

/-- `ReadAt` returns the bytes of the range, clipped at the file length. -/
theorem readAt_eq (M : Mapping d f.hdr mode n σ) (hL : f.hdr.fileLength = L)
    (hn : L ≤ n * sectorSize) (p : ℕ) (numBytes : ℤ) (hp : IsInt (p + numBytes)) :
    f.readAt S d numBytes p mode = .ok (transferCount L p numBytes,
      ((fileBytes d σ n L).drop p).take (transferCount L p numBytes)) := by
  have hint : IsInt L := hL ▸ isInt_fileLength f.hdr
  simp only [OpenFile.readAt, hL]
  by_cases h0 : numBytes ≤ 0 ∨ (L : ℤ) ≤ p
  · rw [if_pos h0, transferCount_eq_zero h0]
    simp
  · obtain ⟨c,hc⟩ := clipped (S := S) hint h0
    have hs := hc.span
    have hb := hs.last_lt_blocks (Nat.le_trans hc.le hn)
    generalize p / sectorSize = a at hc hs
    generalize (p + c - 1) / sectorSize = b at hc hs hb
    have hab := hs.le
    have hsize : (contents Sector.bytes d (fun k => σ (a + k)) (b - a + 1)).length =
        (b - a + 1) * sectorSize := length_contents Sector.length_bytes
    have hfit := hs.size
    have hfirst := hs.first_le
    have hread := M.readSectors_eq (b - a + 1) a (by omega)
    have hcount : (1 + (b : ℤ) - a).toNat = b - a + 1 := by omega
    simp only [if_neg h0, cint_eq_ok hp, Outcome.ok_bind, hc.clip, hc.first, hc.last, hcount,
      hread, hc.count]
    rw [copyOut, if_pos (by rw [hsize]; omega), Outcome.ok_bind, Outcome.pure_eq,
      contents_slice Sector.length_bytes (by decide) (show a + (b - a + 1) ≤ n by omega)]
    congr 2
    have htoNat : ((p : ℤ) - a * sectorSize).toNat = p - a * sectorSize := by omega
    rw [htoNat, Int.toNat_natCast, fileBytes, List.drop_take, List.drop_take, List.drop_drop,
      List.take_take, List.take_take]
    congr 1
    · have hle := hc.le
      omega
    · congr 1
      omega

theorem readAt_signed (M : Mapping d f.hdr mode n σ)
    (hn : f.hdr.fileLength.toNat ≤ n * sectorSize) (p : ℕ) (numBytes : ℤ)
    (hp : IsInt (p + numBytes)) :
    f.readAt S d numBytes p mode = .ok (transferCount f.hdr.fileLength.toNat p numBytes,
      ((fileBytes d σ n f.hdr.fileLength.toNat).drop p).take
        (transferCount f.hdr.fileLength.toNat p numBytes)) := by
  by_cases hneg : f.hdr.fileLength < 0
  · have hz : f.hdr.fileLength.toNat = 0 := by omega
    rw [hz, transferCount_eq_zero (.inr (by omega)), OpenFile.readAt, if_pos (.inr (by omega))]
    rfl
  · exact readAt_eq M (by omega) hn p numBytes hp

/-- Reading block `a + k` into a buffer that starts at block `a`. Of the buffer only
the cells of that block which lie inside the file change. -/
theorem readInto_eq (M : Mapping d f.hdr mode n σ) (hL : f.hdr.fileLength = L)
    (hn : L ≤ n * sectorSize) {a k count : ℕ} {buf : List Byte} (hk : k < count)
    (hbuf : buf.length = count * sectorSize) (hlt : (a + k) * sectorSize < L) :
    ∃ buf', f.readInto S d buf ((k : ℤ) * sectorSize) sectorSize
        (((a + k : ℕ) : ℤ) * sectorSize) mode = .ok buf' ∧ buf'.length = buf.length ∧
      ∀ y, buf'[y]? = if k * sectorSize ≤ y ∧ y < (k + 1) * sectorSize ∧ a * sectorSize + y < L
        then (fileBytes d σ n L)[a * sectorSize + y]? else buf[y]? := by
  have hint : IsInt L := hL ▸ isInt_fileLength f.hdr
  have hfl := length_fileBytes (d := d) (σ := σ) hn
  let c := transferCount L ((a + k) * sectorSize) sectorSize
  let piece := ((fileBytes d σ n L).drop ((a + k) * sectorSize)).take c
  have hc : c = min sectorSize (L - (a + k) * sectorSize) := rfl
  have hpiece : piece.length = c := by
    simp only [piece, List.length_take, List.length_drop, hfl]
    omega
  have hkc : (k + 1) * sectorSize ≤ count * sectorSize := Nat.mul_le_mul_right _ hk
  have hfit : k * sectorSize + piece.length ≤ buf.length := by
    rw [hpiece, hbuf]
    rw [Nat.succ_mul] at hkc
    omega
  have hblocks := M.blocks_le
  have hread := readAt_eq (S := S) M hL hn ((a + k) * sectorSize) sectorSize (by
    unfold IsInt
    unfold diskSectors sectorsPerTrack numTracks at hblocks
    unfold sectorSize at *
    omega)
  rw [Int.natCast_mul] at hread
  refine ⟨splice buf (k * sectorSize) piece,?_,length_splice hfit,?_⟩
  · have htoNat : ((k : ℤ) * sectorSize).toNat = k * sectorSize := by
      rw [← Int.natCast_mul, Int.toNat_natCast]
    simp only [OpenFile.readInto, hread, Outcome.ok_bind]
    rw [copyIn, htoNat, if_pos]
    rw [← Int.natCast_mul]
    exact ⟨Int.natCast_nonneg _,by exact_mod_cast hfit⟩
  · intro y
    rw [getElem?_splice hfit, hpiece]
    rw [Nat.add_mul] at hc hlt
    rw [Nat.succ_mul]
    have hiff : (k * sectorSize ≤ y ∧ y < k * sectorSize + c) ↔ (k * sectorSize ≤ y ∧
        y < k * sectorSize + sectorSize ∧ a * sectorSize + y < L) := by
      omega
    by_cases hy : k * sectorSize ≤ y ∧ y < k * sectorSize + c
    · rw [if_pos hy, if_pos (hiff.mp hy), List.getElem?_take_of_lt (by omega), List.getElem?_drop,
        Nat.add_mul]
      congr 1
      omega
    · rw [if_neg hy, if_neg (mt hiff.mpr hy)]

/-- After both sectors at the ends of the span have been read in where they are only
partly overwritten, every cell that will be kept holds the byte of the file. -/
theorem preload_eq (M : Mapping d f.hdr mode n σ) (hL : f.hdr.fileLength = L)
    (hn : L ≤ n * sectorSize) {p c a b : ℕ} (s : Span p c a b) (hpc : p + c ≤ L) {buf : List Byte}
    (hbuf : buf.length = (b - a + 1) * sectorSize) :
    ∃ buf₁ buf₂,
      (if !decide ((p : ℤ) = a * sectorSize) then
        f.readInto S d buf 0 sectorSize ((a : ℤ) * sectorSize) mode else pure buf) = .ok buf₁ ∧
      (if !decide ((p : ℤ) + c = (b + 1) * sectorSize) &&
          (decide ((a : ℤ) ≠ b) || decide ((p : ℤ) = a * sectorSize)) then
        f.readInto S d buf₁ (((b : ℤ) - a) * sectorSize) sectorSize ((b : ℤ) * sectorSize) mode
        else pure buf₁) = .ok buf₂ ∧ buf₂.length = buf.length ∧
      ∀ y < buf.length, a * sectorSize + y < L → (a * sectorSize + y < p ∨ p + c ≤ a * sectorSize + y) →
        buf₂[y]? = (fileBytes d σ n L)[a * sectorSize + y]? := by
  have hab := s.le
  have hfl := s.first_le
  have hlf := s.lt_first
  have hll := s.last_lt
  have hle := s.le_last
  rw [Nat.succ_mul] at hlf hle
  have hmono : a * sectorSize ≤ b * sectorSize := Nat.mul_le_mul_right _ hab
  have hlen : buf.length = b * sectorSize - a * sectorSize + sectorSize := by
    rw [hbuf, Nat.succ_mul, Nat.sub_mul]
  have hcast : ∀ i : ℕ, ((i * sectorSize : ℕ) : ℤ) = (i : ℤ) * sectorSize := fun i =>
    Int.natCast_mul i sectorSize
  -- the first sector is read in unless the request starts at its first byte
  obtain ⟨buf₁,h₁,hl₁,hg₁⟩ : ∃ buf₁,
      (if !decide ((p : ℤ) = a * sectorSize) then
        f.readInto S d buf 0 sectorSize ((a : ℤ) * sectorSize) mode else pure buf) = .ok buf₁ ∧
      buf₁.length = buf.length ∧ (p ≠ a * sectorSize → ∀ y < sectorSize, a * sectorSize + y < L →
        buf₁[y]? = (fileBytes d σ n L)[a * sectorSize + y]?) := by
    by_cases hp : p = a * sectorSize
    · refine ⟨buf,?_,rfl,fun h => absurd hp h⟩
      rw [if_neg (by simp [hp])]
      rfl
    · obtain ⟨buf₁,hr,hl,hg⟩ := readInto_eq (S := S) M hL hn (a := a) (k := 0) (Nat.succ_pos _)
        hbuf (by rw [Nat.add_zero]; omega)
      refine ⟨buf₁,?_,hl,fun _ y hy hyL => ?_⟩
      · rw [if_pos (by rw [← hcast]; simpa using mod_cast hp)]
        simpa using hr
      · rw [hg, if_pos (by omega)]
  refine ⟨buf₁,?_⟩
  -- the last sector, unless it has been read in or is overwritten to its end
  by_cases hc : p + c ≠ b * sectorSize + sectorSize ∧ (a ≠ b ∨ p = a * sectorSize)
  · obtain ⟨buf₂,hr,hl,hg⟩ := readInto_eq (S := S) M hL hn (a := a) (k := b - a)
      (Nat.lt_succ_self _) (hl₁.trans hbuf) (by rw [Nat.add_sub_of_le hab]; omega)
    rw [Nat.add_sub_of_le hab, Int.ofNat_sub hab] at hr
    refine ⟨buf₂,h₁,?_,hl.trans hl₁,fun y hy hyL hk => ?_⟩
    · rw [if_pos, hr]
      simp only [Bool.and_eq_true, Bool.or_eq_true, Bool.not_eq_true', decide_eq_false_iff_not,
        decide_eq_true_eq]
      rw [Int.add_mul, ← hcast, ← hcast]
      omega
    · rw [hg]
      rw [Nat.succ_mul, Nat.sub_mul]
      split_ifs with hin
      · rfl
      · have hyp : a * sectorSize + y < p := by omega
        exact hg₁ (by omega) y (by omega) hyL
  · refine ⟨buf₁,h₁,?_,hl₁,fun y hy hyL hk => ?_⟩
    · rw [if_neg]
      · rfl
      · simp only [Bool.and_eq_true, Bool.or_eq_true, Bool.not_eq_true', decide_eq_false_iff_not,
          decide_eq_true_eq]
        rw [Int.add_mul, ← hcast, ← hcast]
        omega
    · have hab' : a * sectorSize + y < p ∨ a = b := by
        by_contra hno
        apply hc
        omega
      have hpa : p ≠ a * sectorSize := by
        intro hp
        apply hc
        exact ⟨by omega,Or.inr hp⟩
      refine hg₁ hpa y ?_ hyL
      rcases hab' with h | rfl <;> omega

/-- `WriteAt` splices the clipped source into the bytes of the file and touches no
sector outside it. -/
theorem writeAt_eq (M : Mapping d f.hdr mode n σ) (hL : f.hdr.fileLength = L)
    (hn : L ≤ n * sectorSize) (chars : ℕ → Byte) (src : List Byte) (p : ℕ) (numBytes : ℤ)
    (hp : IsInt (p + numBytes)) (hsrc : transferCount L p numBytes ≤ src.length) :
    ∃ d' : Disk, f.writeAt S chars d src numBytes p mode =
        .ok ((transferCount L p numBytes : ℤ),d') ∧
      fileBytes d' σ n L =
        splice (fileBytes d σ n L) p (src.take (transferCount L p numBytes)) ∧
      ∀ s, (∀ k < n, s ≠ σ k) → d' s = d s := by
  have hint : IsInt L := hL ▸ isInt_fileLength f.hdr
  simp only [OpenFile.writeAt, hL]
  by_cases h0 : numBytes ≤ 0 ∨ (L : ℤ) ≤ p
  · refine ⟨d,?_,?_,fun _ _ => rfl⟩
    · rw [if_pos h0, transferCount_eq_zero h0]
      rfl
    · rw [transferCount_eq_zero h0, List.take_zero, splice_nil]
  · obtain ⟨c,hc⟩ := clipped (S := S) hint h0
    have hs := hc.span
    have hpc := hc.le
    have hb := hs.last_lt_blocks (Nat.le_trans hpc hn)
    rw [hc.count] at hsrc ⊢
    generalize p / sectorSize = a at hc hs
    generalize (p + c - 1) / sectorSize = b at hc hs hb
    have hab := hs.le
    have hfirst := hs.first_le
    have hfit := hs.size
    have hcount : (1 + (b : ℤ) - a).toNat = b - a + 1 := by omega
    let buf := newChars chars ((1 + (b : ℤ) - a) * sectorSize)
    have hbuf : buf.length = (b - a + 1) * sectorSize := by
      rw [length_newChars, ← hcount]
      unfold sectorSize
      omega
    obtain ⟨buf₁,buf₂,h₁,h₂,hl₂,hg₂⟩ := preload_eq (S := S) M hL hn hs hpc hbuf
    have htake : (src.take c).length = c := by rw [List.length_take]; omega
    have hfit₂ : p - a * sectorSize + (src.take c).length ≤ buf₂.length := by omega
    let buf₃ := splice buf₂ (p - a * sectorSize) (src.take c)
    have hl₃ : buf₃.length = (b - a + 1) * sectorSize := (length_splice hfit₂).trans (hl₂.trans hbuf)
    obtain ⟨d',hw,hin,hout⟩ := M.writeSectors_eq (b - a + 1) a buf₃ (by omega) hl₃
    refine ⟨d',?_,?_,fun s hs => hout s fun k hk => hs _ (by omega)⟩
    · have hsrc' : copyOut src 0 c = .ok (src.take c) := by
        rw [copyOut, if_pos (by omega)]
        rfl
      have hput : copyIn buf₂ ((p : ℤ) - a * sectorSize) (src.take c) = .ok buf₃ := by
        have htoNat : ((p : ℤ) - a * sectorSize).toNat = p - a * sectorSize := by omega
        rw [copyIn, if_pos (by omega), htoNat]
      simp only [if_neg h0, cint_eq_ok hp, Outcome.ok_bind, hc.clip, hc.first, hc.last]
      simp only [buf, Outcome.pure_eq] at h₁ h₂
      simp only [h₁, Outcome.ok_bind, h₂, hsrc', hput, hcount, hw, Outcome.pure_eq]
    · have hF : (contents Sector.bytes d σ n).length = n * sectorSize :=
        length_contents Sector.length_bytes
      have hstore := contents_store Sector.length_bytes (by decide)
        (show a + (b - a + 1) ≤ n by omega) hl₃ hin
        (d := d) (fun k hk ho => hout (σ k) fun l hl he => by
          have := M.injective _ hk _ (by omega) he
          omega)
      have hn' : (a + (b - a + 1)) * sectorSize ≤ n * sectorSize :=
        Nat.mul_le_mul_right _ (by omega)
      rw [Nat.add_mul] at hn'
      have hfl := length_fileBytes (d := d) (σ := σ) hn
      apply List.ext_getElem?
      intro x
      rw [getElem?_splice (by omega), htake, fileBytes, hstore, List.getElem?_take,
        getElem?_splice (by omega), hl₃]
      have hold : x < L → (contents Sector.bytes d σ n)[x]? = (fileBytes d σ n L)[x]? :=
        fun hx => by rw [fileBytes, List.getElem?_take_of_lt hx]
      by_cases hx : x < L
      · rw [if_pos hx]
        by_cases hr : a * sectorSize ≤ x ∧ x < a * sectorSize + (b - a + 1) * sectorSize
        · rw [if_pos hr, getElem?_splice hfit₂, htake]
          by_cases hk : p ≤ x ∧ x < p + c
          · rw [if_pos hk, if_pos (by omega)]
            congr 1
            omega
          · rw [if_neg hk, if_neg (by omega), hg₂ _ (by omega) (by omega) (by omega)]
            congr 1
            omega
        · rw [if_neg hr, hold hx, if_neg (by omega)]
      · rw [if_neg hx, if_neg (by omega), List.getElem?_eq_none (by omega)]

theorem writeAt_signed (M : Mapping d f.hdr mode n σ)
    (hn : f.hdr.fileLength.toNat ≤ n * sectorSize) (chars : ℕ → Byte) (src : List Byte) (p : ℕ)
    (numBytes : ℤ) (hp : IsInt (p + numBytes))
    (hsrc : transferCount f.hdr.fileLength.toNat p numBytes ≤ src.length) :
    ∃ d' : Disk, f.writeAt S chars d src numBytes p mode =
        .ok ((transferCount f.hdr.fileLength.toNat p numBytes : ℤ),d') ∧
      fileBytes d' σ n f.hdr.fileLength.toNat = splice (fileBytes d σ n f.hdr.fileLength.toNat) p
        (src.take (transferCount f.hdr.fileLength.toNat p numBytes)) ∧
      ∀ s, (∀ k < n, s ≠ σ k) → d' s = d s := by
  by_cases hneg : f.hdr.fileLength < 0
  · have hz : f.hdr.fileLength.toNat = 0 := by omega
    rw [hz, transferCount_eq_zero (.inr (by omega)), OpenFile.writeAt, if_pos (.inr (by omega))]
    refine ⟨d,rfl,?_,fun _ _ => rfl⟩
    rw [List.take_zero, splice_nil]
  · exact writeAt_eq M (by omega) hn chars src p numBytes hp hsrc

end ReadAt

section Frames
variable {S : Support} {d d' : Disk} {f : OpenFile} {mode r : ℤ} {n : ℕ} {σ : ℕ → ℕ}

theorem clipped_hdr {p : ℕ} {numBytes : ℤ} (h : ¬ (numBytes ≤ 0 ∨ f.hdr.fileLength ≤ p)) :
    ∃ L c : ℕ, f.hdr.fileLength = L ∧
      Clipped S L p numBytes c (p / sectorSize) ((p + c - 1) / sectorSize) := by
  obtain ⟨L,hL⟩ := Int.eq_ofNat_of_zero_le (show 0 ≤ f.hdr.fileLength by omega)
  rw [hL] at h
  obtain ⟨c,hc⟩ := clipped (S := S) (hL ▸ isInt_fileLength f.hdr) h
  exact ⟨L,c,hL,hc⟩

theorem readAt_nonneg {p : ℕ} {numBytes : ℤ} {bytes : List Byte}
    (hr : f.readAt S d numBytes p mode = .ok (r,bytes)) : 0 ≤ r := by
  simp only [OpenFile.readAt] at hr
  by_cases h0 : numBytes ≤ 0 ∨ f.hdr.fileLength ≤ p
  · rw [if_pos h0] at hr
    cases hr
    exact le_rfl
  obtain ⟨L,c,hL,hc⟩ := clipped_hdr (S := S) h0
  rw [if_neg h0, hL] at hr
  obtain ⟨last,hlast,hr⟩ := Outcome.bind_eq_ok.mp hr
  obtain rfl := eq_of_cint hlast
  simp only [hc.clip, Outcome.ok_bind] at hr
  obtain ⟨buf,-,hr⟩ := Outcome.bind_eq_ok.mp hr
  obtain ⟨into,-,hr⟩ := Outcome.bind_eq_ok.mp hr
  cases hr
  exact Int.natCast_nonneg c

/-- Whatever a write through a handle does, it changes no sector but those of the handle's
blocks. -/
theorem writeAt_frame (M : Mapping d f.hdr mode n σ) (hn : f.hdr.fileLength ≤ n * sectorSize)
    {chars : ℕ → Byte} {src : List Byte} {p : ℕ} {numBytes : ℤ}
    (hw : f.writeAt S chars d src numBytes p mode = .ok (r,d')) :
    0 ≤ r ∧ ∀ s, (∀ k < n, s ≠ σ k) → d' s = d s := by
  simp only [OpenFile.writeAt] at hw
  by_cases h0 : numBytes ≤ 0 ∨ f.hdr.fileLength ≤ p
  · rw [if_pos h0] at hw
    cases hw
    exact ⟨le_rfl,fun _ _ => rfl⟩
  obtain ⟨L,c,hL,hc⟩ := clipped_hdr (S := S) h0
  rw [hL] at hn
  have hb := hc.span.last_lt_blocks (n := n) (Nat.le_trans hc.le (by exact_mod_cast hn))
  have hab := hc.span.le
  rw [if_neg h0, hL] at hw
  obtain ⟨last,hlast,hw⟩ := Outcome.bind_eq_ok.mp hw
  obtain rfl := eq_of_cint hlast
  simp only [hc.clip, Outcome.ok_bind, hc.first, hc.last] at hw
  obtain ⟨buf,-,hw⟩ := Outcome.bind_eq_ok.mp hw
  obtain ⟨buf',-,hw⟩ := Outcome.bind_eq_ok.mp hw
  obtain ⟨bytes,-,hw⟩ := Outcome.bind_eq_ok.mp hw
  obtain ⟨buf'',-,hw⟩ := Outcome.bind_eq_ok.mp hw
  obtain ⟨d₁,hsectors,hw⟩ := Outcome.bind_eq_ok.mp hw
  cases hw
  refine ⟨Int.natCast_nonneg c,M.writeSectors_frame _ _ _ ?_ hsectors⟩
  omega

end Frames

end Nachos
