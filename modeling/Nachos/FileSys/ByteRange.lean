import Nachos.FileSys.Transfer
import Nachos.FileSys.FirstFit
import Nachos.Library.Interaction

/-! # The arithmetic of byte ranges

`ReadAt` and `WriteAt` once more, as programs in which every `int` operation, every
access to the temporary buffer and every offset that `ByteToSector` is asked for
shows. What `ByteToSector` and the disk answer is left open.
-/
namespace Nachos

/-- What `new char[size]` allocates. -/
abbrev CharArray (size : ℤ) := { bytes : List Byte // bytes.length = size.toNat }

instance (size : ℤ) : Nonempty (CharArray size) :=
  ⟨List.replicate size.toNat 0,List.length_replicate⟩

inductive RangeOp where
  /-- The value of an `int` operation. -/
  | int (v : ℤ)
  | newChars (size : ℤ)
  /-- `bcopy` of `len` bytes out of the buffer. -/
  | copyOut (size : ℤ) (buf : CharArray size) (off len : ℤ)
  /-- `bcopy` of `len` bytes into the buffer. -/
  | copyIn (size : ℤ) (buf : CharArray size) (off len : ℤ) (src : List Byte)
  | byteToSector (offset mode : ℤ)
  | readSector (sector : ℤ)
  | writeSector (sector : ℤ) (data : List Byte)

def RangeOp.Resp : RangeOp → Type
  | int _ => Unit
  | newChars size => CharArray size
  | copyOut _ _ _ _ => List Byte
  | copyIn size _ _ _ _ => CharArray size
  | byteToSector _ _ => ℤ
  | readSector _ => List Byte
  | writeSector _ _ => Unit

abbrev RangeProg := Prog RangeOp RangeOp.Resp

namespace ByteRange
open Prog

def int (v : ℤ) : RangeProg ℤ := do
  perform (RangeOp.int v)
  return v

def newChars (size : ℤ) : RangeProg (CharArray size) := perform (RangeOp.newChars size)

def copyOut {size : ℤ} (buf : CharArray size) (off len : ℤ) : RangeProg (List Byte) :=
  perform (RangeOp.copyOut size buf off len)

def copyIn {size : ℤ} (buf : CharArray size) (off len : ℤ) (src : List Byte) :
    RangeProg (CharArray size) := perform (RangeOp.copyIn size buf off len src)

def byteToSector (offset mode : ℤ) : RangeProg ℤ := perform (RangeOp.byteToSector offset mode)

def readSector (sector : ℤ) : RangeProg (List Byte) := perform (RangeOp.readSector sector)

def writeSector (sector : ℤ) (data : List Byte) : RangeProg Unit :=
  perform (RangeOp.writeSector sector data)

/-- The reading loop, from sector `i` on. -/
def readSectors {size : ℤ} (firstSector mode : ℤ) :
    ℕ → ℤ → CharArray size → RangeProg (CharArray size)
  | 0, _, buf => return buf
  | count + 1, i, buf => do
    let s ← byteToSector (← int (i * sectorSize)) mode
    let data ← readSector s
    let off ← int ((← int (i - firstSector)) * sectorSize)
    let buf ← copyIn buf off sectorSize data
    readSectors firstSector mode count (← int (i + 1)) buf

/-- The writing loop, from sector `i` on. -/
def writeSectors {size : ℤ} (firstSector mode : ℤ) :
    ℕ → ℤ → CharArray size → RangeProg Unit
  | 0, _, _ => return ()
  | count + 1, i, buf => do
    let s ← byteToSector (← int (i * sectorSize)) mode
    let off ← int ((← int (i - firstSector)) * sectorSize)
    let data ← copyOut buf off sectorSize
    writeSector s data
    writeSectors firstSector mode count (← int (i + 1)) buf

def readAt (S : Support) (hdr : FileHeader) (numBytes position mode : ℤ) :
    RangeProg (ℤ × List Byte) := do
  let fileLength := hdr.fileLength
  if numBytes ≤ 0 ∨ fileLength ≤ position then return (0,[])
  let last ← int (position + numBytes)
  let numBytes ← (if fileLength < last then int (fileLength - position) else pure numBytes)
  let firstSector := S.divRoundDown position sectorSize
  let lastSector := S.divRoundDown (← int ((← int (position + numBytes)) - 1)) sectorSize
  let numSectors ← int ((← int (1 + lastSector)) - firstSector)
  let buf ← newChars (← int (numSectors * sectorSize))
  let buf ← readSectors firstSector mode (lastSector - firstSector + 1).toNat firstSector buf
  let into ← copyOut buf (← int (position - (← int (firstSector * sectorSize)))) numBytes
  return (numBytes,into)

def writeAt (S : Support) (hdr : FileHeader) (src : List Byte) (numBytes position mode : ℤ) :
    RangeProg ℤ := do
  let fileLength := hdr.fileLength
  if numBytes ≤ 0 ∨ fileLength ≤ position then return 0
  let last ← int (position + numBytes)
  let numBytes ← (if fileLength < last then int (fileLength - position) else pure numBytes)
  let firstSector := S.divRoundDown position sectorSize
  let lastSector := S.divRoundDown (← int ((← int (position + numBytes)) - 1)) sectorSize
  let numSectors ← int ((← int (1 + lastSector)) - firstSector)
  let buf ← newChars (← int (numSectors * sectorSize))
  let firstStart ← int (firstSector * sectorSize)
  let firstAligned : Bool := position = firstStart
  let last ← int (position + numBytes)
  let lastEnd ← int ((← int (lastSector + 1)) * sectorSize)
  let lastAligned : Bool := last = lastEnd
  let buf ← (if !firstAligned then do
      let r ← readAt S hdr sectorSize (← int (firstSector * sectorSize)) mode
      copyIn buf 0 r.1 r.2
    else pure buf)
  let buf ← (if !lastAligned && (firstSector ≠ lastSector || firstAligned) then do
      let off ← int ((← int (lastSector - firstSector)) * sectorSize)
      let r ← readAt S hdr sectorSize (← int (lastSector * sectorSize)) mode
      copyIn buf off r.1 r.2
    else pure buf)
  let buf ← copyIn buf (← int (position - (← int (firstSector * sectorSize)))) numBytes src
  writeSectors firstSector mode (lastSector - firstSector + 1).toNat firstSector buf
  return numBytes

def read (S : Support) (f : OpenFile) (numBytes : ℤ) : RangeProg (ℤ × List Byte × OpenFile) := do
  let (result,into) ← readAt S f.hdr numBytes f.seekPosition 1
  return (result,into,f.seek (← int (f.seekPosition + result)))

def write (S : Support) (f : OpenFile) (src : List Byte) (numBytes : ℤ) :
    RangeProg (ℤ × OpenFile) := do
  let result ← writeAt S f.hdr src numBytes f.seekPosition 1
  return (result,f.seek (← int (f.seekPosition + result)))

/-- No overflow, no access outside the buffer, and no offset outside the file. -/
def inRange (fileLength : ℤ) : Contract RangeOp RangeOp.Resp Unit where
  pre op _ := match op with
    | .int v => IsInt v
    | .copyOut size _ off len | .copyIn size _ off len _ =>
      0 ≤ off ∧ off + len ≤ size
    | .byteToSector offset _ => 0 ≤ offset ∧ offset < fileLength
    | _ => True
  post _ _ _ _ := True

section Sat
variable {L size : ℤ} {α : Type} {s : Unit}

@[simp] theorem sat_int {v : ℤ} {Q : ℤ → Unit → Prop} :
    (int v).Sat (inRange L) Q s ↔ IsInt v ∧ Q v s :=
  ⟨fun h => ⟨h.1,h.2 () s trivial⟩,fun h => ⟨h.1,fun _ _ _ => h.2⟩⟩

@[simp] theorem sat_newChars {Q : CharArray size → Unit → Prop} :
    (newChars size).Sat (inRange L) Q s ↔ ∀ buf, Q buf s :=
  ⟨fun h buf => h.2 buf s trivial,fun h => ⟨trivial,fun buf _ _ => h buf⟩⟩

@[simp] theorem sat_copyOut {buf : CharArray size} {off len : ℤ} {Q : List Byte → Unit → Prop} :
    (copyOut buf off len).Sat (inRange L) Q s ↔
      (0 ≤ off ∧ off + len ≤ size) ∧ ∀ bytes, Q bytes s :=
  ⟨fun h => ⟨h.1,fun bytes => h.2 bytes s trivial⟩,fun h => ⟨h.1,fun bytes _ _ => h.2 bytes⟩⟩

@[simp] theorem sat_copyIn {buf : CharArray size} {off len : ℤ} {src : List Byte}
    {Q : CharArray size → Unit → Prop} :
    (copyIn buf off len src).Sat (inRange L) Q s ↔
      (0 ≤ off ∧ off + len ≤ size) ∧ ∀ buf, Q buf s :=
  ⟨fun h => ⟨h.1,fun buf => h.2 buf s trivial⟩,fun h => ⟨h.1,fun buf _ _ => h.2 buf⟩⟩

@[simp] theorem sat_byteToSector {offset mode : ℤ} {Q : ℤ → Unit → Prop} :
    (byteToSector offset mode).Sat (inRange L) Q s ↔
      (0 ≤ offset ∧ offset < L) ∧ ∀ sector, Q sector s :=
  ⟨fun h => ⟨h.1,fun n => h.2 n s trivial⟩,fun h => ⟨h.1,fun n _ _ => h.2 n⟩⟩

@[simp] theorem sat_readSector {sector : ℤ} {Q : List Byte → Unit → Prop} :
    (readSector sector).Sat (inRange L) Q s ↔ ∀ data, Q data s :=
  ⟨fun h data => h.2 data s trivial,fun h => ⟨trivial,fun data _ _ => h data⟩⟩

@[simp] theorem sat_writeSector {sector : ℤ} {data : List Byte} {Q : Unit → Unit → Prop} :
    (writeSector sector data).Sat (inRange L) Q s ↔ Q () s :=
  ⟨fun h => h.2 () s trivial,fun h => ⟨trivial,fun _ _ _ => h⟩⟩

/-- What one round of a loop over the sectors computes and touches. -/
structure RoundOk (L first size i : ℤ) : Prop where
  offset : IsInt (i * sectorSize)
  inside : 0 ≤ i * sectorSize ∧ i * sectorSize < L
  index : IsInt (i - first)
  place : IsInt ((i - first) * sectorSize)
  fits : 0 ≤ (i - first) * sectorSize ∧ (i - first) * sectorSize + sectorSize ≤ size
  next : IsInt (i + 1)

theorem roundOk_succ {first : ℤ} {count : ℕ} {i : ℤ} :
    (∀ k < count + 1, RoundOk L first size (i + (k : ℕ))) ↔
      RoundOk L first size i ∧ ∀ k < count, RoundOk L first size (i + 1 + (k : ℕ)) := by
  constructor
  · intro h
    refine ⟨by simpa using h 0 (Nat.succ_pos count),?_⟩
    intro k hk
    have := h (k + 1) (Nat.succ_lt_succ hk)
    rwa [show i + ((k + 1 : ℕ) : ℤ) = i + 1 + (k : ℕ) by omega] at this
  · rintro ⟨h0,h⟩ k hk
    cases k with
    | zero => simpa using h0
    | succ k =>
      have := h k (Nat.lt_of_succ_lt_succ hk)
      rwa [show i + ((k + 1 : ℕ) : ℤ) = i + 1 + (k : ℕ) by omega]

theorem sat_readSectors {first mode : ℤ} {q : Prop} {count : ℕ} {i : ℤ} {buf : CharArray size} :
    (readSectors first mode count i buf).Sat (inRange L) (fun _ _ => q) s ↔
      (∀ k < count, RoundOk L first size (i + (k : ℕ))) ∧ q := by
  induction count generalizing i buf with
  | zero => simp [readSectors, Prog.Sat]
  | succ count ih =>
    rw [roundOk_succ]
    simp only [readSectors, sat_bind, sat_int, sat_byteToSector, sat_readSector, sat_copyIn, ih,
      forall_const]
    constructor
    · rintro ⟨h1,h2,h3,h4,h5,h6,h7,h8⟩
      exact ⟨⟨⟨h1,h2,h3,h4,h5,h6⟩,h7⟩,h8⟩
    · rintro ⟨⟨⟨h1,h2,h3,h4,h5,h6⟩,h7⟩,h8⟩
      exact ⟨h1,h2,h3,h4,h5,h6,h7,h8⟩

theorem sat_writeSectors {first mode : ℤ} {q : Prop} {count : ℕ} {i : ℤ} {buf : CharArray size} :
    (writeSectors first mode count i buf).Sat (inRange L) (fun _ _ => q) s ↔
      (∀ k < count, RoundOk L first size (i + (k : ℕ))) ∧ q := by
  induction count generalizing i buf with
  | zero => simp [writeSectors, Prog.Sat]
  | succ count ih =>
    rw [roundOk_succ]
    simp only [writeSectors, sat_bind, sat_int, sat_byteToSector, sat_writeSector, sat_copyOut, ih,
      forall_const]
    constructor
    · rintro ⟨h1,h2,h3,h4,h5,h6,h7,h8⟩
      exact ⟨⟨⟨h1,h2,h3,h4,h5,h6⟩,h7⟩,h8⟩
    · rintro ⟨⟨⟨h1,h2,h3,h4,h5,h6⟩,h7⟩,h8⟩
      exact ⟨h1,h2,h3,h4,h5,h6,h7,h8⟩

end Sat

/-- The bytes that a transfer of `n` bytes from `p` on moves. -/
def moved (L n p : ℤ) : ℤ := if L < p + n then L - p else n

section ReadAt
variable {S : Support} {hdr : FileHeader} {mode n p : ℤ} {s : Unit}

def firstOf (S : Support) (p : ℤ) : ℤ := S.divRoundDown p sectorSize

def lastOf (S : Support) (c p : ℤ) : ℤ := S.divRoundDown (p + c - 1) sectorSize

/-- What a transfer of `n` bytes, clipped to `c`, computes before it has its buffer. -/
structure PlanOk (S : Support) (L n c p : ℤ) : Prop where
  sum : IsInt (p + n)
  clip : L < p + n → IsInt (L - p)
  stop : IsInt (p + c)
  last : IsInt (p + c - 1)
  behind : IsInt (1 + lastOf S c p)
  count : IsInt (1 + lastOf S c p - firstOf S p)
  size : IsInt ((1 + lastOf S c p - firstOf S p) * sectorSize)

def LoopOk (S : Support) (L c p : ℤ) : Prop :=
  ∀ k < (lastOf S c p - firstOf S p + 1).toNat, RoundOk L (firstOf S p)
    ((1 + lastOf S c p - firstOf S p) * sectorSize) (firstOf S p + (k : ℕ))

structure CopyOk (S : Support) (c p : ℤ) : Prop where
  start : IsInt (firstOf S p * sectorSize)
  offset : IsInt (p - firstOf S p * sectorSize)
  nonneg : 0 ≤ p - firstOf S p * sectorSize
  fits : p - firstOf S p * sectorSize + c ≤ (1 + lastOf S c p - firstOf S p) * sectorSize

structure ReadOk (S : Support) (L n p : ℤ) : Prop where
  plan : PlanOk S L n (moved L n p) p
  loop : LoopOk S L (moved L n p) p
  copy : CopyOk S (moved L n p) p

theorem sat_clip {L : ℤ} {Q : ℤ → Unit → Prop} :
    (if L < p + n then int (L - p) else ret n).Sat (inRange L) Q s ↔
      (L < p + n → IsInt (L - p)) ∧ Q (moved L n p) s := by
  rw [moved]
  split_ifs with h
  · simp [h]
  · simp [h, Prog.Sat]

theorem sat_readAt {q : ℤ → Prop} :
    (readAt S hdr n p mode).Sat (inRange hdr.fileLength) (fun r _ => q r.1) s ↔
      if n ≤ 0 ∨ hdr.fileLength ≤ p then q 0
      else ReadOk S hdr.fileLength n p ∧ q (moved hdr.fileLength n p) := by
  unfold readAt
  by_cases h0 : n ≤ 0 ∨ hdr.fileLength ≤ p
  · simp only [if_pos h0]
    exact Iff.rfl
  · simp only [if_neg h0, sat_bind, sat_int, pure_eq, sat_clip, sat_newChars, sat_copyOut,
      Prog.Sat, forall_const, sat_readSectors]
    constructor
    · rintro ⟨h1,h2,h3,h4,h5,h6,h7,h8,h9,h10,h11,h12⟩
      exact ⟨⟨⟨h1,h2,h3,h4,h5,h6,h7⟩,h8,h9,h10,h11.1,h11.2⟩,h12⟩
    · rintro ⟨⟨⟨h1,h2,h3,h4,h5,h6,h7⟩,h8,⟨h9,h10,h11,h12⟩⟩,h13⟩
      exact ⟨h1,h2,h3,h4,h5,h6,h7,h8,h9,h10,⟨h11,h12⟩,h13⟩

end ReadAt

section WriteAt
variable {S : Support} {hdr : FileHeader} {mode n p : ℤ} {src : List Byte} {s : Unit}

def ReadInOk (S : Support) (L size off start : ℤ) : Prop :=
  IsInt start ∧ if L ≤ start then 0 ≤ off ∧ off ≤ size
    else ReadOk S L sectorSize start ∧ 0 ≤ off ∧ off + moved L sectorSize start ≤ size

/-- What `WriteAt` computes and touches for the sectors that it overwrites in part. -/
structure EdgesOk (S : Support) (L c p : ℤ) : Prop where
  start : IsInt (firstOf S p * sectorSize)
  stop : IsInt (p + c)
  after : IsInt (lastOf S c p + 1)
  behind : IsInt ((lastOf S c p + 1) * sectorSize)
  head : p ≠ firstOf S p * sectorSize → ReadInOk S L
    ((1 + lastOf S c p - firstOf S p) * sectorSize) 0 (firstOf S p * sectorSize)
  tail : p + c ≠ (lastOf S c p + 1) * sectorSize →
    firstOf S p ≠ lastOf S c p ∨ p = firstOf S p * sectorSize →
    IsInt (lastOf S c p - firstOf S p) ∧ IsInt ((lastOf S c p - firstOf S p) * sectorSize) ∧
    ReadInOk S L ((1 + lastOf S c p - firstOf S p) * sectorSize)
      ((lastOf S c p - firstOf S p) * sectorSize) (lastOf S c p * sectorSize)

structure WriteOk (S : Support) (L n p : ℤ) : Prop where
  plan : PlanOk S L n (moved L n p) p
  edges : EdgesOk S L (moved L n p) p
  copy : CopyOk S (moved L n p) p
  loop : LoopOk S L (moved L n p) p

theorem sat_readIn {size off start : ℤ} {buf : CharArray size} {q : Prop} :
    (do let r ← readAt S hdr sectorSize (← int start) mode
        copyIn buf off r.1 r.2 : RangeProg (CharArray size)).Sat (inRange hdr.fileLength)
      (fun _ _ => q) s ↔ ReadInOk S hdr.fileLength size off start ∧ q := by
  have hread : ∀ {s : Unit}, (readAt S hdr sectorSize start mode).Sat (inRange hdr.fileLength)
      (fun r _ => (0 ≤ off ∧ off + r.1 ≤ size) ∧ q) s ↔ _ :=
    sat_readAt (q := fun r => (0 ≤ off ∧ off + r ≤ size) ∧ q)
  simp only [sat_bind, sat_int, sat_copyIn, forall_const, hread, ReadInOk]
  have h0 : ¬ ((sectorSize : ℤ) ≤ 0) := by decide
  simp only [h0, false_or]
  split_ifs
  · simp [and_assoc]
  · simp [and_assoc]

theorem sat_head {size start : ℤ} {c : Prop} [Decidable c] {buf : CharArray size} {q : Prop} :
    (if c then do
        let r ← readAt S hdr sectorSize (← int start) mode
        copyIn buf 0 r.1 r.2
      else ret buf).Sat (inRange hdr.fileLength) (fun _ _ => q) s ↔
      (c → ReadInOk S hdr.fileLength size 0 start) ∧ q := by
  split_ifs with h
  · simpa [h] using sat_readIn
  · simp [h, Prog.Sat]

theorem sat_tail {size first last : ℤ} {c : Prop} [Decidable c] {buf : CharArray size} {q : Prop} :
    (if c then do
        let off ← int ((← int (last - first)) * sectorSize)
        let r ← readAt S hdr sectorSize (← int (last * sectorSize)) mode
        copyIn buf off r.1 r.2
      else ret buf).Sat (inRange hdr.fileLength) (fun _ _ => q) s ↔
      (c → IsInt (last - first) ∧ IsInt ((last - first) * sectorSize) ∧
        ReadInOk S hdr.fileLength size ((last - first) * sectorSize) (last * sectorSize)) ∧ q := by
  split_ifs with h
  · rw [sat_bind, sat_int, sat_bind, sat_int, sat_readIn]
    simp [h, and_assoc]
  · simp [h, Prog.Sat]

theorem sat_writeAt {q : ℤ → Prop} :
    (writeAt S hdr src n p mode).Sat (inRange hdr.fileLength) (fun r _ => q r) s ↔
      if n ≤ 0 ∨ hdr.fileLength ≤ p then q 0
      else WriteOk S hdr.fileLength n p ∧ q (moved hdr.fileLength n p) := by
  unfold writeAt
  by_cases h0 : n ≤ 0 ∨ hdr.fileLength ≤ p
  · simp only [if_pos h0]
    exact Iff.rfl
  · simp only [if_neg h0]
    simp only [sat_bind, sat_int, pure_eq, sat_clip, sat_newChars, sat_copyIn, sat_writeSectors,
      sat_head, sat_tail, Prog.Sat, forall_const]
    constructor
    · rintro ⟨h1,h2,h3,h4,h5,h6,h7,h8,h9,h10,h11,h12,h13,-,h15,h16,h17,h18⟩
      refine ⟨⟨⟨h1,h2,h3,h4,h5,h6,h7⟩,⟨h8,h9,h10,h11,?_,?_⟩,⟨h8,h15,h16.1,h16.2⟩,h17⟩,h18⟩
      · intro h
        exact h12 (by simpa [firstOf] using h)
      · intro h h'
        exact h13 (by simpa using ⟨h,h'⟩)
    · rintro ⟨⟨⟨h1,h2,h3,h4,h5,h6,h7⟩,⟨h8,h9,h10,h11,h12,h13⟩,⟨-,h15,h16,h17⟩,h18⟩,h19⟩
      refine ⟨h1,h2,h3,h4,h5,h6,h7,h8,h9,h10,h11,?_,?_,h8,h15,⟨h16,h17⟩,h18,h19⟩
      · intro h
        exact h12 (by simpa [firstOf] using h)
      · intro h
        rw [Bool.and_eq_true] at h
        exact h13 (by simpa [lastOf] using h.1) (by simpa [firstOf, lastOf] using h.2)

end WriteAt

section Arithmetic
variable {S : Support} {L n p : ℤ}

theorem moved_eq (L n p : ℤ) : p + moved L n p = min (p + n) L := by
  unfold moved
  split_ifs <;> omega

theorem LoopOk.nonneg {c : ℤ} (h : LoopOk S L c p) (hc : CopyOk S c p) (hpos : 0 < c) :
    0 ≤ p := by
  have hoff := hc.nonneg
  have hfits := hc.fits
  unfold sectorSize at hoff hfits
  by_cases hrun : 0 < (lastOf S c p - firstOf S p + 1).toNat
  · have hfirst := (h 0 hrun).inside.1
    unfold sectorSize at hfirst
    omega
  · omega

theorem sectors_eq {c : ℤ} (hp : 0 ≤ p) (hc : 0 < c) :
    firstOf S p = p / 128 ∧ lastOf S c p = (p + c - 1) / 128 :=
  ⟨S.divRoundDown_eq _ _ hp (by decide),S.divRoundDown_eq _ _ (by omega) (by decide)⟩

theorem roundOk {c i first last : ℤ} (hL : IsInt L) (hcL : p + c ≤ L) (h0 : 0 ≤ first)
    (hi : first ≤ i) (hil : i ≤ last) (hlast : last * 128 ≤ p + c - 1) :
    RoundOk L first ((1 + last - first) * sectorSize) i := by
  obtain ⟨-,hL⟩ := hL
  have h128 : (sectorSize : ℤ) = 128 := rfl
  have hoffset : i * (sectorSize : ℤ) = i * 128 := rfl
  have hplace : (i - first) * (sectorSize : ℤ) = (i - first) * 128 := rfl
  have hsize : (1 + last - first) * (sectorSize : ℤ) = (1 + last - first) * 128 := rfl
  exact ⟨⟨by omega,by omega⟩,⟨by omega,by omega⟩,⟨by omega,by omega⟩,⟨by omega,by omega⟩,
    ⟨by omega,by omega⟩,by omega,by omega⟩

theorem loopOk {c : ℤ} (hp : 0 ≤ p) (hc : 0 < c) (hL : IsInt L) (hcL : p + c ≤ L) :
    LoopOk S L c p := by
  obtain ⟨hfirst,hlast⟩ := sectors_eq (S := S) hp hc
  intro k hk
  exact roundOk hL hcL (by omega) (by omega) (by omega) (by omega)

theorem copyOk {c : ℤ} (hp : 0 ≤ p) (hc : 0 < c) (hpi : IsInt p) : CopyOk S c p := by
  obtain ⟨hfirst,hlast⟩ := sectors_eq (S := S) hp hc
  obtain ⟨-,hpi⟩ := hpi
  constructor
  · exact ⟨by unfold sectorSize; omega,by unfold sectorSize; omega⟩
  · exact ⟨by unfold sectorSize; omega,by unfold sectorSize; omega⟩
  · unfold sectorSize
    omega
  · unfold sectorSize
    omega

theorem planOk {c : ℤ} (hp : 0 ≤ p) (hc : 0 < c) (hL : IsInt L) (hn : IsInt (p + n))
    (hcL : p + c ≤ L) (hsize : 128 ≤ p ∨ p + c ≤ 2 ^ 31 - 128) : PlanOk S L n c p := by
  obtain ⟨hfirst,hlast⟩ := sectors_eq (S := S) hp hc
  obtain ⟨-,hL⟩ := hL
  refine ⟨hn,fun _ => ⟨by omega,by omega⟩,⟨by omega,by omega⟩,⟨by omega,by omega⟩,
    ⟨by omega,by omega⟩,⟨by omega,by omega⟩,?_⟩
  unfold sectorSize
  exact ⟨by omega,by omega⟩

theorem PlanOk.size_le {c : ℤ} (h : PlanOk S L n c p) (hp : 0 ≤ p) (hc : 0 < c) :
    128 ≤ p ∨ p + c ≤ 2 ^ 31 - 128 := by
  obtain ⟨hfirst,hlast⟩ := sectors_eq (S := S) hp hc
  obtain ⟨-,hsize⟩ := h.size
  unfold sectorSize at hsize
  omega

theorem readOk_iff (hL : IsInt L) (hn : 0 < n) (hp : IsInt p) (hpL : p < L) :
    ReadOk S L n p ↔
      0 ≤ p ∧ p + n < 2 ^ 31 ∧ (128 ≤ p ∨ min (p + n) L ≤ 2 ^ 31 - 128) := by
  have hc : 0 < moved L n p := by
    unfold moved
    split_ifs <;> omega
  have hcL := moved_eq L n p
  constructor
  · intro h
    have h0 := h.loop.nonneg h.copy hc
    have hsize := h.plan.size_le h0 hc
    exact ⟨h0,h.plan.sum.2,by omega⟩
  · rintro ⟨h0,hsum,hsize⟩
    exact ⟨planOk h0 hc hL ⟨by omega,hsum⟩ (by omega) (by omega),loopOk h0 hc hL (by omega),
      copyOk h0 hc hp⟩

theorem readInOk {size off start : ℤ} (hL : IsInt L) (h0 : 0 ≤ start) (hs : start < L)
    (hstart : start + 128 ≤ 2 ^ 31 - 128) (hoff : 0 ≤ off) (hsize : off + 128 ≤ size) :
    ReadInOk S L size off start := by
  have hint : IsInt start := ⟨by omega,by omega⟩
  have hmoved := moved_eq L sectorSize start
  refine ⟨hint,?_⟩
  rw [if_neg (by omega)]
  unfold sectorSize at hmoved ⊢
  refine ⟨(readOk_iff hL (by decide) hint hs).mpr ⟨h0,by omega,?_⟩,hoff,by omega⟩
  omega

theorem writeOk_iff (hL : IsInt L) (hn : 0 < n) (hp : IsInt p) (hpL : p < L) :
    WriteOk S L n p ↔ 0 ≤ p ∧ p + n < 2 ^ 31 ∧ min (p + n) L ≤ 2 ^ 31 - 128 := by
  have hc : 0 < moved L n p := by
    unfold moved
    split_ifs <;> omega
  have hcL := moved_eq L n p
  constructor
  · intro h
    have h0 := h.loop.nonneg h.copy hc
    obtain ⟨-,hlast⟩ := sectors_eq (S := S) h0 hc
    have hend := h.edges.behind.2
    unfold sectorSize at hend
    exact ⟨h0,h.plan.sum.2,by omega⟩
  · rintro ⟨h0,hsum,hsize⟩
    obtain ⟨hfirst,hlast⟩ := sectors_eq (S := S) h0 hc
    refine ⟨planOk h0 hc hL ⟨by omega,hsum⟩ (by omega) (by omega),?_,copyOk h0 hc hp,
      loopOk h0 hc hL (by omega)⟩
    have hcopy := copyOk (S := S) h0 hc hp
    refine ⟨hcopy.start,⟨by omega,by omega⟩,⟨by omega,by omega⟩,?_,?_,?_⟩
    · unfold sectorSize
      exact ⟨by omega,by omega⟩
    · intro _
      unfold sectorSize
      exact readInOk hL (by omega) (by omega) (by omega) le_rfl (by omega)
    · intro _ _
      unfold sectorSize
      exact ⟨⟨by omega,by omega⟩,⟨by omega,by omega⟩,
        readInOk hL (by omega) (by omega) (by omega) (by omega) (by omega)⟩

end Arithmetic

def CountOk (f : OpenFile) (n r : ℤ) : Prop :=
  0 ≤ r ∧ r ≤ max n 0 ∧ (r = 0 ∨ f.seekPosition + r ≤ f.length)

/-- `ReadAt` and `Read` from the seek position keep to their ranges. -/
def ReadsInRange (S : Support) (f : OpenFile) (n : ℤ) : Prop :=
  (∀ mode, (readAt S f.hdr n f.seekPosition mode).Sat (inRange f.length)
    (fun r _ => CountOk f n r.1) ()) ∧
  (read S f n).Sat (inRange f.length)
    (fun r _ => CountOk f n r.1 ∧ r.2.2 = f.seek (f.seekPosition + r.1)) ()

def WritesInRange (S : Support) (f : OpenFile) (n : ℤ) : Prop :=
  ∀ src, (∀ mode, (writeAt S f.hdr src n f.seekPosition mode).Sat (inRange f.length)
    (fun r _ => CountOk f n r) ()) ∧
  (write S f src n).Sat (inRange f.length)
    (fun r _ => CountOk f n r.1 ∧ r.2 = f.seek (f.seekPosition + r.1)) ()

/-- The requests that `ReadAt` can compute with. -/
def ReadFits (L n p : ℤ) : Prop :=
  n ≤ 0 ∨ L ≤ p ∨
    (0 ≤ p ∧ p + n < 2 ^ 31 ∧ (sectorSize ≤ p ∨ min (p + n) L ≤ 2 ^ 31 - sectorSize))

def WriteFits (L n p : ℤ) : Prop :=
  n ≤ 0 ∨ L ≤ p ∨ (0 ≤ p ∧ p + n < 2 ^ 31 ∧ min (p + n) L ≤ 2 ^ 31 - sectorSize)

section Requests
variable {S : Support} {hdr : FileHeader} {n p mode : ℤ} {q : ℤ → Prop} {s : Unit}

theorem sat_readAt_iff (hp : IsInt p) (h0 : q 0)
    (hq : 0 < n → p < hdr.fileLength → 0 ≤ p → q (moved hdr.fileLength n p)) :
    (readAt S hdr n p mode).Sat (inRange hdr.fileLength) (fun r _ => q r.1) s ↔
      ReadFits hdr.fileLength n p := by
  rw [sat_readAt, ReadFits, ← or_assoc]
  by_cases h : n ≤ 0 ∨ hdr.fileLength ≤ p
  · rw [if_pos h]
    exact iff_of_true h0 (.inl h)
  · have hn : 0 < n := not_le.mp fun hn => h (.inl hn)
    have hpL : p < hdr.fileLength := not_le.mp fun hp => h (.inr hp)
    rw [if_neg h, readOk_iff (isInt_fileLength hdr) hn hp hpL, or_iff_right h]
    exact and_iff_left_of_imp fun hfits => hq hn hpL hfits.1

theorem sat_writeAt_iff {src : List Byte} (hp : IsInt p) (h0 : q 0)
    (hq : 0 < n → p < hdr.fileLength → 0 ≤ p → q (moved hdr.fileLength n p)) :
    (writeAt S hdr src n p mode).Sat (inRange hdr.fileLength) (fun r _ => q r) s ↔
      WriteFits hdr.fileLength n p := by
  rw [sat_writeAt, WriteFits, ← or_assoc]
  by_cases h : n ≤ 0 ∨ hdr.fileLength ≤ p
  · rw [if_pos h]
    exact iff_of_true h0 (.inl h)
  · have hn : 0 < n := not_le.mp fun hn => h (.inl hn)
    have hpL : p < hdr.fileLength := not_le.mp fun hp => h (.inr hp)
    rw [if_neg h, writeOk_iff (isInt_fileLength hdr) hn hp hpL, or_iff_right h]
    exact and_iff_left_of_imp fun hfits => hq hn hpL hfits.1

variable {f : OpenFile}

theorem countOk_zero (f : OpenFile) (n : ℤ) : CountOk f n 0 :=
  ⟨le_rfl,le_max_right n 0,.inl rfl⟩

theorem countOk_moved (hn : 0 < n) (hp : f.seekPosition < f.hdr.fileLength) :
    CountOk f n (moved f.hdr.fileLength n f.seekPosition) := by
  have h := moved_eq f.hdr.fileLength n f.seekPosition
  refine ⟨by omega,by omega,.inr ?_⟩
  rw [h]
  exact min_le_right _ _

theorem isInt_moved (hp : 0 ≤ f.seekPosition) (hn : 0 < n) :
    IsInt (f.seekPosition + moved f.hdr.fileLength n f.seekPosition) := by
  have h := moved_eq f.hdr.fileLength n f.seekPosition
  have hL := isInt_fileLength f.hdr
  unfold IsInt at *
  omega

theorem readsInRange_iff (hp : IsInt f.seekPosition) :
    ReadsInRange S f n ↔ ReadFits f.length n f.seekPosition := by
  have hat : ∀ mode, (readAt S f.hdr n f.seekPosition mode).Sat (inRange f.length)
      (fun r _ => CountOk f n r.1) () ↔ ReadFits f.length n f.seekPosition := fun _ =>
    sat_readAt_iff (q := CountOk f n) hp (countOk_zero f n) fun hn hpL _ => countOk_moved hn hpL
  have hread : (read S f n).Sat (inRange f.length)
      (fun r _ => CountOk f n r.1 ∧ r.2.2 = f.seek (f.seekPosition + r.1)) () ↔
        ReadFits f.length n f.seekPosition := by
    simp only [read, sat_bind, sat_int, pure_eq, Prog.Sat, and_true]
    refine sat_readAt_iff (q := fun r => IsInt (f.seekPosition + r) ∧ CountOk f n r) hp
      ⟨(add_zero f.seekPosition).symm ▸ hp,countOk_zero f n⟩ ?_
    intro hn hpL h0
    exact ⟨isInt_moved h0 hn,countOk_moved hn hpL⟩
  simp only [ReadsInRange, hat, hread, forall_const, and_self]

theorem writesInRange_iff (hp : IsInt f.seekPosition) :
    WritesInRange S f n ↔ WriteFits f.length n f.seekPosition := by
  have hat : ∀ src mode, (writeAt S f.hdr src n f.seekPosition mode).Sat (inRange f.length)
      (fun r _ => CountOk f n r) () ↔ WriteFits f.length n f.seekPosition := fun _ _ =>
    sat_writeAt_iff (q := CountOk f n) hp (countOk_zero f n) fun hn hpL _ => countOk_moved hn hpL
  have hwrite : ∀ src, (write S f src n).Sat (inRange f.length)
      (fun r _ => CountOk f n r.1 ∧ r.2 = f.seek (f.seekPosition + r.1)) () ↔
        WriteFits f.length n f.seekPosition := by
    intro src
    simp only [write, sat_bind, sat_int, pure_eq, Prog.Sat, and_true]
    refine sat_writeAt_iff (q := fun r => IsInt (f.seekPosition + r) ∧ CountOk f n r) hp
      ⟨(add_zero f.seekPosition).symm ▸ hp,countOk_zero f n⟩ ?_
    intro hn hpL h0
    exact ⟨isInt_moved h0 hn,countOk_moved hn hpL⟩
  simp only [WritesInRange, hat, hwrite, forall_const, and_self]

end Requests

/-- For every header, position and count, reading stays in range just when there is nothing
to read or the position is in the file, the sum is an `int` and so is the size of the buffer;
writing just when moreover the end of the last sector is one. -/
theorem byteRange (S : Support) (hdr : FileHeader) (numBytes position : Word) :
    (ReadsInRange S ((OpenFile.mk hdr 0).seek position.toInt) numBytes.toInt ↔
      ReadFits hdr.fileLength numBytes.toInt position.toInt) ∧
    (WritesInRange S ((OpenFile.mk hdr 0).seek position.toInt) numBytes.toInt ↔
      WriteFits hdr.fileLength numBytes.toInt position.toInt) := by
  have hp : IsInt position.toInt := ⟨BitVec.le_toInt position,BitVec.toInt_lt⟩
  exact ⟨readsInRange_iff hp,writesInRange_iff hp⟩

/-- One byte in front of a file of a hundred bytes, and as many as an `int` can tell from
its second byte on. -/
theorem not_inRange : ∃ hdr : FileHeader, hdr.fileLength = 100 ∧
    ¬ ReadsInRange FirstFit.support ((OpenFile.mk hdr 0).seek (-1)) 1 ∧
    ¬ WritesInRange FirstFit.support ((OpenFile.mk hdr 0).seek (-1)) 1 ∧
    ¬ ReadsInRange FirstFit.support ((OpenFile.mk hdr 0).seek 1) (2 ^ 31 - 1) := by
  refine ⟨⟨100,1,.replicate numDirect 0⟩,by decide,?_,?_,?_⟩
  · rw [readsInRange_iff ⟨by decide,by decide⟩]
    simp [ReadFits, OpenFile.length, OpenFile.seek, FileHeader.fileLength]
  · rw [writesInRange_iff ⟨by decide,by decide⟩]
    simp [WriteFits, OpenFile.length, OpenFile.seek, FileHeader.fileLength]
  · rw [readsInRange_iff ⟨by decide,by decide⟩]
    simp [ReadFits, OpenFile.length, OpenFile.seek, FileHeader.fileLength]

end ByteRange

end Nachos
