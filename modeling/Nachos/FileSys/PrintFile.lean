import Nachos.FileSys.Copy
import Nachos.FileSys.AllocateContract

/-! # Printing a file

`PrintFile` of `filehdr.cc`, with the reads of the disk and what is printed as operations. It takes
the first 0 in the table of the header for the end of the index and goes through all words of each
index sector, whatever the size of the file.
-/
namespace Nachos

/-- What one `printf` prints. -/
inductive Printed where
  /-- `FileHeader contents:  File size: %d.  File sector blocks locations: ` -/
  | fileSize (numBytes : Word)
  /-- `%d, ` -/
  | location (sector : Word)
  /-- `List of sector blocks for the file data:` -/
  | listHeading
  /-- `Sector %d, Contents:` -/
  | sectorHeading (sector : Word)
  /-- `%u ` -/
  | dataSector (sector : Word)
  /-- `File contents:` -/
  | contentsHeading
  /-- `%c` -/
  | char (c : Byte)

inductive PrintOp where
  | readSector (sector : ℤ)
  | print (text : Printed)
  /-- An element outside its array. -/
  | outside

def PrintOp.Resp : PrintOp → Type
  | readSector _ => Sector
  | print _ => Unit
  | outside => Word

abbrev PrintProg := Prog PrintOp PrintOp.Resp

namespace PrintFile
open Prog Copy

def readSector (sector : ℤ) : PrintProg Sector := perform (PrintOp.readSector sector)

def print (text : Printed) : PrintProg Unit := perform (PrintOp.print text)

def outside : PrintProg Word := perform PrintOp.outside

/-- `dataSectors[i]` -/
def dataSector (hdr : FileHeader) (i : ℕ) : PrintProg Word :=
  if i < numDirect then return hdr.dataSectors.getD i 0 else outside

/-- `for (i = 0; dataSectors[i] != 0; i++)`, from `i` on, with the other variables in `x`. -/
def forEntries {ν : Type} (hdr : FileHeader) (body : ν → Word → PrintProg ν) (i : ℕ) (x : ν) :
    PrintProg ν :=
  iterate (i,x) fun y => do
    let sector ← dataSector hdr y.1
    if sector = 0 then return .inr y.2
    else
      let x ← body y.2 sector
      return .inl (y.1 + 1,x)

def printWords (numSectors : Word) (intData : FileHeader) : ℕ → ℕ → ℕ → PrintProg ℕ
  | 0, _, k => return k
  | count + 1, j, k =>
    if (k : ℤ) < numSectors.toInt then do
      print (.dataSector (intData.word j))
      printWords numSectors intData count (j + 1) (k + 1)
    else return k

def printChars : List Byte → ℤ → PrintProg ℤ
  | [], left => return left
  | c :: rest, left =>
    if 0 < left then do
      print (.char c)
      printChars rest (left - 1)
    else return left

def printSectors (newHdr : FileHeader) : ℕ → ℕ → ℤ → PrintProg ℤ
  | 0, _, left => return left
  | count + 1, j, left => do
    let charData ← readSector (newHdr.word j).toInt
    let left ← printChars charData.bytes left
    printSectors newHdr count (j + 1) left

def printLocation (_ : Unit) (sector : Word) : PrintProg Unit := print (.location sector)

def printIndex (hdr : FileHeader) (k : ℕ) (sector : Word) : PrintProg ℕ := do
  let _ ← readSector sector.toInt
  print (.sectorHeading sector)
  let intData ← readSector sector.toInt
  printWords hdr.numSectors (.ofSector intData) sectorWords 0 k

def printContents (left : ℤ) (sector : Word) : PrintProg ℤ := do
  let newHdr ← readSector sector.toInt
  printSectors (.ofSector newHdr) sectorWords 0 left

def printFile (hdr : FileHeader) : PrintProg Unit := do
  print (.fileSize hdr.numBytes)
  forEntries hdr printLocation 0 ()
  print .listHeading
  let _ ← forEntries hdr (printIndex hdr) 0 0
  print .contentsHeading
  let _ ← forEntries hdr printContents 0 hdr.fileLength
  return ()

/-- The disk, of which only these sectors are read, and what has been printed. -/
def reading (d : Disk) (sectors : List ℕ) : World PrintOp PrintOp.Resp (List Printed)
  | .readSector sector, out, r, out' => ∃ t ∈ sectors, sector = (t : ℕ) ∧ r = d t ∧ out' = out
  | .print text, out, _, out' => out' = out ++ [text]
  | .outside, _, _, _ => False

def chars (out : List Printed) : List Byte :=
  out.filterMap fun
    | .char c => some c
    | _ => none

/-- `PrintFile` comes to its end, reads sectors of the file only, and prints what `ReadAt` reads. -/
def PrintsLikeRead (S : Support) (hdr : FileHeader) (d : Disk) : Prop :=
  Ends (reading d (given hdr d))
    (fun _ out => ∃ n, OpenFile.readAt S ⟨hdr,0⟩ d hdr.fileLength 0 1 = .ok (n,chars out))
    (printFile hdr) []

structure FirstZero (hdr : FileHeader) (z : ℕ) : Prop where
  lt : z < numDirect
  zero : hdr.entry z = 0
  before : ∀ i < z, hdr.entry i ≠ 0

/-- The table ends with a 0 behind the index sectors, none of which is sector 0; entries in between
and words that are not used name sectors of the file. -/
structure Printable (hdr : FileHeader) (d : Disk) (z : ℕ) : Prop where
  first : FirstZero hdr z
  index : indexCount hdr.blocks ≤ z
  entries : ∀ i, indexCount hdr.blocks ≤ i → i < z → hdr.entry i ∈ given hdr d
  unused : ∀ k, hdr.blocks ≤ k → k < z * sectorWords → hdr.block d k ∈ given hdr d

section Ends
variable {d : Disk} {sectors : List ℕ} {hdr : FileHeader} {out : List Printed} {ν α : Type}

theorem ends_print {text : Printed} {Q : Unit → List Printed → Prop} :
    Ends (reading d sectors) Q (print text) out ↔ Q () (out ++ [text]) := by
  refine ends_act.trans ⟨?_,?_⟩
  · rintro ⟨-,hnext⟩
    exact ends_ret.mp (hnext () _ rfl)
  · intro hQ
    refine ⟨⟨(),_,rfl⟩,?_⟩
    rintro r _ rfl
    exact .ret hQ

theorem ends_readSector (hlt : ∀ t ∈ sectors, t < diskSectors) {w : Word}
    {Q : Sector → List Printed → Prop} :
    Ends (reading d sectors) Q (readSector w.toInt) out ↔ w.toNat ∈ sectors ∧ Q (d w.toNat) out := by
  refine ends_act.trans ⟨?_,?_⟩
  · rintro ⟨⟨_,_,t,ht,hsector,rfl,rfl⟩,hnext⟩
    rw [toNat_of_toInt hsector]
    exact ⟨ht,ends_ret.mp (hnext _ _ ⟨t,ht,hsector,rfl,rfl⟩)⟩
  · rintro ⟨ht,hQ⟩
    have hsector := toInt_of_lt (hlt _ ht)
    refine ⟨⟨_,_,_,ht,hsector,rfl,rfl⟩,?_⟩
    rintro r out' ⟨t,-,ht',rfl,rfl⟩
    rw [← toNat_of_toInt ht']
    exact .ret hQ

theorem ends_dataSector {i : ℕ} {Q : Word → List Printed → Prop} :
    Ends (reading d sectors) Q (dataSector hdr i) out ↔
      i < numDirect ∧ Q (hdr.dataSectors.getD i 0) out := by
  rw [dataSector]
  split_ifs with hi
  · exact ends_ret.trans (iff_and_self.mpr fun _ => hi)
  · refine iff_of_false (fun h => ?_) fun h => hi h.1
    obtain ⟨⟨_,_,hfalse⟩,-⟩ := ends_act.mp h
    exact hfalse

def after (step : ℕ → ν × List Printed → ν × List Printed) :
    ℕ → ℕ → ν × List Printed → ν × List Printed
  | 0, _, s => s
  | count + 1, i, s => after step count (i + 1) (step i s)

theorem entry_eq_zero {i : ℕ} : hdr.dataSectors.getD i 0 = 0 ↔ hdr.entry i = 0 := by
  rw [FileHeader.entry, ← BitVec.toNat_inj]
  rfl

/-- When a round does the same to every state, the loop goes through the entries before a 0. -/
theorem ends_forEntries {body : ν → Word → PrintProg ν} {ok : ℕ → Prop}
    {step : ℕ → ν × List Printed → ν × List Printed} {Q : ν → List Printed → Prop}
    (hbody : ∀ i x out (R : ν → List Printed → Prop),
      Ends (reading d sectors) R (body x (hdr.dataSectors.getD i 0)) out ↔
        ok i ∧ R (step i (x,out)).1 (step i (x,out)).2) (i : ℕ) (x : ν) :
    Ends (reading d sectors) Q (forEntries hdr body i x) out ↔
      ∃ count, i + count < numDirect ∧ hdr.entry (i + count) = 0 ∧
        (∀ t, i ≤ t → t < i + count → hdr.entry t ≠ 0 ∧ ok t) ∧
        Q (after step count i (x,out)).1 (after step count i (x,out)).2 := by
  generalize hm : numDirect - i = m
  induction m generalizing i x out with
  | zero =>
    rw [forEntries, iterate, ends_loop, unroll, bind_assoc', ends_bind, ends_dataSector]
    constructor
    · rintro ⟨hlt,-⟩
      omega
    · rintro ⟨count,hlt,-⟩
      omega
  | succ m ih =>
    rw [forEntries, iterate, ends_loop, unroll, bind_assoc', ends_bind, ends_dataSector]
    by_cases hzero : hdr.dataSectors.getD i 0 = 0
    · rw [if_pos hzero]
      have hentry := entry_eq_zero.mp hzero
      constructor
      · rintro ⟨hlt,hQ⟩
        exact ⟨0,hlt,hentry,fun t hle hlt => absurd hlt (not_lt.mpr hle),ends_ret.mp hQ⟩
      · rintro ⟨count,hlt,-,hbefore,hQ⟩
        cases count with
        | zero => exact ⟨hlt,.ret hQ⟩
        | succ count => exact absurd hentry (hbefore i le_rfl (by omega)).1
    · rw [if_neg hzero, bind_assoc', ends_bind, hbody]
      have hentry := fun h => hzero (entry_eq_zero.mpr h)
      change (_ ∧ _ ∧ Ends (reading d sectors) Q (forEntries hdr body (i + 1) _) _) ↔ _
      rw [ih (i + 1) _ (by omega)]
      constructor
      · rintro ⟨hi,hok,count,hlt,hend,hbefore,hQ⟩
        have hnext : i + (count + 1) = i + 1 + count := by omega
        refine ⟨count + 1,hnext ▸ hlt,hnext ▸ hend,fun t hle hlt => ?_,hQ⟩
        obtain rfl | hgt := Nat.eq_or_lt_of_le hle
        · exact ⟨hentry,hok⟩
        · exact hbefore t hgt (by omega)
      · rintro ⟨count,hlt,hend,hbefore,hQ⟩
        cases count with
        | zero => exact absurd hend hentry
        | succ count =>
          have hnext : i + (count + 1) = i + 1 + count := by omega
          rw [hnext] at hlt hend
          exact ⟨by omega,(hbefore i le_rfl (by omega)).2,count,hlt,hend,
            fun t hle hlt => hbefore t (by omega) (by omega),hQ⟩

theorem chars_append (out out' : List Printed) : chars (out ++ out') = chars out ++ chars out' :=
  List.filterMap_append

def wordCount (numSectors : Word) (count k : ℕ) : ℕ := min count (numSectors.toInt - k).toNat

theorem ends_printWords {numSectors : Word} {intData : FileHeader} {count j k : ℕ}
    {Q : ℕ → List Printed → Prop} :
    Ends (reading d sectors) Q (printWords numSectors intData count j k) out ↔
      Q (k + wordCount numSectors count k)
        (out ++ (List.range (wordCount numSectors count k)).map fun t =>
          .dataSector (intData.word (j + t))) := by
  induction count generalizing j k out with
  | zero =>
    rw [printWords, pure_eq, ends_ret]
    simp [wordCount]
  | succ count ih =>
    rw [printWords]
    split_ifs with hk
    · have hcount : wordCount numSectors (count + 1) k =
          wordCount numSectors count (k + 1) + 1 := by
        unfold wordCount
        omega
      rw [ends_bind, ends_print, ih, hcount, List.range_succ_eq_map, List.map_cons, List.map_map,
        List.append_assoc, List.singleton_append, Nat.add_zero, Nat.add_right_comm, ← Nat.add_assoc]
      refine iff_of_eq (congrArg _ (congrArg _ (congrArg _ (List.map_congr_left fun t _ => ?_))))
      rw [Function.comp_apply, Nat.add_right_comm, Nat.add_assoc]
    · have hcount : wordCount numSectors (count + 1) k = 0 := by
        unfold wordCount
        omega
      rw [pure_eq, ends_ret, hcount]
      simp

def emit (bytes : List Byte) (s : ℤ × List Printed) : ℤ × List Printed :=
  (s.1 - (bytes.take s.1.toNat).length,s.2 ++ (bytes.take s.1.toNat).map .char)

theorem emit_append (bytes bytes' : List Byte) (s : ℤ × List Printed) :
    emit bytes' (emit bytes s) = emit (bytes ++ bytes') s := by
  have hleft : (s.1 - (bytes.take s.1.toNat).length).toNat = s.1.toNat - bytes.length := by
    rw [List.length_take]
    omega
  simp only [emit, hleft, List.take_append, List.length_append, List.map_append,
    List.append_assoc, Prod.mk.injEq, and_true]
  push_cast
  omega

theorem emit_nil (s : ℤ × List Printed) : emit [] s = s := by simp [emit]

theorem chars_emit (bytes : List Byte) (s : ℤ × List Printed) :
    chars (emit bytes s).2 = chars s.2 ++ bytes.take s.1.toNat := by
  rw [emit, chars_append]
  congr 1
  rw [chars, List.filterMap_map]
  exact List.filterMap_some

theorem ends_printChars {bytes : List Byte} {left : ℤ} {Q : ℤ → List Printed → Prop} :
    Ends (reading d sectors) Q (printChars bytes left) out ↔
      Q (emit bytes (left,out)).1 (emit bytes (left,out)).2 := by
  induction bytes generalizing left out with
  | nil =>
    rw [printChars, pure_eq, ends_ret, emit_nil]
  | cons c rest ih =>
    rw [printChars]
    split_ifs with hleft
    · have hstep : emit (c :: rest) (left,out) = emit rest (left - 1,out ++ [.char c]) := by
        have hone : emit [c] (left,out) = (left - 1,out ++ [.char c]) := by
          obtain ⟨n,hn⟩ : ∃ n, left.toNat = n + 1 := ⟨left.toNat - 1,by omega⟩
          simp [emit, hn]
        rw [← hone, emit_append]
        rfl
      rw [ends_bind, ends_print, ih, hstep]
    · have hnone : left.toNat = 0 := by omega
      rw [pure_eq, ends_ret]
      simp [emit, hnone]

theorem ends_printSectors (hlt : ∀ t ∈ sectors, t < diskSectors) {i count j : ℕ}
    (hj : j + count ≤ sectorWords) {left : ℤ} {Q : ℤ → List Printed → Prop} :
    Ends (reading d sectors) Q (printSectors (.ofSector (d (hdr.entry i))) count j left) out ↔
      (∀ t < count, hdr.block d (i * sectorWords + j + t) ∈ sectors) ∧
        Q (emit (BlockRegion.contents Sector.bytes d
            (fun k => hdr.block d (i * sectorWords + j + k)) count) (left,out)).1
          (emit (BlockRegion.contents Sector.bytes d
            (fun k => hdr.block d (i * sectorWords + j + k)) count) (left,out)).2 := by
  induction count generalizing j left out with
  | zero =>
    rw [printSectors, pure_eq, ends_ret]
    simp [BlockRegion.contents, emit_nil]
  | succ count ih =>
    have hdiv : (i * sectorWords + j) / sectorWords = i := by
      unfold sectorWords sectorSize at *
      omega
    have hmod : (i * sectorWords + j) % sectorWords = j := by
      unfold sectorWords sectorSize at *
      omega
    have hword : ((FileHeader.ofSector (d (hdr.entry i))).word j).toNat =
        hdr.block d (i * sectorWords + j) := by
      rw [FileHeader.block, hdiv, hmod]
    have hshift : ∀ t, i * sectorWords + (j + 1) + t = i * sectorWords + j + (t + 1) := by
      intro t
      omega
    rw [printSectors, ends_bind, ends_readSector hlt, ends_bind, ends_printChars, ih (by omega),
      hword, emit_append, BlockRegion.contents_succ']
    simp only [hshift, Nat.add_zero]
    constructor
    · rintro ⟨hfirst,hrest,hQ⟩
      refine ⟨?_,hQ⟩
      rintro (_ | t) ht
      · exact hfirst
      · exact hrest t (by omega)
    · rintro ⟨hall,hQ⟩
      exact ⟨hall 0 (by omega),fun t ht => hall (t + 1) (by omega),hQ⟩

theorem FirstZero.unique {z z' : ℕ} (h : FirstZero hdr z) (h' : FirstZero hdr z') : z = z' := by
  obtain hlt | heq | hgt := lt_trichotomy z z'
  · exact absurd h.zero (h'.before z hlt)
  · exact heq
  · exact absurd h'.zero (h.before z' hgt)

theorem ends_entries {body : ν → Word → PrintProg ν} {ok : ℕ → Prop}
    {step : ℕ → ν × List Printed → ν × List Printed} {Q : ν → List Printed → Prop} {x : ν}
    (hbody : ∀ i x out (R : ν → List Printed → Prop),
      Ends (reading d sectors) R (body x (hdr.dataSectors.getD i 0)) out ↔
        ok i ∧ R (step i (x,out)).1 (step i (x,out)).2) :
    Ends (reading d sectors) Q (forEntries hdr body 0 x) out ↔ ∃ z, FirstZero hdr z ∧
      (∀ i < z, ok i) ∧ Q (after step z 0 (x,out)).1 (after step z 0 (x,out)).2 := by
  rw [ends_forEntries hbody]
  simp only [Nat.zero_add]
  constructor
  · rintro ⟨z,hlt,hzero,hbefore,hQ⟩
    exact ⟨z,⟨hlt,hzero,fun i hi => (hbefore i (Nat.zero_le i) hi).1⟩,
      fun i hi => (hbefore i (Nat.zero_le i) hi).2,hQ⟩
  · rintro ⟨z,hz,hok,hQ⟩
    exact ⟨z,hz.lt,hz.zero,fun i _ hi => ⟨hz.before i hi,hok i hi⟩,hQ⟩

theorem chars_after {step : ℕ → ν × List Printed → ν × List Printed}
    (hstep : ∀ i s, chars (step i s).2 = chars s.2) (count i : ℕ) (s : ν × List Printed) :
    chars (after step count i s).2 = chars s.2 := by
  induction count generalizing i s with
  | zero => rfl
  | succ count ih => rw [after, ih, hstep]

/-- A round of each of the three loops. -/
def locationStep (hdr : FileHeader) (i : ℕ) (s : Unit × List Printed) : Unit × List Printed :=
  ((),s.2 ++ [.location (hdr.dataSectors.getD i 0)])

def indexStep (hdr : FileHeader) (d : Disk) (i : ℕ) (s : ℕ × List Printed) : ℕ × List Printed :=
  (s.1 + wordCount hdr.numSectors sectorWords s.1,
    s.2 ++ [.sectorHeading (hdr.dataSectors.getD i 0)] ++
      (List.range (wordCount hdr.numSectors sectorWords s.1)).map fun t =>
        .dataSector ((FileHeader.ofSector (d (hdr.entry i))).word t))

def contentsStep (hdr : FileHeader) (d : Disk) (i : ℕ) (s : ℤ × List Printed) :
    ℤ × List Printed :=
  emit (BlockRegion.contents Sector.bytes d (fun k => hdr.block d (i * sectorWords + k)) sectorWords)
    s

theorem ends_printLocation (i : ℕ) (x : Unit) (out : List Printed)
    (R : Unit → List Printed → Prop) :
    Ends (reading d sectors) R (printLocation x (hdr.dataSectors.getD i 0)) out ↔
      True ∧ R (locationStep hdr i (x,out)).1 (locationStep hdr i (x,out)).2 := by
  rw [printLocation, ends_print, true_and]
  rfl

theorem ends_printIndex (hlt : ∀ t ∈ sectors, t < diskSectors) (i k : ℕ) (out : List Printed)
    (R : ℕ → List Printed → Prop) :
    Ends (reading d sectors) R (printIndex hdr k (hdr.dataSectors.getD i 0)) out ↔
      hdr.entry i ∈ sectors ∧ R (indexStep hdr d i (k,out)).1 (indexStep hdr d i (k,out)).2 := by
  rw [printIndex, ends_bind, ends_readSector hlt, ends_bind, ends_print, ends_bind,
    ends_readSector hlt, ends_printWords]
  simp only [Nat.zero_add, and_self_left]
  rfl

theorem ends_printContents (hlt : ∀ t ∈ sectors, t < diskSectors) (i : ℕ) (left : ℤ)
    (out : List Printed) (R : ℤ → List Printed → Prop) :
    Ends (reading d sectors) R (printContents left (hdr.dataSectors.getD i 0)) out ↔
      (hdr.entry i ∈ sectors ∧ ∀ t < sectorWords, hdr.block d (i * sectorWords + t) ∈ sectors) ∧
        R (contentsStep hdr d i (left,out)).1 (contentsStep hdr d i (left,out)).2 := by
  rw [printContents, ends_bind, ends_readSector hlt]
  change _ ∧ Ends (reading d sectors) R
    (printSectors (.ofSector (d (hdr.entry i))) sectorWords 0 left) out ↔ _
  rw [ends_printSectors hlt (by omega), and_assoc]
  rfl

theorem after_contentsStep (count i : ℕ) (s : ℤ × List Printed) :
    after (contentsStep hdr d) count i s = emit (BlockRegion.contents Sector.bytes d
      (fun k => hdr.block d (i * sectorWords + k)) (count * sectorWords)) s := by
  induction count generalizing i s with
  | zero =>
    rw [Nat.zero_mul]
    exact (emit_nil s).symm
  | succ count ih =>
    have hshift : ∀ k, (i + 1) * sectorWords + k = i * sectorWords + (sectorWords + k) := by
      intro k
      rw [Nat.add_one_mul, Nat.add_assoc]
    have hcount : (count + 1) * sectorWords = sectorWords + count * sectorWords := by
      rw [Nat.add_one_mul, Nat.add_comm]
    rw [after, ih, contentsStep, emit_append, hcount, BlockRegion.contents_add]
    simp only [hshift]

theorem chars_indexStep (i : ℕ) (s : ℕ × List Printed) :
    chars (indexStep hdr d i s).2 = chars s.2 := by
  simp [indexStep, chars]

/-- `PrintFile` goes through the table up to the first 0, and prints what stands in all sectors that
it finds, up to the length of the file. -/
theorem ends_printFile (hlt : ∀ t ∈ sectors, t < diskSectors) {P : List Byte → Prop} :
    Ends (reading d sectors) (fun _ out => P (chars out)) (printFile hdr) [] ↔
      ∃ z, FirstZero hdr z ∧
        (∀ i < z, hdr.entry i ∈ sectors ∧
          ∀ t < sectorWords, hdr.block d (i * sectorWords + t) ∈ sectors) ∧
        P ((BlockRegion.contents Sector.bytes d (hdr.block d) (z * sectorWords)).take
          hdr.fileLength.toNat) := by
  have hlocation := @ends_printLocation d sectors hdr
  have hindex := @ends_printIndex d sectors hdr hlt
  have hcontents := @ends_printContents d sectors hdr hlt
  have hquiet : ∀ (z : ℕ) (out : List Printed),
      chars (after (locationStep hdr) z 0 ((),out)).2 = chars out := fun z out =>
    chars_after (fun i s => by simp [locationStep, chars]) z 0 ((),out)
  have hquiet' : ∀ (z : ℕ) (out : List Printed),
      chars (after (indexStep hdr d) z 0 (0,out)).2 = chars out := fun z out =>
    chars_after chars_indexStep z 0 (0,out)
  have hprinted : ∀ (z : ℕ) (out : List Printed), chars out = [] →
      chars (after (contentsStep hdr d) z 0 (hdr.fileLength,out)).2 =
        (BlockRegion.contents Sector.bytes d (hdr.block d) (z * sectorWords)).take
          hdr.fileLength.toNat := by
    intro z out hout
    rw [after_contentsStep, chars_emit, hout]
    simp only [Nat.zero_mul, Nat.zero_add]
    rfl
  have hnone : ∀ z z', chars ((after (indexStep hdr d) z' 0 (0,(after (locationStep hdr) z 0
      ((),[] ++ [.fileSize hdr.numBytes])).2 ++ [.listHeading])).2 ++ [.contentsHeading]) = [] := by
    intro z z'
    rw [chars_append, hquiet', chars_append, hquiet]
    rfl
  rw [printFile, ends_bind, ends_print, ends_bind, ends_entries hlocation]
  simp only [ends_bind, ends_print, ends_entries hindex, ends_entries hcontents, pure_eq, ends_ret]
  constructor
  · rintro ⟨z₁,hz₁,-,z₂,hz₂,-,z,hz,hok,hP⟩
    refine ⟨z,hz,hok,?_⟩
    rwa [hprinted z _ (hnone z₁ z₂)] at hP
  · rintro ⟨z,hz,hok,hP⟩
    refine ⟨z,hz,fun _ _ => trivial,z,hz,fun i hi => (hok i hi).1,z,hz,hok,?_⟩
    rwa [hprinted z _ (hnone z z)]

end Ends

section Allocated
variable {S : Support} {hdr hdr' : FileHeader} {arrays : ℕ → FileHeader} {m m' : BitMap}
  {size : Word} {d d' : Disk} {z : ℕ}

/-- A header as `Allocate` leaves it when there is room. -/
structure Laid (hdr : FileHeader) (d : Disk) : Prop where
  nodup : (given hdr d).Nodup
  inDisk : ∀ t ∈ given hdr d, t < diskSectors
  index : indexCount hdr.blocks ≤ numDirect
  fits : hdr.fileLength ≤ hdr.blocks * sectorSize
  needed : ∀ k < hdr.blocks, ((k * sectorSize : ℕ) : ℤ) < hdr.fileLength

theorem laid_of_allocate (halloc : hdr.allocate S arrays m size d = .ok (true,hdr',m',d'))
    (hroom : FileHeader.HasRoom m (FileHeader.sectorsFor S size).toNat) :
    Laid hdr' d' ∧ FreshIn m (given hdr' d') := by
  obtain ⟨n,hn,-⟩ := FileHeader.allocate_ok halloc
  rw [toNat_of_toInt hn] at hroom
  obtain ⟨idx,data,hdr₁,d₁,halloc',hfresh,hbytes,hblocks,hidx,hdata,-⟩ :=
    FileHeader.allocate_eq S hdr arrays m d hn hroom.1 hroom.2
  rw [halloc] at halloc'
  cases halloc'
  have hgiven : given hdr' d' = idx ++ data := by rw [given, hidx, hdata]
  rw [hgiven]
  refine ⟨⟨hgiven ▸ hfresh.1,fun t ht => (hfresh.2 t (hgiven ▸ ht)).1,hblocks ▸ hroom.1,?_,?_⟩,hfresh⟩
  · have hholds := FileHeader.sectorsFor_holds S size
    rw [toNat_of_toInt hn] at hholds
    rw [FileHeader.fileLength, hbytes, hblocks]
    exact hholds
  · intro k hk
    rw [FileHeader.fileLength, hbytes]
    exact FileHeader.size_of_sectors S (by omega)

namespace Laid

theorem length_le (h : Laid hdr d) : hdr.fileLength.toNat ≤ hdr.blocks * sectorSize := by
  have hfits := h.fits
  unfold sectorSize at *
  omega

theorem readAt_eq (h : Laid hdr d) :
    OpenFile.readAt S ⟨hdr,0⟩ d hdr.fileLength 0 1 =
      .ok (hdr.fileLength.toNat,fileBytes d (hdr.block d) hdr.blocks hdr.fileLength.toNat) := by
  have M := FileHeader.mapping_of_same h.nodup h.inDisk h.index fun _ _ => rfl
  have hint := isInt_fileLength hdr
  have hread := readAt_signed (S := S) (f := ⟨hdr,0⟩) M h.length_le 0 hdr.fileLength
    (by rwa [Int.natCast_zero, Int.zero_add])
  have hcount : transferCount hdr.fileLength.toNat 0 hdr.fileLength = hdr.fileLength.toNat := by
    unfold transferCount
    omega
  rw [hcount, List.drop_zero, List.take_of_length_le (length_fileBytes h.length_le).le] at hread
  exact hread

/-- The sectors that the table leads to begin with those of the file, and the rest is not printed. -/
theorem take_contents (h : Laid hdr d) (hz : indexCount hdr.blocks ≤ z) :
    (BlockRegion.contents Sector.bytes d (hdr.block d) (z * sectorWords)).take
      hdr.fileLength.toNat = fileBytes d (hdr.block d) hdr.blocks hdr.fileLength.toNat := by
  obtain ⟨rest,hrest⟩ : ∃ rest, z * sectorWords = hdr.blocks + rest := by
    refine Nat.exists_eq_add_of_le ?_
    unfold indexCount sectorWords sectorSize at *
    omega
  rw [hrest, BlockRegion.contents_add, fileBytes, List.take_append_of_le_length]
  rw [BlockRegion.length_contents Sector.length_bytes]
  exact h.length_le

/-- With a 0 among the index sectors, some of the file is not printed. -/
theorem index_of_take (h : Laid hdr d)
    (htake : (BlockRegion.contents Sector.bytes d (hdr.block d) (z * sectorWords)).take
      hdr.fileLength.toNat = fileBytes d (hdr.block d) hdr.blocks hdr.fileLength.toNat) :
    indexCount hdr.blocks ≤ z := by
  by_contra hz
  have hlt : z * sectorWords < hdr.blocks := by
    unfold indexCount sectorWords sectorSize at *
    omega
  have hneeded := h.needed _ hlt
  have hlength := congrArg List.length htake
  rw [length_fileBytes h.length_le, List.length_take,
    BlockRegion.length_contents Sector.length_bytes] at hlength
  omega

theorem printsLikeRead_iff (h : Laid hdr d) :
    PrintsLikeRead S hdr d ↔ ∃ z, Printable hdr d z := by
  refine (ends_printFile (P := fun bytes =>
    ∃ n, OpenFile.readAt S ⟨hdr,0⟩ d hdr.fileLength 0 1 = .ok (n,bytes)) h.inDisk).trans ?_
  simp only [h.readAt_eq, Except.ok.injEq, Prod.mk.injEq, exists_and_right, exists_eq', true_and]
  constructor
  · rintro ⟨z,hz,hfound,htake⟩
    refine ⟨z,hz,h.index_of_take htake.symm,fun i _ hi => (hfound i hi).1,fun k _ hk => ?_⟩
    have hmem := (hfound (k / sectorWords) ((Nat.div_lt_iff_lt_mul (by decide)).mpr hk)).2 (k % sectorWords)
      (Nat.mod_lt _ (by decide))
    rwa [Nat.div_add_mod'] at hmem
  · rintro ⟨z,hp⟩
    refine ⟨z,hp.first,fun i hi => ⟨?_,fun t ht => ?_⟩,(h.take_contents hp.index).symm⟩
    · obtain hlt | hge := Nat.lt_or_ge i (indexCount hdr.blocks)
      · exact List.mem_append_left _ (index_mem hlt)
      · exact hp.entries i hge hi
    · obtain hlt | hge := Nat.lt_or_ge (i * sectorWords + t) hdr.blocks
      · exact List.mem_append_right _ (block_mem hlt)
      · refine hp.unused _ hge ?_
        have hle := Nat.mul_le_mul_right sectorWords hi
        rw [Nat.succ_mul] at hle
        omega

end Laid

/-- Where sector 0 is in use, the 0 that ends the table is behind the index sectors. -/
theorem entry_ne_zero (halloc : hdr.allocate S arrays m size d = .ok (true,hdr',m',d'))
    (hroom : FileHeader.HasRoom m (FileHeader.sectorsFor S size).toNat) (hzero : 0 ∈ m) {i : ℕ}
    (hi : i < indexCount hdr'.blocks) : hdr'.entry i ≠ 0 := by
  intro hentry
  have hfresh := (laid_of_allocate halloc hroom).2
  exact (hfresh.2 _ (List.mem_append_left _ (index_mem hi))).2 (hentry ▸ hzero)

end Allocated

theorem numClear_zero : BitMap.numClear {0} = 1023 := by
  have hinsert := BitMap.numClear_insert (m := ∅) (s := 0) (by decide) (Finset.notMem_empty 0)
  rw [BitMap.numClear_empty] at hinsert
  exact hinsert

theorem printsLikeRead (S : Support) (hdr hdr' : FileHeader) (arrays : ℕ → FileHeader)
    (m m' : BitMap) (size : Word) (d d' : Disk)
    (halloc : hdr.allocate S arrays m size d = .ok (true,hdr',m',d'))
    (hroom : FileHeader.HasRoom m (FileHeader.sectorsFor S size).toNat) :
    PrintsLikeRead S hdr' d' ↔ ∃ z, Printable hdr' d' z :=
  (laid_of_allocate halloc hroom).1.printsLikeRead_iff

/-- A file that fills its index sector, with a header made in cleared memory. -/
theorem printsLikeRead_full : ∃ hdr' d', PrintsLikeRead FirstFit.support hdr' d' := by
  have hn : (FileHeader.sectorsFor FirstFit.support 4096).toInt = (32 : ℕ) := by decide
  have hroom : FileHeader.HasRoom {0} (FileHeader.sectorsFor FirstFit.support 4096).toNat := by
    rw [toNat_of_toInt hn]
    exact ⟨by decide,by rw [numClear_zero]; decide⟩
  obtain ⟨idx,data,hdr',d',halloc,-,-,hblocks,-⟩ := FileHeader.allocate_eq FirstFit.support
    clearHeap.hdr clearHeap.sectorArray {0} FirstFit.disk hn (by decide) (by rw [numClear_zero]; decide)
  refine ⟨hdr',d',(printsLikeRead _ _ _ _ _ _ _ _ _ halloc hroom).mpr ⟨1,⟨by decide,?_,?_⟩,?_,?_,?_⟩⟩
  · rw [allocate_unfilled hn halloc (by decide), entry_clearHeap]
  · intro i hi
    exact entry_ne_zero halloc hroom (by decide) (by rw [hblocks]; exact hi)
  · rw [hblocks]
    decide
  · intro i hge hlt
    rw [hblocks] at hge
    exact absurd hlt (not_lt.mpr hge)
  · intro k hge hlt
    rw [hblocks] at hge
    exact absurd hlt (not_lt.mpr hge)

/-- A file of one byte, with a header made in memory that holds no 0. -/
theorem not_printsLikeRead : ¬ ∀ (S : Support) (hdr hdr' : FileHeader) (arrays : ℕ → FileHeader)
    (m m' : BitMap) (size : Word) (d d' : Disk),
    hdr.allocate S arrays m size d = .ok (true,hdr',m',d') →
      FileHeader.HasRoom m (FileHeader.sectorsFor S size).toNat → PrintsLikeRead S hdr' d' := by
  intro h
  have hn : (FileHeader.sectorsFor FirstFit.support 1).toInt = (1 : ℕ) := by decide
  have hroom : FileHeader.HasRoom {0} (FileHeader.sectorsFor FirstFit.support 1).toNat := by
    rw [toNat_of_toInt hn]
    exact ⟨by decide,by rw [numClear_zero]; decide⟩
  obtain ⟨idx,data,hdr',d',halloc,-,-,hblocks,-⟩ := FileHeader.allocate_eq FirstFit.support
    ⟨1,1,Vector.replicate numDirect 1⟩ clearHeap.sectorArray {0} FirstFit.disk hn (by decide)
    (by rw [numClear_zero]; decide)
  obtain ⟨z,hz⟩ := (laid_of_allocate halloc hroom).1.printsLikeRead_iff.mp
    (h _ _ _ _ _ _ _ _ _ halloc hroom)
  have hlt := hz.first.lt
  have hindex := hz.index
  rw [hblocks] at hindex
  have hentry := hz.first.zero
  rw [allocate_unfilled hn halloc hindex] at hentry
  simp [FileHeader.entry, Vector.getD, hlt] at hentry

end PrintFile

end Nachos
