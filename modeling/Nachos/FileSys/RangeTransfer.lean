import Nachos.FileSys.ByteRange

/-! # Byte ranges on a disk

When the header, the disk and the memory answer, the programs of the byte ranges move what `ReadAt`
and `WriteAt` of an open file move.
-/
namespace Nachos

namespace ByteRange
open Prog

/-- What the header, the disk and the memory answer, and the disk afterwards. -/
def Answers (hdr : FileHeader) (chars : ℕ → Byte) : (op : RangeOp) → Disk → op.Resp → Disk → Prop
  | .int _, d, _, d' => d' = d
  | .newChars size, d, buf, d' => buf.val = Nachos.newChars chars size ∧ d' = d
  | .copyOut _ buf off len, d, bytes, d' => Nachos.copyOut buf.val off len = .ok bytes ∧ d' = d
  | .copyIn _ buf off len src, d, buf', d' =>
    Nachos.copyIn buf.val off (src.take len.toNat) = .ok buf'.val ∧ d' = d
  | .byteToSector offset mode, d, sector, d' =>
    hdr.byteToSector d offset mode = .ok sector ∧ d' = d
  | .readSector sector, d, bytes, d' =>
    (∃ data, d.readRequest sector = .ok data ∧ bytes = data.bytes) ∧ d' = d
  | .writeSector sector bytes, d, _, d' =>
    ∃ data, Sector.ofBytes bytes = .ok data ∧ d.writeRequest sector data = .ok d'

def onDisk (hdr : FileHeader) (chars : ℕ → Byte) : Contract RangeOp RangeOp.Resp Disk where
  pre op d := ∃ r d', Answers hdr chars op d r d'
  post := Answers hdr chars

section OnDisk
variable {hdr : FileHeader} {chars : ℕ → Byte} {d d' : Disk} {size : ℤ} {buf : CharArray size}
  {off len n p mode : ℤ} {bytes src : List Byte}

theorem Answers.unique {op : RangeOp} {r r' : op.Resp} {d'' : Disk}
    (h : Answers hdr chars op d r d') (h' : Answers hdr chars op d r' d'') : r' = r ∧ d'' = d' := by
  cases op with
  | int => exact ⟨rfl,h'.trans h.symm⟩
  | newChars => exact ⟨Subtype.ext (h'.1.trans h.1.symm),h'.2.trans h.2.symm⟩
  | copyOut => exact ⟨Except.ok.inj (h'.1.symm.trans h.1),h'.2.trans h.2.symm⟩
  | copyIn => exact ⟨Subtype.ext (Except.ok.inj (h'.1.symm.trans h.1)),h'.2.trans h.2.symm⟩
  | byteToSector => exact ⟨Except.ok.inj (h'.1.symm.trans h.1),h'.2.trans h.2.symm⟩
  | readSector =>
    obtain ⟨⟨data,hdata,rfl⟩,rfl⟩ := h
    obtain ⟨⟨data',hdata',rfl⟩,rfl⟩ := h'
    obtain rfl := Except.ok.inj (hdata'.symm.trans hdata)
    exact ⟨rfl,rfl⟩
  | writeSector =>
    obtain ⟨data,hdata,hd⟩ := h
    obtain ⟨data',hdata',hd'⟩ := h'
    obtain rfl := Except.ok.inj (hdata'.symm.trans hdata)
    exact ⟨rfl,Except.ok.inj (hd'.symm.trans hd)⟩

theorem answered {α : Type} {op : RangeOp} {r : op.Resp} {next : op.Resp → RangeProg α}
    {Q : α → Disk → Prop} (h : Answers hdr chars op d r d')
    (hQ : (next r).Sat (onDisk hdr chars) Q d') :
    (Prog.act op next).Sat (onDisk hdr chars) Q d := by
  refine ⟨⟨r,d',h⟩,fun r' d'' h' => ?_⟩
  obtain ⟨rfl,rfl⟩ := h.unique h'
  exact hQ

theorem length_copyIn {buf' : List Byte} (h : Nachos.copyIn bytes off src = .ok buf') :
    buf'.length = bytes.length := by
  unfold Nachos.copyIn at h
  split_ifs at h with hfit
  cases h
  exact length_splice (by omega)

theorem length_copyOut {out : List Byte} (h : Nachos.copyOut bytes off len = .ok out) :
    out.length = len.toNat := by
  unfold Nachos.copyOut at h
  split_ifs at h with hfit
  cases h
  rw [List.length_take, List.length_drop]
  omega

section Answered
variable {α : Type} {Q : α → Disk → Prop}

theorem int_answered {v : ℤ} {next : ℤ → RangeProg α}
    (hQ : (next v).Sat (onDisk hdr chars) Q d) :
    (int v >>= next).Sat (onDisk hdr chars) Q d := by
  have hans : Answers hdr chars (.int v) d () d := rfl
  exact answered hans hQ

theorem newChars_answered {next : CharArray size → RangeProg α}
    (hQ : ∀ buf : CharArray size, buf.val = Nachos.newChars chars size →
      (next buf).Sat (onDisk hdr chars) Q d) :
    (newChars size >>= next).Sat (onDisk hdr chars) Q d := by
  have hans : Answers hdr chars (.newChars size) d
    ⟨Nachos.newChars chars size,length_newChars chars size⟩ d := ⟨rfl,rfl⟩
  exact answered hans (hQ _ rfl)

theorem copyOut_answered {next : List Byte → RangeProg α}
    (h : Nachos.copyOut buf.val off len = .ok bytes)
    (hQ : (next bytes).Sat (onDisk hdr chars) Q d) :
    (copyOut buf off len >>= next).Sat (onDisk hdr chars) Q d := by
  have hans : Answers hdr chars (.copyOut size buf off len) d bytes d := ⟨h,rfl⟩
  exact answered hans hQ

theorem copyIn_answered {next : CharArray size → RangeProg α}
    (h : Nachos.copyIn buf.val off (src.take len.toNat) = .ok bytes)
    (hQ : ∀ buf' : CharArray size, buf'.val = bytes → (next buf').Sat (onDisk hdr chars) Q d) :
    (copyIn buf off len src >>= next).Sat (onDisk hdr chars) Q d := by
  have hans : Answers hdr chars (.copyIn size buf off len src) d
    ⟨bytes,(length_copyIn h).trans buf.2⟩ d := ⟨h,rfl⟩
  exact answered hans (hQ _ rfl)

theorem byteToSector_answered {sector : ℤ} {next : ℤ → RangeProg α}
    (h : hdr.byteToSector d off mode = .ok sector)
    (hQ : (next sector).Sat (onDisk hdr chars) Q d) :
    (byteToSector off mode >>= next).Sat (onDisk hdr chars) Q d := by
  have hans : Answers hdr chars (.byteToSector off mode) d sector d := ⟨h,rfl⟩
  exact answered hans hQ

theorem readSector_answered {sector : ℤ} {data : Sector} {next : List Byte → RangeProg α}
    (h : d.readRequest sector = .ok data)
    (hQ : (next data.bytes).Sat (onDisk hdr chars) Q d) :
    (readSector sector >>= next).Sat (onDisk hdr chars) Q d := by
  have hans : Answers hdr chars (.readSector sector) d data.bytes d := ⟨⟨data,h,rfl⟩,rfl⟩
  exact answered hans hQ

theorem writeSector_answered {sector : ℤ} {data : Sector} {next : Unit → RangeProg α}
    (hdata : Sector.ofBytes bytes = .ok data) (h : d.writeRequest sector data = .ok d')
    (hQ : (next ()).Sat (onDisk hdr chars) Q d') :
    (writeSector sector bytes >>= next).Sat (onDisk hdr chars) Q d := by
  have hans : Answers hdr chars (.writeSector sector bytes) d () d' := ⟨data,hdata,h⟩
  exact answered hans hQ

end Answered

/-- The sectors that are read fill the buffer from place `(i - first) * SectorSize` on. -/
theorem refines_readSectors {first : ℤ} {count j : ℕ}
    (h : OpenFile.readSectors hdr d mode count (first + j) = .ok bytes)
    (hfit : (j + count) * sectorSize ≤ size.toNat) :
    (readSectors first mode count (first + j) buf).Sat (onDisk hdr chars)
      (fun buf' t => buf'.val = splice buf.val (j * sectorSize) bytes ∧ t = d) d := by
  induction count generalizing j buf bytes with
  | zero =>
    cases h
    exact ⟨(splice_nil _ _).symm,rfl⟩
  | succ count ih =>
    obtain ⟨s,hs,h⟩ := Outcome.bind_eq_ok.mp h
    obtain ⟨data,hdata,h⟩ := Outcome.bind_eq_ok.mp h
    obtain ⟨rest,hrest,h⟩ := Outcome.bind_eq_ok.mp h
    cases h
    have hnext : first + j + 1 = first + (j + 1 : ℕ) := by omega
    have hplace : (first + j - first) * (sectorSize : ℤ) = (j * sectorSize : ℕ) := by
      rw [show first + (j : ℤ) - first = j by omega, Int.natCast_mul]
    rw [hnext] at hrest
    have hroom : j * sectorSize + data.bytes.length ≤ buf.val.length := by
      rw [data.length_bytes, buf.2]
      unfold sectorSize at *
      omega
    have hcopy : Nachos.copyIn buf.val ((first + j - first) * sectorSize)
        (data.bytes.take (sectorSize : ℤ).toNat) =
          .ok (splice buf.val (j * sectorSize) data.bytes) := by
      rw [hplace, Int.toNat_natCast, List.take_of_length_le data.length_bytes.le, Nachos.copyIn,
        if_pos (by omega), Int.toNat_natCast]
    refine int_answered (byteToSector_answered hs (readSector_answered hdata
      (int_answered (int_answered (copyIn_answered hcopy fun buf' hbuf' => int_answered ?_)))))
    rw [hnext]
    refine (ih hrest ?_).mono ?_
    · rwa [Nat.add_right_comm, Nat.add_assoc]
    · rintro buf₂ t ⟨hbuf₂,rfl⟩
      have hbehind : (j + 1) * sectorSize = j * sectorSize + data.bytes.length := by
        rw [Nat.succ_mul, data.length_bytes]
      rw [hbuf₂, hbuf', hbehind, splice_append hroom]
      exact ⟨rfl,rfl⟩

/-- The sectors that are written come from place `(i - first) * SectorSize` of the buffer on. -/
theorem refines_writeSectors {first : ℤ} {count j : ℕ}
    (h : OpenFile.writeSectors hdr mode count (first + j) (buf.val.drop (j * sectorSize)) d =
      .ok d') :
    (writeSectors first mode count (first + j) buf).Sat (onDisk hdr chars) (fun _ t => t = d')
      d := by
  induction count generalizing j d with
  | zero =>
    cases h
    exact rfl
  | succ count ih =>
    obtain ⟨s,hs,h⟩ := Outcome.bind_eq_ok.mp h
    obtain ⟨data,hdata,h⟩ := Outcome.bind_eq_ok.mp h
    obtain ⟨d₁,hd,h⟩ := Outcome.bind_eq_ok.mp h
    have hnext : first + j + 1 = first + (j + 1 : ℕ) := by omega
    have hplace : (first + j - first) * (sectorSize : ℤ) = (j * sectorSize : ℕ) := by
      rw [show first + (j : ℤ) - first = j by omega, Int.natCast_mul]
    rw [hnext, List.drop_drop, ← Nat.succ_mul] at h
    have hcopy : Nachos.copyOut buf.val ((first + j - first) * sectorSize) sectorSize =
        .ok ((buf.val.drop (j * sectorSize)).take sectorSize) := by
      have hlen : ((buf.val.drop (j * sectorSize)).take sectorSize).length = sectorSize := by
        unfold Sector.ofBytes at hdata
        split_ifs at hdata with hlen
        exact hlen
      have hpos : 0 < sectorSize := by decide
      rw [List.length_take, List.length_drop] at hlen
      rw [hplace, Nachos.copyOut, if_pos (by omega), Int.toNat_natCast, Int.toNat_natCast]
    refine int_answered (byteToSector_answered hs (int_answered (int_answered
      (copyOut_answered hcopy (writeSector_answered hdata hd (int_answered ?_))))))
    rw [hnext]
    exact ih h

theorem refines_drain {first last : ℤ} {buf : CharArray ((1 + last - first) * sectorSize)}
    (h : OpenFile.writeSectors hdr mode (1 + last - first).toNat first buf.val d = .ok d') :
    (writeSectors first mode (last - first + 1).toNat first buf).Sat (onDisk hdr chars)
      (fun _ t => t = d') d := by
  have hcount : (last - first + 1).toNat = (1 + last - first).toNat := by omega
  have hfirst : first + (0 : ℕ) = first := by omega
  have hwrite : (writeSectors first mode (1 + last - first).toNat (first + (0 : ℕ)) buf).Sat
      (onDisk hdr chars) (fun _ t => t = d') d := by
    refine refines_writeSectors ?_
    rwa [hfirst, Nat.zero_mul, List.drop_zero]
  rwa [hfirst, ← hcount] at hwrite

theorem clip_answered {L : ℤ} {α : Type} {next : ℤ → RangeProg α} {Q : α → Disk → Prop}
    {c : ℤ} (h : (if L < p + n then cint (L - p) else pure n) = .ok c)
    (hQ : (next c).Sat (onDisk hdr chars) Q d) :
    ((if L < p + n then int (L - p) else pure n) >>= next).Sat (onDisk hdr chars) Q d := by
  split_ifs at h ⊢
  · rw [cint] at h
    split_ifs at h
    cases h
    exact int_answered hQ
  · cases h
    exact hQ

theorem length_readSectors {count : ℕ} {i : ℤ}
    (h : OpenFile.readSectors hdr d mode count i = .ok bytes) :
    bytes.length = count * sectorSize := by
  induction count generalizing i bytes with
  | zero =>
    cases h
    exact (Nat.zero_mul _).symm
  | succ count ih =>
    obtain ⟨s,-,h⟩ := Outcome.bind_eq_ok.mp h
    obtain ⟨data,-,h⟩ := Outcome.bind_eq_ok.mp h
    obtain ⟨rest,hrest,h⟩ := Outcome.bind_eq_ok.mp h
    cases h
    rw [List.length_append, data.length_bytes, ih hrest, Nat.succ_mul, Nat.add_comm]

theorem fill_answered {α : Type} {first last : ℤ}
    {next : CharArray ((1 + last - first) * sectorSize) → RangeProg α} {Q : α → Disk → Prop}
    (h : OpenFile.readSectors hdr d mode (1 + last - first).toNat first = .ok bytes)
    (hQ : ∀ buf', buf'.val = bytes → (next buf').Sat (onDisk hdr chars) Q d)
    (buf : CharArray ((1 + last - first) * sectorSize)) :
    (readSectors first mode (last - first + 1).toNat first buf >>= next).Sat
      (onDisk hdr chars) Q d := by
  have hcount : (last - first + 1).toNat = (1 + last - first).toNat := by omega
  have hsize : (1 + last - first).toNat * sectorSize =
      ((1 + last - first) * sectorSize).toNat := by
    unfold sectorSize
    omega
  have hfirst : first + (0 : ℕ) = first := by omega
  have hread : (readSectors first mode (1 + last - first).toNat (first + (0 : ℕ)) buf).Sat
      (onDisk hdr chars) (fun buf' t => buf'.val = splice buf.val (0 * sectorSize) bytes ∧ t = d)
      d := by
    refine refines_readSectors (by rwa [hfirst]) ?_
    rw [Nat.zero_add]
    exact hsize.le
  rw [hfirst, ← hcount] at hread
  refine hread.bind ?_
  rintro buf' t ⟨hbuf',rfl⟩
  refine hQ buf' (hbuf'.trans ?_)
  rw [Nat.zero_mul, splice_all]
  rw [length_readSectors h, hsize, buf.2]

section Openfile
variable {S : Support} {f : OpenFile}

theorem length_readAt {out : ℤ × List Byte} (h : f.readAt S d n p mode = .ok out) :
    out.2.length = out.1.toNat := by
  unfold OpenFile.readAt at h
  dsimp only at h
  split_ifs at h with h0
  · cases h
    rfl
  obtain ⟨last,-,h⟩ := Outcome.bind_eq_ok.mp h
  obtain ⟨c,-,h⟩ := Outcome.bind_eq_ok.mp h
  obtain ⟨bytes,-,h⟩ := Outcome.bind_eq_ok.mp h
  obtain ⟨into,hinto,h⟩ := Outcome.bind_eq_ok.mp h
  cases h
  exact length_copyOut hinto

/-- The program gives what `ReadAt` of an open file gives. -/
theorem refines_readAt {out : ℤ × List Byte} (h : f.readAt S d n p mode = .ok out) :
    (readAt S f.hdr n p mode).Sat (onDisk f.hdr chars) (fun r t => r = out ∧ t = d) d := by
  unfold OpenFile.readAt at h
  unfold readAt
  dsimp only at h ⊢
  split_ifs at h ⊢ with h0
  · cases h
    exact ⟨rfl,rfl⟩
  obtain ⟨last,hlast,h⟩ := Outcome.bind_eq_ok.mp h
  obtain rfl := eq_of_cint hlast
  obtain ⟨c,hc,h⟩ := Outcome.bind_eq_ok.mp h
  obtain ⟨bytes,hbytes,h⟩ := Outcome.bind_eq_ok.mp h
  obtain ⟨into,hinto,h⟩ := Outcome.bind_eq_ok.mp h
  cases h
  refine int_answered (clip_answered hc (int_answered (int_answered (int_answered (int_answered
    (int_answered (newChars_answered fun buf _ => fill_answered hbytes (fun buf' hbuf' => ?_)
      buf)))))))
  obtain rfl := hbuf'
  refine int_answered (int_answered (copyOut_answered hinto ?_))
  exact ⟨rfl,rfl⟩

theorem refines_readInto (h : f.readInto S d buf.val off n p mode = .ok bytes) :
    (readAt S f.hdr n p mode >>= fun r => copyIn buf off r.1 r.2).Sat (onDisk f.hdr chars)
      (fun buf' t => buf'.val = bytes ∧ t = d) d := by
  obtain ⟨out,hout,hcopy⟩ := Outcome.bind_eq_ok.mp h
  refine (refines_readAt hout).bind ?_
  rintro _ t ⟨rfl,rfl⟩
  rw [← List.take_of_length_le (length_readAt hout).le] at hcopy
  have hdone : ∀ buf' : CharArray size, buf'.val = bytes → (ret buf').Sat (onDisk f.hdr chars)
      (fun buf' u => buf'.val = bytes ∧ u = t) t := fun _ hbuf' => ⟨hbuf',rfl⟩
  exact copyIn_answered hcopy hdone

/-- A sector that is only partly overwritten is read in first. -/
theorem edge_answered {α : Type} {c : Prop} [Decidable c] {x : Outcome (List Byte)}
    {edge : RangeProg (CharArray size)} {next : CharArray size → RangeProg α}
    {Q : α → Disk → Prop} (h : (if c then x else pure buf.val) = .ok bytes)
    (hedge : x = .ok bytes →
      edge.Sat (onDisk hdr chars) (fun buf' t => buf'.val = bytes ∧ t = d) d)
    (hQ : ∀ buf' : CharArray size, buf'.val = bytes → (next buf').Sat (onDisk hdr chars) Q d) :
    ((if c then edge else pure buf) >>= next).Sat (onDisk hdr chars) Q d := by
  split_ifs at h ⊢
  · refine (hedge h).bind ?_
    rintro buf' t ⟨hbuf',rfl⟩
    exact hQ buf' hbuf'
  · cases h
    exact hQ buf rfl

/-- The program leaves the disk that `WriteAt` of an open file leaves. -/
theorem refines_writeAt {r : ℤ} (h : f.writeAt S chars d src n p mode = .ok (r,d')) :
    (writeAt S f.hdr src n p mode).Sat (onDisk f.hdr chars) (fun r' t => r' = r ∧ t = d') d := by
  unfold OpenFile.writeAt at h
  unfold writeAt
  by_cases h0 : n ≤ 0 ∨ f.hdr.fileLength ≤ p
  · simp only [if_pos h0] at h ⊢
    cases h
    exact ⟨rfl,rfl⟩
  simp only [if_neg h0] at h ⊢
  obtain ⟨last,hlast,h⟩ := Outcome.bind_eq_ok.mp h
  obtain rfl := eq_of_cint hlast
  obtain ⟨c,hc,h⟩ := Outcome.bind_eq_ok.mp h
  obtain ⟨head,hhead,h⟩ := Outcome.bind_eq_ok.mp h
  obtain ⟨tail,htail,h⟩ := Outcome.bind_eq_ok.mp h
  obtain ⟨own,hown,h⟩ := Outcome.bind_eq_ok.mp h
  obtain ⟨whole,hwhole,h⟩ := Outcome.bind_eq_ok.mp h
  obtain ⟨d₁,hd,h⟩ := Outcome.bind_eq_ok.mp h
  cases h
  refine int_answered (clip_answered hc ?_)
  refine int_answered (int_answered (int_answered (int_answered (int_answered ?_))))
  refine newChars_answered fun buf hbuf => ?_
  refine int_answered (int_answered (int_answered (int_answered ?_)))
  rw [← hbuf] at hhead
  refine edge_answered hhead (fun h => int_answered (refines_readInto h)) fun buf₁ hbuf₁ => ?_
  rw [← hbuf₁] at htail
  refine edge_answered htail (fun h => int_answered (int_answered (int_answered
    (refines_readInto h)))) fun buf₂ hbuf₂ => ?_
  refine int_answered (int_answered ?_)
  have htake : own = src.take r.toNat := by
    unfold Nachos.copyOut at hown
    split_ifs at hown
    cases hown
    rfl
  rw [← hbuf₂, htake] at hwhole
  refine copyIn_answered hwhole fun buf₃ hbuf₃ => ?_
  rw [← hbuf₃] at hd
  refine (refines_drain hd).bind ?_
  rintro _ _ rfl
  exact ⟨rfl,rfl⟩

end Openfile

end OnDisk

end ByteRange

end Nachos
