import Nachos.Machine.Disk
import Nachos.Network.TCP

/-! # Cutting a string

`CutString` of `tcp.cc` as it writes to an array, and the part of `SendString` that allocates the
array. Both count the pieces for themselves. An index outside of the array and a `substr` that
throws are faults, and every number is an `int`.
-/
namespace Nachos

/-- A `std::string` is no longer than `max_size()`. -/
structure StdString where
  chars : List Byte
  length_lt : chars.length < 2 ^ 31

namespace StdString

/-- `substr(begin, len)`; without `len` up to the end. -/
def substr (s : StdString) (begin : ℤ) (len : Option ℕ) : Outcome (List Byte) :=
  if 0 ≤ begin ∧ begin ≤ s.chars.length then
    .ok ((s.chars.drop begin.toNat).take (len.getD s.chars.length))
  else .error .outOfBounds

end StdString

abbrev StringArray := List (List Byte)

namespace StringArray

/-- `out[i] = piece` -/
def assign (out : StringArray) (i : ℤ) (piece : List Byte) : Outcome StringArray :=
  if 0 ≤ i ∧ i < out.length then .ok (out.set i.toNat piece) else .error .outOfBounds

/-- The rounds `i`, `i + 1`, … of the loop in `CutString`. -/
def cutLoop (s : StdString) : ℕ → ℕ → ℤ → StringArray → Outcome (ℤ × StringArray)
  | 0, _, begin, out => return (begin,out)
  | count + 1, i, begin, out => do
    let piece ← s.substr begin maxMailSize
    let out ← out.assign i piece
    let begin ← cint (begin + maxMailSize)
    cutLoop s count (i + 1) begin out

/-- `CutString`: the array it leaves, and the number it returns. -/
def cutString (s : StdString) (out : StringArray) : Outcome (StringArray × ℤ) := do
  let pieces ← cint (nbPieces s.chars.length)
  let (begin,out) ← cutLoop s (pieces - 1).toNat 0 0 out
  let piece ← s.substr begin none
  let out ← out.assign (pieces - 1) piece
  return (out,pieces)

/-- What `SendString` does before it sends: `nbPieces`, `msgList`, and what `CutString` has
returned. -/
def msgList (msg : StdString) : Outcome (ℤ × StringArray × ℤ) := do
  let nbPieces ← cint (nbPieces msg.chars.length)
  let (msgList,returned) ← cutString msg (List.replicate nbPieces.toNat [])
  return (nbPieces,msgList,returned)

/-- The pieces fill the array, are returned as that many, are neither empty nor longer than a mail,
and are the string. -/
structure Cut (msg : StdString) (nbPieces : ℤ) (pieces : StringArray) (returned : ℤ) : Prop where
  filled : (pieces.length : ℤ) = nbPieces
  returned : returned = nbPieces
  sizes : ∀ piece ∈ pieces, 1 ≤ piece.length ∧ piece.length ≤ maxMailSize
  whole : pieces.flatten = msg.chars

/-- `CutString` stays inside of the array and cuts the string. -/
def CutsString (msg : StdString) : Prop :=
  ∃ nbPieces pieces returned, msgList msg = .ok (nbPieces,pieces,returned) ∧
    Cut msg nbPieces pieces returned

end StringArray

section Pieces
variable {s : List Byte} {pieces : List (List Byte)}

theorem nbPieces_spec {size : ℕ} (h : 0 < size) : 0 < nbPieces size ∧
    (nbPieces size - 1) * maxMailSize < size ∧ size ≤ nbPieces size * maxMailSize := by
  have hsize : maxMailSize = 40 := rfl
  unfold nbPieces
  rw [hsize]
  split_ifs <;> omega

theorem cutString_eq (h : s ≠ []) : cutString s =
    some ((List.range (nbPieces s.length - 1)).map (fun k => (s.drop (k * maxMailSize)).take maxMailSize) ++
      [s.drop ((nbPieces s.length - 1) * maxMailSize)]) := by
  have hpos := (nbPieces_spec (List.length_pos_iff.mpr h)).1
  exact if_neg (by omega)

theorem ne_nil_of_cutString (h : cutString s = some pieces) : s ≠ [] := by
  rintro rfl
  cases h

theorem length_cutString (h : cutString s = some pieces) : pieces.length = nbPieces s.length := by
  have hne := ne_nil_of_cutString h
  have hpos := (nbPieces_spec (List.length_pos_iff.mpr hne)).1
  rw [cutString_eq hne] at h
  cases h
  rw [List.length_append, List.length_map, List.length_range, List.length_singleton]
  omega

theorem sizes_cutString (h : cutString s = some pieces) :
    ∀ piece ∈ pieces, 1 ≤ piece.length ∧ piece.length ≤ maxMailSize := by
  have hne := ne_nil_of_cutString h
  obtain ⟨hpos,hlast,hall⟩ := nbPieces_spec (List.length_pos_iff.mpr hne)
  rw [cutString_eq hne] at h
  cases h
  have hmul : (nbPieces s.length - 1) * maxMailSize + maxMailSize =
      nbPieces s.length * maxMailSize := by
    rw [← Nat.succ_mul, Nat.succ_eq_add_one, Nat.sub_add_cancel hpos]
  intro piece hpiece
  rcases List.mem_append.mp hpiece with hpiece | hpiece
  · obtain ⟨k,hk,rfl⟩ := List.mem_map.mp hpiece
    have hk := List.mem_range.mp hk
    have hlt : k * maxMailSize < (nbPieces s.length - 1) * maxMailSize :=
      Nat.mul_lt_mul_of_pos_right hk (by decide)
    have hsize : maxMailSize = 40 := rfl
    rw [List.length_take, List.length_drop]
    omega
  · rw [List.mem_singleton.mp hpiece, List.length_drop]
    omega

theorem cutString_ne_nil (h : cutString s = some pieces) : ∀ piece ∈ pieces, piece ≠ [] := by
  intro piece hpiece
  exact List.length_pos_iff.mp (sizes_cutString h piece hpiece).1

theorem flatten_slices (s : List Byte) (size count : ℕ) :
    ((List.range count).map fun k => (s.drop (k * size)).take size).flatten =
      s.take (count * size) := by
  induction count with
  | zero => simp
  | succ count ih =>
    rw [List.range_succ, List.map_append, List.flatten_append, ih, Nat.succ_mul, List.take_add]
    simp

theorem flatten_cutString (h : cutString s = some pieces) : pieces.flatten = s := by
  rw [cutString_eq (ne_nil_of_cutString h)] at h
  cases h
  rw [List.flatten_append, flatten_slices, List.flatten_singleton, List.take_append_drop]

end Pieces

namespace StringArray
variable {msg : StdString} {out : StringArray} {pieces : List (List Byte)}

theorem assign_next (done rest : StringArray) (old piece : List Byte) :
    assign (done ++ old :: rest) done.length piece = .ok (done ++ [piece] ++ rest) := by
  rw [assign, if_pos]
  · simp
  · simp only [List.length_append, List.length_cons]
    omega

theorem substr_eq {begin : ℕ} (h : begin ≤ msg.chars.length) (len : Option ℕ) :
    msg.substr begin len = .ok ((msg.chars.drop begin).take (len.getD msg.chars.length)) := by
  rw [StdString.substr, if_pos (by omega), Int.toNat_natCast]

/-- By induction on the rounds that are left; `done` is what has been written. -/
theorem cutLoop_eq (msg : StdString) (count : ℕ) (done rest : StringArray)
    (hrest : count ≤ rest.length) (hle : (done.length + count) * maxMailSize ≤ msg.chars.length) :
    cutLoop msg count done.length (done.length * maxMailSize : ℕ) (done ++ rest) =
      .ok (((done.length + count) * maxMailSize : ℕ),done ++ (List.range count).map (fun k =>
        (msg.chars.drop ((done.length + k) * maxMailSize)).take maxMailSize) ++ rest.drop count) := by
  induction count generalizing done rest with
  | zero => simp [cutLoop]
  | succ count ih =>
    cases rest with
    | nil => simp at hrest
    | cons old rest =>
      have hmul : (done.length + (count + 1)) * maxMailSize =
          done.length * maxMailSize + maxMailSize + count * maxMailSize := by
        rw [Nat.add_mul, Nat.succ_mul]
        omega
      have hlen := msg.length_lt
      have hnext := ih (done ++ [(msg.chars.drop (done.length * maxMailSize)).take maxMailSize])
        rest (by simpa using hrest) (by
          rw [List.length_append, List.length_singleton, Nat.add_assoc, Nat.add_comm 1]
          exact hle)
      rw [List.length_append, List.length_singleton] at hnext
      have hint : cint ((done.length * maxMailSize : ℕ) + (maxMailSize : ℕ)) =
          .ok (((done.length + 1) * maxMailSize : ℕ) : ℤ) := by
        rw [cint_eq_ok]
        · rw [Nat.succ_mul, Int.natCast_add]
        · unfold IsInt
          omega
      rw [cutLoop, substr_eq (by omega), Outcome.ok_bind, assign_next, Outcome.ok_bind, hint,
        Outcome.ok_bind, Option.getD_some, hnext]
      have hshift : ∀ k, done.length + 1 + k = done.length + (k + 1) := by omega
      simp only [hshift, List.range_succ_eq_map, List.map_cons, List.map_map, List.drop_succ_cons,
        Nat.add_zero, List.append_assoc, Function.comp_def, List.nil_append,
        Nat.succ_eq_add_one, List.cons_append]

/-- On an array with a place for each piece `CutString` leaves the pieces. -/
theorem cutString_eq (h : Nachos.cutString msg.chars = some pieces)
    (hout : out.length = nbPieces msg.chars.length) :
    cutString msg out = .ok (pieces,(nbPieces msg.chars.length : ℕ)) := by
  have hne := ne_nil_of_cutString h
  obtain ⟨hpos,hlast,-⟩ := nbPieces_spec (List.length_pos_iff.mpr hne)
  rw [Nachos.cutString_eq hne] at h
  cases h
  have hmsg := msg.length_lt
  have hsize : maxMailSize = 40 := rfl
  generalize hn : nbPieces msg.chars.length = n at hpos hlast hout
  obtain ⟨m,rfl⟩ : ∃ m, n = m + 1 := ⟨n - 1,by omega⟩
  rw [Nat.add_sub_cancel] at hlast ⊢
  have hcount : (((m + 1 : ℕ) : ℤ) - 1).toNat = m := by omega
  have hint : IsInt ((m + 1 : ℕ) : ℤ) := by
    rw [hsize] at hlast
    unfold IsInt
    omega
  have hloop := cutLoop_eq msg m [] out (by omega) (by simpa using hlast.le)
  simp only [List.length_nil, Nat.zero_add, Nat.zero_mul, Int.natCast_zero, List.nil_append]
    at hloop
  obtain ⟨old,hold⟩ : ∃ old, out.drop m = [old] := by
    apply List.length_eq_one_iff.mp
    rw [List.length_drop]
    omega
  rw [cutString, hn, cint_eq_ok hint, Outcome.ok_bind, hcount, hloop, Outcome.ok_bind]
  dsimp only
  rw [substr_eq hlast.le, Outcome.ok_bind, hold]
  have hassign := assign_next ((List.range m).map fun k =>
    (msg.chars.drop (k * maxMailSize)).take maxMailSize) [] old
    ((msg.chars.drop (m * maxMailSize)).take msg.chars.length)
  rw [List.length_map, List.length_range, List.append_nil] at hassign
  have hindex : ((m + 1 : ℕ) : ℤ) - 1 = m := by omega
  rw [hindex, Option.getD_none, hassign, Outcome.ok_bind, List.take_of_length_le]
  · rfl
  · rw [List.length_drop]
    omega

/-- For `SendString`, the array code computes the pieces that are sent. -/
theorem msgList_eq (h : Nachos.cutString msg.chars = some pieces) :
    msgList msg = .ok (pieces.length,pieces,pieces.length) := by
  have hlen := length_cutString h
  obtain ⟨hpos,hlast,-⟩ := nbPieces_spec (List.length_pos_iff.mpr (ne_nil_of_cutString h))
  have hmsg := msg.length_lt
  have hint : IsInt (nbPieces msg.chars.length : ℕ) := by
    have hsize : maxMailSize = 40 := rfl
    rw [hsize] at hlast
    unfold IsInt
    omega
  rw [msgList, cint_eq_ok hint, Outcome.ok_bind, Int.toNat_natCast,
    cutString_eq h List.length_replicate, hlen]
  rfl

/-- The empty string has no pieces, and its last piece is written in front of the array. -/
theorem msgList_nil (h : msg.chars = []) : msgList msg = .error .outOfBounds := by
  have hnone : cint (nbPieces msg.chars.length : ℕ) = .ok 0 := by
    rw [h]
    exact cint_eq_ok (by decide)
  rw [msgList, hnone, Outcome.ok_bind, cutString, hnone, Outcome.ok_bind]
  simp [cutLoop, StdString.substr, assign]

end StringArray

/-- `CutString` stays inside of the array and cuts every string but the empty one. -/
theorem cutsString_iff (msg : StdString) : StringArray.CutsString msg ↔ msg.chars ≠ [] := by
  constructor
  · rintro ⟨nbPieces,pieces,returned,hcut,-⟩ hnil
    rw [StringArray.msgList_nil hnil] at hcut
    cases hcut
  · intro hne
    have h := cutString_eq hne
    exact ⟨_,_,_,StringArray.msgList_eq h,rfl,rfl,sizes_cutString h,flatten_cutString h⟩

theorem not_cutsString : ¬ StringArray.CutsString ⟨[],by decide⟩ := by
  rintro ⟨nbPieces,pieces,returned,hcut,-⟩
  rw [StringArray.msgList_nil rfl] at hcut
  cases hcut

end Nachos
