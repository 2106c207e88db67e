import Mathlib.Data.List.Basic

/-! # Ranges of cells laid out over equal blocks

A store maps addresses to blocks of `B` cells. A range is given by the address
of each of its blocks, in order; its contents are the concatenated cells.
Overwriting some of the blocks from a buffer is a splice of the contents.
-/
namespace Nachos

/-- `l` with the cells from `pos` on replaced by `s`. -/
def splice {α : Type*} (l : List α) (pos : ℕ) (s : List α) : List α :=
  l.take pos ++ s ++ l.drop (pos + s.length)

section Splice
variable {α : Type*} {l s s' : List α} {pos x : ℕ}

@[simp] theorem splice_nil (l : List α) (pos : ℕ) : splice l pos [] = l := by
  simp [splice, List.take_append_drop]

theorem length_splice (h : pos + s.length ≤ l.length) : (splice l pos s).length = l.length := by
  simp only [splice, List.length_append, List.length_take, List.length_drop]
  omega

/-- Inside the replaced range the new cells stand, elsewhere the old ones. -/
theorem getElem?_splice (h : pos + s.length ≤ l.length) :
    (splice l pos s)[x]? = if pos ≤ x ∧ x < pos + s.length then s[x - pos]? else l[x]? := by
  have hl : (l.take pos).length = pos := by rw [List.length_take]; omega
  have hls : (l.take pos ++ s).length = pos + s.length := by rw [List.length_append, hl]
  unfold splice
  by_cases h1 : x < pos
  · rw [List.append_assoc, List.getElem?_append_left (by omega), List.getElem?_take_of_lt h1,
      if_neg (by omega)]
  · by_cases h2 : x < pos + s.length
    · rw [List.getElem?_append_left (by omega), List.getElem?_append_right (by omega), hl,
        if_pos (by omega)]
    · rw [List.getElem?_append_right (by omega), hls, List.getElem?_drop, if_neg (by omega)]
      congr 1; omega

theorem take_splice (h : pos ≤ l.length) :
    (splice l pos s).take (pos + s.length) = l.take pos ++ s := by
  have hlen : (l.take pos ++ s).length = pos + s.length := by
    rw [List.length_append, List.length_take_of_le h]
  rw [splice, ← hlen, List.take_left]

theorem splice_append (h : pos + s.length ≤ l.length) :
    splice (splice l pos s) (pos + s.length) s' = splice l pos (s ++ s') := by
  have hdrop : (splice l pos s).drop (pos + s.length + s'.length) =
      l.drop (pos + (s ++ s').length) := by
    have hlen : (l.take pos ++ s).length = pos + s.length := by
      rw [List.length_append, List.length_take_of_le (by omega)]
    rw [splice, ← hlen, List.drop_length_add_append, List.drop_drop, hlen, List.length_append,
      Nat.add_assoc]
  rw [splice, take_splice (by omega), hdrop, splice, List.append_assoc (l.take pos)]

theorem splice_all (h : s.length = l.length) : splice l 0 s = s := by
  simp [splice, h]

end Splice

namespace BlockRegion
variable {ι β α : Type*} (bytes : β → List α)

/-- The cells of the first `n` blocks of a range. -/
def contents (d : ι → β) (σ : ℕ → ι) (n : ℕ) : List α :=
  (List.range n).flatMap fun k => bytes (d (σ k))

variable {bytes} {d d' : ι → β} {σ : ℕ → ι} {n B : ℕ}

theorem contents_succ : contents bytes d σ (n + 1) = contents bytes d σ n ++ bytes (d (σ n)) := by
  simp [contents, List.range_succ, List.flatMap_append]

theorem contents_succ' :
    contents bytes d σ (n + 1) = bytes (d (σ 0)) ++ contents bytes d (fun k => σ (k + 1)) n := by
  simp [contents, List.range_succ_eq_map, List.flatMap_cons, List.flatMap_map]

theorem contents_add {m : ℕ} : contents bytes d σ (m + n) =
    contents bytes d σ m ++ contents bytes d (fun k => σ (m + k)) n := by
  simp [contents, List.range_add, List.flatMap_append, List.flatMap_map]

theorem contents_congr {σ' : ℕ → ι} (h : ∀ k < n, d' (σ' k) = d (σ k)) :
    contents bytes d' σ' n = contents bytes d σ n := by
  unfold contents
  rw [List.flatMap_def, List.flatMap_def, List.map_congr_left]
  intro k hk
  rw [h k (List.mem_range.mp hk)]

theorem length_contents (hB : ∀ b, (bytes b).length = B) :
    (contents bytes d σ n).length = n * B := by
  induction n with
  | zero => simp [contents]
  | succ n ih => rw [contents_succ, List.length_append, ih, hB, Nat.succ_mul]

theorem getElem?_contents (hB : ∀ b, (bytes b).length = B) (hpos : 0 < B) {x : ℕ}
    (hx : x < n * B) : (contents bytes d σ n)[x]? = (bytes (d (σ (x / B))))[x % B]? := by
  induction n with
  | zero => simp at hx
  | succ n ih =>
    have hl : (contents bytes d σ n).length = n * B := length_contents hB
    rw [contents_succ]
    rw [Nat.succ_mul] at hx
    by_cases h : x < n * B
    · rw [List.getElem?_append_left (by omega), ih h]
    · have hq : x / B = n := by
        rw [Nat.div_eq_iff hpos]
        constructor <;> omega
      have hr : x % B = x - n * B := by
        have := Nat.div_add_mod x B
        rw [hq, Nat.mul_comm] at this
        omega
      rw [List.getElem?_append_right (by omega), hl, hq, hr]

/-- Consecutive blocks, starting anywhere in a range, are a slice of its contents. -/
theorem contents_slice (hB : ∀ b, (bytes b).length = B) (hpos : 0 < B) {i c : ℕ}
    (h : i + c ≤ n) : contents bytes d (fun k => σ (i + k)) c =
      ((contents bytes d σ n).drop (i * B)).take (c * B) := by
  apply List.ext_getElem?
  intro x
  rw [List.getElem?_take, List.getElem?_drop]
  have hl : (contents bytes d (fun k => σ (i + k)) c).length = c * B := length_contents hB
  have hm : (i + c) * B ≤ n * B := Nat.mul_le_mul_right B h
  rw [Nat.add_mul] at hm
  by_cases hx : x < c * B
  · rw [if_pos hx, getElem?_contents hB hpos hx, getElem?_contents hB hpos (by omega),
      Nat.mul_comm i B, Nat.mul_add_div hpos, Nat.mul_add_mod]
  · rw [if_neg hx, List.getElem?_eq_none (by omega)]

/-- Storing a buffer over `c` blocks from block `i` on splices it into the contents. -/
theorem contents_store (hB : ∀ b, (bytes b).length = B) (hpos : 0 < B) {i c : ℕ} {buf : List α}
    (h : i + c ≤ n) (hbuf : buf.length = c * B)
    (hin : ∀ k < c, bytes (d' (σ (i + k))) = (buf.drop (k * B)).take B)
    (hout : ∀ k < n, (k < i ∨ i + c ≤ k) → d' (σ k) = d (σ k)) :
    contents bytes d' σ n = splice (contents bytes d σ n) (i * B) buf := by
  have hm : (i + c) * B ≤ n * B := Nat.mul_le_mul_right B h
  rw [Nat.add_mul] at hm
  have hl : i * B + buf.length ≤ (contents bytes d σ n).length := by
    rw [length_contents hB, hbuf]; exact hm
  apply List.ext_getElem?
  intro x
  rw [getElem?_splice hl]
  by_cases hx : x < n * B
  · have hk : x / B < n := (Nat.div_lt_iff_lt_mul hpos).mpr hx
    rw [getElem?_contents hB hpos hx]
    by_cases hr : i * B ≤ x ∧ x < i * B + buf.length
    · have h1 : i ≤ x / B := (Nat.le_div_iff_mul_le hpos).mpr hr.1
      have h2 : x / B < i + c := by
        rw [Nat.div_lt_iff_lt_mul hpos, Nat.add_mul, ← hbuf]; exact hr.2
      have hs := hin (x / B - i) (by omega)
      rw [show i + (x / B - i) = x / B by omega] at hs
      rw [hs, if_pos hr, List.getElem?_take_of_lt (Nat.mod_lt x hpos), List.getElem?_drop]
      congr 1
      have hd := Nat.div_add_mod x B
      rw [Nat.mul_comm] at hd
      rw [Nat.sub_mul]
      have hib : i * B ≤ x / B * B := Nat.mul_le_mul_right B h1
      omega
    · have ho : x / B < i ∨ i + c ≤ x / B := by
        by_contra hno
        obtain ⟨h1,h2⟩ := not_or.mp hno
        apply hr
        refine ⟨(Nat.le_div_iff_mul_le hpos).mp (Nat.le_of_not_lt h1),?_⟩
        rw [hbuf, ← Nat.add_mul]
        exact (Nat.div_lt_iff_lt_mul hpos).mp (Nat.lt_of_not_le h2)
      rw [if_neg hr, hout _ hk ho, getElem?_contents hB hpos hx]
  · have hn : (contents bytes d' σ n).length ≤ x := by rw [length_contents hB]; omega
    rw [List.getElem?_eq_none hn, if_neg (by omega), List.getElem?_eq_none]
    rw [length_contents hB]; omega

end BlockRegion

end Nachos
