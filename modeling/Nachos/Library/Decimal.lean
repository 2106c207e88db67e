import Mathlib.Data.Nat.Digits.Defs

/-! # Decimal numbers as characters

Writing a number in decimal and reading a decimal number off the front of a string.
What follows the number must not start with a digit.
-/
namespace Nachos.Decimal

abbrev Character := BitVec 8

def digit (d : ℕ) : Character := BitVec.ofNat 8 (48 + d)

def isDigit (c : Character) : Bool := 48 ≤ c.toNat && c.toNat ≤ 57

/-- `std::to_string` of a number that is not negative. -/
def toString (n : ℕ) : List Character :=
  if n = 0 then [digit 0] else ((Nat.digits 10 n).reverse).map digit

def value (cs : List Character) : ℕ := cs.foldl (fun acc c => 10 * acc + (c.toNat - 48)) 0

def isSpace (c : Character) : Bool := c.toNat = 32 || (9 ≤ c.toNat && c.toNat ≤ 13)

/-- `atoi`: blanks, a sign and digits, up to the first other character. -/
def atoi (cs : List Character) : ℤ :=
  match cs.dropWhile isSpace with
  | c :: rest =>
    if c.toNat = 45 then -(value (rest.takeWhile isDigit) : ℤ)
    else if c.toNat = 43 then value (rest.takeWhile isDigit)
    else value ((c :: rest).takeWhile isDigit)
  | [] => 0

theorem toNat_digit {d : ℕ} (h : d < 10) : (digit d).toNat = 48 + d := by
  rw [digit, BitVec.toNat_ofNat]
  omega

theorem isDigit_digit {d : ℕ} (h : d < 10) : isDigit (digit d) = true := by
  rw [isDigit, toNat_digit h, Bool.and_eq_true, decide_eq_true_iff, decide_eq_true_iff]
  omega

theorem isDigit_toString {n : ℕ} {c : Character} (h : c ∈ toString n) : isDigit c = true := by
  unfold toString at h
  split_ifs at h with h0
  · rw [List.mem_singleton.mp h]
    exact isDigit_digit (by decide)
  · obtain ⟨d,hd,rfl⟩ := List.mem_map.mp h
    exact isDigit_digit (Nat.digits_lt_base (by decide) (List.mem_reverse.mp hd))

theorem toString_ne_nil (n : ℕ) : toString n ≠ [] := by
  unfold toString
  split_ifs with h0
  · exact List.cons_ne_nil _ _
  · simp [Nat.digits_ne_nil_iff_ne_zero.mpr h0]

theorem value_map_digit {ds : List ℕ} (h : ∀ d ∈ ds, d < 10) :
    value (ds.reverse.map digit) = Nat.ofDigits 10 ds := by
  rw [value, List.foldl_map, List.foldl_reverse, Nat.ofDigits_eq_foldr]
  induction ds with
  | nil => rfl
  | cons d ds ih =>
    have hd := toNat_digit (h d List.mem_cons_self)
    rw [List.foldr_cons, List.foldr_cons, ih fun e he => h e (List.mem_cons_of_mem d he), hd]
    simp only [Nat.cast_id]
    omega

theorem value_toString (n : ℕ) : value (toString n) = n := by
  unfold toString
  split_ifs with h0
  · rw [h0]
    rfl
  · rw [value_map_digit fun d hd => Nat.digits_lt_base (by decide) hd, Nat.ofDigits_digits]

theorem takeWhile_toString (n : ℕ) {rest : List Character}
    (hrest : ∀ c ∈ rest.head?, isDigit c = false) :
    (toString n ++ rest).takeWhile isDigit = toString n := by
  rw [List.takeWhile_append_of_pos fun c hc => isDigit_toString hc]
  cases rest with
  | nil => rw [List.takeWhile_nil, List.append_nil]
  | cons c rest =>
    rw [List.takeWhile_cons_of_neg (by rw [hrest c rfl]; decide), List.append_nil]

/-- A number that was written is read back. -/
theorem atoi_toString (n : ℕ) {rest : List Character}
    (hrest : ∀ c ∈ rest.head?, isDigit c = false) : atoi (toString n ++ rest) = n := by
  obtain ⟨c,cs,hcs⟩ := List.exists_cons_of_ne_nil (toString_ne_nil n)
  have hc : isDigit c = true := isDigit_toString (n := n) (by rw [hcs]; exact List.mem_cons_self)
  rw [isDigit, Bool.and_eq_true, decide_eq_true_iff, decide_eq_true_iff] at hc
  have hspace : isSpace c = false := by
    rw [isSpace, Bool.or_eq_false_iff, Bool.and_eq_false_iff, decide_eq_false_iff_not,
      decide_eq_false_iff_not, decide_eq_false_iff_not]
    omega
  have htake := takeWhile_toString n hrest
  rw [atoi]
  rw [hcs, List.cons_append] at htake ⊢
  rw [List.dropWhile_cons_of_neg (by rw [hspace]; decide)]
  simp only []
  rw [if_neg (by omega), if_neg (by omega), htake, ← hcs, value_toString]

end Nachos.Decimal
