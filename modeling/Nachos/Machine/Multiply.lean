import Nachos.Machine.MipsSim
import Nachos.Library.DoubleWord

/-! # Multiplication

`Mult` adds up shifted copies of one operand, for the bits of the other from the lowest on. The
other operand is shifted with its sign, but not more often than it has bits.
-/
namespace Nachos
open DoubleWord

theorem negative_iff (x : Word) : Negative x ↔ x.msb = true := by
  change x &&& BitVec.twoPow 32 31 ≠ 0 ↔ _
  rw [BitVec.and_twoPow, BitVec.msb_eq_getLsbD_last]
  split
  case isTrue h => exact iff_of_true (by decide) h
  case isFalse h => exact iff_of_false (not_not.mpr rfl) h

theorem low_bits {n : ℕ} (hn : n < 32) (a : Word) :
    a.toNat % 2 ^ (n + 1) = a.toNat % 2 + 2 * ((a.sshiftRight 1).toNat % 2 ^ n) := by
  have hhalf : (a.sshiftRight 1).toNat % 2 ^ n = a.toNat / 2 % 2 ^ n := by
    have ha := a.isLt
    rw [BitVec.toNat_sshiftRight]
    cases hmsb : a.msb with
    | false => simp [Nat.shiftRight_eq_div_pow]
    | true =>
      have hdvd : 2 ^ n ∣ 2 ^ 31 := Nat.pow_dvd_pow 2 (by omega)
      have hshift : 2 ^ 32 - 1 - (2 ^ 32 - 1 - a.toNat) >>> 1 = a.toNat / 2 + 2 ^ 31 := by
        rw [Nat.shiftRight_eq_div_pow]
        omega
      rw [if_pos rfl, hshift, Nat.add_mod, Nat.mod_eq_zero_of_dvd hdvd, Nat.add_zero, Nat.mod_mod]
  rw [hhalf, Nat.pow_succ', Nat.mod_mul]

theorem toNat_low (a : Word) : (a &&& 1).toNat = a.toNat % 2 := by
  rw [BitVec.toNat_and]
  exact Nat.and_one_is_mod a.toNat

theorem odd_iff (a : Word) : a &&& 1 ≠ 0 ↔ a.toNat % 2 = 1 := by
  constructor
  · intro h
    have hne : (a &&& 1).toNat ≠ 0 := fun h0 => h (BitVec.eq_of_toNat_eq h0)
    rw [toNat_low] at hne
    omega
  · intro h h0
    have hz := toNat_low a
    rw [h0] at hz
    have hzero : (0 : Word).toNat = 0 := rfl
    omega

/-- The early exit: no other bit is set. -/
theorem toNat_of_exit {a : Word} (hodd : a &&& 1 ≠ 0) (h : a &&& 0xfffffffe = 0) :
    a.toNat = 1 := by
  have hor : (a &&& 0xfffffffe) ||| (a &&& 1) = a := by
    rw [← BitVec.and_or_distrib_left]
    exact BitVec.and_allOnes
  rw [h] at hor
  have hor : a &&& 1 = a := BitVec.zero_or.symm.trans hor
  have hlow := toNat_low a
  rw [hor] at hlow
  exact hlow.trans ((odd_iff a).mp hodd)

theorem shift_high (hi lo : Word) :
    (if lo &&& 0x80000000 ≠ 0 then hi <<< 1 ||| 1 else hi <<< 1) =
      hi + (if lo.msb then 1 else 0) + hi := by
  have hbit : lo &&& 0x80000000 ≠ 0 ↔ lo.msb = true := negative_iff lo
  by_cases h : lo.msb = true
  · have hand : hi <<< 1 &&& 1 = 0 := by
      ext i hi
      simp
      omega
    rw [if_pos (hbit.mpr h), if_pos h, ← BitVec.add_eq_or_of_and_eq_zero _ _ hand]
    bv_omega
  · rw [if_neg (mt hbit.mp h), if_neg h]
    bv_omega

/-- A round of the loop adds the shifted operand if the bit is set. -/
theorem multLoop_eq {n : ℕ} (hn : n ≤ 32) (a bHi bLo hi lo : Word) :
    (multLoop n a bHi bLo hi lo).1 ++ (multLoop n a bHi bLo hi lo).2 =
      (hi ++ lo) + (bHi ++ bLo) * BitVec.ofNat 64 (a.toNat % 2 ^ n) := by
  induction n generalizing a bHi bLo hi lo with
  | zero => simp [multLoop, Nat.mod_one]
  | succ n ih =>
    have hround : ∀ hi' lo' : Word,
        (hi' ++ lo') + (bHi + (if bLo.msb then 1 else 0) + bHi ++ (bLo + bLo)) *
            BitVec.ofNat 64 ((a.sshiftRight 1).toNat % 2 ^ n) =
          (hi' ++ lo') + (bHi ++ bLo) * BitVec.ofNat 64
            (2 * ((a.sshiftRight 1).toNat % 2 ^ n)) := by
      intro hi' lo'
      have htwo : BitVec.ofNat 64 2 = 2 := rfl
      rw [append_double, BitVec.ofNat_mul, htwo]
      ring
    have hbLo : bLo <<< 1 = bLo + bLo := by bv_omega
    simp only [multLoop, shift_high, hbLo]
    by_cases hodd : a &&& 1 ≠ 0
    · have hadd : (if lo + bLo < bLo then hi + 1 else hi) + bHi ++ (lo + bLo) =
          (hi ++ lo) + (bHi ++ bLo) := by
        rw [← append_add]
        congr 2
        rw [carry]
        split <;> simp
      simp only [if_pos hodd]
      by_cases hexit : a &&& 0xfffffffe = 0
      · rw [if_pos ⟨hodd,hexit⟩, hadd, toNat_of_exit hodd hexit]
        rw [Nat.mod_eq_of_lt (Nat.one_lt_two_pow (by omega))]
        simp
      · rw [if_neg (fun h => hexit h.2), ih (by omega), hround, hadd, low_bits (by omega) a,
          (odd_iff a).mp hodd, BitVec.ofNat_add, BitVec.mul_add, BitVec.mul_one, BitVec.add_assoc]
    · have heven : a.toNat % 2 = 0 := by
        have := mt (odd_iff a).mpr hodd
        omega
      simp only [if_neg hodd]
      rw [if_neg (fun h => hodd h.1), ih (by omega), hround, low_bits (by omega) a, heven,
        Nat.zero_add]

/-- The loop multiplies two words as natural numbers. -/
theorem multLoop_toNat (a b : Word) :
    ((multLoop 32 a 0 b 0 0).1 ++ (multLoop 32 a 0 b 0 0).2) =
      BitVec.ofNat 64 (a.toNat * b.toNat) := by
  rw [multLoop_eq le_rfl, Nat.mod_eq_of_lt a.isLt]
  have hb : (0 : Word) ++ b = BitVec.ofNat 64 b.toNat := by
    rw [append_eq_ofNat]
    simp
  have hz : (0 : Word) ++ (0 : Word) = (0 : BitVec 64) := by decide
  rw [hb, hz, BitVec.ofNat_mul]
  ring

theorem toNat_abs (x : Word) : (if x.toInt < 0 then -x else x).toNat = x.toInt.natAbs := by
  have hx := x.isLt
  by_cases hneg : x.toInt < 0
  · rw [if_pos hneg, BitVec.toNat_neg]
    rw [BitVec.toInt_eq_toNat_cond] at hneg ⊢
    omega
  · rw [if_neg hneg]
    rw [BitVec.toInt_eq_toNat_cond] at hneg ⊢
    omega

theorem mult_unsigned (a b : Word) :
    (mult a b false).1 ++ (mult a b false).2 = BitVec.ofNat 64 (a.toNat * b.toNat) := by
  rw [mult]
  by_cases h0 : a = 0 ∨ b = 0
  · rw [if_pos h0]
    rcases h0 with rfl | rfl <;> simp
  · rw [if_neg h0]
    simpa using multLoop_toNat a b

/-- The sign of the product, put back onto the product of the absolute values. -/
theorem signed_product (x y : ℤ) :
    x * y = if (decide (x < 0) != decide (y < 0)) = true then -((x.natAbs * y.natAbs : ℕ) : ℤ)
      else ((x.natAbs * y.natAbs : ℕ) : ℤ) := by
  rw [Nat.cast_mul]
  by_cases hx : x < 0
  · have hxa : (x.natAbs : ℤ) = -x := by omega
    by_cases hy : y < 0
    · have hya : (y.natAbs : ℤ) = -y := by omega
      simp [hx, hy, hxa, hya]
    · have hya : (y.natAbs : ℤ) = y := by omega
      simp [hx, hy, hxa, hya]
  · have hxa : (x.natAbs : ℤ) = x := by omega
    by_cases hy : y < 0
    · have hya : (y.natAbs : ℤ) = -y := by omega
      simp [hx, hy, hxa, hya]
    · have hya : (y.natAbs : ℤ) = y := by omega
      simp [hx, hy, hxa, hya]

theorem mult_signed (a b : Word) :
    (mult a b true).1 ++ (mult a b true).2 = BitVec.ofInt 64 (a.toInt * b.toInt) := by
  have hslt : ∀ x : Word, x.slt 0 = decide (x.toInt < 0) := fun _ => BitVec.slt_eq_decide
  rw [mult]
  by_cases h0 : a = 0 ∨ b = 0
  · rw [if_pos h0]
    rcases h0 with rfl | rfl <;> simp
  · rw [if_neg h0, signed_product]
    have hloop := multLoop_toNat (if a.toInt < 0 then -a else a) (if b.toInt < 0 then -b else b)
    rw [toNat_abs, toNat_abs, ← BitVec.ofInt_natCast] at hloop
    simp only [Bool.true_and, hslt, decide_eq_true_eq]
    generalize multLoop 32 (if a.toInt < 0 then -a else a) 0
      (if b.toInt < 0 then -b else b) 0 0 = r at hloop ⊢
    obtain ⟨hi,lo⟩ := r
    by_cases hneg : (decide (a.toInt < 0) != decide (b.toInt < 0)) = true
    · rw [if_pos hneg, if_pos hneg, BitVec.ofInt_neg, ← hloop, ← append_neg]
      congr 1
      split <;> simp
    · rw [if_neg hneg, if_neg hneg]
      exact hloop

/-- The two words are the exact product, of signed or of unsigned numbers. -/
theorem multiplication (a b : Word) :
    ((mult a b true).1 ++ (mult a b true).2).toInt = a.toInt * b.toInt ∧
      ((mult a b false).1 ++ (mult a b false).2).toNat = a.toNat * b.toNat := by
  constructor
  · have ha : a.toInt.natAbs ≤ 2 ^ 31 := by
      have := BitVec.le_toInt a
      have := @BitVec.toInt_lt 32 a
      omega
    have hb : b.toInt.natAbs ≤ 2 ^ 31 := by
      have := BitVec.le_toInt b
      have := @BitVec.toInt_lt 32 b
      omega
    have hab : (a.toInt * b.toInt).natAbs ≤ 2 ^ 31 * 2 ^ 31 := by
      rw [Int.natAbs_mul]
      exact Nat.mul_le_mul ha hb
    rw [mult_signed]
    exact BitVec.toInt_ofInt_eq_self (by decide) (by omega) (by omega)
  · rw [mult_unsigned, BitVec.toNat_ofNat]
    refine Nat.mod_eq_of_lt ?_
    calc a.toNat * b.toNat < 2 ^ 32 * 2 ^ 32 := Nat.mul_lt_mul'' a.isLt b.isLt
      _ = 2 ^ 64 := by rw [← Nat.pow_add]

end Nachos
