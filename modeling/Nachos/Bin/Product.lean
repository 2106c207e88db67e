import Nachos.Bin.Execute
import Nachos.Machine.Multiply

/-! # The product in parts

The interpreter multiplies half words. It drops what the middle products and the upper half of
the lowest one carry into the high word, and a middle product that does not fit into an `int` is
shifted with its sign.
-/
namespace Nachos
open DoubleWord

/-- Nothing is carried from the lower halves of the middle products, and these are not negative
as an `int`. -/
structure NoCarry (a b : ℕ) : Prop where
  sum : a / 2 ^ 16 * (b % 2 ^ 16) % 2 ^ 16 + b / 2 ^ 16 * (a % 2 ^ 16) % 2 ^ 16 +
    a % 2 ^ 16 * (b % 2 ^ 16) / 2 ^ 16 < 2 ^ 16
  left : a / 2 ^ 16 * (b % 2 ^ 16) < 2 ^ 31
  right : b / 2 ^ 16 * (a % 2 ^ 16) < 2 ^ 31

theorem append_inj {hi lo hi' lo' : Word} (h : hi ++ lo = hi' ++ lo') : hi = hi' ∧ lo = lo' := by
  have hhi := hi.isLt
  have hlo := lo.isLt
  have hhi' := hi'.isLt
  have hlo' := lo'.isLt
  rw [append_eq_ofNat, append_eq_ofNat, ← BitVec.toNat_inj, BitVec.toNat_ofNat,
    BitVec.toNat_ofNat] at h
  exact ⟨BitVec.eq_of_toNat_eq (by omega),BitVec.eq_of_toNat_eq (by omega)⟩

namespace Interpreter

theorem toNat_half (x : Word) : (x &&& 0xffff).toNat = x.toNat % 2 ^ 16 := by
  rw [BitVec.toNat_and]
  exact Nat.and_two_pow_sub_one_eq_mod x.toNat 16

theorem toNat_sshiftRight_half (x : Word) : (x.sshiftRight 16).toNat =
    x.toNat / 2 ^ 16 + if x.toNat < 2 ^ 31 then 0 else 2 ^ 32 - 2 ^ 16 := by
  have hx := x.isLt
  rw [BitVec.toNat_sshiftRight, BitVec.msb_eq_decide]
  by_cases h : x.toNat < 2 ^ 31
  · have h' : ¬ 2 ^ (32 - 1) ≤ x.toNat := Nat.not_le.mpr h
    rw [decide_eq_false h', if_neg Bool.false_ne_true, if_pos h, Nat.shiftRight_eq_div_pow]
    rfl
  · have h' : 2 ^ (32 - 1) ≤ x.toNat := Nat.not_lt.mp h
    rw [decide_eq_true h', if_pos rfl, if_neg h, Nat.shiftRight_eq_div_pow]
    omega

theorem toNat_upperHalf (x : Word) :
    (x.sshiftRight 16 &&& 0xffff).toNat = x.toNat / 2 ^ 16 := by
  have hx := x.isLt
  rw [toNat_half, toNat_sshiftRight_half]
  split_ifs <;> omega

theorem high_eq_iff (a b : Word) :
    (high a b).toNat = a.toNat * b.toNat / 2 ^ 32 ↔ NoCarry a.toNat b.toNat := by
  have ha := a.isLt
  have hb := b.isLt
  have hsmall : ∀ x y : ℕ, x < 2 ^ 16 → y < 2 ^ 16 → x * y < 2 ^ 32 := fun x y hx hy =>
    (Nat.mul_lt_mul'' hx hy).trans_eq (by rw [← Nat.pow_add])
  have hmul : ∀ x y : Word, x.toNat < 2 ^ 16 → y.toNat < 2 ^ 16 →
      (x * y).toNat = x.toNat * y.toNat := fun x y hx hy => by
    rw [BitVec.toNat_mul, Nat.mod_eq_of_lt (hsmall _ _ hx hy)]
  have hlow : ∀ x : Word, (x &&& 0xffff).toNat < 2 ^ 16 := fun x => by
    rw [toNat_half]
    exact Nat.mod_lt _ (by decide)
  have hup : ∀ x : Word, (x.sshiftRight 16 &&& 0xffff).toNat < 2 ^ 16 := fun _ => hlow _
  have hproduct : a.toNat * b.toNat = a.toNat / 2 ^ 16 * (b.toNat / 2 ^ 16) * 2 ^ 32 +
      (a.toNat / 2 ^ 16 * (b.toNat % 2 ^ 16) + b.toNat / 2 ^ 16 * (a.toNat % 2 ^ 16)) * 2 ^ 16 +
      a.toNat % 2 ^ 16 * (b.toNat % 2 ^ 16) := by
    conv_lhs => rw [← Nat.div_add_mod a.toNat (2 ^ 16), ← Nat.div_add_mod b.toNat (2 ^ 16)]
    ring
  have hhigh : (high a b).toNat = (a.toNat / 2 ^ 16 * (b.toNat / 2 ^ 16) +
      (a.toNat / 2 ^ 16 * (b.toNat % 2 ^ 16) / 2 ^ 16 +
        if a.toNat / 2 ^ 16 * (b.toNat % 2 ^ 16) < 2 ^ 31 then 0 else 2 ^ 32 - 2 ^ 16) +
      (b.toNat / 2 ^ 16 * (a.toNat % 2 ^ 16) / 2 ^ 16 +
        if b.toNat / 2 ^ 16 * (a.toNat % 2 ^ 16) < 2 ^ 31 then 0 else 2 ^ 32 - 2 ^ 16)) %
      2 ^ 32 := by
    simp only [high, BitVec.toNat_add, toNat_sshiftRight_half (_ * _), hmul _ _ (hup _) (hup _),
      hmul _ _ (hup _) (hlow _)]
    simp only [toNat_upperHalf]
    simp only [toNat_half]
    omega
  have hx := hsmall (a.toNat / 2 ^ 16) (b.toNat % 2 ^ 16) (by omega) (by omega)
  have hy := hsmall (b.toNat / 2 ^ 16) (a.toNat % 2 ^ 16) (by omega) (by omega)
  have hz := hsmall (a.toNat % 2 ^ 16) (b.toNat % 2 ^ 16) (by omega) (by omega)
  have htop : a.toNat * b.toNat < 2 ^ 64 := by
    calc a.toNat * b.toNat < 2 ^ 32 * 2 ^ 32 := Nat.mul_lt_mul'' ha hb
      _ = 2 ^ 64 := by rw [← Nat.pow_add]
  have hiff : NoCarry a.toNat b.toNat ↔ _ ∧ _ ∧ _ :=
    ⟨fun h => ⟨h.sum,h.left,h.right⟩,fun h => ⟨h.1,h.2.1,h.2.2⟩⟩
  rw [hhigh, hiff]
  rw [hproduct] at htop ⊢
  generalize a.toNat / 2 ^ 16 * (b.toNat / 2 ^ 16) = w at *
  generalize a.toNat / 2 ^ 16 * (b.toNat % 2 ^ 16) = x at *
  generalize b.toNat / 2 ^ 16 * (a.toNat % 2 ^ 16) = y at *
  generalize a.toNat % 2 ^ 16 * (b.toNat % 2 ^ 16) = z at *
  split_ifs <;> omega

theorem unsigned_iff (a b : Word) :
    high a b ++ a * b = BitVec.ofNat 64 (a.toNat * b.toNat) ↔ NoCarry a.toNat b.toNat := by
  have hhigh := (high a b).isLt
  have htop : a.toNat * b.toNat < 2 ^ 64 := by
    calc a.toNat * b.toNat < 2 ^ 32 * 2 ^ 32 := Nat.mul_lt_mul'' a.isLt b.isLt
      _ = 2 ^ 64 := by rw [← Nat.pow_add]
  rw [← high_eq_iff, append_eq_ofNat, ← BitVec.toNat_inj, BitVec.toNat_ofNat, BitVec.toNat_ofNat,
    BitVec.toNat_mul]
  omega

theorem multiply_append {a b x y : Word} (hx : x = if a.toInt < 0 then -a else a)
    (hy : y = if b.toInt < 0 then -b else b) : (multiply a b).1 ++ (multiply a b).2 =
      if (decide (a.toInt < 0) != decide (b.toInt < 0)) = true then -(high x y ++ x * y)
      else high x y ++ x * y := by
  have hslt : ∀ w : Word, w.slt 0 = decide (w.toInt < 0) := fun _ => BitVec.slt_eq_decide
  simp only [multiply, hslt, decide_eq_true_eq, ← hx, ← hy]
  by_cases hneg : (decide (a.toInt < 0) != decide (b.toInt < 0)) = true
  · rw [if_pos hneg, if_pos hneg, ← append_neg]
    congr 1
    split <;> simp
  · rw [if_neg hneg, if_neg hneg]

theorem signed_iff (a b : Word) : (multiply a b).1 ++ (multiply a b).2 =
    BitVec.ofInt 64 (a.toInt * b.toInt) ↔ NoCarry a.toInt.natAbs b.toInt.natAbs := by
  rw [multiply_append rfl rfl, signed_product, ← toNat_abs a, ← toNat_abs b, ← unsigned_iff]
  generalize (if a.toInt < 0 then -a else a) = x
  generalize (if b.toInt < 0 then -b else b) = y
  split_ifs
  · rw [BitVec.ofInt_neg, BitVec.ofInt_natCast]
    exact neg_inj
  · rw [BitVec.ofInt_natCast]

theorem multiply_eq {a b : Word} (h : NoCarry a.toInt.natAbs b.toInt.natAbs) :
    multiply a b = mult a b true := by
  obtain ⟨hhi,hlo⟩ := append_inj (((signed_iff a b).mpr h).trans (mult_signed a b).symm)
  exact Prod.ext hhi hlo

theorem high_eq {a b : Word} (h : NoCarry a.toNat b.toNat) :
    high a b = (mult a b false).1 ∧ a * b = (mult a b false).2 :=
  append_inj (((unsigned_iff a b).mpr h).trans (mult_unsigned a b).symm)

/-- `HI` and `LO` hold the product exactly when nothing is carried into `HI`. -/
theorem exactProduct (a b : Word) :
    (((multiply a b).1 ++ (multiply a b).2).toInt = a.toInt * b.toInt ↔
      NoCarry a.toInt.natAbs b.toInt.natAbs) ∧
    ((high a b ++ a * b).toNat = a.toNat * b.toNat ↔ NoCarry a.toNat b.toNat) := by
  constructor
  · have habs : ∀ x : Word, x.toInt.natAbs ≤ 2 ^ 31 := fun x => by
      have := BitVec.le_toInt x
      have := @BitVec.toInt_lt 32 x
      omega
    have hab : (a.toInt * b.toInt).natAbs ≤ 2 ^ 31 * 2 ^ 31 := by
      rw [Int.natAbs_mul]
      exact Nat.mul_le_mul (habs a) (habs b)
    have hround : (BitVec.ofInt 64 (a.toInt * b.toInt)).toInt = a.toInt * b.toInt :=
      BitVec.toInt_ofInt_eq_self (by decide) (by omega) (by omega)
    rw [← signed_iff, ← BitVec.toInt_inj, hround]
  · have hround : (BitVec.ofNat 64 (a.toNat * b.toNat)).toNat = a.toNat * b.toNat := by
      rw [BitVec.toNat_ofNat]
      exact Nat.mod_eq_of_lt ((Nat.mul_lt_mul'' a.isLt b.isLt).trans_eq (by rw [← Nat.pow_add]))
    rw [← unsigned_iff, ← BitVec.toNat_inj, hround]

end Interpreter

end Nachos
