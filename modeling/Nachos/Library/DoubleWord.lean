import Mathlib.Data.BitVec
import Mathlib.Data.Nat.ModEq
import Mathlib.Tactic.Ring

/-! # Arithmetic on two words

A number of `2 * w` bits in two words of `w` bits, added with a carry by hand. Doubling and
negation are sums.
-/
namespace Nachos.DoubleWord
variable {w : ℕ} {hi lo hi' lo' : BitVec w}

def carry (sum x : BitVec w) : BitVec w := if sum < x then 1 else 0

theorem append_eq_ofNat (hi lo : BitVec w) :
    hi ++ lo = BitVec.ofNat (w + w) (hi.toNat * 2 ^ w + lo.toNat) := by
  apply BitVec.eq_of_toNat_eq
  have hlt := (hi ++ lo).isLt
  have happ : (hi ++ lo).toNat = hi.toNat * 2 ^ w + lo.toNat := by
    rw [BitVec.toNat_append, Nat.shiftLeft_eq, Nat.mul_comm]
    exact (Nat.two_pow_add_eq_or_of_lt lo.isLt hi.toNat).symm
  rw [BitVec.toNat_ofNat, ← happ, Nat.mod_eq_of_lt hlt]

theorem carry_toNat_mul (x y : BitVec w) :
    (carry (x + y) y).toNat * 2 ^ w + (x + y).toNat = x.toNat + y.toNat := by
  have hx := x.isLt
  have hy := y.isLt
  have hlt : x + y < y ↔ (x.toNat + y.toNat) % 2 ^ w < y.toNat := by
    rw [BitVec.lt_def, BitVec.toNat_add]
  rw [carry, if_congr hlt rfl rfl, BitVec.toNat_add]
  by_cases h : x.toNat + y.toNat < 2 ^ w
  · rw [Nat.mod_eq_of_lt h, if_neg (by omega)]
    simp
  · have hw : 0 < w := by
      by_contra h0
      have hw0 : w = 0 := by omega
      subst hw0
      omega
    have hmod : (x.toNat + y.toNat) % 2 ^ w = x.toNat + y.toNat - 2 ^ w := by
      rw [Nat.mod_eq_sub_mod (by omega), Nat.mod_eq_of_lt (by omega)]
    have hone : (1 : BitVec w).toNat = 1 := by
      rw [BitVec.ofNat_eq_ofNat, BitVec.toNat_ofNat]
      exact Nat.mod_eq_of_lt (Nat.one_lt_two_pow (by omega))
    rw [hmod, if_pos (by omega), hone]
    omega

theorem append_add (hi lo hi' lo' : BitVec w) :
    (hi + carry (lo + lo') lo' + hi') ++ (lo + lo') = (hi ++ lo) + (hi' ++ lo') := by
  simp only [append_eq_ofNat, ← BitVec.ofNat_add]
  apply BitVec.eq_of_toNat_eq
  simp only [BitVec.toNat_ofNat]
  have hcarry := carry_toNat_mul lo lo'
  generalize carry (lo + lo') lo' = c at hcarry ⊢
  have hhi : (hi + c + hi').toNat ≡ hi.toNat + c.toNat + hi'.toNat [MOD 2 ^ w] := by
    simp [Nat.ModEq, BitVec.toNat_add]
  have hmul := Nat.ModEq.mul_right' (2 ^ w) hhi
  rw [← pow_add] at hmul
  have hsum := hmul.add_right (lo + lo').toNat
  refine hsum.trans ?_
  have heq : (hi.toNat + c.toNat + hi'.toNat) * 2 ^ w + (lo + lo').toNat =
      hi.toNat * 2 ^ w + lo.toNat + (hi'.toNat * 2 ^ w + lo'.toNat) := by
    rw [Nat.add_mul, Nat.add_mul]
    omega
  rw [heq]

theorem carry_self (x : BitVec w) : carry (x + x) x = if x.msb then 1 else 0 := by
  have hlt := x.isLt
  have hcarry : x + x < x ↔ x.msb = true := by
    rw [BitVec.msb_eq_decide, decide_eq_true_eq, BitVec.lt_def, BitVec.toNat_add]
    cases w with
    | zero => simp [BitVec.eq_nil x]
    | succ w =>
      have hpow : 2 ^ (w + 1) = 2 * 2 ^ w := Nat.pow_succ'
      rw [Nat.add_sub_cancel]
      by_cases h : 2 ^ w ≤ x.toNat
      · rw [Nat.mod_eq_sub_mod (by omega), Nat.mod_eq_of_lt (by omega)]
        omega
      · rw [Nat.mod_eq_of_lt (by omega)]
        omega
  rw [carry]
  exact if_congr hcarry rfl rfl

theorem append_double (hi lo : BitVec w) :
    (hi + (if lo.msb then 1 else 0) + hi) ++ (lo + lo) = (hi ++ lo) + (hi ++ lo) := by
  rw [← carry_self, append_add]

theorem append_neg (hi lo : BitVec w) :
    (~~~hi + if ~~~lo + 1 = 0 then 1 else 0) ++ (~~~lo + 1) = -(hi ++ lo) := by
  have hlo : ~~~lo + 1 = -lo := (BitVec.neg_eq_not_add lo).symm
  have hhi : ~~~hi = -hi - 1 := eq_sub_of_add_eq (BitVec.neg_eq_not_add hi).symm
  rw [eq_neg_iff_add_eq_zero, ← append_add, hlo, hhi]
  have hsum : -lo + lo = 0 := by ring
  rw [hsum]
  by_cases h : lo = 0
  · have hc : carry 0 lo = 0 := by rw [carry, h]; simp
    rw [hc, if_pos (by rw [h]; simp)]
    have hz : -hi - 1 + 1 + 0 + hi = 0 := by ring
    rw [hz]
    simp
  · have hpos : 0 < lo := (BitVec.pos_iff_ne_zero lo).mpr h
    have hc : carry 0 lo = 1 := if_pos hpos
    rw [hc, if_neg (fun hn => h (neg_eq_zero.mp hn))]
    have hz : -hi - 1 + 0 + 1 + hi = 0 := by ring
    rw [hz]
    simp

end Nachos.DoubleWord
