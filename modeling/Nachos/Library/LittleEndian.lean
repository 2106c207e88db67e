import Nachos.Library.Codec
import Mathlib.Algebra.Order.Ring.Nat

/-! # Numbers as bytes

A number in a given number of bytes, least significant byte first, and the number that a list of
bytes stands for. The words of a codec are the case of four bytes.
-/
namespace Nachos.LittleEndian

def bytes : ℕ → ℕ → List Byte
  | 0, _ => []
  | n + 1, v => BitVec.ofNat 8 v :: bytes n (v / 256)

def value : List Byte → ℕ
  | [] => 0
  | b :: bs => b.toNat + 256 * value bs

@[simp] theorem length_bytes (n v : ℕ) : (bytes n v).length = n := by
  induction n generalizing v with
  | zero => rfl
  | succ n ih => simp [bytes, ih]

theorem value_bytes (n v : ℕ) : value (bytes n v) = v % 256 ^ n := by
  induction n generalizing v with
  | zero => simp [bytes, value, Nat.mod_one]
  | succ n ih =>
    have hpow : 256 ^ (n + 1) = 256 * 256 ^ n := pow_succ' 256 n
    rw [bytes, value, ih, BitVec.toNat_ofNat, hpow, Nat.mod_mul]

theorem bytes_eq_map (n v : ℕ) :
    bytes n v = (List.range n).map fun i => BitVec.ofNat 8 (v / 256 ^ i) := by
  induction n generalizing v with
  | zero => rfl
  | succ n ih =>
    rw [bytes, ih, List.range_succ_eq_map, List.map_cons, List.map_map, pow_zero, Nat.div_one]
    congr 2
    funext i
    rw [Function.comp_apply, Nat.div_div_eq_div_mul, ← pow_succ']

theorem wordByte_eq (w : Word) (i : ℕ) :
    Codec.wordByte w i = BitVec.ofNat 8 (w.toNat / 256 ^ i) := by
  apply BitVec.eq_of_toNat_eq
  rw [Codec.wordByte, BitVec.extractLsb'_toNat, Nat.shiftRight_eq_div_pow, pow_mul,
    BitVec.toNat_ofNat]
  rfl

theorem map_wordByte (w : Word) (n : ℕ) :
    (List.range n).map (Codec.wordByte w) = bytes n w.toNat := by
  rw [bytes_eq_map]
  exact List.map_congr_left fun i _ => wordByte_eq w i

theorem encode_word (w : Word) : Codec.word.encode w = bytes 4 w.toNat := map_wordByte w 4

theorem decode_word {bs : List Byte} (h : bs.length = 4) :
    Codec.word.decode bs = BitVec.ofNat 32 (value bs) := by
  have hword : (Codec.word.decode bs).toNat = value bs := by
    have hround := congrArg value (Codec.word.encode_decode bs h)
    rw [encode_word, value_bytes] at hround
    rw [← hround]
    exact (Nat.mod_eq_of_lt (Codec.word.decode bs).isLt).symm
  rw [← hword, BitVec.ofNat_toNat, BitVec.setWidth_eq]

end Nachos.LittleEndian
