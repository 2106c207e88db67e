import Mathlib.Data.List.Basic
import Mathlib.Logic.Equiv.Basic

/-! # Fixed-size codecs

A value of a fixed-size type stands in memory as a list of bytes. Both round
trips are fields of a codec, so products, vectors and renamed records carry
their own inverse laws and no layout is checked twice.
-/
namespace Nachos

abbrev Byte := BitVec 8
abbrev Word := BitVec 32

/-- Memory images of `size` bytes for the values of `α`. -/
structure Codec (α : Type*) where
  size : ℕ
  encode : α → List Byte
  decode : List Byte → α
  length_encode : ∀ a, (encode a).length = size
  decode_encode : ∀ a, decode (encode a) = a
  encode_decode : ∀ bs : List Byte, bs.length = size → encode (decode bs) = bs

namespace Codec
variable {α β : Type*}

attribute [simp] length_encode decode_encode

def byte : Codec Byte where
  size := 1
  encode b := [b]
  decode bs := bs.headD 0
  length_encode _ := rfl
  decode_encode _ := rfl
  encode_decode bs h := by
    obtain ⟨b,rfl⟩ := List.length_eq_one_iff.mp h
    rfl

/-- The byte of weight `256 ^ i` of a word. -/
def wordByte (w : Word) (i : ℕ) : Byte := w.extractLsb' (8 * i) 8

def wordOfBytes (b₀ b₁ b₂ b₃ : Byte) : Word := b₃ ++ b₂ ++ b₁ ++ b₀

theorem wordOfBytes_wordByte (w : Word) :
    wordOfBytes (wordByte w 0) (wordByte w 1) (wordByte w 2) (wordByte w 3) = w := by
  apply BitVec.eq_of_getLsbD_eq
  intro i hi
  simp only [wordOfBytes, wordByte, BitVec.getLsbD_append, BitVec.getLsbD_extractLsb']
  have h : i < 8 ∨ (8 ≤ i ∧ i < 16) ∨ (16 ≤ i ∧ i < 24) ∨ (24 ≤ i ∧ i < 32) := by omega
  rcases h with h | ⟨h,h'⟩ | ⟨h,h'⟩ | ⟨h,h'⟩
  · simp [h]
  · have h1 : ¬ i < 8 := by omega
    have h2 : i - 8 < 8 := by omega
    simp only [h1, h2, if_false, if_true, decide_true, Bool.true_and]
    congr 1; omega
  · have h1 : ¬ i < 8 := by omega
    have h2 : ¬ i - 8 < 8 := by omega
    have h3 : i - 8 - 8 < 8 := by omega
    simp only [h1, h2, h3, if_false, if_true, decide_true, Bool.true_and]
    congr 1; omega
  · have h1 : ¬ i < 8 := by omega
    have h2 : ¬ i - 8 < 8 := by omega
    have h3 : ¬ i - 8 - 8 < 8 := by omega
    have h4 : i - 8 - 8 - 8 < 8 := by omega
    simp only [h1, h2, h3, h4, if_false, decide_true, Bool.true_and]
    congr 1; omega

theorem wordByte_wordOfBytes (b₀ b₁ b₂ b₃ : Byte) :
    wordByte (wordOfBytes b₀ b₁ b₂ b₃) 0 = b₀ ∧ wordByte (wordOfBytes b₀ b₁ b₂ b₃) 1 = b₁ ∧
    wordByte (wordOfBytes b₀ b₁ b₂ b₃) 2 = b₂ ∧ wordByte (wordOfBytes b₀ b₁ b₂ b₃) 3 = b₃ := by
  refine ⟨?_,?_,?_,?_⟩ <;>
  · apply BitVec.eq_of_getLsbD_eq
    intro i hi
    simp (disch := omega) only [wordOfBytes, wordByte, BitVec.getLsbD_append,
      BitVec.getLsbD_extractLsb', hi, decide_true, Bool.true_and, if_pos, if_neg]
    exact congrArg _ (by omega)

/-- A 32-bit word, least significant byte first. -/
def word : Codec Word where
  size := 4
  encode w := [wordByte w 0, wordByte w 1, wordByte w 2, wordByte w 3]
  decode bs := wordOfBytes (bs.getD 0 0) (bs.getD 1 0) (bs.getD 2 0) (bs.getD 3 0)
  length_encode _ := rfl
  decode_encode w := wordOfBytes_wordByte w
  encode_decode bs h := by
    match bs, h with
    | [b₀, b₁, b₂, b₃], _ =>
      obtain ⟨h₀,h₁,h₂,h₃⟩ := wordByte_wordOfBytes b₀ b₁ b₂ b₃
      simp [h₀, h₁, h₂, h₃]

/-- Two fields in a row. -/
def prod (c : Codec α) (e : Codec β) : Codec (α × β) where
  size := c.size + e.size
  encode p := c.encode p.1 ++ e.encode p.2
  decode bs := (c.decode (bs.take c.size), e.decode (bs.drop c.size))
  length_encode p := by simp
  decode_encode p := by
    rw [List.take_left' (c.length_encode _), List.drop_left' (c.length_encode _)]
    simp
  encode_decode bs h := by
    rw [c.encode_decode _ (by simp [h]), e.encode_decode _ (by simp [h]), List.take_append_drop]

def iso (c : Codec α) (e : α ≃ β) : Codec β where
  size := c.size
  encode b := c.encode (e.symm b)
  decode bs := e (c.decode bs)
  length_encode b := by simp
  decode_encode b := by simp
  encode_decode bs h := by simp [c.encode_decode bs h]

def listDecode (c : Codec α) : ℕ → List Byte → List α
  | 0, _ => []
  | n + 1, bs => c.decode (bs.take c.size) :: listDecode c n (bs.drop c.size)

theorem length_listDecode (c : Codec α) (n : ℕ) (bs : List Byte) :
    (c.listDecode n bs).length = n := by
  induction n generalizing bs with
  | zero => rfl
  | succ n ih => simp [listDecode, ih]

theorem listDecode_flatMap (c : Codec α) (xs : List α) :
    c.listDecode xs.length (xs.flatMap c.encode) = xs := by
  induction xs with
  | nil => rfl
  | cons x xs ih =>
    simp only [List.length_cons, List.flatMap_cons, listDecode]
    rw [List.take_left' (c.length_encode x), List.drop_left' (c.length_encode x), ih,
      c.decode_encode]

theorem flatMap_listDecode (c : Codec α) (n : ℕ) (bs : List Byte) (h : bs.length = n * c.size) :
    (c.listDecode n bs).flatMap c.encode = bs := by
  induction n generalizing bs with
  | zero =>
    have hb : bs = [] := List.eq_nil_of_length_eq_zero (by simpa using h)
    simp [listDecode, hb]
  | succ n ih =>
    rw [Nat.succ_mul] at h
    have hd : (bs.drop c.size).length = n * c.size := by rw [List.length_drop]; omega
    have ht : (bs.take c.size).length = c.size := by rw [List.length_take]; omega
    simp only [listDecode, List.flatMap_cons]
    rw [ih _ hd, c.encode_decode _ ht, List.take_append_drop]

/-- An array of `n` elements. -/
def vector (c : Codec α) (n : ℕ) : Codec (Vector α n) where
  size := n * c.size
  encode v := v.toList.flatMap c.encode
  decode bs := ⟨(c.listDecode n bs).toArray, by simp [length_listDecode]⟩
  length_encode v := by simp
  decode_encode v := by
    have h := c.listDecode_flatMap v.toList
    rw [Vector.length_toList] at h
    apply Vector.toList_inj.mp
    simpa using h
  encode_decode bs h := by
    simpa using c.flatMap_listDecode n bs h

end Codec

end Nachos
