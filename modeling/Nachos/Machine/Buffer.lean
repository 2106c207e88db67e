import Nachos.Machine.Disk
import Nachos.Library.BlockRegion

/-! # Character buffers

A `char` array of fixed size. A copy that would leave the array is a fault. What has been
copied into the front of a buffer is a prefix of it, and is read back from there.
-/
namespace Nachos

structure Buffer (n : ℕ) where
  bytes : List Byte
  length_bytes : bytes.length = n

namespace Buffer
variable {n : ℕ}

def get (b : Buffer n) (off len : ℕ) : Outcome (List Byte) :=
  if off + len ≤ n then .ok ((b.bytes.drop off).take len) else .error .outOfBounds

def put (b : Buffer n) (off : ℕ) (src : List Byte) : Outcome (Buffer n) :=
  if h : off + src.length ≤ n then
    .ok ⟨splice b.bytes off src,
      (length_splice (by rw [b.length_bytes]; exact h)).trans b.length_bytes⟩
  else .error .outOfBounds

variable {b : Buffer n} {pre src rest : List Byte}

theorem length_le (h : pre <+: b.bytes) : pre.length ≤ n := b.length_bytes ▸ h.length_le

theorem get_prefix (h : pre ++ src <+: b.bytes) : b.get pre.length src.length = .ok src := by
  obtain ⟨rest,hr⟩ := h
  have hlen := congrArg List.length hr
  simp only [List.length_append, b.length_bytes] at hlen
  rw [get, if_pos (by omega), ← hr, List.append_assoc, List.drop_left, List.take_left]

theorem put_prefix (src : List Byte) (h : pre <+: b.bytes) (hn : pre.length + src.length ≤ n) :
    ∃ b', b.put pre.length src = .ok b' ∧ pre ++ src <+: b'.bytes := by
  obtain ⟨rest,hr⟩ := h
  refine ⟨_,dif_pos hn,rest.drop src.length,?_⟩
  simp only [splice, ← hr, List.take_left, ← List.drop_drop, List.drop_left]

theorem get_start (h : src <+: b.bytes) : b.get 0 src.length = .ok src :=
  show b.get ([] : List Byte).length src.length = .ok src from get_prefix h

theorem put_start (b : Buffer n) (src : List Byte) (hn : src.length ≤ n) :
    ∃ b', b.put 0 src = .ok b' ∧ src <+: b'.bytes :=
  put_prefix src List.nil_prefix (by simpa using hn)

end Buffer

/-- The first `len` bytes behind a pointer. -/
def firstBytes (data : List Byte) (len : ℕ) : Outcome (List Byte) :=
  if len ≤ data.length then .ok (data.take len) else .error .outOfBounds

end Nachos
