import Nachos.FileSys.Layout
import Nachos.Library.Pointwise
import Nachos.Library.Run
import Mathlib.Data.List.TakeWhile
import Mathlib.Data.Set.Card

/-! # Files as byte arrays

What a user of the file system sees: a byte array of fixed length for each file, a cursor for each
handle, and a number of free sectors. Transfers are clipped at the end of the array, and a file is
refused only for its name or for want of room.
-/
namespace Nachos

inductive FileRequest where
  | create (name : List Byte) (initialSize : Word)
  | openFile (name : List Byte)
  | seek (k position : ℕ)
  | read (k : ℕ) (numBytes : ℤ)
  | write (k : ℕ) (src : List Byte) (numBytes : ℤ)

inductive FileReply where
  /-- With the bytes the new file starts with. -/
  | created (contents : Option (List Byte))
  | opened (found : Bool)
  | sought
  | read (count : ℤ) (into : List Byte)
  | written (count : ℤ)

/-- Names are told apart by their first characters only. -/
def fileKey (name : List Byte) : List Byte := cString fileNameMaxLen name

theorem fileKey_fileKey (name : List Byte) : fileKey (fileKey name) = fileKey name := by
  have hlen : (fileKey name).length ≤ fileNameMaxLen :=
    (List.takeWhile_prefix _).length_le.trans (List.length_take_le _ _)
  rw [fileKey, cString, List.take_of_length_le hlen]
  exact List.takeWhile_idem

def IsDotName (name : List Byte) : Prop :=
  fileKey name = Directory.dot ∨ fileKey name = Directory.dotDot

instance (name : List Byte) : Decidable (IsDotName name) := inferInstanceAs (Decidable (_ ∨ _))

/-- The header, the index sectors and the data sectors of a file. -/
def fileSectors (size : ℕ) : ℕ := 1 + indexCount (sectorCount size) + sectorCount size

structure ByteStore where
  contents : List Byte → Option (List Byte)
  handles : List (List Byte × ℕ)
  free : ℤ

namespace ByteStore

/-- A disk of `1024` sectors, five of them with the free map and the root. -/
def empty : ByteStore := ⟨fun _ => none,[],1019⟩

def Enters (b : ByteStore) (name : List Byte) : Prop :=
  ¬ IsDotName name ∧ b.contents (fileKey name) = none ∧
    {k | b.contents k ≠ none}.ncard < numDirEntries - 2 ∧ 0 < b.free

def store (b : ByteStore) (key c : List Byte) : ByteStore :=
  { b with contents := Function.update b.contents key (some c) }

def moveTo (b : ByteStore) (k : ℕ) (key : List Byte) (cursor : ℕ) : ByteStore :=
  { b with handles := b.handles.set k (key,cursor) }

theorem contents_store (b : ByteStore) (key c key' : List Byte) :
    (b.store key c).contents key' = if key' = key then some c else b.contents key' :=
  Function.update_apply _ _ _ _

inductive Step (b : ByteStore) : FileRequest × FileReply → ByteStore → Prop
  | refused {name : List Byte} {initialSize : Word} : ¬ b.Enters name →
      Step b (.create name initialSize,.created none) b
  /-- Nothing is said of the sectors of a file with a negative size. -/
  | created {name c : List Byte} {initialSize : Word} {sectors : ℕ} : b.Enters name →
      c.length = initialSize.toInt.toNat →
      (0 ≤ initialSize.toInt → sectors = fileSectors initialSize.toInt.toNat) →
      Step b (.create name initialSize,.created (some c))
        { b.store (fileKey name) c with free := b.free - sectors }
  | missing {name : List Byte} : b.contents (fileKey name) = none → ¬ IsDotName name →
      Step b (.openFile name,.opened false) b
  | opened {name : List Byte} : b.contents (fileKey name) ≠ none ∨ IsDotName name →
      Step b (.openFile name,.opened true)
        { b with handles := b.handles ++ [(fileKey name,0)] }
  | sought {k position cursor : ℕ} {key : List Byte} : b.handles[k]? = some (key,cursor) →
      Step b (.seek k position,.sought) (b.moveTo k key position)
  | read {k n cursor : ℕ} {key c : List Byte} {numBytes : ℤ} :
      b.handles[k]? = some (key,cursor) → b.contents key = some c →
      n = transferCount c.length cursor numBytes →
      Step b (.read k numBytes,.read n ((c.drop cursor).take n)) (b.moveTo k key (cursor + n))
  | written {k n cursor : ℕ} {key c src : List Byte} {numBytes : ℤ} :
      b.handles[k]? = some (key,cursor) → b.contents key = some c →
      n = transferCount c.length cursor numBytes →
      Step b (.write k src numBytes,.written n)
        ((b.store key (splice c cursor (src.take n))).moveTo k key (cursor + n))

section Replies
variable {b b' : ByteStore} {reply : FileReply} {key c : List Byte} {k cursor : ℕ}

theorem Step.opened_eq {name : List Byte} (h : b.Step (.openFile name,reply) b')
    (hc : b.contents (fileKey name) = some c) :
    reply = .opened true ∧ b' = { b with handles := b.handles ++ [(fileKey name,0)] } := by
  cases h with
  | missing hno _ => exact absurd (hc.symm.trans hno) (Option.some_ne_none c)
  | opened _ => exact ⟨rfl,rfl⟩

theorem Step.sought_eq {position : ℕ} (h : b.Step (.seek k position,reply) b')
    (hk : b.handles[k]? = some (key,cursor)) :
    reply = .sought ∧ b' = b.moveTo k key position := by
  cases h with
  | sought hk' =>
    cases hk'.symm.trans hk
    exact ⟨rfl,rfl⟩

theorem Step.read_eq {numBytes : ℤ} {n : ℕ} (h : b.Step (.read k numBytes,reply) b')
    (hk : b.handles[k]? = some (key,cursor)) (hc : b.contents key = some c)
    (hn : transferCount c.length cursor numBytes = n) :
    reply = .read n ((c.drop cursor).take n) ∧ b' = b.moveTo k key (cursor + n) := by
  cases h with
  | read hk' hc' hn' =>
    cases hk'.symm.trans hk
    cases hc'.symm.trans hc
    rw [hn'.trans hn]
    exact ⟨rfl,rfl⟩

theorem Step.written_eq {numBytes : ℤ} {src : List Byte} {n : ℕ}
    (h : b.Step (.write k src numBytes,reply) b') (hk : b.handles[k]? = some (key,cursor))
    (hc : b.contents key = some c) (hn : transferCount c.length cursor numBytes = n) :
    reply = .written n ∧
      b' = (b.store key (splice c cursor (src.take n))).moveTo k key (cursor + n) := by
  cases h with
  | written hk' hc' hn' =>
    cases hk'.symm.trans hk
    cases hc'.symm.trans hc
    rw [hn'.trans hn]
    exact ⟨rfl,rfl⟩

end Replies

end ByteStore

def byteStores : TransitionSystem ByteStore (FileRequest × FileReply) where
  init b := b = .empty
  step := ByteStore.Step

end Nachos
