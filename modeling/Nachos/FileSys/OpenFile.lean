import Nachos.FileSys.FileHeader
import Nachos.Library.BlockRegion

/-! # Open files

`openfile.cc`. Transfers go through a temporary buffer of whole sectors. Copies
in and out of a buffer are checked against its bounds, and the one sum that can
leave the range of `int` is checked too. `chars` is the memory `new char[]`
returns.
-/
namespace Nachos

/-- `bcopy` out of a buffer. -/
def copyOut (buf : List Byte) (off len : ℤ) : Outcome (List Byte) :=
  if 0 ≤ off ∧ off + len ≤ buf.length then .ok ((buf.drop off.toNat).take len.toNat)
  else .error .outOfBounds

/-- `bcopy` into a buffer. -/
def copyIn (buf : List Byte) (off : ℤ) (src : List Byte) : Outcome (List Byte) :=
  if 0 ≤ off ∧ off + src.length ≤ buf.length then .ok (splice buf off.toNat src)
  else .error .outOfBounds

def newChars (chars : ℕ → Byte) (size : ℤ) : List Byte := (List.range size.toNat).map chars

@[simp] theorem length_newChars (chars : ℕ → Byte) (size : ℤ) :
    (newChars chars size).length = size.toNat := by simp [newChars]

structure OpenFile where
  hdr : FileHeader
  seekPosition : ℤ

namespace OpenFile

def new (d : Disk) (sector : ℤ) : Outcome OpenFile := do
  let hdr ← FileHeader.fetchFrom d sector
  return ⟨hdr,0⟩

def seek (f : OpenFile) (position : ℤ) : OpenFile := { f with seekPosition := position }

def length (f : OpenFile) : ℤ := f.hdr.fileLength

/-- The reading loop: sectors `i`, `i + 1`, … of the file. -/
def readSectors (h : FileHeader) (d : Disk) (mode : ℤ) : ℕ → ℤ → Outcome (List Byte)
  | 0, _ => return []
  | count + 1, i => do
    let s ← h.byteToSector d (i * sectorSize) mode
    let data ← d.readRequest s
    let rest ← readSectors h d mode count (i + 1)
    return data.bytes ++ rest

/-- The writing loop: the buffer goes to sectors `i`, `i + 1`, … of the file. -/
def writeSectors (h : FileHeader) (mode : ℤ) : ℕ → ℤ → List Byte → Disk → Outcome Disk
  | 0, _, _, d => return d
  | count + 1, i, buf, d => do
    let s ← h.byteToSector d (i * sectorSize) mode
    let data ← Sector.ofBytes (buf.take sectorSize)
    let d ← d.writeRequest s data
    writeSectors h mode count (i + 1) (buf.drop sectorSize) d

/-- `ReadAt`: the count it returns and the bytes it stores. -/
def readAt (S : Support) (f : OpenFile) (d : Disk) (numBytes position mode : ℤ) :
    Outcome (ℤ × List Byte) := do
  let fileLength := f.hdr.fileLength
  if numBytes ≤ 0 ∨ fileLength ≤ position then return (0,[])
  let last ← cint (position + numBytes)
  let numBytes ← (if fileLength < last then cint (fileLength - position) else pure numBytes)
  let firstSector := S.divRoundDown position sectorSize
  let lastSector := S.divRoundDown (position + numBytes - 1) sectorSize
  let numSectors := 1 + lastSector - firstSector
  let buf ← readSectors f.hdr d mode numSectors.toNat firstSector
  let into ← copyOut buf (position - firstSector * sectorSize) numBytes
  return (numBytes,into)

/-- `ReadAt(&buf[off], numBytes, position, mode)`. -/
def readInto (S : Support) (f : OpenFile) (d : Disk) (buf : List Byte)
    (off numBytes position mode : ℤ) : Outcome (List Byte) := do
  let r ← readAt S f d numBytes position mode
  copyIn buf off r.2

def writeAt (S : Support) (chars : ℕ → Byte) (f : OpenFile) (d : Disk) (src : List Byte)
    (numBytes position mode : ℤ) : Outcome (ℤ × Disk) := do
  let fileLength := f.hdr.fileLength
  if numBytes ≤ 0 ∨ fileLength ≤ position then return (0,d)
  let last ← cint (position + numBytes)
  let numBytes ← (if fileLength < last then cint (fileLength - position) else pure numBytes)
  let firstSector := S.divRoundDown position sectorSize
  let lastSector := S.divRoundDown (position + numBytes - 1) sectorSize
  let numSectors := 1 + lastSector - firstSector
  let buf := newChars chars (numSectors * sectorSize)
  let firstAligned : Bool := position = firstSector * sectorSize
  let lastAligned : Bool := position + numBytes = (lastSector + 1) * sectorSize
  -- sectors that are only partly overwritten are read in first
  let buf ← (if !firstAligned then
      readInto S f d buf 0 sectorSize (firstSector * sectorSize) mode
    else pure buf)
  let buf ← (if !lastAligned && (firstSector ≠ lastSector || firstAligned) then
      readInto S f d buf ((lastSector - firstSector) * sectorSize) sectorSize
        (lastSector * sectorSize) mode
    else pure buf)
  let bytes ← copyOut src 0 numBytes
  let buf ← copyIn buf (position - firstSector * sectorSize) bytes
  let d ← writeSectors f.hdr mode numSectors.toNat firstSector buf d
  return (numBytes,d)

def read (S : Support) (f : OpenFile) (d : Disk) (numBytes : ℤ) :
    Outcome (ℤ × List Byte × OpenFile) := do
  let (result,into) ← readAt S f d numBytes f.seekPosition 1
  return (result,into,f.seek (f.seekPosition + result))

def write (S : Support) (chars : ℕ → Byte) (f : OpenFile) (d : Disk) (src : List Byte)
    (numBytes : ℤ) : Outcome (ℤ × Disk × OpenFile) := do
  let (result,d) ← writeAt S chars f d src numBytes f.seekPosition 1
  return (result,d,f.seek (f.seekPosition + result))

end OpenFile

namespace BitMap

/-- The map is stored in the file of its one-level header. -/
def fetchFrom (S : Support) (file : OpenFile) (d : Disk) : Outcome BitMap := do
  let r ← file.readAt S d freeMapFileSize 0 0
  return S.load r.2

def writeBack (S : Support) (chars : ℕ → Byte) (m : BitMap) (file : OpenFile) (d : Disk) :
    Outcome Disk := do
  let r ← file.writeAt S chars d (S.image m) freeMapFileSize 0 0
  return r.2

end BitMap

end Nachos
