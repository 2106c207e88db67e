import Nachos.FileSys.BitMap

/-! # File headers

`filehdr.cc`. A header fills one sector: two counts and `numDirect` sector
numbers. `allocate` builds the two-level layout, in which each of these sectors
is again read as the words of a header; `allocateDirectory` builds the one-level
layout. Headers made by `new` are not initialised, so every such object is an
argument.
-/
namespace Nachos

abbrev numDirect : ℕ := (sectorSize - 2 * 4) / 4
/-- `SectorSize/sizeof(int)`, the words of a sector. -/
abbrev sectorWords : ℕ := sectorSize / 4

structure FileHeader where
  numBytes : Word
  numSectors : Word
  dataSectors : Vector Word numDirect
  deriving DecidableEq

namespace FileHeader

def fields : (Word × Word) × Vector Word numDirect ≃ FileHeader where
  toFun p := ⟨p.1.1,p.1.2,p.2⟩
  invFun h := ((h.numBytes,h.numSectors),h.dataSectors)
  left_inv _ := rfl
  right_inv _ := rfl

def codec : Codec FileHeader :=
  ((Codec.word.prod Codec.word).prod (Codec.word.vector numDirect)).iso fields

theorem codec_size : codec.size = sectorSize := rfl

def toSector (h : FileHeader) : Sector := ⟨codec.encode h,codec.length_encode h⟩

def ofSector (s : Sector) : FileHeader := codec.decode s.bytes

@[simp] theorem ofSector_toSector (h : FileHeader) : ofSector h.toSector = h :=
  codec.decode_encode h

@[simp] theorem toSector_ofSector (s : Sector) : (ofSector s).toSector = s :=
  Sector.ext (codec.encode_decode s.bytes s.length_bytes)

/-- Word `k < sectorWords` of the memory of a header, `*((int*)hdr + k)`. -/
def word (h : FileHeader) (k : ℕ) : Word :=
  if k = 0 then h.numBytes else if k = 1 then h.numSectors else h.dataSectors.getD (k - 2) 0

def setWord (h : FileHeader) (k : ℕ) (w : Word) : FileHeader :=
  if k = 0 then { h with numBytes := w }
  else if k = 1 then { h with numSectors := w }
  else { h with dataSectors := h.dataSectors.setIfInBounds (k - 2) w }

def getDataSector (h : FileHeader) (j : ℤ) : Outcome Word :=
  if 0 ≤ j ∧ j < numDirect then .ok (h.dataSectors.getD j.toNat 0) else .error .outOfBounds

def setDataSector (h : FileHeader) (j : ℕ) (w : Word) : Outcome FileHeader :=
  if j < numDirect then .ok { h with dataSectors := h.dataSectors.setIfInBounds j w }
  else .error .outOfBounds

def fetchFrom (d : Disk) (sector : ℤ) : Outcome FileHeader := do
  let s ← d.readRequest sector
  return ofSector s

def writeBack (h : FileHeader) (d : Disk) (sector : ℤ) : Outcome Disk :=
  d.writeRequest sector h.toSector

def fileLength (h : FileHeader) : ℤ := h.numBytes.toInt

/-- The inner loop of `Allocate`: words `i`, `i + 1`, … of one index sector. -/
def fillSectorArray (S : Support) : ℕ → ℕ → FileHeader → BitMap → FileHeader × BitMap
  | 0, _, sectorArray, freeMap => (sectorArray,freeMap)
  | count + 1, i, sectorArray, freeMap =>
    let (s,freeMap) := BitMap.find S freeMap
    fillSectorArray S count (i + 1) (sectorArray.setWord i s) freeMap

/-- The outer loop of `Allocate`, from index sector `j` on. `arrays` is the memory
the index sectors are built in. -/
def allocateLoop (S : Support) (arrays : ℕ → FileHeader) :
    ℕ → ℕ → ℤ → FileHeader → BitMap → Disk → Outcome (FileHeader × BitMap × Disk)
  | 0, _, _, hdr, freeMap, d => return (hdr,freeMap,d)
  | count + 1, j, sectorsToFill, hdr, freeMap, d => do
    let (s,freeMap) := BitMap.find S freeMap
    let hdr ← hdr.setDataSector j s
    let (sectorArray,freeMap) :=
      fillSectorArray S (min sectorsToFill.toNat sectorWords) 0 (arrays j) freeMap
    let d ← sectorArray.writeBack d s.toInt
    allocateLoop S arrays count (j + 1) (sectorsToFill - sectorWords) hdr freeMap d

/-- `divRoundUp(size, SectorSize)`, as the `int` it is stored in. -/
def sectorsFor (S : Support) (size : Word) : Word :=
  BitVec.ofInt 32 (S.divRoundUp size.toInt sectorSize)

def allocate (S : Support) (hdr : FileHeader) (arrays : ℕ → FileHeader) (freeMap : BitMap)
    (fileSize : Word) (d : Disk) : Outcome (Bool × FileHeader × BitMap × Disk) := do
  let numSectors := sectorsFor S fileSize
  let hdr := { hdr with numBytes := fileSize, numSectors := numSectors }
  if freeMap.numClear < numSectors.toInt then
    return (false,hdr,freeMap,d)
  let (hdr,freeMap,d) ← allocateLoop S arrays (S.divRoundUp numSectors.toNat sectorWords).toNat 0
    numSectors.toInt hdr freeMap d
  return (true,hdr,freeMap,d)

def allocateDirectoryLoop (S : Support) :
    ℕ → ℕ → FileHeader → BitMap → Outcome (FileHeader × BitMap)
  | 0, _, hdr, freeMap => return (hdr,freeMap)
  | count + 1, i, hdr, freeMap => do
    let (s,freeMap) := BitMap.find S freeMap
    let hdr ← hdr.setDataSector i s
    allocateDirectoryLoop S count (i + 1) hdr freeMap

def allocateDirectory (S : Support) (hdr : FileHeader) (freeMap : BitMap) (dirSize : Word) :
    Outcome (Bool × FileHeader × BitMap) := do
  let numSectors := sectorsFor S dirSize
  let hdr := { hdr with numBytes := dirSize, numSectors := numSectors }
  if freeMap.numClear < numSectors.toInt then
    return (false,hdr,freeMap)
  let (hdr,freeMap) ← allocateDirectoryLoop S numSectors.toInt.toNat 0 hdr freeMap
  return (true,hdr,freeMap)

/-- The inner loop of `Deallocate`. The condition is tested before each pass, also
with `i = 0`; the first argument bounds the passes, of which there are fewer than
`sectorWords`. -/
def clearSectorArray (sectorsToClear : ℤ) (sectorArray : FileHeader) :
    ℕ → ℕ → BitMap → Outcome BitMap
  | 0, _, freeMap => return freeMap
  | bound + 1, i, freeMap =>
    if i < sectorsToClear ∧ (i ≠ 0 ∧ i % sectorWords ≠ 0) then do
      let freeMap ← freeMap.clear (sectorArray.word i).toInt
      clearSectorArray sectorsToClear sectorArray bound (i + 1) freeMap
    else return freeMap

def deallocateLoop (hdr : FileHeader) (d : Disk) : ℕ → ℕ → ℤ → BitMap → Outcome BitMap
  | 0, _, _, freeMap => return freeMap
  | count + 1, j, sectorsToClear, freeMap => do
    let s ← hdr.getDataSector j
    let sectorArray ← fetchFrom d s.toInt
    let freeMap ← clearSectorArray sectorsToClear sectorArray sectorWords 0 freeMap
    let freeMap ← freeMap.clear s.toInt
    deallocateLoop hdr d count (j + 1) (sectorsToClear - sectorWords) freeMap

def deallocate (S : Support) (hdr : FileHeader) (d : Disk) (freeMap : BitMap) : Outcome BitMap :=
  deallocateLoop hdr d (S.divRoundUp hdr.numSectors.toNat sectorWords).toNat 0
    hdr.numSectors.toInt freeMap

def deallocateDirectoryLoop (hdr : FileHeader) : ℕ → ℕ → BitMap → Outcome BitMap
  | 0, _, freeMap => return freeMap
  | count + 1, i, freeMap => do
    let s ← hdr.getDataSector i
    let marked ← freeMap.test s.toInt
    if marked then
      let freeMap ← freeMap.clear s.toInt
      deallocateDirectoryLoop hdr count (i + 1) freeMap
    else throw .assertion

def deallocateDirectory (hdr : FileHeader) (freeMap : BitMap) : Outcome BitMap :=
  deallocateDirectoryLoop hdr hdr.numSectors.toInt.toNat 0 freeMap

/-- The sector that stores byte `offset` of the file: read directly from the header
in mode `0`, through an index sector in every other mode. The division by
`SectorSize/sizeof(int)` is unsigned. -/
def byteToSector (h : FileHeader) (d : Disk) (offset mode : ℤ) : Outcome ℤ := do
  if mode = 0 then
    let s ← h.getDataSector (offset.tdiv sectorSize)
    return s.toInt
  else
    let dataSectorNumber := offset.tdiv sectorSize % 2 ^ 32
    let s ← h.getDataSector (dataSectorNumber / sectorWords)
    let newHdr ← fetchFrom d s.toInt
    return (newHdr.word (dataSectorNumber % sectorWords).toNat).toInt

end FileHeader

end Nachos
