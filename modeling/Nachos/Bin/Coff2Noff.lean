import Nachos.Library.Tiling
import Nachos.Machine.Disk

/-! # Object files

`coff2noff.c` folds the sections of a COFF file into the three segments of a NOFF file. A `long` has
32 bits, as in the headers.
-/
namespace Nachos

/-- The fields of `struct scnhdr` that are used. -/
structure Scnhdr where
  sName : Vector Byte 8
  sPaddr : ℤ
  sSize : ℤ
  sScnptr : ℤ

structure Segment where
  virtualAddr : ℤ
  inFileAddr : ℤ
  size : ℤ
  deriving DecidableEq

structure NoffHeader where
  noffMagic : ℤ
  code : Segment
  initData : Segment
  uninitData : Segment
  deriving DecidableEq

abbrev noffMagicNumber : ℤ := 0xbadfad

/-- `sizeof(NoffHeader)` -/
abbrev noffHeaderSize : ℕ := 40

def Segment.encode (seg : Segment) : List Byte :=
  [seg.virtualAddr,seg.inFileAddr,seg.size].flatMap fun v => Codec.word.encode (BitVec.ofInt 32 v)

def NoffHeader.encode (noffH : NoffHeader) : List Byte :=
  Codec.word.encode (BitVec.ofInt 32 noffH.noffMagic) ++ noffH.code.encode ++
    noffH.initData.encode ++ noffH.uninitData.encode

/-- The header, and what stands in the file behind it. -/
structure Noff where
  noffH : NoffHeader
  segments : List Byte
  deriving DecidableEq

def Noff.bytes (noff : Noff) : List Byte := noff.noffH.encode ++ noff.segments

/-- How the program ends without a NOFF file. -/
inductive Exit where
  | tooShort
  | notMipsel
  | notOmagic
  | dataAndRdata
  | bssAndSbss
  | unknownSegment
  | fault (f : Fault)
  deriving DecidableEq

namespace Coff2Noff

/-- `.text` -/
abbrev text : List Byte := [0x2E,0x74,0x65,0x78,0x74]
/-- `.data` -/
abbrev data : List Byte := [0x2E,0x64,0x61,0x74,0x61]
/-- `.rdata` -/
abbrev rdata : List Byte := [0x2E,0x72,0x64,0x61,0x74,0x61]
/-- `.bss` -/
abbrev bss : List Byte := [0x2E,0x62,0x73,0x73]
/-- `.sbss` -/
abbrev sbss : List Byte := [0x2E,0x73,0x62,0x73,0x73]

end Coff2Noff

/-- `strncmp(s_name, name, 8) == 0`, which for these names is `strcmp(s_name, name) == 0`. -/
def Scnhdr.Named (s : Scnhdr) (name : List Byte) : Prop := s.sName.toList.takeWhile (· ≠ 0) = name

instance (s : Scnhdr) (name : List Byte) : Decidable (s.Named name) :=
  inferInstanceAs (Decidable (_ = _))

/-- The variables of the loop: the header so far, the end of the NOFF file as it is counted, the
offset of `fdIn`, and what has been written behind the header. -/
structure Conversion where
  noffH : NoffHeader
  inNoffFile : ℤ
  fdIn : ℕ
  fdOut : List Byte

namespace Coff2Noff
variable (file : List Byte)

def add (a b : ℤ) : Except Exit ℤ := (cint (a + b)).mapError .fault

/-- The offset after `lseek(fd, offset, 0)`, which fails for a negative one. -/
def lseek (fd : ℕ) (offset : ℤ) : ℕ := if 0 ≤ offset then offset.toNat else fd

/-- `read`: the number that is returned, and the bytes. -/
def readBytes (fd : ℕ) (nBytes : ℤ) : ℤ × List Byte :=
  if nBytes < 0 then (-1,[])
  else
    let bytes := (file.drop fd).take nBytes.toNat
    (bytes.length,bytes)

def read (fd : ℕ) (nBytes : ℤ) : Except Exit (List Byte) :=
  let (n,bytes) := readBytes file fd nBytes
  if n = nBytes then .ok bytes else .error .tooShort

/-- The contents go to the end of the NOFF file. -/
def copySection (s : Scnhdr) (c : Conversion) : Except Exit Conversion := do
  let fd := lseek c.fdIn s.sScnptr
  let buffer ← read file fd s.sSize
  let inNoffFile ← add c.inNoffFile s.sSize
  return { c with
    inNoffFile := inNoffFile
    fdIn := fd + buffer.length
    fdOut := c.fdOut ++ buffer }

/-- One round of the loop. -/
def convertSection (c : Conversion) (s : Scnhdr) : Except Exit Conversion :=
  if s.sSize = 0 then return c
  else if s.Named text then
    copySection file s { c with noffH.code := ⟨s.sPaddr,c.inNoffFile,s.sSize⟩ }
  else if s.Named data ∨ s.Named rdata then
    if c.noffH.initData.size ≠ 0 then .error .dataAndRdata
    else copySection file s { c with noffH.initData := ⟨s.sPaddr,c.inNoffFile,s.sSize⟩ }
  else if s.Named bss ∨ s.Named sbss then
    if c.noffH.uninitData.size ≠ 0 then do
      let next ← add c.noffH.uninitData.virtualAddr c.noffH.uninitData.size
      if s.sPaddr = next then .error .bssAndSbss
      else
        let size ← add c.noffH.uninitData.size s.sSize
        return { c with noffH.uninitData.size := size }
    else
      return { c with
        noffH.uninitData.virtualAddr := s.sPaddr
        noffH.uninitData.size := s.sSize }
  else do
    let _ ← read file (lseek c.fdIn s.sScnptr) s.sSize
    .error .unknownSegment

/-- The header that the loop starts from; `noffH` is what the memory held. -/
def initialHeader (noffH : NoffHeader) : NoffHeader where
  noffMagic := noffMagicNumber
  code := { noffH.code with size := 0 }
  initData := { noffH.initData with size := 0 }
  uninitData := { noffH.uninitData with size := 0 }

/-- The loop, and the file it leaves. -/
def convert (noffH : NoffHeader) (fdIn : ℕ) (sections : List Scnhdr) : Except Exit Noff := do
  let c ← sections.foldlM (convertSection file) ⟨initialHeader noffH,noffHeaderSize,fdIn,[]⟩
  return ⟨c.noffH,c.fdOut⟩

def long (bytes : List Byte) (offset : ℕ) : ℤ := (Codec.word.decode (bytes.drop offset)).toInt

def short (bytes : List Byte) (offset : ℕ) : ℕ :=
  (bytes.getD offset 0).toNat + 256 * (bytes.getD (offset + 1) 0).toNat

def scnhdr (bytes : List Byte) : Scnhdr where
  sName := Vector.ofFn fun i => bytes.getD i 0
  sPaddr := long bytes 8
  sSize := long bytes 16
  sScnptr := long bytes 20

/-- The offset of the section headers, and the headers. -/
def sectionHeaders : Except Exit (ℕ × List Scnhdr) := do
  let fileh ← read file 0 20
  if short fileh 0 ≠ 0x0162 then .error .notMipsel
  else
    let systemh ← read file 20 56
    if short systemh 0 ≠ 0o407 then .error .notOmagic
    else
      let numsections := short fileh 2
      let sections ← read file 76 (numsections * 40)
      return (76 + numsections * 40,(List.range numsections).map fun i =>
        scnhdr (sections.drop (40 * i)))

/-- What the program makes of a COFF file. -/
def main (noffH : NoffHeader) : Except Exit Noff := do
  let (fdIn,sections) ← sectionHeaders file
  convert file noffH fdIn sections

end Coff2Noff

end Nachos
