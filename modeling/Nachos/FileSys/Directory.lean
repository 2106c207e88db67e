import Nachos.FileSys.OpenFile
import Mathlib.Data.List.FinRange

/-! # Directories

`directory.cc` and `directory.h`. An entry is sixteen bytes of memory, one of
them alignment; a name is compared and copied on its first `fileNameMaxLen`
characters only.
-/
namespace Nachos

abbrev fileNameMaxLen : ℕ := 9
abbrev numDirEntries : ℕ := 10

/-- The characters of a C string among the first `n` bytes. -/
def cString (n : ℕ) (bs : List Byte) : List Byte := (bs.take n).takeWhile (· ≠ 0)

/-- `!strncmp(a, b, n)`. -/
def strncmpEq (a b : List Byte) (n : ℕ) : Bool := cString n a = cString n b

/-- `strncpy(dst, src, n)`: what is left of the `n` bytes is filled with zeros. -/
def strncpy {size : ℕ} (dst : Vector Byte size) (src : List Byte) (n : ℕ) : Vector Byte size :=
  Vector.ofFn fun i => if i.val < n then (cString n src).getD i.val 0 else dst[i]

def strcpy {size : ℕ} (dst : Vector Byte size) (src : List Byte) : Vector Byte size :=
  Vector.ofFn fun i => if i.val ≤ src.length then src.getD i.val 0 else dst[i]

structure DirectoryEntry where
  name : Vector Byte (fileNameMaxLen + 1)
  inUseAndIsDir : Byte
  /-- The alignment byte in front of `sector`. -/
  pad : Byte
  sector : Word
  deriving DecidableEq

namespace DirectoryEntry

def fields : (Vector Byte (fileNameMaxLen + 1) × (Byte × Byte)) × Word ≃ DirectoryEntry where
  toFun p := ⟨p.1.1,p.1.2.1,p.1.2.2,p.2⟩
  invFun e := ((e.name,e.inUseAndIsDir,e.pad),e.sector)
  left_inv _ := rfl
  right_inv _ := rfl

def codec : Codec DirectoryEntry :=
  (((Codec.byte.vector (fileNameMaxLen + 1)).prod (Codec.byte.prod Codec.byte)).prod
    Codec.word).iso fields

def inUse (e : DirectoryEntry) : Bool := e.inUseAndIsDir &&& 1 ≠ 0
def isDir (e : DirectoryEntry) : Bool := (e.inUseAndIsDir &&& 2) >>> 1 ≠ 0

def setInUse (e : DirectoryEntry) (value : Bool) : DirectoryEntry :=
  { e with inUseAndIsDir :=
      if value then e.inUseAndIsDir ||| 1 else e.inUseAndIsDir &&& ~~~1 }

def setIsDir (e : DirectoryEntry) (value : Bool) : DirectoryEntry :=
  { e with inUseAndIsDir :=
      if value then e.inUseAndIsDir ||| (1 : Byte) <<< 1 else e.inUseAndIsDir &&& ~~~2 }

end DirectoryEntry

structure Directory where
  table : Vector DirectoryEntry numDirEntries
  deriving DecidableEq

/-- `DirectoryFileSize`, the bytes of a stored directory. -/
abbrev directoryFileSize : ℕ := 16 * numDirEntries

namespace Directory

def tableEquiv : Vector DirectoryEntry numDirEntries ≃ Directory where
  toFun t := ⟨t⟩
  invFun d := d.table
  left_inv _ := rfl
  right_inv _ := rfl

def codec : Codec Directory := (DirectoryEntry.codec.vector numDirEntries).iso tableEquiv

theorem codec_size : codec.size = directoryFileSize := rfl

abbrev currentDirectoryIndex : Fin numDirEntries := 0
abbrev parentDirectoryIndex : Fin numDirEntries := 1

def getTableAt (dir : Directory) (i : Fin numDirEntries) : DirectoryEntry := dir.table[i]

def setTableAt (dir : Directory) (i : Fin numDirEntries) (e : DirectoryEntry) : Directory :=
  ⟨dir.table.set i e⟩

def isInUseOfIndex (dir : Directory) (i : Fin numDirEntries) : Bool := (dir.getTableAt i).inUse
def isDirOfIndex (dir : Directory) (i : Fin numDirEntries) : Bool := (dir.getTableAt i).isDir

def setInUseOfIndex (dir : Directory) (i : Fin numDirEntries) (value : Bool) : Directory :=
  dir.setTableAt i ((dir.getTableAt i).setInUse value)

def setSectorAt (dir : Directory) (i : Fin numDirEntries) (sector : Word) : Directory :=
  dir.setTableAt i { dir.getTableAt i with sector := sector }

def getSector (dir : Directory) : ℤ := (dir.getTableAt currentDirectoryIndex).sector.toInt

def dot : List Byte := [46]
def dotDot : List Byte := [46,46]

/-- `Directory::Directory`, on the memory `mem` of the new table. -/
def new (mem : Directory) : Directory :=
  ⟨Vector.ofFn fun i =>
    let e := mem.getTableAt i
    if i = currentDirectoryIndex then { e with inUseAndIsDir := 3, name := strcpy e.name dot }
    else if i = parentDirectoryIndex then
      { e with inUseAndIsDir := 3, name := strcpy e.name dotDot }
    else { e with inUseAndIsDir := 0 }⟩

def fetchFrom (S : Support) (dir : Directory) (file : OpenFile) (d : Disk) :
    Outcome Directory := do
  let r ← file.readAt S d directoryFileSize 0 0
  let bytes ← copyIn (codec.encode dir) 0 r.2
  return codec.decode bytes

def writeBack (S : Support) (chars : ℕ → Byte) (dir : Directory) (file : OpenFile) (d : Disk) :
    Outcome Disk := do
  let r ← file.writeAt S chars d (codec.encode dir) directoryFileSize 0 0
  return r.2

/-- `FindIndex`; the index `-1` is `none`. -/
def findIndex (dir : Directory) (name : List Byte) : Option (Fin numDirEntries) :=
  (List.finRange numDirEntries).find? fun i =>
    dir.isInUseOfIndex i && strncmpEq (dir.getTableAt i).name.toList name fileNameMaxLen

def find (dir : Directory) (name : List Byte) : ℤ :=
  match dir.findIndex name with
  | some i => (dir.getTableAt i).sector.toInt
  | none => -1

/-- The first slot from `2` on that is not in use. -/
def freeIndex (dir : Directory) : Option (Fin numDirEntries) :=
  (List.finRange numDirEntries).find? fun i => 2 ≤ i.val && !dir.isInUseOfIndex i

/-- The entry `Add` and `AddDirectory` leave in a slot. -/
def fillEntry (e : DirectoryEntry) (name : List Byte) (isDir : Bool) (sector : Word) :
    DirectoryEntry :=
  let e := (e.setInUse true).setIsDir isDir
  { e with name := strncpy e.name name fileNameMaxLen, sector := sector }

def add (dir : Directory) (name : List Byte) (newSector : Word) : Bool × Directory :=
  if dir.findIndex name ≠ none then (false,dir)
  else match dir.freeIndex with
    | some i => (true,dir.setTableAt i (fillEntry (dir.getTableAt i) name false newSector))
    | none => (false,dir)

def addDirectory (dir : Directory) (name : List Byte) (sector : Word) : Bool × Directory :=
  match dir.freeIndex with
  | some i => (true,dir.setTableAt i (fillEntry (dir.getTableAt i) name true sector))
  | none => (false,dir)

def remove (dir : Directory) (name : List Byte) : Bool × Directory :=
  match dir.findIndex name with
  | some i => (true,dir.setInUseOfIndex i false)
  | none => (false,dir)

def isEmpty (dir : Directory) : Bool :=
  (List.finRange numDirEntries).all fun i => i.val < 2 || !dir.isInUseOfIndex i

end Directory

end Nachos
