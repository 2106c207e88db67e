import Nachos.FileSys.ByteStore
import Nachos.FileSys.Calls
import Nachos.Library.Namespace

/-! # A hierarchical file system

What a user of all of `filesys.h` sees: a tree of names with byte arrays at its leaves, a current
directory, and a number of free sectors. `Remove` gives back only the header and the index sectors
of what it removes.
-/
namespace Nachos

inductive Node where
  | directory
  | file (contents : List Byte)

namespace Node

def IsDirectory : Node → Prop
  | .directory => True
  | .file _ => False

def sectors : Node → ℕ
  | .directory => 3
  | .file c => 1 + indexCount (sectorCount c.length) + sectorCount c.length

/-- What `Remove` gives back. -/
def returned : Node → ℕ
  | .directory => 2
  | .file c => 1 + indexCount (sectorCount c.length)

end Node

/-- The calls, the transfers of a file that is opened for each, and a new start of the system. -/
inductive FileCall where
  | call (c : Call)
  | read (name : List Byte) (position : ℕ) (numBytes : ℤ)
  | write (name : List Byte) (position : ℕ) (src : List Byte) (numBytes : ℤ)
  | mount

inductive FileAnswer where
  /-- With the bytes the new file starts with. -/
  | created (contents : Option (List Byte))
  | opened (found : Bool)
  | removed (found : Bool)
  | code (n : ℤ)
  | bytes (count : ℤ) (into : List Byte)
  | written (count : ℤ)
  | mounted

structure Hierarchy where
  tree : Namespace (List Byte) Node Node.IsDirectory
  cwd : List (List Byte)
  home : tree.IsDirectory cwd
  free : ℤ

namespace Hierarchy
variable (h : Hierarchy)

/-- The path of a name. -/
def path (name : List Byte) : List (List Byte) := h.cwd ++ [fileKey name]

/-- The name is new, and there is room for an entry and for a header. -/
def Enters (name : List Byte) : Prop :=
  ¬ IsDotName name ∧ h.tree.node (h.path name) = none ∧
    (h.tree.names h.cwd).ncard < numDirEntries - 2 ∧ 0 < h.free

def Found (name : List Byte) : Prop := IsDotName name ∨ h.tree.node (h.path name) ≠ none

theorem not_directory_of_none {name : List Byte} (hn : h.tree.node (h.path name) = none) :
    ¬ h.tree.IsDirectory (h.cwd ++ [fileKey name]) := by
  rintro ⟨n,hn',-⟩
  exact Option.some_ne_none n (hn'.symm.trans hn)

def enter (name : List Byte) (n : Node) (hn : h.tree.node (h.path name) = none) : Hierarchy where
  tree := h.tree.put h.cwd (fileKey name) n h.home (h.not_directory_of_none hn)
  cwd := h.cwd
  home := Namespace.IsDirectory.put h.home
  free := h.free - n.sectors

def remove (name : List Byte) (n : Node) : Hierarchy where
  tree := h.tree.prune h.cwd (fileKey name)
  cwd := h.cwd
  home := h.home.prune Namespace.not_prefix_self
  free := h.free + n.returned

theorem not_directory_of_file {name c : List Byte}
    (hn : h.tree.node (h.path name) = some (.file c)) :
    ¬ h.tree.IsDirectory (h.cwd ++ [fileKey name]) := by
  rintro ⟨n,hn',hdir⟩
  obtain rfl := Option.some.inj (hn'.symm.trans hn)
  exact hdir

def store (name : List Byte) {c : List Byte} (hn : h.tree.node (h.path name) = some (.file c))
    (c' : List Byte) : Hierarchy where
  tree := h.tree.put h.cwd (fileKey name) (.file c') h.home (h.not_directory_of_file hn)
  cwd := h.cwd
  home := Namespace.IsDirectory.put h.home
  free := h.free

def goTo (p : List (List Byte)) (hp : h.tree.IsDirectory p) : Hierarchy :=
  { h with cwd := p, home := hp }

inductive Step : FileCall × FileAnswer → Hierarchy → Prop
  | refused {name : List Byte} {size : Word} : ¬ h.Enters name →
      Step (.call (.create name size),.created none) h
  | created {name c : List Byte} {size : Word} (hn : h.Enters name) :
      c.length = size.toInt → Step (.call (.create name size),.created (some c))
        (h.enter name (.file c) hn.2.1)
  | opened {name : List Byte} {found : Bool} : (found = true ↔ h.Found name) →
      Step (.call (.openFile name),.opened found) h
  | absent {name : List Byte} : ¬ h.Found name → Step (.call (.remove name),.removed false) h
  | removed {name : List Byte} {n : Node} : ¬ IsDotName name →
      h.tree.node (h.path name) = some n →
      Step (.call (.remove name),.removed true) (h.remove name n)
  | directory {name : List Byte} (hn : h.Enters name) :
      Step (.call (.createDirectory name),.code 0) (h.enter name .directory hn.2.1)
  | directoryFound {name : List Byte} : h.Found name →
      Step (.call (.createDirectory name),.code (-2)) h
  | directoryFull {name : List Byte} : ¬ h.Found name → ¬ h.Enters name →
      Step (.call (.createDirectory name),.code (-1)) h
  | kept {name : List Byte} : h.Found name → Step (.call (.removeDirectory name),.code (-1)) h
  | unknown {name : List Byte} : ¬ h.Found name →
      Step (.call (.removeDirectory name),.code (-2)) h
  | stayed {name : List Byte} : fileKey name = Directory.dot →
      Step (.call (.changeDirectory name),.code 0) h
  | wentUp {name : List Byte} : fileKey name = Directory.dotDot →
      Step (.call (.changeDirectory name),.code 0) (h.goTo h.cwd.dropLast h.home.dropLast)
  | wentDown {name : List Byte} (hp : h.tree.IsDirectory (h.path name)) :
      ¬ IsDotName name → Step (.call (.changeDirectory name),.code 0) (h.goTo (h.path name) hp)
  | notChanged {name : List Byte} : ¬ h.Found name →
      Step (.call (.changeDirectory name),.code (-1)) h
  | unread {name : List Byte} {position : ℕ} {numBytes : ℤ} : ¬ h.Found name →
      Step (.read name position numBytes,.opened false) h
  | read {name c : List Byte} {position n : ℕ} {numBytes : ℤ} :
      h.tree.node (h.path name) = some (.file c) → n = transferCount c.length position numBytes →
      Step (.read name position numBytes,.bytes n ((c.drop position).take n)) h
  | unwritten {name src : List Byte} {position : ℕ} {numBytes : ℤ} : ¬ h.Found name →
      Step (.write name position src numBytes,.opened false) h
  | written {name c src : List Byte} {position n : ℕ} {numBytes : ℤ}
      (hc : h.tree.node (h.path name) = some (.file c)) :
      n = transferCount c.length position numBytes →
      Step (.write name position src numBytes,.written n)
        (h.store name hc (splice c position (src.take n)))
  | mounted (hp : h.tree.IsDirectory []) :
      Step (.mount,.mounted) (h.goTo [] hp)

def empty : Hierarchy where
  tree := .single .directory trivial
  cwd := []
  home := ⟨.directory,rfl,trivial⟩
  free := 1019

end Hierarchy

def hierarchies : TransitionSystem Hierarchy (FileCall × FileAnswer) where
  init h := h = .empty
  step h := h.Step

end Nachos
