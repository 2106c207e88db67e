import Nachos.FileSys.Calls
import Nachos.FileSys.Contents

/-! # A file and its name

What `Open`, `Create` and the transfers do with a plain file of the current directory, known by
the bytes that it holds.
-/
namespace Nachos

/-- The file system is in order, and the name is that of a plain file, with its header in sector
`s`, that holds these bytes. -/
structure NamedFile (S : Support) (fs : FileSystem) (name : List Byte) (s : ℕ)
    (bytes : List Byte) : Prop where
  coherent : ∃ o cur, Coherent S fs o cur
  entry : ∃ i, fs.currentDir.findIndex name = some i ∧ fs.currentDir.isDirOfIndex i = false ∧
    (fs.currentDir.getTableAt i).sector.toNat = s
  length : (headerAt fs.disk s).fileLength = bytes.length
  contents : fileContents fs.disk s = bytes

/-- `Open` finds a file of this name that holds these bytes. -/
def FileSystem.Yields (S : Support) (fs : FileSystem) (name bytes : List Byte) : Prop :=
  ∀ heap, ∃ f, fs.openFile S heap name = .ok (some f) ∧ f.length = bytes.length ∧
    ∀ (p : ℕ) (numBytes : ℤ), IsInt (p + numBytes) → f.readAt S fs.disk numBytes p 1 =
      .ok (transferCount bytes.length p numBytes,
        (bytes.drop p).take (transferCount bytes.length p numBytes))

section Entry
variable {S : Support} {fs : FileSystem} {o : Owner} {cur : ℕ} {name : List Byte}
  {i : Fin numDirEntries}

theorem Coherent.held_of_plain (c : Coherent S fs o cur)
    (hi : fs.currentDir.findIndex name = some i) (hd : fs.currentDir.isDirOfIndex i = false) :
    Holds fs.disk (.entry cur i) (fs.currentDir.getTableAt i).sector.toNat .file := by
  have h2 : 2 ≤ i.val := by
    by_contra hnot
    rcases Directory.index_cases hnot with rfl | rfl
    · exact Bool.false_ne_true (hd.symm.trans c.dots.current.isDir)
    · exact Bool.false_ne_true (hd.symm.trans c.dots.parent.isDir)
  have hu := (Directory.findIndex_some hi).1
  rw [c.synced] at hd hu ⊢
  refine .entry c.held ⟨h2,hu⟩ rfl ?_
  rw [DirectoryEntry.kind, show ((directoryAt fs.disk cur).getTableAt i).isDir = false from hd]
  rfl

theorem length_of_room {L : ℕ} (hroom : Room S fs (sectorCount L)) :
    (BitVec.ofInt 32 (L : ℤ) : Word).toNat = L ∧
    (BitVec.ofInt 32 (L : ℤ) : Word).toInt = L ∧
    (FileHeader.sectorsFor S (BitVec.ofInt 32 L)).toInt =
      sectorCount L := by
  obtain ⟨-,hindex,-⟩ := hroom
  have hlt : L < 2 ^ 31 := by
    rw [Int.toNat_natCast] at hindex
    unfold indexCount sectorCount numDirect sectorWords sectorSize at hindex
    omega
  have hnat : (BitVec.ofInt 32 (L : ℤ) : Word).toNat = L := by
    rw [BitVec.ofInt_natCast, BitVec.toNat_ofNat]
    omega
  have hint : (BitVec.ofInt 32 (L : ℤ) : Word).toInt = L := by
    rw [BitVec.toInt_eq_toNat_of_lt (by omega), hnat]
  refine ⟨hnat,hint,?_⟩
  rw [(FileHeader.sectorsFor_eq S (by omega)).1, hnat]

end Entry

namespace NamedFile
variable {S : Support} {fs : FileSystem} {name bytes data : List Byte} {s p : ℕ} {f : OpenFile}

theorem node (h : NamedFile S fs name s bytes) : NodeOk fs.disk s .file := by
  obtain ⟨o,cur,c⟩ := h.coherent
  obtain ⟨i,hi,hd,rfl⟩ := h.entry
  exact c.disk.node (c.held_of_plain hi hd)

theorem length_le (h : NamedFile S fs name s bytes) :
    bytes.length ≤ numDirect * sectorWords * sectorSize := by
  obtain ⟨hsize,hindex⟩ := h.node.size
  rw [h.length] at hsize
  unfold indexCount at hindex
  unfold numDirect sectorWords sectorSize at *
  omega

theorem openFile (h : NamedFile S fs name s bytes) (heap : Heap) :
    fs.openFile S heap name = .ok (some ⟨headerAt fs.disk s,0⟩) := by
  obtain ⟨o,cur,c⟩ := h.coherent
  obtain ⟨i,hi,-,rfl⟩ := h.entry
  exact c.openFile_some heap hi

theorem create (h : NamedFile S fs name s bytes) (heap : Heap) (size : Word) :
    fs.create S heap name size = .ok (false,fs) := by
  obtain ⟨o,cur,c⟩ := h.coherent
  obtain ⟨i,hi,-⟩ := h.entry
  exact c.create_refused heap hi

theorem yields (h : NamedFile S fs name s bytes) : fs.Yields S name bytes := by
  intro heap
  have hread := fun p n => h.node.readAt_contents (S := S) (f := ⟨headerAt fs.disk s,0⟩) rfl p n
  rw [h.contents] at hread
  exact ⟨_,h.openFile heap,h.length,hread⟩

theorem read (h : NamedFile S fs name s bytes) (hf : f.hdr = headerAt fs.disk s)
    (hp : f.seekPosition = p) {n : ℕ} (hint : IsInt (p + n)) :
    f.read S fs.disk n = .ok ((transferCount bytes.length p n : ℕ),(bytes.drop p).take n,
      f.seek (p + transferCount bytes.length p n)) := by
  have hread := h.node.readAt_contents (S := S) hf p n hint
  have htake : (bytes.drop p).take (transferCount bytes.length p n) = (bytes.drop p).take n := by
    rw [List.take_eq_take_iff, List.length_drop, transferCount]
    omega
  rw [h.contents, htake] at hread
  simp only [OpenFile.read, hp, hread, Outcome.ok_bind, Outcome.pure_eq]

theorem write (h : NamedFile S fs name s bytes) (hf : f.hdr = headerAt fs.disk s)
    (hp : f.seekPosition = p) (hfit : p + data.length ≤ bytes.length) (chars : ℕ → Byte) :
    ∃ d, f.write S chars fs.disk data data.length =
        .ok ((data.length : ℤ),d,f.seek (p + data.length)) ∧
      NamedFile S { fs with disk := d } name s (splice bytes p data) ∧
      f.hdr = headerAt d s := by
  have hle := h.length_le
  have hint : IsInt ((p : ℤ) + data.length) := by
    unfold IsInt
    unfold numDirect sectorWords sectorSize at hle
    omega
  have hcount : transferCount bytes.length p data.length = data.length := by
    unfold transferCount
    omega
  obtain ⟨d,hw,hd,hout⟩ := h.node.writeAt_contents (S := S) hf chars data p data.length hint le_rfl
  rw [h.contents, hcount] at hw hd
  rw [List.take_length] at hd
  obtain ⟨o,cur,c⟩ := h.coherent
  obtain ⟨i,hi,hplain,hs⟩ := h.entry
  have hheld := c.held_of_plain hi hplain
  rw [hs] at hheld
  have ag : Agrees fs.disk d (· = .entry cur i) := Agrees.write c.disk (.refl _ _) rfl hheld hout
  have hfile : ∀ {o s' kind}, o = Owner.entry cur i → Holds fs.disk o s' kind → kind = .file :=
    fun ho hs => ((ho ▸ hs).unique hheld).2
  have hheader := ag.headerAt_eq hheld
  refine ⟨d,?_,⟨⟨o,cur,(c.overwrite ag hfile).1⟩,⟨i,hi,hplain,hs⟩,?_,hd⟩,hf.trans hheader.symm⟩
  · simp only [OpenFile.write, hp, hw, Outcome.ok_bind, Outcome.pure_eq]
  · rw [length_splice hfit]
    exact (congrArg FileHeader.fileLength hheader).trans h.length

theorem of_create {o : Owner} {cur L : ℕ} (c : Coherent S fs o cur) (he : Enters S fs name)
    (hroom : Room S fs (sectorCount L)) (heap : Heap) :
    ∃ s fs' bytes, fs.create S heap name (BitVec.ofInt 32 L) = .ok (true,fs') ∧
      NamedFile S fs' name s bytes ∧ bytes.length = L := by
  obtain ⟨-,hint,hn⟩ := length_of_room hroom
  obtain ⟨hname,-,hslot⟩ := he
  obtain ⟨-,hindex,hclear⟩ := hroom
  rw [Int.toNat_natCast] at hindex hclear
  obtain ⟨i,hi⟩ := Option.ne_none_iff_exists'.mp hslot
  obtain ⟨s,fs',hcreate,e,hbytes,-⟩ := c.create_ok heap hname hi hn hindex (by omega)
  have hlength : (headerAt fs'.disk s).fileLength = L := by
    rw [FileHeader.fileLength, hbytes, hint]
  have hlen : (fileContents fs'.disk s).length = L := by
    rw [length_fileContents e.placed.node, hlength, Int.toNat_natCast]
  refine ⟨s,fs',_,hcreate,⟨⟨o,cur,e.coherent⟩,⟨i,e.findIndex hname,?_,e.sector⟩,?_,rfl⟩,hlen⟩
  · rw [Directory.isDirOfIndex, e.table, Directory.getTableAt_withEntry, if_pos rfl]
    exact Directory.isDir_fillEntry _ _ _ _
  · rw [hlength, hlen]

end NamedFile

end Nachos
