import Nachos.FileSys.Calls
import Nachos.FileSys.Contents

/-! # Starting the file system again

`FileSystem::FileSystem(FALSE)` takes over the disk as the last run has left it: the free map file
is opened again and the root becomes the current directory.
-/
namespace Nachos
open FileSystem (freeMapSector rootSector)

/-- `FileSystem::FileSystem(FALSE)`. -/
def FileSystem.mount (S : Support) (heap : Heap) (disk : Disk) : Outcome FileSystem := do
  let freeMapFile ← OpenFile.new disk freeMapSector
  let directoryFile ← OpenFile.new disk rootSector
  let currentDir ← (Directory.new heap.table).fetchFrom S directoryFile disk
  return ⟨disk,freeMapFile,currentDir⟩

variable {S : Support} {fs : FileSystem} {o : Owner} {cur : ℕ}

theorem Coherent.mount (c : Coherent S fs o cur) (heap : Heap) :
    ∃ fs', FileSystem.mount S heap fs.disk = .ok fs' ∧ fs'.disk = fs.disk ∧
      Coherent S fs' .root rootSector := by
  have hmap := c.openNode .freeMap
  have hroot := c.openNode .root
  have hfetch := Directory.fetchFrom_eq (S := S) (c.disk.node .root)
    (f := ⟨headerAt fs.disk rootSector,0⟩) rfl (Directory.new heap.table)
  refine ⟨⟨fs.disk,⟨headerAt fs.disk freeMapSector,0⟩,directoryAt fs.disk rootSector⟩,?_,rfl,
    .of_synced c.disk rfl .root rfl⟩
  simp only [FileSystem.mount, hmap, hroot, Outcome.ok_bind, hfetch, Outcome.pure_eq]

end Nachos
