import Nachos.FileSys.Directory

/-! # The file system operations

`filesys.cc`. An operation works on the disk, on the open free map file and on
the shared in-memory current directory; an early exit returns whatever it has
made of them. `Heap` is the uninitialised memory the operation is given, one
field for each object it builds.
-/
namespace Nachos

structure Heap where
  hdr : FileHeader
  mapHdr : FileHeader
  sectorArray : ℕ → FileHeader
  table : Directory
  dirBuffer : ℕ → Byte
  newDirBuffer : ℕ → Byte
  mapBuffer : ℕ → Byte

structure FileSystem where
  /-- The contents of the disk under `synchDisk`. -/
  disk : Disk
  freeMapFile : OpenFile
  currentDir : Directory

namespace FileSystem
variable (S : Support) (heap : Heap)

abbrev freeMapSector : ℕ := 0
abbrev rootSector : ℕ := 1

/-- `FileSystem::FileSystem(TRUE)`, on a disk with arbitrary contents. -/
def format (disk : Disk) : Outcome FileSystem := do
  let currentDir := Directory.new heap.table
  let currentDir := currentDir.setSectorAt Directory.currentDirectoryIndex 1
  let currentDir := currentDir.setSectorAt Directory.parentDirectoryIndex 1
  let freeMap ← BitMap.mark ∅ freeMapSector
  let freeMap ← freeMap.mark rootSector
  let (success,mapHdr,freeMap) ← heap.mapHdr.allocateDirectory S freeMap freeMapFileSize
  if !success then throw .assertion
  let (success,dirHdr,freeMap) ← heap.hdr.allocateDirectory S freeMap directoryFileSize
  if !success then throw .assertion
  let disk ← mapHdr.writeBack disk freeMapSector
  let disk ← dirHdr.writeBack disk rootSector
  let freeMapFile ← OpenFile.new disk freeMapSector
  let directoryFile ← OpenFile.new disk rootSector
  let disk ← freeMap.writeBack S heap.mapBuffer freeMapFile disk
  let disk ← currentDir.writeBack S heap.dirBuffer directoryFile disk
  return ⟨disk,freeMapFile,currentDir⟩

def create (fs : FileSystem) (name : List Byte) (initialSize : Word) :
    Outcome (Bool × FileSystem) := do
  if fs.currentDir.find name ≠ -1 then return (false,fs)
  let freeMap ← BitMap.fetchFrom S fs.freeMapFile fs.disk
  let (sector,freeMap) := freeMap.find S
  if sector = -1 then return (false,fs)
  let (added,currentDir) := fs.currentDir.add name sector
  -- `currentDir` is the shared object: its change stays whatever comes next
  let fs := { fs with currentDir := currentDir }
  if !added then return (false,fs)
  let (allocated,hdr,freeMap,disk) ←
    heap.hdr.allocate S heap.sectorArray freeMap initialSize fs.disk
  if !allocated then return (false,fs)
  let disk ← hdr.writeBack disk sector.toInt
  let currentHdrFile ← OpenFile.new disk fs.currentDir.getSector
  let disk ← fs.currentDir.writeBack S heap.dirBuffer currentHdrFile disk
  let disk ← freeMap.writeBack S heap.mapBuffer fs.freeMapFile disk
  return (true,{ fs with disk := disk })

/-- `FileSystem::Open`; `NULL` is `none`. -/
def openFile (fs : FileSystem) (name : List Byte) : Outcome (Option OpenFile) := do
  let currentHdrFile ← OpenFile.new fs.disk fs.currentDir.getSector
  let directory ← (Directory.new heap.table).fetchFrom S currentHdrFile fs.disk
  let sector := directory.find name
  if 0 ≤ sector then
    let file ← OpenFile.new fs.disk sector
    return some file
  else return none

def remove (fs : FileSystem) (name : List Byte) : Outcome (Bool × FileSystem) := do
  let sector := fs.currentDir.find name
  if sector = -1 then return (false,fs)
  let fileHdr ← FileHeader.fetchFrom fs.disk sector
  let freeMap ← BitMap.fetchFrom S fs.freeMapFile fs.disk
  let freeMap ← fileHdr.deallocate S fs.disk freeMap
  let freeMap ← freeMap.clear sector
  let (_,currentDir) := fs.currentDir.remove name
  let currentHdrFile ← OpenFile.new fs.disk currentDir.getSector
  let disk ← freeMap.writeBack S heap.mapBuffer fs.freeMapFile fs.disk
  let disk ← currentDir.writeBack S heap.dirBuffer currentHdrFile disk
  return (true,{ fs with disk := disk, currentDir := currentDir })

def createDirectory (fs : FileSystem) (name : List Byte) : Outcome (ℤ × FileSystem) := do
  if fs.currentDir.find name ≠ -1 then return (-2,fs)
  let freeMap ← BitMap.fetchFrom S fs.freeMapFile fs.disk
  let (sector,freeMap) := freeMap.find S
  if sector = -1 then return (-1,fs)
  let (added,currentDir) := fs.currentDir.addDirectory name sector
  let fs := { fs with currentDir := currentDir }
  if !added then return (-1,fs)
  let (allocated,hdr,freeMap) ← heap.hdr.allocateDirectory S freeMap directoryFileSize
  if !allocated then return (-1,fs)
  let disk ← hdr.writeBack fs.disk sector.toInt
  let currentHdrFile ← OpenFile.new disk fs.currentDir.getSector
  let disk ← fs.currentDir.writeBack S heap.dirBuffer currentHdrFile disk
  let newDir := Directory.new heap.table
  let newDir := newDir.setSectorAt Directory.currentDirectoryIndex sector
  let newDir := newDir.setSectorAt Directory.parentDirectoryIndex
    (fs.currentDir.getTableAt Directory.currentDirectoryIndex).sector
  let newDirHdrFile ← OpenFile.new disk sector.toInt
  let disk ← newDir.writeBack S heap.newDirBuffer newDirHdrFile disk
  let disk ← freeMap.writeBack S heap.mapBuffer fs.freeMapFile disk
  return (0,{ fs with disk := disk })

def removeDirectory (fs : FileSystem) (name : List Byte) : Outcome (ℤ × FileSystem) :=
  match fs.currentDir.findIndex name with
  | none => return (-2,fs)
  | some index => do
    let sector := (fs.currentDir.getTableAt index).sector.toInt
    let dirHdr ← FileHeader.fetchFrom fs.disk sector
    let currentHdrFile ← OpenFile.new fs.disk fs.currentDir.getSector
    -- the directory that is read and tested is the current one
    let directory ← (Directory.new heap.table).fetchFrom S currentHdrFile fs.disk
    if !directory.isEmpty then return (-1,fs)
    let freeMap ← BitMap.fetchFrom S fs.freeMapFile fs.disk
    let freeMap ← dirHdr.deallocateDirectory freeMap
    let freeMap ← freeMap.clear sector
    let _ ← FileHeader.fetchFrom fs.disk fs.currentDir.getSector
    let currentDir := fs.currentDir.setInUseOfIndex index false
    let disk ← freeMap.writeBack S heap.mapBuffer fs.freeMapFile fs.disk
    let disk ← currentDir.writeBack S heap.dirBuffer currentHdrFile disk
    return (0,{ fs with disk := disk, currentDir := currentDir })

def changeDirectory (fs : FileSystem) (name : List Byte) : Outcome (ℤ × FileSystem) :=
  match fs.currentDir.findIndex name with
  | none => return (-1,fs)
  | some index => do
    let nextDirFile ← OpenFile.new fs.disk (fs.currentDir.getTableAt index).sector.toInt
    let nextDir ← (Directory.new heap.table).fetchFrom S nextDirFile fs.disk
    return (0,{ fs with currentDir := nextDir })

end FileSystem

end Nachos
