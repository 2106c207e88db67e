import Nachos.FileSys.KindDiscipline

/-! # The headers that a call goes through

The calls once more, noting each header that they read or write a file through, hand out in a file
or free the sectors of. Without the notes they are the calls, and each header is one that
`headerUses` tells in advance, or the one that `CreateDirectory` has just made.
-/
namespace Nachos
open FileSystem (freeMapSector rootSector)

abbrev Noting := StateT (List (ℤ × Levels)) (Except Fault)

def note (s : ℤ) (l : Levels) : Noting Unit := modify (· ++ [(s,l)])

namespace FileSystem
variable (S : Support) (heap : Heap)

def notedCreate (fs : FileSystem) (name : List Byte) (initialSize : Word) :
    Noting (Bool × FileSystem) := do
  if fs.currentDir.find name ≠ -1 then return (false,fs)
  note freeMapSector .one
  let freeMap ← BitMap.fetchFrom S fs.freeMapFile fs.disk
  let (sector,freeMap) := freeMap.find S
  if sector = -1 then return (false,fs)
  let (added,currentDir) := fs.currentDir.add name sector
  let fs := { fs with currentDir := currentDir }
  if !added then return (false,fs)
  let (allocated,hdr,freeMap,disk) ←
    heap.hdr.allocate S heap.sectorArray freeMap initialSize fs.disk
  if !allocated then return (false,fs)
  let disk ← hdr.writeBack disk sector.toInt
  let currentHdrFile ← OpenFile.new disk fs.currentDir.getSector
  note fs.currentDir.getSector .one
  let disk ← fs.currentDir.writeBack S heap.dirBuffer currentHdrFile disk
  note freeMapSector .one
  let disk ← freeMap.writeBack S heap.mapBuffer fs.freeMapFile disk
  return (true,{ fs with disk := disk })

def notedOpenFile (fs : FileSystem) (name : List Byte) : Noting (Option OpenFile) := do
  let currentHdrFile ← OpenFile.new fs.disk fs.currentDir.getSector
  note fs.currentDir.getSector .one
  let directory ← (Directory.new heap.table).fetchFrom S currentHdrFile fs.disk
  let sector := directory.find name
  if 0 ≤ sector then
    -- `Read` and `Write` go through mode `1`
    note sector .two
    let file ← OpenFile.new fs.disk sector
    return some file
  else return none

def notedRemove (fs : FileSystem) (name : List Byte) : Noting (Bool × FileSystem) := do
  let sector := fs.currentDir.find name
  if sector = -1 then return (false,fs)
  let fileHdr ← FileHeader.fetchFrom fs.disk sector
  note freeMapSector .one
  let freeMap ← BitMap.fetchFrom S fs.freeMapFile fs.disk
  note sector .two
  let freeMap ← fileHdr.deallocate S fs.disk freeMap
  let freeMap ← freeMap.clear sector
  let (_,currentDir) := fs.currentDir.remove name
  let currentHdrFile ← OpenFile.new fs.disk currentDir.getSector
  note freeMapSector .one
  let disk ← freeMap.writeBack S heap.mapBuffer fs.freeMapFile fs.disk
  note currentDir.getSector .one
  let disk ← currentDir.writeBack S heap.dirBuffer currentHdrFile disk
  return (true,{ fs with disk := disk, currentDir := currentDir })

def notedCreateDirectory (fs : FileSystem) (name : List Byte) : Noting (ℤ × FileSystem) := do
  if fs.currentDir.find name ≠ -1 then return (-2,fs)
  note freeMapSector .one
  let freeMap ← BitMap.fetchFrom S fs.freeMapFile fs.disk
  let (sector,freeMap) := freeMap.find S
  if sector = -1 then return (-1,fs)
  let (added,currentDir) := fs.currentDir.addDirectory name sector
  let fs := { fs with currentDir := currentDir }
  if !added then return (-1,fs)
  let (allocated,hdr,freeMap) ← heap.hdr.allocateDirectory S freeMap directoryFileSize
  if !allocated then return (-1,fs)
  let disk ← hdr.writeBack fs.disk sector.toInt
  let currentHdrFile ← OpenFile.new disk fs.currentDir.getSector
  note fs.currentDir.getSector .one
  let disk ← fs.currentDir.writeBack S heap.dirBuffer currentHdrFile disk
  let newDir := Directory.new heap.table
  let newDir := newDir.setSectorAt Directory.currentDirectoryIndex sector
  let newDir := newDir.setSectorAt Directory.parentDirectoryIndex
    (fs.currentDir.getTableAt Directory.currentDirectoryIndex).sector
  let newDirHdrFile ← OpenFile.new disk sector.toInt
  note sector.toInt .one
  let disk ← newDir.writeBack S heap.newDirBuffer newDirHdrFile disk
  note freeMapSector .one
  let disk ← freeMap.writeBack S heap.mapBuffer fs.freeMapFile disk
  return (0,{ fs with disk := disk })

def notedRemoveDirectory (fs : FileSystem) (name : List Byte) : Noting (ℤ × FileSystem) :=
  match fs.currentDir.findIndex name with
  | none => return (-2,fs)
  | some index => do
    let sector := (fs.currentDir.getTableAt index).sector.toInt
    let dirHdr ← FileHeader.fetchFrom fs.disk sector
    let currentHdrFile ← OpenFile.new fs.disk fs.currentDir.getSector
    note fs.currentDir.getSector .one
    let directory ← (Directory.new heap.table).fetchFrom S currentHdrFile fs.disk
    if !directory.isEmpty then return (-1,fs)
    note freeMapSector .one
    let freeMap ← BitMap.fetchFrom S fs.freeMapFile fs.disk
    note sector .one
    let freeMap ← dirHdr.deallocateDirectory freeMap
    let freeMap ← freeMap.clear sector
    let _ ← FileHeader.fetchFrom fs.disk fs.currentDir.getSector
    let currentDir := fs.currentDir.setInUseOfIndex index false
    note freeMapSector .one
    let disk ← freeMap.writeBack S heap.mapBuffer fs.freeMapFile fs.disk
    note fs.currentDir.getSector .one
    let disk ← currentDir.writeBack S heap.dirBuffer currentHdrFile disk
    return (0,{ fs with disk := disk, currentDir := currentDir })

def notedChangeDirectory (fs : FileSystem) (name : List Byte) : Noting (ℤ × FileSystem) :=
  match fs.currentDir.findIndex name with
  | none => return (-1,fs)
  | some index => do
    let nextDirFile ← OpenFile.new fs.disk (fs.currentDir.getTableAt index).sector.toInt
    note (fs.currentDir.getTableAt index).sector.toInt .one
    let nextDir ← (Directory.new heap.table).fetchFrom S nextDirFile fs.disk
    return (0,{ fs with currentDir := nextDir })

def notedCall (fs : FileSystem) : Call → Noting (Reply × FileSystem)
  | .create name initialSize => do
    let (b,fs) ← fs.notedCreate S heap name initialSize
    return (.success b,fs)
  | .openFile name => do
    let file ← fs.notedOpenFile S heap name
    return (.handle file,fs)
  | .remove name => do
    let (b,fs) ← fs.notedRemove S heap name
    return (.success b,fs)
  | .createDirectory name => do
    let (n,fs) ← fs.notedCreateDirectory S heap name
    return (.code n,fs)
  | .removeDirectory name => do
    let (n,fs) ← fs.notedRemoveDirectory S heap name
    return (.code n,fs)
  | .changeDirectory name => do
    let (n,fs) ← fs.notedChangeDirectory S heap name
    return (.code n,fs)

end FileSystem

/-- Without its notes `p` is `x`, and it notes only these. -/
structure Notes {α : Type} (ok : ℤ × Levels → Prop) (p : Noting α) (x : Outcome α) : Prop where
  erase : ∀ log, Prod.fst <$> p.run log = x
  noted : ∀ log a log', p.run log = .ok (a,log') → ∀ u ∈ log', u ∈ log ∨ ok u

namespace Notes
variable {α β : Type} {ok : ℤ × Levels → Prop} {p q : Noting α} {x y : Outcome α}

theorem pure (a : α) : Notes ok (Pure.pure a) (Pure.pure a) := by
  refine ⟨fun _ => rfl,?_⟩
  rintro log _ _ ⟨⟩ u hu
  exact .inl hu

theorem lift {o : Outcome β} {f : β → Noting α} {g : β → Outcome α}
    (h : ∀ b, o = .ok b → Notes ok (f b) (g b)) : Notes ok (liftM o >>= f) (o >>= g) := by
  cases o with
  | error e =>
    refine ⟨fun _ => rfl,?_⟩
    rintro log a log' ⟨⟩
  | ok b => exact ⟨(h b rfl).erase,(h b rfl).noted⟩

theorem note {s : ℤ} {l : Levels} {f : Unit → Noting α} (hu : ok (s,l)) (h : Notes ok (f ()) x) :
    Notes ok (Nachos.note s l >>= f) x := by
  refine ⟨fun log => h.erase (log ++ [(s,l)]),fun log a log' hrun u hmem => ?_⟩
  rcases h.noted _ _ _ hrun u hmem with hlog | hok
  · rcases List.mem_append.mp hlog with hlog | hlog
    · exact .inl hlog
    · exact .inr (List.mem_singleton.mp hlog ▸ hu)
  · exact .inr hok

theorem ite {c : Prop} [Decidable c] (h : c → Notes ok p x) (h' : ¬ c → Notes ok q y) :
    Notes ok (if c then p else q) (if c then x else y) := by
  split_ifs with hc
  · exact h hc
  · exact h' hc

theorem map (h : Notes ok p x) (f : α → β) :
    Notes ok (p >>= fun a => Pure.pure (f a)) (x >>= fun a => Pure.pure (f a)) := by
  have hrun : ∀ log, (p >>= fun a => Pure.pure (f a)).run log =
      (p.run log >>= fun r => Except.ok (f r.1,r.2)) := fun _ => rfl
  constructor
  · intro log
    rw [hrun, ← h.erase log]
    cases p.run log <;> rfl
  · intro log b log' hb u hu
    rw [hrun] at hb
    obtain ⟨⟨a,log₁⟩,ha,hb⟩ := Outcome.bind_eq_ok.mp hb
    cases hb
    exact h.noted log a _ ha u hu

end Notes

section Calls
variable {S : Support} {fs : FileSystem} {o : Owner} {cur : ℕ} {name : List Byte}

theorem getSector_add (dir : Directory) (name : List Byte) (s : Word) :
    (dir.add name s).2.getSector = dir.getSector := by
  unfold Directory.add
  split_ifs
  · rfl
  split
  case _ i hi => exact getSector_behind dir (Directory.freeIndex_some hi).1 _
  case _ => rfl

theorem getSector_addDirectory (dir : Directory) (name : List Byte) (s : Word) :
    (dir.addDirectory name s).2.getSector = dir.getSector := by
  unfold Directory.addDirectory
  split
  case _ i hi => exact getSector_behind dir (Directory.freeIndex_some hi).1 _
  case _ => rfl

theorem getSector_remove (dir : Directory) (name : List Byte) :
    (dir.remove name).2.getSector = dir.getSector := by
  unfold Directory.remove
  split
  · exact getSector_setInUse ..
  · rfl

def Made (S : Support) (fs : FileSystem) (l : Call) (u : ℤ × Levels) : Prop :=
  ∃ name m, l = .createDirectory name ∧ BitMap.fetchFrom S fs.freeMapFile fs.disk = .ok m ∧
    u = ((m.find S).1.toInt,.one)

theorem map_mem {l : Call} : (((freeMapSector : ℕ) : ℤ),Levels.one) ∈ headerUses fs l :=
  List.mem_cons_self

theorem current_mem {l : Call} : (fs.currentDir.getSector,Levels.one) ∈ headerUses fs l :=
  List.mem_cons_of_mem _ List.mem_cons_self

theorem find_mem {dir : Directory} {l : Levels} (h : dir.find name ≠ -1) :
    (dir.find name,l) ∈ foundHeader dir name l := by
  unfold Directory.find foundHeader at *
  cases hi : dir.findIndex name with
  | some i => exact List.mem_singleton_self _
  | none =>
    rw [hi] at h
    exact absurd rfl h

theorem Coherent.fetchCurrent (c : Coherent S fs o cur) {mem : Directory} {f : OpenFile}
    {dir : Directory} (hf : OpenFile.new fs.disk fs.currentDir.getSector = .ok f)
    (hdir : mem.fetchFrom S f fs.disk = .ok dir) :
    dir = fs.currentDir ∧ directoryAt fs.disk fs.currentDir.getSector.toNat = fs.currentDir := by
  rw [c.home, c.openNode c.held] at hf
  cases hf
  rw [Directory.fetchFrom_eq (S := S) (c.disk.node c.held) rfl mem, ← c.synced] at hdir
  cases hdir
  rw [c.home, Int.toNat_natCast]
  exact ⟨rfl,c.synced.symm⟩

variable {ok : ℤ × Levels → Prop}

theorem notes_create (heap : Heap) {size : Word}
    (hok : ∀ u ∈ headerUses fs (.create name size), ok u) :
    Notes ok (fs.notedCreate S heap name size) (fs.create S heap name size) := by
  unfold FileSystem.notedCreate FileSystem.create
  refine .ite (fun _ => .pure _) fun _ => ?_
  refine .note (hok _ map_mem) (.lift fun m hm => ?_)
  dsimp only
  refine .ite (fun _ => .pure _) fun _ => ?_
  refine .ite (fun _ => .pure _) fun _ => ?_
  refine .lift fun r _ => .ite (fun _ => .pure _) fun _ => ?_
  refine .lift fun d₁ _ => .lift fun f _ => .note ?_ (.lift fun d₂ _ => ?_)
  · rw [getSector_add]
    exact hok _ current_mem
  exact .note (hok _ map_mem) (.lift fun d₃ _ => .pure _)

theorem notes_remove (heap : Heap) (hok : ∀ u ∈ headerUses fs (.remove name), ok u) :
    Notes ok (fs.notedRemove S heap name) (fs.remove S heap name) := by
  unfold FileSystem.notedRemove FileSystem.remove
  refine .ite (fun _ => .pure _) fun hfound => .lift fun hdr _ => ?_
  refine .note (hok _ map_mem) (.lift fun m _ => .note ?_ ?_)
  · exact hok _ (List.mem_cons_of_mem _ (List.mem_cons_of_mem _ (find_mem hfound)))
  refine .lift fun m₁ _ => .lift fun m₂ _ => .lift fun f _ => ?_
  refine .note (hok _ map_mem) (.lift fun d₁ _ => .note ?_ (.lift fun d₂ _ => .pure _))
  change ok ((fs.currentDir.remove name).2.getSector,_)
  rw [getSector_remove]
  exact hok _ current_mem

theorem notes_createDirectory (heap : Heap)
    (hok : ∀ u ∈ headerUses fs (.createDirectory name), ok u)
    (hmade : ∀ u, Made S fs (.createDirectory name) u → ok u) :
    Notes ok (fs.notedCreateDirectory S heap name) (fs.createDirectory S heap name) := by
  unfold FileSystem.notedCreateDirectory FileSystem.createDirectory
  refine .ite (fun _ => .pure _) fun _ => ?_
  refine .note (hok _ map_mem) (.lift fun m hm => ?_)
  dsimp only
  refine .ite (fun _ => .pure _) fun _ => ?_
  refine .ite (fun _ => .pure _) fun _ => ?_
  refine .lift fun r _ => .ite (fun _ => .pure _) fun _ => ?_
  refine .lift fun d₁ _ => .lift fun f _ => .note ?_ (.lift fun d₂ _ => .lift fun f₂ _ => ?_)
  · rw [getSector_addDirectory]
    exact hok _ current_mem
  refine .note (hmade _ ⟨name,m,rfl,hm,rfl⟩) (.lift fun d₃ _ => ?_)
  exact .note (hok _ map_mem) (.lift fun d₄ _ => .pure _)

theorem notes_removeDirectory (c : Coherent S fs o cur) (heap : Heap)
    (hok : ∀ u ∈ headerUses fs (.removeDirectory name), ok u) :
    Notes ok (fs.notedRemoveDirectory S heap name) (fs.removeDirectory S heap name) := by
  unfold FileSystem.notedRemoveDirectory FileSystem.removeDirectory
  cases hi : fs.currentDir.findIndex name with
  | none => exact .pure _
  | some i =>
    refine .lift fun hdr _ => .lift fun f hf => .note (hok _ current_mem) (.lift fun dir hdir => ?_)
    obtain rfl := (c.fetchCurrent hf hdir).1
    refine .ite (fun _ => .pure _) fun hempty => ?_
    refine .note (hok _ map_mem) (.lift fun m _ => .note ?_ ?_)
    · refine hok _ ?_
      simp only [Bool.not_eq_true', Bool.not_eq_false] at hempty
      simp [headerUses, foundHeader, hi, hempty]
    refine .lift fun m₁ _ => .lift fun m₂ _ => .lift fun _ _ => ?_
    refine .note (hok _ map_mem) (.lift fun d₁ _ => ?_)
    exact .note (hok _ current_mem) (.lift fun d₂ _ => .pure _)

theorem notes_changeDirectory (heap : Heap)
    (hok : ∀ u ∈ headerUses fs (.changeDirectory name), ok u) :
    Notes ok (fs.notedChangeDirectory S heap name) (fs.changeDirectory S heap name) := by
  unfold FileSystem.notedChangeDirectory FileSystem.changeDirectory
  cases hi : fs.currentDir.findIndex name with
  | none => exact .pure _
  | some i =>
    refine .lift fun f _ => .note (hok _ ?_) (.lift fun dir _ => .pure _)
    simp [headerUses, foundHeader, hi]

theorem notes_openFile (c : Coherent S fs o cur) (heap : Heap)
    (hok : ∀ u ∈ headerUses fs (.openFile name), ok u) :
    Notes ok (fs.notedOpenFile S heap name) (fs.openFile S heap name) := by
  unfold FileSystem.notedOpenFile FileSystem.openFile
  refine .lift fun f hf => .note (hok _ current_mem) (.lift fun dir hdir => ?_)
  obtain ⟨rfl,hstored⟩ := c.fetchCurrent hf hdir
  refine .ite (fun hfound => .note ?_ (.lift fun file _ => .pure _)) fun _ => .pure _
  refine hok _ (List.mem_cons_of_mem _ (List.mem_cons_of_mem _ ?_))
  rw [hstored]
  exact find_mem (by omega)

/-- A call goes through the headers of `headerUses`, and through that of the directory it makes. -/
theorem Coherent.notes_call (c : Coherent S fs o cur) (heap : Heap) (l : Call) :
    Notes (fun u => u ∈ headerUses fs l ∨ Made S fs l u) (fs.notedCall S heap l)
      (fs.call S heap l) := by
  cases l with
  | create name size => exact (notes_create heap fun _ hu => .inl hu).map _
  | openFile name => exact (notes_openFile c heap fun _ hu => .inl hu).map _
  | remove name => exact (notes_remove heap fun _ hu => .inl hu).map _
  | createDirectory name =>
    exact (notes_createDirectory heap (fun _ hu => .inl hu) fun _ hu => .inr hu).map _
  | removeDirectory name => exact (notes_removeDirectory c heap fun _ hu => .inl hu).map _
  | changeDirectory name => exact (notes_changeDirectory heap fun _ hu => .inl hu).map _

/-- A call that is no mix-up uses each header for what it is. -/
theorem Coherent.noted_fits (c : Coherent S fs o cur) (heap : Heap) {l : Call} (hm : ¬ MixUp fs l)
    {r : Reply × FileSystem} {log : List (ℤ × Levels)}
    (hrun : (fs.notedCall S heap l).run [] = .ok (r,log)) :
    ∀ u ∈ log, Fits fs.disk u.1 u.2 ∨ Made S fs l u := by
  intro u hu
  rcases (c.notes_call heap l).noted _ _ _ hrun u hu with hnil | huses | hmade
  · cases hnil
  · exact .inl (c.fits hm u huses)
  · exact .inr hmade

end Calls

end Nachos
