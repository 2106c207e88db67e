import Nachos.FileSys.Calls
import Nachos.FileSys.FirstFit

/-! # Sector ownership

Live files and directories own disjoint marked sectors along every run of
behaved calls. A failing `Create` breaks this: the name it leaves in the current
directory is written out by the next successful one.
-/
namespace Nachos
open FileSystem (rootSector)

structure SectorOwnership (S : Support) (d : Disk) : Prop where
  disjoint : ∀ {o o' s s' kind kind'}, Holds d o s kind → Holds d o' s' kind' →
    (s,kind) ≠ (s',kind') → List.Disjoint (ownedSectors d s kind) (ownedSectors d s' kind')
  entries : ∀ {o o' p q i j}, Holds d o p .directory → Holds d o' q .directory →
    (directoryAt d p).Child i → (directoryAt d q).Child j →
    ((directoryAt d p).getTableAt i).sector = ((directoryAt d q).getTableAt j).sector →
    p = q ∧ i = j
  marked : ∀ {o s kind}, Holds d o s kind → ∀ t ∈ ownedSectors d s kind, t ∈ storedMap S d

theorem WellFormed.sectorOwnership {S : Support} {d : Disk} (h : WellFormed S d) :
    SectorOwnership S d := by
  refine ⟨fun ho ho' hne t ht ht' => hne ?_,fun hp hq hi hj hs => ?_,fun ho t ht => h.marked ho ht⟩
  · have he := h.owner_eq ho ho' ht ht'
    subst he
    obtain ⟨rfl,rfl⟩ := ho.unique ho'
    rfl
  · have he := h.header_eq (.entry hp hi rfl rfl) (.entry hq hj (congrArg BitVec.toNat hs.symm) rfl)
    injection he.1 with hpq hij
    exact ⟨hpq,hij⟩

theorem sectorOwnership_of_run {S : Support} {fs : FileSystem}
    (h : ((calls S).guard (Behaved S)).Reachable fs) : SectorOwnership S fs.disk := by
  obtain ⟨o,cur,hc⟩ := coherent_of_run h
  exact hc.disk.sectorOwnership

theorem reachable_create : ∃ fs : FileSystem,
    ((calls FirstFit.support).guard (Behaved FirstFit.support)).Reachable fs ∧
      ∃ s, Holds fs.disk (.entry rootSector 2) s .file ∧ (headerAt fs.disk s).blocks = 40 := by
  obtain ⟨fs,hformat,f⟩ := format_eq FirstFit.support FirstFit.heap FirstFit.disk
  have hn : (FileHeader.sectorsFor FirstFit.support 5120).toInt = (40 : ℕ) := by decide
  obtain ⟨s,fs',hcreate,he,-,hblocks,-⟩ := f.coherent.create_ok FirstFit.heap
    (f.findIndex_none (show cString _ [97] ≠ _ by decide) (by decide)) f.freeIndex_eq hn (by decide)
    (by rw [f.clear]; decide)
  refine ⟨fs',.step (l := .create [97] 5120) (.start ⟨_,_,hformat⟩) ⟨fun _ => ?_,FirstFit.heap,
    .success true,by rw [FileSystem.call, hcreate]; rfl⟩,s,he.holds,hblocks⟩
  rw [hn, f.room]
  decide

/-- After `Create("a", 5120)` the file has forty data sectors. -/
theorem sectorOwnership_of_run_create : ∃ fs : FileSystem,
    SectorOwnership FirstFit.support fs.disk ∧
      ∃ s, Holds fs.disk (.entry rootSector 2) s .file ∧ (headerAt fs.disk s).blocks = 40 := by
  obtain ⟨fs,hr,hs⟩ := reachable_create
  exact ⟨fs,sectorOwnership_of_run hr,hs⟩

/-- `Create("a", 131072)` fails on a formatted disk for want of room, `Create("b", 0)` then
succeeds, and both names have the same header sector. -/
theorem not_sectorOwnership_after_failure :
    ∃ fs₀ fs₁ fs₂ : FileSystem,
      FileSystem.format FirstFit.support FirstFit.heap FirstFit.disk = .ok fs₀ ∧
      fs₀.create FirstFit.support FirstFit.heap [97] 131072 = .ok (false,fs₁) ∧
      fs₁.create FirstFit.support FirstFit.heap [98] 0 = .ok (true,fs₂) ∧
      ¬ SectorOwnership FirstFit.support fs₂.disk := by
  obtain ⟨fs,hformat,f⟩ := format_eq FirstFit.support FirstFit.heap FirstFit.disk
  have hc := f.coherent.toAnchored
  have hunused := (Directory.freeIndex_some f.freeIndex_eq).2
  obtain ⟨s,hfound,-⟩ := BitMap.find_eq (S := FirstFit.support) (m := storedMap _ fs.disk)
    (by rw [f.clear]; decide)
  have hfail : fs.create FirstFit.support FirstFit.heap [97] 131072 = _ :=
    hc.create_noRoom FirstFit.heap (f.findIndex_none (by decide) (by decide)) f.freeIndex_eq hfound
      (by rw [f.clear]; decide)
  -- the name is now in the table in memory, and the header sector is still clear
  generalize hdir : fs.currentDir.withEntry 2 [97] false s = dir at hfail
  have hc₁ : Anchored FirstFit.support { fs with currentDir := dir } .root rootSector := by
    refine ⟨hc.disk,hc.mapHeader,hc.held,?_⟩
    rw [← hdir, getSector_withEntry fs.currentDir (by decide)]
    exact hc.home
  have hname₁ : dir.findIndex [98] = none := by
    rw [← hdir]
    rw [Directory.findIndex_withEntry_ne hunused (by decide)]
    exact f.findIndex_none (by decide) (by decide)
  have hslot₁ : dir.freeIndex = some 3 := by
    rw [← hdir]
    exact f.freeIndex_withEntry
  obtain ⟨s',d',hcreate,hplaced,-⟩ := hc₁.create_eq (n := 0) FirstFit.heap hname₁ hslot₁
    (show (FileHeader.sectorsFor FirstFit.support 0).toInt = (0 : ℕ) by decide) (by decide)
    (by rw [f.clear]; decide)
  have hs : s' = s := Option.some.inj (hplaced.found.symm.trans hfound)
  subst hs
  refine ⟨fs,_,_,hformat,hfail,hcreate,fun ho => ?_⟩
  have htable : directoryAt d' rootSector = dir.withEntry 3 [98] false s' := hplaced.table
  have hne := (ho.entries (i := 2) (j := 3) .root .root ?_ ?_ ?_).2
  · exact absurd hne (by decide)
  · rw [htable]
    refine ⟨by decide,?_⟩
    rw [Directory.inUse_withEntry_ne (by decide), ← hdir]
    exact Directory.inUse_withEntry
  · rw [htable]
    exact ⟨by decide,Directory.inUse_withEntry⟩
  · rw [htable, Directory.getTableAt_withEntry, if_neg (by decide), Directory.getTableAt_withEntry,
      if_pos rfl, ← hdir, Directory.getTableAt_withEntry, if_pos rfl]
    rfl

end Nachos
