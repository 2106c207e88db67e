import Nachos.FileSys.Calls
import Nachos.FileSys.Contents
import Nachos.FileSys.Overcommit
import Nachos.FileSys.FirstFit

/-! # Creating and removing a file

`Remove` gives back the header and the index sectors of a file. Its data sectors stay
marked, so that only the removal of a file without data leaves no trace.
-/
namespace Nachos

inductive Access where
  | read (numBytes : ℤ) (position : ℕ)
  | write (chars : ℕ → Byte) (src : List Byte) (numBytes : ℤ) (position : ℕ)

namespace Access

/-- The end of the range is an `int`, and the bytes to be written are there. -/
def Valid : Access → Prop
  | .read numBytes position => IsInt (position + numBytes)
  | .write _ src numBytes position => IsInt (position + numBytes) ∧ numBytes ≤ src.length

def run (S : Support) (f : OpenFile) (d : Disk) : Access → Outcome Disk
  | .read numBytes position => do
    let _ ← f.readAt S d numBytes position 1
    return d
  | .write chars src numBytes position => do
    let r ← f.writeAt S chars d src numBytes position 1
    return r.2

def runAll (S : Support) (f : OpenFile) : List Access → Disk → Outcome Disk
  | [], d => return d
  | a :: as, d => do
    let d ← a.run S f d
    runAll S f as d

variable {S : Support} {d : Disk} {s : ℕ} {f : OpenFile}

theorem run_eq (hn : NodeOk d s .file) (hf : f.hdr = headerAt d s) {a : Access} (ha : a.Valid) :
    ∃ d', a.run S f d = .ok d' ∧ ∀ t, t ∉ dataSectors d s .file → d' t = d t := by
  cases a with
  | read numBytes position =>
    refine ⟨d,?_,fun _ _ => rfl⟩
    rw [run, hn.readAt_contents hf position numBytes ha]
    rfl
  | write chars src numBytes position =>
    obtain ⟨d',hw,-,hout⟩ := hn.writeAt_contents (S := S) hf chars src position numBytes ha.1 ha.2
    exact ⟨d',by rw [run, hw]; rfl,hout⟩

theorem runAll_eq (hn : NodeOk d s .file) (hf : f.hdr = headerAt d s) {as : List Access}
    (has : ∀ a ∈ as, a.Valid) :
    ∃ d', runAll S f as d = .ok d' ∧ ∀ t, t ∉ dataSectors d s .file → d' t = d t := by
  induction as generalizing d with
  | nil => exact ⟨d,rfl,fun _ _ => rfl⟩
  | cons a as ih =>
    obtain ⟨d₁,h₁,hout₁⟩ := run_eq (S := S) hn hf (has a List.mem_cons_self)
    have hmeta : ∀ t ∈ metaSectors d s .file, d₁ t = d t := fun t ht =>
      hout₁ t (hn.not_mem_data ht)
    have hf₁ : f.hdr = headerAt d₁ s := by
      rw [hf, headerAt_congr (hmeta s (mem_metaSectors_self d s .file))]
    obtain ⟨d',h',hout'⟩ := ih (hn.congr hmeta) hf₁ fun b hb => has b (List.mem_cons_of_mem a hb)
    rw [dataSectors_congr hmeta] at hout'
    exact ⟨d',by rw [runAll, h₁, Outcome.ok_bind, h'],fun t ht => (hout' t ht).trans (hout₁ t ht)⟩

end Access

def Directory.entries (dir : Directory) : Set (List Byte × Bool × Word) :=
  {e | ∃ i, dir.isInUseOfIndex i = true ∧
    e = (dir.nameAt i,dir.isDirOfIndex i,(dir.getTableAt i).sector)}

structure Restored (S : Support) (fs fs' : FileSystem) : Prop where
  map : storedMap S fs'.disk = storedMap S fs.disk
  memory : fs'.currentDir.entries = fs.currentDir.entries
  disk : (directoryAt fs'.disk fs.currentDir.getSector.toNat).entries =
    (directoryAt fs.disk fs.currentDir.getSector.toNat).entries

/-- Whatever is read and written after `fs₁` was made of `fs` by a creation, the new file
is removed without a trace. -/
def NoLeak (S : Support) (fs fs₁ : FileSystem) (name : List Byte) : Prop :=
  ∀ heap heap' as f, (∀ a ∈ as, Access.Valid a) → fs₁.openFile S heap name = .ok (some f) →
    ∃ d fs₂, Access.runAll S f as fs₁.disk = .ok d ∧
      ({ fs₁ with disk := d } : FileSystem).remove S heap' name = .ok (true,fs₂) ∧
      Restored S fs fs₂

section Removal
variable {S : Support} {fs fs₁ : FileSystem} {o : Owner} {cur : ℕ} {i : Fin numDirEntries}
  {name : List Byte} {s : ℕ}

theorem Directory.entries_drop {dir : Directory} (hfree : dir.isInUseOfIndex i = false) :
    ((dir.withEntry i name false s).setInUseOfIndex i false).entries = dir.entries := by
  have hat : ∀ j, j ≠ i → ((dir.withEntry i name false s).setInUseOfIndex i false).getTableAt j =
      dir.getTableAt j := fun j hj => by
    rw [setInUseOfIndex, getTableAt_setTableAt, if_neg hj, getTableAt_withEntry, if_neg hj]
  have hi : ((dir.withEntry i name false s).setInUseOfIndex i false).isInUseOfIndex i = false := by
    rw [isInUseOfIndex, setInUseOfIndex, getTableAt_setTableAt, if_pos rfl,
      DirectoryEntry.inUse_setInUse]
  have hsame : ∀ j, j ≠ i →
      (((dir.withEntry i name false s).setInUseOfIndex i false).isInUseOfIndex j = true ↔
        dir.isInUseOfIndex j = true) := fun j hj => by
    rw [isInUseOfIndex, hat j hj, isInUseOfIndex]
  ext e
  constructor
  · rintro ⟨j,hj,rfl⟩
    have hji : j ≠ i := by
      rintro rfl
      exact Bool.false_ne_true (hi.symm.trans hj)
    refine ⟨j,(hsame j hji).mp hj,?_⟩
    rw [nameAt, isDirOfIndex, hat j hji, nameAt, isDirOfIndex]
  · rintro ⟨j,hj,rfl⟩
    have hji : j ≠ i := by
      rintro rfl
      exact Bool.false_ne_true (hfree.symm.trans hj)
    refine ⟨j,(hsame j hji).mpr hj,?_⟩
    rw [nameAt, isDirOfIndex, nameAt, isDirOfIndex, hat j hji]

/-- What is left of a file that was created and removed are its data sectors. -/
theorem Entered.remove (e : Entered S fs fs₁ o cur i name false s)
    (hname : fs.currentDir.findIndex name = none) (hslot : fs.currentDir.freeIndex = some i)
    {d : Disk} (hd : ∀ t, t ∉ dataSectors fs₁.disk s .file → d t = fs₁.disk t) (heap : Heap) :
    ∃ fs₂, ({ fs₁ with disk := d } : FileSystem).remove S heap name = .ok (true,fs₂) ∧
      fs₂.currentDir.entries = fs.currentDir.entries ∧
      fs₂.currentDir = directoryAt fs₂.disk cur ∧
      storedMap S fs₂.disk =
        storedMap S fs.disk ∪ (dataSectors fs₁.disk s .file).toFinset := by
  obtain ⟨hi,hunused⟩ := Directory.freeIndex_some hslot
  have ag : Agrees fs₁.disk d (· = .entry cur i) :=
    Agrees.write e.coherent.disk (.refl _ _) rfl e.holds hd
  obtain ⟨c',hmap'⟩ := e.coherent.overwrite ag fun ho hs => ((ho ▸ hs).unique e.holds).2
  obtain ⟨d₂,o',hremove,c₂,-,hmap₂⟩ := c'.remove_ok heap (e.findIndex hname) hi e.sector
  refine ⟨_,hremove,?_,c₂.synced,?_⟩
  · change (fs₁.currentDir.setInUseOfIndex i false).entries = _
    rw [e.table]
    exact Directory.entries_drop hunused
  · change storedMap S d₂ = _
    have hnode := e.placed.node
    have hhdr : headerAt d s = headerAt fs₁.disk s := ag.headerAt_eq e.holds
    have hnd := hnode.nodup
    have howned : ownedSectors fs₁.disk s (NodeKind.ofIsDir false) =
        (s :: (headerAt fs₁.disk s).indexSectors) ++ dataSectors fs₁.disk s .file := rfl
    rw [hmap₂]
    change storedMap S d \ insert s (headerAt d s).indexSectors.toFinset = _
    rw [hmap', hhdr, e.placed.map, howned, ← List.toFinset_cons]
    ext t
    simp only [Finset.mem_sdiff, Finset.mem_union, List.toFinset_append, List.mem_toFinset]
    constructor
    · rintro ⟨hm | hm | hm,hn⟩
      · exact .inl hm
      · exact absurd hm hn
      · exact .inr hm
    · rintro (hm | hm)
      · refine ⟨.inl hm,fun hn => e.placed.fresh t ?_ hm⟩
        rw [howned]
        exact List.mem_append_left _ hn
      · exact ⟨.inr (.inr hm),fun hn => hnode.not_mem_data hn hm⟩

/-- With more sectors asked for than there are, the new file cannot be read to its end. -/
theorem Coherent.not_noLeak (c : Coherent S fs o cur) {heap : Heap} {size : Word}
    (hcreate : fs.create S heap name size = .ok (true,fs₁))
    (hname : fs.currentDir.findIndex name = none) (hslot : fs.currentDir.freeIndex = some i)
    (hfound : S.findClear (storedMap S fs.disk) = some s) {n : ℕ}
    (hn : (FileHeader.sectorsFor S size).toInt = n)
    (hroom : (storedMap S fs.disk).numClear < ((n + indexCount n + 1 : ℕ) : ℤ)) :
    0 < size.toInt ∧ ¬ NoLeak S fs fs₁ name := by
  obtain ⟨hs,hsm⟩ := S.findClear_some _ _ hfound
  have hclear := BitMap.numClear_insert hs hsm
  obtain ⟨hdr,m,d₁,halloc⟩ := c.create_allocated hname hslot hfound hcreate
  obtain ⟨n',hn',-,-,done⟩ := FileHeader.allocate_ok halloc
  obtain rfl : n' = n := by omega
  obtain ⟨d',hcreate',ag,htable,-,hnew⟩ := c.create_of_allocate heap hname hslot hfound halloc
    (done.inDisk (Finset.insert_subset (Finset.mem_range.mpr hs) c.disk.inDisk))
    fun t ht => done.keeps t (Finset.mem_insert_of_mem ht)
  rw [hcreate] at hcreate'
  cases hcreate'
  obtain ⟨k,hk,s',hs',hsm',hentry,hword⟩ := done.short (by rw [Int.toNat_natCast, indexCount])
    (by rw [Int.toNat_natCast, hclear]; omega)
  rw [Int.toNat_natCast] at hk
  have hsize := FileHeader.size_of_sectors S
    (show (k : ℤ) < (FileHeader.sectorsFor S size).toInt by omega)
  refine ⟨by omega,fun hno => ?_⟩
  have hheader : headerAt d' s = hdr := by
    rw [headerAt, hnew s hsm]
    exact headerAt_update d₁ s hdr
  have hindex : d' s' = d₁ s' := by
    have hne : s' ≠ s := fun h => hsm' (h ▸ Finset.mem_insert_self s' _)
    rw [hnew s' fun h => hsm' (Finset.mem_insert_of_mem h), Function.update_of_ne hne]
  have hlen : hdr.fileLength = size.toInt := by
    rw [FileHeader.fileLength, done.numBytes]
  have hint : IsInt (((k * sectorSize : ℕ) : ℤ) + (1 : ℤ)) := by
    have := isInt_fileLength hdr
    unfold IsInt at *
    omega
  -- the file opens, but this sector cannot be read
  have hopen : FileSystem.openFile S heap ⟨d',fs.freeMapFile,
      fs.currentDir.withEntry i name false s⟩ name = .ok (some ⟨hdr,0⟩) := by
    have hcur := c.openCurrent ag (getSector_withEntry fs.currentDir
      (Directory.freeIndex_some hslot).1 name false s)
    have hfetch := Directory.fetchFrom_eq (S := S) (ag.node c.disk c.held)
      (f := ⟨headerAt fs.disk cur,0⟩) (ag.headerAt_eq c.held).symm (Directory.new heap.table)
    have hfind : (fs.currentDir.withEntry i name false s).find name = s := by
      rw [Directory.find, Directory.findIndex_withEntry hname]
      change ((fs.currentDir.withEntry i name false s).getTableAt i).sector.toInt = s
      rw [Directory.getTableAt_withEntry, if_pos rfl, Directory.sector_fillEntry]
      exact ofNat_toInt_sector hs
    have hnewFile : OpenFile.new d' s = .ok ⟨hdr,0⟩ := by
      rw [OpenFile.new, FileHeader.fetchFrom, Disk.readRequest_natCast hs, ← hheader]
      rfl
    rw [FileSystem.openFile, hcur, Outcome.ok_bind, hfetch, htable]
    simp only [Outcome.ok_bind, hfind, if_pos (Int.natCast_nonneg s), hnewFile]
    rfl
  obtain ⟨d,-,hrun,-⟩ := hno heap heap [.read 1 (k * sectorSize)] ⟨hdr,0⟩
    (fun a ha => by rw [List.mem_singleton.mp ha]; exact hint) hopen
  obtain ⟨d₂,hrun,-⟩ := Outcome.bind_eq_ok.mp hrun
  obtain ⟨r,hread,-⟩ := Outcome.bind_eq_ok.mp hrun
  rw [Nat.zero_add] at hentry
  rw [← hindex] at hword
  refine FileHeader.readAt_fault ?_ (hlen ▸ hsize) hs' hentry hword r hread
  rcases done.bound with h0 | h0
  · unfold indexCount sectorWords sectorSize at h0
    omega
  · unfold indexCount sectorWords sectorSize at *
    omega

/-- With room for all sectors, the new file leaves its data sectors behind. -/
theorem Entered.noLeak_iff (e : Entered S fs fs₁ o cur i name false s) (c : Coherent S fs o cur)
    (hname : fs.currentDir.findIndex name = none) (hslot : fs.currentDir.freeIndex = some i) :
    NoLeak S fs fs₁ name ↔ dataSectors fs₁.disk s .file = [] := by
  have hopen : ∀ heap, fs₁.openFile S heap name = .ok (some ⟨headerAt fs₁.disk s,0⟩) := fun heap => by
    rw [e.coherent.openFile_some heap (e.findIndex hname), e.sector]
  constructor
  · intro hno
    obtain ⟨d,fs₂,hrun,hremove,hrest⟩ := hno FirstFit.heap FirstFit.heap [] _ (by simp)
      (hopen FirstFit.heap)
    cases hrun
    obtain ⟨fs₂',hremove',-,-,hmap⟩ := e.remove hname hslot (fun _ _ => rfl) FirstFit.heap
    rw [hremove] at hremove'
    cases hremove'
    refine List.eq_nil_iff_forall_not_mem.mpr fun t ht => ?_
    have hm : t ∈ storedMap S fs₂.disk := by
      rw [hmap]
      exact Finset.mem_union_right _ (List.mem_toFinset.mpr ht)
    rw [hrest.map] at hm
    exact e.placed.fresh t (List.mem_append_right _ ht) hm
  · intro hnil heap heap' as f has hf
    rw [hopen heap] at hf
    cases hf
    obtain ⟨d,hrun,hd⟩ := Access.runAll_eq (S := S) (f := ⟨headerAt fs₁.disk s,0⟩) e.placed.node
      rfl has
    obtain ⟨fs₂,hremove,hentries,hsync,hmap⟩ := e.remove hname hslot hd heap'
    have hcur : fs.currentDir.getSector.toNat = cur := by rw [c.home, Int.toNat_natCast]
    refine ⟨d,fs₂,hrun,hremove,⟨?_,hentries,?_⟩⟩
    · rw [hmap, hnil, List.toFinset_nil, Finset.union_empty]
    · rw [hcur, ← hsync, hentries, ← c.synced]

end Removal

/-- In a run of behaved calls, removing a file that has been created and then read and
written undoes the creation just when the file has no data. -/
theorem noLeak_iff_of_run {S : Support} {fs fs₁ : FileSystem}
    (h : ((calls S).guard (Behaved S)).Reachable fs) {heap : Heap} {name : List Byte} {size : Word}
    (hcreate : fs.create S heap name size = .ok (true,fs₁)) :
    NoLeak S fs fs₁ name ↔ size.toInt ≤ 0 := by
  obtain ⟨o,cur,c⟩ := coherent_of_run h
  have he : Enters S fs name := by
    by_contra he
    rcases not_enters he with ⟨i,hi⟩ | ⟨hname,hfull⟩
    · rw [c.create_refused heap hi] at hcreate
      cases hcreate
    · rw [c.create_full heap hname hfull] at hcreate
      cases hcreate
  obtain ⟨hname,hclear,hslot⟩ := he
  obtain ⟨i,hi⟩ := Option.ne_none_iff_exists'.mp hslot
  obtain ⟨s,hfound,-⟩ := BitMap.find_eq (S := S) hclear
  obtain ⟨hdr,m,d₁,halloc⟩ := c.create_allocated hname hi hfound hcreate
  obtain ⟨n,hn,hindex,-,-⟩ := FileHeader.allocate_ok halloc
  by_cases hroom : ((n + indexCount n + 1 : ℕ) : ℤ) ≤ (storedMap S fs.disk).numClear
  · obtain ⟨t,fs',hcreate',e,hbytes,hblocks,-⟩ := c.create_ok heap hname hi hn hindex hroom
    rw [hcreate] at hcreate'
    cases hcreate'
    have hlen : (dataSectors fs₁.disk t .file).length = n := by
      change (((List.range _).map _).length) = n
      rw [List.length_map, List.length_range, hblocks]
    have hholds := FileHeader.sectorsFor_holds S size
    rw [toNat_of_toInt hn] at hholds
    rw [e.noLeak_iff c hname hi, ← List.length_eq_zero_iff, hlen]
    constructor
    · intro h0
      rw [h0] at hholds
      omega
    · intro hsize
      by_contra h0
      have := FileHeader.size_of_sectors S
        (show ((0 : ℕ) : ℤ) < (FileHeader.sectorsFor S size).toInt by omega)
      omega
  · obtain ⟨hpos,hno⟩ := c.not_noLeak hcreate hname hi hfound hn (not_le.mp hroom)
    exact iff_of_false hno (not_le.mpr hpos)

/-- An empty file leaves no trace. -/
theorem noLeak_of_run_empty : ∃ fs fs₁ : FileSystem,
    fs.create FirstFit.support FirstFit.heap [97] 0 = .ok (true,fs₁) ∧
    NoLeak FirstFit.support fs fs₁ [97] := by
  obtain ⟨fs,hformat,f⟩ := format_eq FirstFit.support FirstFit.heap FirstFit.disk
  obtain ⟨s,fs₁,hcreate,-⟩ := f.coherent.create_ok (n := 0) FirstFit.heap
    (f.findIndex_none (show cString fileNameMaxLen [97] ≠ Directory.dot by decide) (by decide))
    f.freeIndex_eq
    (show (FileHeader.sectorsFor FirstFit.support 0).toInt = (0 : ℕ) by decide) (by decide)
    (by rw [f.clear]; decide)
  exact ⟨fs,fs₁,hcreate,(noLeak_iff_of_run (.start ⟨_,_,hformat⟩) hcreate).mpr (by decide)⟩

/-- A file of one byte leaves its data sector marked. -/
theorem leak_of_create_remove : ∃ fs₀ fs₁ fs₂ : FileSystem,
    FileSystem.format FirstFit.support FirstFit.heap FirstFit.disk = .ok fs₀ ∧
    fs₀.create FirstFit.support FirstFit.heap [97] 1 = .ok (true,fs₁) ∧
    fs₁.remove FirstFit.support FirstFit.heap [97] = .ok (true,fs₂) ∧
    storedMap FirstFit.support fs₂.disk ≠ storedMap FirstFit.support fs₀.disk := by
  obtain ⟨fs,hformat,f⟩ := format_eq FirstFit.support FirstFit.heap FirstFit.disk
  have hname := f.findIndex_none
    (show cString fileNameMaxLen [97] ≠ Directory.dot by decide) (by decide)
  obtain ⟨s,fs₁,hcreate,e,-,hblocks,-⟩ := f.coherent.create_ok (n := 1) FirstFit.heap hname
    f.freeIndex_eq (show (FileHeader.sectorsFor FirstFit.support 1).toInt = (1 : ℕ) by decide)
    (by decide) (by rw [f.clear]; decide)
  obtain ⟨fs₂,hremove,-,-,hmap⟩ := e.remove hname f.freeIndex_eq (fun _ _ => rfl) FirstFit.heap
  refine ⟨fs,fs₁,fs₂,hformat,hcreate,hremove,fun he => ?_⟩
  have hmem : (headerAt fs₁.disk s).block fs₁.disk 0 ∈ dataSectors fs₁.disk s .file :=
    block_mem_data (by rw [hblocks]; decide)
  refine e.placed.fresh _ (List.mem_append_right _ hmem) ?_
  rw [← he, hmap]
  exact Finset.mem_union_right _ (List.mem_toFinset.mpr hmem)

end Nachos
