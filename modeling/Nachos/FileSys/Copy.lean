import Nachos.FileSys.FirstFit
import Nachos.FileSys.NamedFile
import Nachos.FileSys.Overcommit
import Nachos.Library.Termination

/-! # Copying a file in

`Copy` of `fstest.cc`, with the accesses to the disk as operations. It does not go through
`OpenFile`: it walks the index sectors itself and fetches the next one as soon as it is done
with one.
-/
namespace Nachos

inductive CopyOp where
  | readSector (sector : ℤ)
  | writeSector (sector : ℤ) (data : Sector)
  /-- An element outside its array. -/
  | outside

def CopyOp.Resp : CopyOp → Type
  | readSector _ => Sector
  | writeSector _ _ => Unit
  | outside => Word

abbrev CopyProg := Prog CopyOp CopyOp.Resp

namespace Copy
open Prog

def readSector (sector : ℤ) : CopyProg Sector := perform (CopyOp.readSector sector)

def writeSector (sector : ℤ) (data : Sector) : CopyProg Unit :=
  perform (CopyOp.writeSector sector data)

def outside : CopyProg Word := perform CopyOp.outside

/-- `hdrReader->FetchFrom(openFile->getHdr().getDataSectors()[j])` -/
def fetchFrom (hdr : FileHeader) (j : ℕ) : CopyProg FileHeader := do
  let sector ← (if j < numDirect then return hdr.dataSectors.getD j 0 else outside)
  let data ← readSector sector.toInt
  return .ofSector data

/-- What `fread` leaves in the buffer. -/
def fread (buffer : Sector) (rest : List Byte) : Sector where
  bytes := splice buffer.bytes 0 (rest.take sectorSize)
  length_bytes := by
    rw [length_splice, buffer.length_bytes]
    rw [buffer.length_bytes, Nat.zero_add]
    exact List.length_take_le sectorSize rest

/-- The variables of the loop, and what is still to be read of the UNIX file. -/
structure Variables where
  i : ℕ
  j : ℕ
  buffer : Sector
  hdrReader : FileHeader
  rest : List Byte

def copyRound (hdr : FileHeader) (x : Variables) : CopyProg (Variables ⊕ Unit) :=
  if x.rest = [] then return .inr ()
  else do
    let buffer := fread x.buffer x.rest
    let rest := x.rest.drop sectorSize
    writeSector (x.hdrReader.word x.i).toInt buffer
    if x.i + 1 = sectorWords then do
      let hdrReader ← fetchFrom hdr (x.j + 1)
      return .inl ⟨0,x.j + 1,buffer,hdrReader,rest⟩
    else return .inl ⟨x.i + 1,x.j,buffer,x.hdrReader,rest⟩

def copyLoop (hdr : FileHeader) (x : Variables) : CopyProg Unit := iterate x (copyRound hdr)

/-- `Copy` behind `Open`; `buffer` is the memory `new char[]` returns. -/
def copyData (hdr : FileHeader) (source : List Byte) (buffer : Sector) : CopyProg Unit := do
  let hdrReader ← fetchFrom hdr 0
  copyLoop hdr ⟨0,0,buffer,hdrReader,source⟩

/-- `Copy` up to the copying: the file system with the new file, and the open file. -/
def copyStart (S : Support) (heap heap' : Heap) (fs : FileSystem) (source name : List Byte) :
    Outcome (Option (FileSystem × OpenFile)) := do
  let fileLength : Word := BitVec.ofInt 32 source.length
  let (created,fs) ← fs.create S heap name fileLength
  if !created then return none
  match ← fs.openFile S heap' name with
  | none => throw .assertion
  | some openFile => return some (fs,openFile)

def given (hdr : FileHeader) (d : Disk) : List ℕ := hdr.indexSectors ++ hdr.blockSectors d

def within (sectors : List ℕ) : World CopyOp CopyOp.Resp Disk
  | .readSector sector, d, r, d' => ∃ t ∈ sectors, sector = (t : ℕ) ∧ r = d t ∧ d' = d
  | .writeSector sector data, d, _, d' =>
    ∃ t ∈ sectors, sector = (t : ℕ) ∧ d' = Function.update d t data
  | .outside, _, _, _ => False

section Loop
variable {d d₀ : Disk} {s n k : ℕ} {hdr : FileHeader} {source : List Byte} {x : Variables}

/-- The entry of an index sector that may be fetched. -/
def Fetchable (d : Disk) (hdr : FileHeader) (j : ℕ) : Prop :=
  j < numDirect ∧ hdr.entry j ∈ given hdr d

theorem ends_fetchFrom {sectors : List ℕ} (hlt : ∀ t ∈ sectors, t < diskSectors) {j : ℕ}
    {Q : FileHeader → Disk → Prop} :
    Ends (within sectors) Q (fetchFrom hdr j) d ↔
      (j < numDirect ∧ hdr.entry j ∈ sectors) ∧ Q (.ofSector (d (hdr.entry j))) d := by
  rw [fetchFrom]
  split_ifs with hj
  · rw [pure_eq, ret_bind]
    refine ends_act.trans ⟨?_,?_⟩
    · rintro ⟨⟨r,d',t,ht,hsector,rfl,rfl⟩,hnext⟩
      have hentry : hdr.entry j = t := toNat_of_toInt hsector
      rw [hentry]
      exact ⟨⟨hj,ht⟩,ends_ret.mp (hnext _ _ ⟨t,ht,hsector,rfl,rfl⟩)⟩
    · rintro ⟨⟨-,hentry⟩,hQ⟩
      have hsector : (hdr.dataSectors.getD j 0).toInt = hdr.entry j := toInt_of_lt (hlt _ hentry)
      refine ⟨⟨_,_,_,hentry,hsector,rfl,rfl⟩,?_⟩
      rintro r d' ⟨t,ht,ht',rfl,rfl⟩
      have : t = hdr.entry j := by
        have := hsector.symm.trans ht'
        omega
      rw [this]
      exact .ret hQ
  · constructor
    · intro h
      obtain ⟨⟨_,_,hfalse⟩,-⟩ := ends_act.mp h
      exact hfalse.elim
    · rintro ⟨⟨h,-⟩,-⟩
      exact absurd h hj

theorem ends_writeSector {sectors : List ℕ} {t : ℕ} (ht : t ∈ sectors) {sector : ℤ}
    (hsector : sector = t) {data : Sector} {Q : Unit → Disk → Prop} :
    Ends (within sectors) Q (writeSector sector data) d ↔ Q () (Function.update d t data) := by
  refine ends_act.trans ⟨?_,?_⟩
  · rintro ⟨-,hnext⟩
    exact ends_ret.mp (hnext () _ ⟨t,ht,hsector,rfl⟩)
  · intro hQ
    refine ⟨⟨(),_,t,ht,hsector,rfl⟩,?_⟩
    rintro _ _ ⟨u,-,hu,rfl⟩
    obtain rfl : u = t := Int.ofNat_inj.mp (hu.symm.trans hsector)
    exact .ret hQ

theorem take_append_fread {buffer : Sector} {front : List Byte} {L : ℕ}
    (hfront : front.length = k * sectorSize) (hL : source.length = L)
    (h : front.take L = source.take (k * sectorSize)) (hk : k * sectorSize ≤ L) :
    (front ++ (fread buffer (source.drop (k * sectorSize))).bytes).take L =
      source.take ((k + 1) * sectorSize) := by
  have hchunk : (fread buffer (source.drop (k * sectorSize))).bytes.take (L - k * sectorSize) =
      (source.drop (k * sectorSize)).take sectorSize := by
    simp only [fread, splice, List.take_zero, List.nil_append, Nat.zero_add]
    by_cases hfull : sectorSize ≤ L - k * sectorSize
    · have hlen : ((source.drop (k * sectorSize)).take sectorSize).length = sectorSize := by
        rw [List.length_take, List.length_drop]
        omega
      rw [hlen, List.drop_eq_nil_of_le buffer.length_bytes.le, List.append_nil,
        List.take_of_length_le (by rw [hlen]; exact hfull)]
    · have hlen : ((source.drop (k * sectorSize)).take sectorSize).length =
          L - k * sectorSize := by
        rw [List.length_take, List.length_drop]
        omega
      rw [List.take_append_of_le_length hlen.ge, List.take_of_length_le hlen.le]
  rw [List.take_append, h, hfront, hchunk, Nat.succ_mul, List.take_add]

theorem ends_copyLoop_round {sectors : List ℕ} {Q : Unit → Disk → Prop} :
    Ends (within sectors) Q (copyLoop hdr x) d ↔ Ends (within sectors)
      (Sum.elim (fun y d => Ends (within sectors) Q (copyLoop hdr y) d) Q) (copyRound hdr x) d := by
  rw [copyLoop, iterate, ends_loop, unroll, ends_bind]
  refine ⟨fun h => h.mono ?_,fun h => h.mono ?_⟩
  · rintro (y | u) d h
    · exact h
    · exact (ends_ret (a := u)).mp h
  · rintro (y | _) d h
    · exact h
    · exact .ret h

structure At (d₀ : Disk) (hdr : FileHeader) (n : ℕ) (source : List Byte) (k : ℕ) (x : Variables)
    (d : Disk) : Prop where
  i : x.i = k % sectorWords
  j : x.j = k / sectorWords
  rest : x.rest = source.drop (k * sectorSize)
  reader : k < n → x.hdrReader = .ofSector (d₀ (hdr.entry (k / sectorWords)))
  frame : ∀ t, t ∉ hdr.blockSectors d₀ → d t = d₀ t
  copied : (BlockRegion.contents Sector.bytes d (hdr.block d₀) k).take source.length =
    source.take (k * sectorSize)

structure Target (d₀ : Disk) (s : ℕ) (hdr : FileHeader) (source : List Byte) : Prop where
  node : NodeOk d₀ s .file
  header : hdr = headerAt d₀ s
  length : hdr.fileLength = source.length
  blocks : hdr.blocks = sectorCount source.length

theorem block_mem {hdr : FileHeader} (hk : k < hdr.blocks) :
    hdr.block d₀ k ∈ hdr.blockSectors d₀ := List.mem_map.mpr ⟨k,List.mem_range.mpr hk,rfl⟩

theorem index_mem {hdr : FileHeader} {j : ℕ} (hj : j < indexCount hdr.blocks) :
    hdr.entry j ∈ hdr.indexSectors := List.mem_map.mpr ⟨j,List.mem_range.mpr hj,rfl⟩

theorem frame_update {hdr : FileHeader} (hd : ∀ t, t ∉ hdr.blockSectors d₀ → d t = d₀ t)
    (hk : k < hdr.blocks) {data : Sector} {t : ℕ} (ht : t ∉ hdr.blockSectors d₀) :
    Function.update d (hdr.block d₀ k) data t = d₀ t := by
  have hne : t ≠ hdr.block d₀ k := fun he => ht (by rw [he]; exact block_mem hk)
  rw [Function.update_of_ne hne, hd t ht]

namespace Target

theorem given_lt (T : Target d₀ s hdr source) : ∀ t ∈ given hdr d₀, t < diskSectors := by
  intro t ht
  have hn := T.node.inDisk t
  rw [ownedSectors, metaSectors, dataSectors, ← T.header] at hn
  exact hn (List.mem_cons_of_mem s ht)

theorem index_not_block (T : Target d₀ s hdr source) {t : ℕ} (ht : t ∈ hdr.indexSectors) :
    t ∉ hdr.blockSectors d₀ := by
  have h := T.node.not_mem_data (t := t) (by
    rw [metaSectors, ← T.header]
    exact List.mem_cons_of_mem s ht)
  rwa [dataSectors, ← T.header] at h

theorem word_eq (T : Target d₀ s hdr source) (hk : k < hdr.blocks) :
    ((FileHeader.ofSector (d₀ (hdr.entry (k / sectorWords)))).word (k % sectorWords)).toInt =
      hdr.block d₀ k :=
  toInt_of_lt (T.given_lt _ (List.mem_append_right _ (block_mem hk)))

theorem length_lt (T : Target d₀ s hdr source) (hk : k < hdr.blocks) :
    k * sectorSize < source.length := by
  rw [T.blocks, sectorCount] at hk
  unfold sectorSize at *
  omega

theorem length_le (T : Target d₀ s hdr source) : source.length ≤ hdr.blocks * sectorSize := by
  rw [T.blocks, sectorCount]
  unfold sectorSize
  omega

theorem reader_eq (T : Target d₀ s hdr source) (hd : ∀ t, t ∉ hdr.blockSectors d₀ → d t = d₀ t)
    (hk : k < hdr.blocks) : FileHeader.ofSector (d (hdr.entry (k / sectorWords))) =
      .ofSector (d₀ (hdr.entry (k / sectorWords))) := by
  have hj : k / sectorWords < indexCount hdr.blocks := by
    unfold indexCount sectorWords sectorSize
    omega
  rw [hd _ (T.index_not_block (index_mem hj))]

theorem written (T : Target d₀ s hdr source) {x : Variables}
    (h : At d₀ hdr hdr.blocks source k x d) (hk : k < hdr.blocks) {i j : ℕ}
    {hdrReader : FileHeader} (hi : i = (k + 1) % sectorWords) (hj : j = (k + 1) / sectorWords)
    (hreader : k + 1 < hdr.blocks →
      hdrReader = .ofSector (d₀ (hdr.entry ((k + 1) / sectorWords)))) :
    At d₀ hdr hdr.blocks source (k + 1)
      ⟨i,j,fread x.buffer x.rest,hdrReader,x.rest.drop sectorSize⟩
      (Function.update d (hdr.block d₀ k) (fread x.buffer x.rest)) := by
  refine ⟨hi,hj,?_,hreader,fun t ht => ?_,?_⟩
  · rw [h.rest, List.drop_drop, Nat.succ_mul]
  · exact frame_update h.frame hk ht
  · have hnd : ((List.range hdr.blocks).map (hdr.block d₀)).Nodup := by
      have hn := (List.nodup_append.mp T.node.nodup).2.1
      rwa [dataSectors, ← T.header] at hn
    have hkeep : BlockRegion.contents Sector.bytes
        (Function.update d (hdr.block d₀ k) (fread x.buffer x.rest)) (hdr.block d₀) k =
        BlockRegion.contents Sector.bytes d (hdr.block d₀) k := by
      refine BlockRegion.contents_congr fun l hl => Function.update_of_ne ?_ _ _
      intro he
      have := List.inj_on_of_nodup_map hnd (List.mem_range.mpr (hl.trans hk))
        (List.mem_range.mpr hk) he
      omega
    rw [BlockRegion.contents_succ, hkeep, Function.update_self, h.rest]
    exact take_append_fread (BlockRegion.length_contents Sector.length_bytes) rfl h.copied
      (T.length_lt hk).le

/-- The copying goes well just when the entries that it fetches are those of the file. -/
theorem ends_copyLoop (T : Target d₀ s hdr source) {x : Variables} {Q : Unit → Disk → Prop}
    (hQ : ∀ x d, At d₀ hdr hdr.blocks source hdr.blocks x d → Q () d) (hk : k ≤ hdr.blocks)
    (h : At d₀ hdr hdr.blocks source k x d) :
    Ends (within (given hdr d₀)) Q (copyLoop hdr x) d ↔
      ∀ j, k / sectorWords < j → j ≤ hdr.blocks / sectorWords → Fetchable d₀ hdr j := by
  generalize hm : hdr.blocks - k = m
  induction m generalizing k x d with
  | zero =>
    obtain rfl : k = hdr.blocks := by omega
    have hrest : x.rest = [] := by
      rw [h.rest, List.drop_eq_nil_of_le T.length_le]
    refine iff_of_true ?_ fun j hlt hle => absurd hlt (not_lt.mpr hle)
    rw [ends_copyLoop_round, copyRound, if_pos hrest]
    exact .ret (hQ x d h)
  | succ m ih =>
    have hk' : k < hdr.blocks := by omega
    have hrest : x.rest ≠ [] := by
      rw [h.rest, ne_eq, List.drop_eq_nil_iff, not_le]
      exact T.length_lt hk'
    have hword : (x.hdrReader.word x.i).toInt = hdr.block d₀ k := by
      rw [h.reader hk', h.i]
      exact T.word_eq hk'
    have hgiven : hdr.block d₀ k ∈ given hdr d₀ := List.mem_append_right _ (block_mem hk')
    rw [ends_copyLoop_round, copyRound, if_neg hrest, ends_bind, ends_writeSector hgiven hword]
    have hi := h.i
    have hj := h.j
    by_cases hlast : x.i + 1 = sectorWords
    · -- the last word of an index sector
      have hnext : x.j + 1 = (k + 1) / sectorWords := by unfold sectorWords sectorSize at *; omega
      have hfirst : 0 = (k + 1) % sectorWords := by unfold sectorWords sectorSize at *; omega
      rw [if_pos hlast, ends_bind, ends_fetchFrom T.given_lt, pure_eq, ends_ret, Sum.elim_inl,
        hnext]
      have hframe : ∀ t, t ∉ hdr.blockSectors d₀ →
          Function.update d (hdr.block d₀ k) (fread x.buffer x.rest) t = d₀ t :=
        fun t ht => frame_update h.frame hk' ht
      have hwritten := T.written h hk' hfirst rfl fun hk => T.reader_eq hframe hk
      rw [ih (by omega) hwritten (by omega)]
      have hstep : (k + 1) / sectorWords = k / sectorWords + 1 := by omega
      have hbound : (k + 1) / sectorWords ≤ hdr.blocks / sectorWords := Nat.div_le_div_right hk'
      constructor
      · rintro ⟨hfetch,hlater⟩ j hlt hle
        rcases Nat.lt_or_ge ((k + 1) / sectorWords) j with hj | hj
        · exact hlater j hj hle
        · obtain rfl : j = (k + 1) / sectorWords := by omega
          exact hfetch
      · intro hall
        exact ⟨hall _ (by omega) hbound,fun j hlt hle => hall j (by omega) hle⟩
    · have hnext : x.j = (k + 1) / sectorWords := by unfold sectorWords sectorSize at *; omega
      have hsame : k / sectorWords = (k + 1) / sectorWords := hj.symm.trans hnext
      have hword : x.i + 1 = (k + 1) % sectorWords := by unfold sectorWords sectorSize at *; omega
      rw [if_neg hlast, pure_eq, ends_ret, Sum.elim_inl, hsame]
      refine ih (by omega) (T.written h hk' hword hnext fun hk => ?_) (by omega)
      rw [h.reader hk', hsame]

theorem fileContents_eq (T : Target d₀ s hdr source) {x : Variables}
    (h : At d₀ hdr hdr.blocks source hdr.blocks x d) : fileContents d s = source := by
  have hself : s ∉ hdr.blockSectors d₀ := by
    have := T.node.not_mem_data (mem_metaSectors_self d₀ s .file)
    rwa [dataSectors, ← T.header] at this
  have hblock : ∀ k < hdr.blocks, hdr.block d k = hdr.block d₀ k := by
    intro k hk
    rw [FileHeader.block, T.reader_eq h.frame hk, FileHeader.block]
  have hcontents : BlockRegion.contents Sector.bytes d (hdr.block d) hdr.blocks =
      BlockRegion.contents Sector.bytes d (hdr.block d₀) hdr.blocks :=
    BlockRegion.contents_congr fun k hk => by rw [hblock k hk]
  rw [fileContents, headerAt_congr (h.frame s hself), ← T.header, T.length, Int.toNat_natCast,
    fileBytes, hcontents, h.copied, List.take_of_length_le T.length_le]

theorem ends_copyData (T : Target d₀ s hdr source) {buffer : Sector} {Q : Unit → Disk → Prop}
    (hQ : ∀ d, (∀ t, t ∉ hdr.blockSectors d₀ → d t = d₀ t) → fileContents d s = source → Q () d) :
    Ends (within (given hdr d₀)) Q (copyData hdr source buffer) d₀ ↔
      ∀ j ≤ hdr.blocks / sectorWords, Fetchable d₀ hdr j := by
  rw [copyData, ends_bind, ends_fetchFrom T.given_lt]
  have h0 : At d₀ hdr hdr.blocks source 0
      ⟨0,0,buffer,.ofSector (d₀ (hdr.entry 0)),source⟩ d₀ := by
    refine ⟨rfl,rfl,?_,fun _ => rfl,fun _ _ => rfl,?_⟩
    · rw [Nat.zero_mul, List.drop_zero]
    · rw [Nat.zero_mul, List.take_zero]
      exact List.take_eq_nil_of_eq_nil rfl
  rw [T.ends_copyLoop (fun x d h => hQ d h.frame (T.fileContents_eq h)) (Nat.zero_le _) h0,
    Nat.zero_div]
  constructor
  · rintro ⟨hfirst,hlater⟩ j hj
    rcases Nat.eq_zero_or_pos j with rfl | hpos
    · exact hfirst
    · exact hlater j hpos hj
  · intro hall
    exact ⟨hall 0 (Nat.zero_le _),fun j _ hj => hall j hj⟩

/-- All entries that are fetched are index sectors of the file, with one exception. -/
theorem fetchable_iff (T : Target d₀ s hdr source) :
    (∀ j ≤ hdr.blocks / sectorWords, Fetchable d₀ hdr j) ↔
      hdr.blocks % sectorWords ≠ 0 ∨ Fetchable d₀ hdr (hdr.blocks / sectorWords) := by
  have hindex : ∀ j < indexCount hdr.blocks, Fetchable d₀ hdr j := by
    intro j hj
    have hsize := T.node.size.2
    rw [← T.header] at hsize
    exact ⟨by omega,List.mem_append_left _ (index_mem hj)⟩
  constructor
  · intro hall
    exact .inr (hall _ le_rfl)
  · intro h j hj
    rcases Nat.lt_or_ge j (indexCount hdr.blocks) with hlt | hge
    · exact hindex j hlt
    · have hle : hdr.blocks / sectorWords ≤ indexCount hdr.blocks := by
        unfold indexCount sectorWords sectorSize
        omega
      obtain rfl : j = hdr.blocks / sectorWords := by omega
      refine h.resolve_left fun hmod => hmod ?_
      unfold indexCount sectorWords sectorSize at *
      omega

end Target

end Loop

/-! The entries of the new header that `Allocate` does not fill are those of the memory that
the header is made in. -/

section Unfilled
variable {S : Support} {hdr hdr' : FileHeader} {m m' : BitMap} {d d' : Disk}
  {arrays : ℕ → FileHeader}

theorem allocateLoop_unfilled {count j : ℕ} {fill : ℤ}
    (h : FileHeader.allocateLoop S arrays count j fill hdr m d = .ok (hdr',m',d')) {t : ℕ}
    (ht : j + count ≤ t) : hdr'.entry t = hdr.entry t := by
  induction count generalizing j fill hdr m d with
  | zero =>
    cases h
    rfl
  | succ count ih =>
    rw [FileHeader.allocateLoop] at h
    generalize BitMap.find S m = found at h
    obtain ⟨w,m₁⟩ := found
    obtain ⟨hdr₁,hset,h⟩ := Outcome.bind_eq_ok.mp h
    obtain ⟨d₁,-,h⟩ := Outcome.bind_eq_ok.mp h
    obtain ⟨hdr₂,hset',-,-,hg⟩ := FileHeader.getD_setDataSector hdr w
      (FileHeader.setDataSector_ok hset)
    rw [hset'] at hset
    cases hset
    rw [ih h (by omega), FileHeader.entry, hg, if_neg (by omega), FileHeader.entry]

theorem allocate_unfilled {size : Word} {n : ℕ} (hn : (FileHeader.sectorsFor S size).toInt = n)
    (h : hdr.allocate S arrays m size d = .ok (true,hdr',m',d')) {t : ℕ} (ht : indexCount n ≤ t) :
    hdr'.entry t = hdr.entry t := by
  rw [FileHeader.allocate] at h
  simp only [] at h
  split_ifs at h with hfull
  · cases h
  obtain ⟨⟨hdr₁,m₁,d₁⟩,hloop,h⟩ := Outcome.bind_eq_ok.mp h
  cases h
  have hcount : (S.divRoundUp (FileHeader.sectorsFor S size).toNat sectorWords).toNat =
      indexCount n := by
    rw [S.divRoundUp_natCast _ _ (by decide), Int.toNat_natCast, toNat_of_toInt hn, indexCount]
    rfl
  rw [hcount] at hloop
  exact allocateLoop_unfilled hloop (by omega)

end Unfilled

/-- The bytes that are read of the file of a name, from anywhere on. -/
def FileReads (S : Support) (fs : FileSystem) (name bytes : List Byte) : Prop :=
  ∀ heap, ∃ f, fs.openFile S heap name = .ok (some f) ∧
    ∀ (p : ℕ) (numBytes : ℤ), IsInt (p + numBytes) → f.readAt S fs.disk numBytes p 1 =
      .ok (transferCount bytes.length p numBytes,
        (bytes.drop p).take (transferCount bytes.length p numBytes))

/-- `Copy` reads and writes sectors of the new file only, comes to its end, and then the file
reads like the source, as it does when the source is written to it. -/
def CopiesLikeWrite (S : Support) (fs : FileSystem) (source name : List Byte) (heap heap' : Heap)
    (buffer : Sector) : Prop :=
  ∃ fs₁ openFile, copyStart S heap heap' fs source name = .ok (some (fs₁,openFile)) ∧
    Ends (within (given openFile.hdr fs₁.disk))
      (fun _ d => FileReads S { fs₁ with disk := d } name source)
      (copyData openFile.hdr source buffer) fs₁.disk ∧
    ∀ chars, ∃ d f, openFile.write S chars fs₁.disk source source.length =
        .ok ((source.length : ℤ),d,f) ∧ FileReads S { fs₁ with disk := d } name source

section Start
variable {S : Support} {fs fs₁ : FileSystem} {o : Owner} {cur s : ℕ} {source name : List Byte}
  {i : Fin numDirEntries}

theorem fileReads (e : Entered S fs fs₁ o cur i name false s)
    (hname : fs.currentDir.findIndex name = none) {d : Disk}
    (hout : ∀ t, t ∉ dataSectors fs₁.disk s .file → d t = fs₁.disk t)
    (hd : fileContents d s = source) : FileReads S { fs₁ with disk := d } name source := by
  intro heap
  have c := e.coherent
  have ag : Agrees fs₁.disk d (· = .entry cur i) := Agrees.write c.disk (.refl _ _) rfl e.holds hout
  have hfile : ∀ {o s' kind}, o = Owner.entry cur i → Holds fs₁.disk o s' kind → kind = .file :=
    fun ho hs => ((ho ▸ hs).unique e.holds).2
  have hopen := (c.overwrite ag hfile).1.openFile_some heap (e.findIndex hname)
  have hread := fun p n => (ag.node c.disk e.holds).readAt_contents (S := S) (d := d)
    (f := ⟨headerAt d s,0⟩) rfl p n
  rw [hd] at hread
  refine ⟨_,hopen,?_⟩
  rw [show (fs₁.currentDir.getTableAt i).sector.toNat = s from e.sector]
  exact hread

/-- `Create` and `Open` make a target of the copy; the rest of its header is as in memory. -/
theorem copyStart_eq (c : Coherent S fs o cur) (heap heap' : Heap)
    (hname : fs.currentDir.findIndex name = none) (hslot : fs.currentDir.freeIndex = some i)
    (hroom : Room S fs (sectorCount source.length)) :
    ∃ s fs₁, copyStart S heap heap' fs source name =
        .ok (some (fs₁,⟨headerAt fs₁.disk s,0⟩)) ∧
      Entered S fs fs₁ o cur i name false s ∧
      Target fs₁.disk s (headerAt fs₁.disk s) source ∧
      ∀ t, indexCount (sectorCount source.length) ≤ t →
        (headerAt fs₁.disk s).entry t = heap.hdr.entry t := by
  obtain ⟨hnat,hint,hn⟩ := length_of_room hroom
  obtain ⟨-,hindex,hclear⟩ := hroom
  rw [Int.toNat_natCast] at hindex hclear
  obtain ⟨s,fs₁,hcreate,e,hbytes,hblocks,-⟩ := c.create_ok heap hname hslot hn hindex (by omega)
  have hopen := e.coherent.openFile_some heap' (e.findIndex hname)
  rw [e.sector] at hopen
  refine ⟨s,fs₁,?_,e,⟨e.placed.node,rfl,?_,hblocks⟩,?_⟩
  · simp only [copyStart, hcreate, Outcome.ok_bind, Bool.not_true, Bool.false_eq_true, if_false,
      hopen]
    rfl
  · rw [FileHeader.fileLength, hbytes, hint]
  · intro t ht
    obtain ⟨hdr,m,d,halloc⟩ := c.create_allocated hname hslot e.placed.found hcreate
    obtain ⟨n,-,-,-,done⟩ := FileHeader.allocate_ok halloc
    obtain ⟨hs,hsm⟩ := S.findClear_some _ _ e.placed.found
    obtain ⟨d',hcreate',-,-,-,hnew⟩ := c.create_of_allocate heap hname hslot e.placed.found halloc
      (done.inDisk (Finset.insert_subset (Finset.mem_range.mpr hs) c.disk.inDisk))
      fun t ht => done.keeps t (Finset.mem_insert_of_mem ht)
    rw [hcreate] at hcreate'
    cases hcreate'
    have hheader : headerAt d' s = hdr := by
      rw [headerAt, hnew s hsm, Function.update_self, FileHeader.ofSector_toSector]
    change (headerAt d' s).entry t = _
    rw [hheader]
    exact allocate_unfilled hn halloc ht

theorem writes (T : Target fs₁.disk s (headerAt fs₁.disk s) source) (hL : IsInt source.length)
    (chars : ℕ → Byte) : ∃ d f, OpenFile.write S chars ⟨headerAt fs₁.disk s,0⟩ fs₁.disk source
        source.length = .ok ((source.length : ℤ),d,f) ∧ fileContents d s = source ∧
      ∀ t, t ∉ dataSectors fs₁.disk s .file → d t = fs₁.disk t := by
  have hlen : (fileContents fs₁.disk s).length = source.length := by
    rw [length_fileContents T.node, T.length, Int.toNat_natCast]
  have hcount : transferCount (fileContents fs₁.disk s).length 0 source.length =
      source.length := by
    unfold transferCount
    omega
  obtain ⟨d,hw,hd,hout⟩ := T.node.writeAt_contents (S := S)
    (f := ⟨headerAt fs₁.disk s,0⟩) rfl chars source 0 source.length
    (by rw [Int.natCast_zero, Int.zero_add]; exact hL) le_rfl
  rw [hcount] at hw hd
  rw [List.take_length, splice_all hlen.symm] at hd
  refine ⟨d,OpenFile.seek ⟨headerAt fs₁.disk s,0⟩ (0 + source.length),?_,hd,hout⟩
  rw [Int.natCast_zero] at hw
  rw [OpenFile.write, hw]
  rfl

/-- What `Copy` fetches decides, also behind the last index sector. -/
theorem copiesLikeWrite_iff_fetchable (c : Coherent S fs o cur) {heap heap' : Heap} {buffer : Sector}
    (hname : fs.currentDir.findIndex name = none) (hslot : fs.currentDir.freeIndex = some i)
    (hroom : Room S fs (sectorCount source.length)) :
    CopiesLikeWrite S fs source name heap heap' buffer ↔
      ∃ fs₁ openFile, copyStart S heap heap' fs source name = .ok (some (fs₁,openFile)) ∧
        (sectorCount source.length % sectorWords ≠ 0 ∨
          Fetchable fs₁.disk openFile.hdr (sectorCount source.length / sectorWords)) := by
  obtain ⟨s,fs₁,hstart,e,T,-⟩ := copyStart_eq c heap heap' hname hslot hroom
  obtain ⟨hnat,hint,-⟩ := length_of_room hroom
  have hL : IsInt source.length := by
    have := BitVec.toInt_lt (x := (BitVec.ofInt 32 (source.length : ℤ) : Word))
    unfold IsInt
    omega
  have hdata : dataSectors fs₁.disk s .file = (headerAt fs₁.disk s).blockSectors fs₁.disk := rfl
  have hends : Ends (within (given (headerAt fs₁.disk s) fs₁.disk))
      (fun _ d => FileReads S { fs₁ with disk := d } name source)
      (copyData (headerAt fs₁.disk s) source buffer) fs₁.disk ↔ _ :=
    (T.ends_copyData fun d hout hd => fileReads e hname (hdata ▸ hout) hd).trans T.fetchable_iff
  rw [T.blocks] at hends
  constructor
  · rintro ⟨fs₂,f,hstart',hcopy,-⟩
    rw [hstart] at hstart'
    cases hstart'
    exact ⟨fs₁,_,hstart,hends.mp hcopy⟩
  · rintro ⟨fs₂,f,hstart',hfetch⟩
    rw [hstart] at hstart'
    cases hstart'
    refine ⟨fs₁,_,hstart,hends.mpr hfetch,fun chars => ?_⟩
    obtain ⟨d,f,hw,hd,hout⟩ := writes (S := S) T hL chars
    exact ⟨d,f,hw,fileReads e hname hout hd⟩

def clearHeap : Heap := { FirstFit.heap with hdr := ⟨0,0,Vector.replicate numDirect 0⟩ }

theorem entry_clearHeap (j : ℕ) : clearHeap.hdr.entry j = 0 := by
  by_cases hj : j < numDirect
  · simp [FileHeader.entry, clearHeap, Vector.getD, hj]
  · simp [FileHeader.entry, clearHeap, Vector.getD, hj]

theorem copiesLikeWrite_iff (c : Coherent S fs o cur)
    (hname : fs.currentDir.findIndex name = none) (hslot : fs.currentDir.freeIndex = some i)
    (hroom : Room S fs (sectorCount source.length)) :
    (∀ heap heap' buffer, CopiesLikeWrite S fs source name heap heap' buffer) ↔
      sectorCount source.length % sectorWords ≠ 0 := by
  constructor
  · intro hall hmod
    obtain ⟨fs₂,f,hstart',hfetch⟩ := (copiesLikeWrite_iff_fetchable c hname hslot hroom).mp
      (hall clearHeap FirstFit.heap FirstFit.sector)
    obtain ⟨s,fs₁,hstart,e,T,hrest⟩ := copyStart_eq c clearHeap FirstFit.heap hname hslot hroom
    rw [hstart] at hstart'
    cases hstart'
    obtain ⟨-,hentry⟩ := hfetch.resolve_left fun hne => hne hmod
    rw [hrest _ (by unfold indexCount sectorWords sectorSize at *; omega), entry_clearHeap] at hentry
    -- sector 0 has been the header of the free map all along
    refine e.placed.fresh 0 ?_ (c.disk.marked .freeMap (mem_ownedSectors_self _ _ _))
    exact List.mem_cons_of_mem s hentry
  · intro hmod heap heap' buffer
    obtain ⟨s,fs₁,hstart,-⟩ := copyStart_eq c heap heap' hname hslot hroom
    exact (copiesLikeWrite_iff_fetchable c hname hslot hroom).mpr ⟨fs₁,_,hstart,.inl hmod⟩

/-- In every state that a run of behaved calls reaches, and for a new file with room for its data
and index sectors, `Copy` agrees with `OpenFile::Write` just when the last index sector of the
file is not full. -/
theorem copiesLikeWrite_iff_of_run (h : ((calls S).guard (Behaved S)).Reachable fs)
    (he : Enters S fs name) (hroom : Room S fs (sectorCount source.length)) :
    (∀ heap heap' buffer, CopiesLikeWrite S fs source name heap heap' buffer) ↔
      sectorCount source.length % sectorWords ≠ 0 := by
  obtain ⟨o,cur,c⟩ := coherent_of_run h
  obtain ⟨hname,-,hslot⟩ := he
  obtain ⟨i,hslot⟩ := Option.ne_none_iff_exists'.mp hslot
  exact copiesLikeWrite_iff c hname hslot hroom

end Start

/-- The copy of a file with one sector behind its first index group. -/
theorem copiesLikeWrite_format : ∃ fs : FileSystem,
    FileSystem.format FirstFit.support FirstFit.heap FirstFit.disk = .ok fs ∧
      ∀ heap heap' buffer, CopiesLikeWrite FirstFit.support fs
        (List.replicate (sectorWords * sectorSize + 1) 7) [97] heap heap' buffer := by
  obtain ⟨fs,hformat,f⟩ := format_eq FirstFit.support FirstFit.heap FirstFit.disk
  have hlen : (List.replicate (sectorWords * sectorSize + 1) (7 : Byte)).length =
    sectorWords * sectorSize + 1 := List.length_replicate
  have he : Enters FirstFit.support fs [97] := f.enters (by decide) (by decide)
  have hroom : Room FirstFit.support fs
      (sectorCount (List.replicate (sectorWords * sectorSize + 1) (7 : Byte)).length) := by
    rw [f.room, hlen]
    decide
  refine ⟨fs,hformat,(copiesLikeWrite_iff_of_run (.start ⟨_,_,hformat⟩) he hroom).mpr ?_⟩
  rw [hlen]
  decide

/-- The copies of an empty file, and of one that fills its index sector. -/
theorem not_copiesLikeWrite : ∃ fs : FileSystem,
    FileSystem.format FirstFit.support FirstFit.heap FirstFit.disk = .ok fs ∧
      ¬ (∀ heap heap' buffer, CopiesLikeWrite FirstFit.support fs [] [97] heap heap' buffer) ∧
      ¬ ∀ heap heap' buffer, CopiesLikeWrite FirstFit.support fs
        (List.replicate (sectorWords * sectorSize) 7) [97] heap heap' buffer := by
  obtain ⟨fs,hformat,f⟩ := format_eq FirstFit.support FirstFit.heap FirstFit.disk
  have hname : fs.currentDir.findIndex [97] = none := f.findIndex_none (by decide) (by decide)
  refine ⟨fs,hformat,fun h => ?_,fun h => ?_⟩
  · have hroom : Room FirstFit.support fs (sectorCount ([] : List Byte).length) :=
      f.room.mpr (by decide)
    exact (copiesLikeWrite_iff f.coherent hname f.freeIndex_eq hroom).mp h rfl
  · have hlen : (List.replicate (sectorWords * sectorSize) (7 : Byte)).length =
      sectorWords * sectorSize := List.length_replicate
    have hroom : Room FirstFit.support fs
        (sectorCount (List.replicate (sectorWords * sectorSize) (7 : Byte)).length) := by
      rw [f.room, hlen]
      decide
    have hmod := (copiesLikeWrite_iff f.coherent hname f.freeIndex_eq hroom).mp h
    rw [hlen] at hmod
    exact hmod rfl

end Copy

end Nachos
