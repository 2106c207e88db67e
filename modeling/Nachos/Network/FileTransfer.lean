import Nachos.FileSys.FirstFit
import Nachos.Network.FileMachines

/-! # A file goes over the network

`SendFile` on one machine and `ReceiveFile` on another one, each with its own file system.
-/
namespace Nachos

/-- What `SendFile` reads of a file. -/
def filePieces (c : List Byte) : List (List Byte) :=
  (List.range (nbPieces c.length)).map fun i => (c.drop (i * maxMailSize)).take maxMailSize

section Pieces
variable {c : List Byte} {i L : ℕ}

theorem lt_nbPieces : i < nbPieces L ↔ i * maxMailSize < L := by
  have hsize : maxMailSize = 40 := rfl
  rw [nbPieces, hsize]
  split_ifs <;> omega

theorem nbPieces_of_dvd (h : maxMailSize ∣ L) : nbPieces L * maxMailSize = L := by
  rw [nbPieces, if_pos (Nat.mod_eq_zero_of_dvd h), Nat.add_zero, Nat.div_mul_cancel h]

@[simp] theorem length_filePieces : (filePieces c).length = nbPieces c.length := by
  rw [filePieces, List.length_map, List.length_range]

theorem getElem?_filePieces (hi : i < nbPieces c.length) :
    (filePieces c)[i]? = some ((c.drop (i * maxMailSize)).take maxMailSize) := by
  rw [filePieces, List.getElem?_map, List.getElem?_range hi, Option.map_some]

theorem piece_ne_nil (hi : i < nbPieces c.length) :
    (c.drop (i * maxMailSize)).take maxMailSize ≠ [] := by
  have hlt := lt_nbPieces.mp hi
  have hsize : maxMailSize = 40 := rfl
  rw [ne_eq, ← List.length_eq_zero_iff, List.length_take, List.length_drop]
  omega

theorem next_piece {l : List (List Byte)} {x : List Byte} (h : l ++ [x] <+: filePieces c) :
    l.length < nbPieces c.length ∧ x = (c.drop (l.length * maxMailSize)).take maxMailSize := by
  obtain ⟨rest,hrest⟩ := h
  have hlt : l.length < nbPieces c.length := by
    rw [← length_filePieces, ← hrest]
    simp only [List.length_append, List.length_singleton]
    omega
  refine ⟨hlt,?_⟩
  have hget := getElem?_filePieces hlt
  rw [← hrest, List.append_assoc, List.getElem?_append_right le_rfl, Nat.sub_self] at hget
  exact Option.some.inj hget

theorem takeWhile_piece (h0 : 0 ∉ c) (p n : ℕ) :
    ((c.drop p).take n).takeWhile (· ≠ 0) = (c.drop p).take n := by
  refine List.takeWhile_eq_self_iff.mpr fun x hx => decide_eq_true ?_
  rintro rfl
  exact h0 (List.mem_of_mem_drop (List.mem_of_mem_take hx))

theorem NamedFile.isInt_pieces {S : Support} {fs : FileSystem} {name : List Byte} {s : ℕ}
    (h : NamedFile S fs name s c) : IsInt (filePieces c).length := by
  have hle := h.length_le
  have hsize : maxMailSize = 40 := rfl
  unfold numDirect sectorWords sectorSize at hle
  rw [length_filePieces, nbPieces, hsize]
  unfold IsInt
  split_ifs <;> omega

end Pieces

section Mailing
variable {S : Support} {σ α : Type} {C : Contract TcpOp TcpOp.Resp σ} {Q : α → σ → Prop} {s : σ}
  {p : TcpProg α} {files : LocalFiles}

theorem sat_mailing (h : p.Sat C Q s) (hp : p.Uses TcpOp.Mailing) :
    p.Sat (C.along (LocalFiles.contract S)) (fun a t => Q a t.1 ∧ t.2 = files) (s,files) := by
  refine h.along (I := (· = files)) hp ?_ rfl
  rintro op _ hop rfl
  exact ⟨trivial,fun _ _ => LocalFiles.post_mailing hop⟩

theorem sat_files (op : TcpOp) {R : op.Resp → LocalFiles → Prop} (hpre : C.pre op s)
    (hpost : ∀ r t, C.post op s r t → t = s)
    (hfiles : ∀ r files', (LocalFiles.contract S).post op files r files' → R r files') :
    (tcp op).Sat (C.along (LocalFiles.contract S)) (fun r t => t.1 = s ∧ R r t.2) (s,files) :=
  ⟨⟨hpre,trivial⟩,fun r t h => ⟨hpost r t.1 h.1,hfiles r t.2 h.2⟩⟩

end Mailing

/-! What is answered for a file that is there. -/

namespace NamedFile
variable {S : Support} {fs : FileSystem} {files : LocalFiles} {name c : List Byte} {s p : ℕ}
  {g : OpenFile}

theorem open_post (h : NamedFile S fs name s c) {f : Option OpenFile} {r : Bool}
    (hpost : (LocalFiles.contract S).post (.fileOpen name) ⟨fs,f⟩ r files) :
    r = true ∧ files = ⟨fs,some ⟨headerAt fs.disk s,0⟩⟩ := by
  obtain ⟨heap,f,hopen,rfl,rfl⟩ := hpost
  rw [h.openFile heap] at hopen
  cases hopen
  exact ⟨rfl,rfl⟩

theorem length_post (h : NamedFile S fs name s c) (hg : g.hdr = headerAt fs.disk s) {r : ℕ}
    (hpost : (LocalFiles.contract S).post .fileLength ⟨fs,some g⟩ r files) :
    r = c.length ∧ files = ⟨fs,some g⟩ := by
  obtain ⟨_,⟨⟩,rfl,rfl⟩ := hpost
  have hle := h.length_le
  rw [OpenFile.length, hg, h.length]
  unfold numDirect sectorWords sectorSize at hle
  exact ⟨by omega,rfl⟩

theorem read_post (h : NamedFile S fs name s c) (hg : g.hdr = headerAt fs.disk s)
    (hp : g.seekPosition = p) (hlt : p < c.length) {r : List Byte}
    (hpost : (LocalFiles.contract S).post (.fileRead maxMailSize) ⟨fs,some g⟩ r files) :
    r = (c.drop p).take maxMailSize ∧
      files = ⟨fs,some (g.seek (min (p + maxMailSize) c.length : ℕ))⟩ := by
  obtain ⟨_,count,g',⟨⟩,hread,rfl⟩ := hpost
  have hle := h.length_le
  have hint : IsInt ((p : ℤ) + (maxMailSize : ℕ)) := by
    have hsize : maxMailSize = 40 := rfl
    unfold numDirect sectorWords sectorSize at hle
    unfold IsInt
    omega
  have hend : p + transferCount c.length p maxMailSize = min (p + maxMailSize) c.length := by
    rw [transferCount, Int.toNat_natCast]
    omega
  rw [h.read hg hp hint, ← Nat.cast_add, hend] at hread
  cases hread
  exact ⟨rfl,rfl⟩

end NamedFile

namespace Sending
variable {S : Support} {fs : FileSystem} {name c : List Byte} {s : ℕ} {f : Option OpenFile}
  {target : ℤ}

theorem sat_sendFile (h : NamedFile S fs name s c) (h0 : 0 ∉ c) :
    (sendFile name).Sat ((sends (messageOf target .fileInfo (filePieces c))
      ((filePieces c).length + 1) target).along (LocalFiles.contract S))
      (fun r t => r = true → t.1.answered = (filePieces c).length + 1 ∧ t.1.failed = false)
      (⟨0,false,false,0⟩,⟨fs,f⟩) := by
  refine (sat_mailing sat_getConnectedID (mailing_op trivial)).bind ?_
  rintro _ ⟨_,_⟩ ⟨⟨rfl,rfl⟩,rfl⟩
  split
  · rintro ⟨⟩
  refine (sat_files (.fileOpen name) trivial (fun _ _ h => h) fun _ _ => h.open_post).bind ?_
  rintro _ ⟨_,_⟩ ⟨rfl,rfl,rfl⟩
  refine (sat_files .fileLength trivial (fun _ _ h => h) fun _ _ => h.length_post rfl).bind ?_
  rintro _ ⟨_,_⟩ ⟨rfl,rfl,rfl⟩
  rw [← length_filePieces]
  refine (sat_mailing sat_announce (mailing_announce _ _)).bind ?_
  rintro value ⟨_,_⟩ ⟨ht,rfl⟩
  cases value with
  | false => rintro ⟨⟩
  | true =>
    obtain rfl := ht rfl
    refine Prog.Sat.iterate (fun i t => i ≤ (filePieces c).length ∧ ∃ g : OpenFile,
      t = (⟨i + 1,false,false,i⟩,⟨fs,some g⟩) ∧ g.hdr = headerAt fs.disk s ∧
        g.seekPosition = (min (i * maxMailSize) c.length : ℕ)) ⟨Nat.zero_le _,_,rfl,rfl,?_⟩ ?_
    · simp
    rintro i _ ⟨hi,g,rfl,hg,hpos⟩
    split
    case isFalse hge =>
      obtain rfl : i = (filePieces c).length := Nat.le_antisymm hi (Nat.le_of_not_lt hge)
      exact fun _ => ⟨rfl,rfl⟩
    case isTrue hi' =>
      rw [length_filePieces] at hi'
      have hlt := lt_nbPieces.mp hi'
      have hpiece := getElem?_filePieces hi'
      have hne := piece_ne_nil hi'
      rw [min_eq_left hlt.le] at hpos
      refine (sat_files (.fileRead maxMailSize) trivial (fun _ _ h => h)
        fun _ _ => h.read_post hg hpos hlt).bind ?_
      rintro _ ⟨_,_⟩ ⟨rfl,rfl,rfl⟩
      rw [takeWhile_piece h0]
      have hget : (filePieces c).getD i [] = (c.drop (i * maxMailSize)).take maxMailSize := by
        rw [List.getD_eq_getElem?_getD, hpiece, Option.getD_some]
      refine (sat_mailing (sat_sendMessage hne hget (by rw [length_filePieces]; omega))
        (mailing_sendMessage _)).bind ?_
      rintro sent ⟨_,_⟩ ⟨ht,rfl⟩
      cases sent with
      | false => rintro ⟨⟩
      | true =>
        obtain rfl := ht rfl
        refine (sat_mailing sat_pause mailing_pause).bind ?_
        rintro _ ⟨_,_⟩ ⟨rfl,rfl⟩
        exact ⟨by rw [length_filePieces]; exact hi',_,rfl,hg,by rw [Nat.succ_mul]; rfl⟩

end Sending

/-- What there is under a name for `L` bytes: a file of this length; none, and room for a new one,
whose length is a multiple of that of a piece; or none, and nothing to make one of, so that the
first piece has nowhere to go to. -/
inductive HasPlace (S : Support) (fs : FileSystem) (name : List Byte) (L : ℕ) : Prop
  | same {s : ℕ} {x : List Byte} : NamedFile S fs name s x → x.length = L → HasPlace S fs name L
  | new {o : Owner} {cur : ℕ} : Coherent S fs o cur → Enters S fs name →
      Room S fs (sectorCount L) → maxMailSize ∣ L → HasPlace S fs name L
  | full {o : Owner} {cur : ℕ} : Coherent S fs o cur → fs.currentDir.findIndex name = none →
      (storedMap S fs.disk).numClear ≤ 0 ∨ fs.currentDir.freeIndex = none → 0 < L →
      HasPlace S fs name L

/-- The file of the name is open, and `c` has been written to it up to byte `p`. -/
def Saving (S : Support) (files : LocalFiles) (name c : List Byte) (p : ℕ) : Prop :=
  ∃ s x f, NamedFile S files.fileSystem name s x ∧ files.f = some f ∧
    f.hdr = headerAt files.fileSystem.disk s ∧ f.seekPosition = p ∧ x.length = c.length ∧
    x.take p = c.take p

section Saving
variable {S : Support} {files files₁ files' : LocalFiles} {name c data : List Byte} {p : ℕ}

theorem HasPlace.saving (h : HasPlace S files.fileSystem name c.length)
    (hcreate : (LocalFiles.contract S).post
      (.fileCreate name ((nbPieces c.length : ℤ) * (maxMailSize : ℕ))) files () files₁)
    {opened : Bool} (hopen : (LocalFiles.contract S).post (.fileOpen name) files₁ opened files') :
    Saving S files' name c 0 ∨ files'.f = none ∧ 0 < c.length := by
  obtain ⟨heap,b,fs,hcreate,rfl⟩ := hcreate
  obtain ⟨heap',f,hopen,-,rfl⟩ := hopen
  dsimp only at hopen
  have hnamed : ∀ {s x}, NamedFile S fs name s x → x.length = c.length →
      Saving S ⟨fs,f⟩ name c 0 := by
    intro s x hnamed hlen
    rw [hnamed.openFile] at hopen
    cases hopen
    exact ⟨s,x,_,hnamed,rfl,rfl,rfl,hlen,rfl⟩
  cases h with
  | same h hlen =>
    rw [h.create] at hcreate
    cases hcreate
    exact .inl (hnamed h hlen)
  | new hc he hroom hdvd =>
    obtain ⟨s,fs',x,hcreate',h,hlen⟩ := NamedFile.of_create hc he hroom heap
    rw [← Nat.cast_mul, nbPieces_of_dvd hdvd, hcreate'] at hcreate
    cases hcreate
    exact .inl (hnamed h hlen)
  | full hc hname hfull hpos =>
    rw [hc.create_full heap hname hfull] at hcreate
    cases hcreate
    rw [hc.openFile_none heap' hname] at hopen
    cases hopen
    exact .inr ⟨rfl,hpos⟩

theorem Saving.write (h : Saving S files name c p) (hp : p ≤ c.length)
    (hdata : data = (c.drop p).take maxMailSize) {r : TcpOp.Resp (.fileWrite data)}
    (hwrite : (LocalFiles.contract S).post (.fileWrite data) files r files') :
    Saving S files' name c (min (p + maxMailSize) c.length) := by
  obtain ⟨s,x,f,hnamed,hf,hhdr,hpos,hlen,htake⟩ := h
  obtain ⟨f',chars,count,disk,g,hf',hwrite,rfl⟩ := hwrite
  cases hf.symm.trans hf'
  have hdatalen : data.length = min maxMailSize (c.length - p) := by
    rw [hdata, List.length_take, List.length_drop]
  have hend : p + data.length = min (p + maxMailSize) c.length := by omega
  have hfit : p + data.length ≤ x.length := by omega
  obtain ⟨d,hw,hnamed',hhdr'⟩ := hnamed.write hhdr hpos hfit chars
  rw [hwrite] at hw
  cases hw
  refine ⟨s,_,_,hnamed',rfl,hhdr',by rw [← hend, Nat.cast_add]; rfl,?_,?_⟩
  · rw [length_splice hfit, hlen]
  · rw [← hend, take_splice (by omega), htake, List.take_add]
    congr 1
    rw [hdata, List.length_take, List.take_eq_take_iff]
    omega

theorem Saving.done (h : Saving S files name c c.length) :
    ∃ s, NamedFile S files.fileSystem name s c := by
  obtain ⟨s,x,f,hnamed,-,-,-,hlen,htake⟩ := h
  rw [← hlen, List.take_length, hlen, List.take_length] at htake
  exact ⟨s,htake ▸ hnamed⟩

end Saving

namespace Receiving
variable {S : Support} {files : LocalFiles} {savename c : List Byte} {sender : ℤ}

/-- The payloads of the messages of a transfer, wherever these go to. -/
def payloads (pieces : List (List Byte)) : List (List Byte) :=
  (messageOf 0 .fileInfo pieces 0).payload :: pieces

/-- Behind the announcement `i` pieces have been taken, and when they are the first ones of the file
they have been written, or the first one has nowhere to go to. -/
structure Received (S : Support) (name c : List Byte) (mail : TcpMail) (i : ℕ)
    (t : List (PktType × TcpMail) × LocalFiles) : Prop where
  taken : ∃ mails : List TcpMail, t.1 = (.fileInfo,mail) :: mails.map (.msg,·) ∧ mails.length = i
  saved : t.1.map (·.2.payload) <+: payloads (filePieces c) →
    Saving S t.2 name c (min (i * maxMailSize) c.length) ∨ i = 0 ∧ t.2.f = none ∧ 0 < c.length

section Received
variable {mail m : TcpMail} {i : ℕ} {t : List (PktType × TcpMail) × LocalFiles}
  {text : List Byte} {files' : LocalFiles}

theorem Received.next (h : Received S savename c mail i t) (h0 : 0 ∉ c)
    (htext : m.payload.length ≤ maxMailSize → text = m.payload.takeWhile (· ≠ 0))
    (hwrite : (LocalFiles.contract S).post (.fileWrite text) t.2 () files') :
    Received S savename c mail (i + 1) (t.1 ++ [(.msg,m)],files') := by
  obtain ⟨⟨mails,hmails,hlen⟩,hsaved⟩ := h
  refine ⟨⟨mails ++ [m],?_,?_⟩,fun hprefix => .inl ?_⟩
  · rw [hmails, List.map_append]
    rfl
  · rw [List.length_append, hlen]
    rfl
  have htail : mails.map (·.payload) ++ [m.payload] <+: filePieces c := by
    rw [hmails, List.cons_append, List.map_cons, payloads, List.cons_prefix_cons, List.map_append,
      List.map_map] at hprefix
    exact hprefix.2
  obtain ⟨hcount,hpayload⟩ := next_piece htail
  rw [List.length_map, hlen] at hcount hpayload
  rw [hpayload, takeWhile_piece h0] at htext
  have hlt := lt_nbPieces.mp hcount
  rcases hsaved (((List.prefix_append _ _).map _).trans hprefix) with hsaving | ⟨-,hnone,-⟩
  · rw [min_eq_left hlt.le] at hsaving
    have := hsaving.write hlt.le (htext (List.length_take_le _ _)) hwrite
    rwa [← Nat.succ_mul] at this
  · -- there is no file to write to
    obtain ⟨f,_,_,_,_,hf,-⟩ := hwrite
    cases hnone.symm.trans hf

theorem Received.done (h : Received S savename c mail i t)
    (hall : t.1.map (·.2.payload) = payloads (filePieces c)) :
    ∃ s, NamedFile S t.2.fileSystem savename s c := by
  obtain ⟨⟨mails,hmails,hlen⟩,hsaved⟩ := h
  have hcount : i = nbPieces c.length := by
    have := congrArg List.length hall
    rw [hmails, List.length_map, List.length_cons, List.length_map, payloads, List.length_cons,
      length_filePieces] at this
    omega
  rcases hsaved (hall ▸ List.prefix_refl _) with hdone | ⟨rfl,-,hpos⟩
  · rw [hcount, min_eq_right (Nat.le_of_not_lt fun hlt => lt_irrefl _ (lt_nbPieces.mpr hlt))]
      at hdone
    exact hdone.done
  · have := lt_nbPieces.mpr (by rwa [Nat.zero_mul])
    omega

end Received

/-- What has been received is the file, when the payloads taken are those that were sent. -/
theorem sat_receiveFile (hplace : HasPlace S files.fileSystem savename c.length) (h0 : 0 ∉ c)
    (hint : IsInt (filePieces c).length) :
    (receiveFile savename).Sat ((receives sender .fileInfo).along (LocalFiles.contract S))
      (fun r t => r = true → Taken .fileInfo t.1 ∧
        (t.1.map (·.2.payload) = payloads (filePieces c) →
          ∃ s, NamedFile S t.2.fileSystem savename s c)) ([],files) := by
  refine (sat_mailing sat_getConnectedID (mailing_op trivial)).bind ?_
  rintro _ ⟨_,files⟩ ⟨⟨rfl,rfl⟩,rfl⟩
  split
  · rintro ⟨⟩
  refine (sat_mailing sat_awaitPieces (mailing_awaitPieces _)).bind ?_
  rintro (_ | size) ⟨_,files⟩ ⟨ht,rfl⟩
  · rintro ⟨⟩
  obtain ⟨mail,rfl,hsize⟩ := ht size rfl
  have hannounced : mail.payload = (messageOf 0 .fileInfo (filePieces c) 0).payload →
      size = nbPieces c.length := by
    intro hpayload
    obtain ⟨hzero,hatoi⟩ : 0 ∈ overwrite (List.replicate maxMailSize 0)
      (messageOf 0 .fileInfo (filePieces c) 0).payload ∧ _ := announcement hint rfl
    rw [← hpayload] at hzero hatoi
    rw [hsize hzero, hatoi, length_filePieces]
  refine (sat_files (.fileCreate savename (size * maxMailSize)) (R := fun _ files₁ =>
    (LocalFiles.contract S).post (.fileCreate savename (size * maxMailSize)) files () files₁)
    trivial (fun _ _ h => h) fun _ _ h => h).bind ?_
  rintro _ ⟨_,files₁⟩ ⟨rfl,hcreate⟩
  refine (sat_files (.fileOpen savename) (R := fun opened files' =>
    (LocalFiles.contract S).post (.fileOpen savename) files₁ opened files')
    trivial (fun _ _ h => h) fun _ _ h => h).bind ?_
  rintro opened ⟨_,files'⟩ ⟨rfl,hopen⟩
  refine Prog.Sat.iterate (fun i t => i ≤ size.toNat ∧ Received S savename c mail i t)
    ⟨Nat.zero_le _,⟨[],rfl,rfl⟩,fun hprefix => ?_⟩ ?_
  · have hpayload := (List.cons_prefix_cons.mp hprefix).1
    rw [hannounced hpayload] at hcreate
    rw [Nat.zero_mul, Nat.zero_min]
    exact (hplace.saving hcreate hopen).imp_right fun hnone => ⟨rfl,hnone⟩
  rintro i t ⟨hi,hreceived⟩
  obtain ⟨mails,hmails,hlen⟩ := hreceived.taken
  split
  case isFalse hge =>
    refine fun _ => ⟨⟨mail,mails,hmails,fun hz => ?_⟩,hreceived.done⟩
    rw [← hsize hz]
    omega
  case isTrue hlt =>
    refine (sat_mailing (sat_receiveMessage (hmails ▸ List.cons_ne_nil _ _))
      mailing_receiveMessage).bind ?_
    rintro ⟨status,text⟩ ⟨_,files₂⟩ ⟨ht,rfl⟩
    cases status with
    | false => rintro ⟨⟩
    | true =>
      obtain ⟨next,rfl,htext⟩ := ht rfl
      refine (sat_files (.fileWrite (text.take maxMailSize)) (R := fun _ files' =>
        (LocalFiles.contract S).post (.fileWrite (text.take maxMailSize)) t.2 () files')
        trivial (fun _ _ h => h) fun _ _ h => h).bind ?_
      rintro _ ⟨_,files₃⟩ ⟨rfl,hwrite⟩
      exact ⟨by omega,hreceived.next h0 htext hwrite⟩

end Receiving

/-- `SendFile` on one machine and `ReceiveFile` on the other, and nothing gets lost. -/
def fileDialogue {S : Support} {a b : ℤ} {filename savename c : List Byte} {s : ℕ}
    (w₀ : FileMachines) (hab : a ≠ b)
    (hfile : NamedFile S (w₀.files a).fileSystem filename s c)
    (hplace : HasPlace S (w₀.files b).fileSystem savename c.length) (h0 : 0 ∉ c) :
    Dialogue LocalFiles LocalFiles where
  a := a
  b := b
  type := .fileInfo
  pieces := filePieces c
  sender := .sendFile filename
  receiver := .receiveFile savename
  start := w₀.net
  left := LocalFiles.contract S
  right := LocalFiles.contract S
  startLeft := w₀.files a
  startRight := w₀.files b
  sent r s := r = .status true → s.1.answered = (filePieces c).length + 1 ∧ s.1.failed = false
  received r s := r = .status true → Receiving.Taken .fileInfo s.1 ∧
    (s.1.map (·.2.payload) = Receiving.payloads (filePieces c) →
      ∃ t, NamedFile S s.2.fileSystem savename t c)
  ne := hab
  lossless := True
  type_ne_msg := by decide
  type_ne_stop := by decide
  sat_sender := by
    refine (Sending.sat_sendFile hfile h0).bind ?_
    intro r s hr heq
    exact hr (CallResult.status.inj heq)
  sat_receiver := by
    refine (Receiving.sat_receiveFile hplace h0 hfile.isInt_pieces).bind ?_
    intro r s hr heq
    exact hr (CallResult.status.inj heq)

/-- The two calls are made, and nothing gets lost. -/
def FileMachines.Lossless (a b : ℤ) (filename savename : List Byte) (w₀ w : FileMachines)
    (l : MachinesStep) : Prop :=
  Machines.OneCallEach a b (.sendFile filename) (.receiveFile savename) w₀.net w.net l ∧ ¬ l.Loses

/-- From a state where the two machines are connected and nothing is left of earlier transfers, when
`SendFile` and `ReceiveFile` both report success, the receiver has the file: one without `NUL`,
where consecutive pieces begin with different bytes, and whose length the file under the name
has or comes to have. -/
theorem fileTransfer {S : Support} {a b : ℤ} {filename savename c : List Byte}
    {w₀ w : FileMachines} (h₀ : machines.Reachable w₀.net) (hquiet : w₀.net.Quiet a b .fileInfo)
    (hfile : ∃ s, NamedFile S (w₀.files a).fileSystem filename s c)
    (hplace : HasPlace S (w₀.files b).fileSystem savename c.length) (h0 : 0 ∉ c)
    (hd : ((filePieces c).map firstChar).IsChain (· ≠ ·))
    (h : (((fileMachines S).startAt w₀).guard
      (FileMachines.Lossless a b filename savename w₀)).Reachable w)
    (hsent : (w.net.office a).log = (w₀.net.office a).log ++ [(.sendFile filename,.status true)])
    (hreceived : (w.net.office b).log =
      (w₀.net.office b).log ++ [(.receiveFile savename,.status true)]) :
    (w.files b).fileSystem.Yields S savename c := by
  obtain ⟨s,hfile⟩ := hfile
  obtain ⟨D,hD⟩ : ∃ D, D = fileDialogue w₀ hquiet.ne hfile hplace h0 := ⟨_,rfl⟩
  have hrun : ∃ x, x.InOrder D.token Dialogue.box D.count D.lossless ∧
      D.Corresponds w.net x (w.files a) (w.files b) := by
    subst hD
    refine Dialogue.corresponds_of_run (N := FileMachines.net) (L := fun w => w.files a)
      (R := fun w => w.files b) ?_ ?_ (Dialogue.telling hd fun hlossy => absurd trivial hlossy) h
    · rintro _ rfl
      exact Dialogue.corresponds_start h₀ hquiet
    · rintro w l w' ⟨⟨hok,hloses⟩,heap,chars,hstep⟩
      obtain ⟨l',hnet,hresponds,hloses',hok'⟩ := FileMachines.step_net hstep
      exact ⟨l',hok' hok,fun _ hl => hloses (hloses' hl),hnet,hresponds a,hresponds b⟩
  obtain ⟨x,hin,hc⟩ := hrun
  subst hD
  obtain ⟨-,htaken⟩ := hc.results hin hfile.isInt_pieces hsent hreceived (fun _ hr => hr rfl)
    fun _ hr => (hr rfl).1
  obtain ⟨t,ht⟩ := (htaken rfl).2 (by
    rw [List.map_map, Dialogue.count, List.range_succ_eq_map, List.map_cons, List.map_map]
    exact congrArg (_ :: ·) Dialogue.payloads_eq)
  exact ht.yields

/-! Runs of machines 0 and 1, where each sector of the sender's disk holds `A`s and then `B`s. -/

namespace FileMachines

def lettersDisk : Disk := fun _ => ⟨List.replicate 40 65 ++ List.replicate 88 66,rfl⟩

/-- A disk with a file `a` of `L` bytes, and an empty one. -/
def prepared (L : ℕ) : Option (FileSystem × FileSystem) := do
  let source ← (FileSystem.format FirstFit.support FirstFit.heap lettersDisk).toOption
  let (_,source) ← (source.create FirstFit.support FirstFit.heap [97] (BitVec.ofInt 32 L)).toOption
  let target ← (FileSystem.format FirstFit.support FirstFit.heap FirstFit.disk).toOption
  return (source,target)

def stored (fs : FileSystem) (name : List Byte) : Option (ℤ × List Byte) := do
  let f ← (← (fs.openFile FirstFit.support FirstFit.heap name).toOption)
  let (_,bytes) ← (f.readAt FirstFit.support fs.disk f.length 0 1).toOption
  return (f.length,bytes)

theorem stored_of_yields {fs : FileSystem} {name c : List Byte}
    (h : fs.Yields FirstFit.support name c) (hint : IsInt c.length) :
    stored fs name = some ((c.length : ℤ),c) := by
  obtain ⟨f,hopen,hlen,hread⟩ := h FirstFit.heap
  have hread := hread 0 c.length (by rwa [Nat.cast_zero, zero_add])
  have hcount : transferCount c.length 0 c.length = c.length := by
    rw [transferCount, Int.toNat_natCast, Nat.sub_zero, min_self]
  rw [hcount, List.drop_zero, List.take_length, Nat.cast_zero] at hread
  rw [stored, hopen]
  change (f.readAt FirstFit.support fs.disk f.length 0 1).toOption.bind
    (fun x => some (f.length,x.2)) = _
  rw [hlen, hread]
  rfl

/-- A piece goes to machine 1, which then makes `n` steps, while machine 0 makes `k`. -/
def carries (n k : ℕ) : List MachinesStep :=
  Machines.mailToReceiver ++ Machines.runs 1 .user 8 ++ Machines.ackToSender ++
    Machines.runs 0 .user 7 ++ Machines.waitsOut 1 ++ Machines.runs 1 .user n ++
    Machines.wakes 0 pauseTicks ++ Machines.runs 0 .user k

/-- Pieces of the file `a` go into the file `b`. -/
def transfers (pieces : List MachinesStep) : List MachinesStep :=
  [.own 0 (.call (.sendFile [97])),.own 1 (.call (.receiveFile [98]))] ++
    Machines.runs 0 .user 7 ++ Machines.runs 1 .user 4 ++ Machines.mailToReceiver ++
    Machines.runs 1 .user 8 ++ Machines.ackToSender ++ Machines.runs 0 .user 13 ++
    Machines.waitsOut 1 ++ Machines.runs 1 .user 6 ++ pieces ++
    [.own 0 (.finish .user),.own 1 (.finish .user)]

instance (w₀ w : FileMachines) (l : MachinesStep) : Decidable (Lossless 0 1 [97] [98] w₀ w l) :=
  inferInstanceAs (Decidable (_ ∧ ¬ _))

theorem prepared_eq {L : ℕ} {source target : FileSystem} (h : prepared L = some (source,target))
    (hroom : 0 ≤ (sectorCount L : ℤ) ∧ indexCount (sectorCount L : ℤ).toNat ≤ numDirect ∧
      (sectorCount L : ℤ) + indexCount (sectorCount L : ℤ).toNat + 1 ≤ 1019) :
    (∃ s c, NamedFile FirstFit.support source [97] s c ∧ c.length = L) ∧
      Formatted FirstFit.support target := by
  obtain ⟨fs,hfs,f⟩ := format_eq FirstFit.support FirstFit.heap lettersDisk
  obtain ⟨fs',hfs',f'⟩ := format_eq FirstFit.support FirstFit.heap FirstFit.disk
  have he : Enters FirstFit.support fs [97] := f.enters (by decide) (by decide)
  obtain ⟨s,source',c,hcreate,hnamed,hlen⟩ :=
    NamedFile.of_create f.coherent he (f.room.mpr hroom) FirstFit.heap
  unfold prepared at h
  obtain ⟨fs₁,hfs₁,h⟩ := Option.bind_eq_some_iff.mp h
  cases hfs.symm.trans (LocalFiles.toOption_eq_some hfs₁)
  obtain ⟨⟨b,source₁⟩,hcreate₁,h⟩ := Option.bind_eq_some_iff.mp h
  have heq := LocalFiles.toOption_eq_some hcreate₁
  rw [hcreate] at heq
  cases heq
  obtain ⟨target₁,htarget,h⟩ := Option.bind_eq_some_iff.mp h
  cases hfs'.symm.trans (LocalFiles.toOption_eq_some htarget)
  cases h
  exact ⟨⟨s,c,hnamed,hlen⟩,f'⟩

/-- The file systems of machines 0 and 1. -/
def between (net : Machines) (source target : FileSystem) : FileMachines :=
  ⟨net,fun a => ⟨if a = 0 then source else target,none⟩⟩

theorem exists_transfer {L : ℕ} (pieces : List MachinesStep) {x y : List Byte}
    (h : ((Machines.new.steps (Machines.connects 0 1)).any fun net => (prepared L).any fun fs =>
      (TransitionSystem.follow (step FirstFit.support FirstFit.heap fun _ => 0)
        (Lossless 0 1 [97] [98] (between net fs.1 fs.2)) (between net fs.1 fs.2)
        (transfers pieces)).any
        fun w => decide (net.Rests .fileInfo ∧ stored fs.1 [97] = some ((L : ℤ),x) ∧
          (w.net.office 0).log = (net.office 0).log ++ [(.sendFile [97],.status true)] ∧
          (w.net.office 1).log = (net.office 1).log ++ [(.receiveFile [98],.status true)] ∧
          (stored (w.files 1).fileSystem [98]).map (·.2) = some y)) = true) :
    ∃ w₀ w : FileMachines, machines.Reachable w₀.net ∧ w₀.net.Quiet 0 1 .fileInfo ∧
      prepared L = some ((w₀.files 0).fileSystem,(w₀.files 1).fileSystem) ∧
      stored (w₀.files 0).fileSystem [97] = some ((L : ℤ),x) ∧
      (((fileMachines FirstFit.support).startAt w₀).guard (Lossless 0 1 [97] [98] w₀)).Reachable w ∧
      (w.net.office 0).log = (w₀.net.office 0).log ++ [(.sendFile [97],.status true)] ∧
      (w.net.office 1).log = (w₀.net.office 1).log ++ [(.receiveFile [98],.status true)] ∧
      (stored (w.files 1).fileSystem [98]).map (·.2) = some y := by
  simp only [Option.any_eq_true, decide_eq_true_eq] at h
  obtain ⟨net,hnet,⟨source,target⟩,hprepared,w,hw,hrests,hstored,hsent,hreceived,hout⟩ := h
  refine ⟨between net source target,w,?_,hrests.quiet,hprepared,hstored,?_,hsent,hreceived,hout⟩
  · exact TransitionSystem.Reachable.startAt (.start Machines.new_new)
      (startAt_steps (.start rfl) hnet)
  · exact TransitionSystem.Reachable.follow (.start rfl)
      (fun w l w' hstep => ⟨FirstFit.heap,fun _ => 0,hstep⟩) hw

end FileMachines

/-- A file of two pieces, forty `A`s and forty `B`s. -/
theorem fileTransfer_letters : ∃ w : FileMachines,
    (w.files 1).fileSystem.Yields FirstFit.support [98]
      (List.replicate 40 65 ++ List.replicate 40 66) ∧
    (w.net.office 1).log.getLast? = some (.receiveFile [98],.status true) := by
  obtain ⟨w₀,w,h₀,hquiet,hprepared,hstored,h,hsent,hreceived,-⟩ :=
    FileMachines.exists_transfer (FileMachines.carries 6 9 ++ FileMachines.carries 2 3) (L := 80)
      (x := List.replicate 40 65 ++ List.replicate 40 66)
      (y := List.replicate 40 65 ++ List.replicate 40 66) (by decide +kernel)
  obtain ⟨⟨s,c,hfile,hlen⟩,f⟩ := FileMachines.prepared_eq hprepared (by decide)
  obtain rfl : c = List.replicate 40 65 ++ List.replicate 40 66 := by
    have hc := FileMachines.stored_of_yields hfile.yields (by rw [hlen]; decide)
    rw [hstored] at hc
    exact (Prod.mk.inj (Option.some.inj hc)).2.symm
  refine ⟨w,fileTransfer h₀ hquiet ⟨s,hfile⟩ ?_ (by decide) (by decide) h hsent hreceived,?_⟩
  · exact .new f.coherent (f.enters (by decide) (by decide)) (f.room.mpr (by decide)) (by decide)
  · rw [hreceived, List.getLast?_concat]

/-- A file of one letter comes in as one of forty bytes. -/
theorem not_fileTransfer : ∃ w₀ w : FileMachines, machines.Reachable w₀.net ∧
    w₀.net.Quiet 0 1 .fileInfo ∧
    (∃ s, NamedFile FirstFit.support (w₀.files 0).fileSystem [97] s [65]) ∧
    Enters FirstFit.support (w₀.files 1).fileSystem [98] ∧
    Room FirstFit.support (w₀.files 1).fileSystem 1 ∧
    (((fileMachines FirstFit.support).startAt w₀).guard
      (FileMachines.Lossless 0 1 [97] [98] w₀)).Reachable w ∧
    (w.net.office 0).log = (w₀.net.office 0).log ++ [(.sendFile [97],.status true)] ∧
    (w.net.office 1).log = (w₀.net.office 1).log ++ [(.receiveFile [98],.status true)] ∧
    ¬ (w.files 1).fileSystem.Yields FirstFit.support [98] [65] := by
  obtain ⟨w₀,w,h₀,hquiet,hprepared,hstored,h,hsent,hreceived,hout⟩ :=
    FileMachines.exists_transfer (FileMachines.carries 1 3) (L := 1) (x := [65])
      (y := 65 :: List.replicate 39 0) (by decide +kernel)
  obtain ⟨⟨s,c,hfile,hlen⟩,f⟩ := FileMachines.prepared_eq hprepared (by decide)
  obtain rfl : c = [65] := by
    have hc := FileMachines.stored_of_yields hfile.yields (by rw [hlen]; decide)
    rw [hstored] at hc
    exact (Prod.mk.inj (Option.some.inj hc)).2.symm
  refine ⟨w₀,w,h₀,hquiet,⟨s,hfile⟩,f.enters (by decide) (by decide),f.room.mpr (by decide),h,hsent,
    hreceived,fun hyields => ?_⟩
  rw [FileMachines.stored_of_yields hyields (by decide)] at hout
  cases hout

end Nachos
