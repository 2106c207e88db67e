import Nachos.FileSys.HierarchyRefinement

/-! # Handles on a hierarchical file system

What is read and written through an `OpenFile` that stays open is what the tree holds, and the
file system goes on to mirror the tree.
-/
namespace Nachos

/-- A plain file of the current directory that holds these bytes, open at a position. -/
structure Opened (S : Support) (fs : FileSystem) (h : Hierarchy) (name bytes : List Byte)
    (f : OpenFile) (p : ℕ) : Prop where
  mirrors : Mirrors S fs h
  named : ¬ IsDotName name
  node : h.tree.node (h.path name) = some (.file bytes)
  hdr : f.hdr = headerAt fs.disk (fs.currentDir.find name).toNat
  position : f.seekPosition = p

section
variable {S : Support} {fs : FileSystem} {h : Hierarchy} {o : Owner} {cur : ℕ}
  {name bytes data : List Byte} {f : OpenFile} {p : ℕ}

theorem Mirrors.plain (M : Mirrors S fs h) (c : Coherent S fs o cur)
    (hcur : Leads fs.disk h.cwd o cur .directory) (hdot : ¬ IsDotName name)
    (hn : h.tree.node (h.path name) = some (.file bytes)) :
    ∃ i, fs.currentDir.findIndex name = some i ∧
      Leads fs.disk (h.path name) (.entry cur i) (fs.currentDir.find name).toNat .file ∧
      fileContents fs.disk (fs.currentDir.find name).toNat = bytes := by
  obtain ⟨i,hi⟩ := (M.found_iff c hcur).mp (.inr (by rw [hn]; exact Option.some_ne_none _))
  have h2 : 2 ≤ i.val := not_lt.mp fun hlt => hdot ((Mirrors.dotName_iff c hi).mpr hlt)
  have hlead := Mirrors.leads_entry c hcur hi h2
  have hsector : (fs.currentDir.find name).toNat =
      (fs.currentDir.getTableAt i).sector.toNat := by
    rw [c.find_of_index hi, Int.toNat_natCast]
  rw [← hsector] at hlead
  obtain ⟨n,hn',hst⟩ := M.stores hlead
  obtain rfl := Option.some.inj (hn'.symm.trans hn)
  generalize (fs.currentDir.getTableAt i).kind = kind at hlead hst
  cases kind with
  | file => exact ⟨i,hi,hlead,hst.1.symm⟩
  | directory | freeMap => exact hst.elim

theorem Opened.of_openFile (M : Mirrors S fs h) (hdot : ¬ IsDotName name)
    (hn : h.tree.node (h.path name) = some (.file bytes)) (heap : Heap) :
    ∃ f, fs.openFile S heap name = .ok (some f) ∧ Opened S fs h name bytes f 0 := by
  obtain ⟨o,cur,c,hcur⟩ := M.coherent
  obtain ⟨i,hi,-,-⟩ := M.plain c hcur hdot hn
  refine ⟨_,c.openFile_some heap hi,M,hdot,hn,?_,rfl⟩
  rw [c.find_of_index hi, Int.toNat_natCast]

theorem Opened.seek {q : ℕ} (x : Opened S fs h name bytes f p) :
    Opened S fs h name bytes (f.seek q) q :=
  ⟨x.mirrors,x.named,x.node,x.hdr,rfl⟩

theorem Opened.read (x : Opened S fs h name bytes f p) {n : ℕ} (hint : IsInt (p + n)) :
    f.read S fs.disk n = .ok ((transferCount bytes.length p n : ℕ),
        (bytes.drop p).take (transferCount bytes.length p n),
        f.seek (p + transferCount bytes.length p n : ℕ)) ∧
      Opened S fs h name bytes (f.seek (p + transferCount bytes.length p n : ℕ))
        (p + transferCount bytes.length p n) := by
  obtain ⟨o,cur,c,hcur⟩ := x.mirrors.coherent
  obtain ⟨i,-,hlead,hcontents⟩ := x.mirrors.plain c hcur x.named x.node
  have hread := (c.disk.node hlead.holds).readAt_contents (S := S) x.hdr p n hint
  rw [hcontents] at hread
  refine ⟨?_,x.seek⟩
  simp only [OpenFile.read, x.position, hread, Outcome.ok_bind, Outcome.pure_eq, Nat.cast_add]

theorem Opened.write (x : Opened S fs h name bytes f p) (hfit : p + data.length ≤ bytes.length)
    (hint : IsInt (p + data.length)) (chars : ℕ → Byte) :
    ∃ d, f.write S chars fs.disk data data.length =
        .ok ((data.length : ℤ),d,f.seek (p + data.length : ℕ)) ∧
      Opened S { fs with disk := d } (h.store name x.node (splice bytes p data)) name
        (splice bytes p data) (f.seek (p + data.length : ℕ)) (p + data.length) := by
  obtain ⟨o,cur,c,hcur⟩ := x.mirrors.coherent
  obtain ⟨i,-,hlead,hcontents⟩ := x.mirrors.plain c hcur x.named x.node
  obtain ⟨d,hw,hd,hout⟩ := (c.disk.node hlead.holds).writeAt_contents (S := S) x.hdr chars data p
    data.length hint le_rfl
  have hcount : transferCount bytes.length p data.length = data.length := by
    unfold transferCount
    omega
  rw [hcontents, hcount] at hw hd
  rw [List.take_length] at hd
  have ag : Agrees fs.disk d (· = .entry cur i) :=
    Agrees.write c.disk (.refl _ _) rfl hlead.holds hout
  refine ⟨d,?_,?_⟩
  · simp only [OpenFile.write, x.position, hw, Outcome.ok_bind, Outcome.pure_eq, Nat.cast_add]
  · refine ⟨x.mirrors.overwritten c hcur hlead x.node hd (length_splice hfit) hout,x.named,?_,?_,
      rfl⟩
    · rw [Hierarchy.store, Hierarchy.path, Namespace.node_put, if_pos rfl]
    · exact x.hdr.trans (ag.headerAt_eq hlead.holds).symm

end

end Nachos
