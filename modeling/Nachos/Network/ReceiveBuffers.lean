import Nachos.Library.Executions
import Nachos.Network.TCP

/-! # The buffers of the receivers

`ReceiveMessage`, `ReceiveString` and `ReceiveFile` once more, as programs in which every
access to `in->data` and every write into the piece shows.
-/
namespace Nachos

inductive BufferOp where
  /-- What has nothing to do with the two arrays. -/
  | tcp (op : TcpOp)
  /-- `in->data[i]`, with the bytes of the array. -/
  | readIn (inData : List Byte) (i : ℕ)
  | writePiece (i : ℕ) (c : Byte)

def BufferOp.Resp : BufferOp → Type
  | tcp op => op.Resp
  | readIn _ _ => Byte
  | writePiece _ _ => Unit

abbrev BufferProg := Prog BufferOp BufferOp.Resp

namespace ReceiveBuffers
open Prog

def plain {α : Type} (p : TcpProg α) : BufferProg α := p.lift .tcp fun _ => id

def readIn (inData : List Byte) (i : ℕ) : BufferProg Byte := perform (BufferOp.readIn inData i)

def writePiece (i : ℕ) (c : Byte) : BufferProg Unit := perform (BufferOp.writePiece i c)

/-- The first `NUL` ends it, in the array or behind. -/
def sprintf (inData : List Byte) : BufferProg (List Byte) :=
  iterate ((0 : ℕ),([] : List Byte)) fun (i,text) => do
    let c ← readIn inData i
    writePiece i c
    if c = 0 then return .inr text
    else return .inl (i + 1,text ++ [c])

def answer (out : Message) (inData : List Byte) : BufferProg Message :=
  if out.type = .ack then do
    let c ← readIn inData 0
    return { out with data := [c + 1,0] }
  else return out

def receiveLoop (inType : PktType) (inData : List Byte) (out : Message) :
    BufferProg (Option (List Byte × Message)) :=
  iterate () fun _ => do
    if ← plain wait then return .inr none
    match ← plain (pollBox inType .message) with
    | some mail =>
      let inData := overwrite inData mail.payload
      let out ← answer out inData
      plain (tcp (.send out))
      return .inr (some (inData,out))
    | none => return .inl ()

def receiveWait (inType : PktType) (inData : List Byte) (out : Message) :
    BufferProg (Bool × List Byte) := do
  match ← receiveLoop inType inData out with
  | none => return (false,inData)
  | some (inData,out) =>
    let caught ← plain (catchWithAnswer inType out)
    return (caught ≠ -2,inData)

/-- The result, and the string in the piece. -/
def receiveMessage : BufferProg (Bool × List Byte) := do
  if (← plain getConnectedID) = -1 then return (false,[])
  let out := Message.short (← plain getConnectedID) .ack
  let (status,inData) ← receiveWait .msg (List.replicate maxMailSize 0) out
  if ¬ status then plain (tcp (.setStoppingConnection false))
  return (status,← sprintf inData)

/-- `piece[j] = '\0'` for each `j`. -/
def clearPiece : BufferProg Unit :=
  iterate (0 : ℕ) fun j =>
    if j < maxMailSize then do
      writePiece j 0
      return .inl (j + 1)
    else return .inr ()

/-- The loop of `ReceiveString`. -/
def stringPieces (size : ℤ) : BufferProg (Option (List Byte)) :=
  iterate ((0 : ℕ),([] : List Byte)) fun (i,result) =>
    if (i : ℤ) < size then do
      clearPiece
      let (status,piece) ← receiveMessage
      if ¬ status then return .inr none
      return .inl (i + 1,result ++ piece)
    else return .inr (some result)

def receiveString : BufferProg (Option (List Byte)) := do
  if (← plain getConnectedID) = -1 then return none
  match ← plain (awaitPieces .stringInfo) with
  | none => return none
  | some size => stringPieces size

/-- The loop of `ReceiveFile`. -/
def filePieces (size : ℤ) : BufferProg Bool :=
  iterate (0 : ℕ) fun i =>
    if (i : ℤ) < size then do
      clearPiece
      let (status,text) ← receiveMessage
      if ¬ status then return .inr false
      writePiece maxMailSize 0
      plain (tcp (.fileWrite (text.take maxMailSize)))
      return .inl (i + 1)
    else return .inr true

def receiveFile (savename : List Byte) : BufferProg Bool := do
  if (← plain getConnectedID) = -1 then return false
  match ← plain (awaitPieces .fileInfo) with
  | none => return false
  | some size =>
    plain (tcp (.fileCreate savename (size * maxMailSize)))
    let _ ← plain (openFile savename)
    filePieces size

/-- The payloads that arrive, as `PostalDelivery` checks them. -/
def Arriving (arrives : List Byte → Prop) (payload : List Byte) : Prop :=
  payload.length ≤ maxMailSize ∧ arrives payload

/-- The other operations may answer anything. -/
def arriving (arrives : List Byte → Prop) : Contract TcpOp TcpOp.Resp Unit where
  pre _ _ := True
  post op _ r _ := match op, r with
    | .noBlockReceive .msg _, r => ∀ mail : TcpMail, r = some mail → Arriving arrives mail.payload
    | _, _ => True

/-- Both arrays are `new char[MaxMailSize]`. -/
def inArrays {σ : Type*} (C : Contract TcpOp TcpOp.Resp σ) : Contract BufferOp BufferOp.Resp σ where
  pre op s := match op with
    | .tcp op => C.pre op s
    | .readIn _ i | .writePiece i _ => i < maxMailSize
  post op s r t := match op, r with
    | .tcp op, r => C.post op s r t
    | .readIn inData i, r => (∀ c : Byte, inData[i]? = some c → r = c) ∧ t = s
    | .writePiece _ _, _ => t = s

abbrev inBuffers (arrives : List Byte → Prop) : Contract BufferOp BufferOp.Resp Unit :=
  inArrays (arriving arrives)

/-- No execution leaves the arrays. -/
def StaysInside {α : Type} (arrives : List Byte → Prop) (p : BufferProg α) : Prop :=
  ∀ q t, Reaches (inBuffers arrives) p () q t → q.Allowed (inBuffers arrives) t

variable {arrives : List Byte → Prop} {α : Type}

theorem staysInside_iff {p : BufferProg α} :
    StaysInside arrives p ↔ p.Sat (inBuffers arrives) (fun _ _ => True) () := by
  rw [sat_iff_safe]
  exact ⟨fun h q t hr => ⟨h q t hr,fun _ _ => trivial⟩,fun h q t hr => (h q t hr).1⟩

section Arrays
variable {σ : Type*} {C : Contract TcpOp TcpOp.Resp σ} {s : σ}

theorem sat_plain {p : TcpProg α} {Q : α → σ → Prop} :
    (plain p).Sat (inArrays C) Q s ↔ p.Sat C Q s :=
  sat_lift (fun _ => Function.surjective_id) (fun _ _ => Iff.rfl) fun _ _ _ _ => Iff.rfl

theorem sat_readIn {inData : List Byte} {i : ℕ} {Q : Byte → σ → Prop} :
    (readIn inData i).Sat (inArrays C) Q s ↔
      i < maxMailSize ∧ ∀ c, (∀ d, inData[i]? = some d → c = d) → Q c s := by
  constructor
  · intro h
    exact ⟨h.1,fun c hc => h.2 c s ⟨hc,rfl⟩⟩
  · rintro ⟨hi,h⟩
    refine ⟨hi,?_⟩
    rintro c t ⟨hc,rfl⟩
    exact h c hc

theorem sat_writePiece {i : ℕ} {c : Byte} {Q : Unit → σ → Prop} :
    (writePiece i c).Sat (inArrays C) Q s ↔ i < maxMailSize ∧ Q () s := by
  constructor
  · intro h
    exact ⟨h.1,h.2 () s rfl⟩
  · rintro ⟨hi,h⟩
    refine ⟨hi,?_⟩
    rintro _ t rfl
    exact h

/-- The loop of `sprintf` stays inside up to a `NUL`. -/
theorem sat_sprintf {inData : List Byte} {Q : List Byte → σ → Prop}
    (hlen : inData.length = maxMailSize) :
    (sprintf inData).Sat (inArrays C) Q s ↔ 0 ∈ inData ∧ Q (inData.takeWhile (· ≠ 0)) s := by
  constructor
  · rintro ⟨I,hx,hbody⟩
    have hrest : ∀ rest text, inData = text ++ rest → I (text.length,text) s →
        0 ∈ rest ∧ Q (text ++ rest.takeWhile (· ≠ 0)) s := by
      intro rest
      induction rest with
      | nil =>
        intro text htext hI
        have hin := (sat_readIn.mp (sat_bind.mp (hbody _ s hI))).1
        rw [← hlen, htext, List.append_nil] at hin
        exact absurd hin (lt_irrefl _)
      | cons c rest ih =>
        intro text htext hI
        have hread := (sat_readIn.mp (sat_bind.mp (hbody _ s hI))).2 c (by simp [htext])
        have hnext := (sat_writePiece.mp (sat_bind.mp hread)).2
        by_cases hc : c = 0
        · rw [if_pos hc] at hnext
          subst hc
          refine ⟨List.mem_cons_self,?_⟩
          rw [List.takeWhile_cons_of_neg (by simp), List.append_nil]
          exact hnext
        · rw [if_neg hc] at hnext
          have hI' : I ((text ++ [c]).length,text ++ [c]) s := by
            rw [List.length_append]
            exact hnext
          obtain ⟨hmem,hq⟩ := ih (text ++ [c]) (by simp [htext]) hI'
          refine ⟨List.mem_cons_of_mem c hmem,?_⟩
          rwa [List.takeWhile_cons_of_pos (by simpa using hc), List.append_cons]
    exact hrest inData [] rfl hx
  · rintro ⟨hmem,hq⟩
    refine .iterate (fun x t => ∃ rest, inData = x.2 ++ rest ∧ x.1 = x.2.length ∧ 0 ∈ rest ∧
      Q (x.2 ++ rest.takeWhile (· ≠ 0)) t) ⟨inData,rfl,rfl,hmem,hq⟩ ?_
    rintro ⟨i,text⟩ t ⟨rest,htext,hi,hmem,hq⟩
    obtain rfl : i = text.length := hi
    cases rest with
    | nil => cases hmem
    | cons c rest =>
      have hin : text.length < maxMailSize := by simp [← hlen, htext]
      dsimp only at htext ⊢
      rw [sat_bind, sat_readIn]
      refine ⟨hin,fun c' hc' => ?_⟩
      obtain rfl : c' = c := hc' c (by simp [htext])
      rw [sat_bind, sat_writePiece]
      refine ⟨hin,?_⟩
      split
      case isTrue hc =>
        rw [List.takeWhile_cons_of_neg (by simpa using hc), List.append_nil] at hq
        exact hq
      case isFalse hc =>
        rw [List.takeWhile_cons_of_pos (by simpa using hc), List.append_cons] at hq
        exact ⟨rest,by simp [htext],by simp,(List.mem_cons.mp hmem).resolve_left (Ne.symm hc),hq⟩

theorem sat_clearPiece {Q : Unit → σ → Prop} :
    clearPiece.Sat (inArrays C) Q s ↔ Q () s := by
  constructor
  · rintro ⟨I,hx,hbody⟩
    have hround : ∀ j, j ≤ maxMailSize → I j s := by
      intro j hj
      induction j with
      | zero => exact hx
      | succ j ih =>
        have hgo := hbody j s (ih (Nat.le_of_succ_le hj))
        dsimp only at hgo
        rw [if_pos (show j < maxMailSize from hj)] at hgo
        exact (sat_writePiece.mp (sat_bind.mp hgo)).2
    have hend := hbody _ s (hround maxMailSize le_rfl)
    dsimp only at hend
    rw [if_neg (lt_irrefl _)] at hend
    exact hend
  · intro hq
    refine .iterate (fun _ t => Q () t) hq fun j t ht => ?_
    split
    case isTrue hj => exact sat_bind.mpr (sat_writePiece.mpr ⟨hj,ht⟩)
    case isFalse => exact ht

end Arrays

section Sat
variable {s : Unit}

theorem sat_getConnectedID {Q : ℤ → Unit → Prop} :
    getConnectedID.Sat (arriving arrives) Q s ↔ ∀ id, Q id s :=
  ⟨fun h id => h.2 id s trivial,fun h => ⟨trivial,fun id _ _ => h id⟩⟩

theorem sat_wait {Q : Bool → Unit → Prop} :
    wait.Sat (arriving arrives) Q s ↔ Q true s ∧ Q false s := by
  constructor
  · intro h
    have hflag := ((h.2 () s trivial).2 () s trivial).2
    exact ⟨hflag true s trivial,(hflag false s trivial).2 () s trivial⟩
  · rintro ⟨htrue,hfalse⟩
    refine ⟨trivial,fun _ _ _ => ⟨trivial,fun _ _ _ => ⟨trivial,?_⟩⟩⟩
    rintro (_ | _) _ _
    · exact ⟨trivial,fun _ _ _ => hfalse⟩
    · exact htrue

theorem sat_pollBox {box : PktType} {into : Destination} {Q : Option TcpMail → Unit → Prop} :
    (pollBox box into).Sat (arriving arrives) Q s ↔
      Q none s ∧ ∀ mail : TcpMail, (box = .msg → Arriving arrives mail.payload) →
        Q (some mail) s := by
  constructor
  · intro h
    cases box
    case msg => exact ⟨h.2 none s nofun,fun mail hmail => h.2 (some mail) s (by
      rintro _ ⟨⟩
      exact hmail rfl)⟩
    all_goals exact ⟨h.2 none s trivial,fun mail _ => h.2 (some mail) s trivial⟩
  · rintro ⟨hnone,hsome⟩
    refine ⟨trivial,?_⟩
    rintro (_ | mail) _ hr
    · exact hnone
    · refine hsome mail ?_
      rintro rfl
      exact hr mail rfl

theorem sat_catchWithAnswer {box : PktType} {out : Message} {q : Bool → Prop} :
    (catchWithAnswer box out).Sat (arriving arrives) (fun r _ => q (decide (r ≠ -2))) s ↔
      ∀ b, q b := by
  refine ⟨fun h => ?_,fun h => .of_forall (fun _ _ => trivial) fun _ _ => h _⟩
  obtain ⟨I,hx,hbody⟩ := h.2 [] s trivial
  -- a `STOP` in the first round, and `maxCatch` rounds in which nothing comes
  have hround : ∀ k, k ≤ maxCatch → I (k,0,[]) s := by
    intro k hk
    induction k with
    | zero => exact hx
    | succ k ih =>
      have hgo := hbody _ s (ih (Nat.le_of_succ_le hk))
      dsimp only at hgo
      rw [if_pos (show k < maxCatch from hk), sat_bind, sat_wait] at hgo
      have hpoll := sat_bind.mp hgo.2
      exact (sat_pollBox.mp hpoll).1
  have hstop := hbody _ s hx
  dsimp only at hstop
  rw [if_pos (show 0 < maxCatch by decide), sat_bind, sat_wait] at hstop
  have hquiet := hbody _ s (hround maxCatch le_rfl)
  dsimp only at hquiet
  rw [if_neg (lt_irrefl _)] at hquiet
  rintro (_ | _)
  · exact hstop.1
  · exact hquiet

theorem sat_answer {out : Message} {inData : List Byte} {q : Prop} :
    (answer out inData).Sat (inBuffers arrives) (fun _ _ => q) s ↔ q := by
  unfold answer
  split
  case isTrue =>
    rw [sat_bind, sat_readIn]
    constructor
    · rintro ⟨-,h⟩
      exact h (inData.headD 0) (by cases inData <;> simp)
    · intro h
      exact ⟨by decide,fun _ _ => h⟩
  case isFalse => exact Iff.rfl

theorem sat_receiveLoop {inData : List Byte} {out : Message} {q : Option (List Byte) → Prop} :
    (receiveLoop .msg inData out).Sat (inBuffers arrives) (fun r _ => q (r.map Prod.fst)) s ↔
      q none ∧ ∀ mail : TcpMail, Arriving arrives mail.payload →
        q (some (overwrite inData mail.payload)) := by
  constructor
  · rintro ⟨I,hx,hbody⟩
    have hround := hbody () s hx
    rw [sat_bind, sat_plain, sat_wait] at hround
    refine ⟨hround.1,fun mail hmail => ?_⟩
    have hpoll := sat_pollBox.mp (sat_plain.mp (sat_bind.mp hround.2))
    have hanswer := sat_bind.mp (hpoll.2 mail fun _ => hmail)
    refine sat_answer.mp (hanswer.mono ?_)
    intro out' u h
    exact h.2 () u trivial
  · rintro ⟨hnone,hsome⟩
    refine .iterate (fun _ _ => True) trivial fun _ t _ => ?_
    rw [sat_bind, sat_plain, sat_wait]
    refine ⟨hnone,?_⟩
    rw [if_neg Bool.false_ne_true, sat_bind, sat_plain, sat_pollBox]
    refine ⟨trivial,fun mail hmail => ?_⟩
    refine (sat_answer.mpr (hsome mail (hmail rfl))).bind ?_
    intro out' u h
    exact ⟨trivial,fun _ _ _ => h⟩

theorem sat_receiveWait {inData : List Byte} {out : Message} {q : Bool → List Byte → Prop} :
    (receiveWait .msg inData out).Sat (inBuffers arrives) (fun r _ => q r.1 r.2) s ↔
      q false inData ∧ ∀ mail : TcpMail, Arriving arrives mail.payload →
        ∀ b, q b (overwrite inData mail.payload) := by
  rw [receiveWait, sat_bind]
  refine Iff.trans ⟨fun h => h.mono ?_,fun h => h.mono ?_⟩
    (sat_receiveLoop (q := fun r => r.elim (q false inData) fun inData => ∀ b, q b inData))
  · rintro (_ | ⟨inData',out'⟩) u h
    · exact h
    · exact sat_catchWithAnswer.mp (sat_plain.mp (sat_bind.mp h))
  · rintro (_ | ⟨inData',out'⟩) u h
    · exact h
    · exact sat_bind.mpr (sat_plain.mpr (sat_catchWithAnswer.mpr h))

def Fits (payload : List Byte) : Prop := payload.length < maxMailSize ∨ 0 ∈ payload

theorem length_overwrite {payload : List Byte} (h : payload.length ≤ maxMailSize) :
    (overwrite (List.replicate maxMailSize 0) payload).length = maxMailSize := by
  simp only [overwrite, List.length_append, List.length_drop, List.length_replicate]
  omega

theorem mem_overwrite {payload : List Byte} :
    0 ∈ overwrite (List.replicate maxMailSize 0) payload ↔ Fits payload := by
  simp only [overwrite, List.mem_append, List.drop_replicate, List.mem_replicate, Fits, ne_eq,
    and_true, Nat.sub_eq_zero_iff_le, not_le]
  exact or_comm

theorem sat_finish {status : Bool} {inData : List Byte} {q : Bool → Prop}
    (hlen : inData.length = maxMailSize) :
    (do if ¬ status then plain (tcp (.setStoppingConnection false))
        return (status,← sprintf inData) : BufferProg (Bool × List Byte)).Sat (inBuffers arrives)
      (fun r _ => q r.1) s ↔ 0 ∈ inData ∧ q status := by
  have hcopy : ∀ u, (do return (status,← sprintf inData) : BufferProg (Bool × List Byte)).Sat
      (inBuffers arrives) (fun r _ => q r.1) u ↔ 0 ∈ inData ∧ q status := by
    intro u
    rw [sat_bind]
    exact sat_sprintf hlen
  cases status with
  | true => exact hcopy s
  | false => exact ⟨fun h => (hcopy s).mp (h.2 () s trivial),fun h => ⟨trivial,fun _ _ _ =>
      (hcopy s).mpr h⟩⟩

theorem sat_receiveMessage {q : Bool → Prop} :
    receiveMessage.Sat (inBuffers arrives) (fun r _ => q r.1) s ↔
      q false ∧ ∀ payload, Arriving arrives payload → Fits payload ∧ ∀ b, q b := by
  have hzeros : (List.replicate maxMailSize (0 : Byte)).length = maxMailSize :=
    List.length_replicate
  unfold receiveMessage
  rw [sat_bind, sat_plain, sat_getConnectedID]
  constructor
  · intro h
    have hid := h 0
    rw [if_neg (by decide), sat_bind, sat_plain, sat_getConnectedID] at hid
    have hwait := sat_bind.mp (hid 0)
    obtain ⟨hstop,hmail⟩ := (sat_receiveWait (q := fun b inData =>
      inData.length = maxMailSize → 0 ∈ inData ∧ q b)).mp
        (hwait.mono fun r u hr hlen => (sat_finish hlen).mp hr)
    refine ⟨(hstop hzeros).2,fun payload hpay => ?_⟩
    have hb := fun b => hmail ⟨0,payload,0,0⟩ hpay b (length_overwrite hpay.1)
    exact ⟨mem_overwrite.mp (hb false).1,fun b => (hb b).2⟩
  · rintro ⟨hfalse,hmail⟩ id
    split
    case isTrue => exact hfalse
    case isFalse =>
      rw [sat_bind, sat_plain, sat_getConnectedID]
      intro id'
      have hwait : (receiveWait .msg (List.replicate maxMailSize 0) (Message.short id' .ack)).Sat
          (inBuffers arrives) (fun r _ => r.2.length = maxMailSize ∧ 0 ∈ r.2 ∧ q r.1) s :=
        (sat_receiveWait (q := fun b inData => inData.length = maxMailSize ∧ 0 ∈ inData ∧ q b)).mpr
        ⟨⟨hzeros,List.mem_replicate.mpr ⟨by decide,rfl⟩,hfalse⟩,fun mail hpay b =>
          ⟨length_overwrite hpay.1,mem_overwrite.mpr (hmail _ hpay).1,(hmail _ hpay).2 b⟩⟩
      refine hwait.bind ?_
      rintro ⟨status,inData⟩ u ⟨hlen,hmem,hq⟩
      exact (sat_finish hlen).mpr ⟨hmem,hq⟩

theorem sat_stringPieces {size : ℤ} :
    (stringPieces size).Sat (inBuffers arrives) (fun _ _ => True) s ↔
      size ≤ 0 ∨ ∀ payload, Arriving arrives payload → Fits payload := by
  constructor
  · rintro ⟨I,hx,hbody⟩
    by_cases hsize : 0 < size
    · refine .inr fun payload hpay => ?_
      have hround := hbody _ s hx
      dsimp only at hround
      rw [if_pos (by exact hsize), sat_bind] at hround
      have hpiece := sat_bind.mp (sat_clearPiece.mp hround)
      exact ((sat_receiveMessage (q := fun _ => True)).mp
        (hpiece.mono fun _ _ _ => trivial)).2 payload hpay |>.1
    · exact .inl (not_lt.mp hsize)
  · intro hfits
    refine .iterate (fun _ _ => True) trivial ?_
    rintro ⟨i,result⟩ t -
    dsimp only
    split
    case isTrue hi =>
      have hall := hfits.resolve_left (by omega)
      rw [sat_bind, sat_clearPiece]
      refine ((sat_receiveMessage (q := fun _ => True)).mpr
        ⟨trivial,fun payload hpay => ⟨hall payload hpay,fun _ => trivial⟩⟩).bind ?_
      rintro ⟨_ | _,piece⟩ _ - <;> trivial
    case isFalse => trivial

theorem sat_filePieces {size : ℤ} :
    (filePieces size).Sat (inBuffers arrives) (fun _ _ => True) s ↔
      size ≤ 0 ∨ ∀ payload, ¬ Arriving arrives payload := by
  constructor
  · rintro ⟨I,hx,hbody⟩
    by_cases hsize : 0 < size
    · refine .inr fun payload hpay => ?_
      have hround := hbody _ s hx
      dsimp only at hround
      rw [if_pos (by exact hsize), sat_bind] at hround
      have hpiece := sat_bind.mp (sat_clearPiece.mp hround)
      -- behind a message the place `maxMailSize` of the piece is written
      have hb := ((sat_receiveMessage (q := fun b => b = false)).mp (hpiece.mono ?_)).2 payload hpay
      · exact Bool.noConfusion (hb.2 true)
      · rintro ⟨_ | _,text⟩ u h
        · rfl
        · exact absurd (sat_writePiece.mp (sat_bind.mp h)).1 (lt_irrefl _)
    · exact .inl (not_lt.mp hsize)
  · intro hnone
    refine .iterate (fun _ _ => True) trivial fun i t _ => ?_
    split
    case isTrue hi =>
      have hall := hnone.resolve_left (by omega)
      rw [sat_bind, sat_clearPiece]
      refine ((sat_receiveMessage (q := fun b => b = false)).mpr
        ⟨rfl,fun payload hpay => absurd hpay (hall payload)⟩).bind ?_
      rintro ⟨_,text⟩ v rfl
      trivial
    case isFalse => trivial

theorem receiveWait_info {type : PktType} (htype : type ≠ .msg) {inData : List Byte}
    {out : Message} {q : Bool → List Byte → Prop}
    (h : (Nachos.receiveWait type inData out).Sat (arriving arrives) (fun r _ => q r.1 r.2) s)
    (mail : TcpMail) : q true (overwrite inData mail.payload) := by
  obtain ⟨I,hx,hbody⟩ := sat_bind.mp h
  have hround := hbody () s hx
  rw [sat_bind, sat_wait] at hround
  have hmail := (sat_pollBox.mp (sat_bind.mp hround.2)).2 mail fun heq => absurd heq htype
  have hcaught : (do
      let caught ← catchWithAnswer type (out.answer (overwrite inData mail.payload))
      return (decide (caught ≠ -2),overwrite inData mail.payload) : TcpProg _).Sat
      (arriving arrives) (fun r _ => q r.1 r.2) s := hmail.2 () s trivial
  exact (sat_catchWithAnswer (q := fun b => q b (overwrite inData mail.payload))).mp
    (sat_bind.mp hcaught) true

theorem awaitPieces_one {type : PktType} (htype : type ≠ .msg) {q : Option ℤ → Prop}
    (h : (awaitPieces type).Sat (arriving arrives) (fun r _ => q r) s) : q (some 1) := by
  have hwait := sat_bind.mp (sat_getConnectedID.mp (sat_bind.mp h) 0)
  have hmail := receiveWait_info htype (q := fun status inData =>
    (0 : Byte) ∈ inData → status = true → q (some (Decimal.atoi (inData.takeWhile (· ≠ 0)))))
    (hwait.mono ?_) ⟨0,[49],0,0⟩
  · exact hmail (by decide) rfl
  · rintro ⟨status,inData⟩ u hr hmem hstatus
    obtain rfl : status = true := hstatus
    have hread := sat_bind.mp hr
    rw [readCString, if_pos hmem] at hread
    exact hread

end Sat

theorem staysInside_receiveMessage :
    StaysInside arrives receiveMessage ↔ ∀ payload, Arriving arrives payload → Fits payload := by
  rw [staysInside_iff]
  exact (sat_receiveMessage (q := fun _ => True)).trans (by simp)

theorem staysInside_receiveString :
    StaysInside arrives receiveString ↔ ∀ payload, Arriving arrives payload → Fits payload := by
  simp only [staysInside_iff, receiveString, sat_bind, sat_plain, sat_getConnectedID]
  constructor
  · intro h
    have hinfo : PktType.stringInfo ≠ .msg := by decide
    have hpieces := awaitPieces_one hinfo (q := fun size => ∀ n, size = some n →
      (stringPieces n).Sat (inBuffers arrives) (fun _ _ => True) ())
      ((sat_plain.mp (sat_bind.mp (h 0))).mono ?_)
    · exact (sat_stringPieces.mp (hpieces 1 rfl)).resolve_left (by decide)
    · rintro _ u hn n rfl
      exact hn
  · intro hfits id
    split
    case isTrue => trivial
    case isFalse =>
      refine sat_bind.mpr (sat_plain.mpr (.of_forall (fun _ _ => trivial) ?_))
      rintro (_ | n) u
      · trivial
      · exact sat_stringPieces.mpr (.inr hfits)

theorem staysInside_receiveFile {savename : List Byte} :
    StaysInside arrives (receiveFile savename) ↔ ∀ payload, ¬ Arriving arrives payload := by
  simp only [staysInside_iff, receiveFile, sat_bind, sat_plain, sat_getConnectedID]
  constructor
  · intro h
    have hinfo : PktType.fileInfo ≠ .msg := by decide
    have hpieces := awaitPieces_one hinfo (q := fun size => ∀ n, size = some n →
      (filePieces n).Sat (inBuffers arrives) (fun _ _ => True) ())
      ((sat_plain.mp (sat_bind.mp (h 0))).mono ?_)
    · exact (sat_filePieces.mp (hpieces 1 rfl)).resolve_left (by decide)
    · rintro _ u hn n rfl
      exact (hn.2 () u trivial).2 true u trivial
  · intro hnone id
    split
    case isTrue => trivial
    case isFalse =>
      refine sat_bind.mpr (sat_plain.mpr (.of_forall (fun _ _ => trivial) ?_))
      rintro (_ | n) u
      · trivial
      · exact ⟨trivial,fun _ _ _ => ⟨trivial,fun _ _ _ => sat_filePieces.mpr (.inr hnone)⟩⟩

/-! Where the payloads fit, the programs keep every contract that the ones without the
arrays keep. -/

section Refines
variable {σ : Type*} {C : Contract TcpOp TcpOp.Resp σ} {s : σ}

/-- An array that `sprintf` may copy. -/
structure Copyable (inData : List Byte) : Prop where
  length : inData.length = maxMailSize
  terminated : 0 ∈ inData

theorem copyable_zeros : Copyable (List.replicate maxMailSize 0) :=
  ⟨List.length_replicate,List.mem_replicate.mpr ⟨by decide,rfl⟩⟩

/-- The payloads of the messages that a contract lets arrive. -/
def Delivers (C : Contract TcpOp TcpOp.Resp σ) (P : List Byte → Prop) : Prop :=
  ∀ (into : Destination) (s t : σ) (mail : TcpMail),
    C.post (.noBlockReceive .msg into) s (some mail) t → P mail.payload

theorem refines_answer {out : Message} {inData : List Byte} {Q : Message → σ → Prop}
    (hlen : inData.length = maxMailSize) (h : Q (out.answer inData) s) :
    (answer out inData).Sat (inArrays C) Q s := by
  unfold answer
  rw [Message.answer] at h
  split
  case isTrue hack =>
    rw [if_pos hack] at h
    rw [sat_bind, sat_readIn]
    refine ⟨by decide,fun c hc => ?_⟩
    cases inData with
    | nil => cases hlen
    | cons d rest =>
      obtain rfl : c = d := hc d rfl
      exact h
  case isFalse hack =>
    rwa [if_neg hack] at h

theorem refines_receiveLoop {inData : List Byte} {out : Message}
    {Q : Option (List Byte × Message) → σ → Prop}
    (hC : Delivers C fun payload => Copyable (overwrite inData payload))
    (h : (Nachos.receiveLoop .msg inData out).Sat C Q s) :
    (receiveLoop .msg inData out).Sat (inArrays C)
      (fun r t => Q r t ∧ ∀ x, r = some x → Copyable x.1) s := by
  obtain ⟨I,hx,hbody⟩ := h
  refine ⟨I,hx,fun y t hy => ?_⟩
  have hround := hbody y t hy
  rw [sat_bind] at hround ⊢
  refine (sat_plain.mpr hround).mono ?_
  rintro (_ | _) u hu
  · refine ⟨hu.1,?_⟩
    rintro (_ | mail) v hr
    · exact hu.2 none v hr
    · have hcopy := hC _ _ _ _ hr
      have hsend := hu.2 (some mail) v hr
      refine (refines_answer (Q := fun out t => C.pre (.send out) t ∧ ∀ r w,
        C.post (.send out) t r w → Q (some (overwrite inData mail.payload,out)) w)
        hcopy.length hsend).bind ?_
      rintro out' w ⟨hpre,hpost⟩
      refine ⟨hpre,fun r x hr => ⟨hpost r x hr,?_⟩⟩
      rintro _ ⟨⟩
      exact hcopy
  · refine ⟨hu,?_⟩
    rintro _ ⟨⟩

theorem refines_receiveWait {inData : List Byte} {out : Message}
    {Q : Bool × List Byte → σ → Prop} (hin : Copyable inData)
    (hC : Delivers C fun payload => Copyable (overwrite inData payload))
    (h : (Nachos.receiveWait .msg inData out).Sat C Q s) :
    (receiveWait .msg inData out).Sat (inArrays C) (fun r t => Q r t ∧ Copyable r.2) s := by
  refine (refines_receiveLoop hC (sat_bind.mp h)).bind ?_
  rintro (_ | ⟨inData',out'⟩) t ⟨ht,hcopy⟩
  · exact ⟨ht,hin⟩
  · refine (sat_plain.mpr (sat_bind.mp ht)).bind ?_
    intro caught u hu
    exact ⟨hu,hcopy _ rfl⟩

theorem refines_receiveMessage {Q : Bool × List Byte → σ → Prop}
    (hC : Delivers C fun payload => payload.length ≤ maxMailSize ∧ Fits payload)
    (h : Nachos.receiveMessage.Sat C Q s) : receiveMessage.Sat (inArrays C) Q s := by
  have hzeros : Delivers C fun payload =>
      Copyable (overwrite (List.replicate maxMailSize 0) payload) := by
    intro into s t mail hr
    obtain ⟨hlen,hfits⟩ := hC into s t mail hr
    exact ⟨length_overwrite hlen,mem_overwrite.mpr hfits⟩
  refine (sat_plain.mpr (sat_bind.mp h)).bind fun id t ht => ?_
  split
  case isTrue hid =>
    rw [if_pos hid] at ht
    exact ht
  case isFalse hid =>
    rw [if_neg hid] at ht
    refine (sat_plain.mpr (sat_bind.mp ht)).bind fun id' u hu => ?_
    refine (refines_receiveWait copyable_zeros hzeros (sat_bind.mp hu)).bind ?_
    rintro ⟨status,inData⟩ v ⟨hv,hcopy⟩
    have hread : readCString inData = ret (inData.takeWhile (· ≠ 0)) := by
      rw [readCString, if_pos hcopy.terminated]
      rfl
    cases status with
    | true =>
      refine (sat_sprintf hcopy.length).mpr ⟨hcopy.terminated,?_⟩ |>.bind fun _ _ h => h
      dsimp only at hv
      rw [if_neg (by simp), hread] at hv
      exact hv
    | false =>
      dsimp only at hv
      rw [if_pos (by simp), hread] at hv
      refine ⟨hv.1,fun r w hr => ?_⟩
      exact ((sat_sprintf hcopy.length).mpr ⟨hcopy.terminated,hv.2 r w hr⟩).bind fun _ _ h => h

theorem refines_receiveString {Q : Option (List Byte) → σ → Prop}
    (hC : Delivers C fun payload => payload.length ≤ maxMailSize ∧ Fits payload)
    (h : Nachos.receiveString.Sat C Q s) : receiveString.Sat (inArrays C) Q s := by
  refine (sat_plain.mpr (sat_bind.mp h)).bind fun id t ht => ?_
  split
  case isTrue hid =>
    rw [if_pos hid] at ht
    exact ht
  case isFalse hid =>
    rw [if_neg hid] at ht
    refine (sat_plain.mpr (sat_bind.mp ht)).bind ?_
    rintro (_ | size) u hu
    · exact hu
    · obtain ⟨I,hx,hbody⟩ := hu
      refine ⟨I,hx,?_⟩
      rintro ⟨i,result⟩ v hv
      have hround := hbody _ v hv
      dsimp only at hround ⊢
      split
      case isTrue hi =>
        rw [if_pos hi] at hround
        rw [sat_bind, sat_clearPiece]
        refine (refines_receiveMessage hC (sat_bind.mp hround)).bind ?_
        rintro ⟨_ | _,piece⟩ w hw <;> exact hw
      case isFalse hi =>
        rw [if_neg hi] at hround
        exact hround

/-- The arrays with room for the `NUL` that `ReceiveFile` puts behind a piece. -/
def withRoom (C : Contract TcpOp TcpOp.Resp σ) : Contract BufferOp BufferOp.Resp σ where
  pre op s := match op with
    | .writePiece i _ => i ≤ maxMailSize
    | op => (inArrays C).pre op s
  post := (inArrays C).post

theorem sat_withRoom {p : BufferProg α} {Q : α → σ → Prop} (h : p.Sat (inArrays C) Q s) :
    p.Sat (withRoom C) Q s := by
  refine h.contract (fun op s hpre => ?_) fun _ _ _ _ hpost => hpost
  cases op with
  | tcp op => exact hpre
  | readIn inData i => exact hpre
  | writePiece i c => exact Nat.le_of_lt hpre

theorem refines_receiveFile {savename : List Byte} {Q : Bool → σ → Prop}
    (hC : Delivers C fun payload => payload.length ≤ maxMailSize ∧ Fits payload)
    (h : (Nachos.receiveFile savename).Sat C Q s) :
    (receiveFile savename).Sat (withRoom C) Q s := by
  refine (sat_withRoom (sat_plain.mpr (sat_bind.mp h))).bind fun id t ht => ?_
  split
  case isTrue hid =>
    rw [if_pos hid] at ht
    exact ht
  case isFalse hid =>
    rw [if_neg hid] at ht
    refine (sat_withRoom (sat_plain.mpr (sat_bind.mp ht))).bind ?_
    rintro (_ | size) u hu
    · exact hu
    · refine (sat_withRoom (sat_plain.mpr (sat_bind.mp hu))).bind fun _ v hv => ?_
      refine (sat_withRoom (sat_plain.mpr (sat_bind.mp hv))).bind fun _ w hw => ?_
      obtain ⟨I,hx,hbody⟩ := hw
      refine ⟨I,hx,fun i y hy => ?_⟩
      have hround := hbody i y hy
      dsimp only at hround ⊢
      split
      case isTrue hi =>
        rw [if_pos hi] at hround
        have hpiece := sat_withRoom (refines_receiveMessage hC (sat_bind.mp hround))
        refine (sat_withRoom (sat_clearPiece (Q := fun _ t => t = y) |>.mpr rfl)).bind ?_
        rintro _ _ rfl
        refine hpiece.bind ?_
        rintro ⟨_ | _,text⟩ x hx
        · exact hx
        · refine ⟨le_rfl,?_⟩
          rintro _ _ rfl
          exact sat_withRoom (sat_plain.mpr hx)
      case isFalse hi =>
        rw [if_neg hi] at hround
        exact hround

end Refines

/-- `ReceiveMessage` and `ReceiveString` stay inside the arrays just when each payload that
arrives is shorter than the arrays or has a `NUL`, and `ReceiveFile` just when none arrives. -/
theorem receiveBuffers (arrives : List Byte → Prop) (savename : List Byte) :
    (StaysInside arrives receiveMessage ↔ ∀ payload, Arriving arrives payload → Fits payload) ∧
    (StaysInside arrives receiveString ↔ ∀ payload, Arriving arrives payload → Fits payload) ∧
    (StaysInside arrives (receiveFile savename) ↔ ∀ payload, ¬ Arriving arrives payload) :=
  ⟨staysInside_receiveMessage,staysInside_receiveString,staysInside_receiveFile⟩

/-- A piece of `MaxMailSize` characters. -/
def fullPiece : List Byte := List.replicate maxMailSize 65

theorem not_staysInside : ¬ StaysInside (· = fullPiece) receiveMessage ∧
    ¬ StaysInside (· = fullPiece) receiveString ∧
    ¬ StaysInside (· = fullPiece) (receiveFile []) := by
  have harriving : Arriving (· = fullPiece) fullPiece := ⟨List.length_replicate.le,rfl⟩
  have hfits : ¬ Fits fullPiece := by
    unfold Fits
    decide
  rw [staysInside_receiveMessage, staysInside_receiveString, staysInside_receiveFile]
  exact ⟨fun h => hfits (h _ harriving),fun h => hfits (h _ harriving),fun h => h _ harriving⟩

end ReceiveBuffers

end Nachos
