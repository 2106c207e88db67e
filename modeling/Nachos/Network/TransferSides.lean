import Nachos.Network.TCP
import Mathlib.Data.List.GetD
import Mathlib.Data.List.TakeWhile
import Mathlib.Data.Nat.Digits.Lemmas

/-! # The two sides of a transfer

The sender announces the number of pieces and sends them one after the other, each until an ack
with its token is taken. The receiver takes an announcement and then as many pieces, and answers
with the token of what it has taken last.
-/
namespace Nachos

def messageOf (target : ℤ) (type : PktType) (pieces : List (List Byte)) : ℕ → Message
  | 0 =>
    let digits := Decimal.toString pieces.length
    ⟨target,type,digits ++ List.replicate (maxMailSize - digits.length) 0,maxMailSize⟩
  | k + 1 => ⟨target,.msg,pieces.getD k [],(pieces.getD k []).length⟩

theorem length_toString_lt {n : ℕ} (h : IsInt n) : (Decimal.toString n).length < maxMailSize := by
  have hlt : n < 10 ^ 10 := by
    unfold IsInt at h
    omega
  unfold Decimal.toString
  split_ifs
  · decide
  · rw [List.length_map, List.length_reverse]
    exact ((Nat.digits_length_le_iff (by decide) n).mpr hlt).trans_lt (by decide)

theorem announcement {target : ℤ} {type : PktType} {pieces : List (List Byte)}
    (h : IsInt pieces.length) {zeros : List Byte} (hzeros : zeros = List.replicate maxMailSize 0) :
    0 ∈ overwrite zeros (messageOf target type pieces 0).payload ∧ Decimal.atoi
      ((overwrite zeros (messageOf target type pieces 0).payload).takeWhile (· ≠ 0)) =
        pieces.length := by
  have hlen := length_toString_lt h
  generalize hdigits : Decimal.toString pieces.length = digits at hlen
  have hpayload : (messageOf target type pieces 0).payload =
      digits ++ List.replicate (maxMailSize - digits.length) 0 := by
    rw [messageOf, hdigits, Message.payload]
    refine List.take_of_length_le ?_
    change (digits ++ _).length ≤ maxMailSize
    rw [List.length_append, List.length_replicate]
    omega
  have hall : overwrite zeros (messageOf target type pieces 0).payload =
      digits ++ List.replicate (maxMailSize - digits.length) 0 := by
    rw [overwrite, hpayload, hzeros, List.drop_eq_nil_of_le, List.append_nil]
    rw [List.length_append, List.length_replicate, List.length_replicate]
    omega
  rw [hall]
  obtain ⟨m,hm⟩ := Nat.exists_eq_add_of_lt hlen
  have hrest : List.replicate (maxMailSize - digits.length) (0 : Byte) =
      0 :: List.replicate m 0 := by
    rw [← List.replicate_succ]
    congr 1
    omega
  rw [hrest]
  refine ⟨List.mem_append_right _ List.mem_cons_self,?_⟩
  have hdigit : ∀ c ∈ digits, decide (c ≠ 0) = true := by
    intro c hc
    have := Decimal.isDigit_toString (hdigits ▸ hc)
    refine decide_eq_true ?_
    rintro rfl
    exact absurd this (by decide)
  rw [List.takeWhile_append_of_pos hdigit, List.takeWhile_cons_of_neg (by decide), ← hdigits]
  exact Decimal.atoi_toString pieces.length (by simp)

/-- The messages answered, whether an ack did not fit, whether the next message has been sent, and
the pauses made. -/
structure Sending where
  answered : ℕ
  failed : Bool
  sent : Bool
  pauses : ℕ

namespace Sending

/-- Taking an ack for a message. -/
def take (out : Message) (mail : TcpMail) (s : Sending) : Sending :=
  if Follows (firstChar out.data) (firstChar mail.payload) then
    { s with answered := s.answered + 1, sent := false }
  else { s with failed := true }

/-- The messages are sent in order, the next one when the last one has been answered, and an ack is
taken for one that has been sent. -/
def sends (message : ℕ → Message) (count : ℕ) (target : ℤ) :
    Contract TcpOp TcpOp.Resp Sending where
  pre op s := match op with
    | .send m => s.failed = false ∧ s.answered < count ∧ m = message s.answered ∧
        s.pauses = s.answered - 1
    | .noBlockReceive box .message => box = .ack ∧ s.failed = false ∧ s.sent = true ∧
        s.answered < count
    | .noBlockReceive box .dull => box = .ack
    | .setConnectedID _ | .stopSemV | .receive _ => False
    | _ => True
  post op s r t := match op with
    | .connectedID => r = target ∧ t = s
    | .send _ => t = { s with sent := true }
    | .schedule ticks => t = if ticks = pauseTicks then { s with pauses := s.pauses + 1 } else s
    | .noBlockReceive _ .message =>
      match r with
      | none => t = s
      | some mail => t = s.take (message s.answered) mail
    | _ => t = s

section Sends
variable {message : ℕ → Message} {count : ℕ} {target : ℤ} {s : Sending}

theorem sat_getConnectedID :
    getConnectedID.Sat (sends message count target) (fun r t => r = target ∧ t = s) s :=
  ⟨trivial,fun _ _ h => h⟩

theorem sat_isStopping : isStopping.Sat (sends message count target) (fun _ t => t = s) s :=
  ⟨trivial,fun _ _ h => h⟩

theorem sat_wait : wait.Sat (sends message count target) (fun _ t => t = s) s := by
  refine ⟨trivial,fun _ t ht => ?_⟩
  obtain rfl : t = s := ht.trans (if_neg (by decide))
  refine ⟨trivial,?_⟩
  rintro - _ rfl
  refine ⟨trivial,?_⟩
  rintro b _ rfl
  cases b with
  | true => rfl
  | false => exact ⟨trivial,fun _ _ h => h⟩

theorem sat_catchMail (expected : ℤ) :
    (catchMail .ack expected).Sat (sends message count target) (fun _ t => t = s) s := by
  refine Prog.Sat.iterate (fun _ t => t = s) rfl ?_
  rintro ⟨attempts,nbCatch⟩ _ rfl
  dsimp only
  split
  · refine sat_wait.bind ?_
    rintro b _ rfl
    split
    · rfl
    · refine Prog.Sat.bind (Q := fun _ t => t = _) ⟨rfl,fun _ _ h => h⟩ ?_
      rintro (_ | mail) _ rfl
      · rfl
      · dsimp only
        split <;> rfl
  · rfl

theorem sat_clearStop : clearStop.Sat (sends message count target) (fun _ _ => True) s := by
  refine sat_isStopping.bind fun b t _ => ?_
  cases b with
  | true => exact ⟨trivial,fun _ _ _ => trivial⟩
  | false => trivial

/-- A message is sent until an ack is taken, and `true` says that the ack was for it. -/
theorem sat_sendWait {out : Message} {c : Byte} {cs : List Byte} {limit : ℕ}
    (hf : s.failed = false) (hcount : s.answered < count) (hpauses : s.pauses = s.answered - 1)
    (hout : out = message s.answered) (hdata : out.data = c :: cs) :
    (sendWait out .ack [0,0] limit).Sat (sends message count target)
      (fun r t => r = true → t = { s with answered := s.answered + 1, sent := false }) s := by
  have hloop : (sendLoop out .ack [0,0] limit).Sat (sends message count target)
      (fun r t => ∀ attempts inData, r = some (attempts,inData) → attempts ≠ limit →
        ∃ mail : TcpMail, inData = overwrite [0,0] mail.payload ∧
          t = { s with sent := true }.take out mail) s := by
    refine Prog.Sat.iterate (fun attempts t => attempts ≤ limit ∧
      ∃ b, t = { s with sent := b }) ⟨Nat.zero_le _,s.sent,rfl⟩ ?_
    rintro attempts _ ⟨hle,_,rfl⟩
    split
    case isTrue hlt =>
      refine ⟨⟨hf,hcount,hout,hpauses⟩,?_⟩
      rintro - _ rfl
      refine sat_wait.bind ?_
      rintro b _ rfl
      split
      · rintro _ _ ⟨⟩
      · refine ⟨⟨rfl,hf,rfl,hcount⟩,?_⟩
        rintro (_ | mail) t ht
        · exact ⟨hlt,true,ht⟩
        · rintro _ _ ⟨⟩ -
          exact ⟨mail,rfl,by rw [hout]; exact ht⟩
    case isFalse hlt =>
      rintro _ _ ⟨⟩ hne
      omega
  refine hloop.bind ?_
  rintro (_ | ⟨attempts,inData⟩) t htaken
  · rintro ⟨⟩
  refine (sat_catchMail attempts).bind ?_
  rintro _ _ rfl
  refine sat_isStopping.bind ?_
  rintro b _ rfl
  split
  · rintro ⟨⟩
  rw [hdata, charZero]
  intro hr
  obtain ⟨hne,hfollows⟩ := of_decide_eq_true hr
  obtain ⟨mail,rfl,ht⟩ := htaken attempts inData rfl hne
  have hfirst : firstChar (overwrite [0,0] mail.payload) = firstChar mail.payload := by
    cases hp : mail.payload <;> rfl
  rw [ht, take, if_pos]
  rw [hdata, ← hfirst]
  exact hfollows

variable {type : PktType} {pieces : List (List Byte)}

theorem sat_sendMessage {piece : List Byte} {k : ℕ} (hne : piece ≠ [])
    (hpiece : pieces.getD k [] = piece) (hk : k + 1 < count) :
    (sendMessage piece).Sat (sends (messageOf target type pieces) count target)
      (fun r t => r = true → t = ⟨k + 2,false,false,k⟩) ⟨k + 1,false,false,k⟩ := by
  obtain ⟨c,cs,hcs⟩ := List.exists_cons_of_ne_nil hne
  refine sat_getConnectedID.bind ?_
  rintro _ _ ⟨rfl,rfl⟩
  split
  · rintro ⟨⟩
  refine sat_getConnectedID.bind ?_
  rintro id _ ⟨rfl,rfl⟩
  have hout : (⟨id,.msg,piece,piece.length⟩ : Message) = messageOf id type pieces (k + 1) := by
    rw [messageOf, hpiece]
  refine (sat_sendWait rfl hk rfl hout hcs).bind ?_
  intro value t ht
  cases value with
  | true => exact ht
  | false =>
    refine sat_clearStop.bind fun _ _ _ => ?_
    rintro ⟨⟩

theorem sat_announce :
    (announce type pieces.length).Sat
      (sends (messageOf target type pieces) (pieces.length + 1) target)
      (fun r t => r = true → t = ⟨1,false,false,0⟩) ⟨0,false,false,0⟩ := by
  refine sat_getConnectedID.bind ?_
  rintro id _ ⟨rfl,rfl⟩
  obtain ⟨c,cs,hcs⟩ := List.exists_cons_of_ne_nil (Decimal.toString_ne_nil pieces.length)
  have hdata : (messageOf id type pieces 0).data = c :: (cs ++
      List.replicate (maxMailSize - (Decimal.toString pieces.length).length) 0) := by
    rw [messageOf, hcs, List.cons_append]
  have hout : messageOf id type pieces 0 =
    messageOf id type pieces (⟨0,false,false,0⟩ : Sending).answered := rfl
  refine (sat_sendWait rfl (Nat.succ_pos _) rfl hout hdata).bind ?_
  intro value t ht
  cases value with
  | true => exact ht
  | false =>
    refine sat_clearStop.bind fun _ _ _ => ?_
    rintro ⟨⟩

theorem sat_pause : pause.Sat (sends message count target)
    (fun _ t => t = { s with pauses := s.pauses + 1 }) s := by
  refine ⟨trivial,fun _ t ht => ?_⟩
  obtain rfl : t = { s with pauses := s.pauses + 1 } := ht.trans (if_pos rfl)
  refine ⟨trivial,?_⟩
  rintro - _ rfl
  exact ⟨trivial,fun _ _ h => h⟩

theorem sat_sendString {data : List Byte} (hcut : cutString data = some pieces)
    (hne : ∀ piece ∈ pieces, piece ≠ []) :
    (sendString data).Sat (sends (messageOf target .stringInfo pieces) (pieces.length + 1) target)
      (fun r t => r = true → t.answered = pieces.length + 1 ∧ t.failed = false)
      ⟨0,false,false,0⟩ := by
  refine sat_getConnectedID.bind ?_
  rintro _ _ ⟨rfl,rfl⟩
  split
  · rintro ⟨⟩
  rw [hcut]
  refine sat_announce.bind ?_
  intro value t ht
  cases value with
  | false => rintro ⟨⟩
  | true =>
    refine Prog.Sat.iterate (fun rest t => ∃ k ≤ pieces.length, rest = pieces.drop k ∧
      t = ⟨k + 1,false,false,k⟩) ⟨0,Nat.zero_le _,rfl,ht rfl⟩ ?_
    rintro rest _ ⟨k,hk,hrest,rfl⟩
    cases rest with
    | nil =>
      have := List.drop_eq_nil_iff.mp hrest.symm
      obtain rfl : k = pieces.length := Nat.le_antisymm hk this
      exact fun _ => ⟨rfl,rfl⟩
    | cons piece rest =>
      have hlt : k < pieces.length := by
        by_contra hge
        rw [List.drop_eq_nil_of_le (Nat.le_of_not_lt hge)] at hrest
        cases hrest
      have hget : pieces.getD k [] = piece := by
        rw [List.getD_eq_getElem _ _ hlt]
        rw [List.drop_eq_getElem_cons hlt] at hrest
        exact (List.cons.inj hrest).1.symm
      have hmem : piece ∈ pieces := by
        rw [← hget, List.getD_eq_getElem _ _ hlt]
        exact List.getElem_mem hlt
      refine (sat_sendMessage (hne piece hmem) hget (Nat.succ_lt_succ hlt)).bind ?_
      intro sent t ht
      cases sent with
      | false => rintro ⟨⟩
      | true =>
        obtain rfl := ht rfl
        refine sat_pause.bind ?_
        rintro _ _ rfl
        refine ⟨k + 1,hlt,?_,rfl⟩
        rw [← List.tail_drop, ← hrest]
        rfl

end Sends

end Sending

namespace Receiving

def ackTo (sender : ℤ) (mail : TcpMail) : Message :=
  ⟨sender,.ack,[firstChar mail.payload + 1,0],2⟩

/-- A mail is taken out of the box for announcements, and after it mails out of that for messages;
what is sent is the ack to the mail taken last, and only a box that a mail has been taken out of is
emptied. -/
def receives (sender : ℤ) (type : PktType) :
    Contract TcpOp TcpOp.Resp (List (PktType × TcpMail)) where
  pre op s := match op with
    | .send m => ∃ x, s.getLast? = some x ∧ m = ackTo sender x.2
    | .noBlockReceive box .message => box = if s = [] then type else .msg
    | .noBlockReceive box .dull => ∃ x ∈ s, x.1 = box
    | .setConnectedID _ | .stopSemV | .receive _ => False
    | _ => True
  post op s r t := match op with
    | .connectedID => r = sender ∧ t = s
    | .noBlockReceive box .message =>
      match r with
      | none => t = s
      | some mail => t = s ++ [(box,mail)]
    | _ => t = s

section Receives
variable {sender : ℤ} {type : PktType} {s : List (PktType × TcpMail)}

theorem sat_getConnectedID :
    getConnectedID.Sat (receives sender type) (fun r t => r = sender ∧ t = s) s :=
  ⟨trivial,fun _ _ h => h⟩

theorem sat_wait : wait.Sat (receives sender type) (fun _ t => t = s) s := by
  refine ⟨trivial,?_⟩
  rintro - _ rfl
  refine ⟨trivial,?_⟩
  rintro - _ rfl
  refine ⟨trivial,?_⟩
  rintro b _ rfl
  cases b with
  | true => rfl
  | false => exact ⟨trivial,fun _ _ h => h⟩

theorem sat_readCString (data : List Byte) : (readCString data).Sat (receives sender type)
    (fun r t => t = s ∧ (0 ∈ data → r = data.takeWhile (· ≠ 0)) ∧
      r.take data.length = data.takeWhile (· ≠ 0)) s := by
  unfold readCString
  split
  · exact ⟨rfl,fun _ => rfl,List.take_of_length_le (List.takeWhile_sublist _).length_le⟩
  case isFalse h0 =>
    refine ⟨trivial,?_⟩
    rintro bytes _ rfl
    refine ⟨rfl,fun h => absurd h h0,?_⟩
    rw [List.take_left, List.takeWhile_eq_self_iff.mpr]
    intro c hc
    exact decide_eq_true fun hc0 => h0 (hc0 ▸ hc)

theorem sat_catchWithAnswer {box : PktType} {x : PktType × TcpMail} (hx : s.getLast? = some x)
    (hbox : x.1 = box) :
    (catchWithAnswer box (ackTo sender x.2)).Sat (receives sender type) (fun _ t => t = s) s := by
  refine ⟨trivial,?_⟩
  rintro dull _ rfl
  refine Prog.Sat.iterate (fun _ t => t = _) rfl ?_
  rintro ⟨attempts,nbCatch,dull⟩ _ rfl
  dsimp only
  split
  · refine sat_wait.bind ?_
    rintro b _ rfl
    split
    · rfl
    · refine Prog.Sat.bind (Q := fun _ t => t = _)
        ⟨⟨x,List.mem_of_getLast? hx,hbox⟩,fun _ _ h => h⟩ ?_
      rintro (_ | mail) _ rfl
      · rfl
      · dsimp only
        split
        · exact ⟨⟨x,hx,rfl⟩,fun _ _ h => h⟩
        · rfl
  · rfl

theorem firstChar_overwrite (payload : List Byte) :
    firstChar (overwrite (List.replicate maxMailSize 0) payload) = firstChar payload := by
  cases payload <;> rfl

theorem length_overwrite {payload : List Byte} (h : payload.length ≤ maxMailSize) :
    (overwrite (List.replicate maxMailSize 0) payload).length = maxMailSize := by
  rw [overwrite, List.length_append, List.length_drop, List.length_replicate]
  omega

theorem takeWhile_overwrite (payload : List Byte) :
    (overwrite (List.replicate maxMailSize 0) payload).takeWhile (· ≠ 0) =
      payload.takeWhile (· ≠ 0) := by
  rw [overwrite, List.drop_replicate]
  generalize maxMailSize - payload.length = n
  induction payload with
  | nil => cases n <;> rfl
  | cons c cs ih =>
    rw [List.cons_append, List.takeWhile_cons, List.takeWhile_cons, ih]

theorem sat_receiveWait {box : PktType} (hbox : box = if s = [] then type else .msg) :
    (receiveWait box (List.replicate maxMailSize 0) (Message.short sender .ack)).Sat
      (receives sender type) (fun r t => r.1 = true → ∃ mail : TcpMail, t = s ++ [(box,mail)] ∧
        r.2 = overwrite (List.replicate maxMailSize 0) mail.payload) s := by
  have hloop : (receiveLoop box (List.replicate maxMailSize 0) (Message.short sender .ack)).Sat
      (receives sender type) (fun r t => ∀ inData out, r = some (inData,out) →
        ∃ mail : TcpMail, t = s ++ [(box,mail)] ∧ out = ackTo sender mail ∧
          inData = overwrite (List.replicate maxMailSize 0) mail.payload) s := by
    refine Prog.Sat.iterate (fun _ t => t = s) rfl ?_
    rintro _ _ rfl
    refine sat_wait.bind ?_
    rintro b _ rfl
    split
    · rintro _ _ ⟨⟩
    · refine ⟨hbox,?_⟩
      rintro (_ | mail) t ht
      · exact ht
      · obtain rfl : t = _ ++ [(box,mail)] := ht
        have hout : (Message.short sender .ack).answer
            (overwrite (List.replicate maxMailSize 0) mail.payload) = ackTo sender mail := by
          have htype : (Message.short sender .ack).type = .ack := rfl
          rw [Message.answer, if_pos htype, firstChar_overwrite]
          rfl
        refine ⟨⟨(box,mail),List.getLast?_concat,hout⟩,?_⟩
        rintro - _ rfl
        rintro _ _ ⟨⟩
        exact ⟨mail,rfl,hout,rfl⟩
  refine hloop.bind ?_
  rintro (_ | ⟨inData,out⟩) t ht
  · rintro ⟨⟩
  obtain ⟨mail,rfl,rfl,rfl⟩ := ht inData out rfl
  refine (sat_catchWithAnswer (x := (box,mail)) List.getLast?_concat rfl).bind ?_
  rintro caught _ rfl
  exact fun _ => ⟨mail,rfl,rfl⟩

theorem sat_receiveMessage (hs : s ≠ []) : receiveMessage.Sat (receives sender type)
    (fun r t => r.1 = true → ∃ mail : TcpMail, t = s ++ [(.msg,mail)] ∧
      (mail.payload.length ≤ maxMailSize →
        r.2.take maxMailSize = mail.payload.takeWhile (· ≠ 0))) s := by
  refine sat_getConnectedID.bind ?_
  rintro _ _ ⟨rfl,rfl⟩
  split
  · rintro ⟨⟩
  refine sat_getConnectedID.bind ?_
  rintro _ _ ⟨rfl,rfl⟩
  refine (sat_receiveWait (if_neg hs).symm).bind ?_
  rintro ⟨status,inData⟩ t ht
  cases status with
  | false =>
    refine ⟨trivial,?_⟩
    rintro - _ rfl
    refine (sat_readCString inData).bind ?_
    rintro _ _ -
    rintro ⟨⟩
  | true =>
    obtain ⟨mail,rfl,hdata⟩ := ht rfl
    obtain rfl : inData = _ := hdata
    refine (sat_readCString _).bind ?_
    rintro text _ ⟨rfl,-,htext⟩
    refine fun _ => ⟨mail,rfl,fun hlen => ?_⟩
    rw [length_overwrite hlen] at htext
    rw [htext, takeWhile_overwrite]

theorem sat_awaitPieces : (awaitPieces type).Sat (receives sender type)
    (fun r t => ∀ size, r = some size → ∃ mail : TcpMail, t = [(type,mail)] ∧
      (0 ∈ overwrite (List.replicate maxMailSize 0) mail.payload → size = Decimal.atoi
        ((overwrite (List.replicate maxMailSize 0) mail.payload).takeWhile (· ≠ 0)))) [] := by
  refine sat_getConnectedID.bind ?_
  rintro _ _ ⟨rfl,rfl⟩
  refine (sat_receiveWait (if_pos rfl).symm).bind ?_
  rintro ⟨status,inData⟩ t ht
  cases status with
  | false => rintro _ ⟨⟩
  | true =>
    obtain ⟨mail,rfl,hdata⟩ := ht rfl
    obtain rfl : inData = _ := hdata
    refine (sat_readCString _).bind ?_
    rintro text _ ⟨rfl,htext,-⟩
    rintro _ ⟨⟩
    exact ⟨mail,rfl,fun h0 => by rw [htext h0]⟩

/-- An announcement and as many mails as it says. -/
def Taken (type : PktType) (s : List (PktType × TcpMail)) : Prop :=
  ∃ (mail : TcpMail) (mails : List TcpMail), s = (type,mail) :: mails.map (.msg,·) ∧
    (0 ∈ overwrite (List.replicate maxMailSize 0) mail.payload → mails.length = (Decimal.atoi
      ((overwrite (List.replicate maxMailSize 0) mail.payload).takeWhile (· ≠ 0))).toNat)

theorem sat_receiveString : receiveString.Sat (receives sender .stringInfo)
    (fun r t => r ≠ none → Taken .stringInfo t) [] := by
  refine sat_getConnectedID.bind ?_
  rintro _ _ ⟨rfl,rfl⟩
  split
  · exact fun h => absurd rfl h
  refine sat_awaitPieces.bind ?_
  rintro (_ | size) t ht
  · exact fun h => absurd rfl h
  obtain ⟨mail,rfl,hsize⟩ := ht size rfl
  refine Prog.Sat.iterate (fun (x : ℕ × List Byte) t => x.1 ≤ size.toNat ∧
    ∃ mails : List TcpMail, t = (.stringInfo,mail) :: mails.map (.msg,·) ∧ mails.length = x.1)
    ⟨Nat.zero_le _,[],rfl,rfl⟩ ?_
  rintro ⟨i,result⟩ _ ⟨hi,mails,rfl,hlen⟩
  dsimp only at hi hlen ⊢
  split
  · refine (sat_receiveMessage (List.cons_ne_nil _ _)).bind ?_
    rintro ⟨status,piece⟩ t ht
    cases status with
    | false => exact fun h => absurd rfl h
    | true =>
      obtain ⟨next,rfl,-⟩ := ht rfl
      refine ⟨by dsimp only; omega,mails ++ [next],?_,?_⟩
      · rw [List.map_append]
        rfl
      · rw [List.length_append, hlen]
        rfl
  · refine fun _ => ⟨mail,mails,rfl,fun h0 => ?_⟩
    rw [← hsize h0]
    omega

end Receives

end Receiving

end Nachos
