import Nachos.Network.AckTokens
import Nachos.Network.Dialogue

/-! # Acks on the side that sends them

Whatever a thread does, it sends an ack only to the mail it has just taken into a message, and
again to a mail that looks like a copy of it.
-/
namespace Nachos
open Prog

/-- The box and the first byte of the mail taken last, and whether it is to be answered. -/
structure Duty where
  known : Option (PktType × Byte)
  due : Bool

namespace Duty

/-- A mail that may be a copy of the one taken last. -/
def isCopy (box : PktType) (mail : TcpMail) (s : Duty) : Bool :=
  mail.payload = [] ∨ s.known = some (box,firstChar mail.payload)

def take (box : PktType) (into : Destination) (mail : TcpMail) (s : Duty) : Duty :=
  if box = .ack then s
  else match into with
    | .message => ⟨some (box,firstChar mail.payload),true⟩
    | .dull => { s with due := s.isCopy box mail }

theorem take_ack (into : Destination) (mail : TcpMail) (s : Duty) : s.take .ack into mail = s :=
  if_pos rfl

theorem take_message {box : PktType} (h : box ≠ .ack) (mail : TcpMail) (s : Duty) :
    s.take box .message mail = ⟨some (box,firstChar mail.payload),true⟩ := if_neg h

theorem take_dull {box : PktType} (h : box ≠ .ack) (mail : TcpMail) (s : Duty) :
    s.take box .dull mail = { s with due := s.isCopy box mail } := if_neg h

end Duty

/-- An ack is sent when it is due, and copies are looked for in the box of the mail taken last. -/
def answering : Contract TcpOp TcpOp.Resp Duty where
  pre op s := match op with
    | .send m => m.type = .ack → s.due = true ∧ ∃ box c, s.known = some (box,c) ∧
        m.payload ≠ [] ∧ firstChar m.payload = c + 1
    | .noBlockReceive box .dull => box = .ack ∨ ∃ c, s.known = some (box,c)
    | .receive box => box ≠ .ack
    | _ => True
  post op s r t := match op with
    | .send m => t = if m.type = .ack then { s with due := false } else s
    | .noBlockReceive box into => t = Option.elim r s (s.take box into)
    | .receive box => t = s.take box .message r
    | _ => t = s

/-- A thread has no ack to send, and looks for no copies of a mail of this kind. -/
def Unconcerned {α : Type} (box : PktType) (c : Byte) (p : TcpProg α) : Prop :=
  ∃ known, known ≠ some (box,c) ∧ p.Sat answering (fun _ _ => True) ⟨known,false⟩

namespace Answering
variable {s : Duty} {box : PktType} {known : Option (PktType × Byte)}

theorem sat_getConnectedID : getConnectedID.Sat answering (fun _ t => t = s) s :=
  ⟨trivial,fun _ _ h => h⟩

theorem sat_openFile (name : List Byte) : (openFile name).Sat answering (fun _ t => t = s) s :=
  ⟨trivial,fun _ _ h => h⟩

theorem sat_fileLength : fileLength.Sat answering (fun _ t => t = s) s := ⟨trivial,fun _ _ h => h⟩

theorem sat_readFile (numBytes : ℕ) : (readFile numBytes).Sat answering (fun _ t => t = s) s :=
  ⟨trivial,fun _ _ h => h⟩

theorem sat_isStopping : isStopping.Sat answering (fun _ t => t = s) s := ⟨trivial,fun _ _ h => h⟩

theorem sat_wait : wait.Sat answering (fun _ t => t = s) s := by
  refine ⟨trivial,?_⟩
  rintro - _ rfl
  refine ⟨trivial,?_⟩
  rintro - _ rfl
  refine ⟨trivial,?_⟩
  rintro b _ rfl
  cases b with
  | true => rfl
  | false => exact ⟨trivial,fun _ _ h => h⟩

theorem sat_charZero (data : List Byte) : (charZero data).Sat answering (fun _ t => t = s) s := by
  cases data with
  | nil => exact ⟨trivial,fun _ _ h => h⟩
  | cons c data => exact rfl

theorem sat_readCString (data : List Byte) :
    (readCString data).Sat answering (fun _ t => t = s) s := by
  unfold readCString
  split
  · exact rfl
  · exact ⟨trivial,fun _ _ h => h⟩

theorem sat_pollBox {into : Destination} (h : answering.pre (.noBlockReceive box into) s) :
    (pollBox box into).Sat answering (fun r t => t = r.elim s (s.take box into)) s :=
  ⟨h,fun _ _ ht => ht⟩

theorem sat_pollAck (into : Destination) :
    (pollBox .ack into).Sat answering (fun _ t => t = s) s := by
  have hpre : answering.pre (.noBlockReceive .ack into) s := by
    cases into with
    | message => trivial
    | dull => exact .inl rfl
  refine (sat_pollBox hpre).mono ?_
  rintro (_ | mail) t ht
  · exact ht
  · rw [ht, Option.elim_some, Duty.take_ack]

theorem sat_catchMail (expected : ℤ) :
    (catchMail .ack expected).Sat answering (fun _ t => t = s) s := by
  refine Prog.Sat.iterate (fun _ t => t = s) rfl ?_
  rintro ⟨attempts,nbCatch⟩ _ rfl
  dsimp only
  split
  · refine sat_wait.bind ?_
    rintro b _ rfl
    split
    · rfl
    · refine (sat_pollAck .dull).bind ?_
      rintro (_ | mail) _ rfl
      · rfl
      · dsimp only
        split <;> rfl
  · rfl

theorem sat_sendWait {out : Message} (hout : out.type ≠ .ack) (inData : List Byte) (limit : ℕ) :
    (sendWait out .ack inData limit).Sat answering (fun _ t => t = s) s := by
  have hloop : (sendLoop out .ack inData limit).Sat answering (fun _ t => t = s) s := by
    refine Prog.Sat.iterate (fun _ t => t = s) rfl ?_
    rintro attempts s rfl
    split
    · refine ⟨fun h => absurd h hout,fun _ t ht => ?_⟩
      obtain rfl : t = s := Eq.trans ht (if_neg hout)
      refine sat_wait.bind ?_
      rintro b _ rfl
      split
      · rfl
      · refine (sat_pollAck .message).bind ?_
        rintro (_ | mail) _ rfl <;> rfl
    · rfl
  refine hloop.bind ?_
  rintro (_ | ⟨attempts,inData⟩) _ rfl
  · rfl
  refine (sat_catchMail attempts).bind ?_
  rintro _ _ rfl
  refine sat_isStopping.bind ?_
  rintro b _ rfl
  split
  · rfl
  · refine (sat_charZero out.data).bind ?_
    rintro _ _ rfl
    rfl

theorem copy_of_follows {c : Byte} {dull payload : List Byte}
    (h : Follows (firstChar (overwrite dull payload)) (c + 1)) :
    payload = [] ∨ firstChar payload = c := by
  cases payload with
  | nil => exact .inl rfl
  | cons d rest => exact .inr (Dialogue.token_of_follows h).symm

/-- Copies of the mail taken last are answered as it was. -/
theorem sat_catchWithAnswer {c : Byte} {out : Message} (hbox : box ≠ .ack)
    (hnil : out.payload ≠ []) (hpayload : firstChar out.payload = c + 1)
    (hdata : firstChar out.data = c + 1) {due : Bool} : (catchWithAnswer box out).Sat answering
      (fun _ t => t.known = some (box,c)) ⟨some (box,c),due⟩ := by
  refine ⟨trivial,?_⟩
  rintro dull _ rfl
  refine Prog.Sat.iterate (fun _ t => t.known = some (box,c)) rfl ?_
  rintro ⟨attempts,nbCatch,dull⟩ s hs
  dsimp only
  split
  · refine sat_wait.bind ?_
    rintro b s rfl
    split
    · exact hs
    · have hpre : answering.pre (.noBlockReceive box .dull) s := .inr ⟨c,hs⟩
      refine (sat_pollBox hpre).bind ?_
      rintro (_ | mail) _ rfl
      · exact hs
      · rw [Option.elim_some, Duty.take_dull hbox]
        dsimp only
        split
        case isTrue hfollows =>
          rw [hdata] at hfollows
          refine ⟨fun _ => ⟨decide_eq_true ?_,box,c,hs,hnil,hpayload⟩,fun _ t ht => ?_⟩
          · rcases copy_of_follows hfollows with h | h
            · exact .inl h
            · exact .inr (h ▸ hs)
          · obtain rfl : t = _ := ht
            dsimp only [Sum.elim]
            split <;> exact hs
        case isFalse => exact hs
  · exact hs

theorem firstChar_overwrite {inData payload : List Byte} (h : firstChar inData = 0) :
    firstChar (overwrite inData payload) = firstChar payload := by
  cases payload with
  | nil => exact h
  | cons c rest => rfl

theorem payload_ack {out : Message} {c : Byte} (hdata : out.data = [c,0]) (hlength : 0 < out.length) :
    out.payload ≠ [] ∧ firstChar out.payload = c := by
  obtain ⟨rest,hrest⟩ := payload_head hdata hlength
  rw [hrest]
  exact ⟨List.cons_ne_nil _ _,rfl⟩

theorem sat_receiveWait {inData : List Byte} {out : Message} (hbox : box ≠ .ack)
    (hzero : firstChar inData = 0) (htype : out.type = .ack) (hlength : 0 < out.length) :
    (receiveWait box inData out).Sat answering (fun _ _ => True) s := by
  have hloop : (receiveLoop box inData out).Sat answering
      (fun r t => ∀ inData' out', r = some (inData',out') → ∃ c, t.known = some (box,c) ∧
        out'.payload ≠ [] ∧ firstChar out'.payload = c + 1 ∧ firstChar out'.data = c + 1) s := by
    refine Prog.Sat.iterate (fun _ _ => True) trivial ?_
    rintro - s -
    refine sat_wait.bind ?_
    rintro b s rfl
    split
    · rintro _ _ ⟨⟩
    · have hpre : answering.pre (.noBlockReceive box .message) s := trivial
      refine (sat_pollBox hpre).bind ?_
      rintro (_ | mail) _ rfl
      · trivial
      · rw [Option.elim_some, Duty.take_message hbox]
        have hanswer : out.answer (overwrite inData mail.payload) =
            { out with data := [firstChar mail.payload + 1,0] } := by
          rw [Message.answer, if_pos htype, firstChar_overwrite hzero]
        dsimp only
        rw [hanswer]
        have hack : ({ out with data := [firstChar mail.payload + 1,0] } : Message).payload ≠ [] ∧
            firstChar ({ out with data := [firstChar mail.payload + 1,0] } : Message).payload =
              firstChar mail.payload + 1 := payload_ack rfl hlength
        obtain ⟨hnil,hfirst⟩ := hack
        refine ⟨fun _ => ⟨rfl,box,_,rfl,hnil,hfirst⟩,fun _ t ht => ?_⟩
        obtain rfl : t = _ := Eq.trans ht (if_pos htype)
        rintro _ _ ⟨⟩
        exact ⟨_,rfl,hnil,hfirst,rfl⟩
  refine hloop.bind ?_
  rintro (_ | ⟨inData',out'⟩) t ht
  · trivial
  · obtain ⟨c,hknown,hnil,hpayload,hdata⟩ := ht _ _ rfl
    obtain ⟨known,due⟩ := t
    obtain rfl : known = some (box,c) := hknown
    exact (sat_catchWithAnswer hbox hnil hpayload hdata).bind fun _ _ _ => trivial

theorem sat_clearStop : clearStop.Sat answering (fun _ t => t = s) s := by
  refine sat_isStopping.bind ?_
  rintro b _ rfl
  cases b with
  | false => rfl
  | true => exact ⟨trivial,fun _ _ h => h⟩

theorem sat_sendMessage (data : List Byte) :
    (sendMessage data).Sat answering (fun _ t => t = s) s := by
  refine sat_getConnectedID.bind ?_
  rintro _ _ rfl
  split
  · rfl
  refine sat_getConnectedID.bind ?_
  rintro _ _ rfl
  refine (sat_sendWait (by simp) _ _).bind ?_
  rintro value _ rfl
  split
  · refine sat_clearStop.bind ?_
    rintro _ _ rfl
    rfl
  · rfl

theorem sat_announce {type : PktType} (htype : type ≠ .ack) (nbPieces : ℕ) :
    (announce type nbPieces).Sat answering (fun _ t => t = s) s := by
  refine sat_getConnectedID.bind ?_
  rintro _ _ rfl
  refine (sat_sendWait htype _ _).bind ?_
  rintro value _ rfl
  split
  · refine sat_clearStop.bind ?_
    rintro _ _ rfl
    rfl
  · rfl

theorem sat_pause : pause.Sat answering (fun _ t => t = s) s := by
  refine ⟨trivial,?_⟩
  rintro - _ rfl
  refine ⟨trivial,?_⟩
  rintro - _ rfl
  exact ⟨trivial,fun _ _ h => h⟩

theorem sat_receiveMessage : receiveMessage.Sat answering (fun _ _ => True) s := by
  refine sat_getConnectedID.bind ?_
  rintro _ _ rfl
  split
  · trivial
  refine sat_getConnectedID.bind ?_
  rintro _ _ rfl
  refine (sat_receiveWait (by decide) (by rfl) (by rfl) (by exact Nat.succ_pos 1)).bind ?_
  rintro ⟨status,inData⟩ s -
  dsimp only
  split
  · refine ⟨trivial,?_⟩
    rintro - _ rfl
    exact (sat_readCString inData).bind fun _ _ _ => trivial
  · exact (sat_readCString inData).bind fun _ _ _ => trivial

theorem sat_awaitPieces {type : PktType} (htype : type ≠ .ack) :
    (awaitPieces type).Sat answering (fun _ _ => True) s := by
  refine sat_getConnectedID.bind ?_
  rintro _ _ rfl
  refine (sat_receiveWait htype (by rfl) (by rfl) (by exact Nat.succ_pos 1)).bind ?_
  rintro ⟨status,inData⟩ s -
  dsimp only
  split
  · trivial
  · exact (sat_readCString inData).bind fun _ _ _ => trivial

theorem sat_sendString (data : List Byte) :
    (sendString data).Sat answering (fun _ _ => True) s := by
  refine sat_getConnectedID.bind ?_
  rintro _ s rfl
  split
  · trivial
  split
  · exact ⟨trivial,fun undefined => nomatch undefined⟩
  refine (sat_announce (by decide) _).bind ?_
  rintro value s rfl
  split
  · trivial
  refine Prog.Sat.iterate (fun _ t => t = s) rfl ?_
  rintro (_ | ⟨piece,rest⟩) s rfl
  · trivial
  refine (sat_sendMessage piece).bind ?_
  rintro sent s rfl
  split
  · trivial
  · refine sat_pause.bind ?_
    rintro _ s rfl
    rfl

theorem sat_receiveString : receiveString.Sat answering (fun _ _ => True) s := by
  refine sat_getConnectedID.bind ?_
  rintro _ s rfl
  split
  · trivial
  refine (sat_awaitPieces (by decide)).bind ?_
  rintro (_ | size) s -
  · trivial
  refine Prog.Sat.iterate (fun _ _ => True) trivial ?_
  rintro ⟨i,result⟩ s -
  dsimp only
  split
  · refine sat_receiveMessage.bind ?_
    rintro ⟨status,piece⟩ s -
    dsimp only
    split <;> trivial
  · trivial

theorem sat_sendFile (filename : List Byte) :
    (sendFile filename).Sat answering (fun _ _ => True) s := by
  refine sat_getConnectedID.bind ?_
  rintro _ s rfl
  split
  · trivial
  refine (sat_openFile filename).bind ?_
  rintro opened s rfl
  split
  · trivial
  refine sat_fileLength.bind ?_
  rintro length s rfl
  refine (sat_announce (by decide) _).bind ?_
  rintro value s rfl
  split
  · trivial
  refine Prog.Sat.iterate (fun _ t => t = s) rfl ?_
  rintro i s rfl
  split
  · refine (sat_readFile maxMailSize).bind ?_
    rintro bytes s rfl
    refine (sat_sendMessage _).bind ?_
    rintro sent s rfl
    split
    · trivial
    · refine sat_pause.bind ?_
      rintro _ s rfl
      rfl
  · trivial

theorem sat_receiveFile (savename : List Byte) :
    (receiveFile savename).Sat answering (fun _ _ => True) s := by
  refine sat_getConnectedID.bind ?_
  rintro _ s rfl
  split
  · trivial
  refine (sat_awaitPieces (by decide)).bind ?_
  rintro (_ | size) s -
  · trivial
  refine ⟨trivial,?_⟩
  rintro - s rfl
  refine (sat_openFile savename).bind ?_
  rintro opened s rfl
  refine Prog.Sat.iterate (fun _ _ => True) trivial ?_
  rintro i s -
  split
  · refine sat_receiveMessage.bind ?_
    rintro ⟨status,text⟩ s -
    dsimp only
    split
    · trivial
    · exact ⟨trivial,fun _ _ _ => trivial⟩
  · trivial

theorem sat_syncWithMachine (id targetMachine : ℤ) :
    (syncWithMachine id targetMachine).Sat answering (fun _ _ => True) s := by
  refine sat_getConnectedID.bind ?_
  rintro _ s rfl
  split
  · trivial
  refine (sat_sendWait (by simp) _ _).bind ?_
  rintro value s rfl
  split
  · refine (sat_receiveWait (by decide) (by rfl) (by rfl) ?_).bind ?_
    · dsimp only
      split <;> decide
    rintro _ s -
    refine ⟨trivial,?_⟩
    rintro - s rfl
    exact sat_getConnectedID.mono fun _ _ _ => trivial
  · exact sat_getConnectedID.mono fun _ _ _ => trivial

theorem sat_firstAck {α : Type} {mail : TcpMail} {f : ℤ → TcpProg α} (hbox : box ≠ .ack)
    (hf : ∀ n s, (f n).Sat answering (fun _ _ => True) s) :
    (tcp (.send (firstAck mail)) >>= fun _ => catchWithAnswer box (firstAck mail) >>= f).Sat
      answering (fun _ _ => True) (s.take box .message mail) := by
  have hdata : (firstAck mail).data = [firstChar mail.payload + 1,0] := by
    rw [firstAck, firstChar_overwrite rfl]
  obtain ⟨hnil,hfirst⟩ := payload_ack hdata (Nat.succ_pos 1)
  rw [Duty.take_message hbox]
  refine ⟨fun _ => ⟨rfl,box,_,rfl,hnil,hfirst⟩,fun _ t ht => ?_⟩
  obtain rfl : t = _ := ht
  refine (sat_catchWithAnswer hbox hnil hfirst ?_).bind fun n t _ => hf n t
  rw [hdata]
  rfl

theorem sat_openConnection (id : ℤ) :
    (openConnection id).Sat answering (fun _ _ => True) s := by
  refine sat_getConnectedID.bind ?_
  rintro _ s rfl
  split
  · trivial
  refine ⟨nofun,fun mail t ht => ?_⟩
  obtain rfl : t = _ := ht
  refine sat_firstAck (by decide) fun _ s => ?_
  refine (sat_sendWait (by simp) _ _).bind ?_
  rintro value s rfl
  split
  · refine ⟨trivial,?_⟩
    rintro - s rfl
    exact sat_getConnectedID.mono fun _ _ _ => trivial
  · exact sat_getConnectedID.mono fun _ _ _ => trivial

theorem sat_endConnection (id : ℤ) :
    (endConnection id).Sat answering (fun _ _ => True) s := by
  refine sat_getConnectedID.bind ?_
  rintro _ s rfl
  split
  · trivial
  refine sat_getConnectedID.bind ?_
  rintro target s rfl
  refine ⟨trivial,?_⟩
  rintro - s rfl
  refine (sat_sendWait (by simp) _ _).bind ?_
  rintro value s rfl
  have hret : (retValue value).Sat answering (fun _ t => t = s) s := by
    cases value with
    | false => rfl
    | true => exact sat_getConnectedID
  refine hret.bind ?_
  rintro retVal s rfl
  refine sat_getConnectedID.bind ?_
  rintro id s rfl
  split
  · exact ⟨trivial,fun _ _ _ => trivial⟩
  · trivial

theorem sat_call (id : ℤ) (c : TcpCall) : (c.prog id).Sat answering (fun _ _ => True) s := by
  cases c with
  | syncWithMachine target => exact (sat_syncWithMachine id target).bind fun _ _ _ => trivial
  | openConnection => exact (sat_openConnection id).bind fun _ _ _ => trivial
  | endConnection => exact (sat_endConnection id).bind fun _ _ _ => trivial
  | sendString data => exact (sat_sendString data).bind fun _ _ _ => trivial
  | receiveString => exact sat_receiveString.bind fun _ _ _ => trivial
  | sendFile filename => exact (sat_sendFile filename).bind fun _ _ _ => trivial
  | receiveFile savename => exact (sat_receiveFile savename).bind fun _ _ _ => trivial

theorem sat_listen : listenForEndConnection.Sat answering (fun _ _ => True) s := by
  refine ⟨nofun,fun mail t ht => ?_⟩
  obtain rfl : t = _ := ht
  refine sat_firstAck (by decide) fun _ s => ?_
  refine ⟨trivial,?_⟩
  rintro - s rfl
  exact ⟨trivial,fun _ _ _ => trivial⟩

end Answering

end Nachos
