import Nachos.Library.Interaction
import Nachos.Library.Decimal
import Nachos.Network.Post

/-! # The reliable post office

`tcp.cc`, function by function, as programs over the fields, semaphores and mailboxes of a
`TCPostOffice`. The bytes a program reads but has not written come from `memory`, and
undefined behaviour is a `crash`.
-/
namespace Nachos

def tempo : ℕ := 10000
def maxReemissions : ℕ := 200
def maxConnectionReemissions : ℕ := 50
def maxCatch : ℕ := 20

/-- The pause of `SendString` and `SendFile` between two pieces. -/
def pauseTicks : ℕ := maxCatch * tempo

inductive PktType where
  | msg | stringInfo | fileInfo | processInfo | sync | ack | stop
  deriving DecidableEq, Repr

/-- A mail as the functions here see it; the mail header has the length of the payload. The
last two fields record which call of its sender the mail is from, and how many pauses that
call had made. -/
structure TcpMail where
  fromAddr : ℤ
  payload : List Byte
  call : ℕ
  piece : ℕ
  deriving DecidableEq, Repr

structure Message where
  toAddr : ℤ
  type : PktType
  data : List Byte
  length : ℕ

/-- The bytes `Send` reads. -/
def Message.payload (m : Message) : List Byte := m.data.take m.length

/-- Where a mail is copied to: the message received, or `dull`. -/
inductive Destination where
  | message | dull
  deriving DecidableEq, Repr

inductive TcpOp where
  | connectedID
  | setConnectedID (id : ℤ)
  | stoppingConnection
  | setStoppingConnection (b : Bool)
  /-- `interrupt->Schedule(WakeUpHandler,..)` -/
  | schedule (ticks : ℕ)
  | stopSemP
  | stopSemV
  | waitSemP
  | send (m : Message)
  | noBlockReceive (box : PktType) (into : Destination)
  | receive (box : PktType)
  | fileOpen (name : List Byte)
  | fileLength
  | fileRead (numBytes : ℕ)
  | fileCreate (name : List Byte) (size : ℤ)
  | fileWrite (data : List Byte)
  /-- An array that has not been written to. -/
  | memory
  /-- What lies behind an array. -/
  | behind
  | crash

def TcpOp.Resp : TcpOp → Type
  | connectedID => ℤ
  | stoppingConnection => Bool
  | noBlockReceive _ _ => Option TcpMail
  | receive _ => TcpMail
  | fileOpen _ => Bool
  | fileLength => ℕ
  | fileRead _ => List Byte
  | memory => List Byte
  | behind => List Byte
  | crash => Empty
  | _ => Unit

abbrev TcpProg := Prog TcpOp TcpOp.Resp

open Prog

def tcp (op : TcpOp) : TcpProg op.Resp := perform op

/-- What an array holds after a payload has been copied to its front. -/
def overwrite (data payload : List Byte) : List Byte := payload ++ data.drop payload.length

def firstChar (data : List Byte) : Byte := data.headD 0

def memory : TcpProg (List Byte) := tcp .memory

def behind : TcpProg (List Byte) := tcp .behind

def getConnectedID : TcpProg ℤ := tcp .connectedID

def isStopping : TcpProg Bool := tcp .stoppingConnection

def receiveBox (box : PktType) : TcpProg TcpMail := tcp (.receive box)

def pollBox (box : PktType) (into : Destination) : TcpProg (Option TcpMail) :=
  tcp (.noBlockReceive box into)

def openFile (name : List Byte) : TcpProg Bool := tcp (.fileOpen name)

def fileLength : TcpProg ℕ := tcp .fileLength

def readFile (numBytes : ℕ) : TcpProg (List Byte) := tcp (.fileRead numBytes)

/-- `data[0]`, also of an array of length 0. -/
def charZero (data : List Byte) : TcpProg Byte :=
  match data with
  | [] => do return firstChar (← behind)
  | c :: _ => return c

/-- The characters in front of the first `NUL`, which may lie behind the array. -/
def readCString (data : List Byte) : TcpProg (List Byte) :=
  if 0 ∈ data then return data.takeWhile (· ≠ 0)
  else do return data ++ (← behind).takeWhile (· ≠ 0)

/-- Whether one character is the successor of the other, compared as `int`. -/
def Follows (c d : Byte) : Prop := c.toInt + 1 = d.toInt

instance (c d : Byte) : Decidable (Follows c d) := inferInstanceAs (Decidable (_ = _))

/-- The wait in front of a look into a mailbox; `true` when it ends at a `STOP`, before
`waitSem->P()`. -/
def wait : TcpProg Bool := do
  tcp (.schedule tempo)
  tcp .stopSemP
  if ← isStopping then return true
  tcp .waitSemP
  return false

def catchMail (boxeID : PktType) (expected : ℤ) : TcpProg ℤ :=
  iterate ((0 : ℕ),(0 : ℤ)) fun (attempts,nbCatch) =>
    if attempts < maxCatch ∧ nbCatch < expected then do
      if ← wait then return .inr (-2)
      match ← pollBox boxeID .dull with
      | some _ =>
        if nbCatch + 1 = expected then return .inr (nbCatch + 1)
        else return .inl (0,nbCatch + 1)
      | none => return .inl (attempts + 1,nbCatch)
    else return .inr nbCatch

/-- The loop of `SendWait`: the attempts and `in->data`, or `none` at a `STOP`. -/
def sendLoop (out : Message) (inType : PktType) (inData : List Byte) (limit : ℕ) :
    TcpProg (Option (ℕ × List Byte)) :=
  iterate (0 : ℕ) fun attempts =>
    if attempts < limit then do
      tcp (.send out)
      if ← wait then return .inr none
      match ← pollBox inType .message with
      | some mail => return .inr (some (attempts,overwrite inData mail.payload))
      | none => return .inl (attempts + 1)
    else return .inr (some (attempts,inData))

def sendWait (out : Message) (inType : PktType) (inData : List Byte) (limit : ℕ) :
    TcpProg Bool := do
  match ← sendLoop out inType inData limit with
  | none => return false
  | some (attempts,inData) =>
    let _ ← catchMail inType attempts
    if ← isStopping then return false
    let sent ← charZero out.data
    return attempts ≠ limit ∧ Follows sent (firstChar inData)

def catchWithAnswer (boxeID : PktType) (out : Message) : TcpProg ℤ := do
  let dull ← memory
  iterate ((0 : ℕ),(0 : ℤ),dull) fun (attempts,nbCatch,dull) =>
    if attempts < maxCatch then do
      if ← wait then return .inr (-2)
      match ← pollBox boxeID .dull with
      | some mail =>
        let dull := overwrite dull mail.payload
        if Follows (firstChar dull) (firstChar out.data) then do
          tcp (.send out)
          return .inl (0,nbCatch + 1,dull)
        else return .inr nbCatch
      | none => return .inl (attempts + 1,nbCatch,dull)
    else return .inr nbCatch

/-- The ack to a message: its first character, incremented. -/
def Message.answer (out : Message) (inData : List Byte) : Message :=
  if out.type = .ack then { out with data := [firstChar inData + 1,0] } else out

/-- The loop of `ReceiveWait`: `in->data` and `out`, or `none` at a `STOP`. -/
def receiveLoop (inType : PktType) (inData : List Byte) (out : Message) :
    TcpProg (Option (List Byte × Message)) :=
  iterate () fun _ => do
    if ← wait then return .inr none
    match ← pollBox inType .message with
    | some mail =>
      let inData := overwrite inData mail.payload
      let out := out.answer inData
      tcp (.send out)
      return .inr (some (inData,out))
    | none => return .inl ()

/-- The result, and what stands in `in->data`. -/
def receiveWait (inType : PktType) (inData : List Byte) (out : Message) :
    TcpProg (Bool × List Byte) := do
  match ← receiveLoop inType inData out with
  | none => return (false,inData)
  | some (inData,out) =>
    let caught ← catchWithAnswer inType out
    return (caught ≠ -2,inData)

/-! The functions for the user. -/

/-- `(char) 64 + id`, as it is assigned to a `char`. -/
def token (id : ℤ) : Byte := BitVec.ofInt 8 (64 + id)

def Message.short (toAddr : ℤ) (type : PktType) : Message := ⟨toAddr,type,[0,0],2⟩

def syncWithMachine (id targetMachine : ℤ) : TcpProg ℤ := do
  if (← getConnectedID) ≠ -1 then return -1
  -- `strlen(outSync->data)+1`
  let length := if token id = 0 then 1 else 2
  let outSync : Message := ⟨targetMachine,.sync,[token id,0],length⟩
  let outAck : Message := ⟨targetMachine,.ack,[0,0],length⟩
  if ← sendWait outSync .ack [0,0] maxConnectionReemissions then do
    let _ ← receiveWait .sync [0,0] outAck
    tcp (.setConnectedID targetMachine)
  getConnectedID

def openConnection (id : ℤ) : TcpProg ℤ := do
  if (← getConnectedID) ≠ -1 then return -1
  let mail ← receiveBox .sync
  let inData := overwrite [0,0] mail.payload
  let outAck : Message := ⟨mail.fromAddr,.ack,[firstChar inData + 1,0],2⟩
  let outSync : Message := ⟨mail.fromAddr,.sync,[token id,0],2⟩
  tcp (.send outAck)
  let _ ← catchWithAnswer .sync outAck
  if ← sendWait outSync .ack inData maxConnectionReemissions then
    tcp (.setConnectedID outSync.toAddr)
  getConnectedID

/-- `retVal` in `EndConnection`. -/
def retValue (acknowledged : Bool) : TcpProg ℤ :=
  if acknowledged then getConnectedID else return -1

def endConnection (id : ℤ) : TcpProg ℤ := do
  if (← getConnectedID) = -1 then return -1
  let outEnd : Message := ⟨← getConnectedID,.stop,[token id,0],2⟩
  tcp (.setStoppingConnection false)
  let acknowledged ← sendWait outEnd .ack [0,0] maxConnectionReemissions
  let retVal ← retValue acknowledged
  if retVal = (← getConnectedID) then tcp (.setConnectedID (-1))
  return retVal

def listenForEndConnection : TcpProg Unit := do
  let mail ← receiveBox .stop
  let out : Message := ⟨mail.fromAddr,.ack,[firstChar (overwrite [0,0] mail.payload) + 1,0],2⟩
  tcp (.send out)
  let _ ← catchWithAnswer .stop out
  tcp (.setStoppingConnection true)
  tcp .stopSemV

/-- What `SendMessage`, `SendString` and `SendFile` do when they did not get an ack. -/
def clearStop : TcpProg Unit := do
  if ← isStopping then tcp (.setStoppingConnection false)

/-- The argument is given without its `NUL`. -/
def sendMessage (data : List Byte) : TcpProg Bool := do
  if (← getConnectedID) = -1 then return false
  let out : Message := ⟨← getConnectedID,.msg,data,data.length⟩
  let value ← sendWait out .ack [0,0] maxReemissions
  if ¬ value then clearStop
  return value

/-- The result, and the string written to `data`. -/
def receiveMessage : TcpProg (Bool × List Byte) := do
  if (← getConnectedID) = -1 then return (false,[])
  let out := Message.short (← getConnectedID) .ack
  let (status,inData) ← receiveWait .msg (List.replicate maxMailSize 0) out
  if ¬ status then tcp (.setStoppingConnection false)
  return (status,← readCString inData)

/-- `size` bytes in pieces of a mail each. -/
def nbPieces (size : ℕ) : ℕ := size / maxMailSize + if size % maxMailSize = 0 then 0 else 1

/-- The pieces `CutString` writes to an array that has one place for each of them. -/
def cutString (s : List Byte) : Option (List (List Byte)) :=
  let pieces := nbPieces s.length
  if pieces = 0 then none
  else some ((List.range (pieces - 1)).map (fun i => (s.drop (i * maxMailSize)).take maxMailSize) ++
    [s.drop ((pieces - 1) * maxMailSize)])

/-- The number of pieces, announced in a mail of maximal length. -/
def announce (type : PktType) (nbPieces : ℕ) : TcpProg Bool := do
  let digits := Decimal.toString nbPieces
  let info : Message :=
    ⟨← getConnectedID,type,digits ++ List.replicate (maxMailSize - digits.length) 0,maxMailSize⟩
  let value ← sendWait info .ack [0,0] maxReemissions
  if ¬ value then clearStop
  return value

def pause : TcpProg Unit := do
  tcp (.schedule pauseTicks)
  tcp .stopSemP
  tcp .waitSemP

def sendString (data : List Byte) : TcpProg Bool := do
  if (← getConnectedID) = -1 then return false
  match cutString data with
  | none =>
    let undefined : Empty ← tcp .crash
    nomatch undefined
  | some msgList =>
    if ¬ (← announce .stringInfo msgList.length) then return false
    iterate msgList fun
      | [] => return .inr true
      | piece :: rest => do
        if ¬ (← sendMessage piece) then return .inr false
        pause
        return .inl rest

/-- The number of pieces the other side announces, or `none` at a `STOP`. -/
def awaitPieces (type : PktType) : TcpProg (Option ℤ) := do
  let out := Message.short (← getConnectedID) .ack
  let (status,inData) ← receiveWait type (List.replicate maxMailSize 0) out
  if ¬ status then return none
  return some (Decimal.atoi (← readCString inData))

/-- The string received, if one is. -/
def receiveString : TcpProg (Option (List Byte)) := do
  if (← getConnectedID) = -1 then return none
  match ← awaitPieces .stringInfo with
  | none => return none
  | some size =>
    iterate ((0 : ℕ),([] : List Byte)) fun (i,result) =>
      if (i : ℤ) < size then do
        let (status,piece) ← receiveMessage
        if ¬ status then return .inr none
        return .inl (i + 1,result ++ piece)
      else return .inr (some result)

def sendFile (filename : List Byte) : TcpProg Bool := do
  if (← getConnectedID) = -1 then return false
  let opened ← openFile filename
  if ¬ opened then return false
  let length ← fileLength
  if ¬ (← announce .fileInfo (nbPieces length)) then return false
  iterate (0 : ℕ) fun i =>
    if i < nbPieces length then do
      let bytes ← readFile maxMailSize
      -- the buffer ends in `NUL`
      if ¬ (← sendMessage (bytes.takeWhile (· ≠ 0))) then return .inr false
      pause
      return .inl (i + 1)
    else return .inr true

def receiveFile (savename : List Byte) : TcpProg Bool := do
  if (← getConnectedID) = -1 then return false
  match ← awaitPieces .fileInfo with
  | none => return false
  | some size =>
    tcp (.fileCreate savename (size * maxMailSize))
    let _ ← openFile savename
    iterate (0 : ℕ) fun i =>
      if (i : ℤ) < size then do
        let (status,text) ← receiveMessage
        if ¬ status then return .inr false
        -- `buffer[MaxMailSize] = '\0'`
        tcp (.fileWrite (text.take maxMailSize))
        return .inl (i + 1)
      else return .inr true

/-! What the functions do not do: the connection, the semaphores and the blocking `Receive`
belong to the functions that open, end and watch a connection. -/

/-- The operations of the transfers and of the private functions. -/
def TcpOp.Plain : TcpOp → Prop
  | .setConnectedID _ | .stopSemV | .receive _ => False
  | .setStoppingConnection b => b = false
  | _ => True

/-- Those of them that do not touch the file system. -/
def TcpOp.Mailing : TcpOp → Prop
  | .fileOpen _ | .fileLength | .fileRead _ | .fileCreate _ _ | .fileWrite _ => False
  | op => op.Plain

theorem TcpOp.Mailing.plain {op : TcpOp} (h : op.Mailing) : op.Plain := by
  cases op with
  | fileOpen | fileLength | fileRead | fileCreate | fileWrite => exact h.elim
  | connectedID | setConnectedID | stoppingConnection | setStoppingConnection | schedule | stopSemP
    | stopSemV | waitSemP | send | noBlockReceive | receive | memory | behind | crash => exact h

section Mailing

theorem mailing_op {op : TcpOp} (h : op.Mailing) : (tcp op).Uses TcpOp.Mailing :=
  Prog.Uses.perform h

theorem mailing_next {op : TcpOp} {β : Type} {f : op.Resp → TcpProg β} (h : op.Mailing)
    (hf : ∀ r, (f r).Uses TcpOp.Mailing) : (tcp op >>= f).Uses TcpOp.Mailing :=
  (mailing_op h).bind hf

theorem mailing_charZero (data : List Byte) : (charZero data).Uses TcpOp.Mailing := by
  cases data with
  | nil => exact mailing_next trivial fun _ => trivial
  | cons c data => trivial

theorem mailing_readCString (data : List Byte) : (readCString data).Uses TcpOp.Mailing := by
  unfold readCString
  split
  · trivial
  · exact mailing_next trivial fun _ => trivial

theorem mailing_wait : wait.Uses TcpOp.Mailing := by
  refine mailing_next trivial fun _ => mailing_next trivial fun _ =>
    mailing_next trivial fun b => ?_
  split
  · trivial
  · exact mailing_next trivial fun _ => trivial

theorem mailing_catchMail (boxeID : PktType) (expected : ℤ) :
    (catchMail boxeID expected).Uses TcpOp.Mailing := by
  refine Prog.Uses.iterate ?_
  rintro ⟨attempts,nbCatch⟩
  dsimp only
  split
  · refine mailing_wait.bind fun b => ?_
    split
    · trivial
    · refine mailing_next trivial ?_
      rintro (_ | mail)
      · trivial
      · dsimp only
        split <;> trivial
  · trivial

theorem mailing_sendWait (out : Message) (inType : PktType) (inData : List Byte) (limit : ℕ) :
    (sendWait out inType inData limit).Uses TcpOp.Mailing := by
  have hloop : (sendLoop out inType inData limit).Uses TcpOp.Mailing := by
    refine Prog.Uses.iterate fun attempts => ?_
    split
    · refine mailing_next trivial fun _ => mailing_wait.bind fun b => ?_
      split
      · trivial
      · refine mailing_next trivial ?_
        rintro (_ | mail) <;> trivial
    · trivial
  refine hloop.bind ?_
  rintro (_ | ⟨attempts,inData⟩)
  · trivial
  refine (mailing_catchMail inType attempts).bind fun _ => mailing_next trivial fun b => ?_
  split
  · trivial
  · exact (mailing_charZero out.data).bind fun _ => trivial

theorem mailing_catchWithAnswer (boxeID : PktType) (out : Message) :
    (catchWithAnswer boxeID out).Uses TcpOp.Mailing := by
  refine mailing_next trivial fun dull => Prog.Uses.iterate ?_
  rintro ⟨attempts,nbCatch,dull⟩
  dsimp only
  split
  · refine mailing_wait.bind fun b => ?_
    split
    · trivial
    · refine mailing_next trivial ?_
      rintro (_ | mail)
      · trivial
      · dsimp only
        split
        · exact mailing_next trivial fun _ => trivial
        · trivial
  · trivial

theorem mailing_receiveWait (inType : PktType) (inData : List Byte) (out : Message) :
    (receiveWait inType inData out).Uses TcpOp.Mailing := by
  have hloop : (receiveLoop inType inData out).Uses TcpOp.Mailing := by
    refine Prog.Uses.iterate fun _ => mailing_wait.bind fun b => ?_
    split
    · trivial
    · refine mailing_next trivial ?_
      rintro (_ | mail)
      · trivial
      · exact mailing_next trivial fun _ => trivial
  refine hloop.bind ?_
  rintro (_ | ⟨inData,out⟩)
  · trivial
  · exact (mailing_catchWithAnswer inType out).bind fun _ => trivial

theorem mailing_clearStop : clearStop.Uses TcpOp.Mailing := by
  have hflag : isStopping.Uses TcpOp.Mailing := mailing_op trivial
  refine hflag.bind fun b => ?_
  cases b with
  | false => trivial
  | true => exact mailing_op rfl

theorem mailing_sendMessage (data : List Byte) : (sendMessage data).Uses TcpOp.Mailing := by
  refine mailing_next trivial fun c => ?_
  split
  · trivial
  refine mailing_next trivial fun _ => (mailing_sendWait _ _ _ _).bind fun value => ?_
  split
  · exact mailing_clearStop.bind fun _ => trivial
  · trivial

theorem mailing_receiveMessage : receiveMessage.Uses TcpOp.Mailing := by
  refine mailing_next trivial fun c => ?_
  split
  · trivial
  refine mailing_next trivial fun _ => (mailing_receiveWait _ _ _).bind ?_
  rintro ⟨status,inData⟩
  dsimp only
  split
  · exact mailing_next rfl fun _ => (mailing_readCString _).bind fun _ => trivial
  · exact (mailing_readCString _).bind fun _ => trivial

theorem mailing_pause : pause.Uses TcpOp.Mailing :=
  mailing_next trivial fun _ => mailing_next trivial fun _ => mailing_op trivial

theorem mailing_announce (type : PktType) (nbPieces : ℕ) :
    (announce type nbPieces).Uses TcpOp.Mailing := by
  refine mailing_next trivial fun _ => (mailing_sendWait _ _ _ _).bind fun value => ?_
  split
  · exact mailing_clearStop.bind fun _ => trivial
  · trivial

theorem mailing_awaitPieces (type : PktType) : (awaitPieces type).Uses TcpOp.Mailing := by
  refine mailing_next trivial fun _ => (mailing_receiveWait _ _ _).bind ?_
  rintro ⟨status,inData⟩
  dsimp only
  split
  · trivial
  · exact (mailing_readCString _).bind fun _ => trivial

theorem mailing_sendString (data : List Byte) : (sendString data).Uses TcpOp.Mailing := by
  refine mailing_next trivial fun c => ?_
  split
  · trivial
  split
  · exact mailing_next trivial fun undefined => nomatch undefined
  refine (mailing_announce _ _).bind fun value => ?_
  split
  · trivial
  refine Prog.Uses.iterate ?_
  rintro (_ | ⟨piece,rest⟩)
  · trivial
  refine (mailing_sendMessage piece).bind fun sent => ?_
  split
  · trivial
  · exact mailing_pause.bind fun _ => trivial

theorem mailing_receiveString : receiveString.Uses TcpOp.Mailing := by
  refine mailing_next trivial fun c => ?_
  split
  · trivial
  refine (mailing_awaitPieces _).bind ?_
  rintro (_ | size)
  · trivial
  refine Prog.Uses.iterate ?_
  rintro ⟨i,result⟩
  dsimp only
  split
  · refine mailing_receiveMessage.bind ?_
    rintro ⟨status,piece⟩
    dsimp only
    split <;> trivial
  · trivial

end Mailing

section Plain

theorem plain_of_mailing {α : Type} {p : TcpProg α} (h : p.Uses TcpOp.Mailing) :
    p.Uses TcpOp.Plain := h.mono fun _ hop => hop.plain

theorem plain_next {op : TcpOp} {β : Type} {f : op.Resp → TcpProg β} (h : op.Plain)
    (hf : ∀ r, (f r).Uses TcpOp.Plain) : (tcp op >>= f).Uses TcpOp.Plain :=
  (Prog.Uses.perform h).bind hf

theorem plain_sendFile (filename : List Byte) : (sendFile filename).Uses TcpOp.Plain := by
  refine plain_next trivial fun c => ?_
  split
  · trivial
  refine plain_next trivial fun opened => ?_
  split
  · trivial
  refine plain_next trivial fun length =>
    (plain_of_mailing (mailing_announce _ _)).bind fun value => ?_
  split
  · trivial
  refine Prog.Uses.iterate fun i => ?_
  split
  · refine plain_next trivial fun bytes =>
      (plain_of_mailing (mailing_sendMessage _)).bind fun sent => ?_
    split
    · trivial
    · exact (plain_of_mailing mailing_pause).bind fun _ => trivial
  · trivial

theorem plain_receiveFile (savename : List Byte) : (receiveFile savename).Uses TcpOp.Plain := by
  refine plain_next trivial fun c => ?_
  split
  · trivial
  refine (plain_of_mailing (mailing_awaitPieces _)).bind ?_
  rintro (_ | size)
  · trivial
  refine plain_next trivial fun _ => plain_next trivial fun opened =>
    Prog.Uses.iterate fun i => ?_
  split
  · refine (plain_of_mailing mailing_receiveMessage).bind ?_
    rintro ⟨status,text⟩
    dsimp only
    split
    · trivial
    · exact plain_next trivial fun _ => trivial
  · trivial

end Plain

end Nachos
