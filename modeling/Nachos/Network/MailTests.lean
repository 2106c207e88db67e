import Nachos.Library.Interaction
import Nachos.Network.PostalWorker
import Mathlib.Data.Fintype.Basic

/-! # The tests of the post office

`nettest.cc` and `netringtest.cc` as programs, and the machines that run them: on each a thread,
the postal worker and the interrupts of its network device. The thread is the only one that
sends. A packet that is not lost goes to the socket of the machine it is addressed to, and to
send to a machine that is not there, or has halted, is an assertion that fails.
-/
namespace Nachos

inductive Line where
  | machine (netAddr n : ℤ)
  | got (text : List Byte) (fromAddr fromBox : Word)
  deriving DecidableEq

inductive PostOp where
  /-- `sendLock->Acquire()` -/
  | acquire
  /-- The checks, the copies and the `network->Send` of `PostOffice::Send`. -/
  | transmit (pktHdr : PacketHeader) (mailHdr : MailHeader) (data : List Byte)
  /-- `messageSent->P()` -/
  | awaitSent
  /-- `sendLock->Release()` -/
  | release
  | receive (box : ℤ) (data : Buffer maxMailSize)
  | getNetAddr
  | strlen (data : List Byte)
  | printMachine (netAddr n : ℤ)
  | printGot (data : List Byte) (fromAddr fromBox : Word)
  | halt

def PostOp.Resp : PostOp → Type
  | receive _ _ => PacketHeader × MailHeader × Buffer maxMailSize
  | getNetAddr => Word
  | strlen _ => ℕ
  | halt => Empty
  | _ => Unit

abbrev PostProg := Prog PostOp PostOp.Resp

open Prog

def post (op : PostOp) : PostProg op.Resp := perform op

/-- `PostOffice::Send` -/
def sendMail (pktHdr : PacketHeader) (mailHdr : MailHeader) (data : List Byte) : PostProg Unit := do
  post .acquire
  post (.transmit pktHdr mailHdr data)
  post .awaitSent
  post .release

def receiveMail (box : ℤ) (data : Buffer maxMailSize) :
    PostProg (PacketHeader × MailHeader × Buffer maxMailSize) := post (.receive box data)

/-- `strlen(data) + 1` -/
def lengthOf (data : List Byte) : PostProg Word := do
  let n : ℕ ← post (.strlen data)
  return BitVec.ofNat 32 (n + 1)

def printGot (inPktHdr : PacketHeader) (inMailHdr : MailHeader) (buffer : Buffer maxMailSize) :
    PostProg Unit := post (.printGot buffer.bytes inPktHdr.fromAddr inMailHdr.fromBox)

def halt : PostProg Empty := post .halt

/-- What the variables of a test hold before anything is assigned to them. -/
structure TestLocals where
  outPktHdr : PacketHeader
  buffer : Buffer maxMailSize

/-- `"Hello!"` -/
def helloText : List Byte := [0x48,0x65,0x6c,0x6c,0x6f,0x21,0]

/-- `"Hello there !"` -/
def helloThereText : List Byte :=
  [0x48,0x65,0x6c,0x6c,0x6f,0x20,0x74,0x68,0x65,0x72,0x65,0x20,0x21,0]

/-- `"Got it!"` -/
def gotItText : List Byte := [0x47,0x6f,0x74,0x20,0x69,0x74,0x21,0]

/-- The last part, which the tests have in common: the acknowledgement of what has come in, and
the wait for the one of what went out. -/
def acknowledge (outPktHdr : PacketHeader) (outMailHdr : MailHeader) (inPktHdr : PacketHeader)
    (inMailHdr : MailHeader) (buffer : Buffer maxMailSize) : PostProg Unit := do
  let outPktHdr := { outPktHdr with toAddr := inPktHdr.fromAddr }
  let outMailHdr := { outMailHdr with toBox := inMailHdr.fromBox, length := ← lengthOf gotItText }
  sendMail outPktHdr outMailHdr gotItText
  let (inPktHdr,inMailHdr,buffer) ← receiveMail 1 buffer
  printGot inPktHdr inMailHdr buffer

/-- The test of a machine that sends before it receives. -/
def sendFirst (dest : Word) (text : List Byte) (vars : TestLocals) : PostProg Unit := do
  let outPktHdr := { vars.outPktHdr with toAddr := dest }
  let outMailHdr : MailHeader := ⟨0,1,← lengthOf text⟩
  sendMail outPktHdr outMailHdr text
  let (inPktHdr,inMailHdr,buffer) ← receiveMail 0 vars.buffer
  printGot inPktHdr inMailHdr buffer
  acknowledge outPktHdr outMailHdr inPktHdr inMailHdr buffer

/-- The test of a machine that hands on what it receives. -/
def receiveFirst (dest : Word) (vars : TestLocals) : PostProg Unit := do
  let (inPktHdr,inMailHdr,buffer) ← receiveMail 0 vars.buffer
  let outPktHdr := { vars.outPktHdr with toAddr := dest }
  let outMailHdr : MailHeader := ⟨0,1,← lengthOf buffer.bytes⟩
  sendMail outPktHdr outMailHdr buffer.bytes
  acknowledge outPktHdr outMailHdr inPktHdr inMailHdr buffer

def mailTest (farAddr : Word) (vars : TestLocals) : PostProg Empty := do
  sendFirst farAddr helloText vars
  halt

def ringTest (n : ℤ) (vars : TestLocals) : PostProg Empty := do
  if n < 1 then return ← halt
  let netAddr : Word ← post .getNetAddr
  post (.printMachine netAddr.toInt n)
  (if netAddr.toInt = 0 then sendFirst (BitVec.ofInt 32 (Int.tmod 1 n)) helloThereText vars
    else receiveFirst (BitVec.ofInt 32 (Int.tmod (netAddr.toInt + 1) n)) vars)
  halt

/-- A machine with its thread. `underWay` counts the pending interrupts of packets that have been
sent. -/
structure PostalMachine where
  station : Station
  program : PostProg Empty
  sendLock : Bool
  underWay : ℕ
  messageSent : ℕ
  printed : List Line
  crashed : Bool
  halted : Bool

inductive PostalAct where
  /-- `CheckPktAvail` -/
  | poll
  /-- The postal worker, with the memory for `new Mail`. -/
  | worker (mem : Buffer maxMailSize)
  /-- `SendDone`, which calls `PacketSent`. -/
  | sendDone
  /-- The thread, with the memory for a packet it sends, which may get lost. -/
  | run (buffer : Buffer maxPacketSize) (wire : Packet) (lost : Bool)

/-- A packet and the address it goes to. -/
abbrev Outgoing := Word × Packet

namespace PostalMachine
variable (m : PostalMachine)

abbrev ident : Word := m.station.network.ident

def office (h : m.station.network.sendBusy = false) : PostOffice :=
  ⟨m.ident,m.station.numBoxes,m.station.network,rfl,h⟩

/-- The packet of a `Send`. -/
def outgoing (pktHdr : PacketHeader) (mailHdr : MailHeader) (data : List Byte)
    (buffer : Buffer maxPacketSize) (wire : Packet) (lost : Bool) : Outcome (Option Outgoing) :=
  if h : m.station.network.sendBusy = false then do
    let packet ← (m.office h).send pktHdr mailHdr data buffer wire lost
    return packet.map fun p => (pktHdr.toAddr,p)
  else .error .assertion

/-- The mail that `Receive` gets, if one is there. -/
def incoming (box : ℤ) (data : Buffer maxMailSize) :
    Outcome (Option (PacketHeader × MailHeader × Buffer maxMailSize)) :=
  if 0 ≤ box ∧ box < m.station.numBoxes then do
    let mail ← PostOffice.noBlockReceive (m.station.boxes box) data
    return mail.map fun (pktHdr,mailHdr,data,_) => (pktHdr,mailHdr,data)
  else .error .assertion

/-- What stands in front of the first `NUL`. -/
def chars (data : List Byte) : Outcome (List Byte) :=
  if data.all (· ≠ 0) then .error .outOfBounds else .ok (data.takeWhile (· ≠ 0))

/-- What follows when there is no fault. -/
def attempt {α : Type} (r : Outcome α) (f : α → Option (PostalMachine × Option Outgoing)) :
    Option (PostalMachine × Option Outgoing) :=
  match r with
  | .ok x => f x
  | .error _ => some ({ m with crashed := true },none)

/-- The next step of the thread, unless it has to wait, and what it sends. -/
def run (buffer : Buffer maxPacketSize) (wire : Packet) (lost : Bool) :
    Option (PostalMachine × Option Outgoing) :=
  match m.program with
  | .ret e => nomatch e
  | .loop body x next => some ({ m with program := unroll body x next },none)
  | .act .acquire next =>
    if m.sendLock then none
    else some ({ m with sendLock := true, program := next () },none)
  | .act (.transmit pktHdr mailHdr data) next =>
    m.attempt (m.outgoing pktHdr mailHdr data buffer wire lost) fun sent =>
      some ({ m with underWay := m.underWay + 1, program := next () },sent)
  | .act .awaitSent next =>
    if 0 < m.messageSent then
      some ({ m with messageSent := m.messageSent - 1, program := next () },none)
    else none
  | .act .release next => some ({ m with sendLock := false, program := next () },none)
  | .act (.receive box data) next =>
    m.attempt (m.incoming box data) fun mail => mail.map fun r =>
      ({ m with station := m.station.take box data, program := next r },none)
  | .act .getNetAddr next => some ({ m with program := next m.ident },none)
  | .act (.strlen data) next =>
    m.attempt (chars data) fun s => some ({ m with program := next s.length },none)
  | .act (.printMachine netAddr n) next =>
    some ({ m with printed := m.printed ++ [.machine netAddr n], program := next () },none)
  | .act (.printGot data fromAddr fromBox) next =>
    m.attempt (chars data) fun s => some ({ m with
      printed := m.printed ++ [.got s fromAddr fromBox]
      program := next () },none)
  | .act .halt _ => some ({ m with halted := true },none)

def act : PostalAct → Option (PostalMachine × Option Outgoing)
  | .poll => some ({ m with station := m.station.poll },none)
  | .worker mem => (m.station.work mem).map fun s => ({ m with station := s },none)
  | .sendDone =>
    if 0 < m.underWay then
      some ({ m with underWay := m.underWay - 1, messageSent := m.messageSent + 1 },none)
    else none
  | .run buffer wire lost => m.run buffer wire lost

/-- A packet comes into the socket. -/
def arrive (p : Packet) : PostalMachine :=
  { m with station := { m.station with socket := m.station.socket ++ [p] } }

def Starts (ident : Word) (numBoxes : ℤ) (program : PostProg Empty) : Prop :=
  (stations ident numBoxes).init m.station ∧ m.station.network.sendBusy = false ∧
  m.program = program ∧ m.sendLock = false ∧ m.underWay = 0 ∧ m.messageSent = 0 ∧
  m.printed = [] ∧ m.crashed = false ∧ m.halted = false

def new (ident : Word) (numBoxes : ℤ) (program : PostProg Empty) : PostalMachine where
  station := ⟨numBoxes,⟨ident,false,⟨0,0,0⟩,⟨List.replicate _ 0,List.length_replicate⟩⟩,[],0,
    .waiting,⟨List.replicate _ 0,List.length_replicate⟩,fun _ => [],false,[],[],fun _ => []⟩
  program := program
  sendLock := false
  underWay := 0
  messageSent := 0
  printed := []
  crashed := false
  halted := false

theorem new_starts (ident : Word) (numBoxes : ℤ) (program : PostProg Empty) :
    (new ident numBoxes program).Starts ident numBoxes program :=
  ⟨⟨rfl,rfl,rfl,rfl,rfl,rfl,fun _ => rfl,rfl,rfl,rfl,fun _ => rfl⟩,rfl,rfl,rfl,rfl,rfl,rfl,rfl,rfl⟩

end PostalMachine

namespace PostalNet
variable {ι : Type} [Fintype ι] [DecidableEq ι] (w : ι → PostalMachine)

/-- The machines when `a` has come to `m` and sends a packet. -/
def deliver (a : ι) (m : PostalMachine) : Option Outgoing → ι → PostalMachine
  | none => Function.update w a m
  | some (dest,p) =>
    let w' := Function.update w a m
    if ∃ b, (w' b).ident = dest ∧ (w' b).halted = false then
      fun b => if (w' b).ident = dest then (w' b).arrive p else w' b
    else Function.update w a { m with crashed := true }

/-- A step of one of the machines; none of a machine that has halted or crashed. -/
def step (a : ι) (act : PostalAct) : Option (ι → PostalMachine) :=
  if (w a).halted ∨ (w a).crashed ∨ (w a).station.crashed then none
  else ((w a).act act).map fun (m,sent) => deliver w a m sent

end PostalNet

/-- The packet of the step gets lost, if it is one that sends. -/
def PostalAct.Loses : PostalAct → Prop
  | .run _ _ lost => lost = true
  | _ => False

/-- Machines with these addresses that have come up with these programs. -/
def postalNet {ι : Type} [Fintype ι] [DecidableEq ι] (addr : ι → Word) (numBoxes : ℤ)
    (program : ι → PostProg Empty) : TransitionSystem (ι → PostalMachine) (ι × PostalAct) where
  init w := ∀ a, (w a).Starts (addr a) numBoxes (program a)
  step w l w' := PostalNet.step w l.1 l.2 = some w'

end Nachos
