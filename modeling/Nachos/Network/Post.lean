import Nachos.Machine.Network

/-! # Post office

`post.cc`. A mail header and the payload of a mail are the data of a packet. A mailbox is
a queue of mails; `SynchList` is not part of the tree and is a list here, appended to at
the end and removed from at the front.
-/
namespace Nachos

structure MailHeader where
  toBox : Word
  fromBox : Word
  length : Word
  deriving DecidableEq

namespace MailHeader

def fields : (Word × Word) × Word ≃ MailHeader where
  toFun p := ⟨p.1.1,p.1.2,p.2⟩
  invFun h := ((h.toBox,h.fromBox),h.length)
  left_inv _ := rfl
  right_inv _ := rfl

def codec : Codec MailHeader := ((Codec.word.prod Codec.word).prod Codec.word).iso fields

theorem codec_size : codec.size = 12 := rfl

end MailHeader

abbrev maxMailSize : ℕ := maxPacketSize - 12

structure Mail where
  pktHdr : PacketHeader
  mailHdr : MailHeader
  data : Buffer maxMailSize

/-- The check of a mail header that `Send` and `PostalDelivery` make. -/
def MailHeader.Legal (numBoxes : ℤ) (h : MailHeader) : Prop :=
  0 ≤ h.toBox.toInt ∧ h.toBox.toInt < numBoxes ∧ h.length.toNat ≤ maxMailSize

instance (numBoxes : ℤ) (h : MailHeader) : Decidable (h.Legal numBoxes) :=
  inferInstanceAs (Decidable (_ ∧ _))

/-- `new Mail`, in memory with contents `mem`; the message stands at place `off` of `msg`. -/
def Mail.new (pktH : PacketHeader) (mailH : MailHeader) (msg : Buffer maxPacketSize) (off : ℕ)
    (mem : Buffer maxMailSize) : Outcome Mail := do
  if ¬ mailH.length.toNat ≤ maxMailSize then throw .assertion
  let bytes ← msg.get off mailH.length.toNat
  let data ← mem.put 0 bytes
  return ⟨pktH,mailH,data⟩

namespace MailBox

def put (messages : List Mail) (mail : Mail) : List Mail := messages ++ [mail]

/-- The first mail taken apart, its data copied to `data`. -/
def noBlockGet (messages : List Mail) (data : Buffer maxMailSize) :
    Outcome (Option (PacketHeader × MailHeader × Buffer maxMailSize × List Mail)) :=
  match messages with
  | [] => .ok none
  | mail :: rest => do
    let bytes ← mail.data.get 0 mail.mailHdr.length.toNat
    let data ← data.put 0 bytes
    return some (mail.pktHdr,mail.mailHdr,data,rest)

end MailBox

/-- The device of a post office is built with its address, and `sendBusy` is never set. -/
structure PostOffice where
  netAddr : Word
  numBoxes : ℤ
  network : Network
  ident_eq : network.ident = netAddr
  sendBusy_eq : network.sendBusy = false

namespace PostOffice

/-- The packet `Send` gives to the network, if it is not lost there. -/
def send (po : PostOffice) (pktHdr : PacketHeader) (mailHdr : MailHeader) (data : List Byte)
    (buffer : Buffer maxPacketSize) (wire : Packet) (lost : Bool) : Outcome (Option Packet) := do
  if ¬ mailHdr.Legal po.numBoxes then throw .assertion
  let pktHdr := { pktHdr with
    fromAddr := po.netAddr
    length := mailHdr.length + BitVec.ofNat 32 MailHeader.codec.size }
  let buffer ← buffer.put 0 (MailHeader.codec.encode mailHdr)
  let bytes ← firstBytes data mailHdr.length.toNat
  let buffer ← buffer.put MailHeader.codec.size bytes
  po.network.send pktHdr buffer wire lost

/-- `PostalDelivery` between `P` and `Put`: the headers and the packet data. -/
def collect (numBoxes : ℤ) (network : Network) (buffer : Buffer maxPacketSize) :
    Outcome (PacketHeader × MailHeader × Buffer maxPacketSize × Network) := do
  let (pktHdr,buffer,network) ← network.receive buffer
  let bytes ← buffer.get 0 MailHeader.codec.size
  let mailHdr := MailHeader.codec.decode bytes
  if ¬ mailHdr.Legal numBoxes then throw .assertion
  return (pktHdr,mailHdr,buffer,network)

/-- The mail `PostalDelivery` puts into mailbox `mailHdr.toBox`. -/
def deliver (pktHdr : PacketHeader) (mailHdr : MailHeader) (buffer : Buffer maxPacketSize)
    (mem : Buffer maxMailSize) : Outcome Mail :=
  Mail.new pktHdr mailHdr buffer MailHeader.codec.size mem

/-- `NoBlockReceive`, and `Receive` when a mail is there. -/
def noBlockReceive (messages : List Mail) (data : Buffer maxMailSize) :
    Outcome (Option (PacketHeader × MailHeader × Buffer maxMailSize × List Mail)) := do
  let r ← MailBox.noBlockGet messages data
  match r with
  | none => return none
  | some (pktHdr,mailHdr,data,rest) =>
    if ¬ mailHdr.length.toNat ≤ maxMailSize then throw .assertion
    return some (pktHdr,mailHdr,data,rest)

end PostOffice

end Nachos
