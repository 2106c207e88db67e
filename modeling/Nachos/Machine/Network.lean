import Nachos.Machine.Buffer

/-! # The network device

`network.cc`. Whatever is sent is padded to `maxWireSize` bytes; the padding and every
other memory that is not initialised is an argument. Packets wait in the socket, one is
read into the inbox, and the length in `inHdr` tells whether one is there.
-/
namespace Nachos

/-- `to` and `from` are keywords here, so the addresses say what they are of. -/
structure PacketHeader where
  toAddr : Word
  fromAddr : Word
  length : Word
  deriving DecidableEq

namespace PacketHeader

def fields : (Word × Word) × Word ≃ PacketHeader where
  toFun p := ⟨p.1.1,p.1.2,p.2⟩
  invFun h := ((h.toAddr,h.fromAddr),h.length)
  left_inv _ := rfl
  right_inv _ := rfl

def codec : Codec PacketHeader := ((Codec.word.prod Codec.word).prod Codec.word).iso fields

theorem codec_size : codec.size = 12 := rfl

end PacketHeader

abbrev maxWireSize : ℕ := 64
abbrev maxPacketSize : ℕ := maxWireSize - 12

abbrev Packet := Buffer maxWireSize

structure Network where
  ident : Word
  sendBusy : Bool
  inHdr : PacketHeader
  inbox : Buffer maxPacketSize

namespace Network

/-- The packet that goes out, unless it is lost. -/
def send (net : Network) (hdr : PacketHeader) (data : Buffer maxPacketSize) (buffer : Packet)
    (lost : Bool) : Outcome (Option Packet) := do
  if ¬ (net.sendBusy = false ∧ 0 < hdr.length.toNat ∧ hdr.length.toNat ≤ maxPacketSize ∧
      hdr.fromAddr = net.ident) then
    throw .assertion
  if lost then return none
  let buffer ← buffer.put 0 (PacketHeader.codec.encode hdr)
  let bytes ← data.get 0 hdr.length.toNat
  let buffer ← buffer.put PacketHeader.codec.size bytes
  return some buffer

/-- One poll, with the packets that wait in the socket; `true` when a packet was read and
`readHandler` is called. -/
def checkPktAvail (net : Network) (socket : List Packet) : Outcome (Network × List Packet × Bool) :=
  if net.inHdr.length ≠ 0 then .ok (net,socket,false)
  else match socket with
  | [] => .ok (net,[],false)
  | buffer :: socket => do
    let bytes ← buffer.get 0 PacketHeader.codec.size
    let hdr := PacketHeader.codec.decode bytes
    if ¬ (hdr.toAddr = net.ident ∧ hdr.length.toNat ≤ maxPacketSize) then throw .assertion
    let data ← buffer.get PacketHeader.codec.size hdr.length.toNat
    let inbox ← net.inbox.put 0 data
    return ({ net with inHdr := hdr, inbox := inbox },socket,true)

def receive (net : Network) (data : Buffer maxPacketSize) :
    Outcome (PacketHeader × Buffer maxPacketSize × Network) := do
  let hdr := net.inHdr
  let net := { net with inHdr := { net.inHdr with length := 0 } }
  if hdr.length ≠ 0 then
    let bytes ← net.inbox.get 0 hdr.length.toNat
    let data ← data.put 0 bytes
    return (hdr,data,net)
  else return (hdr,data,net)

end Network

end Nachos
