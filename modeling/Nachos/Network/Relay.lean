import Nachos.Network.MailTests
import Mathlib.Logic.Equiv.Defs
import Mathlib.Tactic.Simps.Basic

/-! # Relays

What the tests of the post office have in common. Each machine sends one message to the next one
and acknowledges the one from the machine before it; some send first, the others hand on what they
have received. The errand of a thread is what it may do next, whatever its program is.
-/
namespace Nachos

inductive MailKind where
  | data | ack
  deriving DecidableEq

def MailKind.box : MailKind → Word
  | .data => 0
  | .ack => 1

/-- Machines by their addresses. From some that send first all the others are reached. -/
structure Relay (ι : Type) where
  addr : ι → Word
  addr_injective : Function.Injective addr
  next : Equiv.Perm ι
  starts : ι → Bool
  reached : ∀ a, ∃ b k, starts b = true ∧ next^[k] b = a
  chars : List Byte
  chars_ne : 0 ∉ chars
  chars_fit : chars.length < maxMailSize
  lines : ι → List Line

/-- How far a thread has come, and how many of its operations are left at most. -/
structure Errand where
  locked : Bool
  awaiting : Bool
  sent : MailKind → Bool
  got : MailKind → Bool
  left : ℕ
  lines : List Line

namespace Errand

def start (left : ℕ) : Errand := ⟨false,false,fun _ => false,fun _ => false,left,[]⟩

@[simps]
def tick (g : Errand) : Errand := { g with left := g.left - 1 }

@[simps]
def send (g : Errand) (k : MailKind) : Errand :=
  { g.tick with sent := Function.update g.sent k true, awaiting := true }

@[simps]
def get (g : Errand) (k : MailKind) : Errand := { g.tick with got := Function.update g.got k true }

@[simps]
def print (g : Errand) (line : Line) : Errand := { g.tick with lines := g.lines ++ [line] }

@[simps]
def mail (g : Errand) (k : MailKind) : Errand :=
  { g with sent := Function.update g.sent k true, left := g.left - 4 }

end Errand

namespace Relay
variable {ι : Type} (R : Relay ι)

/-- The characters of a message. -/
def said : MailKind → List Byte
  | .data => R.chars
  | .ack => gotItText.dropLast

def text (k : MailKind) : List Byte := R.said k ++ [0]

def header (k : MailKind) : MailHeader := ⟨k.box,1,BitVec.ofNat 32 (R.text k).length⟩

def dest : MailKind → Equiv.Perm ι
  | .data => R.next
  | .ack => R.next.symm

def Ready (a : ι) (g : Errand) : MailKind → Prop
  | .data => R.starts a = true ∨ g.got .data = true
  | .ack => g.got .data = true

def Waits (a : ι) (g : Errand) : MailKind → Prop
  | .data => R.starts a = true → g.sent .data = true
  | .ack => g.sent .data = true ∧ g.sent .ack = true

structure Sends (a : ι) (g : Errand) (pktHdr : PacketHeader) (data : List Byte) (k : MailKind) :
    Prop where
  unsent : g.sent k = false
  ready : R.Ready a g k
  toAddr : pktHdr.toAddr = R.addr (R.dest k a)
  text : R.text k <+: data

structure Brings (a : ι) (k : MailKind) (r : PacketHeader × MailHeader × Buffer maxMailSize) :
    Prop where
  fromAddr : r.1.fromAddr = R.addr ((R.dest k).symm a)
  mailHdr : r.2.1 = R.header k
  text : R.text k <+: r.2.2.bytes

def contract (a : ι) : Contract PostOp PostOp.Resp Errand where
  pre op g := 0 < g.left ∧ match op with
    | .acquire => g.locked = false
    | .transmit pktHdr mailHdr data => g.awaiting = false ∧
        ∃ k, mailHdr = R.header k ∧ R.Sends a g pktHdr data k
    | .awaitSent => g.awaiting = true
    | .receive box _ => ∃ k : MailKind, box = k.box.toInt ∧ g.got k = false ∧ R.Waits a g k
    | .strlen data | .printGot data _ _ => 0 ∈ data
    | .halt => g.lines = R.lines a ∧ ∀ k, g.sent k = true ∧ g.got k = true
    | .release | .getNetAddr | .printMachine _ _ => True
  post op g r t := match op with
    | .acquire => t = { g.tick with locked := true }
    | .transmit _ mailHdr _ => ∀ k, mailHdr = R.header k → t = g.send k
    | .awaitSent => t = { g.tick with awaiting := false }
    | .release => t = { g.tick with locked := false }
    | .receive box _ => ∀ k : MailKind, box = k.box.toInt → R.Brings a k r ∧ t = g.get k
    | .getNetAddr => r = R.addr a ∧ t = g.tick
    | .strlen data => r = (data.takeWhile (· ≠ 0)).length ∧ t = g.tick
    | .printMachine netAddr n => t = g.print (.machine netAddr n)
    | .printGot data fromAddr fromBox =>
      t = g.print (.got (data.takeWhile (· ≠ 0)) fromAddr fromBox)
    | .halt => False

variable {R} {k k' : MailKind} {data : List Byte}

theorem MailKind_box_inj (h : k.box = k'.box) : k = k' := by
  cases k <;> cases k' <;> first | rfl | exact absurd h (by decide)

theorem header_inj (h : R.header k = R.header k') : k = k' :=
  MailKind_box_inj (congrArg MailHeader.toBox h)

theorem said_spec (k : MailKind) : 0 ∉ R.said k ∧ (R.said k).length < maxMailSize := by
  cases k with
  | data => exact ⟨R.chars_ne,R.chars_fit⟩
  | ack =>
    exact ⟨show 0 ∉ gotItText.dropLast by decide,show gotItText.dropLast.length < _ by decide⟩

theorem length_text (k : MailKind) : (R.text k).length = (R.said k).length + 1 := by
  rw [text, List.length_append, List.length_singleton]

theorem toNat_length (k : MailKind) : (R.header k).length.toNat = (R.text k).length := by
  have hfit := (said_spec (R := R) k).2
  rw [header, BitVec.toNat_ofNat, length_text]
  unfold maxMailSize maxPacketSize maxWireSize at hfit
  omega

theorem zero_mem_of_text (h : R.text k <+: data) :
    0 ∈ data ∧ data.takeWhile (· ≠ 0) = R.said k := by
  obtain ⟨rest,rfl⟩ := h
  refine ⟨by simp [text],?_⟩
  have hne : ∀ c ∈ R.said k, decide (c ≠ 0) = true := by
    intro c hc
    refine decide_eq_true ?_
    rintro rfl
    exact (said_spec k).1 hc
  rw [text, List.append_assoc, List.takeWhile_append_of_pos hne]
  simp

end Relay

/-- A program without a loop. -/
def Prog.Straight : {α : Type} → PostProg α → Prop
  | _, .ret _ => True
  | _, .act _ next => ∀ r, (next r).Straight
  | _, .loop _ _ _ => False

theorem Prog.Straight.bind {α β : Type} {p : PostProg α} {f : α → PostProg β} (hp : p.Straight)
    (hf : ∀ a, (f a).Straight) : (p >>= f).Straight := by
  induction p with
  | ret a => exact hf a
  | act op next ih => exact fun r => ih r (hp r) hf
  | loop body x next => exact hp.elim

theorem straight_post (op : PostOp) : (post op).Straight := fun _ => trivial

theorem straight_acknowledge (outPktHdr : PacketHeader) (outMailHdr : MailHeader)
    (inPktHdr : PacketHeader) (inMailHdr : MailHeader) (buffer : Buffer maxMailSize) :
    (acknowledge outPktHdr outMailHdr inPktHdr inMailHdr buffer).Straight :=
  .bind (.bind (straight_post _) fun _ => trivial) fun _ =>
    .bind (fun _ _ _ => straight_post _) fun _ => .bind (straight_post _) fun _ => straight_post _

theorem straight_sendFirst (dest : Word) (text : List Byte) (vars : TestLocals) :
    (sendFirst dest text vars).Straight :=
  .bind (.bind (straight_post _) fun _ => trivial) fun _ =>
    .bind (fun _ _ _ => straight_post _) fun _ => .bind (straight_post _) fun _ =>
      .bind (straight_post _) fun _ => straight_acknowledge _ _ _ _ _

theorem straight_receiveFirst (dest : Word) (vars : TestLocals) :
    (receiveFirst dest vars).Straight :=
  .bind (straight_post _) fun _ => .bind (.bind (straight_post _) fun _ => trivial) fun _ =>
    .bind (fun _ _ _ => straight_post _) fun _ => straight_acknowledge _ _ _ _ _

/-! Every test does its errand. -/

namespace Relay
variable {ι : Type} {R : Relay ι} {k : MailKind} {data : List Byte}

section Programs
variable {a : ι} {g : Errand} {α : Type}

theorem sat_lengthOf {Q : Word → Errand → Prop} (h : R.text k <+: data) (hleft : 0 < g.left)
    (hQ : Q (R.header k).length g.tick) : (lengthOf data).Sat (R.contract a) Q g := by
  obtain ⟨hzero,hchars⟩ := zero_mem_of_text h
  refine ⟨⟨hleft,hzero⟩,?_⟩
  rintro n t ⟨rfl,rfl⟩
  change Q (BitVec.ofNat 32 ((data.takeWhile (· ≠ 0)).length + 1)) g.tick
  rw [hchars, ← length_text]
  exact hQ

theorem sat_sendMail {Q : Unit → Errand → Prop} {pktHdr : PacketHeader}
    (h : R.Sends a g pktHdr data k) (hlocked : g.locked = false) (hawaiting : g.awaiting = false)
    (hleft : 4 ≤ g.left)
    (hQ : Q () (g.mail k)) :
    (sendMail pktHdr (R.header k) data).Sat (R.contract a) Q g := by
  refine ⟨⟨by omega,hlocked⟩,?_⟩
  rintro - t rfl
  refine ⟨⟨show 0 < g.left - 1 by omega,hawaiting,k,rfl,h.unsent,h.ready,h.toAddr,h.text⟩,?_⟩
  intro u t ht
  obtain rfl := ht k rfl
  refine ⟨⟨show 0 < g.left - 1 - 1 by omega,rfl⟩,?_⟩
  rintro - t rfl
  refine ⟨⟨show 0 < g.left - 1 - 1 - 1 by omega,trivial⟩,?_⟩
  rintro - t rfl
  have hg : g.mail k = ⟨false,false,Function.update g.sent k true,g.got,g.left - 1 - 1 - 1 - 1,
      g.lines⟩ := by
    rw [Errand.mail, hlocked, hawaiting, Nat.sub_sub, Nat.sub_sub, Nat.sub_sub]
  rw [hg] at hQ
  exact hQ

theorem sat_receiveMail {Q : PacketHeader × MailHeader × Buffer maxMailSize → Errand → Prop}
    {box : ℤ} {buffer : Buffer maxMailSize} (hbox : box = k.box.toInt) (hgot : g.got k = false)
    (hwaits : R.Waits a g k) (hleft : 0 < g.left) (hQ : ∀ r, R.Brings a k r → Q r (g.get k)) :
    (receiveMail box buffer).Sat (R.contract a) Q g := by
  refine ⟨⟨hleft,k,hbox,hgot,hwaits⟩,?_⟩
  intro r t ht
  obtain ⟨hbrings,rfl⟩ := ht k hbox
  exact hQ r hbrings

theorem sat_printGot {Q : Unit → Errand → Prop} {r : PacketHeader × MailHeader × Buffer maxMailSize}
    (h : R.Brings a k r) (hleft : 0 < g.left)
    (hQ : Q () (g.print (.got (R.said k) (R.addr ((R.dest k).symm a)) 1))) :
    (printGot r.1 r.2.1 r.2.2).Sat (R.contract a) Q g := by
  obtain ⟨hzero,hchars⟩ := zero_mem_of_text h.text
  refine ⟨⟨hleft,hzero⟩,?_⟩
  rintro - t rfl
  rw [hchars, h.fromAddr, h.mailHdr]
  exact hQ

/-- What `acknowledge` begins with: the message is there and has been sent on. -/
structure Relayed (g : Errand) : Prop where
  locked : g.locked = false
  awaiting : g.awaiting = false
  sentData : g.sent .data = true
  gotData : g.got .data = true
  sentAck : g.sent .ack = false
  gotAck : g.got .ack = false
  left : 8 ≤ g.left

/-- The line that is printed at the end. -/
def lastLine (R : Relay ι) (a : ι) : Line := .got (R.said .ack) (R.addr (R.next a)) 1

/-- Everything has been done, but for `Halt`. -/
structure Finished (lines : List Line) (g : Errand) : Prop where
  done : ∀ k, g.sent k = true ∧ g.got k = true
  lines : g.lines = lines
  left : 0 < g.left

theorem sat_acknowledge {outPktHdr : PacketHeader}
    {r : PacketHeader × MailHeader × Buffer maxMailSize} (hr : R.Brings a .data r)
    {lines : List Line} (hlines : g.lines = lines) (h : Relayed g) :
    (acknowledge outPktHdr (R.header .data) r.1 r.2.1 r.2.2).Sat (R.contract a)
      (fun _ t => Finished (lines ++ [R.lastLine a]) t) g := by
  have hleft := h.left
  subst hlines
  rw [hr.mailHdr]
  refine Prog.sat_bind.mpr (sat_lengthOf (k := .ack) List.prefix_rfl (by omega) ?_)
  refine Prog.sat_bind.mpr (sat_sendMail (k := .ack) ⟨h.sentAck,h.gotData,hr.fromAddr,
    List.prefix_rfl⟩ h.locked h.awaiting (show 4 ≤ g.left - 1 by omega) ?_)
  refine Prog.sat_bind.mpr (sat_receiveMail (k := .ack) (by decide) h.gotAck
    ⟨by simp [h.sentData],by simp⟩ (show 0 < g.left - 1 - 4 by omega) ?_)
  intro r' hr'
  refine sat_printGot hr' (show 0 < g.left - 1 - 4 - 1 by omega) ⟨?_,rfl,?_⟩
  · intro k
    cases k with
    | data => exact ⟨by simp [h.sentData],by simp [h.gotData]⟩
    | ack => exact ⟨by simp,by simp⟩
  · show 0 < g.left - 1 - 4 - 1 - 1
    omega

structure Fresh (g : Errand) : Prop where
  locked : g.locked = false
  awaiting : g.awaiting = false
  sent : ∀ k, g.sent k = false
  got : ∀ k, g.got k = false
  left : 16 ≤ g.left

def firstLine (R : Relay ι) (a : ι) : Line := .got (R.said .data) (R.addr (R.next.symm a)) 1

theorem sat_sendFirst {dest : Word} {text : List Byte} {vars : TestLocals} {lines : List Line}
    (hlines : g.lines = lines) (h : Fresh g) (hstarts : R.starts a = true)
    (hdest : dest = R.addr (R.next a)) (htext : text = R.text .data) :
    (sendFirst dest text vars).Sat (R.contract a)
      (fun _ t => Finished (lines ++ [R.firstLine a] ++ [R.lastLine a]) t) g := by
  have hleft := h.left
  subst hlines
  rw [htext]
  refine Prog.sat_bind.mpr (sat_lengthOf List.prefix_rfl (by omega) ?_)
  refine Prog.sat_bind.mpr (sat_sendMail (k := .data) ⟨h.sent _,.inl hstarts,hdest,
    List.prefix_rfl⟩ h.locked h.awaiting (show 4 ≤ g.left - 1 by omega) ?_)
  refine Prog.sat_bind.mpr (sat_receiveMail (k := .data) (by decide) (h.got _)
    (fun _ => by simp) (show 0 < g.left - 1 - 4 by omega) ?_)
  intro r hr
  refine Prog.sat_bind.mpr (sat_printGot hr (show 0 < g.left - 1 - 4 - 1 by omega) ?_)
  refine sat_acknowledge hr rfl ?_
  refine ⟨h.locked,h.awaiting,by simp,by simp,by simp [h.sent],by simp [h.got],?_⟩
  show 8 ≤ g.left - 1 - 4 - 1 - 1
  omega

theorem sat_receiveFirst {dest : Word} {vars : TestLocals} {lines : List Line}
    (hlines : g.lines = lines) (h : Fresh g) (hstarts : R.starts a = false)
    (hdest : dest = R.addr (R.next a)) :
    (receiveFirst dest vars).Sat (R.contract a)
      (fun _ t => Finished (lines ++ [R.lastLine a]) t) g := by
  have hleft := h.left
  subst hlines
  refine Prog.sat_bind.mpr (sat_receiveMail (k := .data) (by decide) (h.got _)
    (fun hs => by rw [hstarts] at hs; cases hs) (by omega) ?_)
  intro r hr
  refine Prog.sat_bind.mpr (sat_lengthOf hr.text (show 0 < g.left - 1 by omega) ?_)
  refine Prog.sat_bind.mpr (sat_sendMail (k := .data) ⟨h.sent _,.inr (by simp),
    hdest,hr.text⟩ h.locked h.awaiting (show 4 ≤ g.left - 1 - 1 by omega) ?_)
  refine sat_acknowledge hr rfl ?_
  refine ⟨h.locked,h.awaiting,by simp,by simp,by simp [h.sent],by simp [h.got],?_⟩
  show 8 ≤ g.left - 1 - 1 - 4
  omega

theorem sat_halt {Q : Empty → Errand → Prop} (h : Finished (R.lines a) g) :
    halt.Sat (R.contract a) Q g := by
  refine ⟨⟨h.left,h.lines,h.done⟩,?_⟩
  rintro r t ⟨⟩

end Programs

end Relay

end Nachos
