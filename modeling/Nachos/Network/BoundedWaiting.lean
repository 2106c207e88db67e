import Nachos.Library.Termination
import Nachos.Network.TCP
import Mathlib.Logic.Function.Basic
import Mathlib.Data.List.Basic

/-! # How long a post office waits

The waiting functions of `tcp.cc` against every schedule of arrivals, without a
`STOP`. The attempts start again with each mail, but only so many mails are waited
for; each round of a loop makes one look into a mailbox, and the looks are bounded.
-/
namespace Nachos
open Prog

/-- The mails that arrive in front of each look into a mailbox. -/
abbrev Arrivals := ℕ → PktType → List TcpMail

/-- What a post office has in its boxes and what it has done. -/
structure Desk where
  connectedID : ℤ
  boxes : PktType → List TcpMail
  polls : ℕ
  sent : List Message
  taken : List (PktType × TcpMail)

namespace Desk

def send (s : Desk) (m : Message) : Desk := { s with sent := s.sent ++ [m] }

def arrive (a : Arrivals) (s : Desk) (box : PktType) : List TcpMail := s.boxes box ++ a s.polls box

/-- `NoBlockReceive`: the oldest mail of a box, if there is one. -/
def poll (a : Arrivals) (s : Desk) (box : PktType) : Option TcpMail × Desk :=
  match s.arrive a box with
  | [] => (none,{ s with boxes := s.arrive a, polls := s.polls + 1 })
  | mail :: rest => (some mail,
      { s with
        boxes := Function.update (s.arrive a) box rest
        polls := s.polls + 1
        taken := s.taken ++ [(box,mail)] })

/-- The timer wakes the thread up each time, and no `STOP` comes. -/
def world (a : Arrivals) : World TcpOp TcpOp.Resp Desk
  | .connectedID => fun s r t => r = s.connectedID ∧ t = s
  | .setConnectedID id => fun s _ t => t = { s with connectedID := id }
  | .stoppingConnection => fun s r t => r = false ∧ t = s
  | .send m => fun s _ t => t = s.send m
  | .noBlockReceive box _ => fun s r t => (r,t) = s.poll a box
  | .receive box => fun s (r : TcpMail) t => ∃ rest, s.boxes box = r :: rest ∧
      t = { s with boxes := Function.update s.boxes box rest, taken := s.taken ++ [(box,r)] }
  | _ => fun s _ t => t = s

end Desk

section World
variable {a : Arrivals} {s : Desk}

theorem ends_wait : Ends (Desk.world a) (fun b t => b = false ∧ t = s) wait s := by
  refine .act ⟨(),_,rfl⟩ ?_
  rintro - _ rfl
  refine .act ⟨(),_,rfl⟩ ?_
  rintro - _ rfl
  refine .act ⟨false,_,rfl,rfl⟩ ?_
  rintro b _ ⟨rfl,rfl⟩
  refine .act ⟨(),_,rfl⟩ ?_
  rintro - _ rfl
  exact .ret ⟨rfl,rfl⟩

theorem ends_pollBox (box : PktType) (into : Destination) :
    Ends (Desk.world a) (fun r t => (r,t) = s.poll a box) (pollBox box into) s :=
  .act ⟨_,_,rfl⟩ fun _ _ h => .ret h

theorem ends_send (m : Message) :
    Ends (Desk.world a) (fun _ t => t = s.send m) (tcp (.send m)) s :=
  .act ⟨(),_,rfl⟩ fun _ _ h => .ret h

theorem ends_memory : Ends (Desk.world a) (fun _ t => t = s) memory s :=
  .act ⟨([] : List Byte),_,rfl⟩ fun _ _ h => .ret h

theorem ends_isStopping : Ends (Desk.world a) (fun b t => b = false ∧ t = s) isStopping s :=
  .act ⟨false,_,rfl,rfl⟩ fun _ _ h => .ret h

theorem ends_charZero (data : List Byte) :
    Ends (Desk.world a) (fun _ t => t = s) (charZero data) s := by
  cases data with
  | nil =>
    refine .act ⟨([] : List Byte),_,rfl⟩ ?_
    rintro r _ rfl
    exact .ret rfl
  | cons c data => exact .ret rfl

end World

/-- The mails that come into a box in front of `n` looks, those there before included. -/
def Desk.arrivals (a : Arrivals) (s : Desk) (box : PktType) (n : ℕ) : List TcpMail :=
  s.boxes box ++ (List.range n).flatMap fun i => a (s.polls + i) box

/-- Between two moments these mails were taken out of a box, the oldest first. -/
structure Takes (a : Arrivals) (box : PktType) (mails : List TcpMail) (s t : Desk) : Prop where
  taken : t.taken = s.taken ++ mails.map fun mail => (box,mail)
  polls : s.polls ≤ t.polls
  fifo : s.arrivals a box (t.polls - s.polls) = mails ++ t.boxes box

namespace Takes
variable {a : Arrivals} {box : PktType} {mails : List TcpMail} {s t : Desk}

theorem none (a : Arrivals) (box : PktType) (s : Desk) : Takes a box [] s s :=
  ⟨by simp,le_rfl,by simp [Desk.arrivals]⟩

theorem send (h : Takes a box mails s t) (m : Message) : Takes a box mails s (t.send m) :=
  ⟨h.taken,h.polls,h.fifo⟩

theorem arrivals_succ (h : Takes a box mails s t) :
    s.arrivals a box (t.polls + 1 - s.polls) = mails ++ t.arrive a box := by
  have hp := h.polls
  rw [Nat.succ_sub hp, Desk.arrivals, List.range_succ, List.flatMap_append, ← List.append_assoc]
  have := h.fifo
  rw [Desk.arrivals] at this
  rw [this, List.append_assoc, Desk.arrive]
  simp [Nat.add_sub_cancel' hp]

theorem poll_none (h : Takes a box mails s t) {u : Desk}
    (hu : (Option.none,u) = t.poll a box) :
    Takes a box mails s u ∧ u.polls = t.polls + 1 ∧ u.sent = t.sent := by
  unfold Desk.poll at hu
  have hp := h.polls
  cases hbox : t.arrive a box with
  | nil =>
    rw [hbox] at hu
    obtain rfl := congrArg Prod.snd hu
    exact ⟨⟨h.taken,Nat.le_succ_of_le hp,h.arrivals_succ⟩,rfl,rfl⟩
  | cons mail rest =>
    rw [hbox] at hu
    cases hu

theorem poll_some (h : Takes a box mails s t) {mail : TcpMail} {u : Desk}
    (hu : (some mail,u) = t.poll a box) :
    Takes a box (mails ++ [mail]) s u ∧ u.polls = t.polls + 1 ∧ u.sent = t.sent := by
  unfold Desk.poll at hu
  have hp := h.polls
  cases hbox : t.arrive a box with
  | nil =>
    rw [hbox] at hu
    cases hu
  | cons mail' rest =>
    rw [hbox] at hu
    obtain rfl := Option.some_inj.mp (congrArg Prod.fst hu)
    obtain rfl := congrArg Prod.snd hu
    refine ⟨⟨?_,Nat.le_succ_of_le hp,?_⟩,rfl,rfl⟩
    · simp [h.taken]
    · refine h.arrivals_succ.trans ?_
      simp [hbox]

end Takes

/-- `CatchMail` takes the mails it counts, not more than are expected, and looks no more
than `maxCatch` times for each. -/
theorem ends_catchMail (a : Arrivals) (box : PktType) (expected : ℤ) (s : Desk) :
    Ends (Desk.world a) (fun n t => ∃ mails, Takes a box mails s t ∧ n = (mails.length : ℤ) ∧
      n ≤ max expected 0 ∧ t.polls ≤ s.polls + maxCatch * expected.toNat ∧ t.sent = s.sent)
      (catchMail box expected) s := by
  -- the looks are `maxCatch` for each mail taken and the attempts since the last
  refine .iterate (fun x t => ∃ mails, Takes a box mails s t ∧ x.2 = (mails.length : ℤ) ∧
      (x.2 < expected ∨ x = (0,0)) ∧ x.1 ≤ maxCatch ∧
      t.polls ≤ s.polls + maxCatch * mails.length + x.1 ∧ t.sent = s.sent)
    (fun _ t => s.polls + maxCatch * expected.toNat - t.polls)
    ⟨[],.none a box s,rfl,.inr rfl,Nat.zero_le _,by simp,rfl⟩ ?_
  rintro ⟨attempts,nbCatch⟩ t ⟨mails,hm,hcount,hmore,hattempts,hpolls,hsent⟩
  simp only at hcount hmore hattempts hpolls ⊢
  split
  case isTrue hgo =>
    refine ends_wait.bind ?_
    rintro _ _ ⟨rfl,rfl⟩
    refine (ends_pollBox box .dull).bind ?_
    rintro (_ | mail) u hu
    · obtain ⟨hm',hp,hs⟩ := hm.poll_none hu
      refine .ret ⟨⟨mails,hm',hcount,.inl hgo.2,?_,?_,hs.trans hsent⟩,?_⟩
      all_goals
        simp only [maxCatch] at *
        omega
    · obtain ⟨hm',hp,hs⟩ := hm.poll_some hu
      have hlen : (mails ++ [mail]).length = mails.length + 1 := by simp
      simp only
      split
      case isTrue hall =>
        refine .ret ⟨mails ++ [mail],hm',?_,?_,?_,hs.trans hsent⟩
        all_goals
          simp only [maxCatch] at *
          omega
      case isFalse hall =>
        refine .ret ⟨⟨mails ++ [mail],hm',?_,.inl ?_,?_,?_,hs.trans hsent⟩,?_⟩
        all_goals
          simp only [maxCatch] at *
          omega
  case isFalse hstop =>
    refine .ret ⟨mails,hm,hcount,?_,?_,hsent⟩
    · rcases hmore with h | h
      · omega
      · cases h
        omega
    · rcases hmore with h | h
      · simp only [maxCatch] at *
        omega
      · cases h
        simp only [maxCatch] at *
        omega

/-- The loop of `SendWait` sends and looks once a round. -/
theorem ends_sendLoop (a : Arrivals) (out : Message) (inType : PktType) (inData : List Byte)
    (limit : ℕ) (s : Desk) :
    Ends (Desk.world a) (fun r t => ∃ attempts data m, r = some (attempts,data) ∧
      attempts ≤ limit ∧ m ≤ limit ∧ t.sent = s.sent ++ List.replicate m out ∧
      t.polls ≤ s.polls + limit) (sendLoop out inType inData limit) s := by
  refine .iterate (fun attempts t => attempts ≤ limit ∧
      t.sent = s.sent ++ List.replicate attempts out ∧ t.polls = s.polls + attempts)
    (fun attempts _ => limit - attempts) ⟨Nat.zero_le _,by simp,rfl⟩ ?_
  rintro attempts t ⟨hle,hsent,hpolls⟩
  split
  case isTrue hgo =>
    refine (ends_send out).bind ?_
    rintro _ _ rfl
    refine ends_wait.bind ?_
    rintro _ _ ⟨rfl,rfl⟩
    have hsent' : (t.send out).sent = s.sent ++ List.replicate (attempts + 1) out := by
      rw [Desk.send, List.replicate_succ', ← List.append_assoc, ← hsent]
    have hpolls' : (t.send out).polls = t.polls := rfl
    refine (ends_pollBox inType .message).bind ?_
    rintro (_ | mail) u hu
    · obtain ⟨-,hp,hs⟩ := (Takes.none a inType _).poll_none hu
      refine .ret ⟨⟨hgo,hs.trans hsent',by omega⟩,?_⟩
      omega
    · obtain ⟨-,hp,hs⟩ := (Takes.none a inType _).poll_some hu
      exact .ret ⟨attempts,_,attempts + 1,rfl,hle,hgo,hs.trans hsent',by omega⟩
  case isFalse hstop =>
    exact .ret ⟨attempts,inData,attempts,rfl,hle,hle,hsent,by omega⟩

/-- `SendWait` comes to an end with no more transmissions than its limit. -/
theorem ends_sendWait (a : Arrivals) (out : Message) (inType : PktType) (inData : List Byte)
    (limit : ℕ) (s : Desk) :
    Ends (Desk.world a) (fun _ t => (∃ m ≤ limit, t.sent = s.sent ++ List.replicate m out) ∧
      t.polls ≤ s.polls + (limit + maxCatch * limit)) (sendWait out inType inData limit) s := by
  refine (ends_sendLoop a out inType inData limit s).bind ?_
  rintro _ t ⟨attempts,data,m,rfl,hattempts,hm,hsent,hpolls⟩
  refine (ends_catchMail a inType attempts t).bind ?_
  rintro _ u ⟨mails,-,-,-,hpolls',hsent'⟩
  refine ends_isStopping.bind ?_
  rintro _ _ ⟨rfl,rfl⟩
  refine (ends_charZero out.data).bind ?_
  rintro c _ rfl
  refine .ret ⟨⟨m,hm,hsent'.trans hsent⟩,?_⟩
  simp only [maxCatch] at *
  omega

/-- How many mails match in front of the first that does not; `dull` keeps the bytes that a
mail does not reach. -/
def answered (c : Byte) : List Byte → List TcpMail → ℕ
  | _, [] => 0
  | dull, mail :: rest =>
    let dull := overwrite dull mail.payload
    if Follows (firstChar dull) c then answered c dull rest + 1 else 0

theorem answered_append {c : Byte} {dull : List Byte} {mails : List TcpMail} (mail : TcpMail)
    (h : answered c dull mails = mails.length) :
    answered c dull (mails ++ [mail]) = mails.length +
      if Follows (firstChar (overwrite (mails.foldl (fun d m => overwrite d m.payload) dull)
        mail.payload)) c then 1 else 0 := by
  induction mails generalizing dull with
  | nil =>
    simp only [List.nil_append, answered, List.length_nil, zero_add]
    rfl
  | cons m mails ih =>
    simp only [answered, List.length_cons] at h
    split at h
    case isTrue hm =>
      have hcons : answered c dull (m :: mails ++ [mail]) =
          answered c (overwrite dull m.payload) (mails ++ [mail]) + 1 := by
        simp only [List.cons_append, answered, if_pos hm]
      rw [hcons, ih (Nat.succ.inj h), List.length_cons]
      exact Nat.add_right_comm _ _ _
    case isFalse => cases h

theorem Takes.length_le {a : Arrivals} {box : PktType} {mails : List TcpMail} {s t : Desk}
    (h : Takes a box mails s t) {k : ℕ} (hk : ∀ n, (s.arrivals a box n).length ≤ k) :
    mails.length ≤ k := by
  have := hk (t.polls - s.polls)
  rw [h.fifo, List.length_append] at this
  omega

/-- `CatchWithAnswer` looks no more than `maxCatch` times for each mail that ever arrives and
`maxCatch` times more, and answers the mails it takes up to the first that does not match. -/
theorem ends_catchWithAnswer (a : Arrivals) (box : PktType) (out : Message) (s : Desk) {k : ℕ}
    (hk : ∀ n, (s.arrivals a box n).length ≤ k) :
    Ends (Desk.world a) (fun n t => ∃ dull mails, Takes a box mails s t ∧
      n = (answered (firstChar out.data) dull mails : ℤ) ∧
      mails.length ≤ answered (firstChar out.data) dull mails + 1 ∧
      t.sent = s.sent ++ List.replicate (answered (firstChar out.data) dull mails) out ∧
      t.polls ≤ s.polls + maxCatch * (k + 1)) (catchWithAnswer box out) s := by
  refine ends_memory.bind ?_
  intro start t₀ ht₀
  obtain rfl : s = t₀ := ht₀.symm
  -- so far all mails have matched
  refine .iterate (fun x t => ∃ mails, Takes a box mails s t ∧ x.2.1 = (mails.length : ℤ) ∧
      x.2.2 = mails.foldl (fun d m => overwrite d m.payload) start ∧
      answered (firstChar out.data) start mails = mails.length ∧ x.1 ≤ maxCatch ∧
      t.sent = s.sent ++ List.replicate mails.length out ∧
      t.polls ≤ s.polls + maxCatch * mails.length + x.1)
    (fun _ t => s.polls + maxCatch * (k + 1) - t.polls)
    ⟨[],.none a box s,rfl,rfl,rfl,Nat.zero_le _,by simp,by simp⟩ ?_
  rintro ⟨attempts,nbCatch,dull⟩ t ⟨mails,hm,hcount,hdull,hmatch,hattempts,hsent,hpolls⟩
  simp only at hcount hdull hattempts hpolls ⊢
  have hle := hm.length_le hk
  split
  case isTrue hgo =>
    refine ends_wait.bind ?_
    rintro _ _ ⟨rfl,rfl⟩
    refine (ends_pollBox box .dull).bind ?_
    rintro (_ | mail) u hu
    · obtain ⟨hm',hp,hs⟩ := hm.poll_none hu
      refine .ret ⟨⟨mails,hm',hcount,hdull,hmatch,hgo,hs.trans hsent,?_⟩,?_⟩
      all_goals
        simp only [maxCatch] at *
        omega
    · obtain ⟨hm',hp,hs⟩ := hm.poll_some hu
      have hnext := answered_append mail hmatch
      have hlen : (mails ++ [mail]).length = mails.length + 1 := by simp
      rw [← hdull] at hnext
      simp only
      split
      case isTrue hfollows =>
        rw [if_pos hfollows, ← hlen] at hnext
        refine (ends_send out).bind ?_
        rintro _ _ rfl
        have hp' : (u.send out).polls = u.polls := rfl
        refine .ret ⟨⟨mails ++ [mail],hm'.send out,?_,?_,hnext,Nat.zero_le _,?_,?_⟩,?_⟩
        · simp [hcount]
        · simp [hdull]
        · rw [Desk.send, hs, hsent, hlen, List.replicate_succ', List.append_assoc]
        all_goals
          simp only [maxCatch] at *
          omega
      case isFalse hfollows =>
        rw [if_neg hfollows, add_zero] at hnext
        refine .ret ⟨start,mails ++ [mail],hm',?_,?_,?_,?_⟩
        · rw [hnext, hcount]
        · rw [hnext, hlen]
        · rw [hnext, hs, hsent]
        · simp only [maxCatch] at *
          omega
  case isFalse hstop =>
    refine .ret ⟨start,mails,hm,?_,?_,?_,?_⟩
    · rw [hmatch, hcount]
    · omega
    · rw [hmatch, hsent]
    · simp only [maxCatch] at *
      omega

/-- Whatever arrives and when, without a `STOP` the waiting functions come to an end: `SendWait`
after `limit` transmissions and `limit + maxCatch * limit` looks, `CatchMail` after `maxCatch`
looks for each mail expected, and `CatchWithAnswer`, when `k` mails ever arrive, after
`maxCatch * (k + 1)` looks. -/
theorem boundedWaiting (a : Arrivals) (s : Desk) :
    (∀ out inType inData limit, Ends (Desk.world a)
      (fun _ t => (∃ m ≤ limit, t.sent = s.sent ++ List.replicate m out) ∧
        t.polls ≤ s.polls + (limit + maxCatch * limit)) (sendWait out inType inData limit) s) ∧
    (∀ box expected, Ends (Desk.world a)
      (fun n t => ∃ mails, Takes a box mails s t ∧ n = (mails.length : ℤ) ∧
        n ≤ max expected 0 ∧ t.polls ≤ s.polls + maxCatch * expected.toNat ∧ t.sent = s.sent)
      (catchMail box expected) s) ∧
    ∀ box out k, (∀ n, (s.arrivals a box n).length ≤ k) → Ends (Desk.world a)
      (fun n t => ∃ dull mails, Takes a box mails s t ∧
        n = (answered (firstChar out.data) dull mails : ℤ) ∧
        mails.length ≤ answered (firstChar out.data) dull mails + 1 ∧
        t.sent = s.sent ++ List.replicate (answered (firstChar out.data) dull mails) out ∧
        t.polls ≤ s.polls + maxCatch * (k + 1)) (catchWithAnswer box out) s :=
  ⟨fun out inType inData limit => ends_sendWait a out inType inData limit s,
    fun box expected => ends_catchMail a box expected s,
    fun box out _ hk => ends_catchWithAnswer a box out s hk⟩

def Desk.clear : Desk := ⟨1,fun _ => [],0,[],[]⟩

/-- A mail that arrives in front of the third look. -/
def Desk.oneMail : Arrivals := fun i _ => if i = 2 then [⟨1,[65],0,0⟩] else []

/-- It keeps `CatchWithAnswer` for no more than forty looks. -/
theorem boundedWaiting_oneMail : Ends (Desk.world Desk.oneMail) (fun _ t => t.polls ≤ 40)
    (catchWithAnswer .msg ⟨1,.ack,[66,0],2⟩) Desk.clear := by
  have hlen : ∀ n, (Desk.clear.arrivals Desk.oneMail .msg n).length = if 2 < n then 1 else 0 := by
    intro n
    induction n with
    | zero => rfl
    | succ n ih =>
      simp only [Desk.arrivals, Desk.clear, Desk.oneMail, List.nil_append, Nat.zero_add] at ih ⊢
      rw [List.range_succ, List.flatMap_append, List.length_append, ih]
      by_cases h : n = 2
      · simp [h]
      · simp only [List.flatMap_cons, List.flatMap_nil, List.append_nil, if_neg h, List.length_nil]
        split_ifs <;> omega
  have hk : ∀ n, (Desk.clear.arrivals Desk.oneMail .msg n).length ≤ 1 := by
    intro n
    rw [hlen]
    split_ifs <;> omega
  refine ((boundedWaiting _ Desk.clear).2.2 .msg ⟨1,.ack,[66,0],2⟩ 1 hk).mono ?_
  rintro n t ⟨_,_,_,_,_,_,hpolls⟩
  exact hpolls

end Nachos
