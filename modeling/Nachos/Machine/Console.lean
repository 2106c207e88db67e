import Nachos.Library.Codec
import Nachos.Library.Run
import Mathlib.Logic.Function.Iterate

/-! # The console's input

`CheckCharAvail` and `GetChar` of `console.cc`. The one `char` between them is `EOF` when it is
empty, and `EOF` is a byte that can be typed.
-/
namespace Nachos

/-- `EOF`, as a `char`. -/
def eof : Byte := 0xFF

/-- The buffer, how often `ReadPartial` has been called, and the values that `GetChar` has
returned. Each read is followed by one call of `readHandler`. -/
structure Console where
  incoming : Byte
  reads : ℕ
  returned : List Byte

namespace Console

/-- `pollFile` tells whether there is something to read, and `read` is what `ReadPartial` then
finds, with `none` for no character. -/
def checkCharAvail (c : Console) (pollFile : Bool) (read : Option Byte) : Console :=
  if c.incoming ≠ eof ∨ pollFile = false then c
  else { c with incoming := read.getD eof, reads := c.reads + 1 }

def getChar (c : Console) : Console :=
  { c with incoming := eof, returned := c.returned ++ [c.incoming] }

end Console

inductive ConsoleStep where
  | poll (pollFile : Bool)
  | getChar

/-- The consumer calls `GetChar` once for each call of the handler, at any later time. -/
def consoles (input : ℕ → Option Byte) : TransitionSystem Console ConsoleStep where
  init c := c = ⟨eof,0,[]⟩
  step c l c' :=
    match l with
    | .poll pollFile => c' = c.checkCharAvail pollFile (input c.reads)
    | .getChar => c.returned.length < c.reads ∧ c' = c.getChar

namespace Console
variable (input : ℕ → Option Byte) (c : Console)

/-- The values returned are the bytes of the input, from the first on. -/
def Lossless : Prop := ∀ k < c.returned.length, c.returned[k]? = input k

/-- A poll that reads finds a byte, and while a byte waits for its `GetChar` that byte is 255. -/
def Careful : ConsoleStep → Prop
  | .poll pollFile => c.incoming = eof → pollFile = true →
      ∃ b, input c.reads = some b ∧ (c.returned.length < c.reads → b = eof)
  | .getChar => True

def drain : Console := getChar^[c.reads - c.returned.length] c

/-- What waits for the consumer is the byte in the buffer, or bytes that look like an empty one. -/
structure Held : Prop where
  lossless : c.Lossless input
  owed : c.returned.length ≤ c.reads
  waiting : ∀ k, c.returned.length ≤ k → k < c.reads → input k = some c.incoming
  single : c.incoming ≠ eof → c.reads = c.returned.length + 1

variable {input c} {c' : Console} {l : ConsoleStep}

theorem step_poll (input : ℕ → Option Byte) (c : Console) (pollFile : Bool) : (consoles input).step c
    (.poll pollFile) (c.checkCharAvail pollFile (input c.reads)) := rfl

theorem step_getChar (howed : c.returned.length < c.reads) :
    (consoles input).step c .getChar c.getChar := ⟨howed,rfl⟩

theorem Held.getChar (h : c.Held input) (howed : c.returned.length < c.reads) :
    c.getChar.Held input := by
  have hfirst := h.waiting _ (Nat.le_refl _) howed
  refine ⟨?_,?_,?_,?_⟩
  · intro k hk
    simp only [Console.getChar, List.length_append, List.length_singleton] at hk ⊢
    obtain hlt | rfl := Nat.lt_succ_iff_lt_or_eq.mp hk
    · rw [List.getElem?_append_left hlt]
      exact h.lossless k hlt
    · rw [List.getElem?_concat_length]
      exact hfirst.symm
  · simp only [Console.getChar, List.length_append, List.length_singleton]
    omega
  · intro k hk hreads
    simp only [Console.getChar, List.length_append, List.length_singleton] at hk hreads ⊢
    have hbyte := h.waiting k (by omega) hreads
    by_cases heof : c.incoming = eof
    · rw [hbyte, heof]
    · have hone := h.single heof
      omega
  · intro hne
    exact absurd rfl hne

theorem Held.poll (h : c.Held input) {pollFile : Bool} (hcareful : c.Careful input (.poll pollFile)) :
    (c.checkCharAvail pollFile (input c.reads)).Held input := by
  unfold checkCharAvail
  split
  · exact h
  · rename_i hread
    simp only [ne_eq, not_or, not_not, Bool.not_eq_false] at hread
    obtain ⟨b,hb,heof⟩ := hcareful hread.1 hread.2
    simp only [hb, Option.getD_some]
    refine ⟨h.lossless,Nat.le_succ_of_le h.owed,?_,?_⟩
    · intro k hk hlt
      simp only at hk hlt ⊢
      obtain hold | rfl := Nat.lt_succ_iff_lt_or_eq.mp hlt
      · rw [h.waiting k hk hold, hread.1, heof (by omega)]
      · exact hb
    · intro hne
      have howed := h.owed
      have hnone : ¬ c.returned.length < c.reads := fun hlt => hne (heof hlt)
      simp only at hne ⊢
      omega

theorem Held.step (h : c.Held input) (hcareful : c.Careful input l)
    (hstep : (consoles input).step c l c') : c'.Held input := by
  cases l with
  | poll pollFile =>
    obtain rfl := hstep
    exact h.poll hcareful
  | getChar =>
    obtain ⟨howed,rfl⟩ := hstep
    exact h.getChar howed

theorem held_of_run (h : ((consoles input).guard fun c l => c.Careful input l).Reachable c) :
    c.Held input := by
  refine h.invariant ?_ fun _ _ _ hc hstep => hc.step hstep.1 hstep.2
  intro c hc
  obtain rfl := hc
  refine ⟨?_,Nat.le_refl _,?_,?_⟩
  · intro k hk
    simp at hk
  · intro k _ hk
    simp at hk
  · intro hne
    exact absurd rfl hne

/-- After the first call the buffer is empty, and each further call returns `EOF`. -/
theorem iterate_getChar_returned (n : ℕ) (c : Console) :
    (Console.getChar^[n + 1] c).returned = c.returned ++ c.incoming :: List.replicate n eof := by
  induction n generalizing c with
  | zero => rfl
  | succ n ih =>
    rw [Function.iterate_succ_apply, ih]
    simp [Console.getChar, List.replicate_succ]

theorem Held.drain (h : c.Held input) : c.drain.Held input := by
  unfold Console.drain
  generalize hn : c.reads - c.returned.length = n
  induction n generalizing c with
  | zero => exact h
  | succ n ih =>
    rw [Function.iterate_succ_apply]
    refine ih (h.getChar (by omega)) ?_
    simp only [Console.getChar, List.length_append, List.length_singleton]
    omega

/-- A read that is not careful is found out when the consumer catches up. -/
theorem Held.careful_iff (h : c.Held input) (pollFile : Bool) :
    c.Careful input (.poll pollFile) ↔
      (c.checkCharAvail pollFile (input c.reads)).drain.Lossless input := by
  constructor
  · intro hcareful
    exact (h.poll hcareful).drain.lossless
  · intro hlossless heof hpoll
    obtain ⟨n,hn⟩ := Nat.exists_eq_add_of_le h.owed
    have hdrain : (c.checkCharAvail pollFile (input c.reads)).drain.returned =
        c.returned ++ (input c.reads).getD eof :: List.replicate n eof := by
      simp only [checkCharAvail, heof, hpoll, Console.drain]
      simpa [show c.reads + 1 - c.returned.length = n + 1 by omega] using
        iterate_getChar_returned n _
    have hbyte : ∀ k ≤ n, ((input c.reads).getD eof :: List.replicate n eof)[k]? =
        input (c.returned.length + k) := by
      intro k hk
      have hk' := hlossless (c.returned.length + k) (by simp [hdrain]; omega)
      rw [← hk', hdrain, List.getElem?_append_right (Nat.le_add_right ..), Nat.add_sub_cancel_left]
    cases n with
    | zero =>
      have hlast := hbyte 0 (Nat.le_refl _)
      rw [← hn] at hlast
      exact ⟨_,hlast.symm,fun hlt => absurd hlt (by omega)⟩
    | succ n =>
      have hlast := hbyte (n + 1) (Nat.le_refl _)
      rw [← hn, List.getElem?_cons_succ, List.getElem?_replicate_of_lt n.lt_succ_self] at hlast
      exact ⟨eof,hlast.symm,fun _ => rfl⟩

theorem lossless_of_ne_eof (hbyte : ∀ k, ∃ b, input k = some b ∧ b ≠ eof)
    (h : (consoles input).Reachable c) : c.Lossless input := by
  have hheld : c.Held input := by
    refine h.invariant (fun c hc => held_of_run (.start hc)) fun c l c' hc hstep => hc.step ?_ hstep
    cases l with
    | poll pollFile =>
      intro heof _
      obtain ⟨b,hb,_⟩ := hbyte c.reads
      refine ⟨b,hb,fun howed => ?_⟩
      obtain ⟨b',hb',hne⟩ := hbyte c.returned.length
      rw [hc.waiting _ (Nat.le_refl _) howed, heof] at hb'
      exact absurd (Option.some.inj hb').symm hne
    | getChar => trivial
  exact hheld.lossless

/-- When the file ends, the consumer is handed the `EOF` that `ReadPartial` leaves. -/
theorem lossless_eof (h : ((consoles input).guard fun c l =>
    c.Careful (fun k => some ((input k).getD eof)) l).Reachable c) :
    ∀ k < c.returned.length, c.returned[k]? = some ((input k).getD eof) := by
  have hrun : ((consoles fun k => some ((input k).getD eof)).guard fun c l =>
      c.Careful (fun k => some ((input k).getD eof)) l).Reachable c := by
    refine h.invariant (fun _ hc => .start hc) fun c l c' hc hstep => ?_
    cases l with
    | poll pollFile => exact hc.step ⟨hstep.1,hstep.2⟩
    | getChar => exact hc.step ⟨hstep.1,hstep.2⟩
  exact (held_of_run hrun).lossless

theorem consoleInput (input : ℕ → Option Byte) (c : Console)
    (h : ((consoles input).guard fun c l => c.Careful input l).Reachable c) :
    c.Lossless input ∧ ∀ pollFile, c.Careful input (.poll pollFile) ↔
      (c.checkCharAvail pollFile (input c.reads)).drain.Lossless input :=
  ⟨(held_of_run h).lossless,(held_of_run h).careful_iff⟩

/-- `A` is typed, then 255 twice, then `B`. `A` is polled for again while it waits, and the second
255 is read before the first one is taken. -/
theorem consoleInput_twice :
    let input : ℕ → Option Byte := fun k => [0x41,0xFF,0xFF][k]?.or (some 0x42)
    ∃ c : Console, c.Lossless input ∧ c.returned = [0x41,0xFF,0xFF] ∧ c.reads = 4 := by
  intro input
  let T := (consoles input).guard fun c l => c.Careful input l
  have hpoll : ∀ {c : Console}, T.Reachable c → c.Careful input (.poll true) →
      T.Reachable (c.checkCharAvail true (input c.reads)) :=
    fun hc hcareful => hc.step ⟨hcareful,step_poll _ _ true⟩
  have hget : ∀ {c : Console}, T.Reachable c → c.returned.length < c.reads →
      T.Reachable c.getChar :=
    fun hc howed => hc.step (l := .getChar) ⟨trivial,step_getChar howed⟩
  have hone := hpoll (c := ⟨eof,0,[]⟩) (.start rfl) fun _ _ => ⟨0x41,rfl,by decide⟩
  have htwo := hget (hpoll hone fun h => absurd h (by decide)) (by decide)
  have hthree := hpoll htwo fun _ _ => ⟨0xFF,rfl,fun _ => rfl⟩
  have hfour := hpoll hthree fun _ _ => ⟨0xFF,rfl,fun _ => rfl⟩
  have hfive := hget (hget hfour (by decide)) (by decide)
  have hsix := hpoll hfive fun _ _ => ⟨0x42,rfl,by decide⟩
  exact ⟨_,(consoleInput _ _ hsix).1,rfl,rfl⟩

/-- 255 and then `A` are typed, and a second poll comes before `GetChar`. -/
theorem not_consoleInput : ¬ ∀ (input : ℕ → Option Byte) (c : Console),
    (∀ k, (input k).isSome) → (consoles input).Reachable c → c.Lossless input := by
  intro h
  let input : ℕ → Option Byte := fun k => some (if k = 0 then 0xFF else 0x41)
  have hstart : (consoles input).Reachable ⟨eof,0,[]⟩ := .start rfl
  have hone := hstart.step (step_poll _ _ true)
  have htwo := hone.step (step_poll _ _ true)
  have hget := htwo.step (step_getChar (by decide))
  have hfirst := h input _ (fun _ => rfl) hget 0 (by decide)
  revert hfirst
  decide

end Console

end Nachos
