import Mathlib.Data.List.Perm.Subperm
import Mathlib.Data.List.Range
import Mathlib.Logic.Function.Basic
import Mathlib.Logic.Relation
import Mathlib.Order.Monotone.Basic

/-! # Stop and wait with tokens

A sender has messages `0, .., count - 1`. It sends one of them again and again until it takes an
answer, and goes on to the next one if the token of the answer is that of the message. The
receiver takes its messages one after the other from the boxes they belong in, and answers with
the token of the message it has taken last. Boxes keep their order and lose anything, or nothing
before the receiver has begun to take from them. Where consecutive tokens differ, in the latter
case those of one box, the messages taken are those sent; a last message with a box of its own
needs no token.
-/
namespace Nachos

/-- The messages and answers under way are known by the numbers of the messages; `sent` says
whether the one to be answered next has been sent. -/
structure Exchange where
  answered : ℕ
  failed : Bool
  sent : Bool
  data : ℕ → List ℕ
  accepted : List ℕ
  answers : List ℕ

namespace Exchange

def start : Exchange := ⟨0,false,false,fun _ => [],[],[]⟩

section Step
variable {τ : Type*} (token : ℕ → τ) (box : ℕ → ℕ) (count : ℕ) (lossless : Prop)

inductive Step (s : Exchange) : Exchange → Prop
  | send : s.failed = false → s.answered < count → Step s { s with
      sent := true
      data := Function.update s.data (box s.answered) (s.data (box s.answered) ++ [s.answered]) }
  | lose {b : ℕ} {l : List ℕ} : (lossless → ∃ j ∈ s.accepted, box j = b) → l.Sublist (s.data b) →
      Step s { s with data := Function.update s.data b l }
  | loseAnswer {l : List ℕ} : l.Sublist s.answers → Step s { s with answers := l }
  | accept {k : ℕ} {l : List ℕ} : s.data (box s.accepted.length) = k :: l → Step s { s with
      data := Function.update s.data (box s.accepted.length) l
      accepted := s.accepted ++ [k] }
  | answer {k : ℕ} : s.accepted.getLast? = some k → Step s { s with answers := s.answers ++ [k] }
  | confirm {k : ℕ} {l : List ℕ} : s.answers = k :: l → s.failed = false → s.sent = true →
      s.answered < count → token k = token s.answered →
      Step s { s with answers := l, answered := s.answered + 1, sent := false }
  | refuse {k : ℕ} {l : List ℕ} : s.answers = k :: l →
      Step s { s with answers := l, failed := true }

/-- Consecutive tokens differ, unless a box begins there and nothing is lost or it is the box of
the last message. -/
def Telling : Prop :=
  ∀ k, k + 1 < count → box k = box (k + 1) ∨ ¬ lossless ∧ k + 2 < count → token k ≠ token (k + 1)

/-- A message has been accepted; or it is the first one of its box, and it lies there and nothing
has been taken from there, or it is the last one. -/
inductive Reaches (s : Exchange) (k : ℕ) : Prop
  | accepted : k ∈ s.accepted → Reaches s k
  | waits : lossless → (∀ j < k, box j ≠ box k) → k ∈ s.data (box k) →
      (∀ j ∈ s.accepted, box j ≠ box k) → Reaches s k
  | last : k + 1 = count → (∀ j < k, box j ≠ box k) → Reaches s k

/-- Both streams are in order, and what has been answered reaches the receiver. -/
structure InOrder (s : Exchange) : Prop where
  data_sorted : ∀ b, (s.data b).Pairwise (· ≤ ·)
  data_box : ∀ b, ∀ k ∈ s.data b, box k = b ∧ k ≤ s.answered
  data_count : ∀ b, ∀ k ∈ s.data b, k < count
  data_later : ∀ b, ∀ k ∈ s.data b, ∀ j ∈ s.accepted, box j = b → j ≤ k
  accepted_sorted : s.accepted.Pairwise (· ≤ ·)
  accepted_box : s.accepted.map box = (List.range s.accepted.length).map box
  accepted_sent : ∀ j ∈ s.accepted, j ≤ s.answered
  accepted_count : ∀ j ∈ s.accepted, j < count
  answers_sorted : s.answers.Pairwise (· ≤ ·)
  answers_accepted : ∀ k ∈ s.answers, k ∈ s.accepted
  /-- A late answer looks like an answer to all that has been answered since. -/
  answers_late : s.failed = false → ∀ k ∈ s.answers, ∀ j, k ≤ j → j < s.answered →
    token j = token k
  covered : s.failed = false → ∀ k < s.answered, Reaches box count lossless s k
  /-- Not yet accepted, a message has been answered by an answer to the one before. -/
  covered_early : s.failed = false → ∀ k < s.answered, k ∉ s.accepted →
    ∃ j, j + 1 = k ∧ token j = token k
  sent_reaches : s.failed = false → s.sent = true → lossless →
    (∀ j < s.answered, box j ≠ box s.answered) → Reaches box count lossless s s.answered

variable {token : ℕ → τ} {box : ℕ → ℕ} {count : ℕ} {lossless : Prop} {s t : Exchange}

namespace Reaches
variable {k m : ℕ}

theorem congr (h : Reaches box count lossless s k) (hdata : t.data = s.data)
    (haccepted : t.accepted = s.accepted) : Reaches box count lossless t k := by
  cases h with
  | accepted h => exact .accepted (haccepted ▸ h)
  | waits hl hfirst hmem hnone => exact .waits hl hfirst (hdata ▸ hmem) (haccepted ▸ hnone)
  | last hk hfirst => exact .last hk hfirst

theorem send (h : Reaches box count lossless s k) (b m : ℕ) : Reaches box count lossless { s with
    sent := true, data := Function.update s.data b (s.data b ++ [m]) } k := by
  cases h with
  | accepted h => exact .accepted h
  | waits hl hfirst hmem hnone =>
    refine .waits hl hfirst ?_ hnone
    dsimp only
    by_cases hb : box k = b
    · subst hb
      rw [Function.update_self]
      exact List.mem_append_left _ hmem
    · rw [Function.update_of_ne hb]
      exact hmem
  | last hk hfirst => exact .last hk hfirst

theorem lose {b : ℕ} {l : List ℕ} (h : Reaches box count lossless s k)
    (hb : lossless → ∃ j ∈ s.accepted, box j = b) :
    Reaches box count lossless { s with data := Function.update s.data b l } k := by
  cases h with
  | accepted h => exact .accepted h
  | waits hl hfirst hmem hnone =>
    obtain ⟨j,hj,rfl⟩ := hb hl
    refine .waits hl hfirst ?_ hnone
    dsimp only
    rw [Function.update_of_ne (hnone j hj).symm]
    exact hmem
  | last hk hfirst => exact .last hk hfirst

/-- What is taken from the box of a message that waits is that message. -/
theorem accept {l : List ℕ} (h : Reaches box count lossless s k)
    (hs : InOrder token box count lossless s) (hm : s.data (box s.accepted.length) = m :: l) :
    Reaches box count lossless { s with
      data := Function.update s.data (box s.accepted.length) l
      accepted := s.accepted ++ [m] } k := by
  cases h with
  | accepted h => exact .accepted (List.mem_append_left _ h)
  | last hk hfirst => exact .last hk hfirst
  | waits hl hfirst hmem hnone =>
    have hmbox := (hs.data_box _ m (by rw [hm]; exact List.mem_cons_self)).1
    by_cases hb : box k = box s.accepted.length
    · have hsorted := hs.data_sorted (box s.accepted.length)
      rw [hb, hm] at hmem
      rw [hm, List.pairwise_cons] at hsorted
      refine .accepted (List.mem_append_right _ (List.mem_singleton.mpr ?_))
      rcases List.mem_cons.mp hmem with rfl | hmem
      · rfl
      · by_contra hne
        exact hfirst m (lt_of_le_of_ne (hsorted.1 k hmem) (Ne.symm hne)) (hmbox.trans hb.symm)
    · refine .waits hl hfirst ?_ fun j hj => ?_
      · dsimp only
        rw [Function.update_of_ne hb]
        exact hmem
      · rcases List.mem_append.mp hj with hj | hj
        · exact hnone j hj
        · rw [List.mem_singleton.mp hj, hmbox]
          exact Ne.symm hb

end Reaches

theorem InOrder.start : InOrder token box count lossless start := by
  constructor <;> simp [Exchange.start]

namespace InOrder

theorem le_head (h : InOrder token box count lossless s) (hbox : Monotone box) {k : ℕ} {l : List ℕ}
    (hk : s.data (box s.accepted.length) = k :: l) {j : ℕ} (hj : j ∈ s.accepted) : j ≤ k := by
  have hkbox := (h.data_box _ k (by rw [hk]; exact List.mem_cons_self)).1
  by_cases heq : box j = box s.accepted.length
  · exact h.data_later _ k (by rw [hk]; exact List.mem_cons_self) j hj heq
  · -- the boxes follow one another
    have hmem : box j ∈ (List.range s.accepted.length).map box := by
      rw [← h.accepted_box]
      exact List.mem_map_of_mem hj
    obtain ⟨p,hp,hpj⟩ := List.mem_map.mp hmem
    have hle : box j ≤ box k := by
      rw [hkbox, ← hpj]
      exact hbox (List.mem_range.mp hp).le
    by_contra hlt
    have := hbox (Nat.le_of_not_le hlt)
    omega

theorem le_last (h : InOrder token box count lossless s) {k : ℕ} (hk : s.accepted.getLast? = some k)
    {j : ℕ} (hj : j ∈ s.accepted) : j ≤ k := by
  obtain ⟨l,hl⟩ := List.getLast?_eq_some_iff.mp hk
  have hs := h.accepted_sorted
  rw [hl, List.pairwise_append] at hs
  rw [hl, List.mem_append, List.mem_singleton] at hj
  rcases hj with hj | rfl
  · exact hs.2.2 j hj k List.mem_cons_self
  · exact le_rfl

/-- An answer to an older message is taken for one to the message that is sent only where that is
the first one of its box. -/
theorem answered_reaches (h : InOrder token box count lossless s) (hbox : Monotone box)
    (htoken : Telling token box count lossless)
    {k : ℕ} (hk : k ∈ s.answers) (hfailed : s.failed = false) (hsent : s.sent = true)
    (hcount : s.answered < count) (heq : token k = token s.answered) :
    Reaches box count lossless s s.answered := by
  have hle := h.accepted_sent k (h.answers_accepted k hk)
  rcases hle.eq_or_lt with hkeq | hlt
  · exact .accepted (hkeq ▸ h.answers_accepted k hk)
  obtain ⟨m,hm⟩ := Nat.exists_eq_add_of_lt hlt
  generalize hp : k + m = p at hm
  have hlate : token p = token (p + 1) := by
    rw [h.answers_late hfailed k hk p (by omega) (by omega), ← hm]
    exact heq
  have hlt : p + 1 < count := hm ▸ hcount
  have hne : box p ≠ box (p + 1) := fun hb => htoken p hlt (.inl hb) hlate
  have hfirst : ∀ j < s.answered, box j ≠ box s.answered := by
    intro j hj
    rw [hm] at hj ⊢
    exact ((hbox (Nat.le_of_lt_succ hj)).trans_lt (lt_of_le_of_ne (hbox (Nat.le_succ p)) hne)).ne
  by_cases hl : lossless
  · exact h.sent_reaches hfailed hsent hl hfirst
  · refine .last ?_ hfirst
    by_contra hlast
    exact htoken p hlt (.inr ⟨hl,by omega⟩) hlate

theorem send (h : InOrder token box count lossless s) (hcount : s.answered < count) :
    InOrder token box count lossless { s with
      sent := true
      data := Function.update s.data (box s.answered)
        (s.data (box s.answered) ++ [s.answered]) } where
  data_sorted b := by
    dsimp only
    by_cases hb : b = box s.answered
    · subst hb
      rw [Function.update_self, List.pairwise_append]
      refine ⟨h.data_sorted _,List.pairwise_singleton _ _,fun k hk j hj => ?_⟩
      rw [List.mem_singleton.mp hj]
      exact (h.data_box _ k hk).2
    · rw [Function.update_of_ne hb]
      exact h.data_sorted b
  data_box b k hk := by
    dsimp only at hk ⊢
    by_cases hb : b = box s.answered
    · subst hb
      rw [Function.update_self, List.mem_append, List.mem_singleton] at hk
      rcases hk with hk | rfl
      · exact h.data_box _ k hk
      · exact ⟨rfl,le_rfl⟩
    · rw [Function.update_of_ne hb] at hk
      exact h.data_box b k hk
  data_count b k hk := by
    dsimp only at hk
    by_cases hb : b = box s.answered
    · subst hb
      rw [Function.update_self, List.mem_append, List.mem_singleton] at hk
      rcases hk with hk | rfl
      · exact h.data_count _ k hk
      · exact hcount
    · rw [Function.update_of_ne hb] at hk
      exact h.data_count b k hk
  data_later b k hk j hj hjb := by
    dsimp only at hk
    by_cases hb : b = box s.answered
    · subst hb
      rw [Function.update_self, List.mem_append, List.mem_singleton] at hk
      rcases hk with hk | rfl
      · exact h.data_later _ k hk j hj hjb
      · exact h.accepted_sent j hj
    · rw [Function.update_of_ne hb] at hk
      exact h.data_later b k hk j hj hjb
  accepted_sorted := h.accepted_sorted
  accepted_box := h.accepted_box
  accepted_sent := h.accepted_sent
  accepted_count := h.accepted_count
  answers_sorted := h.answers_sorted
  answers_accepted := h.answers_accepted
  answers_late := h.answers_late
  covered hf k hk := (h.covered hf k hk).send _ _
  covered_early := h.covered_early
  sent_reaches _ _ hlossless hfirst := by
    by_cases hnone : ∀ j ∈ s.accepted, box j ≠ box s.answered
    · refine .waits hlossless hfirst ?_ hnone
      dsimp only
      rw [Function.update_self]
      exact List.mem_append_right _ List.mem_cons_self
    · push Not at hnone
      obtain ⟨j,hj,hjb⟩ := hnone
      rcases (h.accepted_sent j hj).eq_or_lt with hje | hlt
      · exact .accepted (hje ▸ hj)
      · exact absurd hjb (hfirst j hlt)

theorem lose (h : InOrder token box count lossless s) {b : ℕ} {l : List ℕ}
    (hb : lossless → ∃ j ∈ s.accepted, box j = b) (hl : l.Sublist (s.data b)) :
    InOrder token box count lossless { s with data := Function.update s.data b l } := by
  have hsub : ∀ c, (Function.update s.data b l c).Sublist (s.data c) := by
    intro c
    by_cases hc : c = b
    · subst hc
      rwa [Function.update_self]
    · rw [Function.update_of_ne hc]
  exact { h with
    data_sorted := fun c => (h.data_sorted c).sublist (hsub c)
    data_box := fun c k hk => h.data_box c k ((hsub c).subset hk)
    data_count := fun c k hk => h.data_count c k ((hsub c).subset hk)
    data_later := fun c k hk => h.data_later c k ((hsub c).subset hk)
    covered := fun hf k hk => (h.covered hf k hk).lose hb
    sent_reaches := fun hf hs hlossless hfirst => (h.sent_reaches hf hs hlossless hfirst).lose hb }

theorem loseAnswer (h : InOrder token box count lossless s) {l : List ℕ}
    (hl : l.Sublist s.answers) : InOrder token box count lossless { s with answers := l } :=
  { h with
    answers_sorted := h.answers_sorted.sublist hl
    answers_accepted := fun k hk => h.answers_accepted k (hl.subset hk)
    answers_late := fun hf k hk => h.answers_late hf k (hl.subset hk)
    covered := fun hf k hk => (h.covered hf k hk).congr rfl rfl
    sent_reaches := fun hf hs hlossless hfirst =>
      (h.sent_reaches hf hs hlossless hfirst).congr rfl rfl }

theorem accept (h : InOrder token box count lossless s) (hbox : Monotone box) {k : ℕ} {l : List ℕ}
    (hk : s.data (box s.accepted.length) = k :: l) : InOrder token box count lossless { s with
      data := Function.update s.data (box s.accepted.length) l
      accepted := s.accepted ++ [k] } := by
  have hmem : k ∈ s.data (box s.accepted.length) := by
    rw [hk]
    exact List.mem_cons_self
  have hsorted := h.data_sorted (box s.accepted.length)
  rw [hk, List.pairwise_cons] at hsorted
  have hsub : ∀ c, (Function.update s.data (box s.accepted.length) l c).Sublist (s.data c) := by
    intro c
    by_cases hc : c = box s.accepted.length
    · rw [hc, Function.update_self, hk]
      exact List.sublist_cons_self k l
    · rw [Function.update_of_ne hc]
  refine { h with
    data_sorted := fun c => (h.data_sorted c).sublist (hsub c)
    data_box := fun c j hj => h.data_box c j ((hsub c).subset hj)
    data_count := fun c j hj => h.data_count c j ((hsub c).subset hj)
    data_later := fun b j hj i hi hib => ?_
    accepted_sorted := ?_
    accepted_box := ?_
    accepted_sent := ?_
    accepted_count := ?_
    answers_accepted := fun j hj => List.mem_append_left _ (h.answers_accepted j hj)
    covered := fun hf j hj => (h.covered hf j hj).accept h hk
    covered_early := fun hf j hj hnot =>
      h.covered_early hf j hj fun hold => hnot (List.mem_append_left _ hold)
    sent_reaches := fun hf hs hlossless hfirst =>
      (h.sent_reaches hf hs hlossless hfirst).accept h hk }
  · rcases List.mem_append.mp hi with hi | hi
    · exact h.data_later b j ((hsub b).subset hj) i hi hib
    · obtain rfl := List.mem_singleton.mp hi
      obtain rfl : b = box s.accepted.length := hib.symm.trans (h.data_box _ i hmem).1
      dsimp only at hj
      rw [Function.update_self] at hj
      exact hsorted.1 j hj
  · rw [List.pairwise_append]
    refine ⟨h.accepted_sorted,List.pairwise_singleton _ _,fun j hj i hi => ?_⟩
    rw [List.mem_singleton.mp hi]
    exact h.le_head hbox hk hj
  · simp only [List.map_append, List.length_append, List.length_singleton, List.range_succ,
      h.accepted_box, List.map_cons, List.map_nil, (h.data_box _ k hmem).1]
  · intro j hj
    rcases List.mem_append.mp hj with hj | hj
    · exact h.accepted_sent j hj
    · rw [List.mem_singleton.mp hj]
      exact (h.data_box _ k hmem).2
  · intro j hj
    rcases List.mem_append.mp hj with hj | hj
    · exact h.accepted_count j hj
    · rw [List.mem_singleton.mp hj]
      exact h.data_count _ k hmem

theorem answer (h : InOrder token box count lossless s) {k : ℕ}
    (hk : s.accepted.getLast? = some k) : InOrder token box count lossless { s with answers := s.answers ++ [k] } := by
  refine { h with
    answers_sorted := ?_
    answers_accepted := ?_
    answers_late := ?_
    covered := fun hf j hj => (h.covered hf j hj).congr rfl rfl
    sent_reaches := fun hf hs hlossless hfirst =>
      (h.sent_reaches hf hs hlossless hfirst).congr rfl rfl }
  · rw [List.pairwise_append]
    refine ⟨h.answers_sorted,List.pairwise_singleton _ _,fun j hj i hi => ?_⟩
    rw [List.mem_singleton.mp hi]
    exact h.le_last hk (h.answers_accepted j hj)
  · intro j hj
    rcases List.mem_append.mp hj with hj | hj
    · exact h.answers_accepted j hj
    · rw [List.mem_singleton.mp hj]
      exact List.mem_of_getLast? hk
  · intro hf j hj
    rcases List.mem_append.mp hj with hj | hj
    · exact h.answers_late hf j hj
    · rw [List.mem_singleton.mp hj]
      -- none of the messages answered since has been accepted
      intro i hki
      induction i, hki using Nat.le_induction with
      | base => exact fun _ => rfl
      | succ i hki ih =>
        intro hi
        have hnot : i + 1 ∉ s.accepted := fun hmem => by
          have := h.le_last hk hmem
          omega
        obtain ⟨_,⟨⟩,htoken⟩ := h.covered_early hf (i + 1) hi hnot
        exact htoken.symm.trans (ih (Nat.lt_of_succ_lt hi))

theorem confirm (h : InOrder token box count lossless s) (hbox : Monotone box)
    (htoken : Telling token box count lossless)
    {k : ℕ} {l : List ℕ} (hk : s.answers = k :: l) (hfailed : s.failed = false)
    (hsent : s.sent = true) (hcount : s.answered < count) (heq : token k = token s.answered) :
    InOrder token box count lossless
      { s with answers := l, answered := s.answered + 1, sent := false } := by
  have hmem : k ∈ s.answers := by
    rw [hk]
    exact List.mem_cons_self
  have hsub : l.Sublist s.answers := by
    rw [hk]
    exact List.sublist_cons_self k l
  have hle := h.accepted_sent k (h.answers_accepted k hmem)
  have hsorted := h.answers_sorted
  rw [hk, List.pairwise_cons] at hsorted
  refine { h with
    data_box := fun b j hj => ⟨(h.data_box b j hj).1,(h.data_box b j hj).2.trans (Nat.le_succ _)⟩
    accepted_sent := fun j hj => (h.accepted_sent j hj).trans (Nat.le_succ _)
    answers_sorted := hsorted.2
    answers_accepted := fun j hj => h.answers_accepted j (hsub.subset hj)
    answers_late := fun _ i hi j hij hj => ?_
    covered := fun _ j hj => Reaches.congr (s := s) ?_ rfl rfl
    covered_early := fun _ j hj hnot => ?_
    sent_reaches := nofun }
  · rcases Nat.lt_succ_iff_lt_or_eq.mp hj with hj | rfl
    · exact h.answers_late hfailed i (hsub.subset hi) j hij hj
    · rcases hij.eq_or_lt with rfl | hlt
      · rfl
      · rw [← heq, h.answers_late hfailed k hmem i (hsorted.1 i hi) hlt]
  · rcases Nat.lt_succ_iff_lt_or_eq.mp hj with hj | rfl
    · exact h.covered hfailed j hj
    · exact h.answered_reaches hbox htoken hmem hfailed hsent hcount heq
  · rcases Nat.lt_succ_iff_lt_or_eq.mp hj with hj | rfl
    · exact h.covered_early hfailed j hj hnot
    · obtain ⟨m,hm⟩ := Nat.exists_eq_add_of_lt (hle.lt_of_ne fun he =>
        hnot (he ▸ h.answers_accepted k hmem))
      refine ⟨k + m,hm.symm,?_⟩
      rw [h.answers_late hfailed k hmem (k + m) (Nat.le_add_right k m) (by omega), heq]

theorem step (h : InOrder token box count lossless s) (hbox : Monotone box)
    (htoken : Telling token box count lossless)
    (hs : Step token box count lossless s t) : InOrder token box count lossless t := by
  cases hs with
  | send _ hcount => exact h.send hcount
  | lose hb hl => exact h.lose hb hl
  | loseAnswer hl => exact h.loseAnswer hl
  | accept hk => exact h.accept hbox hk
  | answer hk => exact h.answer hk
  | confirm hk hfailed hsent hcount heq => exact h.confirm hbox htoken hk hfailed hsent hcount heq
  | @refuse k l hk =>
    have hlose := h.loseAnswer (l := l) (by rw [hk]; exact List.sublist_cons_self _ l)
    exact { hlose with
      answers_late := nofun
      covered := nofun
      covered_early := nofun
      sent_reaches := nofun }

/-- When all messages have been answered and as many been taken, they are the messages sent. -/
theorem accepted_eq (h : InOrder token box count lossless s) (hfailed : s.failed = false)
    (hlen : s.accepted.length = s.answered) : s.accepted = List.range s.answered := by
  have hall : ∀ k < s.answered, k ∈ s.accepted := by
    intro k hk
    have hmem : box k ∈ s.accepted.map box := by
      rw [h.accepted_box, hlen]
      exact List.mem_map_of_mem (List.mem_range.mpr hk)
    obtain ⟨j,hj,hjb⟩ := List.mem_map.mp hmem
    cases h.covered hfailed k hk with
    | accepted h => exact h
    | waits _ _ _ hnone => exact absurd hjb (hnone j hj)
    | last hlast hfirst =>
      have hjk : j = k := by
        by_contra hne
        have := h.accepted_count j hj
        exact hfirst j (by omega) hjb
      exact hjk ▸ hj
  have hsub : (List.range s.answered).Subperm s.accepted :=
    List.subperm_of_subset List.nodup_range fun k hk => hall k (List.mem_range.mp hk)
  have hperm := hsub.perm_of_length_le (by rw [List.length_range]; exact hlen.le)
  exact (List.Perm.eq_of_pairwise (fun _ _ _ _ => Nat.le_antisymm) List.pairwise_le_range
    h.accepted_sorted hperm).symm

end InOrder

theorem inOrder_of_run (hbox : Monotone box)
    (htoken : Telling token box count lossless)
    (h : Relation.ReflTransGen (Step token box count lossless) start s) :
    InOrder token box count lossless s := by
  induction h with
  | refl => exact .start
  | tail _ hs ih => exact ih.step hbox htoken hs

end Step

end Exchange

end Nachos
