import Nachos.Network.CutString
import Nachos.Network.Dialogue

/-! # A string goes over the network

`SendString` on one machine and `ReceiveString` on another one.
-/
namespace Nachos

/-- `SendString` on one machine and `ReceiveString` on the other. -/
def stringDialogue {a b : ℤ} {data : List Byte} {pieces : List (List Byte)} (w₀ : Machines)
    (hab : a ≠ b) (hcut : cutString data = some pieces) : Dialogue Unit Unit where
  a := a
  b := b
  type := .stringInfo
  pieces := pieces
  sender := .sendString data
  receiver := .receiveString
  start := w₀
  left := .free _ _
  right := .free _ _
  startLeft := ()
  startRight := ()
  sent r s := r = .status true → s.1.answered = pieces.length + 1 ∧ s.1.failed = false
  received r s := r ≠ .text none → Receiving.Taken .stringInfo s.1
  ne := hab
  lossless := False
  type_ne_msg := by decide
  type_ne_stop := by decide
  sat_sender := by
    refine (Sending.sat_sendString hcut (cutString_ne_nil hcut)).along_free.bind ?_
    intro r s hr heq
    exact hr (CallResult.status.inj heq)
  sat_receiver := by
    refine Receiving.sat_receiveString.along_free.bind ?_
    intro r s hr hne
    exact hr fun hnone => hne (congrArg CallResult.text hnone)

/-- From a state where the two machines are connected and nothing is left of earlier transfers, when
`SendString` and `ReceiveString` both report success, consecutive messages having begun with
different bytes if there is more than one piece, the pieces taken are those that were cut. -/
theorem stringTransfer {a b : ℤ} {data : List Byte} {w₀ w : Machines} {text : List Byte}
    (h₀ : machines.Reachable w₀) (hquiet : w₀.Quiet a b .stringInfo)
    (hne : data ≠ []) (hint : IsInt (nbPieces data.length))
    (hd : ∀ pieces, cutString data = some pieces → 1 < pieces.length →
      Dialogue.Distinguished pieces)
    (h : ((machines.startAt w₀).guard
      (Machines.OneCallEach a b (.sendString data) .receiveString w₀)).Reachable w)
    (hsent : (w.office a).log = (w₀.office a).log ++ [(.sendString data,.status true)])
    (hreceived : (w.office b).log = (w₀.office b).log ++ [(.receiveString,.text (some text))]) :
    cutString data = some (w.office b).piecesTaken := by
  have hsize : nbPieces data.length ≠ 0 := by
    have hpos := List.length_pos_iff.mpr hne
    have hsize : maxMailSize = 40 := rfl
    rw [nbPieces, hsize]
    split_ifs <;> omega
  obtain ⟨pieces,hcut⟩ : ∃ pieces, cutString data = some pieces := by
    rw [cutString]
    exact ⟨_,if_neg hsize⟩
  obtain ⟨D,hD⟩ : ∃ D, D = stringDialogue w₀ hquiet.ne hcut := ⟨_,rfl⟩
  have hrun : ∃ s, s.InOrder D.token Dialogue.box D.count D.lossless ∧ D.Corresponds w s () () := by
    subst hD
    refine Dialogue.corresponds_of_run (N := fun w => w) (L := fun _ => ()) (R := fun _ => ())
      ?_ ?_ (Dialogue.telling ?_ fun _ => hd pieces hcut) h
    · rintro _ rfl
      exact Dialogue.corresponds_start h₀ hquiet
    · rintro w l w' ⟨hok,hstep⟩
      exact ⟨l,hok,False.elim,hstep,w.responds_free,w.responds_free⟩
    · by_cases hlt : 1 < pieces.length
      · exact (hd pieces hcut hlt).tail
      · obtain _ | ⟨piece,_ | ⟨_,_⟩⟩ := pieces
        · exact .nil
        · exact .singleton _
        · exact absurd (Nat.succ_lt_succ (Nat.succ_pos _)) hlt
  obtain ⟨s,hin,hc⟩ := hrun
  subst hD
  rw [← length_cutString hcut] at hint
  obtain ⟨htaken,-⟩ := hc.results hin hint hsent hreceived (fun _ hr => hr rfl)
    fun _ hr => hr (by simp)
  rw [hcut]
  exact congrArg some (Dialogue.piecesTaken_eq htaken).symm

/-! Runs of machines 0 and 1. -/

namespace Machines

def announces (data : List Byte) : List MachinesStep :=
  [.own 0 (.call (.sendString data)),.own 1 (.call .receiveString)] ++ runs 0 .user 5 ++
    runs 1 .user 4 ++ mailToReceiver ++ runs 1 .user 8 ++ ackToSender ++ runs 0 .user 12 ++
    waitsOut 1 ++ runs 1 .user 4

theorem exists_transfer (data : List Byte) (ls : List MachinesStep) {P : Machines → Machines → Prop}
    [∀ w₀ w, Decidable (P w₀ w)]
    (h : ((new.steps (connects 0 1)).any fun w₀ =>
      (w₀.stepsWhere (OneCallEach 0 1 (.sendString data) .receiveString w₀) ls).any fun w =>
        decide (w₀.Rests .stringInfo ∧
          P w₀ w)) = true) :
    ∃ w₀ w, machines.Reachable w₀ ∧ w₀.Quiet 0 1 .stringInfo ∧ ((machines.startAt w₀).guard
      (OneCallEach 0 1 (.sendString data) .receiveString w₀)).Reachable w ∧ P w₀ w := by
  simp only [Option.any_eq_true, decide_eq_true_eq] at h
  obtain ⟨w₀,hw₀,w,hw,hrests,hP⟩ := h
  have hconnected : machines.Reachable w₀ := TransitionSystem.Reachable.startAt (.start new_new)
    (startAt_steps (.start rfl) hw₀)
  exact ⟨w₀,w,hconnected,hrests.quiet,
    reachable_stepsWhere (T := machines.startAt w₀) rfl (.start rfl) hw,hP⟩

end Machines

/-- Two pieces, the second of which is `B`. -/
theorem stringTransfer_two : ∃ w : Machines,
    (w.office 1).piecesTaken = [List.replicate 40 65,[66]] ∧
    cutString (List.replicate 40 65 ++ [66]) = some (w.office 1).piecesTaken ∧
    (w.office 1).log.getLast? =
      some (.receiveString,.text (some (List.replicate 40 65 ++ [66]))) := by
  obtain ⟨w₀,w,h₀,hquiet,h,hsent,hreceived,htaken⟩ :=
    Machines.exists_transfer (List.replicate 40 65 ++ [66])
    (Machines.announces (List.replicate 40 65 ++ [66]) ++ Machines.mailToReceiver ++
      Machines.runs 1 .user 8 ++ Machines.ackToSender ++ Machines.runs 0 .user 7 ++
      Machines.waitsOut 1 ++ Machines.runs 1 .user 5 ++ Machines.wakes 0 pauseTicks ++
      Machines.runs 0 .user 8 ++ Machines.mailToReceiver ++ Machines.runs 1 .user 8 ++
      Machines.ackToSender ++ Machines.runs 0 .user 7 ++ Machines.waitsOut 1 ++
      Machines.wakes 0 pauseTicks ++ Machines.runs 0 .user 3 ++
      [.own 0 (.finish .user),.own 1 (.finish .user)])
    (P := fun w₀ w => (w.office 0).log = (w₀.office 0).log ++
        [(.sendString (List.replicate 40 65 ++ [66]),.status true)] ∧
      (w.office 1).log = (w₀.office 1).log ++
        [(.receiveString,.text (some (List.replicate 40 65 ++ [66])))] ∧
      (w.office 1).piecesTaken = [List.replicate 40 65,[66]])
    (by decide +kernel)
  refine ⟨w,htaken,stringTransfer h₀ hquiet (by decide) (by decide) ?_ h hsent hreceived,?_⟩
  · rintro pieces hpieces -
    rw [show cutString (List.replicate 40 65 ++ [66]) = some [List.replicate 40 65,[66]] by
      decide] at hpieces
    cases hpieces
    unfold Dialogue.Distinguished
    decide
  · rw [hreceived, List.getLast?_concat]

/-- The first of two pieces, whose ack is lost, is taken again for the second one, which begins
with the same byte. -/
theorem not_stringTransfer : ∃ (w₀ w : Machines) (text : List Byte), machines.Reachable w₀ ∧
    w₀.Quiet 0 1 .stringInfo ∧ ((machines.startAt w₀).guard (Machines.OneCallEach 0 1
      (.sendString (List.replicate 41 65)) .receiveString w₀)).Reachable w ∧
    (w.office 0).log = (w₀.office 0).log ++
      [(.sendString (List.replicate 41 65),.status true)] ∧
    (w.office 1).log = (w₀.office 1).log ++ [(.receiveString,.text (some text))] ∧
    (w.office 1).piecesTaken = [List.replicate 40 65,List.replicate 40 65] ∧
    cutString (List.replicate 41 65) ≠ some (w.office 1).piecesTaken := by
  obtain ⟨w₀,w,h₀,hquiet,h,hsent,hreceived,htaken⟩ :=
    Machines.exists_transfer (List.replicate 41 65)
    (Machines.announces (List.replicate 41 65) ++ Machines.mailToReceiver ++
      Machines.runs 1 .user 8 ++ [.lose 1 0 0] ++ Machines.waitsOut 1 ++ Machines.runs 1 .user 5 ++
      Machines.wakes 0 tempo ++ Machines.runs 0 .user 7 ++ Machines.mailToReceiver ++
      Machines.runs 1 .user 8 ++ Machines.ackToSender ++ Machines.runs 0 .user 6 ++
      Machines.waitsOut 0 ++ Machines.runs 0 .user 1 ++ Machines.wakes 0 pauseTicks ++
      Machines.runs 0 .user 8 ++ Machines.mailToReceiver ++ Machines.runs 1 .user 7 ++
      Machines.ackToSender ++ Machines.runs 0 .user 7 ++ Machines.wakes 0 pauseTicks ++
      Machines.runs 0 .user 3 ++ Machines.waitsOut 1 ++ Machines.runs 1 .user 1 ++
      [.own 0 (.finish .user),.own 1 (.finish .user)])
    (P := fun w₀ w => (w.office 0).log = (w₀.office 0).log ++
        [(.sendString (List.replicate 41 65),.status true)] ∧
      (w.office 1).log = (w₀.office 1).log ++
        [(.receiveString,.text (some (List.replicate 80 65)))] ∧
      (w.office 1).piecesTaken = [List.replicate 40 65,List.replicate 40 65])
    (by decide +kernel)
  refine ⟨w₀,w,_,h₀,hquiet,h,hsent,hreceived,htaken,?_⟩
  rw [htaken]
  decide

end Nachos
