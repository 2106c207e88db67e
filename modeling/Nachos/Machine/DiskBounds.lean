import Nachos.Machine.DiskLatency

/-! # Bounds of a disk request

A request takes between one rotation of the disk by a sector and a seek over all the tracks with a
whole rotation. Only an overflow can go wrong, and none does before the clock comes near to the
end of an `int`.
-/
namespace Nachos

namespace Outcome
variable {α β : Type}

def Overflows (x : Outcome α) : Prop := ∀ f, x = .error f → f = .overflow

theorem Overflows.ok (a : α) : Overflows (.ok a : Outcome α) := fun _ h => by cases h

theorem Overflows.bind_of_ok {x : Outcome α} {f : α → Outcome β} (hx : x.Overflows)
    (hf : ∀ a, x = .ok a → (f a).Overflows) : (x >>= f).Overflows := by
  cases x with
  | error e =>
    intro g h
    cases h
    exact hx e rfl
  | ok a => exact hf a rfl

theorem Overflows.bind {x : Outcome α} {f : α → Outcome β} (hx : x.Overflows)
    (hf : ∀ a, (f a).Overflows) : (x >>= f).Overflows := hx.bind_of_ok fun a _ => hf a

theorem Overflows.cint (v : ℤ) : (Nachos.cint v).Overflows := by
  intro f h
  unfold Nachos.cint at h
  split_ifs at h
  cases h
  rfl

theorem Overflows.clong (v : ℤ) : (Nachos.clong v).Overflows := by
  intro f h
  unfold Nachos.clong at h
  split_ifs at h
  cases h
  rfl

end Outcome

abbrev longestRequest : ℤ :=
  (numTracks - 1) * seekTime + (rotationTime - 1) + sectorsPerTrack * rotationTime

namespace DiskHead
variable {d d' : DiskHead} {totalTicks newSector latency : ℤ} {writing : Bool} {f : Fault}

theorem seek_le (hlast : Disk.InRange d.lastSector) (hnew : Disk.InRange newSector) :
    d.seek newSector ≤ (numTracks - 1) * seekTime := by
  unfold Disk.InRange diskSectors sectorsPerTrack numTracks at *
  unfold seek sectorsPerTrack seekTime
  have hle : |newSector / (32 : ℕ) - d.lastSector / (32 : ℕ)| ≤ 31 :=
    abs_le.mpr ⟨by omega,by omega⟩
  omega

theorem latency_bounds (hlast : Disk.InRange d.lastSector) (hnew : Disk.InRange newSector)
    (hticks : 0 ≤ totalTicks) (h : d.computeLatency totalTicks newSector writing = .ok latency) :
    rotationTime ≤ latency ∧ latency ≤ longestRequest := by
  have hseek := seek_le hlast hnew
  obtain ⟨h₁,h₂,-⟩ := arrival_spec d totalTicks newSector
  obtain ⟨hseek0,-⟩ := seek_bounds hlast hnew
  rw [computeLatency_eq hlast hnew hticks (isLong_of_ok hlast hnew hticks h)] at h
  obtain ⟨served,-,h⟩ := Outcome.bind_eq_ok.mp h
  cases h
  obtain ⟨hw0,hw,-⟩ := moduloDiff_spec hnew.1
    ((d.timeAfter totalTicks newSector).tdiv rotationTime)
  change 0 ≤ d.sectorsToWait totalTicks newSector at hw0
  change d.sectorsToWait totalTicks newSector < _ at hw
  unfold longestRequest rotationTime sectorsPerTrack numTracks seekTime at *
  split_ifs <;> omega

theorem timeToSeek_overflows : (d.timeToSeek totalTicks newSector).Overflows :=
  .bind (.cint _) fun _ => .bind (.clong _) fun _ => .ok _

theorem computeLatency_overflows :
    (d.computeLatency totalTicks newSector writing).Overflows := by
  refine .bind timeToSeek_overflows fun _ => .bind (.clong _) fun _ => .bind (.clong _) fun _ => ?_
  refine .bind ?_ fun served => ?_
  · unfold trackBuffer
    split_ifs
    · exact .bind (.cint _) fun _ => .ok _
    · exact .ok _
  · cases served with
    | true => exact .ok _
    | false => exact .cint _

theorem updateLast_overflows : (d.updateLast totalTicks newSector).Overflows := by
  refine .bind timeToSeek_overflows fun r => ?_
  obtain ⟨seek,rotate⟩ := r
  simp only []
  split_ifs
  · exact .bind (.clong _) fun _ => .bind (.clong _) fun _ => .ok _
  · exact .ok _

theorem updateLast_lastSector (h : d.updateLast totalTicks newSector = .ok d') :
    d'.lastSector = newSector := by
  obtain ⟨⟨seek,rotate⟩,-,h⟩ := Outcome.bind_eq_ok.mp h
  simp only [] at h
  split_ifs at h
  · obtain ⟨t,-,h⟩ := Outcome.bind_eq_ok.mp h
    obtain ⟨u,-,h⟩ := Outcome.bind_eq_ok.mp h
    cases h
    rfl
  · cases h
    rfl

theorem Sound.new : new.Sound := ⟨by decide,by decide,by decide⟩

/-- Before the time comes near to what an `int` can hold, nothing overflows. -/
theorem Sound.request (h : d.Sound) (hnew : Disk.InRange newSector) (hticks : 0 ≤ totalTicks)
    (hshort : totalTicks + 2 ^ 15 < 2 ^ 31) (writing : Bool) :
    (∃ latency, d.computeLatency totalTicks newSector writing = .ok latency) ∧
      ∃ d', d.updateLast totalTicks newSector = .ok d' ∧ d'.Sound := by
  obtain ⟨hseek0,hseek⟩ := seek_bounds h.lastSector hnew
  obtain ⟨h₁,h₂,-⟩ := arrival_spec d totalTicks newSector
  have harrival : d.arrival totalTicks newSector < 2 ^ 31 := by
    unfold rotationTime at h₂
    omega
  obtain ⟨latency,hlatency,-⟩ := h.onTime hnew hticks harrival writing
  refine ⟨⟨latency,hlatency⟩,?_⟩
  have hlong : ∀ v : ℤ, 0 ≤ v → v < 2 ^ 31 → clong v = .ok v := fun v h0 hv =>
    if_pos ⟨by omega,by omega⟩
  have hsum : totalTicks + d.seek newSector +
      (d.arrival totalTicks newSector - (totalTicks + d.seek newSector)) =
        d.arrival totalTicks newSector := by omega
  have hok : ∃ d', d.updateLast totalTicks newSector = .ok d' := by
    simp only [DiskHead.updateLast, timeToSeek_eq h.lastSector hnew hticks,
      hlong _ (show 0 ≤ totalTicks + d.seek newSector by omega) (by omega), Outcome.ok_bind,
      Outcome.pure_eq, hsum, hlong _ (show 0 ≤ d.arrival totalTicks newSector by omega) harrival]
    split_ifs <;> exact ⟨_,rfl⟩
  obtain ⟨d',hd'⟩ := hok
  exact ⟨d',hd',h.updateLast hnew hticks harrival hd'⟩

end DiskHead

end Nachos
