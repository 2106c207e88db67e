import Nachos.Machine.Disk
import Nachos.Library.Run
import Mathlib.Data.Int.ModEq
import Mathlib.Algebra.Order.Group.Int
import Mathlib.Algebra.Order.Group.Abs
import Mathlib.Tactic.Ring

/-! # How long a disk request takes

`TimeToSeek`, `ModuloDiff`, `ComputeLatency` and `UpdateLast` of `disk.cc`. The head seeks, waits
for the end of the sector it comes to, and then for the sector it wants. Ticks are 64 bits wide,
but the time at which the seek is over is kept in an `int`.
-/
namespace Nachos

def IsLong (v : ℤ) : Prop := -2 ^ 63 ≤ v ∧ v < 2 ^ 63

instance (v : ℤ) : Decidable (IsLong v) := inferInstanceAs (Decidable (_ ∧ _))

def clong (v : ℤ) : Outcome ℤ := if IsLong v then .ok v else .error .overflow

/-- A `long long` that is stored in an `int`. -/
def narrow (v : ℤ) : ℤ := (v + 2 ^ 31) % 2 ^ 32 - 2 ^ 31

theorem narrow_eq {v : ℤ} (h : IsInt v) : narrow v = v := by
  unfold IsInt at h
  unfold narrow
  omega

abbrev seekTime : ℤ := 500
abbrev rotationTime : ℤ := 500

/-- What the disk remembers of the last request. -/
structure DiskHead where
  lastSector : ℤ
  bufferInit : ℤ
  deriving DecidableEq

namespace DiskHead

def new : DiskHead := ⟨0,0⟩

variable (d : DiskHead) (totalTicks newSector : ℤ) (writing : Bool)

/-- The ticks of the seek, and those to the end of the sector that is then under the head. -/
def timeToSeek : Outcome (ℤ × ℤ) := do
  let newTrack := newSector.tdiv sectorsPerTrack
  let oldTrack := d.lastSector.tdiv sectorsPerTrack
  let seek ← cint (|newTrack - oldTrack| * seekTime)
  let past := (← clong (totalTicks + seek)).tmod rotationTime
  return (seek,if past > 0 then rotationTime - past else 0)

def moduloDiff (target current : ℤ) : ℤ :=
  (target.tmod sectorsPerTrack - current.tmod sectorsPerTrack + sectorsPerTrack).tmod
    sectorsPerTrack

/-- Whether a request is served from the track buffer. -/
def trackBuffer (seek timeAfter : ℤ) : Outcome Bool :=
  if writing = false ∧ seek = 0 then do
    let past ← cint (timeAfter - d.bufferInit)
    return past.tdiv rotationTime > moduloDiff newSector (d.bufferInit.tdiv rotationTime)
  else return false

def computeLatency : Outcome ℤ := do
  let (seek,rotation) ← d.timeToSeek totalTicks newSector
  let timeAfter := narrow (← clong ((← clong (totalTicks + seek)) + rotation))
  if ← d.trackBuffer newSector writing seek timeAfter then return rotationTime
  let rotation := rotation + moduloDiff newSector (timeAfter.tdiv rotationTime) * rotationTime
  cint (seek + rotation + rotationTime)

def updateLast : Outcome DiskHead := do
  let (seek,rotate) ← d.timeToSeek totalTicks newSector
  if seek ≠ 0 then
    let now ← clong ((← clong (totalTicks + seek)) + rotate)
    return ⟨newSector,narrow now⟩
  return { d with lastSector := newSector }

/-- The distance to seek over, in ticks. -/
def seek : ℤ := |newSector / sectorsPerTrack - d.lastSector / sectorsPerTrack| * seekTime

/-- The end of the sector that the head comes to. -/
def arrival : ℤ :=
  (totalTicks + d.seek newSector + rotationTime - 1) / rotationTime * rotationTime

variable {d totalTicks newSector writing}

theorem moduloDiff_spec {target : ℤ} (h : 0 ≤ target) (current : ℤ) :
    0 ≤ moduloDiff target current ∧ moduloDiff target current < sectorsPerTrack ∧
      moduloDiff target current ≡ target - current [ZMOD sectorsPerTrack] := by
  have hdef := Int.tmod_add_mul_tdiv current sectorsPerTrack
  have hlt : current.tmod sectorsPerTrack < sectorsPerTrack := Int.tmod_lt_of_pos current (by decide)
  have hgt : -sectorsPerTrack < current.tmod sectorsPerTrack := by
    have := Int.lt_tmod_of_pos current (b := sectorsPerTrack) (by decide)
    exact this
  have htarget : target.tmod sectorsPerTrack = target % sectorsPerTrack :=
    Int.tmod_eq_emod_of_nonneg h
  unfold moduloDiff
  rw [htarget, Int.tmod_eq_emod_of_nonneg (by unfold sectorsPerTrack at *; omega)]
  unfold sectorsPerTrack Int.ModEq at *
  omega

theorem seek_bounds (hlast : Disk.InRange d.lastSector) (hnew : Disk.InRange newSector) :
    0 ≤ d.seek newSector ∧ d.seek newSector < 2 ^ 14 := by
  unfold Disk.InRange diskSectors sectorsPerTrack numTracks at *
  unfold seek sectorsPerTrack seekTime
  have h0 := abs_nonneg (newSector / (32 : ℕ) - d.lastSector / (32 : ℕ))
  have hle : |newSector / (32 : ℕ) - d.lastSector / (32 : ℕ)| ≤ 31 :=
    abs_le.mpr ⟨by omega,by omega⟩
  omega

theorem arrival_spec (d : DiskHead) (totalTicks newSector : ℤ) :
    totalTicks + d.seek newSector ≤ d.arrival totalTicks newSector ∧
      d.arrival totalTicks newSector < totalTicks + d.seek newSector + rotationTime ∧
      d.arrival totalTicks newSector % rotationTime = 0 := by
  unfold arrival rotationTime
  omega

theorem timeToSeek_eq (hlast : Disk.InRange d.lastSector) (hnew : Disk.InRange newSector)
    (hticks : 0 ≤ totalTicks) : d.timeToSeek totalTicks newSector = do
      let _ ← clong (totalTicks + d.seek newSector)
      return (d.seek newSector,
        d.arrival totalTicks newSector - (totalTicks + d.seek newSector)) := by
  obtain ⟨hseek0,hseek⟩ := seek_bounds hlast hnew
  have hnewTrack : newSector.tdiv sectorsPerTrack = newSector / sectorsPerTrack :=
    Int.tdiv_eq_ediv_of_nonneg hnew.1
  have holdTrack : d.lastSector.tdiv sectorsPerTrack = d.lastSector / sectorsPerTrack :=
    Int.tdiv_eq_ediv_of_nonneg hlast.1
  have hint : cint (|newSector / sectorsPerTrack - d.lastSector / sectorsPerTrack| * seekTime) =
      .ok (d.seek newSector) := cint_eq_ok ⟨by change _ ≤ d.seek newSector; omega,
        by change d.seek newSector < _; omega⟩
  have hover : (totalTicks + d.seek newSector).tmod rotationTime =
      (totalTicks + d.seek newSector) % rotationTime := Int.tmod_eq_emod_of_nonneg (by omega)
  obtain ⟨h₁,h₂,h₃⟩ := arrival_spec d totalTicks newSector
  unfold timeToSeek clong
  simp only [hnewTrack, holdTrack, hint, Outcome.ok_bind]
  split_ifs with hlong
  · simp only [Outcome.ok_bind, hover, Outcome.pure_eq]
    congr 2
    unfold rotationTime at *
    split_ifs <;> omega
  · rfl

/-- The time at which the seek is over, as the code keeps it. -/
def timeAfter (d : DiskHead) (totalTicks newSector : ℤ) : ℤ :=
  narrow (d.arrival totalTicks newSector)

def sectorsToWait (d : DiskHead) (totalTicks newSector : ℤ) : ℤ :=
  moduloDiff newSector ((d.timeAfter totalTicks newSector).tdiv rotationTime)

theorem computeLatency_eq (hlast : Disk.InRange d.lastSector) (hnew : Disk.InRange newSector)
    (hticks : 0 ≤ totalTicks) (hlong : IsLong (d.arrival totalTicks newSector)) :
    d.computeLatency totalTicks newSector writing = do
      let served ← d.trackBuffer newSector writing (d.seek newSector)
        (d.timeAfter totalTicks newSector)
      return if served then rotationTime
        else d.arrival totalTicks newSector - totalTicks +
          (d.sectorsToWait totalTicks newSector + 1) * rotationTime := by
  obtain ⟨hseek0,hseek⟩ := seek_bounds hlast hnew
  obtain ⟨h₁,h₂,-⟩ := arrival_spec d totalTicks newSector
  have hlong' : IsLong (totalTicks + d.seek newSector) := by
    unfold IsLong at *
    omega
  have hsum : totalTicks + d.seek newSector +
      (d.arrival totalTicks newSector - (totalTicks + d.seek newSector)) =
        d.arrival totalTicks newSector := by omega
  simp only [computeLatency, timeToSeek_eq hlast hnew hticks, clong, if_pos hlong',
    Outcome.ok_bind, Outcome.pure_eq, hsum, if_pos hlong]
  change (d.trackBuffer newSector writing (d.seek newSector) (d.timeAfter totalTicks newSector) >>=
    _) = _
  congr 1
  funext served
  cases served
  · obtain ⟨hw0,hw,-⟩ := moduloDiff_spec hnew.1
      ((d.timeAfter totalTicks newSector).tdiv rotationTime)
    have hvalue : d.seek newSector + (d.arrival totalTicks newSector -
        (totalTicks + d.seek newSector) + d.sectorsToWait totalTicks newSector * rotationTime) +
          rotationTime = d.arrival totalTicks newSector - totalTicks +
            (d.sectorsToWait totalTicks newSector + 1) * rotationTime := by ring
    change cint (d.seek newSector + (d.arrival totalTicks newSector -
        (totalTicks + d.seek newSector) + d.sectorsToWait totalTicks newSector * rotationTime) +
          rotationTime) = _
    rw [hvalue, cint_eq_ok]
    · rfl
    · change 0 ≤ d.sectorsToWait totalTicks newSector at hw0
      change d.sectorsToWait totalTicks newSector < _ at hw
      unfold IsInt sectorsPerTrack rotationTime at *
      omega
  · rfl

theorem isLong_of_ok {latency : ℤ} (hlast : Disk.InRange d.lastSector)
    (hnew : Disk.InRange newSector) (hticks : 0 ≤ totalTicks)
    (h : d.computeLatency totalTicks newSector writing = .ok latency) :
    IsLong (d.arrival totalTicks newSector) := by
  by_contra hno
  obtain ⟨h₁,h₂,-⟩ := arrival_spec d totalTicks newSector
  by_cases hlong : IsLong (totalTicks + d.seek newSector)
  · have hsum : totalTicks + d.seek newSector +
        (d.arrival totalTicks newSector - (totalTicks + d.seek newSector)) =
          d.arrival totalTicks newSector := by omega
    simp only [computeLatency, timeToSeek_eq hlast hnew hticks, clong, if_pos hlong,
      Outcome.ok_bind, Outcome.pure_eq, hsum, if_neg hno] at h
    cases h
  · rw [computeLatency, timeToSeek_eq hlast hnew hticks, clong, if_neg hlong] at h
    cases h

theorem trackBuffer_ok_iff {seek timeAfter : ℤ} :
    (∃ served, d.trackBuffer newSector writing seek timeAfter = .ok served) ↔
      (writing = false → seek = 0 → IsInt (timeAfter - d.bufferInit)) := by
  unfold trackBuffer cint
  split_ifs with h hint
  · exact iff_of_true ⟨_,rfl⟩ fun _ _ => hint
  · exact iff_of_false (fun ⟨_,h⟩ => by cases h) fun h' => hint (h' h.1 h.2)
  · exact iff_of_true ⟨_,rfl⟩ fun hw hs => absurd ⟨hw,hs⟩ h

/-- The request takes at least the time of a transfer, and what is not served from the track
buffer ends when the head has passed its sector. -/
def OnTime (d : DiskHead) (totalTicks newSector : ℤ) (writing : Bool) : Prop :=
  ∃ latency, d.computeLatency totalTicks newSector writing = .ok latency ∧
    rotationTime ≤ latency ∧
    (d.trackBuffer newSector writing (d.seek newSector) (d.timeAfter totalTicks newSector) =
        .ok false →
      (totalTicks + latency) % rotationTime = 0 ∧
      (totalTicks + latency) / rotationTime - 1 ≡ newSector [ZMOD sectorsPerTrack])

/-- The `int` tells the sector under the head. -/
def Keeps (d : DiskHead) (totalTicks newSector : ℤ) : Prop :=
  (d.timeAfter totalTicks newSector).tdiv rotationTime ≡
    d.arrival totalTicks newSector / rotationTime [ZMOD sectorsPerTrack]

theorem passes_iff (hnew : Disk.InRange newSector) :
    (d.arrival totalTicks newSector + (d.sectorsToWait totalTicks newSector + 1) * rotationTime) /
        rotationTime - 1 ≡ newSector [ZMOD sectorsPerTrack] ↔ d.Keeps totalTicks newSector := by
  obtain ⟨-,-,h₃⟩ := arrival_spec d totalTicks newSector
  obtain ⟨-,-,hw⟩ := moduloDiff_spec hnew.1
    ((d.timeAfter totalTicks newSector).tdiv rotationTime)
  change d.sectorsToWait totalTicks newSector ≡ _ [ZMOD _] at hw
  unfold Keeps rotationTime sectorsPerTrack Int.ModEq at *
  omega

theorem onTime_iff (hlast : Disk.InRange d.lastSector) (hnew : Disk.InRange newSector)
    (hticks : 0 ≤ totalTicks) :
    d.OnTime totalTicks newSector writing ↔
      IsLong (d.arrival totalTicks newSector) ∧
      (writing = false → d.seek newSector = 0 →
        IsInt (d.timeAfter totalTicks newSector - d.bufferInit)) ∧
      (d.trackBuffer newSector writing (d.seek newSector) (d.timeAfter totalTicks newSector) =
        .ok false → d.Keeps totalTicks newSector) := by
  obtain ⟨hseek0,-⟩ := seek_bounds hlast hnew
  obtain ⟨h₁,h₂,h₃⟩ := arrival_spec d totalTicks newSector
  constructor
  · rintro ⟨latency,hlatency,-,hend⟩
    have hlong := isLong_of_ok hlast hnew hticks hlatency
    rw [computeLatency_eq hlast hnew hticks hlong] at hlatency
    obtain ⟨served,hserved,hlatency⟩ := Outcome.bind_eq_ok.mp hlatency
    refine ⟨hlong,trackBuffer_ok_iff.mp ⟨served,hserved⟩,fun hfalse => ?_⟩
    cases hserved.symm.trans hfalse
    cases hlatency
    have hpass := (hend hfalse).2
    rw [if_neg (by decide)] at hpass
    rw [← passes_iff hnew]
    convert hpass using 3
    ring
  · rintro ⟨hlong,hint,hkeeps⟩
    obtain ⟨served,hserved⟩ := trackBuffer_ok_iff.mpr hint
    refine ⟨_,by rw [computeLatency_eq hlast hnew hticks hlong, hserved]; rfl,?_,?_⟩
    · obtain ⟨hw0,-,-⟩ := moduloDiff_spec hnew.1
        ((d.timeAfter totalTicks newSector).tdiv rotationTime)
      change 0 ≤ d.sectorsToWait totalTicks newSector at hw0
      unfold rotationTime at *
      split_ifs <;> omega
    · intro hfalse
      cases hserved.symm.trans hfalse
      have hend : totalTicks + (d.arrival totalTicks newSector - totalTicks +
          (d.sectorsToWait totalTicks newSector + 1) * rotationTime) =
            d.arrival totalTicks newSector +
              (d.sectorsToWait totalTicks newSector + 1) * rotationTime := by ring
      rw [if_neg (by decide), hend]
      refine ⟨?_,(passes_iff hnew).mpr (hkeeps hfalse)⟩
      rw [Int.add_mul_emod_self_right]
      exact h₃

/-- Up to the time that an `int` can hold nothing goes wrong. -/
theorem keeps_of_short (h0 : 0 ≤ d.arrival totalTicks newSector)
    (h : d.arrival totalTicks newSector < 2 ^ 31) : d.Keeps totalTicks newSector := by
  have hnarrow : d.timeAfter totalTicks newSector = d.arrival totalTicks newSector :=
    narrow_eq ⟨by omega,h⟩
  rw [Keeps, hnarrow, Int.tdiv_eq_ediv_of_nonneg h0]

/-- From there on, for twice as long again, the head is never taken to be where it is. -/
theorem not_keeps (h : 2 ^ 31 ≤ d.arrival totalTicks newSector)
    (h' : d.arrival totalTicks newSector < 3 * 2 ^ 31) : ¬ d.Keeps totalTicks newSector := by
  obtain ⟨-,-,hmod⟩ := arrival_spec d totalTicks newSector
  unfold Keeps timeAfter narrow
  generalize d.arrival totalTicks newSector = t at h h' hmod
  by_cases hneg : t < 2 ^ 32
  · have hv : (t + 2 ^ 31) % 2 ^ 32 - 2 ^ 31 = -(2 ^ 32 - t) := by omega
    rw [hv, Int.neg_tdiv, Int.tdiv_eq_ediv_of_nonneg (by omega)]
    unfold rotationTime sectorsPerTrack Int.ModEq at *
    omega
  · have hv : (t + 2 ^ 31) % 2 ^ 32 - 2 ^ 31 = t - 2 ^ 32 := by omega
    rw [hv, Int.tdiv_eq_ediv_of_nonneg (by omega)]
    unfold rotationTime sectorsPerTrack Int.ModEq at *
    omega

/-- What the disk remembers while the time fits in an `int`. -/
structure Sound (d : DiskHead) : Prop where
  lastSector : Disk.InRange d.lastSector
  bufferInit : 0 ≤ d.bufferInit ∧ IsInt d.bufferInit

theorem Sound.onTime (h : d.Sound) (hnew : Disk.InRange newSector) (hticks : 0 ≤ totalTicks)
    (hshort : d.arrival totalTicks newSector < 2 ^ 31) (writing : Bool) :
    d.OnTime totalTicks newSector writing := by
  obtain ⟨hseek0,-⟩ := seek_bounds h.lastSector hnew
  obtain ⟨h₁,-,-⟩ := arrival_spec d totalTicks newSector
  obtain ⟨hbuffer0,hbuffer⟩ := h.bufferInit
  have hnarrow : d.timeAfter totalTicks newSector = d.arrival totalTicks newSector :=
    narrow_eq ⟨by omega,hshort⟩
  refine (onTime_iff h.lastSector hnew hticks).mpr ⟨?_,fun _ _ => ?_,fun _ => ?_⟩
  · unfold IsLong
    omega
  · rw [hnarrow]
    unfold IsInt at *
    omega
  · exact keeps_of_short (by omega) hshort

theorem Sound.updateLast {d' : DiskHead} (h : d.Sound) (hnew : Disk.InRange newSector)
    (hticks : 0 ≤ totalTicks) (hshort : d.arrival totalTicks newSector < 2 ^ 31)
    (hd : d.updateLast totalTicks newSector = .ok d') : d'.Sound := by
  obtain ⟨hseek0,-⟩ := seek_bounds h.lastSector hnew
  obtain ⟨h₁,h₂,-⟩ := arrival_spec d totalTicks newSector
  have hlong : IsLong (totalTicks + d.seek newSector) := by
    unfold IsLong
    omega
  have hlong' : IsLong (d.arrival totalTicks newSector) := by
    unfold IsLong
    omega
  have hint : IsInt (d.arrival totalTicks newSector) := ⟨by omega,hshort⟩
  have hsum : totalTicks + d.seek newSector +
      (d.arrival totalTicks newSector - (totalTicks + d.seek newSector)) =
        d.arrival totalTicks newSector := by omega
  simp only [DiskHead.updateLast, timeToSeek_eq h.lastSector hnew hticks, clong, if_pos hlong,
    Outcome.ok_bind, Outcome.pure_eq, hsum, if_pos hlong', narrow_eq hint] at hd
  split_ifs at hd
  · cases hd
    exact ⟨hnew,by change 0 ≤ d.arrival totalTicks newSector; omega,hint⟩
  · cases hd
    exact ⟨hnew,h.bufferInit⟩

/-- Requests at increasing or decreasing times, on sectors that pass the assertion. -/
def requests : TransitionSystem DiskHead (ℤ × ℤ) where
  init d := d = new
  step d l d' := 0 ≤ l.1 ∧ Disk.InRange l.2 ∧ d.updateLast l.1 l.2 = .ok d'

/-- As long as the time fits in an `int`, every request ends on time. -/
theorem onTime_of_run (h : (requests.guard fun d l => d.arrival l.1 l.2 < 2 ^ 31).Reachable d)
    (hnew : Disk.InRange newSector) (hticks : 0 ≤ totalTicks)
    (hshort : d.arrival totalTicks newSector < 2 ^ 31) (writing : Bool) :
    d.OnTime totalTicks newSector writing := by
  refine Sound.onTime ?_ hnew hticks hshort writing
  refine h.invariant ?_ ?_
  · rintro _ rfl
    exact ⟨by decide,by decide,by decide⟩
  · rintro d ⟨t,s⟩ d' hd ⟨hshort,hticks,hnew,hstep⟩
    exact hd.updateLast hnew hticks hshort hstep

theorem diskLatency (hlast : Disk.InRange d.lastSector) (hnew : Disk.InRange newSector)
    (hticks : 0 ≤ totalTicks) :
    d.OnTime totalTicks newSector writing ↔
      IsLong (d.arrival totalTicks newSector) ∧
      (writing = false → d.seek newSector = 0 →
        IsInt (d.timeAfter totalTicks newSector - d.bufferInit)) ∧
      (d.trackBuffer newSector writing (d.seek newSector) (d.timeAfter totalTicks newSector) =
        .ok false → d.Keeps totalTicks newSector) :=
  onTime_iff hlast hnew hticks

end DiskHead

/-- A write to sector 33 at time 10, with the head at sector 0. -/
theorem diskLatency_write : DiskHead.new.OnTime 10 33 true :=
  (DiskHead.diskLatency (by decide) (by decide) (by decide)).mpr
    ⟨by decide,fun h => absurd h (by decide),
      fun _ => DiskHead.keeps_of_short (by decide) (by decide)⟩

/-- A write to sector 0 just when the time no longer fits in an `int`: it ends 14 sectors too
late. -/
theorem not_diskLatency :
    DiskHead.new.computeLatency (2 ^ 31) 0 true = .ok 11852 ∧
    ((2 ^ 31 + 11852 : ℤ) / rotationTime - 1) % sectorsPerTrack = 14 ∧
    ¬ DiskHead.new.OnTime (2 ^ 31) 0 true := by
  refine ⟨by decide,by decide,?_⟩
  rintro ⟨latency,hlatency,-,hend⟩
  obtain rfl : 11852 = latency := Except.ok.inj hlatency
  exact absurd (hend rfl).2 (by decide)

end Nachos
