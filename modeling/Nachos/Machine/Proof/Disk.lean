import Nachos.Machine.Disk

/-!
# The phase of the disk

`underHead t` is the sector under the head at time `t`. A request that the track buffer does not serve
completes at the end of a sector, and that sector is the one of the request (`latency_unbuffered`). The
track buffer serves a read of a sector of the same track as soon as the head has passed the sector's
beginning (`trackBufferApplies_iff`): the rest of the sector passes while the request is in progress.
Requests that are made one after the other always find the state that these results are about
(`runs_sound`).
-/

namespace Nachos

open Base
open Interrupt (int)
open FileSystem (numSectors)

def underHead (t : Int) : Int := t / rotationTime % sectorsPerTrack

/-- The next moment at which the head is between two sectors. -/
def boundary (t : Int) : Int := (t + (rotationTime - 1)) / rotationTime * rotationTime

def onDisk (sector : Int) : Prop := 0 ≤ sector ∧ sector < numSectors

instance (sector : Int) : Decidable (onDisk sector) := inferInstanceAs (Decidable (_ ∧ _))

/-- The sector is under the head from `start` on until it has passed. -/
def Passes (sector start : Int) : Prop :=
  ∀ t, start ≤ t → t < start + rotationTime → underHead t = sector % sectorsPerTrack

theorem boundary_spec (t : Int) :
    rotationTime ∣ boundary t ∧ t ≤ boundary t ∧ boundary t < t + rotationTime := by
  refine ⟨Int.dvd_mul_left _ _, ?_, ?_⟩ <;>
  · unfold boundary rotationTime
    omega

theorem moduloDiff_eq {target : Int} (h : 0 ≤ target) (position : Int) :
    moduloDiff target position = (target - position) % sectorsPerTrack := by
  unfold moduloDiff sectorsPerTrack
  dsimp only
  rw [Int.tmod_eq_emod_of_nonneg h, Int.tmod_eq_emod (a := position)]
  split
  · rw [Int.tmod_eq_emod_of_nonneg (by omega)]
    omega
  · rw [Int.tmod_eq_emod_of_nonneg (by omega)]
    omega

theorem passes_of {sector start : Int} (hstart : rotationTime ∣ start)
    (h : (start / rotationTime - sector) % sectorsPerTrack = 0) : Passes sector start := by
  intro t ht ht'
  unfold underHead
  unfold rotationTime at *
  unfold sectorsPerTrack at *
  have : t / 500 = start / 500 := by omega
  rw [this]
  omega

theorem Passes.start {sector start : Int} (h : Passes sector start) :
    rotationTime ∣ start ∧ (start / rotationTime - sector) % sectorsPerTrack = 0 := by
  have hfirst := h start (Int.le_refl _) (by unfold rotationTime; omega)
  have hlast := h (start + 499) (by omega) (by unfold rotationTime; omega)
  unfold underHead at *
  unfold rotationTime at *
  unfold sectorsPerTrack at *
  omega

namespace DiskHead

def seekTicks (h : DiskHead) (newSector : Int) : Int :=
  (newSector / sectorsPerTrack - h.lastSector / sectorsPerTrack).natAbs * seekTime

/-- No number that `ComputeLatency` computes is too large for an `int`. -/
def Fits (h : DiskHead) (now newSector : Int) : Prop :=
  boundary (now + h.seekTicks newSector) < 2 ^ 31 ∧
    boundary (now + h.seekTicks newSector) - h.bufferInit < 2 ^ 31

instance (h : DiskHead) (now newSector : Int) : Decidable (h.Fits now newSector) :=
  inferInstanceAs (Decidable (_ ∧ _))

variable {h : DiskHead} {now newSector : Int} {writing : Bool}

theorem int_eq {x : Int} (h : 0 ≤ x) (h' : x < 2 ^ 31) : int x = x :=
  Int.bmod_eq_of_le (by omega) (by omega)

theorem seekTicks_nonneg : 0 ≤ h.seekTicks newSector := by
  unfold seekTicks seekTime
  omega

theorem seekTicks_eq_zero :
    h.seekTicks newSector = 0 ↔ newSector / sectorsPerTrack = h.lastSector / sectorsPerTrack := by
  unfold seekTicks seekTime
  omega

theorem seekTicks_le (hlast : onDisk h.lastSector) (hnew : onDisk newSector) :
    h.seekTicks newSector ≤ 31 * seekTime := by
  have hn : (numSectors : Int) = 1024 := rfl
  unfold onDisk at hlast hnew
  unfold seekTicks seekTime sectorsPerTrack
  omega

structure Ready (h : DiskHead) (now newSector : Int) : Prop where
  nonneg : 0 ≤ now
  last : onDisk h.lastSector
  requested : onDisk newSector
  aligned : rotationTime ∣ h.bufferInit
  loaded : h.bufferInit ≤ now
  fits : h.Fits now newSector

theorem Ready.times (r : h.Ready now newSector) :
    0 ≤ now ∧ 0 ≤ h.seekTicks newSector ∧
      now + h.seekTicks newSector ≤ boundary (now + h.seekTicks newSector) ∧
      boundary (now + h.seekTicks newSector) < 2 ^ 31 :=
  ⟨r.nonneg, seekTicks_nonneg, (boundary_spec _).2.1, r.fits.1⟩

theorem timeToSeek_eq (r : h.Ready now newSector) :
    h.timeToSeek now newSector =
      (h.seekTicks newSector, boundary (now + h.seekTicks newSector) - (now + h.seekTicks newSector)) := by
  obtain ⟨hnow, hseek, hle, hmax⟩ := r.times
  unfold timeToSeek
  rw [Int.tdiv_eq_ediv_of_nonneg r.requested.1, Int.tdiv_eq_ediv_of_nonneg r.last.1]
  dsimp only
  rw [← seekTicks, int_eq hseek (by omega), int_eq (by omega) (by omega),
    Int.tmod_eq_emod_of_nonneg (by omega)]
  refine Prod.ext rfl ?_
  dsimp only
  unfold boundary rotationTime
  split <;> omega

theorem timeAfter_eq (r : h.Ready now newSector) :
    h.timeAfter now newSector = boundary (now + h.seekTicks newSector) := by
  obtain ⟨hnow, hseek, hle, hmax⟩ := r.times
  unfold timeAfter
  rw [timeToSeek_eq r]
  dsimp only
  have hsum : int (now + h.seekTicks newSector) = now + h.seekTicks newSector :=
    int_eq (by omega) (by omega)
  rw [hsum, add_sub_cancel, int_eq (by omega) hmax]

/-! ## The track buffer -/

def firstPass (h : DiskHead) (newSector : Int) : Int :=
  h.bufferInit + (newSector - h.bufferInit / rotationTime) % sectorsPerTrack * rotationTime

theorem passes_firstPass (newSector : Int) (hinit : rotationTime ∣ h.bufferInit) :
    h.bufferInit ≤ h.firstPass newSector ∧ Passes newSector (h.firstPass newSector) := by
  unfold firstPass
  unfold rotationTime at *
  unfold sectorsPerTrack at *
  refine ⟨by omega, passes_of ?_ ?_⟩
  · unfold rotationTime
    omega
  · unfold rotationTime sectorsPerTrack
    omega

theorem firstPass_le (hinit : rotationTime ∣ h.bufferInit) {start : Int} (hle : h.bufferInit ≤ start)
    (hpass : Passes newSector start) : h.firstPass newSector ≤ start := by
  obtain ⟨hdvd, hmod⟩ := hpass.start
  unfold firstPass
  unfold rotationTime at *
  unfold sectorsPerTrack at *
  omega

theorem trackBufferApplies_eq (r : h.Ready now newSector) :
    h.trackBufferApplies now newSector writing = true ↔
      writing = false ∧ newSector / sectorsPerTrack = h.lastSector / sectorsPerTrack ∧
        h.firstPass newSector < now := by
  obtain ⟨hnow, hseek, hle, hmax⟩ := r.times
  have hloaded := r.loaded
  have haligned := r.aligned
  unfold trackBufferApplies
  rw [timeAfter_eq r, timeToSeek_eq r, int_eq (by omega) r.fits.2,
    Int.tdiv_eq_ediv_of_nonneg (by omega), Int.tdiv_eq_ediv_of_dvd r.aligned,
    moduloDiff_eq r.requested.1]
  simp only [Bool.and_eq_true, beq_iff_eq, decide_eq_true_eq, and_assoc, seekTicks_eq_zero]
  refine and_congr_right fun _ => and_congr_right fun htrack => ?_
  rw [seekTicks_eq_zero.2 htrack, Int.add_zero]
  unfold firstPass boundary
  unfold rotationTime at *
  unfold sectorsPerTrack
  omega

/-- **The track buffer** serves a read on the current track when the head has passed the beginning of the
sector since `bufferInit`. -/
theorem trackBufferApplies_iff (r : h.Ready now newSector) :
    h.trackBufferApplies now newSector writing = true ↔
      writing = false ∧ newSector / sectorsPerTrack = h.lastSector / sectorsPerTrack ∧
        ∃ start, h.bufferInit ≤ start ∧ start < now ∧ Passes newSector start := by
  rw [trackBufferApplies_eq r]
  refine and_congr_right fun _ => and_congr_right fun _ => ⟨fun hlt => ?_, ?_⟩
  · obtain ⟨hge, hpass⟩ := passes_firstPass newSector r.aligned
    exact ⟨h.firstPass newSector, hge, hlt, hpass⟩
  · rintro ⟨start, hge, hlt, hpass⟩
    exact Int.lt_of_le_of_lt (firstPass_le r.aligned hge hpass) hlt

/-! ## The latency -/

theorem latency_buffered (happlies : h.trackBufferApplies now newSector writing = true) :
    h.computeLatency now newSector writing = rotationTime := by
  unfold computeLatency
  rw [happlies]
  rfl

theorem latency_unbuffered (r : h.Ready now newSector)
    (happlies : h.trackBufferApplies now newSector writing = false) :
    ∃ k, 0 ≤ k ∧ k < sectorsPerTrack ∧
      now + h.computeLatency now newSector writing =
        boundary (now + h.seekTicks newSector) + k * rotationTime + rotationTime ∧
      Passes newSector (boundary (now + h.seekTicks newSector) + k * rotationTime) := by
  have hdvd := (boundary_spec (now + h.seekTicks newSector)).1
  obtain ⟨hnow, hseek, hle, hmax⟩ := r.times
  have hdiff : (h.timeAfter now newSector).tdiv rotationTime =
      boundary (now + h.seekTicks newSector) / rotationTime := by
    rw [timeAfter_eq r, Int.tdiv_eq_ediv_of_nonneg (by omega)]
  refine ⟨(newSector - boundary (now + h.seekTicks newSector) / rotationTime) % sectorsPerTrack,
    ?_, ?_, ?_, ?_⟩
  · unfold sectorsPerTrack
    omega
  · unfold sectorsPerTrack
    omega
  · unfold computeLatency
    rw [happlies, timeToSeek_eq r, hdiff, moduloDiff_eq r.requested.1]
    simp only [Bool.false_eq_true, if_false]
    omega
  · refine passes_of ?_ ?_
    · exact Int.dvd_add hdvd (Int.dvd_mul_left _ _)
    · unfold rotationTime at *
      unfold sectorsPerTrack
      omega

theorem rotationTime_le_latency (r : h.Ready now newSector) (writing : Bool) :
    rotationTime ≤ h.computeLatency now newSector writing := by
  cases happlies : h.trackBufferApplies now newSector writing with
  | true => exact (latency_buffered happlies).ge
  | false =>
    obtain ⟨hnow, hseek, hle, hmax⟩ := r.times
    obtain ⟨k, hk, -, hend, -⟩ := latency_unbuffered r happlies
    unfold rotationTime at *
    omega

/-- **How long the disk takes.** -/
theorem latency_spec (h : DiskHead) (now newSector : Int) (writing : Bool) (hnow : 0 ≤ now)
    (hlast : onDisk h.lastSector) (hnew : onDisk newSector) (hinit : rotationTime ∣ h.bufferInit)
    (hle : h.bufferInit ≤ now) (hfits : h.Fits now newSector) :
    rotationTime ≤ h.computeLatency now newSector writing ∧
    (h.trackBufferApplies now newSector writing = false →
      rotationTime ∣ now + h.computeLatency now newSector writing ∧
      now + h.seekTicks newSector + rotationTime ≤ now + h.computeLatency now newSector writing ∧
      now + h.computeLatency now newSector writing <
        now + h.seekTicks newSector + (sectorsPerTrack + 1) * rotationTime ∧
      ∀ t, now + h.computeLatency now newSector writing - rotationTime ≤ t →
        t < now + h.computeLatency now newSector writing →
        underHead t = newSector % sectorsPerTrack) ∧
    (h.trackBufferApplies now newSector writing = true ↔
      writing = false ∧ newSector / sectorsPerTrack = h.lastSector / sectorsPerTrack ∧
        ∃ start, h.bufferInit ≤ start ∧ start < now ∧
          ∀ t, start ≤ t → t < start + rotationTime → underHead t = newSector % sectorsPerTrack) ∧
    (h.trackBufferApplies now newSector writing = true →
      h.computeLatency now newSector writing = rotationTime) := by
  have r : h.Ready now newSector := ⟨hnow, hlast, hnew, hinit, hle, hfits⟩
  refine ⟨rotationTime_le_latency r writing, fun happlies => ?_,
    trackBufferApplies_iff r, latency_buffered⟩
  obtain ⟨hdvd, hb, hb'⟩ := boundary_spec (now + h.seekTicks newSector)
  obtain ⟨k, hk, hk', hend, hpass⟩ := latency_unbuffered r happlies
  rw [hend]
  refine ⟨?_, ?_, ?_, fun t ht ht' => hpass t (by omega) ht'⟩
  · exact Int.dvd_add (Int.dvd_add hdvd (Int.dvd_mul_left _ _)) (Int.dvd_refl _)
  · unfold rotationTime
    omega
  · unfold rotationTime sectorsPerTrack at *
    omega

theorem latency_spec_write : rotationTime ≤ DiskHead.new.computeLatency 10 40 true ∧
    rotationTime ∣ 10 + DiskHead.new.computeLatency 10 40 true := by
  have hspec := latency_spec .new 10 40 true (by decide) (by decide) (by decide) (by decide) (by decide)
    (by decide)
  exact ⟨hspec.1, (hspec.2.1 (by decide)).1⟩

/-- A sector that is just passing is served from the buffer: the first read of sector 0, ten ticks after
the disk has started to turn. -/
theorem buffered_while_passing :
    DiskHead.new.trackBufferApplies 10 0 false = true ∧
      ¬ ∃ start, DiskHead.new.bufferInit ≤ start ∧ start + rotationTime ≤ 10 ∧ Passes 0 start := by
  refine ⟨by decide, ?_⟩
  rintro ⟨start, hge, hle, -⟩
  have hnew : DiskHead.new.bufferInit = 0 := rfl
  unfold rotationTime at hle
  omega

theorem bufferInit_updateLast (r : h.Ready now newSector) (hpos : 0 ≤ h.bufferInit)
    (writing : Bool) :
    rotationTime ∣ (h.updateLast now newSector).bufferInit ∧
      0 ≤ (h.updateLast now newSector).bufferInit ∧
      (h.updateLast now newSector).bufferInit ≤ now + h.computeLatency now newSector writing := by
  have hmin := rotationTime_le_latency r writing
  have hdvd := (boundary_spec (now + h.seekTicks newSector)).1
  have hloaded := r.loaded
  obtain ⟨hnow, hseek, hle, hmax⟩ := r.times
  unfold updateLast
  rw [timeAfter_eq r, timeToSeek_eq r]
  dsimp only
  split
  · next hmoves =>
    -- the head has to move, so that the buffer does not apply
    have happlies : h.trackBufferApplies now newSector writing = false := by
      rw [Bool.eq_false_iff, ne_eq, trackBufferApplies_eq r,
        ← seekTicks_eq_zero]
      exact fun hall => hmoves hall.2.1
    obtain ⟨k, hk, -, hend, -⟩ := latency_unbuffered r happlies
    unfold rotationTime at *
    exact ⟨hdvd, by omega, by omega⟩
  · unfold rotationTime at *
    exact ⟨r.aligned, hpos, by omega⟩

theorem latency_le (r : h.Ready now newSector) (writing : Bool) :
    h.computeLatency now newSector writing ≤ 64 * rotationTime := by
  cases happlies : h.trackBufferApplies now newSector writing with
  | true =>
    rw [latency_buffered happlies]
    decide
  | false =>
    obtain ⟨-, -, hb⟩ := boundary_spec (now + h.seekTicks newSector)
    obtain ⟨k, -, hk, hend, -⟩ := latency_unbuffered r happlies
    have hseek := seekTicks_le r.last r.requested
    unfold rotationTime sectorsPerTrack seekTime at *
    omega

end DiskHead

/-! ## Runs -/

namespace DiskClock

/-- The clock is far enough from the greatest `int` when a request is made. -/
def InTime (c : DiskClock) : DiskEvent → Prop
  | .request .. => c.totalTicks + 64 * rotationTime < 2 ^ 31
  | _ => True

/-- What requests one after the other keep: the buffer is loaded from a boundary on that is not ahead of
the clock, or not ahead of the end of the request in progress. -/
structure Sound (c : DiskClock) : Prop where
  totalTicks : 0 ≤ c.totalTicks
  lastSector : onDisk c.head.lastSector
  aligned : rotationTime ∣ c.head.bufferInit
  nonneg : 0 ≤ c.head.bufferInit
  loaded : c.head.bufferInit ≤ c.due.getD c.totalTicks

variable {c c' : DiskClock} {sectorNumber : Int} {writing : Bool}

theorem Sound.ready (h : c.Sound) (hidle : c.due = none) (hnew : onDisk sectorNumber)
    (htime : c.totalTicks + 64 * rotationTime < 2 ^ 31) : c.head.Ready c.totalTicks sectorNumber := by
  obtain ⟨-, -, hb⟩ := boundary_spec (c.totalTicks + c.head.seekTicks sectorNumber)
  have hseek := DiskHead.seekTicks_le h.lastSector hnew
  have hnonneg := h.nonneg
  have hloaded := h.loaded
  rw [hidle, Option.getD_none] at hloaded
  refine ⟨h.totalTicks, h.lastSector, hnew, h.aligned, hloaded, ?_⟩
  unfold DiskHead.Fits
  unfold rotationTime seekTime at *
  constructor <;> omega

theorem Sound.request (h : c.Sound) (hidle : c.due = none) (hnew : onDisk sectorNumber)
    (htime : c.totalTicks + 64 * rotationTime < 2 ^ 31) :
    c.step (.request sectorNumber writing) = some { c with
      head := c.head.updateLast c.totalTicks sectorNumber
      due := some (c.totalTicks + c.head.computeLatency c.totalTicks sectorNumber writing) } := by
  have r := h.ready hidle hnew htime
  have hmin := DiskHead.rotationTime_le_latency r writing
  have hmax := DiskHead.latency_le r writing
  have hnow := h.totalTicks
  unfold rotationTime at *
  unfold step
  dsimp only
  rw [if_pos ⟨hidle, hnew.1, hnew.2, by omega⟩, DiskHead.int_eq (by omega) (by omega)]

theorem Sound.step (h : c.Sound) {event : DiskEvent} (htime : c.InTime event)
    (hstep : c.step event = some c') : c'.Sound := by
  cases event with
  | pass ticks =>
    cases hstep
    have hloaded := h.loaded
    have hnow := h.totalTicks
    refine ⟨by dsimp only; omega, h.lastSector, h.aligned, h.nonneg, ?_⟩
    cases hdue : c.due with
    | none =>
      rw [hdue] at hloaded
      simp only [Option.getD_none] at hloaded ⊢
      omega
    | some due =>
      rw [hdue] at hloaded
      exact hloaded
  | request sectorNumber writing =>
    have hguard : c.due = none ∧ onDisk sectorNumber := by
      unfold DiskClock.step at hstep
      dsimp only at hstep
      split at hstep
      · next hg => exact ⟨hg.1, hg.2.1, hg.2.2.1⟩
      · cases hstep
    obtain ⟨hidle, hnew⟩ := hguard
    rw [h.request hidle hnew htime] at hstep
    cases hstep
    obtain ⟨haligned, hnonneg, hdue⟩ :=
      DiskHead.bufferInit_updateLast (h.ready hidle hnew htime) h.nonneg writing
    exact ⟨h.totalTicks, hnew, haligned, hnonneg, hdue⟩
  | callBack =>
    unfold DiskClock.step at hstep
    dsimp only at hstep
    split at hstep
    · next due hdue =>
      split at hstep
      · next hpast =>
        cases hstep
        have hloaded := h.loaded
        rw [hdue] at hloaded
        exact ⟨h.totalTicks, h.lastSector, h.aligned, h.nonneg, Int.le_trans hloaded hpast⟩
      · cases hstep
    · cases hstep

theorem runs_sound (h : Runs step InTime start c) : c.Sound :=
  h.invariant ⟨by decide, by decide, by decide, by decide, by decide⟩
    fun _ _ _ hs htime hstep => hs.step htime hstep

/-- **A request is served at any time**: an idle disk accepts it, and it ends after the time that a sector
takes to pass, with the sector under the head until then, unless it is in the track buffer. -/
theorem requests_served (c : DiskClock) (sectorNumber : Int) (writing : Bool)
    (h : Runs step InTime start c) (hidle : c.due = none) (hnew : onDisk sectorNumber)
    (htime : c.totalTicks + 64 * rotationTime < 2 ^ 31) :
    ∃ due, c.step (.request sectorNumber writing) =
        some ⟨c.head.updateLast c.totalTicks sectorNumber, c.totalTicks, some due⟩ ∧
      c.totalTicks + rotationTime ≤ due ∧ due ≤ c.totalTicks + 64 * rotationTime ∧
      (c.head.trackBufferApplies c.totalTicks sectorNumber writing = false →
        Passes sectorNumber (due - rotationTime)) := by
  have r := (runs_sound h).ready hidle hnew htime
  have hmin := DiskHead.rotationTime_le_latency r writing
  have hmax := DiskHead.latency_le r writing
  refine ⟨_, (runs_sound h).request hidle hnew htime, by omega, by omega, fun happlies => ?_⟩
  obtain ⟨k, -, -, hend, hpass⟩ := DiskHead.latency_unbuffered r happlies
  rw [hend, Int.add_sub_cancel]
  exact hpass

theorem requests_served_second : ∃ c, Runs step InTime start c ∧
    ∃ due, (c.step (.request 40 false)).map DiskClock.due = some (some due) := by
  have h : Runs step InTime start _ := .step (i := .callBack) (.step (i := .pass 30000)
    (.step (i := .request 7 true) .start (show (0 : Int) + 64 * rotationTime < 2 ^ 31 by decide) rfl)
      trivial rfl) trivial rfl
  obtain ⟨due, hs, -⟩ := requests_served _ 40 false h rfl (by decide) (by decide)
  exact ⟨_, h, due, by rw [hs]; rfl⟩

end DiskClock
end Nachos
