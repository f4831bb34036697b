import Rubato.Proofs.Performance.Segments

namespace Rubato

/-! The seconds of a stretch, segment by segment; the first segment also has what lies
before it. -/

namespace Stretch

theorem endBefore_eq (stop : ℚ) (segments : TempoSegments ℚ) :
    endBefore stop segments =
      (segments.head?.map fun next => min stop next.offset).getD stop := by
  cases segments with
  | nil => rfl
  | cons next rest => exact Quantity.lesser_eq_min stop next.offset

theorem endBefore_le (stop : ℚ) (segments : TempoSegments ℚ) :
    endBefore stop segments ≤ stop := by
  rw [endBefore_eq]
  cases segments with
  | nil => exact le_rfl
  | cons next rest => exact min_le_left _ _

theorem endBefore_mono {stop later : ℚ} (h : stop ≤ later) (segments : TempoSegments ℚ) :
    endBefore stop segments ≤ endBefore later segments := by
  rw [endBefore_eq, endBefore_eq]
  cases segments with
  | nil => exact h
  | cons next rest => exact min_le_min_right next.offset h

end Stretch

namespace Clock

variable (clock : Clock ℚ)

def secondsIn (segment : TempoSegment ℚ) (start stop : ℚ) : ℚ :=
  clock.map.seconds (clock.startPosition + start) (stop - start) segment.bpm clock.divisions

def laterSeconds (offset stop : ℚ) : TempoSegments ℚ → ℚ
  | [] => 0
  | segment :: rest =>
    clock.secondsIn segment (max offset segment.offset) (Stretch.endBefore stop rest) +
      laterSeconds offset stop rest

def stretchSeconds (offset stop : ℚ) : TempoSegments ℚ → ℚ
  | [] => 0
  | segment :: rest =>
    clock.secondsIn segment offset (Stretch.endBefore stop rest) +
      clock.laterSeconds offset stop rest

theorem pieceSeconds_eq (offset length start stop : ℚ) (segment : TempoSegment ℚ) :
    clock.pieceSeconds offset length (offset + length) ⟨start, stop, segment.bpm⟩ =
      clock.secondsIn segment start stop := by
  have hcount : (if start == offset && stop == offset + length then length
      else stop - start) = stop - start := by
    split
    · next hwhole =>
        simp only [Bool.and_eq_true, beq_iff_eq] at hwhole
        rw [hwhole.1, hwhole.2, add_sub_cancel_left]
    · rfl
  unfold pieceSeconds
  dsimp only
  rw [hcount]
  split
  · rfl
  · next hempty =>
      exact (TempoMap.seconds_of_nonpos (sub_nonpos.mpr (not_lt.mp hempty))).symm

theorem sum_ofLater (offset length : ℚ) (segments : TempoSegments ℚ) :
    ((Stretch.ofLater offset (offset + length) segments).map
        (clock.pieceSeconds offset length (offset + length))).sum =
      clock.laterSeconds offset (offset + length) segments := by
  induction segments with
  | nil => rfl
  | cons segment rest ih =>
      rw [Stretch.ofLater, List.map_cons, List.sum_cons, ih, pieceSeconds_eq,
        Quantity.greater_eq_max]
      rfl

theorem spanSeconds_eq (offset length : ℚ) :
    clock.spanSeconds offset length =
      clock.stretchSeconds offset (offset + length) clock.segments := by
  unfold spanSeconds
  dsimp only
  rw [Quantity.total_eq_sum]
  cases clock.segments with
  | nil => rfl
  | cons segment rest =>
      rw [Stretch.ofSegments, List.map_cons, List.sum_cons, sum_ofLater, pieceSeconds_eq]
      rfl

variable {clock} {offset start stop : ℚ}

theorem secondsIn_of_le {segment : TempoSegment ℚ} (h : stop ≤ start) :
    clock.secondsIn segment start stop = 0 :=
  TempoMap.seconds_of_nonpos (sub_nonpos.mpr h)

theorem laterSeconds_of_le {segments : TempoSegments ℚ}
    (hempty : ∀ segment ∈ segments, stop ≤ max offset segment.offset) :
    clock.laterSeconds offset stop segments = 0 := by
  induction segments with
  | nil => rfl
  | cons segment rest ih =>
      rw [laterSeconds, ih fun other hother => hempty other (List.mem_cons_of_mem segment hother),
        secondsIn_of_le
          ((Stretch.endBefore_le stop rest).trans (hempty segment List.mem_cons_self)),
        add_zero]

theorem spanSeconds_of_nonpos {length : ℚ} (h : length ≤ 0) :
    clock.spanSeconds offset length = 0 := by
  have hstop : offset + length ≤ offset := add_le_of_nonpos_right h
  rw [spanSeconds_eq]
  cases clock.segments with
  | nil => rfl
  | cons segment rest =>
      rw [stretchSeconds, secondsIn_of_le ((Stretch.endBefore_le _ rest).trans hstop),
        laterSeconds_of_le fun _ _ => hstop.trans (le_max_left _ _), add_zero]

theorem stretchSeconds_of_nonneg {segments : TempoSegments ℚ} (hsegments : segments.WellFormed)
    (hoffset : 0 ≤ offset) :
    clock.stretchSeconds offset stop segments = clock.laterSeconds offset stop segments := by
  have hstarts := hsegments.starts
  cases segments with
  | nil => rfl
  | cons head rest =>
      have hhead : head.offset = 0 := by simpa using hstarts
      rw [stretchSeconds, laterSeconds, hhead, max_eq_left hoffset]

end Clock

end Rubato
