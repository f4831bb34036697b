import Rubato.Proofs.Performance.Times
import Rubato.Proofs.Tiling

namespace Rubato

/-! Where the map times every piece at the tempo of its segment, the seconds between two
offsets are the difference of the seconds elapsed at them. -/

def TempoSegment.rate (divisions : ℚ) (segment : TempoSegment ℚ) : ℚ :=
  60 / (segment.bpm * divisions)

namespace TempoSegments

def elapsedLater (divisions offset : ℚ) : TempoSegments ℚ → ℚ
  | [] => 0
  | segment :: rest =>
    max 0 (Stretch.endBefore offset rest - segment.offset) * segment.rate divisions +
      elapsedLater divisions offset rest

/-- Seconds up to an offset, counted from the start of the measure; the first segment also
covers what lies before it. -/
def elapsed (divisions offset : ℚ) : TempoSegments ℚ → ℚ
  | [] => 0
  | segment :: rest =>
    Stretch.endBefore offset rest * segment.rate divisions + elapsedLater divisions offset rest

end TempoSegments

/-- Between two offsets the map times every stretch at the tempo of its segment. -/
def Clock.EvenOn (clock : Clock ℚ) (first last : ℚ) : Prop :=
  ∀ segment ∈ clock.segments, ∀ start count, first ≤ start → 0 < count → start + count ≤ last →
    clock.map.seconds (clock.startPosition + start) count segment.bpm clock.divisions =
      count * segment.rate clock.divisions

namespace TempoMap

variable {map : TempoMap ℚ}

theorem isSteady_of_le {start stop first last : ℚ} (h : map.isSteady first last = true)
    (hstart : first ≤ start) (hstop : stop ≤ last) : map.isSteady start stop = true := by
  unfold isSteady at h ⊢
  rw [Bool.not_eq_true', List.any_eq_false] at h ⊢
  intro ramp hramp hover
  apply h ramp hramp
  unfold Ramp.overlaps at hover ⊢
  rw [Bool.and_eq_true, decide_eq_true_iff, decide_eq_true_iff] at hover ⊢
  exact ⟨hover.1.trans_le hstop, hstart.trans_lt hover.2⟩

end TempoMap

theorem Clock.WellFormed.evenOn {clock : Clock ℚ} (hclock : clock.WellFormed) {first last : ℚ}
    (hsteady : clock.map.isSteady (clock.startPosition + first) (clock.startPosition + last) =
      true) : clock.EvenOn first last := by
  intro segment hsegment start count hstart hcount hstop
  have hdivisions : (0 : ℚ) < clock.divisions := Nat.cast_pos.mpr hclock.divisions_pos
  have hpiece := TempoMap.isSteady_of_le hsteady (add_le_add_right hstart clock.startPosition)
    (add_le_add_right hstop clock.startPosition)
  rw [← add_assoc] at hpiece
  rw [TempoMap.seconds_of_isSteady hcount (hclock.segments.positive segment hsegment)
    hdivisions hpiece, TempoSegment.rate, mul_div_assoc]

namespace Clock.EvenOn

variable {clock : Clock ℚ} {first last offset length : ℚ}

theorem secondsIn_eq (heven : clock.EvenOn first last) {segment : TempoSegment ℚ}
    (hsegment : segment ∈ clock.segments) {start stop : ℚ} (hstart : first ≤ start)
    (hstop : stop ≤ last) :
    clock.secondsIn segment start stop =
      max 0 (stop - start) * segment.rate clock.divisions := by
  rcases lt_or_ge start stop with hpiece | hempty
  · rw [max_eq_right (sub_pos.mpr hpiece).le]
    exact heven segment hsegment start (stop - start) hstart (sub_pos.mpr hpiece) (by linarith)
  · rw [secondsIn_of_le hempty, max_eq_left (sub_nonpos.mpr hempty), zero_mul]

theorem laterSeconds_eq (heven : clock.EvenOn first last) (hfirst : first ≤ offset)
    (hlength : 0 ≤ length) (hlast : offset + length ≤ last) {segments : TempoSegments ℚ}
    (hsegments : ∀ segment ∈ segments, segment ∈ clock.segments)
    (hsorted : segments.Pairwise fun before after => before.offset < after.offset) :
    clock.laterSeconds offset (offset + length) segments =
      segments.elapsedLater clock.divisions (offset + length) -
        segments.elapsedLater clock.divisions offset := by
  induction segments with
  | nil => exact (sub_self 0).symm
  | cons segment rest ih =>
      rw [List.pairwise_cons] at hsorted
      have hrest := ih (fun other hother => hsegments other (List.mem_cons_of_mem segment hother))
        hsorted.2
      have hstart : first ≤ max offset segment.offset := hfirst.trans (le_max_left _ _)
      have hstop : Stretch.endBefore (offset + length) rest ≤ last :=
        (Stretch.endBefore_le _ rest).trans hlast
      -- The piece begins at the offset or, if that is later, where its segment begins.
      have hpiece : max 0 (Stretch.endBefore (offset + length) rest - max offset segment.offset) =
          max 0 (Stretch.endBefore (offset + length) rest - segment.offset) -
            max 0 (Stretch.endBefore offset rest - segment.offset) := by
        rw [Stretch.endBefore_eq, Stretch.endBefore_eq]
        cases rest with
        | nil =>
            show max 0 (offset + length - _) = max 0 (offset + length - _) - max 0 (offset - _)
            grind
        | cons next others =>
            have hnext := hsorted.1 next List.mem_cons_self
            show max 0 (min (offset + length) next.offset - _) =
              max 0 (min (offset + length) next.offset - _) - max 0 (min offset next.offset - _)
            grind
      rw [laterSeconds, hrest,
        heven.secondsIn_eq (hsegments segment List.mem_cons_self) hstart hstop, hpiece,
        TempoSegments.elapsedLater, TempoSegments.elapsedLater]
      ring

theorem stretchSeconds_eq (heven : clock.EvenOn first last) (hfirst : first ≤ offset)
    (hlength : 0 ≤ length) (hlast : offset + length ≤ last) {segments : TempoSegments ℚ}
    (hsegments : ∀ segment ∈ segments, segment ∈ clock.segments)
    (hsorted : segments.Pairwise fun before after => before.offset < after.offset) :
    clock.stretchSeconds offset (offset + length) segments =
      segments.elapsed clock.divisions (offset + length) -
        segments.elapsed clock.divisions offset := by
  cases segments with
  | nil => exact (sub_self 0).symm
  | cons head rest =>
      have hlater := heven.laterSeconds_eq hfirst hlength hlast
        (fun other hother => hsegments other (List.mem_cons_of_mem head hother))
        (List.pairwise_cons.mp hsorted).2
      have hstop : Stretch.endBefore (offset + length) rest ≤ last :=
        (Stretch.endBefore_le _ rest).trans hlast
      have hpiece : max 0 (Stretch.endBefore (offset + length) rest - offset) =
          Stretch.endBefore (offset + length) rest - Stretch.endBefore offset rest := by
        rw [Stretch.endBefore_eq, Stretch.endBefore_eq]
        cases rest with
        | nil =>
            show max 0 (offset + length - offset) = offset + length - offset
            grind
        | cons next others =>
            show max 0 (min (offset + length) next.offset - offset) =
              min (offset + length) next.offset - min offset next.offset
            grind
      rw [stretchSeconds, hlater,
        heven.secondsIn_eq (hsegments head List.mem_cons_self) hfirst hstop, hpiece,
        TempoSegments.elapsed, TempoSegments.elapsed]
      ring

theorem spanSeconds_eq (heven : clock.EvenOn first last) (hsegments : clock.segments.WellFormed)
    (hfirst : first ≤ offset) (hlength : 0 ≤ length) (hlast : offset + length ≤ last) :
    clock.spanSeconds offset length =
      clock.segments.elapsed clock.divisions (offset + length) -
        clock.segments.elapsed clock.divisions offset := by
  rw [clock.spanSeconds_eq]
  exact heven.stretchSeconds_eq hfirst hlength hlast (fun _ h => h) hsegments.sorted

theorem timeAt_eq (heven : clock.EvenOn first last) (hsegments : clock.segments.WellFormed)
    (hfirst : first ≤ min 0 offset) (hlast : max 0 offset ≤ last) :
    clock.timeAt offset = clock.startTime +
      (clock.segments.elapsed clock.divisions offset -
        clock.segments.elapsed clock.divisions 0) := by
  obtain ⟨hzero, hoffset⟩ := le_min_iff.mp hfirst
  obtain ⟨hzeroLast, hoffsetLast⟩ := max_le_iff.mp hlast
  unfold Clock.timeAt
  split
  · next hbehind =>
      rw [heven.spanSeconds_eq hsegments hzero hbehind (by rwa [zero_add]), zero_add]
  · next hbefore =>
      rw [heven.spanSeconds_eq hsegments hoffset (neg_nonneg.mpr (not_le.mp hbefore).le)
        (by rwa [add_neg_cancel]), add_neg_cancel]
      ring

theorem timeAt_add (heven : clock.EvenOn first last) (hsegments : clock.segments.WellFormed)
    (hfirst : first ≤ min 0 offset) (hlength : 0 ≤ length)
    (hlast : max 0 (offset + length) ≤ last) :
    clock.timeAt (offset + length) = clock.timeAt offset + clock.spanSeconds offset length := by
  obtain ⟨hzero, hoffset⟩ := le_min_iff.mp hfirst
  obtain ⟨hzeroLast, hstopLast⟩ := max_le_iff.mp hlast
  have hbehind : offset ≤ offset + length := le_add_of_nonneg_right hlength
  rw [heven.timeAt_eq hsegments hfirst (max_le hzeroLast (hbehind.trans hstopLast)),
    heven.timeAt_eq hsegments (le_min hzero (hoffset.trans hbehind)) hlast,
    heven.spanSeconds_eq hsegments hoffset hlength hstopLast]
  ring

/-- Spans in divisions that follow each other are played in times that follow each other. -/
theorem tiles_seconds (heven : clock.EvenOn first last) (hclock : clock.WellFormed)
    (hfirst : first ≤ 0) (hlast : 0 ≤ last) {start stop : ℚ} {spans : List Span}
    (htiles : Tiles start stop spans) (hstart : first ≤ start) (hstop : stop ≤ last) :
    Tiles (clock.timeAt start) (clock.timeAt stop)
      (spans.map fun span => ⟨clock.timeAt span.start,
        clock.spanSeconds span.start span.length⟩) := by
  apply htiles.map
  intro span hspan
  obtain ⟨hafter, hlength, hbefore⟩ := htiles.within span hspan
  refine ⟨rfl, ?_, hclock.spanSeconds_nonneg _ _⟩
  exact (heven.timeAt_add hclock.segments (le_min hfirst (hstart.trans hafter)) hlength
    (max_le hlast (hbefore.trans hstop))).symm

end Clock.EvenOn

namespace TempoSegments

variable {bpm divisions : ℚ}

theorem elapsedLater_of_one_tempo {segment : TempoSegment ℚ} {rest : TempoSegments ℚ}
    (hsorted : (segment :: rest).Pairwise fun first second => first.offset < second.offset)
    (hbpm : ∀ other ∈ segment :: rest, other.bpm = bpm) (offset : ℚ) :
    elapsedLater divisions offset (segment :: rest) =
      max 0 (offset - segment.offset) * (60 / (bpm * divisions)) := by
  induction rest generalizing segment with
  | nil =>
      rw [elapsedLater, elapsedLater, add_zero, TempoSegment.rate, hbpm segment List.mem_cons_self]
      rfl
  | cons next others ih =>
      rw [List.pairwise_cons] at hsorted
      have hnext := hsorted.1 next List.mem_cons_self
      have hsplit : max 0 (min offset next.offset - segment.offset) +
          max 0 (offset - next.offset) = max 0 (offset - segment.offset) := by grind
      rw [elapsedLater, ih hsorted.2 fun other hother =>
          hbpm other (List.mem_cons_of_mem segment hother),
        TempoSegment.rate, hbpm segment List.mem_cons_self, Stretch.endBefore_eq, ← add_mul]
      exact congrArg (· * (60 / (bpm * divisions))) hsplit

theorem WellFormed.elapsed_of_one_tempo {segments : TempoSegments ℚ}
    (hsegments : segments.WellFormed) (hbpm : ∀ segment ∈ segments, segment.bpm = bpm)
    (offset : ℚ) : segments.elapsed divisions offset = offset * (60 / (bpm * divisions)) := by
  have hstarts := hsegments.starts
  have hsorted := hsegments.sorted
  cases segments with
  | nil => cases hstarts
  | cons head rest =>
      rw [elapsed, TempoSegment.rate, hbpm head List.mem_cons_self, Stretch.endBefore_eq]
      cases rest with
      | nil => exact add_zero _
      | cons next others =>
          have hsplit : min offset next.offset + max 0 (offset - next.offset) = offset := by grind
          rw [elapsedLater_of_one_tempo (List.pairwise_cons.mp hsorted).2 fun other hother =>
            hbpm other (List.mem_cons_of_mem head hother), ← add_mul]
          exact congrArg (· * (60 / (bpm * divisions))) hsplit

end TempoSegments

namespace Clock.EvenOn

variable {clock : Clock ℚ} {first last offset length bpm : ℚ}

theorem spanSeconds_of_one_tempo (heven : clock.EvenOn first last)
    (hsegments : clock.segments.WellFormed)
    (hbpm : ∀ segment ∈ clock.segments, segment.bpm = bpm) (hfirst : first ≤ offset)
    (hlength : 0 ≤ length) (hlast : offset + length ≤ last) :
    clock.spanSeconds offset length = length * (60 / (bpm * clock.divisions)) := by
  rw [heven.spanSeconds_eq hsegments hfirst hlength hlast,
    hsegments.elapsed_of_one_tempo hbpm, hsegments.elapsed_of_one_tempo hbpm]
  ring

theorem timeAt_of_one_tempo (heven : clock.EvenOn first last)
    (hsegments : clock.segments.WellFormed)
    (hbpm : ∀ segment ∈ clock.segments, segment.bpm = bpm) (hfirst : first ≤ min 0 offset)
    (hlast : max 0 offset ≤ last) :
    clock.timeAt offset = clock.startTime + offset * (60 / (bpm * clock.divisions)) := by
  rw [heven.timeAt_eq hsegments hfirst hlast, hsegments.elapsed_of_one_tempo hbpm,
    hsegments.elapsed_of_one_tempo hbpm]
  ring

end Clock.EvenOn

end Rubato
