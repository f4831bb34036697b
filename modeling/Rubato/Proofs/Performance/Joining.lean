import Rubato.Proofs.Performance.Moments

namespace Rubato

/-! Under a ramp each segment of a measure is summed in whole divisions from where it
starts, so that a stretch may be cut behind a whole number of them. -/

namespace TempoSegments

/-- The offset lies a whole number of divisions behind the start of the segment it is in. -/
def WholeAt (segments : TempoSegments ℚ) (offset : ℚ) : Prop :=
  ∀ segment ∈ lastUpTo? TempoSegment.offset segments offset,
    ∃ divisions : ℕ, offset = segment.offset + divisions

variable {segment : TempoSegment ℚ} {rest : TempoSegments ℚ} {offset : ℚ}

theorem WholeAt.head (h : WholeAt (segment :: rest) offset) (hbehind : segment.offset ≤ offset)
    (hlast : ∀ later ∈ rest, offset < later.offset) :
    ∃ divisions : ℕ, offset = segment.offset + divisions := by
  apply h
  rw [lastUpTo?_cons, lastUpTo?_eq_none_iff.mpr hlast, if_pos hbehind]
  rfl

theorem WholeAt.tail (h : WholeAt (segment :: rest) offset) : WholeAt rest offset := by
  intro last hlast
  apply h
  rw [lastUpTo?_cons, Option.mem_def.mp hlast]
  rfl

end TempoSegments

namespace Clock

variable {clock : Clock ℚ} {offset length start stop : ℚ}

namespace WellFormed

variable (hclock : clock.WellFormed)

include hclock

theorem secondsIn_cut {segment : TempoSegment ℚ} (hbpm : 0 < segment.bpm) {divisions : ℕ}
    (hoffset : offset = start + divisions) (hstop : offset ≤ stop) :
    clock.secondsIn segment start stop =
      clock.secondsIn segment start offset + clock.secondsIn segment offset stop := by
  have hdivisions : (0 : ℚ) < clock.divisions := Nat.cast_pos.mpr hclock.divisions_pos
  have hadd := clock.map.seconds_add hbpm hdivisions (clock.startPosition + start) divisions
    (sub_nonneg.mpr hstop)
  rwa [← sub_eq_of_eq_add' hoffset, add_assoc, add_sub_cancel, sub_add_sub_cancel'] at hadd

theorem secondsIn_endBefore_cut (hlength : 0 ≤ length) {segment : TempoSegment ℚ}
    {rest : TempoSegments ℚ} (hbpm : 0 < segment.bpm)
    (hsorted : (segment :: rest).Pairwise fun first second => first.offset < second.offset)
    (hwhole : TempoSegments.WholeAt (segment :: rest) offset) :
    clock.secondsIn segment segment.offset (Stretch.endBefore (offset + length) rest) =
      clock.secondsIn segment segment.offset (Stretch.endBefore offset rest) +
        clock.secondsIn segment (max offset segment.offset)
          (Stretch.endBefore (offset + length) rest) := by
  rcases le_or_gt offset segment.offset with hbefore | hbehind
  · rw [max_eq_right hbefore, secondsIn_of_le ((Stretch.endBefore_le offset rest).trans hbefore),
      zero_add]
  rw [max_eq_left hbehind.le, Stretch.endBefore_eq, Stretch.endBefore_eq]
  have hcut : (∀ later ∈ rest, offset < later.offset) → ∀ stop, offset ≤ stop →
      clock.secondsIn segment segment.offset stop =
        clock.secondsIn segment segment.offset offset + clock.secondsIn segment offset stop := by
    intro hlast stop hstop
    obtain ⟨divisions, hdivisions⟩ := hwhole.head hbehind.le hlast
    exact hclock.secondsIn_cut hbpm hdivisions hstop
  cases rest with
  | nil => exact hcut (fun _ h => absurd h List.not_mem_nil) _ (le_add_of_nonneg_right hlength)
  | cons next others =>
      rw [List.pairwise_cons, List.pairwise_cons] at hsorted
      simp only [List.head?_cons, Option.map_some, Option.getD_some]
      rcases le_or_gt next.offset offset with hpast | hinside
      · rw [min_eq_right hpast, min_eq_right (hpast.trans (le_add_of_nonneg_right hlength)),
          secondsIn_of_le hpast, add_zero]
      · have hlast : ∀ later ∈ next :: others, offset < later.offset := by
          intro later hlater
          rcases List.mem_cons.mp hlater with rfl | hother
          · exact hinside
          · exact hinside.trans (hsorted.2.1 later hother)
        rw [min_eq_left hinside.le]
        exact hcut hlast _ (le_min (le_add_of_nonneg_right hlength) hinside.le)

theorem laterSeconds_cut (hlength : 0 ≤ length) {segments : TempoSegments ℚ}
    (hsegments : ∀ segment ∈ segments, segment ∈ clock.segments)
    (hsorted : segments.Pairwise fun first second => first.offset < second.offset)
    (hwhole : segments.WholeAt offset) :
    clock.laterSeconds 0 (offset + length) segments =
      clock.laterSeconds 0 offset segments +
        clock.laterSeconds offset (offset + length) segments := by
  induction segments with
  | nil => exact (add_zero 0).symm
  | cons segment rest ih =>
      have hsegment := hsegments segment List.mem_cons_self
      have hrest := ih (fun other hother => hsegments other (List.mem_cons_of_mem segment hother))
        (List.pairwise_cons.mp hsorted).2 hwhole.tail
      have hcut := hclock.secondsIn_endBefore_cut hlength
        (hclock.segments.positive segment hsegment) hsorted hwhole
      rw [laterSeconds, laterSeconds, laterSeconds, hrest,
        max_eq_right (hclock.segments.offset_nonneg hsegment), hcut]
      ring

theorem timeAt_add_of_whole (hoffset : 0 ≤ offset) (hlength : 0 ≤ length)
    (hwhole : clock.segments.WholeAt offset) :
    clock.timeAt (offset + length) = clock.timeAt offset + clock.spanSeconds offset length := by
  have hcut := hclock.laterSeconds_cut hlength (fun _ h => h) hclock.segments.sorted hwhole
  unfold timeAt
  rw [if_pos hoffset, if_pos (add_nonneg hoffset hlength), spanSeconds_eq, spanSeconds_eq,
    spanSeconds_eq, stretchSeconds_of_nonneg hclock.segments le_rfl,
    stretchSeconds_of_nonneg hclock.segments le_rfl,
    stretchSeconds_of_nonneg hclock.segments hoffset, zero_add, zero_add, hcut, add_assoc]

end WellFormed

/-- Where a stretch may be cut: without ramps anywhere, under ramps behind a whole number of
divisions of a segment. -/
def Joins (clock : Clock ℚ) (offset length : ℚ) : Prop :=
  clock.map.isSteady (clock.startPosition + min offset 0)
      (clock.startPosition + max (offset + length) 0) = true ∨
    0 ≤ offset ∧ clock.segments.WholeAt offset

theorem WellFormed.timeAt_add (hclock : clock.WellFormed) (hlength : 0 ≤ length)
    (hjoins : clock.Joins offset length) :
    clock.timeAt (offset + length) = clock.timeAt offset + clock.spanSeconds offset length := by
  rcases hjoins with hsteady | ⟨hoffset, hwhole⟩
  · exact (hclock.evenOn hsteady).timeAt_add hclock.segments (min_comm offset 0).le hlength
      (max_comm 0 (offset + length)).le
  · exact hclock.timeAt_add_of_whole hoffset hlength hwhole

def playPlain (clock : Clock ℚ) (pitched : PitchedNote) (position : ℚ) : PlayedNote ℚ :=
  clock.play position pitched.note.duration pitched.pitch.number pitched.pitch.name
    pitched.note.staff false

theorem playNote_eq_playPlain (clock : Clock ℚ) (fifths : Int) {pitched : PitchedNote}
    (hplain : pitched.note.ornaments = []) (position : ℚ) :
    clock.playNote fifths pitched.note pitched.pitch position [] =
      [clock.playPlain pitched position] := by
  have hrun : clock.graceRun pitched.note position [] = ⟨[], 0, false⟩ := rfl
  have hfigure : pitched.note.figure clock.divisions fifths pitched.pitch pitched.note.duration =
      [⟨pitched.pitch.number, 0, pitched.note.duration, false⟩] := by
    unfold Note.figure
    rw [hplain]
    rfl
  rw [playNote_eq, hrun, Note.layOut, Note.layMain, sub_zero, hfigure]
  simp [Note.layGraces, GraceRun.mainStart, playLaid, playPlain]

end Clock

theorem Walker.Begins.notes_place {walker : Walker ℚ} {pitched : PitchedNote}
    (hbegins : walker.Begins pitched) (hplain : pitched.note.ornaments = []) (position : ℚ) :
    (walker.place pitched.note pitched.pitch position []).value.notes =
      walker.notes ++ [walker.clock.playPlain pitched position] := by
  rw [Walker.notes_place hbegins, Clock.playNote_eq_playPlain _ _ hplain]

/-- Onsets and durations fit together at every moment of the walk through a part of a score:
where a stretch may be cut, the time of its end is that of its start and its seconds, and so a
plain note ends when the next one begins. -/
theorem Score.times_join {score : Score ℚ} (hscore : score.IsRead) {part : Part ℚ}
    (hpart : part ∈ score.parts) (number : Nat) {reached left : List (Moment ℚ)}
    (hmoments : part.moments = reached ++ left) {offset length : ℚ} (hlength : 0 ≤ length) :
    let walker := ((MeasureWalk.initial (score.tempoMap number).value).past reached).walker
    walker.clock.Joins offset length →
      walker.clock.timeAt (offset + length) =
          walker.clock.timeAt offset + walker.clock.spanSeconds offset length ∧
        ∀ first next : PitchedNote, first.note.ornaments = [] → next.note.ornaments = [] →
          (first.note.duration : ℚ) = length → walker.Begins first →
          (walker.place first.note first.pitch offset []).value.Begins next →
          ∃ played later,
            ((walker.place first.note first.pitch offset []).value.place next.note next.pitch
                (offset + length) []).value.notes = walker.notes ++ [played, later] ∧
              played.time = walker.clock.timeAt offset ∧
              played.time + played.duration = later.time := by
  intro walker hjoins
  have hreached : ∀ moment ∈ reached, moment.WellFormed := fun moment hmoment =>
    (hscore.wellFormed part hpart).moments moment (hmoments ▸ List.mem_append_left left hmoment)
  have hclock : walker.clock.WellFormed := ((MeasureWalk.grounded_initial
    (hscore.wellFormed.tempoMap number)).past hreached).walker.clock
  have htimes := hclock.timeAt_add hlength hjoins
  refine ⟨htimes, fun first next hfirst hnext hduration hbegins hfollows => ?_⟩
  refine ⟨walker.clock.playPlain first offset, walker.clock.playPlain next (offset + length), ?_,
    rfl, ?_⟩
  · rw [hfollows.notes_place hnext, hbegins.notes_place hfirst, List.append_assoc,
      (walker.clock_place first.note first.pitch offset []).1]
    rfl
  · show walker.clock.timeAt offset + walker.clock.spanSeconds offset first.note.duration = _
    rw [hduration]
    exact htimes.symm

def slowingBar : Part ℚ :=
  ⟨"P1", [
    { number := "1"
      attributes := .none
      elements := [
        .direction ⟨["rit."], none⟩, .note (.plain (some ⟨.c, 0, 5⟩) 1),
        .note (.plain (some ⟨.d, 0, 5⟩) 2), .note (.plain (some ⟨.e, 0, 5⟩) 1)] },
    { number := "2", attributes := .none, elements := [.direction ⟨[], some 60⟩] }]⟩

section Text

open Markup (tagged)

private def plainText (letter duration : Char) : List Char :=
  tagged "note" [] [
    tagged "pitch" [] [tagged "step" [] [[letter]], tagged "octave" [] [['5']]],
    tagged "duration" [] [[duration]]]

private def slowingBarText : List Char :=
  tagged "score-partwise" [] [tagged "part" [" id=", "\"P1\""] [
    tagged "measure" [" number=", "\"1\""] [
      tagged "direction" [] [tagged "direction-type" [] [tagged "words" [] ["rit.".toList]]],
      plainText 'C' '1', plainText 'D' '2', plainText 'E' '1'],
    tagged "measure" [" number=", "\"2\""] [tagged "sound" [" tempo=", "\"60\""] []]]]

end Text

private theorem tempoMap_slowingBar :
    ((⟨[slowingBar]⟩ : Score ℚ).tempoMap 0).value =
      ⟨[⟨4, 60⟩], [⟨.ritardando, 0, 4, 120, 60⟩]⟩ := by
  have hevents : (TempoMap.ofPart slowingBar).value.events = [⟨4, 60⟩] := by
    rw [TempoMap.events_ofPart, show slowingBar.events = [⟨4, 60⟩] by decide +kernel]
    exact List.mergeSort_singleton _
  have hramps : (TempoMap.ofPart slowingBar).value.ramps = [⟨.ritardando, 0, 4, 120, 60⟩] := by
    decide +kernel
  exact congr (congrArg TempoMap.mk hevents) hramps

/-- The second note is played in two steps, at 105 and at 90, and the third one follows it. -/
theorem times_join_slowingBar :
    let score : Score ℚ := ⟨[slowingBar]⟩
    let walker := ((MeasureWalk.initial (score.tempoMap 0).value).past
      (slowingBar.moments.take 3)).walker
    let second : PitchedNote := ⟨.plain (some ⟨.d, 0, 5⟩) 2, ⟨.d, 0, 5⟩⟩
    let third : PitchedNote := ⟨.plain (some ⟨.e, 0, 5⟩) 1, ⟨.e, 0, 5⟩⟩
    score.IsRead ∧ walker.clock.Joins 1 2 ∧
      ∃ played later,
        ((walker.place second.note second.pitch 1 []).value.place third.note third.pitch
            (1 + 2) []).value.notes = walker.notes ++ [played, later] ∧
          played.time = 1 / 2 ∧ played.time + played.duration = later.time := by
  intro score walker second third
  have hread : score.IsRead := Score.isRead_of_characters slowingBarText (by decide +kernel)
  have hmap : (score.tempoMap 0).value = _ := tempoMap_slowingBar
  have hjoins : walker.clock.Joins 1 2 := by
    have hlast : lastUpTo? TempoSegment.offset walker.clock.segments 1 = some ⟨0, 120⟩ := by
      show lastUpTo? _ (MeasureWalk.past (MeasureWalk.initial (score.tempoMap 0).value)
        (slowingBar.moments.take 3)).walker.clock.segments 1 = _
      rw [hmap]
      decide +kernel
    refine .inr ⟨by norm_num, fun segment hsegment => ⟨1, ?_⟩⟩
    rw [Option.mem_unique hsegment hlast]
    norm_num
  have hmoments : slowingBar.moments = slowingBar.moments.take 3 ++ slowingBar.moments.drop 3 :=
    (List.take_append_drop 3 slowingBar.moments).symm
  obtain ⟨-, hplain⟩ := Score.times_join hread (List.mem_singleton_self slowingBar) 0 hmoments
    (by norm_num : (0 : ℚ) ≤ 2) hjoins
  obtain ⟨played, later, hnotes, htime, hend⟩ :=
    hplain second third rfl rfl (by norm_num [second, Note.plain])
      (Walker.begins_of_not_stop _ rfl) (Walker.begins_of_not_stop _ rfl)
  refine ⟨hread, hjoins, played, later, hnotes, ?_, hend⟩
  rw [htime]
  show Clock.timeAt (MeasureWalk.past (MeasureWalk.initial (score.tempoMap 0).value)
    (slowingBar.moments.take 3)).walker.clock 1 = _
  rw [hmap]
  decide +kernel

end Rubato
