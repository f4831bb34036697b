import Rubato.Proofs.Performance.Elapsed
import Rubato.Proofs.Performance.Layout

namespace Rubato

section Reached

variable {α : Type} [Quantity α]

/-- A state of the walk through a part: some elements of a measure are walked, others left. -/
def Part.Reaches (part : Part α) (map : TempoMap α) (walk : MeasureWalk α) : Prop :=
  ∃ number measure walked left, part.measures[number]? = some measure ∧
    measure.elements = walked ++ left ∧
    walk = MeasureWalk.after
      ⟨(part.walkerAt map number).enter measure.attributes, Place.start, []⟩ walked

/-- Whether a note with such tie marks begins a note that is played. -/
def TieAction.begins : TieAction → Bool
  | .begin => true
  | .restart => true
  | .extend _ => false
  | .drop => false

theorem Walker.value_place_of_begins {walker : Walker α} {note : Note} {pitch : Pitch}
    (hbegins : (walker.ties.action note.tie (TieKey.ofNote note pitch)).begins = true)
    (position : α) (graces : List GraceNote) :
    (walker.place note pitch position graces).value =
      walker.begin note pitch (TieKey.ofNote note pitch) position graces := by
  rw [value_place]
  cases haction : walker.ties.action note.tie (TieKey.ofNote note pitch) with
  | begin => rfl
  | restart => rfl
  | extend index =>
      rw [haction] at hbegins
      cases hbegins
  | drop =>
      rw [haction] at hbegins
      cases hbegins

theorem Walker.notes_place {walker : Walker α} {note : Note} {pitch : Pitch}
    (hbegins : (walker.ties.action note.tie (TieKey.ofNote note pitch)).begins = true)
    (position : α) (graces : List GraceNote) :
    (walker.place note pitch position graces).value.notes = walker.notes ++
      walker.clock.playNote walker.meter.fifths note pitch position graces := by
  rw [value_place_of_begins hbegins, notes_begin]

end Reached

def PlayedNote.span (played : PlayedNote ℚ) : Span := ⟨played.time, played.duration⟩

theorem Walker.Grounded.enter {walker : Walker ℚ} (hwalker : walker.Grounded)
    {attributes : Attributes} (hattributes : attributes.WellFormed) :
    (walker.enter attributes).Grounded := by
  have hmeter := hwalker.meter.update hattributes
  exact ⟨hwalker.clock.enter hmeter.divisions_pos _, hmeter, hwalker.notes⟩

theorem Part.WellFormed.grounded_of_reaches {part : Part ℚ} (hpart : part.WellFormed)
    {map : TempoMap ℚ} (hmap : map.WellFormed) {walk : MeasureWalk ℚ}
    (hreached : part.Reaches map walk) : walk.walker.Grounded := by
  obtain ⟨number, measure, walked, left, hmeasure, helements, rfl⟩ := hreached
  have hwritten := hpart measure (List.mem_of_getElem? hmeasure)
  have hentered := (hpart.grounded_walkerAt hmap number).enter hwritten.attributes_wellFormed
  apply Walker.Grounded.after walked hentered Place.nonneg_start
  intro element helement
  exact hwritten.tempo_pos element (helements ▸ List.mem_append_left left helement)

namespace Clock.WellFormed

variable {clock : Clock ℚ} (hclock : clock.WellFormed) (fifths : Int) (note : Note)
  (pitch : Pitch) (position : ℚ) (graces : List GraceNote)

include hclock

theorem sum_playNote_of_segment
    (heven : clock.EvenOn (min 0 ((clock.graceRun note position graces).start position))
      (position + note.duration)) {segment : TempoSegment ℚ}
    (hsegment : clock.segments = [segment]) :
    ((clock.playNote fifths note pitch position graces).map (·.duration)).sum =
      note.duration * 60 / (segment.bpm * clock.divisions) := by
  have hfills := clock.fills_graceRun note position graces
  have hbpm : ∀ other ∈ clock.segments, other.bpm = segment.bpm := by
    intro other hother
    rw [hsegment, List.mem_singleton] at hother
    rw [hother]
  have hdurations : (clock.playNote fifths note pitch position graces).map (·.duration) =
      (note.layOut clock.divisions fifths pitch position
        (clock.graceRun note position graces)).map fun laid =>
          laid.length * (60 / (segment.bpm * clock.divisions)) := by
    rw [clock.playNote_eq, List.map_map]
    apply List.map_congr_left
    intro laid hlaid
    obtain ⟨hstart, hlength, hstop⟩ :=
      hfills.within_layOut clock.divisions fifths pitch position laid hlaid
    exact heven.spanSeconds_of_one_tempo hclock.segments hbpm
      ((min_le_right _ _).trans hstart) hlength hstop
  rw [hdurations, List.sum_map_mul_right, hfills.sum_layOut, mul_div_assoc]

theorem tiles_playNote (hposition : 0 ≤ position)
    (heven : clock.EvenOn 0 (position + note.duration))
    (hbeat : (clock.graceRun note position graces).onBeat = true ∨
      (clock.graceRun note position graces).stolen = 0) :
    Tiles (clock.timeAt position) (clock.timeAt (position + note.duration))
      ((clock.playNote fifths note pitch position graces).map PlayedNote.span) := by
  have hlaid := (clock.fills_graceRun note position graces).tiles_layOut clock.divisions fifths
    pitch position hbeat
  have hend : 0 ≤ position + (note.duration : ℚ) :=
    add_nonneg hposition (Nat.cast_nonneg note.duration)
  have htimes := heven.tiles_seconds hclock le_rfl hend hlaid hposition le_rfl
  rw [List.map_map] at htimes
  rw [clock.playNote_eq, List.map_map]
  exact htimes

theorem sum_playNote (hposition : 0 ≤ position)
    (heven : clock.EvenOn 0 (position + note.duration))
    (hbeat : (clock.graceRun note position graces).onBeat = true ∨
      (clock.graceRun note position graces).stolen = 0) :
    ((clock.playNote fifths note pitch position graces).map (·.duration)).sum =
      clock.spanSeconds position note.duration := by
  have hlength : (0 : ℚ) ≤ note.duration := Nat.cast_nonneg note.duration
  have hsum := (hclock.tiles_playNote fifths note pitch position graces hposition heven
    hbeat).sum_length
  rw [heven.timeAt_add hclock.segments (le_min le_rfl hposition) hlength
    (max_le (add_nonneg hposition hlength) le_rfl), add_sub_cancel_left, List.map_map] at hsum
  exact hsum

end Clock.WellFormed

/-- A note that begins is played as some notes of which one is no ornament. With no ramp from
the start of the measure, or the first of these notes if that is earlier, to the end of the
note, their lengths add up to that of the written note in a single tempo segment; without a
run, or with the run on the beat, they do so in any number of segments, and the notes follow
each other in its place. -/
theorem Part.WellFormed.place_keeps_time {part : Part ℚ} (hpart : part.WellFormed)
    {map : TempoMap ℚ} (hmap : map.WellFormed) {walk : MeasureWalk ℚ}
    (hreached : part.Reaches map walk) {note : Note} {pitch : Pitch}
    (hbegins : (walk.walker.ties.action note.tie (TieKey.ofNote note pitch)).begins = true)
    {position : ℚ} (hposition : 0 ≤ position) (graces : List GraceNote) :
    let clock := walk.walker.clock
    let run := clock.graceRun note position graces
    ∃ pushed,
      (walk.walker.place note pitch position graces).value.notes = walk.walker.notes ++ pushed ∧
      (pushed.filter fun played => !played.ornamental).length = 1 ∧
      (clock.map.isSteady (clock.startPosition + min 0 (run.start position))
          (clock.startPosition + (position + note.duration)) = true →
        (∀ segment, clock.segments = [segment] →
          (pushed.map (·.duration)).sum =
            note.duration * 60 / (segment.bpm * clock.divisions)) ∧
        (graces = [] ∨ run.onBeat = true →
          (pushed.map (·.duration)).sum = clock.spanSeconds position note.duration ∧
          Tiles (clock.timeAt position) (clock.timeAt (position + note.duration))
            (pushed.map PlayedNote.span))) := by
  intro clock run
  have hclock : clock.WellFormed := (hpart.grounded_of_reaches hmap hreached).clock
  refine ⟨_, Walker.notes_place hbegins position graces, ?_, fun hsteady => ⟨?_, ?_⟩⟩
  · have hwritten := clock.written_playNote walk.walker.meter.fifths note pitch position graces
    have hlength := congrArg List.length hwritten
    rwa [PlayedNote.writtenNames, List.length_map] at hlength
  · exact fun segment hsegment =>
      hclock.sum_playNote_of_segment _ note pitch position graces (hclock.evenOn hsteady) hsegment
  · intro hrun
    have hbeat : run.onBeat = true ∨ run.stolen = 0 := by
      rcases hrun with rfl | hbeat
      · exact .inr rfl
      · exact .inl hbeat
    have hstart : min 0 (run.start position) = 0 := by
      unfold GraceRun.start
      rcases hbeat with hbeat | hnone
      · rw [if_pos hbeat, min_eq_left hposition]
      · rw [hnone, sub_zero, ite_self, min_eq_left hposition]
    rw [hstart] at hsteady
    have heven := hclock.evenOn hsteady
    exact ⟨hclock.sum_playNote _ note pitch position graces hposition heven hbeat,
      hclock.tiles_playNote _ note pitch position graces hposition heven hbeat⟩

def trilledHalf : Note :=
  { Note.plain (some ⟨.e, 0, 5⟩) 16 with ornaments := [.trill] }

def beforeTrilledHalf : List (MeasureElement ℚ) :=
  [.direction ⟨[], some 60⟩,
    .note (.plain (some ⟨.c, 0, 5⟩) 8),
    .note { Note.plain (some ⟨.d, 0, 5⟩) 0 with grace := some .slashed }]

def gracedTrill : Part ℚ :=
  ⟨"P1", [⟨"1", ⟨some 8, none, none⟩, beforeTrilledHalf ++ [.note trilledHalf]⟩]⟩

def gracedTrillWalk : MeasureWalk ℚ :=
  MeasureWalk.after
    ⟨(gracedTrill.walkerAt ⟨[⟨0, 60⟩], []⟩ 0).enter ⟨some 8, none, none⟩, Place.start, []⟩
    beforeTrilledHalf

theorem place_keeps_time_gracedTrill :
    ∃ pushed,
      (gracedTrillWalk.walker.place trilledHalf ⟨.e, 0, 5⟩ 8 gracedTrillWalk.graces).value.notes =
          gracedTrillWalk.walker.notes ++ pushed ∧
        (pushed.filter fun played => !played.ornamental).length = 1 ∧
        (pushed.map (·.duration)).sum = 2 := by
  have hpart : gracedTrill.WellFormed := by decide
  have hmap : TempoMap.WellFormed ⟨[⟨0, 60⟩], []⟩ :=
    ⟨List.pairwise_singleton _ _, by simp, by simp⟩
  have hreached : gracedTrill.Reaches ⟨[⟨0, 60⟩], []⟩ gracedTrillWalk :=
    ⟨0, _, _, _, rfl, rfl, rfl⟩
  have hsegments : gracedTrillWalk.walker.clock.segments = [⟨0, 60⟩] := by decide +kernel
  have hbegins : (gracedTrillWalk.walker.ties.action trilledHalf.tie
      (TieKey.ofNote trilledHalf ⟨.e, 0, 5⟩)).begins = true := rfl
  have hposition : (0 : ℚ) ≤ 8 := by norm_num
  obtain ⟨pushed, hnotes, hone, hsteady⟩ := hpart.place_keeps_time hmap hreached hbegins
    hposition gracedTrillWalk.graces
  refine ⟨pushed, hnotes, hone, ?_⟩
  rw [(hsteady rfl).1 ⟨0, 60⟩ hsegments]
  decide +kernel

end Rubato
