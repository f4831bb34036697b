import Rubato.Proofs.Performance.Music
import Rubato.Proofs.Tempo.Restated

namespace Rubato

/-! The walk asks the map for times and for the tempos inside a measure, which it answers
alike with a tempo stated twice and without the double. -/

structure Clock.Restates (first second : Clock ℚ) : Prop where
  map : first.map.Restates second.map
  startTime : first.startTime = second.startTime
  startPosition : first.startPosition = second.startPosition
  divisions : first.divisions = second.divisions
  segments : first.segments = second.segments

structure Walker.Restates (first second : Walker ℚ) : Prop where
  clock : first.clock.Restates second.clock
  meter : first.meter = second.meter
  ties : first.ties = second.ties
  notes : first.notes = second.notes

structure MeasureWalk.Restates (first second : MeasureWalk ℚ) : Prop where
  walker : first.walker.Restates second.walker
  place : first.place = second.place
  graces : first.graces = second.graces

namespace Clock.Restates

variable {first second : Clock ℚ} (h : first.Restates second)

include h

theorem spanSeconds_eq (offset length : ℚ) :
    first.spanSeconds offset length = second.spanSeconds offset length := by
  have hpiece : first.pieceSeconds offset length (offset + length) =
      second.pieceSeconds offset length (offset + length) := by
    funext piece
    unfold pieceSeconds
    simp only [h.startPosition, h.divisions, h.map.seconds_eq]
  unfold spanSeconds
  dsimp only
  rw [h.segments, hpiece]

theorem timeAt_eq (offset : ℚ) : first.timeAt offset = second.timeAt offset := by
  unfold timeAt
  rw [h.startTime, h.spanSeconds_eq, h.spanSeconds_eq]

theorem play_eq : first.play = second.play := by
  funext offset length pitch name staff ornamental
  unfold play
  rw [h.timeAt_eq, h.spanSeconds_eq]

theorem playNote_eq (fifths : Int) (note : Note) (pitch : Pitch) (position : ℚ)
    (graces : List GraceNote) :
    first.playNote fifths note pitch position graces =
      second.playNote fifths note pitch position graces := by
  unfold playNote playGraces playMain figure graceRun
  simp only [h.play_eq, h.timeAt_eq, ornamentUnit_eq h.divisions]

theorem seededSegments_eq (span : ℚ) :
    first.seededSegments span = second.seededSegments span := by
  unfold seededSegments changesInside
  rw [h.startPosition, h.map.tempoAt_eq]
  exact (h.map.events.filter _).foldl_eq (fun _ _ => TempoSegments.set_set _ _ _) _

end Clock.Restates

namespace Walker.Restates

variable {first second : Walker ℚ} (h : first.Restates second)

theorem initial {map other : TempoMap ℚ} (h : map.Restates other) :
    (Walker.initial map).Restates (Walker.initial other) :=
  ⟨⟨h, rfl, rfl, rfl, rfl⟩, rfl, rfl, rfl⟩

include h

theorem begin (note : Note) (pitch : Pitch) (key : TieKey) (position : ℚ)
    (graces : List GraceNote) :
    (first.begin note pitch key position graces).Restates
      (second.begin note pitch key position graces) := by
  unfold Walker.begin
  rw [h.notes, h.meter, h.ties, h.clock.playNote_eq]
  exact ⟨h.clock, rfl, rfl, rfl⟩

theorem extend (note : Note) (key : TieKey) (position : ℚ) (index : Nat) :
    (first.extend note key position index).Restates
      (second.extend note key position index) := by
  unfold Walker.extend
  rw [h.notes, h.ties, h.clock.spanSeconds_eq]
  exact ⟨h.clock, h.meter, rfl, rfl⟩

theorem place (note : Note) (pitch : Pitch) (position : ℚ) (graces : List GraceNote) :
    Noted.Alike Restates (first.place note pitch position graces)
      (second.place note pitch position graces) := by
  unfold Walker.place
  rw [h.ties]
  dsimp only
  split
  · exact .pure (h.begin note pitch _ position graces)
  · exact ⟨h.begin note pitch _ position graces, rfl⟩
  · exact .pure (h.extend note _ position _)
  · exact ⟨h, rfl⟩

theorem direction (cursor : ℚ) (mark : Direction ℚ) :
    (MeasureWalk.direction first cursor mark).Restates
      (MeasureWalk.direction second cursor mark) := by
  unfold MeasureWalk.direction
  cases mark.tempo with
  | none => exact h
  | some bpm =>
      have hclock := h.clock
      exact ⟨⟨hclock.map, hclock.startTime, hclock.startPosition, hclock.divisions,
        congrArg (TempoSegments.set cursor bpm) hclock.segments⟩, h.meter, h.ties, h.notes⟩

theorem enter (attributes : Attributes) :
    (first.enter attributes).Restates (second.enter attributes) := by
  unfold Walker.enter
  rw [h.meter]
  have hclock := h.clock
  exact ⟨⟨hclock.map, hclock.startTime, hclock.startPosition, rfl,
    hclock.seededSegments_eq _⟩, rfl, h.ties, h.notes⟩

theorem leave : first.leave.Restates second.leave := by
  have hclock := h.clock
  unfold Walker.leave
  rw [h.meter]
  refine ⟨⟨hclock.map, ?_, ?_, hclock.divisions, hclock.segments⟩, rfl, h.ties, h.notes⟩
  · show first.clock.startTime + _ = second.clock.startTime + _
    rw [hclock.startTime, hclock.spanSeconds_eq]
  · exact congrArg (· + _) hclock.startPosition

end Walker.Restates

theorem MeasureWalk.Restates.step {first second : MeasureWalk ℚ} (h : first.Restates second)
    (element : MeasureElement ℚ) :
    Noted.Alike Restates (first.step element) (second.step element) := by
  have hwalker : Noted.Alike Walker.Restates (first.walkerAfter element)
      (second.walkerAfter element) := by
    cases element with
    | note note =>
        unfold walkerAfter
        rw [h.place, h.graces]
        dsimp only
        split
        · exact .pure h.walker
        · split
          · exact h.walker.place note _ _ _
          · exact .pure h.walker
    | direction mark =>
        unfold walkerAfter
        rw [h.place]
        exact .pure (h.walker.direction _ mark)
    | harmony harmony => exact .pure h.walker
    | backup duration => exact .pure h.walker
    | forward duration => exact .pure h.walker
  unfold MeasureWalk.step
  rw [h.place, h.graces]
  exact hwalker.bind fun _ _ hnext => .pure ⟨hnext, rfl, rfl⟩

theorem Walker.Restates.measure {first second : Walker ℚ} (h : first.Restates second)
    (measure : Measure ℚ) :
    Noted.Alike Restates (first.measure measure) (second.measure measure) := by
  have hstart : MeasureWalk.Restates ⟨first.enter measure.attributes, Place.start, []⟩
      ⟨second.enter measure.attributes, Place.start, []⟩ := ⟨h.enter _, rfl, rfl⟩
  have helements : Noted.Alike Restates
      ((first.enter measure.attributes).elements measure.elements)
      ((second.enter measure.attributes).elements measure.elements) :=
    (Noted.Alike.foldList (fun _ _ element hwalk => hwalk.step element) measure.elements
      hstart).bind fun _ _ hwalked => .pure hwalked.walker
  refine helements.bind fun walked other hwalked => ⟨hwalked.leave, ?_⟩
  show [Remark.measureWalked measure.number walked.clock.startTime walked.meter.span
      walked.clock.segments.length] = [Remark.measureWalked measure.number
        other.clock.startTime other.meter.span other.clock.segments.length]
  rw [hwalked.clock.startTime, hwalked.clock.segments, hwalked.meter]

theorem TempoMap.Restates.played_eq {map other : TempoMap ℚ} (h : map.Restates other)
    (part : Part ℚ) : part.played map = part.played other := by
  have hwalked := Noted.Alike.foldList (fun _ _ measure hwalker => hwalker.measure measure)
    part.measures (Walker.Restates.initial h)
  refine (hwalked.bind fun walker another hend => ?_).eq
  unfold Walker.finish
  rw [hend.ties, hend.notes]
  exact ⟨rfl, rfl⟩

theorem MeasureWalk.step_direction_again (walk : MeasureWalk ℚ) (mark : Direction ℚ) :
    (walk.step (.direction mark) >>= fun next => next.step (.direction mark)) =
      walk.step (.direction mark) := by
  have hagain : direction (direction walk.walker walk.place.cursor mark) walk.place.cursor mark =
      direction walk.walker walk.place.cursor mark := by
    unfold direction
    cases mark.tempo with
    | none => rfl
    | some bpm =>
        simp only [Clock.setTempo, TempoSegments.set_set]
  exact congrArg (fun walker => (⟨⟨walker, walk.place, []⟩, []⟩ : Noted ℚ (MeasureWalk ℚ))) hagain

theorem Walker.measure_restated (walker : Walker ℚ) (measure : Measure ℚ)
    (mark : Direction ℚ) :
    walker.measure ((measure.addFront (.direction mark)).addFront (.direction mark)) =
      walker.measure (measure.addFront (.direction mark)) := by
  let start : MeasureWalk ℚ := ⟨walker.enter measure.attributes, Place.start, []⟩
  have hwalk : Noted.foldList MeasureWalk.step start
        (.direction mark :: .direction mark :: measure.elements) =
      Noted.foldList MeasureWalk.step start (.direction mark :: measure.elements) := by
    calc Noted.foldList MeasureWalk.step start
          (.direction mark :: .direction mark :: measure.elements)
      _ = (start.step (.direction mark) >>= fun next => next.step (.direction mark)) >>=
            fun next => Noted.foldList MeasureWalk.step next measure.elements :=
          (bind_assoc _ _ _).symm
      _ = Noted.foldList MeasureWalk.step start (.direction mark :: measure.elements) := by
          rw [start.step_direction_again]
          rfl
  unfold Walker.measure Walker.elements
  exact congrArg (fun walked : Noted ℚ (MeasureWalk ℚ) =>
    (walked >>= fun walk => pure walk.walker) >>= _) hwalk

theorem Part.played_restated (part : Part ℚ) (bpm : ℚ) (map : TempoMap ℚ) :
    ((part.stating bpm).stating bpm).played map = (part.stating bpm).played map := by
  unfold Part.stating Part.played
  cases part.measures with
  | nil => rfl
  | cons first rest =>
      have hfirst := (Walker.initial map).measure_restated first ⟨[], some bpm⟩
      exact congrArg (fun walked : Noted ℚ (Walker ℚ) =>
        (walked >>= fun walker => Noted.foldList Walker.measure walker rest) >>= fun walker =>
          walker.finish part.id) hfirst

namespace Score

def stating (tempo : ℚ) (score : Score ℚ) : Score ℚ :=
  { score with parts := score.parts.map (Part.stating tempo) }

theorem forced_forced (first second : ℚ) (score : Score ℚ) :
    (score.forced first).forced second = (score.forced second).stating second := by
  unfold forced stating
  dsimp only
  rw [List.map_map, List.map_map]
  congr 1
  exact List.map_congr_left fun part _ => part.forced_forced first second

variable (score : Score ℚ) (bpm : ℚ)

theorem restates_tempoMap (number : Nat) :
    Noted.Alike TempoMap.Restates (((score.stating bpm).stating bpm).tempoMap number)
      ((score.stating bpm).tempoMap number) := by
  unfold tempoMap stating
  dsimp only
  rw [List.getElem?_map, List.getElem?_map]
  cases score.parts[number]? with
  | none => exact .pure ⟨.same [], rfl⟩
  | some part => exact TempoMap.restates_stating part bpm

theorem playedParts_restated (number : Nat) :
    ((score.stating bpm).stating bpm).playedParts number =
      (score.stating bpm).playedParts number := by
  refine ((score.restates_tempoMap bpm number).bind fun map other hmaps => ?_).eq
  have hparts : Noted.mapList (fun part => part.played map)
        ((score.stating bpm).stating bpm).parts =
      Noted.mapList (fun part => part.played other) (score.stating bpm).parts := by
    unfold stating
    dsimp only
    induction score.parts with
    | nil => rfl
    | cons part rest ih =>
        rw [List.map_cons, List.map_cons, Noted.mapList, part.played_restated, hmaps.played_eq, ih]
        rfl
  rw [hparts]
  exact ⟨rfl, rfl⟩

end Score

/-- Of tempos that are forced on a score one after the other, the last one decides: the
timeline is that of the last one alone, and so are the remarks on the way to it. -/
theorem Score.timeline_forced_forced (score : Score ℚ) (first second : ℚ) (options : Options) :
    ((score.forced first).forced second).timeline options =
      (score.forced second).timeline options := by
  have hforced : score.forced second =
      stating second { score with parts := score.parts.map fun part =>
        { part with measures := part.measures.map (Measure.forced second) } } := by
    unfold forced stating
    rw [List.map_map]
    rfl
  have hparts : ((score.forced first).forced second).playedParts 0 =
      (score.forced second).playedParts 0 := by
    rw [forced_forced, hforced]
    exact playedParts_restated _ second 0
  have hprogression : ((score.forced first).forced second).progression options =
      (score.forced second).progression options := by
    rw [((score.forced first).sameMusic_forced second).progression_eq,
      (score.sameMusic_forced first).progression_eq,
      (score.sameMusic_forced second).progression_eq]
  unfold timeline noteEvents
  rw [hparts, hprogression]

end Rubato
