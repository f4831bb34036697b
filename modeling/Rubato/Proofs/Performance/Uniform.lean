import Rubato.Proofs.Performance.Conservation
import Rubato.Proofs.Performance.Parts
import Rubato.Proofs.Performance.Scored
import Rubato.Proofs.Tempo.Uniform

namespace Rubato

namespace Part

variable {part : Part ℚ} {bpm : ℚ}

theorem startAt_succ (number : Nat) :
    part.startAt bpm (number + 1) =
      part.startAt bpm number + part.secondsAt bpm number (part.meterAt number).span :=
  Finset.sum_range_succ _ number

theorem secondsAt_eq (bar : Nat) (count : ℚ) :
    part.secondsAt bpm bar count = count / (part.meterAt bar).divisions * (60 / bpm) := by
  unfold secondsAt
  rw [mul_comm bpm, mul_div_mul_comm]

theorem startAt_eq (number : Nat) :
    part.startAt bpm number = part.quartersBefore number * (60 / bpm) := by
  unfold startAt quartersBefore
  rw [Finset.sum_mul]
  exact Finset.sum_congr rfl fun earlier _ => part.secondsAt_eq earlier _

theorem before_score_iff (hbpm : 0 < bpm) (bar : Nat) (offset : ℚ) :
    part.startAt bpm bar + part.secondsAt bpm bar offset < 0 ↔
      part.quartersBefore bar + offset / (part.meterAt bar).divisions < 0 := by
  have hrate : 0 < 60 / bpm := div_pos (by norm_num) hbpm
  rw [startAt_eq, secondsAt_eq, ← add_mul]
  constructor
  · exact fun h => neg_of_mul_neg_left h hrate.le
  · exact fun h => mul_neg_of_neg_of_pos h hrate

end Part

theorem ScoredNote.played_extend (part : Part ℚ) (bpm : ℚ) (tied : TiedNote)
    (scored : ScoredNote) :
    (scored.extend tied).played part bpm =
      (scored.played part bpm).lengthen (part.secondsAt bpm tied.bar tied.duration) := by
  unfold played extend PlayedNote.lengthen
  simp [add_assoc]

structure Clock.Counts (clock : Clock ℚ) (part : Part ℚ) (bpm : ℚ) (bar : Nat) : Prop where
  wellFormed : clock.WellFormed
  map : clock.map.OneTempo bpm
  segments : ∀ segment ∈ clock.segments, segment.bpm = bpm
  divisions : clock.divisions = (part.meterAt bar).divisions
  startTime : clock.startTime = part.startAt bpm bar

namespace Clock.Counts

variable {clock : Clock ℚ} {part : Part ℚ} {bpm : ℚ} {bar : Nat}

theorem evenOn (h : clock.Counts part bpm bar) (hbpm : 0 < bpm) (first last : ℚ) :
    clock.EvenOn first last := by
  have hdivisions : (0 : ℚ) < clock.divisions := Nat.cast_pos.mpr h.wellFormed.divisions_pos
  intro segment hsegment start count _ hcount _
  rw [h.segments segment hsegment, h.map.seconds_eq _ hbpm hcount hdivisions,
    TempoSegment.rate, h.segments segment hsegment, mul_div_assoc]

theorem spanSeconds_eq (h : clock.Counts part bpm bar) (hbpm : 0 < bpm) (offset : ℚ)
    {length : ℚ} (hlength : 0 ≤ length) :
    clock.spanSeconds offset length = part.secondsAt bpm bar length := by
  rw [(h.evenOn hbpm offset (offset + length)).spanSeconds_of_one_tempo h.wellFormed.segments
    h.segments le_rfl hlength le_rfl, h.divisions, Part.secondsAt, mul_div_assoc]

theorem timeAt_eq (h : clock.Counts part bpm bar) (hbpm : 0 < bpm) (offset : ℚ) :
    clock.timeAt offset = part.startAt bpm bar + part.secondsAt bpm bar offset := by
  rw [(h.evenOn hbpm (min 0 offset) (max 0 offset)).timeAt_of_one_tempo h.wellFormed.segments
    h.segments le_rfl le_rfl, h.startTime, h.divisions, Part.secondsAt, mul_div_assoc]

theorem graceRun_eq (h : clock.Counts part bpm bar) (hbpm : 0 < bpm) (note : Note)
    (position : ℚ) (graces : List GraceNote) :
    clock.graceRun note position graces = part.runBefore bar note position graces := by
  have hunit : clock.ornamentUnit = ((part.meterAt bar).divisions : ℚ) / 8 := by
    unfold Clock.ornamentUnit
    rw [h.divisions]
    rfl
  unfold Clock.graceRun Part.runBefore
  rw [hunit]
  simp only [h.timeAt_eq hbpm, Part.before_score_iff hbpm, Bool.and_eq_true, Bool.not_eq_true',
    List.isEmpty_eq_false_iff, decide_eq_true_eq, and_assoc]

theorem playLaid_eq (h : clock.Counts part bpm bar) (hbpm : 0 < bpm) {laid : LaidNote}
    (hlength : 0 ≤ laid.length) :
    clock.playLaid laid = ScoredNote.played part bpm ⟨bar, laid, []⟩ := by
  unfold Clock.playLaid Clock.play ScoredNote.played
  simp [h.timeAt_eq hbpm, h.spanSeconds_eq hbpm laid.offset hlength]

theorem playNote_eq (h : clock.Counts part bpm bar) (hbpm : 0 < bpm) (fifths : Int)
    (note : Note) (pitch : Pitch) (position : ℚ) (graces : List GraceNote) :
    clock.playNote fifths note pitch position graces =
      ((note.layOut (part.meterAt bar).divisions fifths pitch position
        (part.runBefore bar note position graces)).map fun laid => ⟨bar, laid, []⟩).map
          (ScoredNote.played part bpm) := by
  rw [Clock.playNote_eq, ← h.graceRun_eq hbpm, ← h.divisions, List.map_map]
  apply List.map_congr_left
  intro laid hlaid
  have hwithin := (clock.fills_graceRun note position graces).within_layOut clock.divisions
    fifths pitch position laid hlaid
  exact h.playLaid_eq hbpm hwithin.2.1

theorem setAll (h : clock.Counts part bpm bar) (hbpm : 0 < bpm) {tempos : TempoSegments ℚ}
    (htempos : ∀ tempo ∈ tempos, 0 ≤ tempo.offset ∧ tempo.bpm = bpm) :
    Counts { clock with segments := clock.segments.setAll tempos } part bpm bar := by
  refine ⟨⟨h.wellFormed.map, h.wellFormed.startTime_nonneg, h.wellFormed.divisions_pos, ?_⟩,
    h.map, ?_, h.divisions, h.startTime⟩
  · apply h.wellFormed.segments.setAll
    intro tempo htempo
    obtain ⟨hoffset, hstated⟩ := htempos tempo htempo
    exact ⟨hoffset, hstated ▸ hbpm⟩
  · exact TempoSegments.bpm_of_setAll h.segments fun tempo htempo => (htempos tempo htempo).2

end Clock.Counts

structure Walker.Follows (walker : Walker ℚ) (part : Part ℚ) (bpm : ℚ) (layout : Layout) :
    Prop where
  ties : walker.ties = layout.ties
  notes : walker.notes = layout.notes.map (ScoredNote.played part bpm)

namespace Walker.Follows

variable {walker : Walker ℚ} {part : Part ℚ} {bpm : ℚ} {bar : Nat} {layout : Layout}

theorem begin (h : walker.Follows part bpm layout) (hclock : walker.clock.Counts part bpm bar)
    (hbpm : 0 < bpm) (hmeter : walker.meter = part.meterAt bar) (pitched : PitchedNote)
    (position : ℚ) (graces : List GraceNote) :
    (walker.begin pitched.note pitched.pitch pitched.key position graces).Follows part bpm
      (layout.begin part bar pitched position graces) := by
  have hnotes : (walker.begin pitched.note pitched.pitch pitched.key position graces).notes =
      (layout.begin part bar pitched position graces).notes.map
        (ScoredNote.played part bpm) := by
    rw [Walker.notes_begin, Layout.begin, List.map_append, h.notes, hmeter,
      hclock.playNote_eq hbpm]
  -- An opened tie points to the last note, of equally many.
  have hlength := congrArg List.length hnotes
  rw [List.length_map] at hlength
  refine ⟨?_, hnotes⟩
  rw [Walker.ties_begin, h.ties, hlength]
  rfl

theorem extend (h : walker.Follows part bpm layout) (hclock : walker.clock.Counts part bpm bar)
    (hbpm : 0 < bpm) (pitched : PitchedNote) (position : ℚ) (index : Nat) :
    (walker.extend pitched.note pitched.key position index).Follows part bpm
      (layout.extend bar pitched index) := by
  have hseconds := hclock.spanSeconds_eq hbpm position (Nat.cast_nonneg pitched.note.duration)
  refine ⟨?_, ?_⟩
  · rw [Walker.ties_extend, h.ties]
    rfl
  · rw [Walker.notes_extend, Layout.extend, h.notes, hseconds]
    symm
    apply map_modify
    exact ScoredNote.played_extend part bpm ⟨bar, pitched.note.duration⟩

theorem place (h : walker.Follows part bpm layout) (hclock : walker.clock.Counts part bpm bar)
    (hbpm : 0 < bpm) (hmeter : walker.meter = part.meterAt bar) (pitched : PitchedNote)
    (position : ℚ) (graces : List GraceNote) :
    (walker.place pitched.note pitched.pitch position graces).value.Follows part bpm
      (layout.place part bar pitched position graces) := by
  have hkey : TieKey.ofNote pitched.note pitched.pitch = pitched.key := rfl
  rw [Walker.value_place, hkey, h.ties]
  unfold Layout.place
  cases layout.ties.action pitched.note.tie pitched.key with
  | begin => exact h.begin hclock hbpm hmeter pitched position graces
  | restart => exact h.begin hclock hbpm hmeter pitched position graces
  | extend index => exact h.extend hclock hbpm pitched position index
  | drop => exact h

end Walker.Follows

structure MeasureWalk.Follows (walk : MeasureWalk ℚ) (part : Part ℚ) (bpm : ℚ) (bar : Nat)
    (laid : LayoutWalk) : Prop where
  clock : walk.walker.clock.Counts part bpm bar
  meter : walk.walker.meter = part.meterAt bar
  walker : walk.walker.Follows part bpm laid.layout
  place : walk.place = laid.place
  nonneg : walk.place.Nonneg
  graces : walk.graces = laid.graces

namespace MeasureWalk.Follows

variable {walk : MeasureWalk ℚ} {part : Part ℚ} {bpm : ℚ} {bar : Nat} {laid : LayoutWalk}

theorem walker_step (h : walk.Follows part bpm bar laid) (hbpm : 0 < bpm)
    (element : MeasureElement ℚ) :
    (walk.step element).value.walker.Follows part bpm (laid.step part bar element).layout := by
  unfold LayoutWalk.step
  rw [← h.place, ← h.graces]
  cases hpitched : element.pitched? with
  | some pitched =>
      rw [walker_of_pitched hpitched]
      exact h.walker.place h.clock hbpm h.meter pitched _ _
  | none =>
      obtain ⟨hties, hnotes⟩ := walk.walker_of_unpitched hpitched
      exact ⟨hties.trans h.walker.ties, hnotes.trans h.walker.notes⟩

theorem step (h : walk.Follows part bpm bar laid) (hbpm : 0 < bpm)
    {element : MeasureElement ℚ} (helement : ∀ stated ∈ element.tempo?, stated = bpm) :
    (walk.step element).value.Follows part bpm bar (laid.step part bar element) := by
  refine ⟨?_, ?_, h.walker_step hbpm element, ?_, ?_, ?_⟩
  · rw [MeasureWalk.clock_step]
    apply h.clock.setAll hbpm
    intro tempo htempo
    obtain ⟨stated, hstated, rfl⟩ := Option.map_eq_some_iff.mp (Option.mem_toList.mp htempo)
    exact ⟨h.nonneg.cursor, helement stated hstated⟩
  · rw [MeasureWalk.meter_step]
    exact h.meter
  · exact congrArg (·.after element) h.place
  · exact h.nonneg.after element
  · exact congrArg (MeasureWalk.gracesAfter · element) h.graces

theorem after (elements : List (MeasureElement ℚ)) {walk : MeasureWalk ℚ} {laid : LayoutWalk}
    (h : walk.Follows part bpm bar laid) (hbpm : 0 < bpm)
    (helements : ∀ element ∈ elements, ∀ stated ∈ element.tempo?, stated = bpm) :
    (walk.after elements).Follows part bpm bar
      (elements.foldl (LayoutWalk.step part bar) laid) := by
  induction elements generalizing walk laid with
  | nil => exact h
  | cons element rest ih =>
      exact ih (h.step hbpm (helements element List.mem_cons_self))
        fun other hother => helements other (List.mem_cons_of_mem element hother)

end MeasureWalk.Follows

/-- A part that states one tempo only, by a map that has no other one. -/
structure Part.InOneTempo (part : Part ℚ) (map : TempoMap ℚ) (bpm : ℚ) : Prop where
  bpm_pos : 0 < bpm
  wellFormed : part.WellFormed
  map_wellFormed : map.WellFormed
  map : map.OneTempo bpm
  tempos : ∀ measure ∈ part.measures, ∀ element ∈ measure.elements,
    ∀ stated ∈ element.tempo?, stated = bpm

namespace Part.InOneTempo

variable {part : Part ℚ} {map : TempoMap ℚ} {bpm : ℚ} {number : Nat} {measure : Measure ℚ}

theorem counts_enter (h : part.InOneTempo map bpm)
    (hmeasure : part.measures[number]? = some measure)
    (hstart : (part.walkerAt map number).clock.startTime = part.startAt bpm number) :
    ((part.walkerAt map number).enter measure.attributes).clock.Counts part bpm number := by
  have hentered := (h.wellFormed.grounded_walkerAt h.map_wellFormed number).enter
    (h.wellFormed measure (List.mem_of_getElem? hmeasure)).attributes_wellFormed
  have hposition : 0 ≤ (part.walkerAt map number).clock.startPosition := by
    rw [startPosition_walkerAt,
      position_scanAt (List.getElem?_eq_some_iff.mp hmeasure).1.le]
    exact barStart_nonneg h.wellFormed number
  refine ⟨hentered.clock, ?_, ?_, ?_, hstart⟩
  · show (part.walkerAt map number).clock.map.OneTempo bpm
    rw [map_walkerAt]
    exact h.map
  · show ∀ segment ∈ (part.walkerAt map number).clock.seededSegments _, segment.bpm = bpm
    apply Clock.bpm_of_seededSegments
    · rw [map_walkerAt]
      exact h.map.tempoAt_eq hposition
    · rw [map_walkerAt]
      exact h.map.events
  · show ((part.walkerAt map number).meter.update measure.attributes).divisions = _
    rw [meter_walkerAt, ← meterAt_eq hmeasure]

theorem walk_through (h : part.InOneTempo map bpm)
    (hmeasure : part.measures[number]? = some measure)
    (hstart : (part.walkerAt map number).clock.startTime = part.startAt bpm number)
    (hlayout : (part.walkerAt map number).Follows part bpm (part.layoutBefore number)) :
    ((part.walkerAt map number).through measure).clock.Counts part bpm number ∧
      ((part.walkerAt map number).through measure).Follows part bpm
        (part.layoutBefore (number + 1)) := by
  have hentered : MeasureWalk.Follows
      ⟨(part.walkerAt map number).enter measure.attributes, Place.start, []⟩ part bpm number
      ⟨part.layoutBefore number, Place.start, []⟩ := by
    refine ⟨h.counts_enter hmeasure hstart, ?_, ⟨hlayout.ties, hlayout.notes⟩, rfl,
      Place.nonneg_start, rfl⟩
    show (part.walkerAt map number).meter.update measure.attributes = _
    rw [meter_walkerAt, ← meterAt_eq hmeasure]
  have hwalked := MeasureWalk.Follows.after measure.elements hentered h.bpm_pos
    (h.tempos measure (List.mem_of_getElem? hmeasure))
  unfold Walker.through
  rw [Walker.value_elements, layoutBefore_succ hmeasure]
  exact ⟨hwalked.clock, hwalked.walker⟩

theorem follows_walkerAt (h : part.InOneTempo map bpm)
    (hnumber : number ≤ part.measures.length) :
    (part.walkerAt map number).clock.startTime = part.startAt bpm number ∧
      (part.walkerAt map number).Follows part bpm (part.layoutBefore number) := by
  -- Whether a grace run is moved onto the beat depends on the start of its measure, so the
  -- two facts are carried along together.
  induction number with
  | zero => exact ⟨rfl, rfl, rfl⟩
  | succ number ih =>
      have hmeasure := List.getElem?_eq_getElem (Nat.lt_of_succ_le hnumber)
      obtain ⟨hstart, hlayout⟩ := ih (Nat.le_of_succ_le hnumber)
      obtain ⟨hclock, hfollows⟩ := h.walk_through hmeasure hstart hlayout
      have hspan := (h.wellFormed.meterAt number).span_pos.le
      constructor
      · rw [startTime_succ hmeasure, startAt_succ, hstart,
          hclock.spanSeconds_eq h.bpm_pos 0 hspan]
      · rw [walkerAt_succ hmeasure]
        exact ⟨hfollows.ties, hfollows.notes⟩

theorem played_eq (h : part.InOneTempo map bpm) :
    (part.played map).value = part.layout.map (ScoredNote.played part bpm) := by
  rw [value_played]
  exact (h.follows_walkerAt le_rfl).2.notes

end Part.InOneTempo

namespace Score

variable {score : Score ℚ} {first : Part ℚ}

theorem tempoMap_forced (hfirst : score.parts.head? = some first) (bpm : ℚ) :
    (score.forced bpm).tempoMap 0 = TempoMap.ofPart (first.forced bpm) := by
  unfold tempoMap Score.forced
  rw [List.getElem?_map, ← List.head?_eq_getElem?, hfirst]
  rfl

/-- A forced tempo is the only one, if the first part has a measure to state it in and leaves
no ramp open. The map has it in its events, at both ends of its ramps and at every place of
the score. In every part, by whatever divisions, a measure starts after the time of the
measures before it, and every note lies where the written part lays it out and lasts as long
as that and the notes tied to it. -/
theorem forced_plays_one_tempo (hscore : score.IsRead)
    (hfirst : score.parts.head? = some first) (hmeasures : first.measures ≠ [])
    (hclosed : (first.scanAt first.measures.length).opened = none) {bpm : ℚ}
    (hbpm : 0 < bpm) :
    let map := ((score.forced bpm).tempoMap 0).value
    (∀ event ∈ map.events, event.bpm = bpm) ∧
      (∀ ramp ∈ map.ramps, ramp.startTempo = bpm ∧ ramp.endTempo = bpm) ∧
      (∀ position, 0 ≤ position → map.tempoAt position = bpm) ∧
      ∀ part ∈ score.parts,
        (∀ number ≤ part.measures.length,
          ((part.forced bpm).walkerAt map number).clock.startTime = part.startAt bpm number) ∧
        ((part.forced bpm).played map).value =
          part.layout.map (ScoredNote.played part bpm) := by
  intro map
  have hforced := hscore.wellFormed.forced hbpm
  have hmap : map.OneTempo bpm := by
    show ((score.forced bpm).tempoMap 0).value.OneTempo bpm
    rw [tempoMap_forced hfirst]
    exact Part.oneTempo_forced hmeasures hclosed bpm
  refine ⟨hmap.events, hmap.ramps, fun position => hmap.tempoAt_eq, fun part hpart => ?_⟩
  have htempos : ∀ measure ∈ (part.forced bpm).measures, ∀ element ∈ measure.elements,
      ∀ stated ∈ element.tempo?, stated = bpm := by
    intro measure hmeasure
    obtain ⟨_, _, _, hstated⟩ := Part.mem_measures_forced hmeasure
    exact hstated
  have hone : (part.forced bpm).InOneTempo map bpm :=
    ⟨hbpm, hforced _ (List.mem_map_of_mem hpart), hforced.tempoMap 0, hmap, htempos⟩
  have hmusic := part.sameMusic_forced bpm
  constructor
  · intro number hnumber
    rw [← hmusic.length_eq] at hnumber
    rw [(hone.follows_walkerAt hnumber).1, Part.startAt_congr hmusic.meterAt_eq]
  · rw [hone.played_eq, hmusic.layout_eq, ScoredNote.played_congr hmusic.meterAt_eq]

end Score

/-- A ramp in the first part, and a note of the second one that begins with a grace note and
is tied over the bar line, where the divisions change. -/
def tiedUnderRamp : Score ℚ where
  parts := [
    ⟨"P1", [
      { number := "1"
        attributes := .none
        elements := [
          .direction ⟨["rit."], none⟩, .forward 3, .direction ⟨[], some 60⟩] }]⟩,
    ⟨"P2", [
      { number := "1"
        attributes := ⟨some 2, none, none⟩
        elements := [
          .note { Note.plain (some ⟨.d, 0, 5⟩) 0 with grace := some .slashed },
          .note { Note.plain (some ⟨.c, 0, 5⟩) 8 with tie := ⟨true, false⟩ }] },
      { number := "2"
        attributes := ⟨some 4, none, none⟩
        elements := [
          .note { Note.plain (some ⟨.c, 0, 5⟩) 4 with tie := ⟨false, true⟩ }] }]⟩]

section Text

open Markup (tagged)

private def partText (id : String) (measures : List (List Char)) : List Char :=
  tagged "part" [" id=", "\"", id, "\""] measures

private def divisionsText (divisions : Char) : List Char :=
  tagged "attributes" [] [tagged "divisions" [] [[divisions]]]

private def soundingText (letter : Char) (content : List (List Char)) : List Char :=
  tagged "note" [] (tagged "pitch" [] [
    tagged "step" [] [[letter]], tagged "octave" [] [['5']]] :: content)

private def tiedUnderRampText : List Char :=
  tagged "score-partwise" [] [
    partText "P1" [
      tagged "measure" [" number=", "\"1\""] [
        tagged "direction" [] [tagged "direction-type" [] [tagged "words" [] ["rit.".toList]]],
        tagged "forward" [] [tagged "duration" [] [['3']]],
        tagged "sound" [" tempo=", "\"60\""] []]],
    partText "P2" [
      tagged "measure" [" number=", "\"1\""] [
        divisionsText '2',
        soundingText 'D' [tagged "grace" [" slash=", "\"yes\""] []],
        soundingText 'C' [
          tagged "duration" [] [['8']], tagged "tie" [" type=", "\"start\""] []]],
      tagged "measure" [" number=", "\"2\""] [
        divisionsText '4',
        soundingText 'C' [
          tagged "duration" [] [['4']], tagged "tie" [" type=", "\"stop\""] []]]]]

end Text

theorem forced_plays_one_tempo_tiedUnderRamp :
    tiedUnderRamp.IsRead ∧
      ∃ first second, tiedUnderRamp.parts = [first, second] ∧ first.measures ≠ [] ∧
        (first.scanAt first.measures.length).opened = none ∧
        ((tiedUnderRamp.forced 90).tempoMap 0).value.tempoAt 2 = 90 ∧
        (((second.forced 90).walkerAt ((tiedUnderRamp.forced 90).tempoMap 0).value
          1).clock.startTime = 8 / 3) ∧
        (((second.forced 90).played ((tiedUnderRamp.forced 90).tempoMap 0).value).value.map
          fun played => (played.name, played.time, played.duration)) =
            [("D5", 0, 1 / 12), ("C5", 1 / 12, 13 / 4)] := by
  have hread : tiedUnderRamp.IsRead :=
    Score.isRead_of_characters tiedUnderRampText (by decide +kernel)
  have hbpm : (0 : ℚ) < 90 := by norm_num
  obtain ⟨_, _, htempo, hparts⟩ :=
    Score.forced_plays_one_tempo hread rfl (List.cons_ne_nil _ _) (by decide) hbpm
  obtain ⟨hstart, hplayed⟩ := hparts _ (List.mem_cons_of_mem _ List.mem_cons_self)
  refine ⟨hread, _, _, rfl, List.cons_ne_nil _ _, by decide, htempo 2 (by norm_num), ?_, ?_⟩
  · rw [hstart 1 (by decide)]
    decide +kernel
  · rw [hplayed]
    decide +kernel

end Rubato
