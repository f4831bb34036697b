import Rubato.Proofs.Performance.Agreement
import Rubato.Proofs.Performance.Conservation
import Rubato.Proofs.Performance.Moments

namespace Rubato

/-! A note is played by the tempos that are set when it is met. These are the tempos of the
whole measure if what is stated later lies behind the note, or if the map has it. -/

namespace TempoSegments

/-- Segments up to an offset: those behind it are left out. -/
def upTo (stop : ℚ) : TempoSegments ℚ → TempoSegments ℚ
  | [] => []
  | head :: rest => head :: rest.filter (·.offset < stop)

theorem set_of_mem {segments : TempoSegments ℚ}
    (hspaced : segments.Pairwise fun first second =>
      first.offset + offsetTolerance ≤ second.offset)
    {tempo : TempoSegment ℚ} (h : tempo ∈ segments) :
    set tempo.offset tempo.bpm segments = segments := by
  induction segments with
  | nil => cases h
  | cons head rest ih =>
      have htolerance := offsetTolerance_pos
      rw [List.pairwise_cons] at hspaced
      rw [set_cons]
      rcases List.mem_cons.mp h with rfl | hrest
      · rw [if_pos (by linarith), sub_self, abs_zero, if_pos htolerance]
      · rw [if_neg (by linarith [hspaced.1 tempo hrest]), ih hspaced.2 hrest]

theorem setAll_of_mem {segments : TempoSegments ℚ} (hsegments : segments.WellFormed)
    {tempos : TempoSegments ℚ} (h : ∀ tempo ∈ tempos, tempo ∈ segments) :
    segments.setAll tempos = segments := by
  induction tempos with
  | nil => rfl
  | cons tempo rest ih =>
      rw [setAll, List.foldl_cons, set_of_mem hsegments.spaced (h tempo List.mem_cons_self)]
      exact ih fun other hother => h other (List.mem_cons_of_mem tempo hother)

theorem Follows.mem_of_records {segments tempos : TempoSegments ℚ} {map : TempoMap ℚ}
    {start span : ℚ} (hfollows : segments.Follows map start span) (hsorted : map.Sorted)
    (hrecords : map.Records start span tempos) (hnodup : (tempos.map (·.offset)).Nodup)
    {tempo : TempoSegment ℚ} (h : tempo ∈ tempos) (hspan : tempo.offset < span) :
    tempo ∈ segments := by
  have hlast : lastAt? TempoSegment.offset tempos tempo.offset = some tempo :=
    lastAt?_of_mem (List.pairwise_map.mp hnodup) h
  obtain ⟨segment, hsegment, hoffset⟩ :
      ∃ segment ∈ segments, segment.offset = tempo.offset := by
    rcases (hrecords.offset_nonneg tempo h).eq_or_lt with hzero | hbehind
    · obtain ⟨first, hfirst, hstart⟩ := hfollows.wellFormed.exists_first
      exact ⟨first, hfirst, hstart.trans hzero⟩
    · obtain ⟨segment, hsegment, hplace⟩ := hfollows.event_mem (tempo.event start)
        (hrecords.mem tempo h) (lt_add_of_pos_right start hbehind)
        (add_lt_add_right hspan start)
      exact ⟨segment, hsegment, add_left_cancel hplace⟩
  have hbpm : segment.bpm = tempo.bpm := by
    rw [hfollows.bpm_eq hsegment (hoffset ▸ hspan), hoffset,
      hsorted.tempoAt_of_lastAt? (hrecords.last tempo hspan hlast)]
    rfl
  have hsame : segment = tempo := by
    cases segment
    cases tempo
    simp_all only
  exact hsame ▸ hsegment

end TempoSegments

theorem Stretch.endBefore_filter {segments : TempoSegments ℚ}
    (hsorted : segments.Pairwise fun first second => first.offset < second.offset)
    {finish stop : ℚ} (h : finish ≤ stop) :
    endBefore finish (segments.filter (·.offset < stop)) = endBefore finish segments := by
  rw [endBefore_eq, endBefore_eq]
  cases segments with
  | nil => rfl
  | cons next others =>
      rw [List.pairwise_cons] at hsorted
      rcases lt_or_ge next.offset stop with hinside | hbehind
      · simp [hinside]
      · have hnone : (next :: others).filter (·.offset < stop) = [] := by
          rw [List.filter_eq_nil_iff]
          intro other hother
          rcases List.mem_cons.mp hother with rfl | hlater
          · simpa using hbehind
          · simpa using hbehind.trans (hsorted.1 other hlater).le
        simp [hnone, h.trans hbehind]

namespace Clock

def upTo (clock : Clock ℚ) (stop : ℚ) : Clock ℚ :=
  { clock with segments := clock.segments.upTo stop }

variable {clock : Clock ℚ} {offset length stop : ℚ}

theorem laterSeconds_upTo {finish : ℚ} (hstop : finish ≤ stop) {segments : TempoSegments ℚ}
    (hsorted : segments.Pairwise fun first second => first.offset < second.offset) :
    (clock.upTo stop).laterSeconds offset finish (segments.filter (·.offset < stop)) =
      clock.laterSeconds offset finish segments := by
  induction segments with
  | nil => rfl
  | cons segment rest ih =>
      rw [List.pairwise_cons] at hsorted
      rcases lt_or_ge segment.offset stop with hinside | hbehind
      · rw [List.filter_cons_of_pos (by simpa using hinside), laterSeconds, laterSeconds,
          ih hsorted.2, Stretch.endBefore_filter hsorted.2 hstop]
        rfl
      · have hlater : ∀ other ∈ segment :: rest, stop ≤ other.offset := by
          intro other hother
          rcases List.mem_cons.mp hother with rfl | hrest
          · exact hbehind
          · exact hbehind.trans (hsorted.1 other hrest).le
        have hnone : (segment :: rest).filter (·.offset < stop) = [] :=
          List.filter_eq_nil_iff.mpr fun other hother => by simpa using hlater other hother
        rw [hnone, laterSeconds_of_le fun other hother =>
          (hstop.trans (hlater other hother)).trans (le_max_right _ _)]
        rfl

theorem spanSeconds_upTo (hsegments : clock.segments.WellFormed)
    (hstop : offset + length ≤ stop) :
    (clock.upTo stop).spanSeconds offset length = clock.spanSeconds offset length := by
  have hsorted := hsegments.sorted
  rw [spanSeconds_eq, spanSeconds_eq]
  show (clock.upTo stop).stretchSeconds offset _ (clock.segments.upTo stop) = _
  cases hclock : clock.segments with
  | nil => rfl
  | cons head rest =>
      rw [hclock, List.pairwise_cons] at hsorted
      rw [TempoSegments.upTo, stretchSeconds, stretchSeconds, laterSeconds_upTo hstop hsorted.2,
        Stretch.endBefore_filter hsorted.2 hstop]
      rfl

theorem timeAt_upTo (hsegments : clock.segments.WellFormed) (hnonneg : 0 ≤ stop)
    (hstop : offset ≤ stop) : (clock.upTo stop).timeAt offset = clock.timeAt offset := by
  unfold timeAt
  split
  · rw [spanSeconds_upTo hsegments (by rwa [zero_add])]
    rfl
  · rw [spanSeconds_upTo hsegments (by rwa [add_neg_cancel])]
    rfl

theorem playLaid_upTo (hsegments : clock.segments.WellFormed) (hnonneg : 0 ≤ stop)
    {laid : LaidNote} (hlength : 0 ≤ laid.length) (hstop : laid.offset + laid.length ≤ stop) :
    (clock.upTo stop).playLaid laid = clock.playLaid laid := by
  unfold playLaid play
  rw [spanSeconds_upTo hsegments hstop,
    timeAt_upTo hsegments hnonneg ((le_add_of_nonneg_right hlength).trans hstop)]

theorem playNote_of_upTo {clock last : Clock ℚ} (hclock : clock.segments.WellFormed)
    (hlast : last.segments.WellFormed)
    (hsame : clock = { last with segments := clock.segments }) {note : Note} {position : ℚ}
    (hposition : 0 ≤ position)
    (hupTo : clock.segments.upTo (position + note.duration) =
      last.segments.upTo (position + note.duration))
    {fifths : Int} {pitch : Pitch} {graces : List GraceNote} :
    clock.playNote fifths note pitch position graces =
      (note.layOut last.divisions fifths pitch position
        (clock.graceRun note position graces)).map last.playLaid := by
  have hstop : 0 ≤ position + (note.duration : ℚ) :=
    add_nonneg hposition (Nat.cast_nonneg note.duration)
  have hclocks : clock.upTo (position + note.duration) =
      last.upTo (position + note.duration) :=
    (congrArg (upTo · _) hsame).trans (congrArg (fun segments => { last with segments }) hupTo)
  have hdivisions : clock.divisions = last.divisions := by rw [hsame]
  have hfills := clock.fills_graceRun note position graces
  rw [clock.playNote_eq, hdivisions]
  apply List.map_congr_left
  intro laid hlaid
  obtain ⟨-, hlength, hend⟩ :=
    hfills.within_layOut last.divisions fifths pitch position laid hlaid
  rw [← playLaid_upTo hclock hstop hlength hend, hclocks,
    playLaid_upTo hlast hstop hlength hend]

end Clock

theorem Place.mem_tempos_append {place : Place ℚ} {first : List (MeasureElement ℚ)}
    {tempo : TempoSegment ℚ} (h : tempo ∈ place.tempos first)
    (second : List (MeasureElement ℚ)) : tempo ∈ place.tempos (first ++ second) := by
  induction first generalizing place with
  | nil => cases h
  | cons element rest ih =>
      rw [Place.tempos_cons, List.mem_append] at h
      rw [List.cons_append, Place.tempos_cons, List.mem_append]
      exact h.imp_right ih

theorem Measure.mem_tempos_of_take {measure : Measure ℚ} {index : Nat}
    {tempo : TempoSegment ℚ} (h : tempo ∈ Place.start.tempos (measure.elements.take index)) :
    tempo ∈ measure.tempos := by
  have hall := Place.mem_tempos_append h (measure.elements.drop index)
  rwa [List.take_append_drop] at hall

theorem MeasureWalk.nonneg_after {walk : MeasureWalk ℚ} (h : walk.place.Nonneg)
    (elements : List (MeasureElement ℚ)) : (walk.after elements).place.Nonneg := by
  induction elements generalizing walk with
  | nil => exact h
  | cons element rest ih => exact ih (h.after element)

namespace Walker

variable (walker : Walker ℚ) (measure : Measure ℚ) (index : Nat)

/-- The tempos of the map that are set when a measure is entered. -/
def seeded : TempoSegments ℚ :=
  walker.clock.seededSegments (walker.meter.update measure.attributes).span

theorem segments_before : (walker.before measure index).walker.clock.segments =
    (walker.seeded measure).setAll (Place.start.tempos (measure.elements.take index)) :=
  congrArg Clock.segments (MeasureWalk.after_eq _ _).2

theorem segments_through :
    (walker.through measure).clock.segments = (walker.seeded measure).setAll measure.tempos := by
  rw [clock_through]
  rfl

theorem clock_before : (walker.before measure index).walker.clock =
    { (walker.through measure).clock with
      segments := (walker.before measure index).walker.clock.segments } := by
  rw [clock_through, before, (MeasureWalk.after_eq _ _).2]
  rfl

end Walker

namespace Part

variable {part : Part ℚ} {map : TempoMap ℚ} {number : Nat} {measure : Measure ℚ}

theorem follows_seeded (hmap : map.WellFormed) (hapart : Apart (part.placesBy map))
    (hmeasure : part.measures[number]? = some measure) :
    ((part.walkerAt map number).seeded measure).Follows map (part.scanAt number).position
      (part.meterAt number).span := by
  have hfollows := TempoSegments.follows_setAll hmap.sorted hmap.tempos_pos
    (apart_from_bar hapart hmeasure)
    (map.records_nil (part.scanAt number).position (part.meterAt number).span)
  unfold Walker.seeded
  rw [Clock.seededSegments_eq, map_walkerAt, startPosition_walkerAt, meter_walkerAt,
    ← meterAt_eq hmeasure]
  exact hfollows

/-- The map has the tempos that a measure states at places of its own in its time. -/
structure States (part : Part ℚ) (map : TempoMap ℚ) (number : Nat) (measure : Measure ℚ) :
    Prop where
  apart : Apart (part.placesBy map)
  records : map.Records (part.scanAt number).position (part.meterAt number).span measure.tempos
  distinct : (measure.tempos.map (·.offset)).Nodup
  within : ∀ tempo ∈ measure.tempos, tempo.offset < (part.meterAt number).span

theorem States.segments_before (h : part.States map number measure) (hmap : map.WellFormed)
    (hmeasure : part.measures[number]? = some measure) (index : Nat) :
    ((part.walkerAt map number).before measure index).walker.clock.segments =
      ((part.walkerAt map number).through measure).clock.segments := by
  have hfollows := follows_seeded hmap h.apart hmeasure
  have hmem : ∀ tempo ∈ measure.tempos, tempo ∈ (part.walkerAt map number).seeded measure :=
    fun tempo htempo => hfollows.mem_of_records hmap.sorted h.records h.distinct htempo
      (h.within tempo htempo)
  rw [Walker.segments_before, Walker.segments_through,
    TempoSegments.setAll_of_mem hfollows.wellFormed hmem,
    TempoSegments.setAll_of_mem hfollows.wellFormed fun tempo htempo =>
      hmem tempo (Measure.mem_tempos_of_take htempo)]

end Part

/-- What is played for a note has the times that the whole measure gives it, if the tempos up
to the end of the note stand when it is met, or if the map has all that the measure states.
The map of a score has what the first part states. -/
theorem Score.tempos_by_place {score : Score ℚ} (hscore : score.IsRead) {part : Part ℚ}
    (hpart : part ∈ score.parts) {number : Nat} {measure : Measure ℚ}
    (hmeasure : part.measures[number]? = some measure) {index : Nat} {pitched : PitchedNote}
    (hnote : measure.elements[index]?.bind MeasureElement.pitched? = some pitched) :
    let map := (score.tempoMap 0).value
    let walk := (part.walkerAt map number).before measure index
    let last := ((part.walkerAt map number).through measure).clock
    let position := walk.place.onset pitched.note
    let stop := position + pitched.note.duration
    (walk.walker.Begins pitched →
      walk.walker.clock.segments.upTo stop = last.segments.upTo stop ∨
        part.States map number measure →
      ((part.walkerAt map number).before measure (index + 1)).walker.notes =
        walk.walker.notes ++
          (pitched.note.layOut last.divisions walk.walker.meter.fifths pitched.pitch position
            (walk.walker.clock.graceRun pitched.note position walk.graces)).map
              last.playLaid) ∧
      (score.parts[0]? = some part →
        map.Records (part.scanAt number).position (part.meterAt number).span
          measure.tempos) := by
  intro map walk last position stop
  have hwritten := hscore.wellFormed part hpart
  have hmap : map.WellFormed := hscore.wellFormed.tempoMap 0
  refine ⟨fun hbegins hstands => ?_, fun hfirst => ?_⟩
  · obtain ⟨element, helement, hpitched⟩ := Option.bind_eq_some_iff.mp hnote
    have hreached : part.Reaches map walk :=
      ⟨number, measure, _, _, hmeasure, (List.take_append_drop index measure.elements).symm, rfl⟩
    have hclock := (hwritten.grounded_of_reaches hmap hreached).clock
    have hlast : last.WellFormed := ((hwritten.grounded_walkerAt hmap number).through
      (hwritten measure (List.mem_of_getElem? hmeasure))).clock
    have hposition : 0 ≤ position :=
      (MeasureWalk.nonneg_after Place.nonneg_start (measure.elements.take index)).onset _
    have hupTo : walk.walker.clock.segments.upTo stop = last.segments.upTo stop :=
      hstands.elim id fun hstates =>
        congrArg (TempoSegments.upTo stop) (hstates.segments_before hmap hmeasure index)
    have hnext : (part.walkerAt map number).before measure (index + 1) =
        (walk.step element).value := by
      unfold Walker.before
      rw [List.take_add_one, helement, MeasureWalk.after, List.foldl_append]
      rfl
    rw [hnext, MeasureWalk.walker_of_pitched hpitched, hbegins.value_place]
    exact congrArg (walk.walker.notes ++ ·) (Clock.playNote_of_upTo hclock.segments hlast.segments
      (Walker.clock_before _ measure index) hposition hupTo)
  · have hown : map = (TempoMap.ofPart part).value := by
      show (score.tempoMap 0).value = _
      unfold Score.tempoMap
      rw [hfirst]
    rw [hown]
    exact hwritten.records hmeasure

def tempoBehindNote : Measure ℚ where
  number := "1"
  attributes := .none
  elements := [
    .note (.plain (some ⟨.c, 0, 3⟩) 4), .backup 4, .forward 2, .direction ⟨[], some 60⟩]

def statedInFirst : Score ℚ := ⟨[⟨"P1", [tempoBehindNote]⟩]⟩

def statedInSecond : Score ℚ :=
  ⟨[⟨"P1", [⟨"1", .none, [.note (.plain (some ⟨.c, 0, 4⟩) 4)]⟩]⟩, ⟨"P2", [tempoBehindNote]⟩]⟩

section Text

open Markup (tagged)

private def wholeNoteText (octave : Char) : List Char :=
  tagged "note" [] [
    tagged "pitch" [] [tagged "step" [] [['C']], tagged "octave" [] [[octave]]],
    tagged "duration" [] [['4']]]

private def barText (id : String) (elements : List (List Char)) : List Char :=
  tagged "part" [" id=", "\"", id, "\""] [tagged "measure" [" number=", "\"1\""] elements]

private def tempoBehindNoteText : List (List Char) :=
  [wholeNoteText '3',
    tagged "backup" [] [tagged "duration" [] [['4']]],
    tagged "forward" [] [tagged "duration" [] [['2']]],
    tagged "sound" [" tempo=", "\"60\""] []]

private def statedInFirstText : List Char :=
  tagged "score-partwise" [] [barText "P1" tempoBehindNoteText]

private def statedInSecondText : List Char :=
  tagged "score-partwise" [] [
    barText "P1" [wholeNoteText '4'], barText "P2" tempoBehindNoteText]

end Text

private theorem tempoMap_statedInFirst :
    (statedInFirst.tempoMap 0).value = ⟨[⟨2, 60⟩], []⟩ := by cbv

private theorem tempoMap_statedInSecond : (statedInSecond.tempoMap 0).value = .empty := by cbv

/-- In the second part the note is played by the old tempo to its end; by the tempos of the
whole measure its second half would last twice as long. -/
theorem not_tempos_by_place_statedInSecond :
    let map := (statedInSecond.tempoMap 0).value
    let part : Part ℚ := ⟨"P2", [tempoBehindNote]⟩
    let last := ((part.walkerAt map 0).through tempoBehindNote).clock
    statedInSecond.IsRead ∧ part ∈ statedInSecond.parts ∧
      (tempoBehindNote.tempos.map (·.offset)).Nodup ∧
      (part.played map).value = [⟨0, 48, "C3", 2, 1, false⟩] ∧
      last.playLaid ⟨0, 4, 48, "C3", 1, false⟩ = ⟨0, 48, "C3", 3, 1, false⟩ := by
  intro map part last
  have hread : statedInSecond.IsRead :=
    Score.isRead_of_characters statedInSecondText (by decide +kernel)
  have hmap : map = .empty := tempoMap_statedInSecond
  refine ⟨hread, List.mem_cons_of_mem _ (List.mem_singleton_self _), by decide, ?_, ?_⟩
  · rw [hmap]
    decide +kernel
  · show (Clock.playLaid ((part.walkerAt map 0).through tempoBehindNote).clock _) = _
    rw [hmap]
    decide +kernel

theorem tempos_by_place_statedInFirst :
    let map := (statedInFirst.tempoMap 0).value
    let part : Part ℚ := ⟨"P1", [tempoBehindNote]⟩
    statedInFirst.IsRead ∧ part ∈ statedInFirst.parts ∧ part.States map 0 tempoBehindNote ∧
      ((part.walkerAt map 0).before tempoBehindNote 1).walker.notes =
        [⟨0, 48, "C3", 3, 1, false⟩] := by
  intro map part
  have hread : statedInFirst.IsRead :=
    Score.isRead_of_characters statedInFirstText (by decide +kernel)
  have hpart : part ∈ statedInFirst.parts := List.mem_singleton_self _
  have hmeasure : part.measures[0]? = some tempoBehindNote := rfl
  have hnote : tempoBehindNote.elements[0]?.bind MeasureElement.pitched? =
      some ⟨.plain (some ⟨.c, 0, 3⟩) 4, ⟨.c, 0, 3⟩⟩ := rfl
  obtain ⟨htimed, hrecords⟩ := Score.tempos_by_place hread hpart hmeasure hnote
  have hmap : map = ⟨[⟨2, 60⟩], []⟩ := tempoMap_statedInFirst
  have hstates : part.States map 0 tempoBehindNote :=
    ⟨by rw [hmap]; decide +kernel, hrecords rfl, by decide, by decide +kernel⟩
  refine ⟨hread, hpart, hstates, ?_⟩
  rw [htimed rfl (.inr hstates)]
  show _ ++ List.map (Clock.playLaid ((part.walkerAt map 0).through tempoBehindNote).clock) _ = _
  rw [hmap]
  decide +kernel

end Rubato
