import Rubato.Proofs.Performance.Segments
import Rubato.Proofs.Performance.Reached

namespace Rubato

/-! The tempos that a measure states are in the map as well, behind all that the map has
from earlier measures at the same position. -/

def TempoSegments.tempoAt? (segments : TempoSegments ℚ) (offset : ℚ) : Option ℚ :=
  (lastUpTo? TempoSegment.offset segments offset).map (·.bpm)

structure TempoSegments.Follows (segments : TempoSegments ℚ) (map : TempoMap ℚ)
    (start span : ℚ) : Prop where
  wellFormed : segments.WellFormed
  tempoAt? : ∀ offset, 0 ≤ offset → offset < span →
    segments.tempoAt? offset = some (map.tempoAt (start + offset))
  offset_mem : ∀ segment ∈ segments,
    segment.offset = 0 ∨ ∃ event ∈ map.events, event.position = start + segment.offset
  event_mem : ∀ event ∈ map.events, start < event.position → event.position < start + span →
    ∃ segment ∈ segments, start + segment.offset = event.position

def TempoEvent.segment (start : ℚ) (event : TempoEvent ℚ) : TempoSegment ℚ :=
  ⟨event.position - start, event.bpm⟩

def TempoMap.inside (map : TempoMap ℚ) (start span : ℚ) : TempoSegments ℚ :=
  (map.events.filter fun event =>
    decide (start < event.position) && decide (event.position < start + span)).map
    (TempoEvent.segment start)

theorem TempoMap.mem_inside {map : TempoMap ℚ} {start span : ℚ} {segment : TempoSegment ℚ} :
    segment ∈ map.inside start span ↔
      ∃ event ∈ map.events, (start < event.position ∧ event.position < start + span) ∧
        event.segment start = segment := by
  simp [TempoMap.inside, and_assoc]

theorem Clock.seededSegments_eq (clock : Clock ℚ) (span : ℚ) :
    clock.seededSegments span =
      TempoSegments.setAll [⟨0, clock.map.tempoAt clock.startPosition⟩]
        (clock.map.inside clock.startPosition span) := by
  unfold Clock.seededSegments TempoSegments.setAll TempoMap.inside
  rw [List.foldl_map]
  rfl

/-- The tempos that a measure states, seen from the map: each is the last one that the
map has at its position. -/
structure TempoMap.Records (map : TempoMap ℚ) (start span : ℚ) (tempos : TempoSegments ℚ) :
    Prop where
  offset_nonneg : ∀ tempo ∈ tempos, 0 ≤ tempo.offset
  mem : ∀ tempo ∈ tempos, tempo.event start ∈ map.events
  last : ∀ tempo, tempo.offset < span →
    lastAt? TempoSegment.offset tempos tempo.offset = some tempo →
    lastAt? TempoEvent.position map.events (start + tempo.offset) = some (tempo.event start)

theorem TempoMap.records_nil (map : TempoMap ℚ) (start span : ℚ) :
    map.Records start span [] := by
  constructor
  · intro tempo htempo
    cases htempo
  · intro tempo htempo
    cases htempo
  · intro tempo _ hlast
    cases hlast

section Follows

variable {map : TempoMap ℚ} {start span : ℚ} {tempos : TempoSegments ℚ}

private def written (map : TempoMap ℚ) (start span : ℚ) (tempos : TempoSegments ℚ) :
    TempoSegments ℚ :=
  ⟨0, map.tempoAt start⟩ :: (map.inside start span ++ tempos)

private theorem written_tail (hpos : ∀ event ∈ map.events, 0 < event.bpm)
    (hrecords : map.Records start span tempos) :
    ∀ tempo ∈ map.inside start span ++ tempos, 0 ≤ tempo.offset ∧ 0 < tempo.bpm := by
  intro tempo htempo
  rcases List.mem_append.mp htempo with hinside | hown
  · obtain ⟨event, hevent, ⟨hbehind, _⟩, rfl⟩ := TempoMap.mem_inside.mp hinside
    exact ⟨sub_nonneg.mpr hbehind.le, hpos event hevent⟩
  · exact ⟨hrecords.offset_nonneg tempo hown, hpos _ (hrecords.mem tempo hown)⟩

private theorem written_apart (hapart : Apart (start :: map.events.map (·.position)))
    (hrecords : map.Records start span tempos) :
    Apart ((written map start span tempos).map (·.offset)) := by
  have hplace : ∀ offset ∈ (written map start span tempos).map (·.offset),
      start + offset ∈ start :: map.events.map (·.position) := by
    intro offset hoffset
    obtain ⟨tempo, htempo, rfl⟩ := List.mem_map.mp hoffset
    rcases List.mem_cons.mp htempo with rfl | htail
    · simp
    · apply List.mem_cons_of_mem
      rcases List.mem_append.mp htail with hinside | hown
      · obtain ⟨event, hevent, _, rfl⟩ := TempoMap.mem_inside.mp hinside
        refine List.mem_map.mpr ⟨event, hevent, ?_⟩
        simp [TempoEvent.segment]
      · exact List.mem_map.mpr ⟨tempo.event start, hrecords.mem tempo hown, rfl⟩
  intro first hfirst second hsecond
  have h := hapart _ (hplace first hfirst) _ (hplace second hsecond)
  simpa using h

private theorem tempoAt_of_written (hsorted : map.Sorted)
    (hrecords : map.Records start span tempos) {segment : TempoSegment ℚ}
    (hspan : segment.offset < span)
    (hlast : lastAt? TempoSegment.offset (written map start span tempos) segment.offset =
      some segment) :
    map.tempoAt (start + segment.offset) = segment.bpm := by
  rw [written, lastAt?_cons, lastAt?_append, Option.or_eq_some_iff, Option.or_eq_some_iff]
    at hlast
  rcases hlast with (hown | ⟨_, hinside⟩) | ⟨_, hstart⟩
  · exact hsorted.tempoAt_of_lastAt? (hrecords.last segment hspan hown)
  · obtain ⟨event, _, ⟨hbehind, hbefore⟩, hsegment⟩ :=
      TempoMap.mem_inside.mp (lastAt?_mem hinside).1
    subst hsegment
    have hplace : start + (event.segment start).offset = event.position := by
      simp [TempoEvent.segment]
    have hoffset : ∀ other : TempoEvent ℚ,
        (other.segment start).offset = (event.segment start).offset ↔
          other.position = event.position :=
      fun other => by simp [TempoEvent.segment]
    have hevents : lastAt? TempoSegment.offset (map.inside start span)
          (event.segment start).offset =
        (lastAt? TempoEvent.position map.events event.position).map
          (TempoEvent.segment start) := by
      unfold TempoMap.inside
      rw [lastAt?_map hoffset, lastAt?_filter]
      intro other hother
      simp [hother, hbehind, hbefore]
    rw [hevents, Option.map_eq_some_iff] at hinside
    obtain ⟨other, hother, hsame⟩ := hinside
    rw [hplace, hsorted.tempoAt_of_lastAt? hother]
    exact congrArg TempoSegment.bpm hsame
  · split at hstart
    · cases hstart
      rw [add_zero]
    · cases hstart

section Result

variable {segments : TempoSegments ℚ} (hsegments : segments.WellFormed)
  (hwritten : ∀ offset, lastAt? TempoSegment.offset segments offset =
    lastAt? TempoSegment.offset (written map start span tempos) offset)

include hwritten in
private theorem segment_of_written {tempo : TempoSegment ℚ}
    (h : tempo ∈ written map start span tempos) :
    ∃ segment ∈ segments, segment.offset = tempo.offset := by
  have hplace : tempo.offset ∈ (written map start span tempos).map (·.offset) :=
    List.mem_map_of_mem h
  rw [← isSome_lastAt?, ← hwritten, isSome_lastAt?] at hplace
  exact List.mem_map.mp hplace

include hwritten in
private theorem segment_of_event {event : TempoEvent ℚ} (hevent : event ∈ map.events)
    (hbehind : start < event.position) (hbefore : event.position < start + span) :
    ∃ segment ∈ segments, start + segment.offset = event.position := by
  obtain ⟨segment, hsegment, hoffset⟩ := segment_of_written hwritten
    (List.mem_cons_of_mem _ (List.mem_append_left _
      (TempoMap.mem_inside.mpr ⟨event, hevent, ⟨hbehind, hbefore⟩, rfl⟩)))
  exact ⟨segment, hsegment, by simp [hoffset, TempoEvent.segment]⟩

include hsegments hwritten in
private theorem written_of_segment {segment : TempoSegment ℚ} (h : segment ∈ segments) :
    lastAt? TempoSegment.offset (written map start span tempos) segment.offset =
      some segment := by
  rw [← hwritten]
  exact hsegments.ordered.lastAt?_of_mem h

include hsegments hwritten in
private theorem tempoAt?_of_written (hsorted : map.Sorted)
    (hrecords : map.Records start span tempos) {offset : ℚ} (hoffset : 0 ≤ offset)
    (hspan : offset < span) :
    segments.tempoAt? offset = some (map.tempoAt (start + offset)) := by
  have hordered := hsegments.sorted.imp fun {first second} h => le_of_lt h
  unfold TempoSegments.tempoAt?
  cases hlast : lastUpTo? TempoSegment.offset segments offset with
  | none =>
      obtain ⟨first, hfirst, hzero⟩ := segment_of_written hwritten List.mem_cons_self
      have hbehind := lastUpTo?_eq_none_iff.mp hlast first hfirst
      rw [hzero] at hbehind
      exact absurd hoffset (not_le.mpr hbehind)
  | some segment =>
      obtain ⟨hmem, hle, hgreatest⟩ := lastUpTo?_greatest hordered hlast
      -- The map has no event between the segment and the offset: it would be a segment.
      have hgap : ∀ event ∈ map.events, event.position ≤ start + offset →
          event.position ≤ start + segment.offset := by
        intro event hevent hupTo
        by_contra hbetween
        have hnonneg := hsegments.offset_nonneg hmem
        obtain ⟨other, hother, hplace⟩ := segment_of_event hwritten hevent
          (by linarith [not_le.mp hbetween]) (by linarith)
        have hcovered := hgreatest other hother (by linarith)
        linarith [not_le.mp hbetween]
      rw [Option.map_some, hsorted.tempoAt_of_gap (by linarith) hgap,
        tempoAt_of_written hsorted hrecords (by linarith)
          (written_of_segment hsegments hwritten hmem)]

include hsegments hwritten in
private theorem offset_of_written (hrecords : map.Records start span tempos)
    {segment : TempoSegment ℚ} (h : segment ∈ segments) :
    segment.offset = 0 ∨ ∃ event ∈ map.events, event.position = start + segment.offset := by
  have hmem := (lastAt?_mem (written_of_segment hsegments hwritten h)).1
  rcases List.mem_cons.mp hmem with hstart | hlater
  · exact .inl (congrArg TempoSegment.offset hstart)
  · right
    rcases List.mem_append.mp hlater with hinside | hown
    · obtain ⟨event, hevent, _, rfl⟩ := TempoMap.mem_inside.mp hinside
      exact ⟨event, hevent, by simp [TempoEvent.segment]⟩
    · exact ⟨segment.event start, hrecords.mem segment hown, rfl⟩

end Result

theorem TempoSegments.follows_setAll (hsorted : map.Sorted)
    (hpos : ∀ event ∈ map.events, 0 < event.bpm)
    (hapart : Apart (start :: map.events.map (·.position)))
    (hrecords : map.Records start span tempos) :
    (setAll (setAll [⟨0, map.tempoAt start⟩] (map.inside start span)) tempos).Follows map
      start span := by
  have hhead := wellFormed_singleton (TempoMap.tempoAt_pos hpos start)
  have htail := written_tail hpos hrecords
  have hsegments := hhead.setAll htail
  have hwritten := lastAt?_setAll hhead.ordered (fun tempo htempo => (htail tempo htempo).1)
    (written_apart hapart hrecords)
  rw [← setAll_append]
  exact
    { wellFormed := hsegments
      tempoAt? := fun offset => tempoAt?_of_written hsegments hwritten hsorted hrecords
      offset_mem := fun segment hsegment =>
        offset_of_written hsegments hwritten hrecords hsegment
      event_mem := fun event => segment_of_event hwritten }

end Follows

end Rubato
