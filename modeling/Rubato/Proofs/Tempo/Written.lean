import Rubato.Proofs.Rational
import Rubato.Proofs.Score.WellFormed
import Rubato.Performance.Walk
import Rubato.Tempo.Scan

namespace Rubato

variable {α : Type} [Quantity α]

/-- The tempos written in some elements, each at the offset of its place. -/
def Place.tempos (place : Place α) : List (MeasureElement α) → TempoSegments α
  | [] => []
  | element :: rest =>
    (element.tempo?.map (TempoSegment.mk place.cursor)).toList ++
      (place.after element).tempos rest

theorem Place.tempos_cons (place : Place α) (element : MeasureElement α)
    (rest : List (MeasureElement α)) :
    place.tempos (element :: rest) =
      (element.tempo?.map (TempoSegment.mk place.cursor)).toList ++
        (place.after element).tempos rest := rfl

def Measure.tempos (measure : Measure α) : TempoSegments α :=
  Place.start.tempos measure.elements

namespace TempoSegments

def setAll (segments tempos : TempoSegments α) : TempoSegments α :=
  tempos.foldl (fun result tempo => set tempo.offset tempo.bpm result) segments

theorem setAll_append (segments first second : TempoSegments α) :
    segments.setAll (first ++ second) = (segments.setAll first).setAll second :=
  List.foldl_append

end TempoSegments

def TempoSegment.event (start : α) (segment : TempoSegment α) : TempoEvent α :=
  ⟨start + segment.offset, segment.bpm⟩

theorem map_event_tempo? (start cursor : α) (tempo : Option α) :
    ((tempo.map (TempoSegment.mk cursor)).toList).map (TempoSegment.event start) =
      (tempo.map (TempoEvent.mk (start + cursor))).toList := by
  cases tempo <;> rfl

/-- What the scan knows before a measure; measures count from zero. -/
def Part.scanAt (part : Part α) (number : Nat) : TempoScan α :=
  (part.measures.take number).foldl TempoScan.measure TempoScan.initial

theorem TempoMap.ofPart_eq (part : Part α) :
    TempoMap.ofPart part = (part.scanAt part.measures.length).finish := by
  rw [ofPart, Part.scanAt, List.take_length]

def Part.meterBefore (part : Part α) (number : Nat) : Meter :=
  (part.measures.take number).foldl (fun meter measure => meter.update measure.attributes)
    .initial

def Part.meterAt (part : Part α) (number : Nat) : Meter :=
  part.meterBefore (number + 1)

theorem foldl_take_succ {β γ : Type} {step : γ → β → γ} {start : γ} {list : List β}
    {number : Nat} {entry : β} (h : list[number]? = some entry) :
    (list.take (number + 1)).foldl step start =
      step ((list.take number).foldl step start) entry := by
  rw [List.take_add_one, h, Option.toList_some, List.foldl_append]
  rfl

theorem take_succ_of_none {β : Type} {list : List β} {number : Nat}
    (h : list[number]? = none) : list.take (number + 1) = list.take number := by
  rw [List.take_add_one, h, Option.toList_none, List.append_nil]

theorem Part.scanAt_succ {part : Part α} {number : Nat} {measure : Measure α}
    (h : part.measures[number]? = some measure) :
    part.scanAt (number + 1) = (part.scanAt number).measure measure :=
  foldl_take_succ h

omit [Quantity α] in
theorem Part.meterAt_eq {part : Part α} {number : Nat} {measure : Measure α}
    (h : part.measures[number]? = some measure) :
    part.meterAt number = (part.meterBefore number).update measure.attributes :=
  foldl_take_succ h

omit [Quantity α] in
theorem Part.WellFormed.meterBefore [Quantity α] {part : Part α} (hpart : part.WellFormed)
    (number : Nat) : (part.meterBefore number).WellFormed := by
  induction number with
  | zero => exact Meter.wellFormed_initial
  | succ number ih =>
      cases hmeasure : part.measures[number]? with
      | none =>
          unfold Part.meterBefore at ih ⊢
          rwa [take_succ_of_none hmeasure]
      | some measure =>
          rw [show part.meterBefore (number + 1) = part.meterAt number from rfl,
            Part.meterAt_eq hmeasure]
          exact ih.update (hpart measure (List.mem_of_getElem? hmeasure)).attributes_wellFormed

theorem Part.WellFormed.meterAt {part : Part α} (hpart : part.WellFormed) (number : Nat) :
    (part.meterAt number).WellFormed :=
  hpart.meterBefore (number + 1)

namespace TempoScan

/-- Scans that differ in the tempo and the ramps only. -/
structure SameEvents (first second : TempoScan α) : Prop where
  position : first.position = second.position
  meter : first.meter = second.meter
  events : first.events = second.events

theorem sameEvents_applyWords (position : α) (scan : TempoScan α) (words : String) :
    (applyWords position scan words).SameEvents scan := by
  unfold applyWords
  split
  · next cue _ =>
      cases cue with
      | ramp kind =>
          simp only [applyCue]
          split <;> exact ⟨rfl, rfl, rfl⟩
      | resume => exact ⟨rfl, rfl, rfl⟩
  · exact ⟨rfl, rfl, rfl⟩

theorem sameEvents_foldl_applyWords (position : α) (words : List String)
    (scan : TempoScan α) : (words.foldl (applyWords position) scan).SameEvents scan := by
  induction words generalizing scan with
  | nil => exact ⟨rfl, rfl, rfl⟩
  | cons word rest ih =>
      have hword := sameEvents_applyWords position scan word
      have hrest := ih (applyWords position scan word)
      exact ⟨hrest.position.trans hword.position, hrest.meter.trans hword.meter,
        hrest.events.trans hword.events⟩

theorem direction_eq (scan : TempoScan α) (position : α) (mark : Direction α) :
    (scan.direction position mark).position = scan.position ∧
      (scan.direction position mark).meter = scan.meter ∧
      (scan.direction position mark).events =
        scan.events ++ (mark.tempo.map (TempoEvent.mk position)).toList := by
  have hwords := fun timed : TempoScan α =>
    sameEvents_foldl_applyWords position mark.words timed
  unfold direction
  cases mark.tempo with
  | none =>
      have h := hwords scan
      exact ⟨h.position, h.meter, by simpa using h.events⟩
  | some bpm =>
      have h := hwords (scan.setTempo position bpm)
      exact ⟨h.position, h.meter, h.events⟩

theorem element_eq (scan : TempoScan α) (place : Place α) (element : MeasureElement α) :
    (TempoScan.element (scan, place) element).2 = place.after element ∧
      (TempoScan.element (scan, place) element).1.position = scan.position ∧
      (TempoScan.element (scan, place) element).1.meter = scan.meter ∧
      (TempoScan.element (scan, place) element).1.events =
        scan.events ++
          (element.tempo?.map (TempoEvent.mk (scan.position + place.cursor))).toList := by
  cases element with
  | direction mark => exact ⟨rfl, direction_eq scan _ mark⟩
  | note note => simp [TempoScan.element, MeasureElement.tempo?]
  | harmony harmony => simp [TempoScan.element, MeasureElement.tempo?]
  | backup duration => simp [TempoScan.element, MeasureElement.tempo?]
  | forward duration => simp [TempoScan.element, MeasureElement.tempo?]

theorem foldl_element_eq (elements : List (MeasureElement α)) (scan : TempoScan α)
    (place : Place α) :
    (elements.foldl TempoScan.element (scan, place)).1.position = scan.position ∧
      (elements.foldl TempoScan.element (scan, place)).1.meter = scan.meter ∧
      (elements.foldl TempoScan.element (scan, place)).1.events =
        scan.events ++ (place.tempos elements).map (TempoSegment.event scan.position) := by
  induction elements generalizing scan place with
  | nil => simp [Place.tempos]
  | cons element rest ih =>
      obtain ⟨hplace, hposition, hmeter, hevents⟩ := element_eq scan place element
      obtain ⟨hrestPosition, hrestMeter, hrestEvents⟩ :=
        ih (TempoScan.element (scan, place) element).1 (place.after element)
      rw [← hplace] at hrestPosition hrestMeter hrestEvents
      refine ⟨hrestPosition.trans hposition, hrestMeter.trans hmeter, ?_⟩
      rw [List.foldl_cons, hrestEvents, hevents, hposition, hplace, Place.tempos_cons,
        List.map_append, map_event_tempo?, List.append_assoc]

theorem position_measure (scan : TempoScan α) (measure : Measure α) :
    (scan.measure measure).position =
      scan.position + (scan.meter.update measure.attributes).span := by
  obtain ⟨hposition, _, _⟩ := foldl_element_eq measure.elements
    { scan with meter := scan.meter.update measure.attributes } Place.start
  exact congrArg (· + (scan.meter.update measure.attributes).span) hposition

theorem meter_measure (scan : TempoScan α) (measure : Measure α) :
    (scan.measure measure).meter = scan.meter.update measure.attributes :=
  (foldl_element_eq measure.elements
    { scan with meter := scan.meter.update measure.attributes } Place.start).2.1

theorem events_measure (scan : TempoScan α) (measure : Measure α) :
    (scan.measure measure).events =
      scan.events ++ measure.tempos.map (TempoSegment.event scan.position) :=
  (foldl_element_eq measure.elements
    { scan with meter := scan.meter.update measure.attributes } Place.start).2.2

end TempoScan

theorem Part.meter_scanAt (part : Part α) (number : Nat) :
    (part.scanAt number).meter = part.meterBefore number := by
  induction number with
  | zero => rfl
  | succ number ih =>
      cases hmeasure : part.measures[number]? with
      | none =>
          unfold Part.scanAt Part.meterBefore at ih ⊢
          rwa [take_succ_of_none hmeasure]
      | some measure =>
          rw [Part.scanAt_succ hmeasure, TempoScan.meter_measure, ih]
          exact (Part.meterAt_eq hmeasure).symm

/-- The start of a measure: the lengths of the measures before it. -/
def Part.barStart (part : Part ℚ) (number : Nat) : ℚ :=
  ∑ earlier ∈ Finset.range number, (part.meterAt earlier).span

theorem Part.position_scanAt {part : Part ℚ} {number : Nat}
    (h : number ≤ part.measures.length) :
    (part.scanAt number).position = part.barStart number := by
  induction number with
  | zero => rfl
  | succ number ih =>
      have hmeasure := List.getElem?_eq_getElem (Nat.lt_of_succ_le h)
      rw [scanAt_succ hmeasure, TempoScan.position_measure, meter_scanAt, ← meterAt_eq hmeasure,
        ih (Nat.le_of_succ_le h), barStart, barStart, Finset.sum_range_succ]

structure Place.Nonneg (place : Place ℚ) : Prop where
  cursor : 0 ≤ place.cursor
  anchor : 0 ≤ place.anchor

theorem Place.nonneg_start : (Place.start : Place ℚ).Nonneg := ⟨le_refl 0, le_refl 0⟩

theorem Place.Nonneg.after {place : Place ℚ} (hplace : place.Nonneg)
    (element : MeasureElement ℚ) : (place.after element).Nonneg := by
  cases element with
  | note note =>
      simp only [Place.after]
      split
      · exact hplace
      · exact ⟨add_nonneg hplace.cursor (Nat.cast_nonneg note.duration), hplace.cursor⟩
  | harmony harmony => exact hplace
  | direction mark => exact hplace
  | backup duration =>
      refine ⟨?_, hplace.anchor⟩
      simp only [Place.after, Quantity.greater_eq_max]
      exact le_max_right _ _
  | forward duration =>
      exact ⟨add_nonneg hplace.cursor (Nat.cast_nonneg duration), hplace.anchor⟩

theorem Place.Nonneg.onset {place : Place ℚ} (hplace : place.Nonneg) (note : Note) :
    0 ≤ place.onset note := by
  unfold Place.onset
  split
  · exact hplace.anchor
  · exact hplace.cursor

theorem Place.Nonneg.tempos {place : Place ℚ} (hplace : place.Nonneg)
    {elements : List (MeasureElement ℚ)} {segment : TempoSegment ℚ}
    (h : segment ∈ place.tempos elements) : 0 ≤ segment.offset := by
  induction elements generalizing place with
  | nil => cases h
  | cons element rest ih =>
      rw [Place.tempos_cons, List.mem_append] at h
      rcases h with hhere | hlater
      · obtain ⟨bpm, _, rfl⟩ := Option.map_eq_some_iff.mp (Option.mem_toList.mp hhere)
        exact hplace.cursor
      · exact ih (hplace.after element) hlater

theorem Measure.tempos_offset_nonneg {measure : Measure ℚ} {segment : TempoSegment ℚ}
    (h : segment ∈ measure.tempos) : 0 ≤ segment.offset :=
  Place.nonneg_start.tempos h

theorem Place.bpm_mem_tempos {place : Place α} {elements : List (MeasureElement α)}
    {segment : TempoSegment α} (h : segment ∈ place.tempos elements) :
    ∃ element ∈ elements, segment.bpm ∈ element.tempo? := by
  induction elements generalizing place with
  | nil => cases h
  | cons element rest ih =>
      rw [Place.tempos_cons, List.mem_append] at h
      rcases h with hhere | hlater
      · obtain ⟨bpm, hbpm, rfl⟩ := Option.map_eq_some_iff.mp (Option.mem_toList.mp hhere)
        exact ⟨element, List.mem_cons_self, hbpm⟩
      · obtain ⟨other, hother, hbpm⟩ := ih hlater
        exact ⟨other, List.mem_cons_of_mem element hother, hbpm⟩

theorem Measure.WellFormed.tempos_pos {measure : Measure α} (hmeasure : measure.WellFormed)
    {segment : TempoSegment α} (h : segment ∈ measure.tempos) : 0 < segment.bpm := by
  obtain ⟨element, helement, hbpm⟩ := Place.bpm_mem_tempos h
  exact hmeasure.tempo_pos element helement segment.bpm hbpm

theorem Meter.WellFormed.span_pos {meter : Meter} (hmeter : meter.WellFormed) :
    0 < (meter.span : ℚ) := by
  have hdivisions : (0 : ℚ) < meter.divisions := Nat.cast_pos.mpr hmeter.divisions_pos
  have hbeats : (0 : ℚ) < meter.time.beats := Nat.cast_pos.mpr hmeter.time_wellFormed.beats_pos
  have hbeatType : (0 : ℚ) < meter.time.beatType :=
    Nat.cast_pos.mpr hmeter.time_wellFormed.beatType_pos
  rw [Meter.span_eq]
  positivity

def Part.events (part : Part α) : List (TempoEvent α) :=
  (part.scanAt part.measures.length).events

theorem TempoScan.foldl_measure_later (measures : List (Measure ℚ)) (scan : TempoScan ℚ)
    (hmeasures : ∀ measure ∈ measures, measure.WellFormed) (hmeter : scan.meter.WellFormed) :
    ∃ later, (measures.foldl TempoScan.measure scan).events = scan.events ++ later ∧
      ∀ event ∈ later, scan.position ≤ event.position ∧ 0 < event.bpm := by
  induction measures generalizing scan with
  | nil => exact ⟨[], (List.append_nil _).symm, fun event hevent => by cases hevent⟩
  | cons measure rest ih =>
      have hmeasure := hmeasures measure List.mem_cons_self
      have hnext : (scan.measure measure).meter.WellFormed := by
        rw [meter_measure]
        exact hmeter.update hmeasure.attributes_wellFormed
      obtain ⟨later, hlater, hbehind⟩ := ih (scan.measure measure)
        (fun other hother => hmeasures other (List.mem_cons_of_mem measure hother)) hnext
      refine ⟨measure.tempos.map (TempoSegment.event scan.position) ++ later, ?_, ?_⟩
      · rw [List.foldl_cons, hlater, events_measure, List.append_assoc]
      · intro event hevent
        rcases List.mem_append.mp hevent with hhere | hafter
        · obtain ⟨segment, hsegment, rfl⟩ := List.mem_map.mp hhere
          exact ⟨le_add_of_nonneg_right (Measure.tempos_offset_nonneg hsegment),
            hmeasure.tempos_pos hsegment⟩
        · have hspan := (hmeter.update hmeasure.attributes_wellFormed).span_pos
          have hstart := (hbehind event hafter).1
          rw [position_measure] at hstart
          exact ⟨by linarith, (hbehind event hafter).2⟩

theorem Part.WellFormed.events_after {part : Part ℚ} (hpart : part.WellFormed)
    (number : Nat) :
    ∃ later, part.events = (part.scanAt number).events ++ later ∧
      ∀ event ∈ later, (part.scanAt number).position ≤ event.position ∧ 0 < event.bpm := by
  have hsplit : part.scanAt part.measures.length =
      (part.measures.drop number).foldl TempoScan.measure (part.scanAt number) := by
    unfold Part.scanAt
    rw [← List.foldl_append, List.take_append_drop, List.take_length]
  unfold Part.events
  rw [hsplit]
  apply TempoScan.foldl_measure_later
  · exact fun measure hmeasure => hpart measure (List.mem_of_mem_drop hmeasure)
  · rw [Part.meter_scanAt]
    exact hpart.meterBefore number

theorem Part.WellFormed.events_pos {part : Part ℚ} (hpart : part.WellFormed)
    {event : TempoEvent ℚ} (h : event ∈ part.events) : 0 < event.bpm := by
  obtain ⟨later, hevents, hlater⟩ := hpart.events_after 0
  rw [hevents] at h
  exact (hlater event (by simpa [Part.scanAt, TempoScan.initial] using h)).2

theorem Part.WellFormed.events_split {part : Part ℚ} (hpart : part.WellFormed)
    {number : Nat} {measure : Measure ℚ} (hmeasure : part.measures[number]? = some measure) :
    ∃ later, part.events = (part.scanAt number).events ++
        (measure.tempos.map (TempoSegment.event (part.scanAt number).position) ++ later) ∧
      ∀ event ∈ later,
        (part.scanAt number).position + (part.meterAt number).span ≤ event.position := by
  obtain ⟨later, hevents, hlater⟩ := hpart.events_after (number + 1)
  rw [Part.scanAt_succ hmeasure, TempoScan.events_measure, List.append_assoc] at hevents
  refine ⟨later, hevents, fun event hevent => ?_⟩
  have hbehind := (hlater event hevent).1
  rwa [Part.scanAt_succ hmeasure, TempoScan.position_measure, Part.meter_scanAt,
    ← Part.meterAt_eq hmeasure] at hbehind

end Rubato
