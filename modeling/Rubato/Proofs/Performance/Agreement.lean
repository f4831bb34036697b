import Rubato.Proofs.Performance.Steady

namespace Rubato

namespace Part

/-- Where the tempo or the measure changes by the tempos of a map. -/
def placesBy (part : Part ℚ) (map : TempoMap ℚ) : List ℚ :=
  map.events.map (·.position) ++ (List.range part.measures.length).map part.barStart

variable {part : Part ℚ} {map : TempoMap ℚ} {number : Nat} {measure : Measure ℚ}

theorem divisions_through (hmeasure : part.measures[number]? = some measure) :
    ((part.walkerAt map number).through measure).clock.divisions =
      (part.meterAt number).divisions := by
  rw [Walker.clock_through, meter_walkerAt, ← meterAt_eq hmeasure]

theorem meter_through (hmeasure : part.measures[number]? = some measure) :
    ((part.walkerAt map number).through measure).meter = part.meterAt number := by
  rw [Walker.meter_through, meter_walkerAt, ← meterAt_eq hmeasure]

theorem segments_through (hmeasure : part.measures[number]? = some measure) :
    ((part.walkerAt map number).through measure).clock.segments =
      (TempoSegments.setAll [⟨0, map.tempoAt (part.scanAt number).position⟩]
        (map.inside (part.scanAt number).position (part.meterAt number).span)).setAll
          measure.tempos := by
  rw [Walker.clock_through, Clock.seededSegments_eq, map_walkerAt, startPosition_walkerAt,
    meter_walkerAt, ← meterAt_eq hmeasure]

theorem startTime_succ (hmeasure : part.measures[number]? = some measure) :
    (part.walkerAt map (number + 1)).clock.startTime =
      (part.walkerAt map number).clock.startTime +
        ((part.walkerAt map number).through measure).clock.spanSeconds 0
          (part.meterAt number).span := by
  have hstart : ((part.walkerAt map number).through measure).clock.startTime =
      (part.walkerAt map number).clock.startTime := by
    rw [Walker.clock_through]
  have hmeter : ((part.walkerAt map number).through measure).meter = part.meterAt number :=
    meter_through hmeasure
  rw [walkerAt_succ hmeasure, ← hstart, ← hmeter]
  rfl

theorem apart_from_bar (hapart : Apart (part.placesBy map))
    (hmeasure : part.measures[number]? = some measure) :
    Apart ((part.scanAt number).position :: map.events.map (·.position)) := by
  have hlt : number < part.measures.length := (List.getElem?_eq_some_iff.mp hmeasure).1
  apply hapart.mono
  intro place hplace
  rcases List.mem_cons.mp hplace with rfl | hevent
  · apply List.mem_append_right
    exact List.mem_map.mpr ⟨number, List.mem_range.mpr hlt, (position_scanAt hlt.le).symm⟩
  · exact List.mem_append_left _ hevent

theorem follows_through (hsorted : map.Sorted) (hpos : ∀ event ∈ map.events, 0 < event.bpm)
    (hapart : Apart (part.placesBy map)) (hmeasure : part.measures[number]? = some measure)
    (hrecords : map.Records (part.scanAt number).position (part.meterAt number).span
      measure.tempos) :
    ((part.walkerAt map number).through measure).clock.segments.Follows map
      (part.scanAt number).position (part.meterAt number).span := by
  rw [segments_through hmeasure]
  exact TempoSegments.follows_setAll hsorted hpos (apart_from_bar hapart hmeasure) hrecords

theorem WellFormed.records (hpart : part.WellFormed)
    (hmeasure : part.measures[number]? = some measure) :
    (TempoMap.ofPart part).value.Records (part.scanAt number).position
      (part.meterAt number).span measure.tempos := by
  obtain ⟨later, hevents, hlater⟩ := hpart.events_split hmeasure
  constructor
  · exact fun tempo htempo => Measure.tempos_offset_nonneg htempo
  · intro tempo htempo
    rw [TempoMap.mem_events_ofPart, hevents]
    exact List.mem_append_right _ (List.mem_append_left _ (List.mem_map_of_mem htempo))
  · intro tempo hspan hlast
    have hnone : lastAt? TempoEvent.position later
        ((part.scanAt number).position + tempo.offset) = none := by
      rw [lastAt?_eq_none_iff]
      intro event hevent heq
      have hbehind := hlater event hevent
      rw [heq] at hbehind
      linarith
    have hplace : ∀ other : TempoSegment ℚ,
        (other.event (part.scanAt number).position).position =
            (part.scanAt number).position + tempo.offset ↔
          other.offset = tempo.offset :=
      fun other => by simp [TempoSegment.event]
    rw [TempoMap.lastAt?_ofPart, hevents, lastAt?_append, lastAt?_append, hnone, Option.none_or,
      lastAt?_map hplace, hlast]
    rfl

theorem WellFormed.map_pos (hpart : part.WellFormed) :
    ∀ event ∈ (TempoMap.ofPart part).value.events, 0 < event.bpm :=
  fun _ hevent => hpart.events_pos (TempoMap.mem_events_ofPart.mp hevent)

theorem startTime_of_follows (hpart : part.WellFormed) (hramps : map.ramps = [])
    (hsorted : map.Sorted)
    (hfollows : ∀ number measure, part.measures[number]? = some measure →
      ((part.walkerAt map number).through measure).clock.segments.Follows map
        (part.scanAt number).position (part.meterAt number).span)
    (h : number ≤ part.measures.length) :
    (part.walkerAt map number).clock.startTime =
      ∑ earlier ∈ Finset.range number,
        map.writtenSeconds (part.barStart earlier) (part.meterAt earlier) := by
  induction number with
  | zero => rfl
  | succ number ih =>
      have hmeasure := List.getElem?_eq_getElem (Nat.lt_of_succ_le h)
      have hmeter := hpart.meterAt number
      have hmeasureFollows := hfollows number _ hmeasure
      have hsteady : ((part.walkerAt map number).through
          part.measures[number]).clock.Steady := by
        refine ⟨?_, ?_, hmeasureFollows.wellFormed⟩
        · rw [Walker.clock_through, map_walkerAt]
          exact hramps
        · rw [divisions_through hmeasure]
          exact hmeter.divisions_pos
      rw [startTime_succ hmeasure, Finset.sum_range_succ, ← ih (Nat.le_of_succ_le h),
        ← position_scanAt (Nat.le_of_succ_le h),
        hsteady.spanSeconds_of_follows hsorted hmeter (divisions_through hmeasure)
          hmeasureFollows]

theorem WellFormed.follows_own (hpart : part.WellFormed)
    (hapart : Apart (part.placesBy (TempoMap.ofPart part).value))
    (hmeasure : part.measures[number]? = some measure) :
    ((part.walkerAt (TempoMap.ofPart part).value number).through
      measure).clock.segments.Follows (TempoMap.ofPart part).value
        (part.scanAt number).position (part.meterAt number).span :=
  follows_through (TempoMap.sorted_ofPart part) hpart.map_pos hapart hmeasure
    (hpart.records hmeasure)

/-- The walk through a part agrees with the scan for its tempos, and without ramps the
bars stand where the tempo map and the time signatures put them: another part with
the same map and the same meters has its bars at the same times. -/
theorem walk_agrees_scan (hpart : part.WellFormed)
    (hapart : Apart (part.placesBy (TempoMap.ofPart part).value)) :
    let map := (TempoMap.ofPart part).value
    (∀ number measure, part.measures[number]? = some measure →
      let walker := part.walkerAt map number
      let walked := walker.through measure
      walker.clock.startPosition = (part.scanAt number).position ∧
        ∀ offset, 0 ≤ offset → offset < walked.meter.span →
          walked.clock.segments.tempoAt? offset =
            some (map.tempoAt (walker.clock.startPosition + offset))) ∧
      (map.ramps = [] →
        (∀ number ≤ part.measures.length,
          (part.walkerAt map number).clock.startTime =
            ∑ earlier ∈ Finset.range number,
              map.writtenSeconds (part.barStart earlier) (part.meterAt earlier)) ∧
        ∀ other : Part ℚ, other.WellFormed → (TempoMap.ofPart other).value = map →
          other.measures.length = part.measures.length →
          (∀ number < part.measures.length, other.meterAt number = part.meterAt number) →
          ∀ number ≤ part.measures.length,
            (other.walkerAt map number).clock.startTime =
              (part.walkerAt map number).clock.startTime) := by
  intro map
  have htimes : map.ramps = [] → ∀ number ≤ part.measures.length,
      (part.walkerAt map number).clock.startTime =
        ∑ earlier ∈ Finset.range number,
          map.writtenSeconds (part.barStart earlier) (part.meterAt earlier) :=
    fun hramps number h => startTime_of_follows hpart hramps (TempoMap.sorted_ofPart part)
      (fun _ _ hmeasure => hpart.follows_own hapart hmeasure) h
  refine ⟨?_, fun hramps => ⟨htimes hramps, ?_⟩⟩
  · intro number measure hmeasure walker walked
    have hposition := startPosition_walkerAt part map number
    refine ⟨hposition, fun offset hoffset hspan => ?_⟩
    rw [hposition]
    apply (hpart.follows_own hapart hmeasure).tempoAt? offset hoffset
    rwa [← meter_through hmeasure]
  · intro other hother hmap hlength hmeters number h
    have hstarts : ∀ number ≤ part.measures.length,
        other.barStart number = part.barStart number := fun number h =>
      Finset.sum_congr rfl fun earlier hearlier => by
        rw [hmeters earlier ((Finset.mem_range.mp hearlier).trans_le h)]
    have hplaces : other.placesBy map = part.placesBy map := by
      unfold placesBy
      rw [hlength]
      congr 1
      apply List.map_congr_left
      exact fun number hnumber => hstarts number (List.mem_range.mp hnumber).le
    have hotherApart : Apart (other.placesBy (TempoMap.ofPart other).value) := by
      rw [hmap, hplaces]
      exact hapart
    have hotherTime := startTime_of_follows hother hramps (TempoMap.sorted_ofPart part)
      (fun _ _ hmeasure => hmap ▸ hother.follows_own hotherApart hmeasure) (hlength ▸ h)
    rw [hotherTime, htimes hramps number h]
    apply Finset.sum_congr rfl
    intro earlier hearlier
    have hlt := (Finset.mem_range.mp hearlier).trans_le h
    rw [hstarts earlier hlt.le, hmeters earlier hlt]

end Part

/-- Two bars of three quarters. The first one is overfull, so that its second tempo lies
in the other bar, which states two more and goes back between them. -/
def overfullBars : Part ℚ where
  id := "P1"
  measures := [
    { number := "1"
      attributes := ⟨some 2, some ⟨3, 4⟩, none⟩
      elements := [.direction ⟨[], some 60⟩, .forward 8, .direction ⟨[], some 90⟩] },
    { number := "2"
      attributes := .none
      elements := [
        .forward 4, .direction ⟨[], some 30⟩, .backup 3, .direction ⟨[], some 45⟩] }]

private theorem ofPart_overfullBars : (TempoMap.ofPart overfullBars).value =
    ⟨[⟨0, 60⟩, ⟨7, 45⟩, ⟨8, 90⟩, ⟨10, 30⟩], []⟩ := by cbv

theorem walk_agrees_scan_overfullBars :
    overfullBars.WellFormed ∧
      Apart (overfullBars.placesBy (TempoMap.ofPart overfullBars).value) ∧
      (overfullBars.walkerAt (TempoMap.ofPart overfullBars).value 2).clock.startTime =
        41 / 6 := by
  have hpart : overfullBars.WellFormed := by decide
  have hapart : Apart (overfullBars.placesBy (TempoMap.ofPart overfullBars).value) := by
    rw [ofPart_overfullBars]
    decide +kernel
  have hramps : (TempoMap.ofPart overfullBars).value.ramps = [] := by
    rw [ofPart_overfullBars]
  refine ⟨hpart, hapart, ?_⟩
  rw [((Part.walk_agrees_scan hpart hapart).2 hramps).1 2 (by decide), ofPart_overfullBars]
  decide +kernel

end Rubato
