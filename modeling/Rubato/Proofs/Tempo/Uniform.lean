import Rubato.Proofs.Tempo.Stepping

namespace Rubato

structure TempoMap.OneTempo (map : TempoMap ℚ) (bpm : ℚ) : Prop where
  start : map.tempoAt 0 = bpm
  events : ∀ event ∈ map.events, event.bpm = bpm
  ramps : ∀ ramp ∈ map.ramps, ramp.startTempo = bpm ∧ ramp.endTempo = bpm

theorem TempoMap.tempoAt_of_one_tempo {map : TempoMap ℚ} {bpm : ℚ}
    (hevents : ∀ event ∈ map.events, event.bpm = bpm) (hstart : map.tempoAt 0 = bpm)
    {position : ℚ} (hposition : 0 ≤ position) : map.tempoAt position = bpm := by
  unfold TempoMap.tempoAt at hstart ⊢
  cases hlast :
      (map.events.takeWhile fun event => decide (event.position ≤ position)).getLast? with
  | some event =>
      exact hevents event (List.takeWhile_sublist _ |>.subset (List.mem_of_getLast? hlast))
  | none =>
      -- No event stands up to the position, so none stands up to the start either.
      have hnone : (map.events.takeWhile fun event => decide (event.position ≤ 0)) = [] := by
        rw [List.getLast?_eq_none_iff] at hlast
        cases hmap : map.events with
        | nil => rfl
        | cons first rest =>
            rw [hmap] at hlast
            have hbehind : ¬first.position ≤ position := by
              intro hle
              rw [List.takeWhile_cons_of_pos (by simpa using hle)] at hlast
              cases hlast
            exact List.takeWhile_cons_of_neg
              (by simpa using hposition.trans_lt (not_le.mp hbehind))
      rw [hnone] at hstart
      exact hstart

namespace TempoMap.OneTempo

variable {map : TempoMap ℚ} {bpm : ℚ} (hmap : map.OneTempo bpm)

include hmap

theorem tempoAt_eq {position : ℚ} (hposition : 0 ≤ position) : map.tempoAt position = bpm :=
  TempoMap.tempoAt_of_one_tempo hmap.events hmap.start hposition

theorem localTempo_eq (position : ℚ) : map.localTempo position bpm = bpm :=
  map.localTempo_mem (convex_singleton bpm) hmap.ramps position rfl

theorem seconds_eq (start : ℚ) {count divisions : ℚ} (hbpm : 0 < bpm) (hcount : 0 < count)
    (hdivisions : 0 < divisions) :
    map.seconds start count bpm divisions = count * 60 / (bpm * divisions) := by
  have hone : ∀ step : ℕ, map.stepSeconds start bpm divisions step = 60 / (bpm * divisions) := by
    intro step
    rw [stepSeconds, hmap.localTempo_eq]
  rw [seconds_eq_sum hbpm hdivisions start (le_refl ⌈count⌉₊),
    sum_steps_of_constant hcount.le fun step _ => hone step, mul_div_assoc]

end TempoMap.OneTempo

structure TempoScan.ForcedTo (scan : TempoScan ℚ) (bpm : ℚ) (forced : TempoScan ℚ) : Prop where
  tempo : forced.tempo = bpm
  starts : ∃ event ∈ forced.events, event.position = 0
  events : ∀ event ∈ forced.events, event.bpm = bpm
  isSome_opened : forced.opened.isSome = scan.opened.isSome
  opened : ∀ ramp ∈ forced.opened, ramp.tempo = bpm
  ramps : ∀ ramp ∈ forced.ramps, ramp.startTempo = bpm ∧ ramp.endTempo = bpm

namespace TempoScan.ForcedTo

variable {scan forced : TempoScan ℚ} {bpm : ℚ}

theorem close (h : scan.ForcedTo bpm forced) (position endTempo other : ℚ) :
    (scan.close position endTempo).ForcedTo bpm (forced.close other bpm) := by
  refine ⟨h.tempo, h.starts, h.events, rfl, fun ramp hramp => (by cases hramp), ?_⟩
  intro ramp hramp
  rcases List.mem_append.mp hramp with hold | hnew
  · exact h.ramps ramp hold
  · obtain ⟨opened, hopened, hclosed⟩ := Option.bind_eq_some_iff.mp (Option.mem_toList.mp hnew)
    obtain ⟨-, rfl⟩ := OpenRamp.eq_of_closed? hclosed
    exact ⟨h.opened opened hopened, rfl⟩

theorem setTempo (h : scan.ForcedTo bpm forced) (position stated other : ℚ) :
    (scan.setTempo position stated).ForcedTo bpm (forced.setTempo other bpm) := by
  have hstated : TempoScan.ForcedTo
      { scan with tempo := stated, events := scan.events ++ [⟨position, stated⟩] } bpm
      { forced with tempo := bpm, events := forced.events ++ [⟨other, bpm⟩] } := by
    refine ⟨rfl, ?_, ?_, h.isSome_opened, h.opened, h.ramps⟩
    · obtain ⟨event, hevent, hstart⟩ := h.starts
      exact ⟨event, List.mem_append_left _ hevent, hstart⟩
    · intro event hevent
      rcases List.mem_append.mp hevent with hold | hnew
      · exact h.events event hold
      · rw [List.mem_singleton.mp hnew]
  exact hstated.close position stated other

theorem applyWords (h : scan.ForcedTo bpm forced) (position other : ℚ) (words : String) :
    (TempoScan.applyWords position scan words).ForcedTo bpm
      (TempoScan.applyWords other forced words) := by
  unfold TempoScan.applyWords
  split
  · next cue _ =>
      cases cue with
      | resume =>
          have hclosed := h.close position scan.tempo other
          rwa [← h.tempo] at hclosed ⊢
      | ramp kind =>
          have hopened := h.isSome_opened
          unfold applyCue
          -- Either both have a ramp open, which stays, or both open one here.
          cases hscan : scan.opened with
          | some ramp =>
              rw [hscan] at hopened
              obtain ⟨ramp', hramp'⟩ := Option.isSome_iff_exists.mp hopened
              simpa only [hramp'] using h
          | none =>
              rw [hscan] at hopened
              have hforced : forced.opened = none := by simpa using hopened
              simp only [hforced]
              refine ⟨h.tempo, h.starts, h.events, rfl, ?_, h.ramps⟩
              intro ramp hramp
              cases hramp
              exact h.tempo
  · exact h

theorem foldl_applyWords (words : List String) {scan forced : TempoScan ℚ}
    (h : scan.ForcedTo bpm forced) (position other : ℚ) :
    (words.foldl (TempoScan.applyWords position) scan).ForcedTo bpm
      (words.foldl (TempoScan.applyWords other) forced) := by
  induction words generalizing scan forced with
  | nil => exact h
  | cons text rest ih => exact ih (h.applyWords position other text)

theorem element (h : scan.ForcedTo bpm forced) (place other : Place ℚ)
    (element : MeasureElement ℚ) :
    (TempoScan.element (scan, place) element).1.ForcedTo bpm
      (TempoScan.element (forced, other) (element.forced bpm)).1 := by
  cases element with
  | direction mark =>
      apply foldl_applyWords mark.words
      cases mark.tempo with
      | none => exact h
      | some stated => exact h.setTempo _ stated _
  | note note => exact h
  | harmony harmony => exact h
  | backup duration => exact h
  | forward duration => exact h

theorem foldl_element (elements : List (MeasureElement ℚ)) {scan forced : TempoScan ℚ}
    (h : scan.ForcedTo bpm forced) (place other : Place ℚ) :
    (elements.foldl TempoScan.element (scan, place)).1.ForcedTo bpm
      ((elements.map (MeasureElement.forced bpm)).foldl TempoScan.element (forced, other)).1 := by
  induction elements generalizing scan forced place other with
  | nil => exact h
  | cons element rest ih => exact ih (h.element place other element) _ _

theorem measure (h : scan.ForcedTo bpm forced) (measure : Measure ℚ) :
    (scan.measure measure).ForcedTo bpm (forced.measure (measure.forced bpm)) := by
  have hentered : TempoScan.ForcedTo { scan with meter := scan.meter.update measure.attributes }
      bpm { forced with meter := forced.meter.update measure.attributes } :=
    ⟨h.tempo, h.starts, h.events, h.isSome_opened, h.opened, h.ramps⟩
  have hwalked := foldl_element measure.elements hentered Place.start Place.start
  exact ⟨hwalked.tempo, hwalked.starts, hwalked.events, hwalked.isSome_opened, hwalked.opened,
    hwalked.ramps⟩

theorem foldl_measure (measures : List (Measure ℚ)) {scan forced : TempoScan ℚ}
    (h : scan.ForcedTo bpm forced) :
    (measures.foldl TempoScan.measure scan).ForcedTo bpm
      ((measures.map (Measure.forced bpm)).foldl TempoScan.measure forced) := by
  induction measures generalizing scan forced with
  | nil => exact h
  | cons measure rest ih => exact ih (h.measure measure)

theorem first_measure (bpm : ℚ) (first : Measure ℚ) :
    (TempoScan.initial.measure first).ForcedTo bpm
      (TempoScan.initial.measure
        ((first.forced bpm).addFront (.direction ⟨[], some bpm⟩))) := by
  -- The relation does not hold at the start: the default tempo is in force until the front.
  let entered : TempoScan ℚ :=
    { TempoScan.initial with meter := Meter.initial.update first.attributes }
  have hstated : entered.ForcedTo bpm (entered.setTempo (0 + 0) bpm) := by
    refine ⟨rfl, ⟨⟨0 + 0, bpm⟩, List.mem_singleton_self _, add_zero 0⟩, ?_, rfl, ?_, ?_⟩
    · exact fun event hevent => congrArg TempoEvent.bpm (List.mem_singleton.mp hevent)
    · exact fun ramp hramp => by cases hramp
    · exact fun ramp hramp => by cases hramp
  have hwalked := foldl_element first.elements hstated Place.start Place.start
  exact ⟨hwalked.tempo, hwalked.starts, hwalked.events, hwalked.isSome_opened, hwalked.opened,
    hwalked.ramps⟩

end TempoScan.ForcedTo

namespace Part

theorem forcedTo_scan {part : Part ℚ} (hmeasures : part.measures ≠ []) (bpm : ℚ) :
    (part.scanAt part.measures.length).ForcedTo bpm
      ((part.forced bpm).scanAt (part.forced bpm).measures.length) := by
  unfold Part.scanAt
  rw [List.take_length, List.take_length]
  unfold Part.forced
  cases hpart : part.measures with
  | nil => exact absurd hpart hmeasures
  | cons first rest =>
      exact TempoScan.ForcedTo.foldl_measure rest (TempoScan.ForcedTo.first_measure bpm first)

/-- The map of a part with a forced tempo has no other tempo, if none of the ramps of the part
is left open: such a ramp would be closed at a tempo of its own. -/
theorem oneTempo_forced {part : Part ℚ} (hmeasures : part.measures ≠ [])
    (hclosed : (part.scanAt part.measures.length).opened = none) (bpm : ℚ) :
    (TempoMap.ofPart (part.forced bpm)).value.OneTempo bpm := by
  have hscan := part.forcedTo_scan hmeasures bpm
  have hopened : ((part.forced bpm).scanAt (part.forced bpm).measures.length).opened = none := by
    have hsame := hscan.isSome_opened
    rw [hclosed] at hsame
    simpa using hsame
  have hramps : (TempoMap.ofPart (part.forced bpm)).value.ramps =
      ((part.forced bpm).scanAt (part.forced bpm).measures.length).ramps := by
    rw [TempoMap.ofPart_eq, TempoScan.finish, hopened]
    rfl
  have hevents : ∀ event ∈ (TempoMap.ofPart (part.forced bpm)).value.events, event.bpm = bpm :=
    fun event hevent => hscan.events event (TempoMap.mem_events_ofPart.mp hevent)
  refine ⟨?_, hevents, ?_⟩
  · obtain ⟨event, hevent, hstart⟩ := hscan.starts
    obtain ⟨last, hlast, htempo⟩ := (TempoMap.sorted_ofPart _).exists_tempoAt_eq
      (TempoMap.mem_events_ofPart.mpr hevent) hstart.le
    rw [htempo]
    exact hevents last hlast
  · rw [hramps]
    exact hscan.ramps

end Part

end Rubato
