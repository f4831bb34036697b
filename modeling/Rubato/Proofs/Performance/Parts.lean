import Rubato.Proofs.Performance.Agreement
import Rubato.Proofs.Performance.Elapsed
import Rubato.Proofs.Tempo.Uniform

namespace Rubato

/-! All parts are timed by the map of the first one, which counts positions in the divisions
of that part, while every part counts its own. -/

/-- The seconds that the walk through a part spends in a measure. -/
def Part.barSeconds (part : Part ℚ) (map : TempoMap ℚ) (number : Nat) : ℚ :=
  (part.walkerAt map (number + 1)).clock.startTime - (part.walkerAt map number).clock.startTime

theorem Part.startTime_eq_sum (part : Part ℚ) (map : TempoMap ℚ) (number : Nat) :
    (part.walkerAt map number).clock.startTime =
      ∑ earlier ∈ Finset.range number, part.barSeconds map earlier := by
  unfold barSeconds
  rw [Finset.sum_range_sub fun number => (part.walkerAt map number).clock.startTime]
  exact (sub_zero _).symm

/-- Parts of equally many measures with the same time signatures, each with divisions of
its own. Only the first part states tempos, and no words ask for a ramp. -/
structure Score.Parallel (score : Score ℚ) : Prop where
  lengths : ∀ first ∈ score.parts, ∀ second ∈ score.parts,
    first.measures.length = second.measures.length
  times : ∀ first ∈ score.parts, ∀ second ∈ score.parts,
    ∀ number < first.measures.length, (first.meterAt number).time = (second.meterAt number).time
  untimed : ∀ part ∈ score.parts.tail, ∀ measure ∈ part.measures,
    ∀ element ∈ measure.elements, element.tempo? = none
  rampless : ∀ part ∈ score.parts, ∀ measure ∈ part.measures,
    ∀ element ∈ measure.elements, element.Rampless

/-- The measures of one number start at the same second in all parts. -/
def Score.BarsTogether (score : Score ℚ) : Prop :=
  ∀ first ∈ score.parts, ∀ second ∈ score.parts, ∀ number < first.measures.length,
    (first.walkerAt (score.tempoMap 0).value number).clock.startTime =
      (second.walkerAt (score.tempoMap 0).value number).clock.startTime

theorem Place.tempos_eq_nil {place : Place ℚ} {elements : List (MeasureElement ℚ)}
    (h : ∀ element ∈ elements, element.tempo? = none) : place.tempos elements = [] := by
  induction elements generalizing place with
  | nil => rfl
  | cons element rest ih =>
      rw [tempos_cons, h element List.mem_cons_self,
        ih fun other hother => h other (List.mem_cons_of_mem element hother)]
      rfl

namespace Score

variable {score : Score ℚ} {part : Part ℚ} {measure : Measure ℚ} {number : Nat}

theorem Parallel.own_or_untimed (hparallel : score.Parallel) (hpart : part ∈ score.parts) :
    (score.tempoMap 0).value = (TempoMap.ofPart part).value ∨
      ∀ measure ∈ part.measures, measure.tempos = [] := by
  have huntimed := hparallel.untimed
  unfold Score.tempoMap
  cases hparts : score.parts with
  | nil =>
      rw [hparts] at hpart
      cases hpart
  | cons first rest =>
      rw [hparts] at hpart huntimed
      rcases List.mem_cons.mp hpart with rfl | hrest
      · exact .inl rfl
      · exact .inr fun measure hmeasure =>
          Place.tempos_eq_nil (huntimed part hrest measure hmeasure)

theorem Parallel.no_ramps (hparallel : score.Parallel) :
    (score.tempoMap 0).value.ramps = [] := by
  unfold Score.tempoMap
  split
  · next part hpart =>
      exact TempoMap.ramps_ofPart (hparallel.rampless part (List.mem_of_getElem? hpart))
  · rfl

theorem Parallel.records (hparallel : score.Parallel) (hscore : score.WellFormed)
    (hpart : part ∈ score.parts) (hmeasure : part.measures[number]? = some measure) :
    (score.tempoMap 0).value.Records (part.scanAt number).position
      (part.meterAt number).span measure.tempos := by
  rcases hparallel.own_or_untimed hpart with hown | huntimed
  · rw [hown]
    exact (hscore part hpart).records hmeasure
  · rw [huntimed measure (List.mem_of_getElem? hmeasure)]
    exact TempoMap.records_nil _ _ _

theorem Parallel.barSeconds_eq (hparallel : score.Parallel) (hscore : score.WellFormed)
    (hpart : part ∈ score.parts) (hapart : Apart (part.placesBy (score.tempoMap 0).value))
    (hnumber : number < part.measures.length) :
    part.barSeconds (score.tempoMap 0).value number =
      (score.tempoMap 0).value.writtenSeconds (part.barStart number) (part.meterAt number) := by
  have hmap := hscore.tempoMap 0
  have hstart : ∀ number ≤ part.measures.length,
      (part.walkerAt (score.tempoMap 0).value number).clock.startTime =
        ∑ earlier ∈ Finset.range number, (score.tempoMap 0).value.writtenSeconds
          (part.barStart earlier) (part.meterAt earlier) :=
    fun number h => Part.startTime_of_follows (hscore part hpart) hparallel.no_ramps hmap.sorted
      (fun _ _ hmeasure => Part.follows_through hmap.sorted hmap.tempos_pos hapart hmeasure
        (hparallel.records hscore hpart hmeasure)) h
  unfold Part.barSeconds
  rw [hstart (number + 1) hnumber, hstart number hnumber.le, Finset.sum_range_succ]
  exact add_sub_cancel_left _ _

end Score

section OneTempo

variable {bpm : ℚ}

theorem TempoSegments.bpm_of_setAll {segments tempos : TempoSegments ℚ}
    (hsegments : ∀ segment ∈ segments, segment.bpm = bpm)
    (htempos : ∀ tempo ∈ tempos, tempo.bpm = bpm) :
    ∀ segment ∈ segments.setAll tempos, segment.bpm = bpm := by
  induction tempos generalizing segments with
  | nil => exact hsegments
  | cons tempo rest ih =>
      refine ih ?_ fun other hother => htempos other (List.mem_cons_of_mem tempo hother)
      intro segment hsegment
      rcases mem_set hsegment with hold | ⟨hnew, _⟩
      · exact hsegments segment hold
      · exact hnew.trans (htempos tempo List.mem_cons_self)

theorem Clock.bpm_of_seededSegments {clock : Clock ℚ}
    (hstart : clock.map.tempoAt clock.startPosition = bpm)
    (hevents : ∀ event ∈ clock.map.events, event.bpm = bpm) (span : ℚ) :
    ∀ segment ∈ clock.seededSegments span, segment.bpm = bpm := by
  rw [Clock.seededSegments_eq]
  apply TempoSegments.bpm_of_setAll
  · intro segment hsegment
    rw [List.mem_singleton.mp hsegment]
    exact hstart
  · intro segment hsegment
    obtain ⟨event, hevent, _, rfl⟩ := TempoMap.mem_inside.mp hsegment
    exact hevents event hevent

end OneTempo

theorem Part.barStart_nonneg {part : Part ℚ} (hpart : part.WellFormed) (number : Nat) :
    0 ≤ part.barStart number :=
  Finset.sum_nonneg fun earlier _ => (hpart.meterAt earlier).span_pos.le

namespace Score

variable {score : Score ℚ} {part : Part ℚ} {number : Nat}

theorem Parallel.bpm_of_one_tempo (hparallel : score.Parallel) (hscore : score.WellFormed)
    {bpm : ℚ} (hevents : ∀ event ∈ (score.tempoMap 0).value.events, event.bpm = bpm)
    (hstart : (score.tempoMap 0).value.tempoAt 0 = bpm) (hpart : part ∈ score.parts)
    (hnumber : number < part.measures.length) :
    ∀ segment ∈ ((part.walkerAt (score.tempoMap 0).value number).through
      part.measures[number]).clock.segments, segment.bpm = bpm := by
  have hrecords := hparallel.records hscore hpart (List.getElem?_eq_getElem hnumber)
  rw [Walker.clock_through]
  apply TempoSegments.bpm_of_setAll
  · apply Clock.bpm_of_seededSegments
    · rw [Part.map_walkerAt, Part.startPosition_walkerAt]
      apply TempoMap.tempoAt_of_one_tempo hevents hstart
      rw [Part.position_scanAt hnumber.le]
      exact Part.barStart_nonneg (hscore part hpart) number
    · rw [Part.map_walkerAt]
      exact hevents
  · exact fun tempo htempo => hevents _ (hrecords.mem tempo htempo)

theorem Parallel.barSeconds_of_one_tempo (hparallel : score.Parallel)
    (hscore : score.WellFormed) {bpm : ℚ}
    (hevents : ∀ event ∈ (score.tempoMap 0).value.events, event.bpm = bpm)
    (hstart : (score.tempoMap 0).value.tempoAt 0 = bpm) (hpart : part ∈ score.parts)
    (hnumber : number < part.measures.length) :
    part.barSeconds (score.tempoMap 0).value number =
      (part.meterAt number).time.beats * (4 / (part.meterAt number).time.beatType) *
        (60 / bpm) := by
  have hmap := hscore.tempoMap 0
  have hmeasure := List.getElem?_eq_getElem hnumber
  have hmeter := (hscore part hpart).meterAt number
  have hdivisions : ((part.meterAt number).divisions : ℚ) ≠ 0 :=
    (Nat.cast_pos.mpr hmeter.divisions_pos).ne'
  have hclock := ((hscore part hpart).grounded_walkerAt hmap number).through
    (hscore part hpart _ (List.getElem_mem hnumber)) |>.clock
  have hramps : ((part.walkerAt (score.tempoMap 0).value number).through
      part.measures[number]).clock.map.ramps = [] := by
    rw [Walker.clock_through, Part.map_walkerAt]
    exact hparallel.no_ramps
  have heven : Clock.EvenOn _ 0 (part.meterAt number).span :=
    hclock.evenOn (TempoMap.isSteady_of_no_ramps hramps _ _)
  have hbpm := hparallel.bpm_of_one_tempo hscore hevents hstart hpart hnumber
  have hseconds := heven.spanSeconds_of_one_tempo hclock.segments hbpm le_rfl hmeter.span_pos.le
    (zero_add _).le
  rw [Part.divisions_through hmeasure] at hseconds
  unfold Part.barSeconds
  rw [Part.startTime_succ hmeasure, add_sub_cancel_left, hseconds, Meter.span_eq]
  field_simp

end Score

theorem Meter.span_congr {first second : Meter} (htime : first.time = second.time)
    (hdivisions : first.divisions = second.divisions) :
    (first.span : ℚ) = second.span := by
  rw [Meter.span_eq, Meter.span_eq, htime, hdivisions]

theorem TempoMap.writtenSeconds_congr (map : TempoMap ℚ) {start : ℚ} {first second : Meter}
    (htime : first.time = second.time) (hdivisions : first.divisions = second.divisions) :
    map.writtenSeconds start first = map.writtenSeconds start second := by
  unfold writtenSeconds
  rw [Meter.span_congr htime hdivisions, hdivisions]

namespace Score

variable {score : Score ℚ}

theorem barsTogether_iff_barSeconds (score : Score ℚ) :
    score.BarsTogether ↔
      ∀ first ∈ score.parts, ∀ second ∈ score.parts,
        ∀ number, number + 1 < first.measures.length →
          first.barSeconds (score.tempoMap 0).value number =
            second.barSeconds (score.tempoMap 0).value number := by
  constructor
  · intro htogether first hfirst second hsecond number hnumber
    unfold Part.barSeconds
    rw [htogether first hfirst second hsecond (number + 1) hnumber,
      htogether first hfirst second hsecond number (Nat.lt_of_succ_lt hnumber)]
  · intro hseconds first hfirst second hsecond number hnumber
    rw [Part.startTime_eq_sum, Part.startTime_eq_sum]
    apply Finset.sum_congr rfl
    intro earlier hearlier
    exact hseconds first hfirst second hsecond earlier
      ((Nat.succ_le_of_lt (Finset.mem_range.mp hearlier)).trans_lt hnumber)

theorem Parallel.barStart_eq (hparallel : score.Parallel)
    (hdivisions : ∀ first ∈ score.parts, ∀ second ∈ score.parts,
      ∀ number, number + 1 < first.measures.length →
        (first.meterAt number).divisions = (second.meterAt number).divisions)
    {first second : Part ℚ} (hfirst : first ∈ score.parts) (hsecond : second ∈ score.parts)
    {number : Nat} (hnumber : number < first.measures.length) :
    first.barStart number = second.barStart number := by
  apply Finset.sum_congr rfl
  intro earlier hearlier
  have hlt := (Nat.succ_le_of_lt (Finset.mem_range.mp hearlier)).trans_lt hnumber
  exact Meter.span_congr
    (hparallel.times first hfirst second hsecond earlier (Nat.lt_of_succ_lt hlt))
    (hdivisions first hfirst second hsecond earlier hlt)

/-- The bars of parallel parts begin together exactly when each takes the same time in
all parts. By the map and the meters that is the written time, taken where each part
has its bar; so the bars are together when the divisions agree, or in one tempo. -/
theorem barsTogether_iff (hscore : score.IsRead) (hparallel : score.Parallel) :
    let map := (score.tempoMap 0).value
    (score.BarsTogether ↔
        ∀ first ∈ score.parts, ∀ second ∈ score.parts,
          ∀ number, number + 1 < first.measures.length →
            first.barSeconds map number = second.barSeconds map number) ∧
      ((∀ part ∈ score.parts, Apart (part.placesBy map)) →
        (score.BarsTogether ↔
          ∀ first ∈ score.parts, ∀ second ∈ score.parts,
            ∀ number, number + 1 < first.measures.length →
              map.writtenSeconds (first.barStart number) (first.meterAt number) =
                map.writtenSeconds (second.barStart number) (second.meterAt number)) ∧
        ((∀ first ∈ score.parts, ∀ second ∈ score.parts,
            ∀ number, number + 1 < first.measures.length →
              (first.meterAt number).divisions = (second.meterAt number).divisions) →
          score.BarsTogether)) ∧
      ∀ bpm, (∀ event ∈ map.events, event.bpm = bpm) → map.tempoAt 0 = bpm →
        score.BarsTogether := by
  intro map
  have hwell := hscore.wellFormed
  have htogether := score.barsTogether_iff_barSeconds
  have hlength : ∀ first ∈ score.parts, ∀ second ∈ score.parts, ∀ number,
      number + 1 < first.measures.length → number < second.measures.length :=
    fun first hfirst second hsecond number hnumber =>
      hparallel.lengths first hfirst second hsecond ▸ Nat.lt_of_succ_lt hnumber
  refine ⟨htogether, fun hapart => ?_, fun bpm hevents hstart => ?_⟩
  · have hwritten : score.BarsTogether ↔
        ∀ first ∈ score.parts, ∀ second ∈ score.parts,
          ∀ number, number + 1 < first.measures.length →
            map.writtenSeconds (first.barStart number) (first.meterAt number) =
              map.writtenSeconds (second.barStart number) (second.meterAt number) := by
      rw [htogether]
      refine forall₂_congr fun first hfirst => forall₂_congr fun second hsecond =>
        forall₂_congr fun number hnumber => ?_
      rw [hparallel.barSeconds_eq hwell hfirst (hapart first hfirst)
          (hlength first hfirst first hfirst number hnumber),
        hparallel.barSeconds_eq hwell hsecond (hapart second hsecond)
          (hlength first hfirst second hsecond number hnumber)]
    refine ⟨hwritten, fun hdivisions => hwritten.mpr ?_⟩
    intro first hfirst second hsecond number hnumber
    rw [hparallel.barStart_eq hdivisions hfirst hsecond (Nat.lt_of_succ_lt hnumber)]
    exact map.writtenSeconds_congr
      (hparallel.times first hfirst second hsecond number (Nat.lt_of_succ_lt hnumber))
      (hdivisions first hfirst second hsecond number hnumber)
  · rw [htogether]
    intro first hfirst second hsecond number hnumber
    rw [hparallel.barSeconds_of_one_tempo hwell hevents hstart hfirst
        (hlength first hfirst first hfirst number hnumber),
      hparallel.barSeconds_of_one_tempo hwell hevents hstart hsecond
        (hlength first hfirst second hsecond number hnumber),
      hparallel.times first hfirst second hsecond number (Nat.lt_of_succ_lt hnumber)]

end Score

/-- Two parts of two bars. The first one states a tempo in each bar, the second one the
divisions that it counts in. -/
def twoParts (tempo : ℚ) (divisions : Nat) : Score ℚ where
  parts := [
    ⟨"P1", [
      ⟨"1", .none, [.direction ⟨[], some 60⟩]⟩,
      ⟨"2", .none, [.direction ⟨[], some tempo⟩, .note (.plain (some ⟨.c, 0, 4⟩) 0)]⟩]⟩,
    ⟨"P2", [
      ⟨"1", ⟨some divisions, none, none⟩, []⟩,
      ⟨"2", .none, [.note (.plain (some ⟨.c, 0, 5⟩) 0)]⟩]⟩]

section Text

open Markup (tagged)

private def tempoText (tempo : String) : List Char :=
  tagged "sound" [" tempo=", "\"", tempo, "\""] []

private def noteText (octave : Char) : List Char :=
  tagged "note" [] [tagged "pitch" [] [
    tagged "step" [] [['C']], tagged "octave" [] [[octave]]]]

private def twoPartsText (tempo : String) (divisions : Char) : List Char :=
  tagged "score-partwise" [] [
    tagged "part" [" id=", "\"P1\""] [
      tagged "measure" [" number=", "\"1\""] [tempoText "60"],
      tagged "measure" [" number=", "\"2\""] [tempoText tempo, noteText '4']],
    tagged "part" [" id=", "\"P2\""] [
      tagged "measure" [" number=", "\"1\""] [
        tagged "attributes" [] [tagged "divisions" [] [[divisions]]]],
      tagged "measure" [" number=", "\"2\""] [noteText '5']]]

end Text

private theorem tempoMap_twoParts (tempo : ℚ) (divisions : Nat) :
    ((twoParts tempo divisions).tempoMap 0).value = ⟨[⟨0, 60⟩, ⟨4, tempo⟩], []⟩ := by
  cbv

private theorem parallel_twoParts (tempo : ℚ) (divisions : Nat) :
    (twoParts tempo divisions).Parallel := by
  constructor
  · simp [twoParts]
  · intro first hfirst second hsecond number hnumber
    have hnumber : number < 2 := by
      rcases List.mem_pair.mp hfirst with rfl | rfl <;> exact hnumber
    rcases List.mem_pair.mp hfirst with rfl | rfl <;>
      rcases List.mem_pair.mp hsecond with rfl | rfl <;> interval_cases number <;> rfl
  · simp [twoParts, MeasureElement.tempo?]
  · simp [twoParts, MeasureElement.Rampless, MeasureElement.words]

/-- The first bar of the second part has eight divisions: by the map half of it lies
behind the change of tempo. -/
theorem not_barsTogether_twoParts :
    (twoParts 120 2).IsRead ∧ (twoParts 120 2).Parallel ∧ ¬(twoParts 120 2).BarsTogether := by
  have hread : (twoParts 120 2).IsRead :=
    Score.isRead_of_characters (twoPartsText "120" '2') (by decide +kernel)
  refine ⟨hread, parallel_twoParts 120 2, fun htogether => ?_⟩
  unfold Score.BarsTogether at htogether
  rw [tempoMap_twoParts] at htogether
  revert htogether
  decide +kernel

theorem barsTogether_iff_twoParts :
    ((twoParts 120 1).IsRead ∧ (twoParts 120 1).Parallel ∧ (twoParts 120 1).BarsTogether) ∧
      (twoParts 60 2).IsRead ∧ (twoParts 60 2).Parallel ∧ (twoParts 60 2).BarsTogether := by
  have hdivisions : (twoParts 120 1).IsRead :=
    Score.isRead_of_characters (twoPartsText "120" '1') (by decide +kernel)
  have htempo : (twoParts 60 2).IsRead :=
    Score.isRead_of_characters (twoPartsText "60" '2') (by decide +kernel)
  refine ⟨⟨hdivisions, parallel_twoParts 120 1, ?_⟩, htempo, parallel_twoParts 60 2, ?_⟩
  · refine ((Score.barsTogether_iff hdivisions (parallel_twoParts 120 1)).2.1 ?_).2 ?_
    · rw [tempoMap_twoParts]
      decide +kernel
    · intro first hfirst second hsecond number hnumber
      have hzero : number = 0 := by
        rcases List.mem_pair.mp hfirst with rfl | rfl <;>
          exact Nat.lt_one_iff.mp (Nat.lt_of_succ_lt_succ hnumber)
      subst hzero
      rcases List.mem_pair.mp hfirst with rfl | rfl <;>
        rcases List.mem_pair.mp hsecond with rfl | rfl <;> rfl
  · refine (Score.barsTogether_iff htempo (parallel_twoParts 60 2)).2.2 60 ?_ ?_
    · rw [tempoMap_twoParts]
      decide
    · rw [tempoMap_twoParts]
      decide +kernel

end Rubato
