import Rubato.Proofs.Tiling
import Rubato.Proofs.Performance.Steady
import Rubato.Proofs.Tempo.Stepping

namespace Rubato

/-! From the start of a measure on, time never runs backwards. Before it the first tempo of
the measure counts, which reaches back evenly without ramps. -/

structure Clock.WellFormed (clock : Clock ℚ) : Prop where
  map : clock.map.WellFormed
  startTime_nonneg : 0 ≤ clock.startTime
  divisions_pos : 0 < clock.divisions
  segments : clock.segments.WellFormed

namespace Clock.WellFormed

variable {clock : Clock ℚ}

theorem steady (hclock : clock.WellFormed) (hramps : clock.map.ramps = []) : clock.Steady :=
  ⟨hramps, hclock.divisions_pos, hclock.segments⟩

theorem secondsIn_mono (hclock : clock.WellFormed) (segment : TempoSegment ℚ) (start : ℚ)
    {stop later : ℚ} (h : stop ≤ later) :
    clock.secondsIn segment start stop ≤ clock.secondsIn segment start later :=
  hclock.map.seconds_mono _ (sub_le_sub_right h start)

theorem laterSeconds_mono (hclock : clock.WellFormed) (offset : ℚ) {stop later : ℚ}
    (h : stop ≤ later) (segments : TempoSegments ℚ) :
    clock.laterSeconds offset stop segments ≤ clock.laterSeconds offset later segments := by
  induction segments with
  | nil => exact le_rfl
  | cons segment rest ih =>
      exact add_le_add (hclock.secondsIn_mono segment _ (Stretch.endBefore_mono h rest)) ih

theorem spanSeconds_mono (hclock : clock.WellFormed) (offset : ℚ) {length longer : ℚ}
    (h : length ≤ longer) : clock.spanSeconds offset length ≤ clock.spanSeconds offset longer := by
  have hstop : offset + length ≤ offset + longer := add_le_add_right h offset
  rw [clock.spanSeconds_eq, clock.spanSeconds_eq]
  cases clock.segments with
  | nil => exact le_rfl
  | cons head rest =>
      exact add_le_add (hclock.secondsIn_mono head offset (Stretch.endBefore_mono hstop rest))
        (hclock.laterSeconds_mono offset hstop rest)

theorem spanSeconds_nonneg (hclock : clock.WellFormed) (offset length : ℚ) :
    0 ≤ clock.spanSeconds offset length := by
  have hnone : clock.spanSeconds offset (min 0 length) = 0 :=
    spanSeconds_of_nonpos (min_le_left 0 length)
  exact hnone ▸ hclock.spanSeconds_mono offset (min_le_right 0 length)

theorem timeAt_nonneg (hclock : clock.WellFormed) {offset : ℚ} (hoffset : 0 ≤ offset) :
    0 ≤ clock.timeAt offset := by
  unfold Clock.timeAt
  rw [if_pos hoffset]
  exact add_nonneg hclock.startTime_nonneg (hclock.spanSeconds_nonneg 0 offset)

theorem ornamentUnit_nonneg (hclock : clock.WellFormed) : 0 ≤ clock.ornamentUnit :=
  div_nonneg (Nat.cast_pos.mpr hclock.divisions_pos).le (Nat.cast_nonneg 8)

theorem setTempo (hclock : clock.WellFormed) {offset bpm : ℚ} (hoffset : 0 ≤ offset)
    (hbpm : 0 < bpm) : (clock.setTempo offset bpm).WellFormed :=
  ⟨hclock.map, hclock.startTime_nonneg, hclock.divisions_pos,
    hclock.segments.set hoffset hbpm⟩

theorem enter (hclock : clock.WellFormed) {divisions : Nat} (hdivisions : 0 < divisions)
    (span : ℚ) : (clock.enter divisions span).WellFormed := by
  refine ⟨hclock.map, hclock.startTime_nonneg, hdivisions, ?_⟩
  show (clock.seededSegments span).WellFormed
  rw [Clock.seededSegments_eq]
  apply (TempoSegments.wellFormed_singleton
    (TempoMap.tempoAt_pos hclock.map.tempos_pos clock.startPosition)).setAll
  intro segment hsegment
  obtain ⟨event, hevent, ⟨hbehind, _⟩, rfl⟩ := TempoMap.mem_inside.mp hsegment
  exact ⟨(sub_pos.mpr hbehind).le, hclock.map.tempos_pos event hevent⟩

theorem leave (hclock : clock.WellFormed) (span : ℚ) : (clock.leave span).WellFormed :=
  ⟨hclock.map, add_nonneg hclock.startTime_nonneg (hclock.spanSeconds_nonneg 0 span),
    hclock.divisions_pos, hclock.segments⟩

end Clock.WellFormed

theorem Clock.wellFormed_initial {map : TempoMap ℚ} (hmap : map.WellFormed) :
    (Clock.initial map).WellFormed :=
  ⟨hmap, le_rfl, one_pos, TempoSegments.wellFormed_singleton (by norm_num [defaultTempo_eq])⟩

theorem Clock.Steady.timeAt_before {clock : Clock ℚ} (hclock : clock.Steady) :
    ∃ rate, 0 < rate ∧
      ∀ offset < 0, clock.timeAt offset = clock.startTime + offset * rate := by
  have hdivisions : (0 : ℚ) < clock.divisions := Nat.cast_pos.mpr hclock.divisions_pos
  have hstarts := hclock.segments.starts
  have hpositive := hclock.segments.positive
  have hsorted := hclock.segments.sorted
  cases hsegments : clock.segments with
  | nil =>
      rw [hsegments] at hstarts
      cases hstarts
  | cons head rest =>
      rw [hsegments] at hstarts hpositive hsorted
      have hhead : head.offset = 0 := by simpa using hstarts
      have hbpm := hpositive head List.mem_cons_self
      have hhere : head ∈ clock.segments := hsegments ▸ List.mem_cons_self
      have hlater : ∀ segment ∈ rest, 0 ≤ segment.offset := fun segment hsegment =>
        hhead ▸ ((List.pairwise_cons.mp hsorted).1 segment hsegment).le
      have hend : Stretch.endBefore 0 rest = 0 := by
        rw [Stretch.endBefore_eq]
        cases rest with
        | nil => rfl
        | cons next others => exact min_eq_left (hlater next List.mem_cons_self)
      refine ⟨60 / (head.bpm * clock.divisions),
        div_pos (by norm_num) (mul_pos hbpm hdivisions), fun offset hoffset => ?_⟩
      have hrest : clock.laterSeconds offset 0 rest = 0 :=
        laterSeconds_of_le fun segment hsegment =>
          (hlater segment hsegment).trans (le_max_right _ _)
      unfold Clock.timeAt
      rw [if_neg (not_le.mpr hoffset), clock.spanSeconds_eq, add_neg_cancel, hsegments,
        stretchSeconds, hrest, hend, hclock.secondsIn_eq hhere hoffset]
      simp only [Stretch.seconds]
      ring

theorem Clock.WellFormed.timeAt_nonneg_of_le {clock : Clock ℚ} (hclock : clock.WellFormed)
    (hramps : clock.map.ramps = []) {earlier later : ℚ} (hle : earlier ≤ later)
    (hearlier : 0 ≤ clock.timeAt earlier) : 0 ≤ clock.timeAt later := by
  rcases le_or_gt 0 later with hnonneg | hbefore
  · exact hclock.timeAt_nonneg hnonneg
  · obtain ⟨rate, hrate, htime⟩ := (hclock.steady hramps).timeAt_before
    rw [htime earlier (hle.trans_lt hbefore)] at hearlier
    rw [htime later hbefore]
    have hrated := mul_le_mul_of_nonneg_right hle hrate.le
    linarith

def PlayedNote.Grounded (map : TempoMap ℚ) (note : PlayedNote ℚ) : Prop :=
  note.time < 0 → note.ornamental = true ∧ map.ramps ≠ []

theorem PlayedNote.grounded_of_nonneg {map : TempoMap ℚ} {note : PlayedNote ℚ}
    (h : 0 ≤ note.time) : note.Grounded map :=
  fun hbefore => absurd h (not_le.mpr hbefore)

namespace Clock.WellFormed

variable {clock : Clock ℚ} {position : ℚ}

theorem graceRun_spec (hclock : clock.WellFormed) (note : Note) (position : ℚ)
    (graces : List GraceNote) :
    let run := clock.graceRun note position graces
    run.Fits note.duration ∧
      (run.notes = [] ∨ run.onBeat ∨ 0 ≤ clock.timeAt (position - run.stolen)) := by
  have hfits := GraceRun.fits_ofGroup graces (Nat.cast_nonneg note.duration) note.isDotted
    hclock.ornamentUnit_nonneg
  unfold Clock.graceRun
  dsimp only
  split
  · exact ⟨hfits.movedOntoBeat, .inr (.inl rfl)⟩
  · next hkept =>
      refine ⟨hfits, ?_⟩
      cases hgraces : graces.isEmpty with
      | true =>
          left
          simp [GraceRun.ofGroup, hgraces]
      | false =>
          right
          by_contra hneither
          rw [not_or, not_le] at hneither
          simp [hgraces, hneither.1, hneither.2] at hkept

theorem grounded_playGraces (hclock : clock.WellFormed) (note : Note)
    (hposition : 0 ≤ position) (graces : List GraceNote) :
    ∀ played ∈ clock.playGraces note position (clock.graceRun note position graces),
      played.Grounded clock.map := by
  obtain ⟨hfits, hguard⟩ := hclock.graceRun_spec note position graces
  generalize clock.graceRun note position graces = run at hfits hguard
  intro played hplayed
  obtain ⟨grace, hgrace, rfl⟩ := List.mem_map.mp hplayed
  have hoffset := hfits.offset_nonneg grace hgrace
  intro hbefore
  refine ⟨rfl, fun hramps => ?_⟩
  revert hbefore
  rw [imp_false, not_lt]
  rcases hguard with hnone | hbeat | hguard
  · rw [hnone] at hgrace
    cases hgrace
  · rw [if_pos hbeat]
    exact hclock.timeAt_nonneg (add_nonneg hposition hoffset)
  · cases hbeat : run.onBeat with
    | true => exact hclock.timeAt_nonneg (add_nonneg hposition hoffset)
    | false =>
        exact hclock.timeAt_nonneg_of_le hramps (le_add_of_nonneg_right hoffset) hguard

theorem grounded_playMain (hclock : clock.WellFormed) (fifths : Int) (note : Note)
    (pitch : Pitch) (hposition : 0 ≤ position) {run : GraceRun ℚ}
    (hfits : run.Fits note.duration) :
    ∀ played ∈ clock.playMain fifths note pitch position run, played.Grounded clock.map := by
  have havailable : 0 ≤ (note.duration : ℚ) - run.stolen := sub_nonneg.mpr hfits.stolen_le
  have hstart : 0 ≤ if run.onBeat then position + run.stolen else position := by
    split
    · exact add_nonneg hposition hfits.stolen_nonneg
    · exact hposition
  have hfigure : ∀ part ∈ clock.figure fifths note pitch ((note.duration : ℚ) - run.stolen),
      0 ≤ part.offset := by
    unfold Clock.figure
    split
    · next ornament _ =>
        intro part hpart
        have htiles := ornament.tiles_expand pitch.number havailable fifths
          hclock.ornamentUnit_nonneg
        exact (htiles.within part.span (List.mem_map_of_mem hpart)).1
    · intro part hpart
      rw [List.mem_singleton.mp hpart]
  intro played hplayed
  obtain ⟨part, hpart, rfl⟩ := List.mem_map.mp hplayed
  apply PlayedNote.grounded_of_nonneg
  exact hclock.timeAt_nonneg (add_nonneg hstart (hfigure part hpart))

theorem grounded_playNote (hclock : clock.WellFormed) (fifths : Int) (note : Note)
    (pitch : Pitch) (hposition : 0 ≤ position) (graces : List GraceNote) :
    ∀ played ∈ clock.playNote fifths note pitch position graces, played.Grounded clock.map := by
  intro played hplayed
  rcases List.mem_append.mp hplayed with hgrace | hmain
  · exact hclock.grounded_playGraces note hposition graces played hgrace
  · exact hclock.grounded_playMain fifths note pitch hposition
      (hclock.graceRun_spec note position graces).1 played hmain

end Clock.WellFormed

structure Walker.Grounded (walker : Walker ℚ) : Prop where
  clock : walker.clock.WellFormed
  meter : walker.meter.WellFormed
  notes : ∀ note ∈ walker.notes, note.Grounded walker.clock.map

namespace Walker.Grounded

variable {walker : Walker ℚ}

theorem begin (hwalker : walker.Grounded) (note : Note) (pitch : Pitch) (key : TieKey)
    {position : ℚ} (hposition : 0 ≤ position) (graces : List GraceNote) :
    (walker.begin note pitch key position graces).Grounded := by
  refine ⟨hwalker.clock, hwalker.meter, fun played hplayed => ?_⟩
  rcases List.mem_append.mp hplayed with hold | hnew
  · exact hwalker.notes played hold
  · exact hwalker.clock.grounded_playNote _ note pitch hposition graces played hnew

theorem extend (hwalker : walker.Grounded) (note : Note) (key : TieKey) (position : ℚ)
    (index : Nat) : (walker.extend note key position index).Grounded := by
  refine ⟨hwalker.clock, hwalker.meter, fun played hplayed => ?_⟩
  have hmem : (played.time, played.ornamental) ∈
      walker.notes.map fun note => (note.time, note.ornamental) := by
    rw [← PlayedNote.map_modify_lengthen (fun _ _ => rfl) walker.notes index]
    exact List.mem_map_of_mem hplayed
  obtain ⟨old, hold, hsame⟩ := List.mem_map.mp hmem
  obtain ⟨htime, hornamental⟩ := Prod.mk.inj hsame
  have hgrounded := hwalker.notes old hold
  unfold PlayedNote.Grounded at hgrounded
  rwa [htime, hornamental] at hgrounded

theorem place (hwalker : walker.Grounded) (note : Note) (pitch : Pitch) {position : ℚ}
    (hposition : 0 ≤ position) (graces : List GraceNote) :
    (walker.place note pitch position graces).value.Grounded := by
  unfold Walker.place
  dsimp only
  split
  · exact hwalker.begin note pitch _ hposition graces
  · exact hwalker.begin note pitch _ hposition graces
  · exact hwalker.extend note _ position _
  · exact hwalker

theorem step {walk : MeasureWalk ℚ} (hwalker : walk.walker.Grounded)
    (hplace : walk.place.Nonneg) {element : MeasureElement ℚ}
    (helement : ∀ bpm ∈ element.tempo?, 0 < bpm) :
    (walk.step element).value.walker.Grounded := by
  simp only [MeasureWalk.step, Noted.value_bind, Noted.value_pure, MeasureWalk.walkerAfter]
  cases element with
  | direction mark =>
      simp only [MeasureWalk.direction, Noted.value_pure]
      split
      · next bpm hbpm =>
          exact ⟨hwalker.clock.setTempo hplace.cursor (helement bpm hbpm), hwalker.meter,
            hwalker.notes⟩
      · exact hwalker
  | note note =>
      dsimp only
      split
      · exact hwalker
      · split
        · next pitch _ => exact hwalker.place note pitch (hplace.onset note) walk.graces
        · exact hwalker
  | harmony harmony => exact hwalker
  | backup duration => exact hwalker
  | forward duration => exact hwalker

theorem after (elements : List (MeasureElement ℚ)) {walk : MeasureWalk ℚ}
    (hwalker : walk.walker.Grounded) (hplace : walk.place.Nonneg)
    (helements : ∀ element ∈ elements, ∀ bpm ∈ element.tempo?, 0 < bpm) :
    (walk.after elements).walker.Grounded := by
  induction elements generalizing walk with
  | nil => exact hwalker
  | cons element rest ih =>
      rw [MeasureWalk.after_cons]
      apply ih (hwalker.step hplace (helements element List.mem_cons_self))
      · exact hplace.after element
      · exact fun other hother => helements other (List.mem_cons_of_mem element hother)

theorem through (hwalker : walker.Grounded) {measure : Measure ℚ}
    (hmeasure : measure.WellFormed) : (walker.through measure).Grounded := by
  have hmeter := hwalker.meter.update hmeasure.attributes_wellFormed
  have hentered : (walker.enter measure.attributes).Grounded :=
    ⟨hwalker.clock.enter hmeter.divisions_pos _, hmeter, hwalker.notes⟩
  unfold Walker.through
  rw [Walker.value_elements]
  exact after measure.elements hentered Place.nonneg_start hmeasure.tempo_pos

theorem leave (hwalker : walker.Grounded) : walker.leave.Grounded :=
  ⟨hwalker.clock.leave _, hwalker.meter, hwalker.notes⟩

end Walker.Grounded

theorem Part.WellFormed.grounded_walkerAt {part : Part ℚ} (hpart : part.WellFormed)
    {map : TempoMap ℚ} (hmap : map.WellFormed) (number : Nat) :
    (part.walkerAt map number).Grounded := by
  apply Part.walkerAt_induction
  · exact ⟨Clock.wellFormed_initial hmap, Meter.wellFormed_initial,
      fun note hnote => by cases hnote⟩
  · exact fun walker measure hmeasure hwalker => (hwalker.through (hpart measure hmeasure)).leave

theorem Part.WellFormed.grounded_played {part : Part ℚ} (hpart : part.WellFormed)
    {map : TempoMap ℚ} (hmap : map.WellFormed) :
    ∀ note ∈ (part.played map).value, note.Grounded map := by
  rw [Part.value_played]
  have hnotes := (hpart.grounded_walkerAt hmap part.measures.length).notes
  rwa [Part.map_walkerAt] at hnotes

end Rubato
