import Rubato.Proofs.Performance.Conservation
import Rubato.Proofs.Performance.Order

namespace Rubato

namespace Clock

/-- Seconds that lie between a place before the measure and the start of the measure. -/
def reachBack (clock : Clock ℚ) (offset : ℚ) : ℚ :=
  clock.spanSeconds offset (-offset)

theorem timeAt_of_neg (clock : Clock ℚ) {offset : ℚ} (h : offset < 0) :
    clock.timeAt offset = clock.startTime - clock.reachBack offset :=
  if_neg (not_le.mpr h)

namespace WellFormed

variable {clock : Clock ℚ} (hclock : clock.WellFormed)

include hclock

theorem timeAt_mono {earlier later : ℚ} (h : earlier ≤ later) (hlater : 0 ≤ later) :
    clock.timeAt earlier ≤ clock.timeAt later := by
  rcases le_or_gt 0 earlier with hearlier | hearlier
  · rw [timeAt, if_pos hearlier, timeAt, if_pos hlater]
    exact add_le_add_right (hclock.spanSeconds_mono 0 h) clock.startTime
  · rw [clock.timeAt_of_neg hearlier, timeAt, if_pos hlater]
    have hback := hclock.spanSeconds_nonneg earlier (-earlier)
    have hforth := hclock.spanSeconds_nonneg 0 later
    unfold reachBack
    linarith

/-- Times along a row of places are in order exactly where the places before the measure
reach back less and less. -/
theorem timeAt_pairwise_iff {places : List ℚ} (hplaces : places.Pairwise (· ≤ ·)) :
    (places.map clock.timeAt).Pairwise (· ≤ ·) ↔
      (places.filter (· < 0)).Pairwise fun earlier later =>
        clock.reachBack later ≤ clock.reachBack earlier := by
  rw [List.pairwise_map, List.pairwise_filter]
  constructor
  · intro htimes
    refine htimes.imp fun {earlier later} htime hearlier hlater => ?_
    rw [decide_eq_true_iff] at hearlier hlater
    rw [clock.timeAt_of_neg hearlier, clock.timeAt_of_neg hlater] at htime
    linarith
  · intro hback
    refine (hplaces.and hback).imp fun {earlier later} ⟨hle, hback⟩ => ?_
    rcases le_or_gt 0 later with hlater | hlater
    · exact hclock.timeAt_mono hle hlater
    · have hearlier := hle.trans_lt hlater
      have hless := hback (decide_eq_true hearlier) (decide_eq_true hlater)
      rw [clock.timeAt_of_neg hearlier, clock.timeAt_of_neg hlater]
      linarith

end WellFormed

end Clock

theorem Tiles.pairwise_start {start stop : ℚ} {spans : List Span} (h : Tiles start stop spans) :
    (spans.map (·.start)).Pairwise (· ≤ ·) := by
  rw [List.pairwise_map]
  induction h with
  | nil place => exact .nil
  | @cons first stop rest hlength hrest ih =>
      refine .cons (fun span hspan => ?_) ih
      exact (le_add_of_nonneg_right hlength).trans (hrest.within span hspan).1

theorem Tiles.head_start {start stop : ℚ} {spans : List Span} (h : Tiles start stop spans) :
    ∀ span ∈ spans.head?, span.start = start := by
  intro span hspan
  cases h with
  | nil => cases hspan
  | cons first hlength hrest => exact congrArg Span.start (Option.some.inj hspan).symm

namespace GraceRun

/-- Where the notes of a run are played that leads to a note at a position. -/
def places (run : GraceRun ℚ) (position : ℚ) : List ℚ :=
  run.notes.map fun grace => run.start position + grace.offset

namespace Fills

variable {run : GraceRun ℚ} {mainDuration : ℚ} (hrun : run.Fills mainDuration) (position : ℚ)

include hrun

theorem tiles_places : ∃ spans, Tiles (run.start position) (run.start position + run.stolen) spans ∧
    run.places position = spans.map (·.start) := by
  refine ⟨_, (add_zero (run.start position)) ▸ hrun.tiles.shift (run.start position), ?_⟩
  simp [places, Span.shift, PlacedGrace.span]

theorem pairwise_places : (run.places position).Pairwise (· ≤ ·) := by
  obtain ⟨spans, htiles, hplaces⟩ := hrun.tiles_places position
  rw [hplaces]
  exact htiles.pairwise_start

theorem mem_places (hbeat : run.onBeat = false) :
    ∀ place ∈ run.places position, position - run.stolen ≤ place ∧ place ≤ position := by
  obtain ⟨spans, htiles, hplaces⟩ := hrun.tiles_places position
  rw [hplaces]
  intro place hplace
  obtain ⟨span, hspan, rfl⟩ := List.mem_map.mp hplace
  obtain ⟨hstart, hlength, hstop⟩ := htiles.within span hspan
  have hbegin : run.start position = position - run.stolen := by simp [start, hbeat]
  rw [hbegin, sub_add_cancel] at hstop
  rw [hbegin] at hstart
  exact ⟨hstart, (le_add_of_nonneg_right hlength).trans hstop⟩

theorem head?_places (hbeat : run.onBeat = false) :
    ∀ first ∈ (run.places position).head?, first = position - run.stolen := by
  obtain ⟨spans, htiles, hplaces⟩ := hrun.tiles_places position
  have hbegin : run.start position = position - run.stolen := by simp [start, hbeat]
  rw [hplaces, ← hbegin, List.head?_map]
  intro first hfirst
  obtain ⟨span, hspan, rfl⟩ := Option.map_eq_some_iff.mp hfirst
  exact htiles.head_start span hspan

end Fills

end GraceRun

namespace Clock

/-- A run leads up to its note: it is played in order, within the score, and not behind the
note. -/
structure LeadsUp (clock : Clock ℚ) (note : Note) (position : ℚ) (run : GraceRun ℚ) :
    Prop where
  inOrder : ((clock.playGraces note position run).map (·.time)).Pairwise (· ≤ ·)
  nonneg : ∀ played ∈ clock.playGraces note position run, 0 ≤ played.time
  before : ∀ played ∈ clock.playGraces note position run, played.time ≤ clock.timeAt position

theorem times_playGraces (clock : Clock ℚ) (note : Note) (position : ℚ) (run : GraceRun ℚ) :
    (clock.playGraces note position run).map (·.time) =
      (run.places position).map clock.timeAt := by
  unfold playGraces GraceRun.places
  rw [List.map_map, List.map_map]
  rfl

theorem EvenOn.reachBack_le {clock : Clock ℚ} {first earlier later : ℚ}
    (heven : clock.EvenOn first 0) (hclock : clock.WellFormed) (hfirst : first ≤ earlier)
    (hle : earlier ≤ later) (hlater : later ≤ 0) :
    clock.reachBack later ≤ clock.reachBack earlier := by
  have hbetween := hclock.spanSeconds_nonneg earlier (later - earlier)
  rw [heven.spanSeconds_eq hclock.segments hfirst (sub_nonneg.mpr hle)
    (by rwa [add_sub_cancel]), add_sub_cancel] at hbetween
  unfold reachBack
  rw [heven.spanSeconds_eq hclock.segments hfirst (neg_nonneg.mpr (hle.trans hlater))
      (add_neg_cancel earlier).le,
    heven.spanSeconds_eq hclock.segments (hfirst.trans hle) (neg_nonneg.mpr hlater)
      (add_neg_cancel later).le, add_neg_cancel, add_neg_cancel]
  linarith

namespace WellFormed

variable {clock : Clock ℚ} (hclock : clock.WellFormed) {note : Note} {position : ℚ}
  {graces : List GraceNote} (hposition : 0 ≤ position)
  (hbeat : (clock.graceRun note position graces).onBeat = false)

include hclock hposition hbeat

omit hposition in
theorem head?_places_nonneg :
    ∀ first ∈ ((clock.graceRun note position graces).places position).head?,
      0 ≤ clock.timeAt first := by
  have hfills := clock.fills_graceRun note position graces
  intro first hfirst
  rw [hfills.head?_places position hbeat first hfirst]
  rcases (hclock.graceRun_spec note position graces).2 with hnone | honBeat | hguarded
  · rw [GraceRun.places, hnone] at hfirst
    cases hfirst
  · exact absurd (hbeat.symm.trans honBeat) Bool.false_ne_true
  · exact hguarded

theorem leadsUp_iff :
    clock.LeadsUp note position (clock.graceRun note position graces) ↔
      (((clock.graceRun note position graces).places position).filter (· < 0)).Pairwise
        fun earlier later => clock.reachBack later ≤ clock.reachBack earlier := by
  have hfills := clock.fills_graceRun note position graces
  have hhead := hclock.head?_places_nonneg hbeat
  have htimes := clock.times_playGraces note position (clock.graceRun note position graces)
  have hmem : ∀ played ∈ clock.playGraces note position (clock.graceRun note position graces),
      played.time ∈
        ((clock.graceRun note position graces).places position).map clock.timeAt :=
    fun played hplayed => htimes ▸ List.mem_map_of_mem hplayed
  rw [← hclock.timeAt_pairwise_iff (hfills.pairwise_places position)]
  refine ⟨fun hleads => htimes ▸ hleads.inOrder, fun hsorted => ⟨htimes ▸ hsorted, ?_, ?_⟩⟩
  · intro played hplayed
    have htime := hmem played hplayed
    cases hplaces : (clock.graceRun note position graces).places position with
    | nil =>
        rw [hplaces] at htime
        cases htime
    | cons first rest =>
        rw [hplaces] at hhead hsorted htime
        have hfirst : 0 ≤ clock.timeAt first := hhead first rfl
        rcases List.mem_cons.mp htime with hsame | hlater
        · exact hsame ▸ hfirst
        · exact hfirst.trans ((List.pairwise_cons.mp hsorted).1 _ hlater)
  · intro played hplayed
    obtain ⟨place, hplace, htime⟩ := List.mem_map.mp (hmem played hplayed)
    rw [← htime]
    exact hclock.timeAt_mono (hfills.mem_places position hbeat place hplace).2 hposition

theorem leadsUp_of_steady
    (hsteady : (clock.graceRun note position graces).stolen ≤ position ∨
      clock.map.isSteady (clock.startPosition +
        (position - (clock.graceRun note position graces).stolen)) clock.startPosition = true) :
    clock.LeadsUp note position (clock.graceRun note position graces) := by
  have hfills := clock.fills_graceRun note position graces
  have hwithin := hfills.mem_places position hbeat
  rw [hclock.leadsUp_iff hposition hbeat, List.pairwise_filter]
  refine (hfills.pairwise_places position).imp_of_mem ?_
  intro earlier later hearlier _ hle hbefore hlater
  rw [decide_eq_true_iff] at hbefore hlater
  obtain ⟨hstart, _⟩ := hwithin earlier hearlier
  rcases hsteady with hinside | hsteady
  · exact absurd (hstart.trans_lt hbefore) (not_lt.mpr (sub_nonneg.mpr hinside))
  · rw [← add_zero clock.startPosition, add_assoc, zero_add] at hsteady
    exact (hclock.evenOn hsteady).reachBack_le hclock hstart hle hlater.le

end WellFormed

end Clock

/-- Whatever state the walk is in, a run that stays before the beat leads up to its note
exactly where the notes that it has before the measure reach back less and less. Within the
measure and where no ramp is near it always does. -/
theorem Part.WellFormed.graces_leadUp_iff {part : Part ℚ} (hpart : part.WellFormed)
    {map : TempoMap ℚ} (hmap : map.WellFormed) {walk : MeasureWalk ℚ}
    (hreached : part.Reaches map walk) {note : Note} {position : ℚ} (hposition : 0 ≤ position)
    {graces : List GraceNote}
    (hbeat : (walk.walker.clock.graceRun note position graces).onBeat = false) :
    let clock := walk.walker.clock
    let run := clock.graceRun note position graces
    (clock.LeadsUp note position run ↔
      ((run.places position).filter (· < 0)).Pairwise fun earlier later =>
        clock.reachBack later ≤ clock.reachBack earlier) ∧
    (run.stolen ≤ position ∨ clock.map.isSteady
        (clock.startPosition + (position - run.stolen)) clock.startPosition = true →
      clock.LeadsUp note position run) := by
  intro clock run
  have hclock : clock.WellFormed := (hpart.grounded_of_reaches hmap hreached).clock
  exact ⟨hclock.leadsUp_iff hposition hbeat, hclock.leadsUp_of_steady hposition hbeat⟩

def noteBehindRamp : Note := .plain (some ⟨.c, 0, 4⟩) 2

def walkBehindRamp : MeasureWalk ℚ :=
  MeasureWalk.after
    ⟨((gracesBehindRamp [.c, .e, .d]).parts.head (by decide) |>.walkerAt mapOfRamp 1).enter .none,
      Place.start, []⟩
    (.direction ⟨[], some 1⟩ :: [Letter.c, .e, .d].map fun letter =>
      .note { Note.plain (some ⟨letter, 0, 4⟩) 0 with grace := some .slashed })

theorem not_leadUp_gracesBehindRamp :
    (gracesBehindRamp [.c, .e, .d]).IsRead ∧
      (∃ part ∈ (gracesBehindRamp [.c, .e, .d]).parts,
        part.Reaches ((gracesBehindRamp [.c, .e, .d]).tempoMap 0).value walkBehindRamp) ∧
      let clock := walkBehindRamp.walker.clock
      let run := clock.graceRun noteBehindRamp 0 walkBehindRamp.graces
      run.onBeat = false ∧
        (clock.playGraces noteBehindRamp 0 run).map (·.time) = [7 / 16, -115 / 8, -55 / 8] ∧
        ¬clock.LeadsUp noteBehindRamp 0 run := by
  have hread : (gracesBehindRamp [.c, .e, .d]).IsRead :=
    Score.isRead_of_characters (gracesBehindRampText [.c, .e, .d]) (by decide +kernel)
  have hmap := tempoMap_gracesBehindRamp [.c, .e, .d] (by decide +kernel) (by decide +kernel)
  have htimes : (walkBehindRamp.walker.clock.playGraces noteBehindRamp 0
      (walkBehindRamp.walker.clock.graceRun noteBehindRamp 0 walkBehindRamp.graces)).map
        (·.time) = [7 / 16, -115 / 8, -55 / 8] := by decide +kernel
  refine ⟨hread, ⟨_, List.mem_singleton_self _, hmap ▸ ⟨1, _, _, _, rfl, rfl, rfl⟩⟩,
    by decide +kernel, htimes, fun hleads => ?_⟩
  have hsorted := hleads.inOrder
  rw [htimes] at hsorted
  exact absurd hsorted (by decide +kernel)

def gracesBeforeBar : Part ℚ :=
  ⟨"P1", [
    ⟨"1", .none, [.note (.plain (some ⟨.c, 0, 4⟩) 4)]⟩,
    ⟨"2", .none, [
      .note { Note.plain (some ⟨.d, 0, 5⟩) 0 with grace := some .slashed },
      .note { Note.plain (some ⟨.e, 0, 5⟩) 0 with grace := some .slashed },
      .note (.plain (some ⟨.c, 0, 4⟩) 2)]⟩]⟩

def walkBehindBar : MeasureWalk ℚ :=
  MeasureWalk.after ⟨(gracesBeforeBar.walkerAt .empty 1).enter .none, Place.start, []⟩ [
    .note { Note.plain (some ⟨.d, 0, 5⟩) 0 with grace := some .slashed },
    .note { Note.plain (some ⟨.e, 0, 5⟩) 0 with grace := some .slashed }]

theorem graces_leadUp_iff_gracesBeforeBar :
    let clock := walkBehindBar.walker.clock
    let run := clock.graceRun noteBehindRamp 0 walkBehindBar.graces
    run.onBeat = false ∧ run.notes.length = 2 ∧ clock.LeadsUp noteBehindRamp 0 run := by
  have hpart : gracesBeforeBar.WellFormed := by decide
  have hmap : TempoMap.WellFormed TempoMap.empty :=
    ⟨.nil, by simp [TempoMap.empty], by simp [TempoMap.empty]⟩
  have hreached : gracesBeforeBar.Reaches .empty walkBehindBar := ⟨1, _, _, _, rfl, rfl, rfl⟩
  have hbeat : (walkBehindBar.walker.clock.graceRun noteBehindRamp 0
      walkBehindBar.graces).onBeat = false := by decide +kernel
  refine ⟨hbeat, by decide +kernel, ?_⟩
  exact (hpart.graces_leadUp_iff hmap hreached le_rfl hbeat).2 (.inr rfl)

end Rubato
