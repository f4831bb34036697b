import Rubato.Proofs.Ornament

namespace Rubato

/-- A stretch of time, in divisions or in seconds. -/
structure Span where
  start : ℚ
  length : ℚ
  deriving DecidableEq

def Span.stop (span : Span) : ℚ := span.start + span.length

def Span.shift (distance : ℚ) (span : Span) : Span :=
  ⟨distance + span.start, span.length⟩

/-- Spans one after the other: each begins where the one before it ends. -/
inductive Tiles : ℚ → ℚ → List Span → Prop
  | nil (place : ℚ) : Tiles place place []
  | cons (span : Span) {stop : ℚ} {rest : List Span} (hlength : 0 ≤ span.length)
      (hrest : Tiles span.stop stop rest) : Tiles span.start stop (span :: rest)

namespace Tiles

variable {start stop later : ℚ} {spans others : List Span}

theorem singleton (span : Span) (hlength : 0 ≤ span.length) :
    Tiles span.start span.stop [span] :=
  .cons span hlength (.nil span.stop)

theorem append (hfirst : Tiles start stop spans) (hsecond : Tiles stop later others) :
    Tiles start later (spans ++ others) := by
  induction hfirst with
  | nil place => exact hsecond
  | cons span hlength hrest ih => exact .cons span hlength (ih hsecond)

theorem le (h : Tiles start stop spans) : start ≤ stop := by
  induction h with
  | nil place => exact le_refl place
  | cons span hlength hrest ih => exact (le_add_of_nonneg_right hlength).trans ih

theorem sum_length (h : Tiles start stop spans) : (spans.map (·.length)).sum = stop - start := by
  induction h with
  | nil place => exact (sub_self place).symm
  | cons span hlength hrest ih =>
      rw [List.map_cons, List.sum_cons, ih, Span.stop]
      ring

theorem within (h : Tiles start stop spans) :
    ∀ span ∈ spans, start ≤ span.start ∧ 0 ≤ span.length ∧ span.stop ≤ stop := by
  induction h with
  | nil place => exact fun span hspan => by cases hspan
  | @cons first stop rest hlength hrest ih =>
      intro span hspan
      rcases List.mem_cons.mp hspan with rfl | hlater
      · exact ⟨le_refl _, hlength, hrest.le⟩
      · obtain ⟨hstart, hnonneg, hstop⟩ := ih span hlater
        exact ⟨(le_add_of_nonneg_right hlength).trans hstart, hnonneg, hstop⟩

theorem map {f : ℚ → ℚ} {g : Span → Span} (h : Tiles start stop spans)
    (hmap : ∀ span ∈ spans, (g span).start = f span.start ∧ (g span).stop = f span.stop ∧
      0 ≤ (g span).length) : Tiles (f start) (f stop) (spans.map g) := by
  induction h with
  | nil place => exact .nil (f place)
  | @cons first stop rest hlength hrest ih =>
      obtain ⟨hstart, hstop, hnonneg⟩ := hmap first List.mem_cons_self
      have hlater := ih fun span hspan => hmap span (List.mem_cons_of_mem first hspan)
      rw [← hstop] at hlater
      rw [← hstart]
      exact .cons (g first) hnonneg hlater

theorem shift (h : Tiles start stop spans) (distance : ℚ) :
    Tiles (distance + start) (distance + stop) (spans.map (Span.shift distance)) :=
  h.map fun span hspan => ⟨rfl, add_assoc _ _ _, (h.within span hspan).2.1⟩

theorem replicate {length : ℚ} (hlength : 0 ≤ length) (count : Nat) :
    Tiles 0 (length * count)
      ((List.range count).map fun index : Nat => ⟨length * index, length⟩) := by
  induction count with
  | zero =>
      rw [Nat.cast_zero, mul_zero]
      exact .nil 0
  | succ count ih =>
      rw [List.range_succ, List.map_append, Nat.cast_succ, mul_add, mul_one]
      exact ih.append (singleton ⟨length * count, length⟩ hlength)

end Tiles

def PlacedGrace.span (grace : PlacedGrace ℚ) : Span := ⟨grace.offset, grace.duration⟩

def FigureNote.span (note : FigureNote ℚ) : Span := ⟨note.offset, note.duration⟩

/-- A run fills the time that it takes, and takes no more than its note has. -/
structure GraceRun.Fills (run : GraceRun ℚ) (mainDuration : ℚ) : Prop where
  stolen_le : run.stolen ≤ mainDuration
  tiles : Tiles 0 run.stolen (run.notes.map PlacedGrace.span)

namespace GraceRun

theorem fills_ofGroup (group : List GraceNote) {mainDuration unit : ℚ}
    (hmain : 0 ≤ mainDuration) (dotted : Bool) (hunit : 0 ≤ unit) :
    (ofGroup group mainDuration dotted unit).Fills mainDuration := by
  refine ⟨(fits_ofGroup group hmain dotted hunit).stolen_le, ?_⟩
  rcases eq_or_ne group [] with rfl | hgroup
  · exact .nil 0
  · have hspans : (place (noteLength group mainDuration dotted unit) group).map
        PlacedGrace.span = (List.range group.length).map fun index : Nat =>
          ⟨noteLength group mainDuration dotted unit * index,
            noteLength group mainDuration dotted unit⟩ := by
      apply List.ext_getElem
      · simp [place]
      · intro index _ _
        simp [place, PlacedGrace.span]
    rw [ofGroup_eq hgroup]
    dsimp only
    rw [hspans]
    exact Tiles.replicate (noteLength_mem hgroup hmain dotted hunit).1 group.length

theorem Fills.movedOntoBeat {run : GraceRun ℚ} {mainDuration : ℚ}
    (hrun : run.Fills mainDuration) : run.movedOntoBeat.Fills mainDuration :=
  ⟨hrun.stolen_le, hrun.tiles⟩

end GraceRun

namespace Figure

def spans (figure : Figure ℚ) : List Span := figure.map FigureNote.span

theorem tiles_layOut {available slice : ℚ} (hslice : 0 ≤ slice)
    (pitches : List (PitchNumber × Bool)) {offset : ℚ} (hpitches : pitches ≠ [])
    (hfits : offset + slice * pitches.length ≤ available + slice) :
    Tiles offset available (layOut available slice offset pitches).spans := by
  induction pitches generalizing offset with
  | nil => exact absurd rfl hpitches
  | cons pitch rest ih =>
      cases rest with
      | nil =>
          -- The last note of a figure takes what is left.
          have hlength : 0 ≤ available - offset := by
            rw [List.length_singleton, Nat.cast_one, mul_one] at hfits
            linarith
          have hlast := Tiles.singleton ⟨offset, available - offset⟩ hlength
          rwa [Span.stop, add_sub_cancel] at hlast
      | cons next others =>
          have hrest : Tiles (offset + slice) available
              (layOut available slice (offset + slice) (next :: others)).spans := by
            apply ih (List.cons_ne_nil next others)
            rw [List.length_cons, Nat.cast_succ, mul_add, mul_one] at hfits
            linarith
          rw [layOut_cons _ _ _ _ (List.cons_ne_nil _ _)]
          exact .cons ⟨offset, slice⟩ hslice hrest

section Lengths

variable {available unit : ℚ} (havailable : 0 ≤ available) (hunit : 0 ≤ unit)

include havailable hunit

theorem tiles_leading (figure : List PitchNumber) (main : PitchNumber) :
    Tiles 0 available (leading figure main available unit).spans := by
  obtain ⟨hslice, hfigure⟩ := sliceFor_mem havailable hunit figure
  apply tiles_layOut hslice
  · simp
  · rw [List.length_append, List.length_map, List.length_singleton, Nat.cast_succ]
    linarith

theorem tiles_delayed {figure : List PitchNumber} (hfigure : figure ≠ [])
    (main : PitchNumber) : Tiles 0 available (delayed figure main available unit).spans := by
  obtain ⟨hslice, hfits⟩ := sliceFor_mem havailable hunit figure
  have hlater : Tiles (available - sliceFor figure available unit * (figure.length : Nat))
      available (layOut available (sliceFor figure available unit)
        (available - sliceFor figure available unit * (figure.length : Nat))
        (figure.map (·, true))).spans := by
    apply tiles_layOut hslice
    · simpa using hfigure
    · rw [List.length_map]
      linarith
  have hheld : 0 ≤ available - sliceFor figure available unit * (figure.length : Nat) :=
    sub_nonneg.mpr hfits
  refine .cons ⟨0, _⟩ hheld ?_
  rwa [Span.stop, zero_add]

omit hunit in
theorem tiles_trilled (main neighbor : PitchNumber) :
    Tiles 0 available (trilled main neighbor available unit).spans := by
  obtain ⟨before, hcount, _⟩ := odd_trillCount available unit
  have hpositive : (0 : ℚ) < (trillCount available unit : ℕ) := by
    rw [hcount]
    exact Nat.cast_pos.mpr before.succ_pos
  have hslice : 0 ≤ available / (trillCount available unit : ℕ) :=
    div_nonneg havailable hpositive.le
  unfold trilled alternation
  apply tiles_layOut hslice
  · rw [hcount, List.range_succ, List.map_append]
    exact List.append_ne_nil_of_right_ne_nil _ (List.cons_ne_nil _ _)
  · rw [List.length_map, List.length_range, div_mul_cancel₀ _ hpositive.ne', zero_add]
    exact le_add_of_nonneg_right hslice

end Lengths

end Figure

theorem Ornament.tiles_expand (ornament : Ornament) (main : PitchNumber) {available unit : ℚ}
    (havailable : 0 ≤ available) (fifths : Int) (hunit : 0 ≤ unit) :
    Tiles 0 available (Figure.spans (ornament.expand main available fifths unit)) := by
  cases ornament with
  | mordent long lower => exact Figure.tiles_leading havailable hunit _ main
  | invertedMordent long upper => exact Figure.tiles_leading havailable hunit _ main
  | turn upper lower => exact Figure.tiles_leading havailable hunit _ main
  | delayedTurn upper lower =>
      exact Figure.tiles_delayed havailable hunit (List.cons_ne_nil _ _) main
  | trill upper => exact Figure.tiles_trilled havailable main _
  | wavyLine upper => exact Figure.tiles_trilled havailable main _
  | shake upper => exact Figure.tiles_trilled havailable main _

end Rubato
