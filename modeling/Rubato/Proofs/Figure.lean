import Rubato.Proofs.Tiling

namespace Rubato

namespace Figure

section Written

variable {α : Type} [Quantity α]

/-- The note at a place is the written one, and all others are ornaments. -/
def WrittenAt (figure : Figure α) (place : Nat) (main : PitchNumber) : Prop :=
  ∃ before note after, figure = before ++ note :: after ∧ before.length = place ∧
    note.pitch = main ∧ note.ornamental = false ∧
    ∀ other ∈ before ++ after, other.ornamental = true

omit [Quantity α] in
theorem ornamental_of_pattern {figure : Figure α} {pitches : List PitchNumber}
    (h : figure.pattern = pitches.map (·, true)) : ∀ note ∈ figure, note.ornamental = true := by
  intro note hnote
  have hentry : (note.pitch, note.ornamental) ∈ figure.pattern := List.mem_map_of_mem hnote
  rw [h, List.mem_map] at hentry
  obtain ⟨pitch, -, hpair⟩ := hentry
  exact (congrArg Prod.snd hpair).symm

omit [Quantity α] in
theorem writtenAt_of_pattern {figure : Figure α} (before after : List PitchNumber)
    {main : PitchNumber}
    (h : figure.pattern = before.map (·, true) ++ (main, false) :: after.map (·, true)) :
    figure.WrittenAt before.length main := by
  obtain ⟨front, rest, rfl, hfront, hrest⟩ := List.map_eq_append_iff.mp h
  obtain ⟨note, back, rfl, hnote, hback⟩ := List.map_eq_cons_iff.mp hrest
  have hlength : front.length = before.length := by
    simpa using congrArg List.length hfront
  refine ⟨front, note, back, rfl, hlength, congrArg Prod.fst hnote, congrArg Prod.snd hnote, ?_⟩
  intro other hother
  rcases List.mem_append.mp hother with hbefore | hafter
  · exact ornamental_of_pattern hfront other hbefore
  · exact ornamental_of_pattern hback other hafter

def lastPitch? (figure : Figure α) : Option PitchNumber :=
  figure.getLast?.map (·.pitch)

omit [Quantity α] in
theorem lastPitch?_eq (figure : Figure α) :
    figure.lastPitch? = figure.pattern.getLast?.map (·.1) := by
  rw [lastPitch?, pattern, List.getLast?_map, Option.map_map]
  rfl

theorem lastPitch?_leading (figure : List PitchNumber) (main : PitchNumber)
    (available unit : α) : (leading figure main available unit).lastPitch? = some main := by
  rw [lastPitch?_eq, pattern_leading]
  simp

theorem lastPitch?_delayed (figure : List PitchNumber) (main : PitchNumber)
    (available unit : α) :
    (delayed (figure ++ [main]) main available unit).lastPitch? = some main := by
  rw [lastPitch?_eq, pattern_delayed, List.map_append, ← List.cons_append, List.map_singleton,
    List.getLast?_concat]
  rfl

theorem lastPitch?_trilled (main neighbor : PitchNumber) (available unit : α) :
    (trilled main neighbor available unit).lastPitch? = some main := by
  obtain ⟨before, hcount, heven⟩ := odd_trillCount available unit
  rw [lastPitch?_eq, pattern_trilled, hcount, alternation_concat main neighbor heven]
  simp

omit [Quantity α] in
theorem length_pattern (figure : Figure α) : figure.pattern.length = figure.length :=
  List.length_map _

end Written

theorem duration_layOut {available slice offset : ℚ} {pitches : List (PitchNumber × Bool)}
    (hfits : offset + slice * pitches.length = available) :
    ∀ note ∈ layOut available slice offset pitches, note.duration = slice := by
  induction pitches generalizing offset with
  | nil => exact fun note hnote => by cases hnote
  | cons entry rest ih =>
      intro note hnote
      cases rest with
      | nil =>
          rw [layOut, List.mem_singleton] at hnote
          rw [List.length_singleton, Nat.cast_one, mul_one] at hfits
          rw [hnote, ← hfits, add_sub_cancel_left]
      | cons next others =>
          rw [layOut_cons _ _ _ _ (List.cons_ne_nil _ _), List.mem_cons] at hnote
          rcases hnote with rfl | hlater
          · rfl
          · refine ih ?_ note hlater
            rw [List.length_cons, Nat.cast_succ] at hfits
            linarith

theorem layOut_concat (available slice offset : ℚ) (front : List (PitchNumber × Bool))
    (last : PitchNumber × Bool) :
    layOut available slice offset (front ++ [last]) =
      layOut (offset + slice * front.length) slice offset front ++
        [⟨last.1, offset + slice * front.length, available - (offset + slice * front.length),
          last.2⟩] := by
  induction front generalizing offset with
  | nil => simp [layOut]
  | cons entry rest ih =>
      have hstop :
          offset + slice * (entry :: rest).length = offset + slice + slice * rest.length := by
        rw [List.length_cons, Nat.cast_succ]
        ring
      rw [List.cons_append, layOut_cons _ _ _ _ (by simp), ih, hstop]
      cases rest with
      | nil => simp [layOut]
      | cons next others =>
          rw [layOut_cons _ _ _ _ (List.cons_ne_nil next others), List.cons_append]

/-- A figure in the time of its note: one of its notes is the written one, and it ends on the
written pitch. -/
structure Shaped (figure : Figure ℚ) (available : ℚ) (place : Nat) (main : PitchNumber) :
    Prop where
  tiles : Tiles 0 available figure.spans
  written : figure.WrittenAt place main
  ends : figure.lastPitch? = some main

section Lengths

variable {available unit : ℚ} (havailable : 0 ≤ available) (hunit : 0 ≤ unit)

include havailable hunit

theorem shaped_leading (figure : List PitchNumber) (main : PitchNumber) :
    (leading figure main available unit).Shaped available
      ((leading figure main available unit).length - 1) main := by
  have hpattern := pattern_leading figure main available unit
  have hlength : (leading figure main available unit).length - 1 = figure.length := by
    rw [← length_pattern, hpattern]
    simp
  rw [hlength]
  exact ⟨tiles_leading havailable hunit figure main, writtenAt_of_pattern figure [] hpattern,
    lastPitch?_leading figure main available unit⟩

theorem shaped_delayed (figure : List PitchNumber) (main : PitchNumber) :
    (delayed (figure ++ [main]) main available unit).Shaped available 0 main :=
  ⟨tiles_delayed havailable hunit (by simp) main,
    writtenAt_of_pattern [] _ (pattern_delayed (figure ++ [main]) main available unit),
    lastPitch?_delayed figure main available unit⟩

omit hunit in
theorem shaped_trilled (main neighbor : PitchNumber) :
    (trilled main neighbor available unit).Shaped available
      ((trilled main neighbor available unit).length - 1) main := by
  obtain ⟨before, hcount, heven⟩ := odd_trillCount available unit
  have hpattern := pattern_trilled main neighbor available unit
  rw [hcount, alternation_concat main neighbor heven] at hpattern
  have hlength : (trilled main neighbor available unit).length - 1 =
      (alternating main neighbor before).length := by
    rw [← length_pattern, hpattern]
    simp
  rw [hlength]
  exact ⟨tiles_trilled havailable main neighbor, writtenAt_of_pattern _ [] hpattern,
    lastPitch?_trilled main neighbor available unit⟩

end Lengths

theorem sliceFor_le (figure : List PitchNumber) (available unit : ℚ) :
    sliceFor figure available unit ≤ unit := by
  rw [sliceFor, Quantity.lesser_eq_min]
  exact min_le_left _ _

def EvenUpTo (figure : Figure ℚ) (unit : ℚ) : Prop :=
  ∃ slice ≤ unit, ∀ note ∈ figure, note.ornamental = true → note.duration = slice

theorem evenUpTo_leading (figure : List PitchNumber) (main : PitchNumber) (available unit : ℚ) :
    (leading figure main available unit).EvenUpTo unit := by
  refine ⟨_, sliceFor_le figure available unit, fun note hnote hornament => ?_⟩
  rw [leading, layOut_concat, List.mem_append] at hnote
  rcases hnote with hfigure | hlast
  · exact duration_layOut rfl note hfigure
  · rw [List.mem_singleton.mp hlast] at hornament
    cases hornament

theorem evenUpTo_delayed (figure : List PitchNumber) (main : PitchNumber) (available unit : ℚ) :
    (delayed figure main available unit).EvenUpTo unit := by
  refine ⟨_, sliceFor_le figure available unit, fun note hnote hornament => ?_⟩
  rcases List.mem_cons.mp hnote with rfl | hfigure
  · cases hornament
  · refine duration_layOut ?_ note hfigure
    rw [List.length_map, sub_add_cancel]

theorem isGreatest_trillCount {available unit : ℚ} (havailable : 0 ≤ available)
    (hunit : 0 < unit) :
    IsGreatest {count : ℕ | Odd count ∧ (count ≤ 5 ∨ (count : ℚ) ≤ available / unit)}
      (trillCount available unit) := by
  have hcount : trillCount available unit =
      max (if ⌊available / unit⌋₊ % 2 = 0 then ⌊available / unit⌋₊ - 1
        else ⌊available / unit⌋₊) 5 := by
    unfold trillCount
    rw [if_pos hunit]
    rfl
  have hfits : ∀ count : ℕ, (count : ℚ) ≤ available / unit ↔ count ≤ ⌊available / unit⌋₊ :=
    fun count => (Nat.le_floor_iff (div_nonneg havailable hunit.le)).symm
  simp only [hcount, hfits, Nat.odd_iff]
  -- What is left speaks of whole units only.
  generalize ⌊available / unit⌋₊ = whole
  constructor
  · show _ % 2 = 1 ∧ (_ ≤ 5 ∨ _ ≤ whole)
    split <;> omega
  · rintro count ⟨hodd, hbound⟩
    split <;> omega

theorem getElem?_pattern (figure : Figure ℚ) (index : Nat) :
    figure.pattern[index]? = figure[index]?.map fun note : FigureNote ℚ =>
      (note.pitch, note.ornamental) :=
  List.getElem?_map

theorem length_trilled (main neighbor : PitchNumber) (available unit : ℚ) :
    (trilled main neighbor available unit).length = trillCount available unit := by
  rw [← length_pattern, pattern_trilled, alternation, List.length_map, List.length_range]

theorem duration_trilled (main neighbor : PitchNumber) (available unit : ℚ) :
    ∀ note ∈ trilled main neighbor available unit,
      note.duration = available / (trilled main neighbor available unit).length := by
  obtain ⟨before, hcount, _⟩ := odd_trillCount available unit
  have hpositive : (trillCount available unit : ℚ) ≠ 0 := by
    rw [hcount]
    exact Nat.cast_ne_zero.mpr before.succ_ne_zero
  rw [length_trilled]
  refine duration_layOut ?_
  rw [alternation, List.length_map, List.length_range, zero_add, div_mul_cancel₀ _ hpositive]

theorem pitch_trilled (main neighbor : PitchNumber) (available unit : ℚ) {index : Nat}
    {note : FigureNote ℚ} (h : (trilled main neighbor available unit)[index]? = some note) :
    note.pitch = if index % 2 = 0 then main else neighbor := by
  have hentry := getElem?_pattern (trilled main neighbor available unit) index
  rw [h, pattern_trilled, alternation, List.getElem?_map, Option.map_some] at hentry
  obtain ⟨place, hplace, hpair⟩ := Option.map_eq_some_iff.mp hentry
  obtain ⟨hlt, hindex⟩ := List.getElem?_eq_some_iff.mp hplace
  rw [List.getElem_range] at hindex
  rw [← hindex] at hpair
  exact (congrArg Prod.fst hpair).symm

/-- A trill of a note with its neighbour: as many notes as fit, made odd, and at least five; all
are of one length, and the pitches alternate. -/
structure Trills (figure : Figure ℚ) (available unit : ℚ) (main neighbor : PitchNumber) :
    Prop where
  count : IsGreatest {count : ℕ | Odd count ∧ (count ≤ 5 ∨ (count : ℚ) ≤ available / unit)}
    figure.length
  even : ∀ note ∈ figure, note.duration = available / figure.length
  alternates : ∀ index note, figure[index]? = some note →
    note.pitch = if index % 2 = 0 then main else neighbor

theorem trills_trilled {available unit : ℚ} (havailable : 0 ≤ available) (hunit : 0 < unit)
    (main neighbor : PitchNumber) :
    (trilled main neighbor available unit).Trills available unit main neighbor where
  count := by
    rw [length_trilled]
    exact isGreatest_trillCount havailable hunit
  even := duration_trilled main neighbor available unit
  alternates _ _ := pitch_trilled main neighbor available unit

end Figure

namespace Ornament

theorem lastPitch?_expand {α : Type} [Quantity α] (ornament : Ornament) (main : PitchNumber)
    (available : α) (fifths : Int) (unit : α) :
    Figure.lastPitch? (ornament.expand main available fifths unit) = some main := by
  cases ornament with
  | mordent long mark | invertedMordent long mark | turn up down =>
      exact Figure.lastPitch?_leading _ main available unit
  | delayedTurn up down =>
      exact Figure.lastPitch?_delayed [upper main up fifths, main, lower main down fifths] main
        available unit
  | trill mark | wavyLine mark | shake mark =>
      exact Figure.lastPitch?_trilled main _ available unit

/-- A delayed turn holds the written note before it; the other figures end with that note. -/
def holdsFirst : Ornament → Bool
  | .delayedTurn _ _ => true
  | _ => false

def trillMark? : Ornament → Option (Option Int)
  | .trill mark | .wavyLine mark | .shake mark => some mark
  | _ => none

/-- Whatever the ornament, its figure fills the note, has the written note once, first or last,
and ends on its pitch. The ornaments of a mordent or a turn are of one length, no more than a
unit; the other figures are trills with the upper neighbour. -/
theorem shaped_expand (ornament : Ornament) (main : PitchNumber) {available unit : ℚ}
    (havailable : 0 ≤ available) (fifths : Int) (hunit : 0 < unit) :
    let figure := ornament.expand main available fifths unit
    figure.Shaped available (if ornament.holdsFirst then 0 else figure.length - 1) main ∧
      (ornament.trillMark? = none → figure.EvenUpTo unit) ∧
      ∀ mark, ornament.trillMark? = some mark →
        figure.Trills available unit main (upper main mark fifths) := by
  cases ornament with
  | mordent long mark | invertedMordent long mark | turn up down =>
      exact ⟨Figure.shaped_leading havailable hunit.le _ main,
        fun _ => Figure.evenUpTo_leading _ main available unit, fun _ hmark => by cases hmark⟩
  | delayedTurn up down =>
      exact ⟨Figure.shaped_delayed havailable hunit.le
          [upper main up fifths, main, lower main down fifths] main,
        fun _ => Figure.evenUpTo_delayed _ main available unit, fun _ hmark => by cases hmark⟩
  | trill mark | wavyLine mark | shake mark =>
      refine ⟨Figure.shaped_trilled havailable main _, fun hnone => (by cases hnone),
        fun other hmark => ?_⟩
      cases hmark
      exact Figure.trills_trilled havailable hunit main _

/-- A trill of middle C with the D above it, on a note of seven and a half units: seven notes of
a fourteenth over a unit. -/
theorem shaped_trill : (0 : ℚ) ≤ 15 / 2 ∧ (0 : ℚ) < 1 ∧
    let figure := (Ornament.trill none).expand 60 (15 / 2 : ℚ) 0 1
    figure.length = 7 ∧ figure.Shaped (15 / 2) 6 60 ∧ figure.Trills (15 / 2) 1 60 62 := by
  have hcount : ((Ornament.trill none).expand 60 (15 / 2 : ℚ) 0 1).length = 7 := by
    decide +kernel
  have hneighbor : upper 60 none 0 = 62 := by decide +kernel
  obtain ⟨hshaped, -, htrills⟩ :=
    @shaped_expand (.trill none) 60 (15 / 2) 1 (by norm_num) 0 (by norm_num)
  rw [hcount] at hshaped
  exact ⟨by norm_num, by norm_num, hcount, hshaped, hneighbor ▸ htrills none rfl⟩

end Ornament

end Rubato
