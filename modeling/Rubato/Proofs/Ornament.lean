import Rubato.Proofs.Rational
import Rubato.Grace
import Rubato.Ornament

namespace Rubato

structure GraceRun.Fits (run : GraceRun ℚ) (mainDuration : ℚ) : Prop where
  stolen_nonneg : 0 ≤ run.stolen
  stolen_le : run.stolen ≤ mainDuration
  offset_nonneg : ∀ grace ∈ run.notes, 0 ≤ grace.offset

namespace GraceRun

theorem longShare_mem (dotted : Bool) :
    0 ≤ (longShare dotted : ℚ) ∧ (longShare dotted : ℚ) ≤ 1 := by
  cases dotted with
  | true =>
      show (0 : ℚ) ≤ 2 / 3 ∧ (2 : ℚ) / 3 ≤ 1
      norm_num
  | false =>
      show (0 : ℚ) ≤ 1 / 2 ∧ (1 : ℚ) / 2 ≤ 1
      norm_num

section Lengths

variable {count mainDuration : ℚ} (hcount : 0 < count) (hmain : 0 ≤ mainDuration)

include hcount hmain

theorem longLength_mem (dotted : Bool) :
    0 ≤ longLength count mainDuration dotted ∧
      longLength count mainDuration dotted * count ≤ mainDuration := by
  obtain ⟨hshare, hone⟩ := longShare_mem dotted
  have htarget : 0 ≤ mainDuration * longShare dotted / count :=
    div_nonneg (mul_nonneg hmain hshare) hcount.le
  have hfits : mainDuration * longShare dotted / count * count ≤ mainDuration := by
    rw [div_mul_cancel₀ _ hcount.ne']
    exact mul_le_of_le_one_right hmain hone
  unfold longLength
  dsimp only
  split
  · next hwhole =>
      have hfloor : Quantity.floor (mainDuration * longShare dotted / count) ≤
          mainDuration * longShare dotted / count :=
        Int.floor_le (mainDuration * longShare dotted / count)
      exact ⟨hwhole.le, (mul_le_mul_of_nonneg_right hfloor hcount.le).trans hfits⟩
  · exact ⟨htarget, hfits⟩

theorem shortLength_mem {unit : ℚ} (hunit : 0 ≤ unit) :
    0 ≤ shortLength count mainDuration unit ∧
      shortLength count mainDuration unit * count ≤ mainDuration := by
  have hquarter : 0 ≤ mainDuration / 4 := div_nonneg hmain (by norm_num)
  have hle : mainDuration / 4 ≤ mainDuration := div_le_self hmain (by norm_num)
  have hlength : shortLength count mainDuration unit =
      min (mainDuration / 4) (count * unit) / count := by
    unfold shortLength
    rw [Quantity.lesser_eq_min]
    rfl
  rw [hlength, div_mul_cancel₀ _ hcount.ne']
  exact ⟨div_nonneg (le_min hquarter (mul_nonneg hcount.le hunit)) hcount.le,
    (min_le_left _ _).trans hle⟩

end Lengths

theorem ofGroup_eq {group : List GraceNote} (hgroup : group ≠ []) (mainDuration : ℚ)
    (dotted : Bool) (unit : ℚ) :
    ofGroup group mainDuration dotted unit =
      ⟨place (noteLength group mainDuration dotted unit) group,
        noteLength group mainDuration dotted unit * group.length, isLong group⟩ := by
  rw [ofGroup, if_neg (by simpa using hgroup)]

theorem noteLength_mem {group : List GraceNote} (hgroup : group ≠ []) {mainDuration unit : ℚ}
    (hmain : 0 ≤ mainDuration) (dotted : Bool) (hunit : 0 ≤ unit) :
    0 ≤ noteLength group mainDuration dotted unit ∧
      noteLength group mainDuration dotted unit * group.length ≤ mainDuration := by
  have hcount : (0 : ℚ) < group.length := Nat.cast_pos.mpr (List.length_pos_of_ne_nil hgroup)
  unfold noteLength
  split
  · exact longLength_mem hcount hmain dotted
  · exact shortLength_mem hcount hmain hunit

theorem fits_ofGroup (group : List GraceNote) {mainDuration unit : ℚ}
    (hmain : 0 ≤ mainDuration) (dotted : Bool) (hunit : 0 ≤ unit) :
    (ofGroup group mainDuration dotted unit).Fits mainDuration := by
  rcases eq_or_ne group [] with rfl | hgroup
  · exact ⟨le_rfl, hmain, fun grace hgrace => by cases hgrace⟩
  · obtain ⟨hnonneg, hle⟩ := noteLength_mem hgroup hmain dotted hunit
    rw [ofGroup_eq hgroup]
    refine ⟨mul_nonneg hnonneg (Nat.cast_nonneg _), hle, fun grace hgrace => ?_⟩
    obtain ⟨index, hindex, rfl⟩ := List.mem_mapIdx.mp hgrace
    exact mul_nonneg hnonneg (Nat.cast_nonneg index)

theorem Fits.movedOntoBeat {run : GraceRun ℚ} {mainDuration : ℚ}
    (hrun : run.Fits mainDuration) : run.movedOntoBeat.Fits mainDuration :=
  ⟨hrun.stolen_nonneg, hrun.stolen_le, hrun.offset_nonneg⟩

end GraceRun

namespace Figure

theorem layOut_cons {α : Type} [Quantity α] (available slice offset : α)
    (entry : PitchNumber × Bool) {rest : List (PitchNumber × Bool)} (hrest : rest ≠ []) :
    layOut available slice offset (entry :: rest) =
      ⟨entry.1, offset, slice, entry.2⟩ :: layOut available slice (offset + slice) rest := by
  cases rest with
  | nil => exact absurd rfl hrest
  | cons next others => rfl

theorem sliceFor_mem {available unit : ℚ} (havailable : 0 ≤ available) (hunit : 0 ≤ unit)
    (figure : List PitchNumber) :
    0 ≤ sliceFor figure available unit ∧
      sliceFor figure available unit * figure.length ≤ available := by
  have hcount : (0 : ℚ) < ((figure.length + 1 : Nat) : ℚ) := Nat.cast_pos.mpr (by omega)
  have hshare : 0 ≤ available / ((figure.length + 1 : Nat) : ℚ) :=
    div_nonneg havailable hcount.le
  have hslice : sliceFor figure available unit =
      min unit (available / ((figure.length + 1 : Nat) : ℚ)) := by
    unfold sliceFor
    rw [Quantity.lesser_eq_min]
  have hnonneg : 0 ≤ sliceFor figure available unit := by
    rw [hslice]
    exact le_min hunit hshare
  refine ⟨hnonneg, ?_⟩
  calc sliceFor figure available unit * figure.length
      ≤ sliceFor figure available unit * ((figure.length + 1 : Nat) : ℚ) :=
        mul_le_mul_of_nonneg_left (Nat.cast_le.mpr (Nat.le_succ _)) hnonneg
    _ ≤ available / ((figure.length + 1 : Nat) : ℚ) * ((figure.length + 1 : Nat) : ℚ) := by
        rw [hslice]
        exact mul_le_mul_of_nonneg_right (min_le_right _ _) hcount.le
    _ = available := div_mul_cancel₀ _ hcount.ne'

end Figure

section Written

variable {α : Type} [Quantity α]

namespace Figure

def pattern (figure : Figure α) : List (PitchNumber × Bool) :=
  figure.map fun note => (note.pitch, note.ornamental)

theorem pattern_layOut (available slice : α) (pitches : List (PitchNumber × Bool))
    (offset : α) : (layOut available slice offset pitches).pattern = pitches := by
  induction pitches generalizing offset with
  | nil => rfl
  | cons entry rest ih =>
      cases rest with
      | nil => rfl
      | cons next others =>
          rw [layOut_cons _ _ _ _ (List.cons_ne_nil _ _)]
          exact congrArg (entry :: ·) (ih (offset + slice))

theorem pattern_leading (figure : List PitchNumber) (main : PitchNumber)
    (available unit : α) :
    (leading figure main available unit).pattern = figure.map (·, true) ++ [(main, false)] :=
  pattern_layOut _ _ _ _

theorem pattern_delayed (figure : List PitchNumber) (main : PitchNumber)
    (available unit : α) :
    (delayed figure main available unit).pattern = (main, false) :: figure.map (·, true) :=
  congrArg ((main, false) :: ·) (pattern_layOut _ _ _ _)

theorem pattern_trilled (main neighbor : PitchNumber) (available unit : α) :
    (trilled main neighbor available unit).pattern =
      alternation main neighbor (trillCount available unit) :=
  pattern_layOut _ _ _ _

theorem odd_trillCount (available unit : α) :
    ∃ before, trillCount available unit = before + 1 ∧ before % 2 = 0 := by
  have hodd : trillCount available unit % 2 = 1 := by
    unfold trillCount fewestTrillNotes
    dsimp only
    generalize (if 0 < unit then Quantity.units (available / unit) else 0) = count
    split <;> omega
  exact ⟨trillCount available unit - 1, by omega, by omega⟩

def alternating (main neighbor : PitchNumber) (count : Nat) : List PitchNumber :=
  (List.range count).map fun index => if index % 2 = 0 then main else neighbor

theorem alternation_concat (main neighbor : PitchNumber) {before : Nat}
    (heven : before % 2 = 0) :
    alternation main neighbor (before + 1) =
      (alternating main neighbor before).map (·, true) ++ [(main, false)] := by
  rw [alternation, List.range_succ, List.map_append, List.map_singleton, alternating,
    List.map_map, if_pos heven]
  congr 1
  · apply List.map_congr_left
    intro index hindex
    have hlt := List.mem_range.mp hindex
    have hearlier : decide (index + 1 ≠ before + 1) = true := decide_eq_true (by omega)
    rw [hearlier, Function.comp_apply]
  · simp

def written (figure : Figure α) : List PitchNumber :=
  (figure.filter fun note => !note.ornamental).map (·.pitch)

omit [Quantity α] in
theorem written_eq (figure : Figure α) :
    figure.written = (figure.pattern.filter fun entry => !entry.2).map (·.1) := by
  rw [written, pattern, List.filter_map, List.map_map]
  rfl

omit [Quantity α] in
theorem written_of_pattern {figure : Figure α} (before after : List PitchNumber)
    {main : PitchNumber}
    (h : figure.pattern = before.map (·, true) ++ (main, false) :: after.map (·, true)) :
    figure.written = [main] := by
  have hornaments : ∀ pitches : List PitchNumber,
      ((pitches.map (·, true)).filter fun entry => !entry.2) = [] := fun pitches => by
    rw [List.filter_map, List.map_eq_nil_iff, List.filter_eq_nil_iff]
    exact fun _ _ h => by cases h
  rw [written_eq, h, List.filter_append, hornaments, List.filter_cons_of_pos (by rfl), hornaments]
  rfl

end Figure

theorem Ornament.written_expand (ornament : Ornament) (main : PitchNumber) (available : α)
    (fifths : Int) (unit : α) : (ornament.expand main available fifths unit).written = [main] := by
  have hleading : ∀ figure, (Figure.leading figure main available unit).written = [main] :=
    fun figure => Figure.written_of_pattern figure [] (Figure.pattern_leading figure main _ _)
  have htrilled : ∀ neighbor, (Figure.trilled main neighbor available unit).written = [main] := by
    intro neighbor
    obtain ⟨before, hcount, heven⟩ := Figure.odd_trillCount available unit
    apply Figure.written_of_pattern (Figure.alternating main neighbor before) []
    rw [Figure.pattern_trilled, hcount]
    exact Figure.alternation_concat main neighbor heven
  cases ornament with
  | mordent long lower => exact hleading _
  | invertedMordent long upper => exact hleading _
  | turn upper lower => exact hleading _
  | delayedTurn upper lower =>
      exact Figure.written_of_pattern [] _ (Figure.pattern_delayed _ main available unit)
  | trill upper => exact htrilled _
  | wavyLine upper => exact htrilled _
  | shake upper => exact htrilled _

end Written

end Rubato
