import Rubato.Proofs.Guarded.Run

namespace Rubato

def Meter.checkedBeatAt (meter : Meter) (position : ℚ) : Option ℚ := do
  let quarters ← divide? position (meter.divisions : ℚ)
  let beats ← divide? (quarters * (meter.time.beatType : ℚ)) ((4 : Nat) : ℚ)
  some (1 + beats)

theorem Meter.WellFormed.checkedBeatAt_eq {meter : Meter} (h : meter.WellFormed)
    (position : ℚ) : meter.checkedBeatAt position = some (meter.beatAt position) := by
  unfold checkedBeatAt
  rw [divide?_of_pos (Nat.cast_pos.mpr h.divisions_pos), Option.bind_eq_bind, Option.bind_some,
    divide?_of_pos (Nat.cast_pos.mpr (by decide))]
  rfl

namespace Contribution

def checkedOf (meter : Meter) (position : ℚ) (finding : Finding) :
    Option (Contribution ℚ) := do
  let beats ← meter.checkedBeatAt position
  some ⟨Quantity.nearest (position * ((1000 : Nat) : ℚ)), beats, finding⟩

def checkedOfElement (skipHarmony : Bool) (meter : Meter) (place : Place ℚ) :
    MeasureElement ℚ → Option (List (Contribution ℚ))
  | .note note =>
    match note.sounds? with
    | some pitch => do
      let spelling ← pitch.checkedSpelling
      let found ← checkedOf meter (place.onset note)
        (.note ⟨pitch.number, spelling⟩ (note.lyric.filter (· ≠ "")))
      some [found]
    | none => some []
  | .harmony harmony =>
    if skipHarmony then some []
    else
      match harmony.label? with
      | some label => do
        let found ← checkedOf meter place.cursor (.harmony label)
        some [found]
      | none => some []
  | _ => some []

def checkedOfElements (skipHarmony : Bool) (meter : Meter) :
    Place ℚ → List (MeasureElement ℚ) → Option (List (Contribution ℚ))
  | _, [] => some []
  | place, element :: rest => do
    let found ← checkedOfElement skipHarmony meter place element
    let others ← checkedOfElements skipHarmony meter (place.after element) rest
    some (found ++ others)

variable {meter : Meter}

theorem checkedOf_eq (h : meter.WellFormed) (position : ℚ) (finding : Finding) :
    checkedOf meter position finding = some (of meter position finding) := by
  unfold checkedOf
  rw [h.checkedBeatAt_eq]
  rfl

theorem checkedOfElement_eq (h : meter.WellFormed) (skipHarmony : Bool) (place : Place ℚ)
    (element : MeasureElement ℚ) :
    checkedOfElement skipHarmony meter place element =
      some (ofElement? skipHarmony meter place element).toList := by
  cases element with
  | note note =>
      unfold checkedOfElement ofElement?
      dsimp only
      cases note.sounds? with
      | none => rfl
      | some pitch =>
          dsimp only
          rw [pitch.checkedSpelling_eq, Option.bind_eq_bind, Option.bind_some,
            checkedOf_eq h]
          rfl
  | harmony harmony =>
      unfold checkedOfElement ofElement?
      dsimp only
      split
      · rfl
      · cases harmony.label? with
        | none => rfl
        | some label =>
            dsimp only
            rw [checkedOf_eq h]
            rfl
  | direction mark => rfl
  | backup duration => rfl
  | forward duration => rfl

theorem checkedOfElements_eq (h : meter.WellFormed) (skipHarmony : Bool) (place : Place ℚ)
    (elements : List (MeasureElement ℚ)) :
    checkedOfElements skipHarmony meter place elements =
      some (ofElements skipHarmony meter place elements) := by
  induction elements generalizing place with
  | nil => rfl
  | cons element rest ih =>
      rw [checkedOfElements, checkedOfElement_eq h, Option.bind_eq_bind, Option.bind_some, ih,
        ofElements]
      rfl

end Contribution

namespace Part

def checkedContributions (skipHarmony : Bool) (part : Part ℚ) :
    Option (List (List (Contribution ℚ))) :=
  (meteredFrom .initial part.measures).mapM fun metered =>
    Contribution.checkedOfElements skipHarmony metered.1 Place.start metered.2.elements

theorem wellFormed_meteredFrom {measures : List (Measure ℚ)}
    (hmeasures : ∀ measure ∈ measures, measure.WellFormed) {meter : Meter}
    (hmeter : meter.WellFormed) :
    ∀ metered ∈ meteredFrom meter measures, metered.1.WellFormed := by
  induction measures generalizing meter with
  | nil => exact fun metered hmetered => by cases hmetered
  | cons measure rest ih =>
      have hnext := hmeter.update (hmeasures measure List.mem_cons_self).attributes_wellFormed
      intro metered hmetered
      rcases List.mem_cons.mp hmetered with rfl | hrest
      · exact hnext
      · exact ih (fun other hother => hmeasures other (List.mem_cons_of_mem measure hother))
          hnext metered hrest

theorem WellFormed.checkedContributions_eq {part : Part ℚ} (hpart : part.WellFormed)
    (skipHarmony : Bool) :
    part.checkedContributions skipHarmony = some (part.contributions skipHarmony) :=
  mapM_eq_some fun metered hmetered => Contribution.checkedOfElements_eq
    (wellFormed_meteredFrom hpart Meter.wellFormed_initial metered hmetered) _ _ _

end Part

namespace Score

def checkedProgression (score : Score ℚ) (options : Options) :
    Option (List (ProgressionEntry ℚ)) := do
  let contributions ← score.parts.mapM (Part.checkedContributions options.skipHarmony)
  let parts := contributions.map List.toArray
  let bars := (parts.map Array.size).foldl max 0
  some (Progression.entriesFrom options.groupSimultaneous none
    ((List.range bars).flatMap fun index =>
      (Onset.ofBar (parts.flatMap fun part => part.getD index [])).map (index + 1, ·)))

theorem WellFormed.checkedProgression_eq {score : Score ℚ} (hscore : score.WellFormed)
    (options : Options) :
    score.checkedProgression options = some (score.progression options) := by
  have hparts := mapM_eq_some fun part (hpart : part ∈ score.parts) =>
    (hscore part hpart).checkedContributions_eq options.skipHarmony
  unfold checkedProgression
  rw [hparts, Option.bind_eq_bind, Option.bind_some]
  dsimp only
  rw [List.map_map]
  rfl

/-- The checked runs give the notes and the progression. -/
structure Guarded (score : Score ℚ) : Prop where
  noteEvents : ∀ idPrefix,
    score.checkedNoteEvents idPrefix = some (score.noteEvents idPrefix).value
  progression : ∀ options,
    score.checkedProgression options = some (score.progression options)

theorem WellFormed.guarded {score : Score ℚ} (h : score.WellFormed) : score.Guarded :=
  ⟨h.checkedNoteEvents_eq, h.checkedProgression_eq⟩

/-- What is declared in a score that is read is positive, its ramps have a length and
positive tempos, and no division and no lookup of its runs can fail, also under a forced
tempo. -/
theorem guarded_of_isRead {score : Score ℚ} (hscore : score.IsRead) :
    score.WellFormed ∧
      (∀ number, ∀ ramp ∈ (score.tempoMap number).value.ramps, ramp.WellFormed) ∧
      score.Guarded ∧ ∀ tempo > 0, (score.forced tempo).Guarded :=
  have hwell := hscore.wellFormed
  ⟨hwell, fun number => (hwell.tempoMap number).ramps, hwell.guarded,
    fun _ htempo => (hwell.forced htempo).guarded⟩

end Score

/-- A note with a slashed grace note and a trill, tied over a bar line under a ramp. -/
def tiedTrill : Score ℚ where
  parts := [⟨"P1", [
    { number := "1"
      attributes := ⟨some 2, some ⟨3, 4⟩, none⟩
      elements := [
        .direction ⟨["rit."], none⟩,
        .note { Note.plain (some ⟨.d, 0, 5⟩) 0 with grace := some .slashed },
        .note { Note.plain (some ⟨.c, 0, 5⟩) 6 with
          tie := ⟨true, false⟩, ornaments := [.trill] }] },
    { number := "2"
      attributes := .none
      elements := [.note { Note.plain (some ⟨.c, 0, 5⟩) 2 with tie := ⟨false, true⟩ }] }]⟩]

section Text

open Markup (tagged)

private def pitchedText (letter : Char) (content : List (List Char)) : List Char :=
  tagged "note" [] (content ++ [
    tagged "pitch" [] [tagged "step" [] [[letter]], tagged "octave" [] [['5']]]])

private def tiedTrillText : List Char :=
  tagged "score-partwise" [] [tagged "part" [" id=", "\"P1\""] [
    tagged "measure" [" number=", "\"1\""] [
      tagged "attributes" [] [
        tagged "divisions" [] [['2']],
        tagged "time" [] [tagged "beats" [] [['3']], tagged "beat-type" [] [['4']]]],
      tagged "direction" [] [tagged "direction-type" [] [tagged "words" [] ["rit.".toList]]],
      pitchedText 'D' [tagged "grace" [" slash=", "\"yes\""] []],
      pitchedText 'C' [
        tagged "duration" [] [['6']],
        tagged "tie" [" type=", "\"start\""] [],
        tagged "notations" [] [tagged "ornaments" [] [tagged "trill-mark" [] []]]]],
    tagged "measure" [" number=", "\"2\""] [
      pitchedText 'C' [
        tagged "duration" [] [['2']],
        tagged "tie" [" type=", "\"stop\""] []]]]]

end Text

theorem guarded_tiedTrill :
    tiedTrill.IsRead ∧ tiedTrill.Guarded ∧ (tiedTrill.forced 90).Guarded := by
  have hread : tiedTrill.IsRead :=
    Score.isRead_of_characters tiedTrillText (by decide +kernel)
  obtain ⟨_, _, hguarded, hforced⟩ := Score.guarded_of_isRead hread
  exact ⟨hread, hguarded, hforced 90 (by norm_num)⟩

end Rubato
