import Rubato.Proofs.Performance.Begun
import Rubato.Proofs.Performance.Layout

namespace Rubato

/-! A part laid out in divisions, without a tempo: where each note that is played lies in
its measure, how long it is there, and which notes are tied to it in later measures. -/

/-- A note that lengthens one that was played before. -/
structure TiedNote where
  bar : Nat
  duration : Nat
  deriving DecidableEq, Repr

/-- A note laid out in a measure, with the notes tied to it. -/
structure ScoredNote where
  bar : Nat
  laid : LaidNote
  tied : List TiedNote
  deriving DecidableEq

def ScoredNote.extend (tied : TiedNote) (scored : ScoredNote) : ScoredNote :=
  { scored with tied := scored.tied ++ [tied] }

structure Layout where
  ties : OpenTies
  notes : List ScoredNote
  deriving DecidableEq

namespace Part

variable (part : Part ℚ) (bpm : ℚ)

def secondsAt (bar : Nat) (count : ℚ) : ℚ :=
  count * 60 / (bpm * (part.meterAt bar).divisions)

def startAt (number : Nat) : ℚ :=
  ∑ earlier ∈ Finset.range number, part.secondsAt bpm earlier (part.meterAt earlier).span

def quartersBefore (number : Nat) : ℚ :=
  ∑ earlier ∈ Finset.range number,
    (part.meterAt earlier).span / (part.meterAt earlier).divisions

/-- The run before a note of a measure, on the beat if it would begin before the score. -/
def runBefore (bar : Nat) (note : Note) (position : ℚ) (graces : List GraceNote) :
    GraceRun ℚ :=
  let divisions : ℚ := (part.meterAt bar).divisions
  let run := GraceRun.ofGroup graces (note.duration : ℚ) note.isDotted (divisions / 8)
  if graces ≠ [] ∧ run.onBeat = false ∧
      part.quartersBefore bar + (position - run.stolen) / divisions < 0 then
    run.movedOntoBeat
  else run

end Part

def ScoredNote.played (part : Part ℚ) (bpm : ℚ) (scored : ScoredNote) : PlayedNote ℚ where
  time := part.startAt bpm scored.bar + part.secondsAt bpm scored.bar scored.laid.offset
  pitch := scored.laid.pitch
  name := scored.laid.name
  duration := part.secondsAt bpm scored.bar scored.laid.length +
    (scored.tied.map fun tied => part.secondsAt bpm tied.bar tied.duration).sum
  staff := scored.laid.staff
  ornamental := scored.laid.ornamental

namespace Layout

variable (part : Part ℚ) (bar : Nat) (layout : Layout) (pitched : PitchedNote)
  (position : ℚ) (graces : List GraceNote)

def begin : Layout :=
  let meter := part.meterAt bar
  let run := part.runBefore bar pitched.note position graces
  let laid := pitched.note.layOut meter.divisions meter.fifths pitched.pitch position run
  let notes := layout.notes ++ laid.map fun laid => ⟨bar, laid, []⟩
  { notes
    ties := if pitched.note.tie.start then layout.ties.insert pitched.key (notes.length - 1)
      else layout.ties }

def extend (index : Nat) : Layout where
  notes := layout.notes.modify index (ScoredNote.extend ⟨bar, pitched.note.duration⟩)
  ties := if pitched.note.tie.start then layout.ties else layout.ties.remove pitched.key

def place : Layout :=
  match layout.ties.action pitched.note.tie pitched.key with
  | .begin | .restart => layout.begin part bar pitched position graces
  | .extend index => layout.extend bar pitched index
  | .drop => layout

end Layout

structure LayoutWalk where
  layout : Layout
  place : Place ℚ
  graces : List GraceNote
  deriving DecidableEq

def LayoutWalk.step (part : Part ℚ) (bar : Nat) (walk : LayoutWalk)
    (element : MeasureElement ℚ) : LayoutWalk where
  layout :=
    match element.pitched? with
    | some pitched =>
      walk.layout.place part bar pitched (walk.place.onset pitched.note) walk.graces
    | none => walk.layout
  place := walk.place.after element
  graces := MeasureWalk.gracesAfter walk.graces element

def Layout.through (part : Part ℚ) (bar : Nat) (layout : Layout) (measure : Measure ℚ) :
    Layout :=
  (measure.elements.foldl (LayoutWalk.step part bar) ⟨layout, Place.start, []⟩).layout

def Part.layoutBefore (part : Part ℚ) : Nat → Layout
  | 0 => ⟨[], []⟩
  | number + 1 =>
    match part.measures[number]? with
    | some measure => (part.layoutBefore number).through part number measure
    | none => part.layoutBefore number

/-- The notes of a part, laid out in the order in which they are played. -/
def Part.layout (part : Part ℚ) : List ScoredNote :=
  (part.layoutBefore part.measures.length).notes

theorem Part.layoutBefore_succ {part : Part ℚ} {number : Nat} {measure : Measure ℚ}
    (h : part.measures[number]? = some measure) :
    part.layoutBefore (number + 1) = (part.layoutBefore number).through part number measure := by
  rw [layoutBefore, h]

theorem Part.SameMusic.meterAt_eq {part other : Part ℚ} (h : part.SameMusic other) :
    part.meterAt = other.meterAt := by
  have hattributes : part.measures.map (·.attributes) = other.measures.map (·.attributes) :=
    map_eq_map_iff.mpr (h.imp fun _ _ hmeasure => hmeasure.attributes)
  have hmeters : ∀ (written : Part ℚ) (number : Nat), written.meterAt number =
      ((written.measures.map (·.attributes)).take (number + 1)).foldl Meter.update .initial := by
    intro written number
    rw [← List.map_take, List.foldl_map]
    rfl
  funext number
  rw [hmeters, hmeters, hattributes]

section Meters

variable {part other : Part ℚ} (hmeters : part.meterAt = other.meterAt)

include hmeters

theorem Part.runBefore_congr : part.runBefore = other.runBefore := by
  unfold Part.runBefore Part.quartersBefore
  rw [hmeters]

theorem Part.startAt_congr : part.startAt = other.startAt := by
  unfold Part.startAt Part.secondsAt
  rw [hmeters]

theorem ScoredNote.played_congr : ScoredNote.played part = ScoredNote.played other := by
  unfold ScoredNote.played Part.secondsAt
  rw [hmeters, Part.startAt_congr hmeters]

theorem Layout.place_congr : Layout.place part = Layout.place other := by
  funext bar layout pitched position graces
  unfold Layout.place Layout.begin
  rw [hmeters, Part.runBefore_congr hmeters]

theorem LayoutWalk.step_congr : LayoutWalk.step part = LayoutWalk.step other := by
  funext bar walk element
  unfold LayoutWalk.step
  rw [Layout.place_congr hmeters]

end Meters

namespace LayoutWalk

variable {part : Part ℚ} {bar : Nat}

theorem step_muted (walk : LayoutWalk) (element : MeasureElement ℚ) :
    walk.step part bar element.muted = walk.step part bar element := by
  cases element <;> rfl

theorem foldl_muted (walk : LayoutWalk) (elements : List (MeasureElement ℚ)) :
    (elements.map MeasureElement.muted).foldl (step part bar) walk =
      elements.foldl (step part bar) walk := by
  simp only [List.foldl_map, step_muted]

theorem foldl_of_sameElements {elements others : List (MeasureElement ℚ)}
    (h : SameElements elements others) (layout : Layout) :
    elements.foldl (step part bar) ⟨layout, Place.start, []⟩ =
      others.foldl (step part bar) ⟨layout, Place.start, []⟩ := by
  induction h with
  | same hsame => rw [← foldl_muted, hsame, foldl_muted]
  | left mark _ ih => exact ih
  | right mark _ ih => exact ih

end LayoutWalk

theorem Part.SameMusic.layoutBefore_eq {part other : Part ℚ} (h : part.SameMusic other)
    (number : Nat) : part.layoutBefore number = other.layoutBefore number := by
  obtain ⟨hlength, hmeasures⟩ := List.forall₂_iff_get.mp h
  induction number with
  | zero => rfl
  | succ number ih =>
      rcases lt_or_ge number part.measures.length with hlt | hge
      · have hother := hlength ▸ hlt
        rw [layoutBefore_succ (List.getElem?_eq_getElem hlt),
          layoutBefore_succ (List.getElem?_eq_getElem hother), ih]
        unfold Layout.through
        rw [LayoutWalk.step_congr h.meterAt_eq]
        apply congrArg LayoutWalk.layout
        exact LayoutWalk.foldl_of_sameElements (hmeasures number hlt hother).elements _
      · rw [layoutBefore, layoutBefore, List.getElem?_eq_none hge,
          List.getElem?_eq_none (hlength ▸ hge)]
        exact ih

theorem Part.SameMusic.layout_eq {part other : Part ℚ} (h : part.SameMusic other) :
    part.layout = other.layout := by
  unfold layout
  rw [h.length_eq, h.layoutBefore_eq]

end Rubato
