import Rubato.Proofs.Tempo.Position

namespace Rubato

/-! Backups and overfull measures make the positions of a part go back and forth; the tempo
map answers by position all the same. -/

/-- A tempo that a part states, with its measure and element, which count from zero. -/
structure TempoMark where
  number : Nat
  index : Nat
  position : ℚ
  bpm : ℚ
  deriving DecidableEq

namespace TempoMark

def event (mark : TempoMark) : TempoEvent ℚ := ⟨mark.position, mark.bpm⟩

def Before (first second : TempoMark) : Prop :=
  first.number < second.number ∨ first.number = second.number ∧ first.index < second.index

theorem Before.asymm {first second : TempoMark} (h : first.Before second) :
    ¬second.Before first := by
  unfold Before at h ⊢
  omega

end TempoMark

def Measure.cursorAt (measure : Measure ℚ) (index : Nat) : ℚ :=
  ((measure.elements.take index).foldl Place.after Place.start).cursor

/-- The part states a tempo at an element: the lengths of the measures before, and the cursor
in the measure, make its position. -/
def Part.HasMark (part : Part ℚ) (mark : TempoMark) : Prop :=
  ∃ measure, part.measures[mark.number]? = some measure ∧
    measure.elements[mark.index]?.bind MeasureElement.tempo? = some mark.bpm ∧
    mark.position = part.barStart mark.number + measure.cursorAt mark.index

/-- Of the tempos stated up to a position these are the furthest, and of those the last one
in the document. -/
structure Part.HoldsAt (part : Part ℚ) (mark : TempoMark) (position : ℚ) : Prop where
  stated : part.HasMark mark
  upTo : mark.position ≤ position
  furthest : ∀ other, part.HasMark other → other.position ≤ position →
    other.position ≤ mark.position
  last : ∀ other, part.HasMark other → other.position = mark.position →
    other = mark ∨ other.Before mark

theorem Part.HoldsAt.unique {part : Part ℚ} {first second : TempoMark} {position : ℚ}
    (hfirst : part.HoldsAt first position) (hsecond : part.HoldsAt second position) :
    first = second := by
  have hposition : first.position = second.position :=
    le_antisymm (hsecond.furthest first hfirst.stated hfirst.upTo)
      (hfirst.furthest second hsecond.stated hsecond.upTo)
  rcases hsecond.last first hfirst.stated hposition with hsame | hbefore
  · exact hsame
  rcases hfirst.last second hsecond.stated hposition.symm with hsame | hbehind
  · exact hsame.symm
  · exact absurd hbehind hbefore.asymm

namespace Place

def marks (number : Nat) (start : ℚ) (place : Place ℚ) (index : Nat) :
    List (MeasureElement ℚ) → List TempoMark
  | [] => []
  | element :: rest =>
    (element.tempo?.map fun bpm => ⟨number, index, start + place.cursor, bpm⟩).toList ++
      marks number start (place.after element) (index + 1) rest

variable {number : Nat} {start : ℚ}

theorem map_event_marks (place : Place ℚ) (index : Nat) (elements : List (MeasureElement ℚ)) :
    (place.marks number start index elements).map TempoMark.event =
      (place.tempos elements).map (TempoSegment.event start) := by
  induction elements generalizing place index with
  | nil => rfl
  | cons element rest ih =>
      rw [marks, tempos_cons, List.map_append, List.map_append, ih, map_event_tempo?]
      cases element.tempo? <;> rfl

theorem mem_marks {place : Place ℚ} {index : Nat} {elements : List (MeasureElement ℚ)}
    {mark : TempoMark} :
    mark ∈ place.marks number start index elements ↔
      mark.number = number ∧ ∃ walked, mark.index = index + walked ∧
        elements[walked]?.bind MeasureElement.tempo? = some mark.bpm ∧
        mark.position = start + ((elements.take walked).foldl after place).cursor := by
  induction elements generalizing place index with
  | nil => simp [marks]
  | cons element rest ih =>
      rw [marks, List.mem_append, Option.mem_toList, Option.map_eq_some_iff, ih]
      constructor
      · rintro (⟨bpm, hbpm, rfl⟩ | ⟨hnumber, walked, hindex, hbpm, hposition⟩)
        · exact ⟨rfl, 0, rfl, hbpm, rfl⟩
        · exact ⟨hnumber, walked + 1, by omega, hbpm, hposition⟩
      · rintro ⟨hnumber, walked, hindex, hbpm, hposition⟩
        cases walked with
        | zero =>
            refine .inl ⟨mark.bpm, hbpm, ?_⟩
            cases mark
            simp_all
        | succ walked => exact .inr ⟨hnumber, walked, by omega, hbpm, hposition⟩

theorem pairwise_marks (place : Place ℚ) (index : Nat) (elements : List (MeasureElement ℚ)) :
    (place.marks number start index elements).Pairwise TempoMark.Before := by
  induction elements generalizing place index with
  | nil => exact List.Pairwise.nil
  | cons element rest ih =>
      rw [marks, List.pairwise_append]
      refine ⟨?_, ih _ _, ?_⟩
      · cases element.tempo? with
        | none => exact List.Pairwise.nil
        | some bpm => exact List.pairwise_singleton _ _
      · intro first hfirst second hsecond
        obtain ⟨bpm, -, rfl⟩ := Option.map_eq_some_iff.mp (Option.mem_toList.mp hfirst)
        obtain ⟨hnumber, walked, hindex, -⟩ := mem_marks.mp hsecond
        refine .inr ⟨hnumber.symm, ?_⟩
        show index < second.index
        omega

end Place

namespace Part

variable {part : Part ℚ}

def marksIn (part : Part ℚ) (number : Nat) : List TempoMark :=
  (part.measures[number]?.map fun measure =>
    Place.start.marks number (part.barStart number) 0 measure.elements).getD []

theorem mem_marksIn {number : Nat} {mark : TempoMark} :
    mark ∈ part.marksIn number ↔ part.HasMark mark ∧ mark.number = number := by
  unfold marksIn HasMark
  constructor
  · intro h
    cases hmeasure : part.measures[number]? with
    | none =>
        rw [hmeasure] at h
        cases h
    | some measure =>
        rw [hmeasure, Option.map_some, Option.getD_some, Place.mem_marks] at h
        obtain ⟨rfl, walked, hindex, hbpm, hposition⟩ := h
        rw [← zero_add walked, ← hindex] at hbpm hposition
        exact ⟨⟨measure, hmeasure, hbpm, hposition⟩, rfl⟩
  · rintro ⟨⟨measure, hmeasure, hbpm, hposition⟩, rfl⟩
    rw [hmeasure, Option.map_some, Option.getD_some, Place.mem_marks]
    exact ⟨rfl, mark.index, (zero_add _).symm, hbpm, hposition⟩

theorem pairwise_marksIn (part : Part ℚ) (number : Nat) :
    (part.marksIn number).Pairwise TempoMark.Before := by
  unfold marksIn
  cases part.measures[number]? with
  | none => exact List.Pairwise.nil
  | some measure => exact Place.pairwise_marks Place.start 0 measure.elements

theorem events_scanAt {number : Nat} (h : number ≤ part.measures.length) :
    (part.scanAt number).events =
      ((List.range number).flatMap part.marksIn).map TempoMark.event := by
  induction number with
  | zero => rfl
  | succ number ih =>
      have hmeasure := List.getElem?_eq_getElem (Nat.lt_of_succ_le h)
      have hbefore := Nat.le_of_succ_le h
      have hmarks : (part.marksIn number).map TempoMark.event =
          part.measures[number].tempos.map (TempoSegment.event (part.barStart number)) := by
        unfold marksIn
        rw [hmeasure]
        exact Place.map_event_marks Place.start 0 part.measures[number].elements
      rw [scanAt_succ hmeasure, TempoScan.events_measure, ih hbefore, position_scanAt hbefore,
        List.range_succ, List.flatMap_append, List.map_append, List.flatMap_singleton, hmarks]

def marks (part : Part ℚ) : List TempoMark :=
  (List.range part.measures.length).flatMap part.marksIn

theorem events_eq_marks (part : Part ℚ) : part.events = part.marks.map TempoMark.event :=
  events_scanAt le_rfl

theorem mem_marks {mark : TempoMark} : mark ∈ part.marks ↔ part.HasMark mark := by
  unfold marks
  rw [List.mem_flatMap]
  constructor
  · rintro ⟨number, -, hmark⟩
    exact (mem_marksIn.mp hmark).1
  · intro hmark
    have ⟨measure, hmeasure, _⟩ := hmark
    have hnumber := (List.getElem?_eq_some_iff.mp hmeasure).1
    exact ⟨mark.number, List.mem_range.mpr hnumber, mem_marksIn.mpr ⟨hmark, rfl⟩⟩

theorem pairwise_marks (part : Part ℚ) : part.marks.Pairwise TempoMark.Before := by
  unfold marks
  rw [List.pairwise_flatMap]
  refine ⟨fun number _ => part.pairwise_marksIn number, List.pairwise_lt_range.imp ?_⟩
  intro earlier later hlt first hfirst second hsecond
  rw [← (mem_marksIn.mp hfirst).2, ← (mem_marksIn.mp hsecond).2] at hlt
  exact .inl hlt

theorem holdsAt_of_lastAt? {position : ℚ} {mark : TempoMark}
    (hlast : lastAt? TempoMark.position part.marks mark.position = some mark)
    (hupTo : mark.position ≤ position)
    (hfurthest : ∀ other ∈ part.marks, other.position ≤ position →
      other.position ≤ mark.position) :
    part.HoldsAt mark position where
  stated := mem_marks.mp (lastAt?_mem hlast).1
  upTo := hupTo
  furthest other hother := hfurthest other (mem_marks.mpr hother)
  last other hother := lastAt?_of_pairwise part.pairwise_marks hlast other (mem_marks.mpr hother)

end Part

namespace TempoMap

/-- Either no tempo is stated up to a position, or one holds there; in the map of the part it
is the tempo of that position. -/
theorem tempoAt_eq_or_exists_holdsAt (part : Part ℚ) (position : ℚ) :
    (∀ mark, part.HasMark mark → position < mark.position) ∧
        (TempoMap.ofPart part).value.tempoAt position = 120 ∨
      ∃ mark, part.HoldsAt mark position ∧
        (TempoMap.ofPart part).value.tempoAt position = mark.bpm := by
  have hsorted := sorted_ofPart part
  have hmem : ∀ mark ∈ part.marks, mark.event ∈ (TempoMap.ofPart part).value.events := by
    intro mark hmark
    rw [mem_events_ofPart, part.events_eq_marks]
    exact List.mem_map_of_mem hmark
  rw [hsorted.tempoAt_eq]
  cases hlast : lastUpTo? TempoEvent.position (TempoMap.ofPart part).value.events position with
  | none =>
      refine .inl ⟨fun mark hmark => ?_, rfl⟩
      exact lastUpTo?_eq_none_iff.mp hlast mark.event (hmem mark (Part.mem_marks.mpr hmark))
  | some event =>
      obtain ⟨hevent, hupTo, hgreatest⟩ := lastUpTo?_greatest hsorted hlast
      -- The sort does not change which event is the last one at its position.
      rw [lastUpTo?_eq_lastAt? hsorted ⟨event, hevent, rfl⟩ hupTo hgreatest, lastAt?_ofPart,
        part.events_eq_marks, lastAt?_map fun _ => Iff.rfl] at hlast
      obtain ⟨mark, hmark, rfl⟩ := Option.map_eq_some_iff.mp hlast
      refine .inr ⟨mark, Part.holdsAt_of_lastAt? hmark hupTo fun other hother => ?_, rfl⟩
      exact hgreatest other.event (hmem other hother)

/-- The map of a part answers by position: a tempo that holds at a position is the tempo
there, and one does unless all lie behind the position. -/
theorem tempoAt_ofPart (part : Part ℚ) (position : ℚ) :
    (∀ mark, part.HoldsAt mark position →
        (TempoMap.ofPart part).value.tempoAt position = mark.bpm) ∧
      ((∃ mark, part.HoldsAt mark position) ∨
        (∀ mark, part.HasMark mark → position < mark.position) ∧
          (TempoMap.ofPart part).value.tempoAt position = 120) := by
  rcases tempoAt_eq_or_exists_holdsAt part position with hnone | ⟨mark, hmark, htempo⟩
  · refine ⟨fun mark hmark => ?_, .inr hnone⟩
    exact absurd hmark.upTo (not_le.mpr (hnone.1 mark hmark.stated))
  · refine ⟨fun other hother => ?_, .inl ⟨mark, hmark⟩⟩
    rw [htempo, hmark.unique hother]

end TempoMap

end Rubato
