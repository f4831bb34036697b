import Rubato.Proofs.Ornament
import Rubato.Proofs.Share
import Rubato.Proofs.Tempo.Written
import Rubato.Timeline

namespace Rubato

variable {α : Type} [Quantity α]

theorem PlayedNote.map_modify_lengthen {β : Type} {aspect : PlayedNote α → β}
    (haspect : ∀ seconds played, aspect (lengthen seconds played) = aspect played)
    (notes : List (PlayedNote α)) (index : Nat) (seconds : α) :
    (notes.modify index (lengthen seconds)).map aspect = notes.map aspect :=
  map_modify_of_eq (haspect seconds) notes index

namespace OpenTies

variable (ties : OpenTies) (key : TieKey) (index : Nat)

@[simp] theorem find?_remove_self : (ties.remove key).find? key = none := by
  unfold find? remove
  rw [List.lookup_eq_none_iff]
  intro entry hentry
  have hne : entry.1 ≠ key := of_decide_eq_true (List.mem_filter.mp hentry).2
  exact bne_iff_ne.mpr hne.symm

theorem find?_remove_of_ne {other : TieKey} (h : other ≠ key) :
    (ties.remove key).find? other = ties.find? other := by
  unfold find? remove
  induction ties with
  | nil => rfl
  | cons entry rest ih =>
      obtain ⟨opened, target⟩ := entry
      by_cases hopened : opened = key
      · rw [List.filter_cons_of_neg (by simpa using hopened), ih, List.lookup_cons,
          beq_false_of_ne (hopened ▸ h)]
      · rw [List.filter_cons_of_pos (by simpa using hopened), List.lookup_cons,
          List.lookup_cons, ih]

@[simp] theorem find?_insert_self : (ties.insert key index).find? key = some index := by
  unfold find? insert
  rw [List.lookup_cons_self]

theorem find?_insert_of_ne {other : TieKey} (h : other ≠ key) :
    (ties.insert key index).find? other = ties.find? other := by
  rw [← find?_remove_of_ne ties key h]
  unfold find? insert
  rw [List.lookup_cons, beq_false_of_ne h]

theorem find?_remove (other : TieKey) :
    (ties.remove key).find? other = if other = key then none else ties.find? other := by
  split
  · next h => rw [h, find?_remove_self]
  · next h => exact find?_remove_of_ne ties key h

theorem find?_insert (other : TieKey) :
    (ties.insert key index).find? other = if other = key then some index else ties.find? other := by
  split
  · next h => rw [h, find?_insert_self]
  · next h => exact find?_insert_of_ne ties key index h

variable {ties key index} {marks : TieMarks}

theorem action_eq_begin_iff : ties.action marks key = .begin ↔ marks.stop = false := by
  unfold action
  cases marks.stop <;> cases ties.find? key <;> cases marks.start <;> simp

theorem action_eq_restart_iff : ties.action marks key = .restart ↔
    marks.stop = true ∧ ties.find? key = none ∧ marks.start = true := by
  unfold action
  cases marks.stop <;> cases ties.find? key <;> cases marks.start <;> simp

theorem action_eq_extend_iff : ties.action marks key = .extend index ↔
    marks.stop = true ∧ ties.find? key = some index := by
  unfold action
  cases marks.stop <;> cases ties.find? key <;> cases marks.start <;> simp

theorem action_eq_drop_iff : ties.action marks key = .drop ↔
    marks.stop = true ∧ ties.find? key = none ∧ marks.start = false := by
  unfold action
  cases marks.stop <;> cases ties.find? key <;> cases marks.start <;> simp

end OpenTies

def TieAction.map (f : Nat → Nat) : TieAction → TieAction
  | .extend index => .extend (f index)
  | action => action

theorem OpenTies.action_map {ties other : OpenTies} {key : TieKey} {f : Nat → Nat}
    (h : other.find? key = (ties.find? key).map f) (marks : TieMarks) :
    other.action marks key = (ties.action marks key).map f := by
  unfold action
  rw [h]
  cases marks.stop with
  | false => rfl
  | true =>
      cases ties.find? key with
      | some index => rfl
      | none => cases marks.start <;> rfl

namespace PlayedNote

def writtenNames (notes : List (PlayedNote α)) : List String :=
  (notes.filter fun played => !played.ornamental).map (·.name)

omit [Quantity α] in
theorem writtenNames_append (first second : List (PlayedNote α)) :
    writtenNames (first ++ second) = writtenNames first ++ writtenNames second := by
  unfold writtenNames
  rw [List.filter_append, List.map_append]

theorem writtenNames_modify_lengthen (notes : List (PlayedNote α)) (index : Nat)
    (seconds : α) :
    writtenNames (notes.modify index (lengthen seconds)) = writtenNames notes := by
  have haspects : ∀ others : List (PlayedNote α), writtenNames others =
      ((others.map fun played => (played.ornamental, played.name)).filter
        fun aspect => !aspect.1).map (·.2) := by
    intro others
    rw [List.filter_map, List.map_map]
    rfl
  rw [haspects, haspects, map_modify_lengthen fun _ _ => rfl]

end PlayedNote

namespace Clock

theorem written_figure (clock : Clock α) (fifths : Int) (note : Note) (pitch : Pitch)
    (available : α) : (clock.figure fifths note pitch available).written = [pitch.number] := by
  unfold figure
  split
  · exact Ornament.written_expand _ pitch.number available fifths _
  · rfl

theorem written_playNote (clock : Clock α) (fifths : Int) (note : Note) (pitch : Pitch)
    (position : α) (graces : List GraceNote) :
    PlayedNote.writtenNames (clock.playNote fifths note pitch position graces) =
      [pitch.name] := by
  have hgraces : (clock.playGraces note position
      (clock.graceRun note position graces)).filter (fun played => !played.ornamental) = [] := by
    unfold playGraces
    rw [List.filter_map, List.map_eq_nil_iff, List.filter_eq_nil_iff]
    exact fun _ _ h => by cases h
  have hfigure := clock.written_figure fifths note pitch
    ((note.duration : α) - (clock.graceRun note position graces).stolen)
  unfold PlayedNote.writtenNames playNote playMain
  dsimp only
  rw [List.filter_append, hgraces, List.nil_append, List.filter_map, List.map_map]
  unfold Figure.written at hfigure
  obtain ⟨written, hwritten, hpitch⟩ := List.map_eq_singleton_iff.mp hfigure
  show List.map _ (List.filter (fun part : FigureNote α => !part.ornamental) _) = _
  rw [hwritten, List.map_singleton]
  exact congrArg (fun name => [name]) (if_pos hpitch)

theorem playNote_ne_nil (clock : Clock α) (fifths : Int) (note : Note) (pitch : Pitch)
    (position : α) (graces : List GraceNote) :
    clock.playNote fifths note pitch position graces ≠ [] := by
  intro hnil
  have hwritten := clock.written_playNote fifths note pitch position graces
  rw [hnil] at hwritten
  cases hwritten

end Clock

namespace Walker

/-- The walker behind the last element of a measure, before it leaves it. -/
def through (walker : Walker α) (measure : Measure α) : Walker α :=
  ((walker.enter measure.attributes).elements measure.elements).value

theorem value_measure (walker : Walker α) (measure : Measure α) :
    (walker.measure measure).value = (walker.through measure).leave := rfl

section Note

variable (walker : Walker α) (note : Note) (pitch : Pitch) (key : TieKey) (position : α)
  (graces : List GraceNote) (index : Nat)

theorem notes_begin : (walker.begin note pitch key position graces).notes =
    walker.notes ++ walker.clock.playNote walker.meter.fifths note pitch position graces := rfl

theorem ties_begin : (walker.begin note pitch key position graces).ties =
    if note.tie.start then
      walker.ties.insert key ((walker.begin note pitch key position graces).notes.length - 1)
    else walker.ties := rfl

theorem notes_extend : (walker.extend note key position index).notes =
    walker.notes.modify index
      (PlayedNote.lengthen (walker.clock.spanSeconds position (note.duration : α))) := rfl

theorem ties_extend : (walker.extend note key position index).ties =
    if note.tie.start then walker.ties else walker.ties.remove key := rfl

theorem find?_ties_begin (other : TieKey) :
    (walker.begin note pitch key position graces).ties.find? other =
      if note.tie.start = true ∧ other = key then
        some ((walker.begin note pitch key position graces).notes.length - 1)
      else walker.ties.find? other := by
  rw [ties_begin]
  cases note.tie.start with
  | true =>
      rw [if_pos rfl, OpenTies.find?_insert]
      simp only [true_and]
  | false => rfl

theorem find?_ties_extend (other : TieKey) :
    (walker.extend note key position index).ties.find? other =
      if note.tie.start = false ∧ other = key then none else walker.ties.find? other := by
  rw [ties_extend]
  cases note.tie.start with
  | true => rfl
  | false =>
      rw [if_neg Bool.false_ne_true, OpenTies.find?_remove]
      simp only [true_and]

theorem length_lt_begin :
    walker.notes.length < (walker.begin note pitch key position graces).notes.length := by
  have hplayed := List.length_pos_of_ne_nil
    (walker.clock.playNote_ne_nil walker.meter.fifths note pitch position graces)
  rw [notes_begin, List.length_append]
  omega

end Note

theorem clock_place (walker : Walker α) (note : Note) (pitch : Pitch) (position : α)
    (graces : List GraceNote) :
    (walker.place note pitch position graces).value.clock = walker.clock ∧
      (walker.place note pitch position graces).value.meter = walker.meter := by
  unfold place
  dsimp only
  split <;> exact ⟨rfl, rfl⟩

theorem value_place (walker : Walker α) (note : Note) (pitch : Pitch) (position : α)
    (graces : List GraceNote) :
    (walker.place note pitch position graces).value =
      match walker.ties.action note.tie (TieKey.ofNote note pitch) with
      | .begin | .restart =>
        walker.begin note pitch (TieKey.ofNote note pitch) position graces
      | .extend index => walker.extend note (TieKey.ofNote note pitch) position index
      | .drop => walker := by
  unfold place
  dsimp only
  cases walker.ties.action note.tie (TieKey.ofNote note pitch) <;> rfl

end Walker

/-- A walk through the elements of a measure that keeps values only. -/
def MeasureWalk.after (walk : MeasureWalk α) (elements : List (MeasureElement α)) :
    MeasureWalk α :=
  elements.foldl (fun walk element => (walk.step element).value) walk

theorem Walker.value_elements (walker : Walker α) (elements : List (MeasureElement α)) :
    (walker.elements elements).value =
      (MeasureWalk.after ⟨walker, Place.start, []⟩ elements).walker := by
  unfold Walker.elements MeasureWalk.after
  rw [Noted.value_bind, Noted.value_foldList]
  rfl

namespace MeasureWalk

@[simp] theorem after_cons (walk : MeasureWalk α) (element : MeasureElement α)
    (rest : List (MeasureElement α)) :
    walk.after (element :: rest) = (walk.step element).value.after rest := rfl

@[simp] theorem place_step (walk : MeasureWalk α) (element : MeasureElement α) :
    (walk.step element).value.place = walk.place.after element := rfl

theorem meter_step (walk : MeasureWalk α) (element : MeasureElement α) :
    (walk.step element).value.walker.meter = walk.walker.meter := by
  simp only [step, Noted.value_bind, Noted.value_pure, walkerAfter]
  cases element with
  | direction mark =>
      simp only [direction, Noted.value_pure]
      split <;> rfl
  | note note =>
      dsimp only
      split
      · rfl
      · split
        · exact (Walker.clock_place ..).2
        · rfl
  | harmony harmony => rfl
  | backup duration => rfl
  | forward duration => rfl

theorem walkerAfter_of_isGrace (walk : MeasureWalk α) {note : Note}
    (h : note.isGrace = true) : walk.walkerAfter (.note note) = pure walk.walker :=
  if_pos h

theorem walkerAfter_of_rest (walk : MeasureWalk α) {note : Note} (h : note.pitch = none) :
    walk.walkerAfter (.note note) = pure walk.walker := by
  unfold walkerAfter
  dsimp only
  rw [h, ite_self]

theorem walkerAfter_of_pitch (walk : MeasureWalk α) {note : Note} {pitch : Pitch}
    (hgrace : note.isGrace = false) (hpitch : note.pitch = some pitch) :
    walk.walkerAfter (.note note) =
      walk.walker.place note pitch (walk.place.onset note) walk.graces := by
  unfold walkerAfter
  dsimp only
  rw [hgrace, hpitch]
  rfl

theorem clock_step (walk : MeasureWalk α) (element : MeasureElement α) :
    (walk.step element).value.walker.clock =
      { walk.walker.clock with
        segments := walk.walker.clock.segments.setAll
          (element.tempo?.map (TempoSegment.mk walk.place.cursor)).toList } := by
  simp only [step, Noted.value_bind, Noted.value_pure, walkerAfter]
  cases element with
  | direction mark =>
      simp only [direction, Noted.value_pure, MeasureElement.tempo?]
      cases mark.tempo <;> rfl
  | note note =>
      dsimp only
      split
      · rfl
      · split
        · exact (Walker.clock_place ..).1
        · rfl
  | harmony harmony => rfl
  | backup duration => rfl
  | forward duration => rfl

theorem after_eq (walk : MeasureWalk α) (elements : List (MeasureElement α)) :
    (walk.after elements).walker.meter = walk.walker.meter ∧
      (walk.after elements).walker.clock =
        { walk.walker.clock with
          segments := walk.walker.clock.segments.setAll (walk.place.tempos elements) } := by
  induction elements generalizing walk with
  | nil => exact ⟨rfl, rfl⟩
  | cons element rest ih =>
      obtain ⟨hmeter, hclock⟩ := ih (walk.step element).value
      rw [after_cons, hmeter, hclock, meter_step, clock_step, place_step, Place.tempos_cons,
        TempoSegments.setAll_append]
      exact ⟨rfl, rfl⟩

end MeasureWalk

namespace Walker

theorem meter_through (walker : Walker α) (measure : Measure α) :
    (walker.through measure).meter = walker.meter.update measure.attributes := by
  unfold through
  rw [value_elements, (MeasureWalk.after_eq _ _).1]
  rfl

/-- The clock behind the elements of a measure: the tempos of the map, then those of
the measure, are set one after the other. -/
theorem clock_through (walker : Walker α) (measure : Measure α) :
    (walker.through measure).clock =
      { walker.clock with
        divisions := (walker.meter.update measure.attributes).divisions
        segments := (walker.clock.seededSegments
          (walker.meter.update measure.attributes).span).setAll measure.tempos } := by
  unfold through
  rw [value_elements, (MeasureWalk.after_eq _ _).2]
  rfl

end Walker

namespace Part

def walkerAt (part : Part α) (map : TempoMap α) (number : Nat) : Walker α :=
  (part.measures.take number).foldl (fun walker measure => (walker.measure measure).value)
    (Walker.initial map)

theorem walkerAt_succ {part : Part α} {map : TempoMap α} {number : Nat}
    {measure : Measure α} (h : part.measures[number]? = some measure) :
    part.walkerAt map (number + 1) = ((part.walkerAt map number).through measure).leave :=
  foldl_take_succ h

theorem walkerAt_of_none {part : Part α} {map : TempoMap α} {number : Nat}
    (h : part.measures[number]? = none) :
    part.walkerAt map (number + 1) = part.walkerAt map number := by
  unfold walkerAt
  rw [take_succ_of_none h]

theorem walkerAt_induction {part : Part α} {map : TempoMap α} {P : Walker α → Prop}
    (hinitial : P (Walker.initial map))
    (hmeasure : ∀ walker measure, measure ∈ part.measures → P walker →
      P (walker.through measure).leave)
    (number : Nat) : P (part.walkerAt map number) := by
  induction number with
  | zero => exact hinitial
  | succ number ih =>
      cases hnext : part.measures[number]? with
      | none =>
          rw [walkerAt_of_none hnext]
          exact ih
      | some measure =>
          rw [walkerAt_succ hnext]
          exact hmeasure _ measure (List.mem_of_getElem? hnext) ih

theorem value_played (part : Part α) (map : TempoMap α) :
    (part.played map).value = (part.walkerAt map part.measures.length).notes := by
  unfold played walkerAt
  rw [Noted.value_bind, Noted.value_foldList, List.take_length]
  unfold Walker.finish
  split <;> rfl

theorem map_walkerAt (part : Part α) (map : TempoMap α) (number : Nat) :
    (part.walkerAt map number).clock.map = map := by
  refine walkerAt_induction (P := fun walker => walker.clock.map = map) rfl ?_ number
  intro walker measure _ hwalker
  show (walker.through measure).clock.map = map
  rw [Walker.clock_through]
  exact hwalker

theorem meter_walkerAt (part : Part α) (map : TempoMap α) (number : Nat) :
    (part.walkerAt map number).meter = part.meterBefore number := by
  induction number with
  | zero => rfl
  | succ number ih =>
      cases hmeasure : part.measures[number]? with
      | none =>
          rw [walkerAt_of_none hmeasure, ih]
          unfold meterBefore
          rw [take_succ_of_none hmeasure]
      | some measure =>
          rw [walkerAt_succ hmeasure]
          show ((part.walkerAt map number).through measure).meter = _
          rw [Walker.meter_through, ih]
          exact (meterAt_eq hmeasure).symm

theorem startPosition_walkerAt (part : Part α) (map : TempoMap α) (number : Nat) :
    (part.walkerAt map number).clock.startPosition = (part.scanAt number).position := by
  induction number with
  | zero => rfl
  | succ number ih =>
      cases hmeasure : part.measures[number]? with
      | none =>
          unfold scanAt
          rw [walkerAt_of_none hmeasure, ih, take_succ_of_none hmeasure]
          rfl
      | some measure =>
          rw [walkerAt_succ hmeasure, scanAt_succ hmeasure, TempoScan.position_measure, ← ih,
            meter_scanAt, ← meter_walkerAt part map, ← Walker.meter_through]
          show ((part.walkerAt map number).through measure).clock.startPosition + _ = _
          rw [Walker.clock_through]

end Part

namespace Score

theorem value_playedParts (score : Score α) (number : Nat) :
    (score.playedParts number).value =
      score.parts.map fun part => (part.played (score.tempoMap number).value).value := by
  unfold playedParts
  rw [Noted.value_bind, Noted.value_mapList]

theorem value_noteEvents (score : Score α) (idPrefix : String) :
    (score.noteEvents idPrefix).value =
      NoteEvent.ofNotes idPrefix (score.playedParts 0).value.flatten := rfl

end Score

end Rubato
