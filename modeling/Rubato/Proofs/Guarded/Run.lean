import Rubato.Proofs.Guarded.Performance

namespace Rubato

def pred? : Nat → Option Nat
  | 0 => none
  | number + 1 => some number

theorem pred?_of_pos {number : Nat} (h : 0 < number) : pred? number = some (number - 1) := by
  cases number with
  | zero => exact absurd h (lt_irrefl 0)
  | succ number => rfl

namespace Walker

def checkedExtend (walker : Walker ℚ) (note : Note) (key : TieKey) (position : ℚ)
    (index : Nat) : Option (Walker ℚ) := do
  let seconds ← walker.clock.checkedSpanSeconds position (note.duration : ℚ)
  let played ← walker.notes[index]?
  some { walker with
    notes := walker.notes.set index (played.lengthen seconds)
    ties := if note.tie.start then walker.ties else walker.ties.remove key }

def checkedBegin (walker : Walker ℚ) (note : Note) (pitch : Pitch) (key : TieKey)
    (position : ℚ) (graces : List GraceNote) : Option (Walker ℚ) := do
  let played ← walker.clock.checkedPlayNote walker.meter.fifths note pitch position graces
  let notes := walker.notes ++ played
  if note.tie.start then do
    let last ← pred? notes.length
    some { walker with notes, ties := walker.ties.insert key last }
  else some { walker with notes }

def checkedPlace (walker : Walker ℚ) (note : Note) (pitch : Pitch) (position : ℚ)
    (graces : List GraceNote) : Option (Walker ℚ) :=
  match walker.ties.action note.tie (TieKey.ofNote note pitch) with
  | .begin | .restart =>
    walker.checkedBegin note pitch (TieKey.ofNote note pitch) position graces
  | .extend index => walker.checkedExtend note (TieKey.ofNote note pitch) position index
  | .drop => some walker

def TiesWithin (walker : Walker ℚ) : Prop :=
  ∀ key index, walker.ties.find? key = some index → index < walker.notes.length

structure Guarded (walker : Walker ℚ) : Prop where
  grounded : walker.Grounded
  ties : walker.TiesWithin

theorem TiesWithin.begin {walker : Walker ℚ} (h : walker.TiesWithin) (note : Note)
    (pitch : Pitch) (key : TieKey) (position : ℚ) (graces : List GraceNote) :
    (walker.begin note pitch key position graces).TiesWithin := by
  have hmore := walker.length_lt_begin note pitch key position graces
  intro other index hindex
  rw [Walker.find?_ties_begin] at hindex
  split at hindex
  · cases hindex
    omega
  · exact (h other index hindex).trans hmore

theorem TiesWithin.extend {walker : Walker ℚ} (h : walker.TiesWithin) (note : Note)
    (key : TieKey) (position : ℚ) (index : Nat) :
    (walker.extend note key position index).TiesWithin := by
  intro other target htarget
  rw [Walker.notes_extend, List.length_modify]
  rw [Walker.find?_ties_extend] at htarget
  split at htarget
  · cases htarget
  · exact h other target htarget

theorem TiesWithin.place {walker : Walker ℚ} (h : walker.TiesWithin) (note : Note)
    (pitch : Pitch) (position : ℚ) (graces : List GraceNote) :
    (walker.place note pitch position graces).value.TiesWithin := by
  rw [value_place]
  split
  · exact h.begin note pitch _ position graces
  · exact h.begin note pitch _ position graces
  · exact h.extend note _ position _
  · exact h

namespace Guarded

variable {walker : Walker ℚ}

theorem checkedBegin_eq (h : walker.Guarded) (note : Note) (pitch : Pitch) (key : TieKey)
    (position : ℚ) (graces : List GraceNote) :
    walker.checkedBegin note pitch key position graces =
      some (walker.begin note pitch key position graces) := by
  have hlength : 0 < (walker.notes ++
      walker.clock.playNote walker.meter.fifths note pitch position graces).length :=
    (Nat.zero_le _).trans_lt (walker.length_lt_begin note pitch key position graces)
  unfold checkedBegin Walker.begin
  rw [h.grounded.clock.checkedPlayNote_eq, Option.bind_eq_bind, Option.bind_some]
  dsimp only
  rw [pred?_of_pos hlength]
  split <;> rfl

theorem checkedExtend_eq (h : walker.Guarded) (note : Note) {key : TieKey} (position : ℚ)
    {index : Nat} (hindex : walker.ties.find? key = some index) :
    walker.checkedExtend note key position index =
      some (walker.extend note key position index) := by
  have hlt := h.ties key index hindex
  unfold checkedExtend Walker.extend
  rw [h.grounded.clock.checkedSpanSeconds_eq, List.getElem?_eq_getElem hlt]
  dsimp only
  rw [List.modify_eq_set_get _ hlt]
  rfl

theorem checkedPlace_eq (h : walker.Guarded) (note : Note) (pitch : Pitch) (position : ℚ)
    (graces : List GraceNote) :
    walker.checkedPlace note pitch position graces =
      some (walker.place note pitch position graces).value := by
  rw [value_place]
  unfold checkedPlace
  cases haction : walker.ties.action note.tie (TieKey.ofNote note pitch) with
  | begin => exact h.checkedBegin_eq note pitch _ position graces
  | restart => exact h.checkedBegin_eq note pitch _ position graces
  | extend index =>
      exact h.checkedExtend_eq note position (OpenTies.action_eq_extend_iff.mp haction).2
  | drop => rfl

end Guarded

end Walker

namespace MeasureWalk

def checkedWalkerAfter (walk : MeasureWalk ℚ) (element : MeasureElement ℚ) :
    Option (Walker ℚ) :=
  match element with
  | .direction mark =>
    match mark.tempo with
    | some bpm => do
      let clock ← walk.walker.clock.checkedSetTempo walk.place.cursor bpm
      some { walk.walker with clock }
    | none => some walk.walker
  | .note note =>
    if note.isGrace then some walk.walker
    else
      match note.pitch with
      | some pitch =>
        walk.walker.checkedPlace note pitch (walk.place.onset note) walk.graces
      | none => some walk.walker
  | _ => some walk.walker

def checkedGracesAfter (graces : List GraceNote) :
    MeasureElement ℚ → Option (List GraceNote)
  | .note note =>
    if note.isGrace then do
      let more ← GraceNote.checkedOfNote note
      some (graces ++ more)
    else some []
  | _ => some []

def checkedStep (walk : MeasureWalk ℚ) (element : MeasureElement ℚ) :
    Option (MeasureWalk ℚ) := do
  let walker ← walk.checkedWalkerAfter element
  let graces ← checkedGracesAfter walk.graces element
  some ⟨walker, walk.place.after element, graces⟩

structure Guarded (walk : MeasureWalk ℚ) : Prop where
  walker : walk.walker.Guarded
  place : walk.place.Nonneg

theorem checkedGracesAfter_eq (graces : List GraceNote) (element : MeasureElement ℚ) :
    checkedGracesAfter graces element = some (gracesAfter graces element) := by
  cases element with
  | note note =>
      unfold checkedGracesAfter gracesAfter
      dsimp only
      rw [GraceNote.checkedOfNote_eq]
      split <;> rfl
  | harmony harmony => rfl
  | direction mark => rfl
  | backup duration => rfl
  | forward duration => rfl

namespace Guarded

variable {walk : MeasureWalk ℚ}

theorem checkedWalkerAfter_eq (h : walk.Guarded) (element : MeasureElement ℚ) :
    walk.checkedWalkerAfter element = some (walk.walkerAfter element).value := by
  unfold checkedWalkerAfter walkerAfter
  cases element with
  | note note =>
      dsimp only
      split
      · rfl
      · cases note.pitch with
        | none => rfl
        | some pitch => exact h.walker.checkedPlace_eq note pitch _ walk.graces
  | direction mark =>
      dsimp only
      unfold direction
      cases mark.tempo with
      | none => rfl
      | some bpm =>
          dsimp only
          rw [Clock.checkedSetTempo_eq]
          rfl
  | harmony harmony => rfl
  | backup duration => rfl
  | forward duration => rfl

theorem checkedStep_eq (h : walk.Guarded) (element : MeasureElement ℚ) :
    walk.checkedStep element = some (walk.step element).value := by
  unfold checkedStep
  rw [h.checkedWalkerAfter_eq, checkedGracesAfter_eq]
  rfl

theorem ties_step (h : walk.Guarded) (element : MeasureElement ℚ) :
    (walk.step element).value.walker.TiesWithin := by
  have hties := h.walker.ties
  show (walk.walkerAfter element).value.TiesWithin
  cases element with
  | note note =>
      cases hgrace : note.isGrace with
      | true => rwa [walkerAfter_of_isGrace walk hgrace]
      | false =>
          cases hpitch : note.pitch with
          | none => rwa [walkerAfter_of_rest walk hpitch]
          | some pitch =>
              rw [walkerAfter_of_pitch walk hgrace hpitch]
              exact hties.place note pitch _ _
  | direction mark =>
      show (direction walk.walker walk.place.cursor mark).TiesWithin
      unfold direction
      split
      · exact hties
      · exact hties
  | harmony harmony => exact hties
  | backup duration => exact hties
  | forward duration => exact hties

theorem step (h : walk.Guarded) {element : MeasureElement ℚ}
    (helement : ∀ bpm ∈ element.tempo?, 0 < bpm) : (walk.step element).value.Guarded :=
  ⟨⟨h.walker.grounded.step h.place helement, h.ties_step element⟩, h.place.after element⟩

end Guarded

end MeasureWalk

namespace Walker

def checkedEnter (walker : Walker ℚ) (attributes : Attributes) : Option (Walker ℚ) := do
  let meter := walker.meter.update attributes
  let span ← meter.checkedSpan
  let clock ← walker.clock.checkedEnter meter.divisions span
  some { walker with meter, clock }

def checkedElements (walker : Walker ℚ) (elements : List (MeasureElement ℚ)) :
    Option (Walker ℚ) := do
  let walk ← elements.foldlM MeasureWalk.checkedStep ⟨walker, Place.start, []⟩
  some walk.walker

def checkedLeave (walker : Walker ℚ) : Option (Walker ℚ) := do
  let span ← walker.meter.checkedSpan
  let clock ← walker.clock.checkedLeave span
  some { walker with clock }

def checkedMeasure (walker : Walker ℚ) (measure : Measure ℚ) : Option (Walker ℚ) := do
  let entered ← walker.checkedEnter measure.attributes
  let walked ← entered.checkedElements measure.elements
  walked.checkedLeave

namespace Guarded

variable {walker : Walker ℚ}

theorem checkedMeasure_eq (h : walker.Guarded) {measure : Measure ℚ}
    (hmeasure : measure.WellFormed) :
    walker.checkedMeasure measure = some (walker.measure measure).value ∧
      (walker.measure measure).value.Guarded := by
  have hmeter := h.grounded.meter.update hmeasure.attributes_wellFormed
  let entered := walker.enter measure.attributes
  have hentered : MeasureWalk.Guarded ⟨entered, Place.start, []⟩ :=
    ⟨⟨⟨h.grounded.clock.enter hmeter.divisions_pos _, hmeter, h.grounded.notes⟩, h.ties⟩,
      Place.nonneg_start⟩
  have henter : walker.checkedEnter measure.attributes = some entered := by
    unfold checkedEnter
    dsimp only
    rw [hmeter.checkedSpan_eq, Option.bind_eq_bind, Option.bind_some, Clock.checkedEnter_eq]
    rfl
  have helements : measure.elements.foldlM MeasureWalk.checkedStep ⟨entered, Place.start, []⟩ =
        some (MeasureWalk.after ⟨entered, Place.start, []⟩ measure.elements) ∧
      (MeasureWalk.after ⟨entered, Place.start, []⟩ measure.elements).Guarded :=
    foldlM_eq_some MeasureWalk.Guarded (fun walk hwalk element helement =>
      ⟨hwalk.checkedStep_eq element, hwalk.step (hmeasure.tempo_pos element helement)⟩) hentered
  have hwalked : (walker.through measure).Guarded := by
    unfold through
    rw [value_elements]
    exact helements.2.walker
  have hchecked : entered.checkedElements measure.elements = some (walker.through measure) := by
    unfold checkedElements through
    rw [helements.1, value_elements]
    rfl
  have hleave : (walker.through measure).checkedLeave = some (walker.through measure).leave := by
    unfold checkedLeave
    rw [hwalked.grounded.meter.checkedSpan_eq, Option.bind_eq_bind, Option.bind_some,
      hwalked.grounded.clock.checkedLeave_eq]
    rfl
  refine ⟨?_, hwalked.grounded.leave, hwalked.ties⟩
  unfold checkedMeasure
  rw [henter, Option.bind_eq_bind, Option.bind_some, hchecked, Option.bind_some, hleave]
  rfl

end Guarded

end Walker

def Part.checkedPlayed (part : Part ℚ) (map : TempoMap ℚ) : Option (List (PlayedNote ℚ)) := do
  let walker ← part.measures.foldlM Walker.checkedMeasure (Walker.initial map)
  some walker.notes

theorem Part.WellFormed.checkedPlayed_eq {part : Part ℚ} (hpart : part.WellFormed)
    {map : TempoMap ℚ} (hmap : map.WellFormed) :
    part.checkedPlayed map = some (part.played map).value := by
  have hinitial : (Walker.initial map).Guarded := by
    refine ⟨⟨Clock.wellFormed_initial hmap, Meter.wellFormed_initial, ?_⟩, ?_⟩
    · exact fun note hnote => by cases hnote
    · exact fun key index hindex => by cases hindex
  have hwalked := (foldlM_eq_some Walker.Guarded (fun walker hwalker measure hmeasure =>
    hwalker.checkedMeasure_eq (hpart measure hmeasure)) hinitial).1
  unfold checkedPlayed
  rw [hwalked, value_played]
  unfold walkerAt
  rw [List.take_length]
  rfl

namespace Score

def checkedTempoMap (score : Score ℚ) (number : Nat) : Option (TempoMap ℚ) :=
  match score.parts[number]? with
  | some part => TempoMap.checkedOfPart part
  | none => some .empty

def checkedNoteEvents (score : Score ℚ) (idPrefix : String) :
    Option (List (NoteEvent ℚ)) := do
  let map ← score.checkedTempoMap 0
  let parts ← score.parts.mapM fun part => part.checkedPlayed map
  some (NoteEvent.ofNotes idPrefix parts.flatten)

theorem WellFormed.checkedNoteEvents_eq {score : Score ℚ} (hscore : score.WellFormed)
    (idPrefix : String) :
    score.checkedNoteEvents idPrefix = some (score.noteEvents idPrefix).value := by
  have hmap : score.checkedTempoMap 0 = some (score.tempoMap 0).value := by
    unfold checkedTempoMap Score.tempoMap
    cases hpart : score.parts[0]? with
    | none => rfl
    | some part => exact (hscore part (List.mem_of_getElem? hpart)).checkedOfPart_eq
  have hparts := mapM_eq_some fun part (hpart : part ∈ score.parts) =>
    (hscore part hpart).checkedPlayed_eq (hscore.tempoMap 0)
  unfold checkedNoteEvents
  rw [hmap, Option.bind_eq_bind, Option.bind_some, hparts, value_noteEvents, value_playedParts]
  rfl

end Score

end Rubato
