import Rubato.Proofs.Performance.Music
import Rubato.Proofs.Progression

namespace Rubato

/-! The walk goes by the open ties, the progression by the marks of the note alone. The two
differ in the notes that take up a tie again, and in no others. -/

structure PitchedNote where
  note : Note
  pitch : Pitch
  deriving DecidableEq, Repr

namespace PitchedNote

def key (pitched : PitchedNote) : TieKey := TieKey.ofNote pitched.note pitched.pitch

def isMarked (pitched : PitchedNote) : Bool :=
  pitched.note.tie.start || pitched.note.tie.stop

/-- Whether a tie is open behind some notes: the last marked note of the key starts one. -/
def tieOpen (key : TieKey) (notes : List PitchedNote) : Bool :=
  (notes.filter fun pitched => pitched.key = key && pitched.isMarked).getLast?.any
    (·.note.tie.start)

/-- A note that takes up a tie again: it stops and starts one, and none is open. -/
def restarts (before : List PitchedNote) (pitched : PitchedNote) : Bool :=
  pitched.note.tie.stop && pitched.note.tie.start && !tieOpen pitched.key before

def begins (before : List PitchedNote) (pitched : PitchedNote) : Bool :=
  !pitched.note.tie.stop || restarts before pitched

def picked (pick : List PitchedNote → PitchedNote → Bool) (before : List PitchedNote) :
    List PitchedNote → List PitchedNote
  | [] => []
  | pitched :: rest =>
    if pick before pitched then pitched :: picked pick (before ++ [pitched]) rest
    else picked pick (before ++ [pitched]) rest

theorem tieOpen_concat (key : TieKey) (before : List PitchedNote) (pitched : PitchedNote) :
    tieOpen key (before ++ [pitched]) =
      if pitched.key = key ∧ pitched.isMarked = true then pitched.note.tie.start
      else tieOpen key before := by
  unfold tieOpen
  rw [List.filter_append]
  by_cases h : pitched.key = key ∧ pitched.isMarked = true
  · rw [if_pos h, List.filter_cons_of_pos (by simpa using h), List.filter_nil,
      List.getLast?_concat, Option.any_some]
  · rw [if_neg h, List.filter_cons_of_neg (by simpa using h), List.filter_nil, List.append_nil]

theorem picked_concat (pick : List PitchedNote → PitchedNote → Bool)
    (before notes : List PitchedNote) (pitched : PitchedNote) :
    picked pick before (notes ++ [pitched]) =
      picked pick before notes ++ if pick (before ++ notes) pitched then [pitched] else [] := by
  induction notes generalizing before with
  | nil =>
      rw [List.append_nil, List.nil_append, picked, picked, picked]
      rfl
  | cons first rest ih =>
      rw [List.cons_append, picked, picked, ih, List.append_assoc, List.singleton_append]
      split <;> rfl

theorem picked_begins_perm (before notes : List PitchedNote) :
    (picked begins before notes).Perm
      ((notes.filter fun pitched => !pitched.note.tie.stop) ++ picked restarts before notes) := by
  induction notes generalizing before with
  | nil => exact .nil
  | cons pitched rest ih =>
      have hrest := ih (before ++ [pitched])
      rw [picked, picked, begins]
      cases hstop : pitched.note.tie.stop with
      | false =>
          have hrestarts : restarts before pitched = false := by
            unfold restarts
            rw [hstop]
            rfl
          rw [List.filter_cons_of_pos (by simpa using hstop), hrestarts]
          exact hrest.cons pitched
      | true =>
          rw [List.filter_cons_of_neg (by simpa using hstop)]
          cases restarts before pitched with
          | true => exact (hrest.cons pitched).trans List.perm_middle.symm
          | false => exact hrest

end PitchedNote

def Note.pitched? (note : Note) : Option PitchedNote :=
  if note.isGrace then none else note.pitch.map (PitchedNote.mk note)

theorem Note.pitched?_of_isGrace {note : Note} (h : note.isGrace = true) :
    note.pitched? = none :=
  if_pos h

theorem Note.pitched?_of_pitch {note : Note} (h : note.isGrace = false) :
    note.pitched? = note.pitch.map (PitchedNote.mk note) := by
  unfold pitched?
  rw [h]
  rfl

section Pitched

variable {α : Type}

def MeasureElement.pitched? : MeasureElement α → Option PitchedNote
  | .note written => written.pitched?
  | _ => none

def Measure.pitchedNotes (measure : Measure α) : List PitchedNote :=
  measure.elements.filterMap MeasureElement.pitched?

def Part.restartedNotes (part : Part α) : List PitchedNote :=
  PitchedNote.picked PitchedNote.restarts [] (part.measures.flatMap Measure.pitchedNotes)

def Score.restartedNotes (score : Score α) : List PitchedNote :=
  score.parts.flatMap Part.restartedNotes

/-- The names of the events that are no ornaments. -/
def NoteEvent.writtenNames (events : List (NoteEvent α)) : List String :=
  (events.filter fun event => !event.ornamental).map (·.name)

end Pitched

variable {α : Type} [Quantity α]

structure Walker.Sounded (walker : Walker α) (notes : List PitchedNote) : Prop where
  ties : ∀ key, (walker.ties.find? key).isSome = PitchedNote.tieOpen key notes
  names : PlayedNote.writtenNames walker.notes =
    (PitchedNote.picked PitchedNote.begins [] notes).map (·.pitch.name)

namespace Walker.Sounded

variable {walker : Walker α} {notes : List PitchedNote} {pitched : PitchedNote}

omit [Quantity α] in
theorem ties_concat (h : Sounded walker notes) {ties : OpenTies}
    (hself : (ties.find? pitched.key).isSome =
      if pitched.isMarked = true then pitched.note.tie.start
      else PitchedNote.tieOpen pitched.key notes)
    (hothers : ∀ key ≠ pitched.key, ties.find? key = walker.ties.find? key) (key : TieKey) :
    (ties.find? key).isSome = PitchedNote.tieOpen key (notes ++ [pitched]) := by
  rw [PitchedNote.tieOpen_concat]
  by_cases hkey : pitched.key = key
  · cases hkey
    simp only [true_and]
    exact hself
  · rw [if_neg fun h => hkey h.1, hothers key fun h => hkey h.symm, h.ties]

theorem begin (h : Sounded walker notes) (hbegins : pitched.begins notes = true)
    (hstop : pitched.note.tie.stop = true → pitched.note.tie.start = true) (position : α)
    (graces : List GraceNote) :
    (walker.begin pitched.note pitched.pitch pitched.key position graces).Sounded
      (notes ++ [pitched]) := by
  constructor
  · refine h.ties_concat ?_ fun key hkey => ?_
    · rw [Walker.find?_ties_begin, PitchedNote.isMarked]
      cases hstart : pitched.note.tie.start with
      | true => simp
      | false =>
          have hunmarked : pitched.note.tie.stop = false :=
            Bool.eq_false_iff.mpr fun h => by simp [hstop h] at hstart
          simp [hunmarked, h.ties]
    · rw [Walker.find?_ties_begin, if_neg fun h => hkey h.2]
  · rw [Walker.notes_begin, PlayedNote.writtenNames_append, Clock.written_playNote, h.names,
      PitchedNote.picked_concat, List.nil_append, if_pos hbegins, List.map_append]
    rfl

theorem extend (h : Sounded walker notes) (hstop : pitched.note.tie.stop = true) {index : Nat}
    (hopen : walker.ties.find? pitched.key = some index) (position : α) :
    (walker.extend pitched.note pitched.key position index).Sounded (notes ++ [pitched]) := by
  have htieOpen : PitchedNote.tieOpen pitched.key notes = true := by
    rw [← h.ties, hopen]
    rfl
  have hbegins : pitched.begins notes = false := by
    unfold PitchedNote.begins PitchedNote.restarts
    rw [hstop, htieOpen, Bool.not_true, Bool.and_false]
    rfl
  constructor
  · refine h.ties_concat ?_ fun key hkey => ?_
    · rw [Walker.find?_ties_extend, PitchedNote.isMarked, hstop, Bool.or_true, if_pos rfl]
      cases pitched.note.tie.start with
      | true => simp [hopen]
      | false => simp
    · rw [Walker.find?_ties_extend, if_neg fun h => hkey h.2]
  · rw [Walker.notes_extend, PlayedNote.writtenNames_modify_lengthen, h.names,
      PitchedNote.picked_concat,
      List.nil_append, hbegins, if_neg Bool.false_ne_true, List.append_nil]

omit [Quantity α] in
theorem drop (h : Sounded walker notes) (hstop : pitched.note.tie.stop = true)
    (hstart : pitched.note.tie.start = false)
    (hclosed : walker.ties.find? pitched.key = none) :
    walker.Sounded (notes ++ [pitched]) := by
  have hbegins : pitched.begins notes = false := by
    unfold PitchedNote.begins PitchedNote.restarts
    rw [hstop, hstart]
    rfl
  constructor
  · refine h.ties_concat ?_ fun _ _ => rfl
    unfold PitchedNote.isMarked
    rw [hstop, hstart, Bool.false_or, if_pos rfl, hclosed]
    rfl
  · rw [h.names, PitchedNote.picked_concat, List.nil_append, hbegins,
      if_neg Bool.false_ne_true, List.append_nil]

theorem place (h : Sounded walker notes) (pitched : PitchedNote) (position : α)
    (graces : List GraceNote) :
    (walker.place pitched.note pitched.pitch position graces).value.Sounded
      (notes ++ [pitched]) := by
  have hkey : TieKey.ofNote pitched.note pitched.pitch = pitched.key := rfl
  rw [Walker.value_place, hkey]
  cases haction : walker.ties.action pitched.note.tie pitched.key with
  | begin =>
      have hstop := OpenTies.action_eq_begin_iff.mp haction
      have hbegins : pitched.begins notes = true := by
        unfold PitchedNote.begins
        rw [hstop]
        rfl
      exact h.begin hbegins (fun h => by simp [hstop] at h) position graces
  | restart =>
      obtain ⟨hstop, hopen, hstart⟩ := OpenTies.action_eq_restart_iff.mp haction
      have hbegins : pitched.begins notes = true := by
        unfold PitchedNote.begins PitchedNote.restarts
        rw [hstop, hstart, ← h.ties, hopen]
        rfl
      exact h.begin hbegins (fun _ => hstart) position graces
  | extend index =>
      obtain ⟨hstop, hopen⟩ := OpenTies.action_eq_extend_iff.mp haction
      exact h.extend hstop hopen position
  | drop =>
      obtain ⟨hstop, hopen, hstart⟩ := OpenTies.action_eq_drop_iff.mp haction
      exact h.drop hstop hstart hopen

end Walker.Sounded

theorem MeasureWalk.walker_of_pitched {walk : MeasureWalk α} {element : MeasureElement α}
    {pitched : PitchedNote} (h : element.pitched? = some pitched) :
    (walk.step element).value.walker =
      (walk.walker.place pitched.note pitched.pitch (walk.place.onset pitched.note)
        walk.graces).value := by
  cases element with
  | note note =>
      cases hgrace : note.isGrace with
      | true => cases (Note.pitched?_of_isGrace hgrace).symm.trans h
      | false =>
          obtain ⟨pitch, hpitch, rfl⟩ :=
            Option.map_eq_some_iff.mp ((Note.pitched?_of_pitch hgrace).symm.trans h)
          exact congrArg Noted.value (walkerAfter_of_pitch walk hgrace hpitch)
  | direction mark => cases h
  | harmony harmony => cases h
  | backup duration => cases h
  | forward duration => cases h

theorem MeasureWalk.walker_of_unpitched {walk : MeasureWalk α} {element : MeasureElement α}
    (h : element.pitched? = none) :
    (walk.step element).value.walker.ties = walk.walker.ties ∧
      (walk.step element).value.walker.notes = walk.walker.notes := by
  show (walk.walkerAfter element).value.ties = _ ∧ (walk.walkerAfter element).value.notes = _
  cases element with
  | note note =>
      cases hgrace : note.isGrace with
      | true =>
          rw [walkerAfter_of_isGrace walk hgrace]
          exact ⟨rfl, rfl⟩
      | false =>
          have hpitch : note.pitch = none :=
            Option.map_eq_none_iff.mp ((Note.pitched?_of_pitch hgrace).symm.trans h)
          rw [walkerAfter_of_rest walk hpitch]
          exact ⟨rfl, rfl⟩
  | direction mark =>
      show (direction walk.walker walk.place.cursor mark).ties = _ ∧
        (direction walk.walker walk.place.cursor mark).notes = _
      unfold direction
      split <;> exact ⟨rfl, rfl⟩
  | harmony harmony => exact ⟨rfl, rfl⟩
  | backup duration => exact ⟨rfl, rfl⟩
  | forward duration => exact ⟨rfl, rfl⟩

theorem MeasureWalk.sounded_step {walk : MeasureWalk α} {notes : List PitchedNote}
    (h : walk.walker.Sounded notes) (element : MeasureElement α) :
    (walk.step element).value.walker.Sounded (notes ++ element.pitched?.toList) := by
  cases hpitched : element.pitched? with
  | some pitched =>
      rw [walker_of_pitched hpitched]
      exact h.place pitched _ _
  | none =>
      obtain ⟨hties, hnotes⟩ := walk.walker_of_unpitched hpitched
      rw [Option.toList_none, List.append_nil]
      constructor
      · rw [hties]
        exact h.ties
      · rw [hnotes]
        exact h.names

theorem MeasureWalk.sounded_after {walk : MeasureWalk α} {notes : List PitchedNote}
    (h : walk.walker.Sounded notes) (elements : List (MeasureElement α)) :
    (walk.after elements).walker.Sounded
      (notes ++ elements.filterMap MeasureElement.pitched?) := by
  induction elements generalizing walk notes with
  | nil => exact (List.append_nil notes).symm ▸ h
  | cons element rest ih =>
      have hrest := ih (sounded_step h element)
      rw [List.append_assoc] at hrest
      cases hpitched : element.pitched? with
      | none =>
          rw [List.filterMap_cons_none hpitched]
          rwa [hpitched] at hrest
      | some pitched =>
          rw [List.filterMap_cons_some hpitched]
          rwa [hpitched] at hrest

theorem Walker.Sounded.through {walker : Walker α} {notes : List PitchedNote}
    (h : walker.Sounded notes) (measure : Measure α) :
    (walker.through measure).leave.Sounded (notes ++ measure.pitchedNotes) := by
  let entered : MeasureWalk α := ⟨walker.enter measure.attributes, Place.start, []⟩
  have hentered : entered.walker.Sounded notes := ⟨h.ties, h.names⟩
  have hwalked := MeasureWalk.sounded_after hentered measure.elements
  unfold Walker.through
  rw [Walker.value_elements]
  exact ⟨hwalked.ties, hwalked.names⟩

namespace Part

theorem sounded_walkerAt (part : Part α) (map : TempoMap α) (number : Nat) :
    (part.walkerAt map number).Sounded
      ((part.measures.take number).flatMap Measure.pitchedNotes) := by
  induction number with
  | zero => exact ⟨fun _ => rfl, rfl⟩
  | succ number ih =>
      cases hmeasure : part.measures[number]? with
      | none =>
          rw [walkerAt_of_none hmeasure, take_succ_of_none hmeasure]
          exact ih
      | some measure =>
          rw [walkerAt_succ hmeasure, List.take_add_one, hmeasure, List.flatMap_append]
          have hnext := ih.through measure
          rwa [← List.flatMap_singleton Measure.pitchedNotes measure] at hnext

theorem writtenNames_played (part : Part α) (map : TempoMap α) :
    PlayedNote.writtenNames (part.played map).value =
      (PitchedNote.picked PitchedNote.begins []
        (part.measures.flatMap Measure.pitchedNotes)).map (·.pitch.name) := by
  have hsounded := (part.sounded_walkerAt map part.measures.length).names
  rwa [List.take_length, ← value_played] at hsounded

omit [Quantity α] in
theorem soundingPitches_eq (part : Part α) :
    part.soundingPitches =
      ((part.measures.flatMap Measure.pitchedNotes).filter fun pitched =>
        !pitched.note.tie.stop).map (·.pitch) := by
  have hmeasure : ∀ measure : Measure α, measure.soundingPitches =
      (measure.pitchedNotes.filter fun pitched => !pitched.note.tie.stop).map (·.pitch) := by
    intro measure
    unfold Measure.soundingPitches Measure.pitchedNotes
    rw [← List.filterMap_eq_filter, List.filterMap_filterMap, List.map_filterMap]
    refine List.filterMap_congr fun element _ => ?_
    cases element with
    | note note =>
        show note.sounds? = (note.pitched?.bind _).map _
        unfold Note.sounds? Note.pitched?
        cases note.isGrace <;> cases hstop : note.tie.stop <;> cases note.pitch <;>
          simp [Option.guard, hstop]
    | harmony harmony => rfl
    | direction mark => rfl
    | backup duration => rfl
    | forward duration => rfl
  unfold Part.soundingPitches
  rw [List.filter_flatMap, List.map_flatMap]
  exact List.flatMap_congr fun measure _ => hmeasure measure

theorem writtenNames_played_perm (part : Part α) (map : TempoMap α) :
    (PlayedNote.writtenNames (part.played map).value).Perm
      (part.soundingPitches.map Pitch.name ++
        part.restartedNotes.map fun pitched => pitched.pitch.name) := by
  have hbegun := (PitchedNote.picked_begins_perm []
    (part.measures.flatMap Measure.pitchedNotes)).map fun pitched => pitched.pitch.name
  rw [List.map_append] at hbegun
  rw [writtenNames_played, soundingPitches_eq, List.map_map]
  exact hbegun

end Part

theorem NoteEvent.writtenNames_ofNotes (idPrefix : String) (notes : List (PlayedNote α)) :
    (writtenNames (ofNotes idPrefix notes)).Perm (PlayedNote.writtenNames notes) := by
  have hsounds := ((sound_ofNotes idPrefix notes).filter fun sound => !sound.2.2).map
    fun sound => sound.2.1
  rw [List.filter_map, List.filter_map, List.map_map, List.map_map] at hsounds
  exact hsounds

namespace Score

/-- The events that are no ornaments are named after the notes that start to sound and
those that take up a tie again. -/
theorem writtenNames_noteEvents_perm (score : Score α) (idPrefix : String) :
    (NoteEvent.writtenNames (score.noteEvents idPrefix).value).Perm
      (score.soundingPitches.map Pitch.name ++
        score.restartedNotes.map fun pitched => pitched.pitch.name) := by
  have hplayed : PlayedNote.writtenNames (score.playedParts 0).value.flatten =
      score.parts.flatMap fun part =>
        PlayedNote.writtenNames (part.played (score.tempoMap 0).value).value := by
    rw [value_playedParts, ← List.flatMap_def]
    unfold PlayedNote.writtenNames
    rw [List.filter_flatMap, List.map_flatMap]
  rw [value_noteEvents]
  refine (NoteEvent.writtenNames_ofNotes idPrefix _).trans ?_
  unfold soundingPitches restartedNotes
  rw [hplayed, List.map_flatMap, List.map_flatMap]
  exact (List.Perm.flatMap_left _ fun part _ => part.writtenNames_played_perm _).trans
    (List.flatMap_append_perm _ _ _).symm

/-- The events agree with the progression on which written notes sound but for the notes
that take up a tie again: these sound, and the progression leaves them out. -/
theorem writtenNames_agree_iff (score : Score α) (idPrefix : String) (options : Options) :
    let written := NoteEvent.writtenNames (score.noteEvents idPrefix).value
    let entered := (score.progression { options with groupSimultaneous := false }).filterMap
      ProgressionEntry.noteName?
    written.Perm (entered ++ score.restartedNotes.map fun pitched => pitched.pitch.name) ∧
      (written.Perm entered ↔ score.restartedNotes = []) := by
  intro written entered
  have hwritten : written.Perm
      (entered ++ score.restartedNotes.map fun pitched => pitched.pitch.name) :=
    (score.writtenNames_noteEvents_perm idPrefix).trans
      ((score.noteNames_progression_perm options).symm.append_right _)
  refine ⟨hwritten, fun hagree => ?_, fun hnone => ?_⟩
  · have hlength := (hagree.symm.trans hwritten).length_eq
    rw [List.length_append, List.length_map] at hlength
    exact List.length_eq_zero_iff.mp (by omega)
  · rwa [hnone, List.map_nil, List.append_nil] at hwritten

end Score

/-- A note in the middle of a tied chain of which nothing else is written. -/
def tieTakenUp : Score ℚ where
  parts := [⟨"P1", [
    { number := "1"
      attributes := .none
      elements := [.note { Note.plain (some ⟨.c, 0, 4⟩) 1 with tie := ⟨true, true⟩ }] }]⟩]

section Text

open Markup (tagged)

private def tieTakenUpText : List Char :=
  tagged "score-partwise" [] [tagged "part" [" id=", "\"P1\""] [
    tagged "measure" [" number=", "\"1\""] [
      tagged "note" [] [
        tagged "pitch" [] [tagged "step" [] [['C']], tagged "octave" [] [['4']]],
        tagged "duration" [] [['1']],
        tagged "tie" [" type=", "\"stop\""] [],
        tagged "tie" [" type=", "\"start\""] []]]]]

end Text

theorem not_agree_tieTakenUp :
    tieTakenUp.IsRead ∧
      (tieTakenUp.progression .default).filterMap ProgressionEntry.noteName? = [] ∧
      ¬(NoteEvent.writtenNames (tieTakenUp.noteEvents "note-").value).Perm
        ((tieTakenUp.progression .default).filterMap ProgressionEntry.noteName?) := by
  have hread : tieTakenUp.IsRead :=
    Score.isRead_of_characters tieTakenUpText (by decide +kernel)
  have hentered : (tieTakenUp.progression .default).filterMap ProgressionEntry.noteName? = [] := by
    decide +kernel
  have hplayed := tieTakenUp.writtenNames_noteEvents_perm "note-"
  have hnames : (tieTakenUp.soundingPitches.map Pitch.name ++
      tieTakenUp.restartedNotes.map fun pitched => pitched.pitch.name) = ["C4"] := by
    decide +kernel
  rw [hnames] at hplayed
  refine ⟨hread, hentered, fun hagree => ?_⟩
  rw [hentered] at hagree
  exact absurd (hplayed.symm.trans hagree).length_eq (by decide)

end Rubato
