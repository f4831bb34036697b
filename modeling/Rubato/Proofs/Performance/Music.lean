import Rubato.Proofs.Performance.Reached
import Rubato.Proofs.Progression

namespace Rubato

theorem map_eq_map_iff {β γ δ : Type} {f : β → δ} {g : γ → δ} {first : List β}
    {second : List γ} :
    first.map f = second.map g ↔ List.Forall₂ (fun one other => f one = g other) first second := by
  rw [← List.forall₂_eq_eq_eq, List.forall₂_map_left_iff, List.forall₂_map_right_iff]

variable {α : Type} [Quantity α]

section Music

omit [Quantity α]

def MeasureElement.muted : MeasureElement α → MeasureElement α
  | .direction _ => .direction ⟨[], none⟩
  | element => element

/-- The same elements but for what directions say, and but for directions at the front. -/
inductive SameElements : List (MeasureElement α) → List (MeasureElement α) → Prop
  | same {first second : List (MeasureElement α)}
      (h : first.map MeasureElement.muted = second.map MeasureElement.muted) :
      SameElements first second
  | left {first second : List (MeasureElement α)} (mark : Direction α)
      (h : SameElements first second) : SameElements (.direction mark :: first) second
  | right {first second : List (MeasureElement α)} (mark : Direction α)
      (h : SameElements first second) : SameElements first (.direction mark :: second)

structure Measure.SameMusic (first second : Measure α) : Prop where
  attributes : first.attributes = second.attributes
  elements : SameElements first.elements second.elements

def Part.SameMusic (first second : Part α) : Prop :=
  List.Forall₂ Measure.SameMusic first.measures second.measures

theorem MeasureElement.muted_forced (tempo : α) (element : MeasureElement α) :
    (element.forced tempo).muted = element.muted := by
  cases element <;> rfl

theorem MeasureElement.eq_or_directions_of_muted {element other : MeasureElement α}
    (h : element.muted = other.muted) :
    element = other ∨ ∃ mark mark', element = .direction mark ∧ other = .direction mark' := by
  cases element with
  | direction mark =>
      cases other with
      | direction mark' => exact .inr ⟨mark, mark', rfl, rfl⟩
      | _ => cases h
  | _ =>
      left
      cases other <;> cases h
      rfl

theorem Measure.sameMusic_forced (tempo : α) (measure : Measure α) :
    (measure.forced tempo).SameMusic measure := by
  refine ⟨rfl, .same ?_⟩
  show (measure.elements.map (MeasureElement.forced tempo)).map MeasureElement.muted = _
  rw [List.map_map]
  exact List.map_congr_left fun element _ => element.muted_forced tempo

theorem Part.sameMusic_forced (tempo : α) (part : Part α) :
    (part.forced tempo).SameMusic part := by
  have hforced : ∀ measures : List (Measure α), List.Forall₂ Measure.SameMusic
      (measures.map (Measure.forced tempo)) measures := fun measures =>
    List.forall₂_map_left_iff.mpr
      (List.forall₂_same.mpr fun measure _ => measure.sameMusic_forced tempo)
  unfold Part.SameMusic Part.forced
  cases part.measures with
  | nil => exact .nil
  | cons first rest =>
      refine .cons ⟨rfl, ?_⟩ (hforced rest)
      exact .left _ (first.sameMusic_forced tempo).elements

end Music

/-- What is played, apart from its time. -/
def PlayedNote.sound (note : PlayedNote α) : PitchNumber × String × Nat × Bool :=
  (note.pitch, note.name, note.staff, note.ornamental)

structure PlayedNote.SameSound (first second : PlayedNote α) : Prop where
  pitch : first.pitch = second.pitch
  name : first.name = second.name
  staff : first.staff = second.staff
  ornamental : first.ornamental = second.ornamental

omit [Quantity α] in
theorem PlayedNote.sameSound_iff {first second : PlayedNote α} :
    first.SameSound second ↔ first.sound = second.sound := by
  constructor
  · intro h
    unfold sound
    rw [h.pitch, h.name, h.staff, h.ornamental]
  · intro h
    simp only [sound, Prod.mk.injEq] at h
    exact ⟨h.1, h.2.1, h.2.2.1, h.2.2.2⟩

namespace Clock

variable {first second : Clock α}

theorem graceRun_eq_or (clock : Clock α) (note : Note) (position : α)
    (graces : List GraceNote) :
    let run := GraceRun.ofGroup graces (note.duration : α) note.isDotted clock.ornamentUnit
    clock.graceRun note position graces = run ∨
      clock.graceRun note position graces = run.movedOntoBeat := by
  unfold graceRun
  dsimp only
  split
  · exact .inr rfl
  · exact .inl rfl

theorem ornamentUnit_eq (hdivisions : first.divisions = second.divisions) :
    first.ornamentUnit = second.ornamentUnit := by
  unfold ornamentUnit
  rw [hdivisions]

theorem graceRun_notes (hdivisions : first.divisions = second.divisions) (note : Note)
    (position : α) (graces : List GraceNote) :
    (first.graceRun note position graces).notes = (second.graceRun note position graces).notes ∧
      (first.graceRun note position graces).stolen =
        (second.graceRun note position graces).stolen := by
  have hfirst := first.graceRun_eq_or note position graces
  have hsecond := second.graceRun_eq_or note position graces
  dsimp only at hfirst hsecond
  rw [ornamentUnit_eq hdivisions] at hfirst
  rcases hfirst with hfirst | hfirst <;> rcases hsecond with hsecond | hsecond <;>
    rw [hfirst, hsecond] <;> exact ⟨rfl, rfl⟩

theorem sound_playNote (hdivisions : first.divisions = second.divisions) (fifths : Int)
    (note : Note) (pitch : Pitch) (position : α) (graces : List GraceNote) :
    (first.playNote fifths note pitch position graces).map PlayedNote.sound =
      (second.playNote fifths note pitch position graces).map PlayedNote.sound := by
  obtain ⟨hnotes, hstolen⟩ := graceRun_notes hdivisions note position graces
  unfold playNote playGraces playMain figure
  dsimp only
  rw [List.map_append, List.map_append, List.map_map, List.map_map, List.map_map, List.map_map,
    hnotes, hstolen, ornamentUnit_eq hdivisions]
  rfl

end Clock

structure Walker.Alike (first second : Walker α) : Prop where
  divisions : first.clock.divisions = second.clock.divisions
  meter : first.meter = second.meter
  ties : first.ties = second.ties
  notes : first.notes.map PlayedNote.sound = second.notes.map PlayedNote.sound

structure MeasureWalk.Alike (first second : MeasureWalk α) : Prop where
  walker : first.walker.Alike second.walker
  place : first.place = second.place
  graces : first.graces = second.graces

namespace Walker.Alike

variable {first second : Walker α}

theorem initial (map other : TempoMap α) :
    (Walker.initial map).Alike (Walker.initial other) := ⟨rfl, rfl, rfl, rfl⟩

omit [Quantity α] in
theorem trans {third : Walker α} (h : first.Alike second) (hnext : second.Alike third) :
    first.Alike third :=
  ⟨h.divisions.trans hnext.divisions, h.meter.trans hnext.meter, h.ties.trans hnext.ties,
    h.notes.trans hnext.notes⟩

omit [Quantity α] in
theorem symm (h : first.Alike second) : second.Alike first :=
  ⟨h.divisions.symm, h.meter.symm, h.ties.symm, h.notes.symm⟩

theorem begin (h : first.Alike second) (note : Note) (pitch : Pitch) (key : TieKey)
    (position : α) (graces : List GraceNote) :
    (first.begin note pitch key position graces).Alike
      (second.begin note pitch key position graces) := by
  have hnotes : (first.begin note pitch key position graces).notes.map PlayedNote.sound =
      (second.begin note pitch key position graces).notes.map PlayedNote.sound := by
    rw [Walker.notes_begin, Walker.notes_begin, List.map_append, List.map_append, h.notes,
      h.meter, Clock.sound_playNote h.divisions]
  -- Ties point into the played notes, of which there are equally many.
  have hlength := congrArg List.length hnotes
  rw [List.length_map, List.length_map] at hlength
  refine ⟨h.divisions, h.meter, ?_, hnotes⟩
  rw [Walker.ties_begin, Walker.ties_begin, h.ties, hlength]

theorem extend (h : first.Alike second) (note : Note) (key : TieKey) (position : α)
    (index : Nat) :
    (first.extend note key position index).Alike (second.extend note key position index) := by
  refine ⟨h.divisions, h.meter, ?_, ?_⟩
  · rw [Walker.ties_extend, Walker.ties_extend, h.ties]
  · rw [Walker.notes_extend, Walker.notes_extend, PlayedNote.map_modify_lengthen (fun _ _ => rfl),
      PlayedNote.map_modify_lengthen (fun _ _ => rfl), h.notes]

theorem place (h : first.Alike second) (note : Note) (pitch : Pitch) (position : α)
    (graces : List GraceNote) :
    (first.place note pitch position graces).value.Alike
      (second.place note pitch position graces).value := by
  unfold Walker.place
  dsimp only
  rw [h.ties]
  split
  · exact h.begin note pitch _ position graces
  · exact h.begin note pitch _ position graces
  · exact h.extend note _ position _
  · exact h

theorem direction (walker : Walker α) (cursor : α) (mark : Direction α) :
    (MeasureWalk.direction walker cursor mark).Alike walker := by
  unfold MeasureWalk.direction
  split <;> exact ⟨rfl, rfl, rfl, rfl⟩

end Walker.Alike

namespace MeasureWalk.Alike

variable {first second : MeasureWalk α}

theorem directions (h : first.Alike second) (mark mark' : Direction α) :
    (first.step (.direction mark)).value.Alike (second.step (.direction mark')).value :=
  ⟨(Walker.Alike.direction _ _ mark).trans (h.walker.trans (Walker.Alike.direction _ _ mark').symm),
    h.place, rfl⟩

theorem walkerAfter_note (h : first.Alike second) (note : Note) :
    (first.walkerAfter (.note note)).value.Alike (second.walkerAfter (.note note)).value := by
  simp only [walkerAfter]
  rw [h.place, h.graces]
  split
  · exact h.walker
  · split
    · next pitch _ => exact h.walker.place note pitch _ _
    · exact h.walker

theorem step_same (h : first.Alike second) (element : MeasureElement α) :
    (first.step element).value.Alike (second.step element).value := by
  have hplace := congrArg (·.after element) h.place
  cases element with
  | direction mark => exact h.directions mark mark
  | note note =>
      refine ⟨h.walkerAfter_note note, hplace, ?_⟩
      show gracesAfter first.graces (.note note : MeasureElement α) = _
      rw [h.graces]
      rfl
  | harmony harmony => exact ⟨h.walker, hplace, rfl⟩
  | backup duration => exact ⟨h.walker, hplace, rfl⟩
  | forward duration => exact ⟨h.walker, hplace, rfl⟩

theorem step (h : first.Alike second) {element other : MeasureElement α}
    (helement : element.muted = other.muted) :
    (first.step element).value.Alike (second.step other).value := by
  rcases MeasureElement.eq_or_directions_of_muted helement with rfl | ⟨mark, mark', rfl, rfl⟩
  · exact h.step_same element
  · exact h.directions mark mark'

theorem after {elements others : List (MeasureElement α)}
    (helements : elements.map MeasureElement.muted = others.map MeasureElement.muted)
    {first second : MeasureWalk α} (h : first.Alike second) :
    (first.after elements).Alike (second.after others) := by
  induction elements generalizing others first second with
  | nil =>
      obtain rfl : others = [] := List.map_eq_nil_iff.mp helements.symm
      exact h
  | cons element rest ih =>
      obtain ⟨other, tail, rfl, hother, htail⟩ := List.map_eq_cons_iff.mp helements.symm
      exact ih htail.symm (h.step hother.symm)

theorem after_start {elements others : List (MeasureElement α)}
    (helements : SameElements elements others) {first second : Walker α}
    (h : first.Alike second) :
    (MeasureWalk.after ⟨first, Place.start, []⟩ elements).Alike
      (MeasureWalk.after ⟨second, Place.start, []⟩ others) := by
  induction helements generalizing first second with
  | same hsame => exact after hsame ⟨h, rfl, rfl⟩
  | left mark _ ih => exact ih ((Walker.Alike.direction first _ mark).trans h)
  | right mark _ ih => exact ih (h.trans (Walker.Alike.direction second _ mark).symm)

end MeasureWalk.Alike

theorem Walker.Alike.measure {first second : Walker α} (h : first.Alike second)
    {measure other : Measure α} (hmeasure : measure.SameMusic other) :
    (first.measure measure).value.Alike (second.measure other).value := by
  have hentered : (first.enter measure.attributes).Alike (second.enter other.attributes) := by
    unfold Walker.enter
    rw [h.meter, hmeasure.attributes]
    exact ⟨rfl, rfl, h.ties, h.notes⟩
  have hwalked := (MeasureWalk.Alike.after_start hmeasure.elements hentered).walker
  rw [Walker.value_measure, Walker.value_measure]
  unfold Walker.through
  rw [Walker.value_elements, Walker.value_elements]
  exact ⟨hwalked.divisions, hwalked.meter, hwalked.ties, hwalked.notes⟩

theorem Walker.Alike.measures {measures others : List (Measure α)}
    (hmeasures : List.Forall₂ Measure.SameMusic measures others) {first second : Walker α}
    (h : first.Alike second) :
    (measures.foldl (fun walker measure => (walker.measure measure).value) first).Alike
      (others.foldl (fun walker measure => (walker.measure measure).value) second) := by
  induction hmeasures generalizing first second with
  | nil => exact h
  | cons hmeasure _ ih => exact ih (h.measure hmeasure)

theorem Part.SameMusic.sound_played {part other : Part α} (h : part.SameMusic other)
    (map otherMap : TempoMap α) :
    (part.played map).value.map PlayedNote.sound =
      (other.played otherMap).value.map PlayedNote.sound := by
  rw [Part.value_played, Part.value_played]
  unfold Part.walkerAt
  rw [List.take_length, List.take_length]
  exact (Walker.Alike.measures h (.initial map otherMap)).notes

theorem Contribution.ofElements_muted (skipHarmony : Bool) (meter : Meter) (place : Place α)
    (elements : List (MeasureElement α)) :
    ofElements skipHarmony meter place (elements.map MeasureElement.muted) =
      ofElements skipHarmony meter place elements := by
  induction elements generalizing place with
  | nil => rfl
  | cons element rest ih =>
      rw [List.map_cons, ofElements, ofElements, ih]
      cases element <;> rfl

theorem SameElements.contributions_eq (skipHarmony : Bool) (meter : Meter) {place : Place α}
    {elements others : List (MeasureElement α)} (h : SameElements elements others) :
    Contribution.ofElements skipHarmony meter place elements =
      Contribution.ofElements skipHarmony meter place others := by
  induction h with
  | same hsame =>
      rw [← Contribution.ofElements_muted, hsame, Contribution.ofElements_muted]
  | left mark _ ih => exact ih
  | right mark _ ih => exact ih

omit [Quantity α] in
theorem Part.forall₂_meteredFrom {measures others : List (Measure α)}
    (h : List.Forall₂ Measure.SameMusic measures others) (meter : Meter) :
    List.Forall₂ (fun first second : Meter × Measure α =>
        first.1 = second.1 ∧ SameElements first.2.elements second.2.elements)
      (meteredFrom meter measures) (meteredFrom meter others) := by
  induction h generalizing meter with
  | nil => exact .nil
  | cons hmeasure _ ih =>
      have hnext := congrArg meter.update hmeasure.attributes
      refine .cons ⟨hnext, hmeasure.elements⟩ ?_
      rw [hnext]
      exact ih _

theorem Part.SameMusic.contributions_eq {part other : Part α} (h : part.SameMusic other)
    (skipHarmony : Bool) :
    part.contributions skipHarmony = other.contributions skipHarmony := by
  unfold Part.contributions
  rw [map_eq_map_iff]
  refine (Part.forall₂_meteredFrom h .initial).imp ?_
  rintro ⟨meter, measure⟩ ⟨_, other⟩ ⟨rfl, helements⟩
  exact helements.contributions_eq skipHarmony meter

def Score.SameMusic (first second : Score α) : Prop :=
  List.Forall₂ Part.SameMusic first.parts second.parts

omit [Quantity α] in
theorem Score.sameMusic_forced (tempo : α) (score : Score α) :
    (score.forced tempo).SameMusic score :=
  List.forall₂_map_left_iff.mpr
    (List.forall₂_same.mpr fun part _ => part.sameMusic_forced tempo)

theorem Score.SameMusic.progression_eq {score other : Score α} (h : score.SameMusic other)
    (options : Options) : score.progression options = other.progression options := by
  apply Progression.ofScore_congr
  rw [map_eq_map_iff]
  exact h.imp fun _ _ hpart => hpart.contributions_eq _

def NoteEvent.sound (event : NoteEvent α) : PitchNumber × String × Bool :=
  (event.pitch, event.name, event.ornamental)

theorem NoteEvent.sound_ofNotes (idPrefix : String) (notes : List (PlayedNote α)) :
    ((ofNotes idPrefix notes).map sound).Perm
      (notes.map fun note => (note.pitch, note.name, note.ornamental)) := by
  have hsorted : (ofNotes idPrefix notes).map sound =
      (notes.mergeSort PlayedNote.notAfter).map fun note =>
        (note.pitch, note.name, note.ornamental) := by
    apply List.ext_getElem?
    intro index
    rw [ofNotes, List.getElem?_map, List.getElem?_mapIdx, List.getElem?_map, Option.map_map]
    rfl
  rw [hsorted]
  exact (List.mergeSort_perm notes _).map _

theorem Score.SameMusic.sound_noteEvents {score other : Score α} (h : score.SameMusic other)
    (idPrefix otherPrefix : String) :
    ((score.noteEvents idPrefix).value.map NoteEvent.sound).Perm
      ((other.noteEvents otherPrefix).value.map NoteEvent.sound) := by
  have hparts : score.parts.map (fun part =>
        (part.played (score.tempoMap 0).value).value.map PlayedNote.sound) =
      other.parts.map fun part =>
        (part.played (other.tempoMap 0).value).value.map PlayedNote.sound := by
    rw [map_eq_map_iff]
    exact h.imp fun _ _ hpart => hpart.sound_played _ _
  have hplayed : (score.playedParts 0).value.flatten.map PlayedNote.sound =
      (other.playedParts 0).value.flatten.map PlayedNote.sound := by
    rw [value_playedParts, value_playedParts, List.map_flatten, List.map_flatten, List.map_map,
      List.map_map]
    exact congrArg List.flatten hparts
  have hsounds : ∀ notes : List (PlayedNote α),
      (notes.map fun note => (note.pitch, note.name, note.ornamental)) =
        (notes.map PlayedNote.sound).map fun sound => (sound.1, sound.2.1, sound.2.2.2) :=
    fun notes => by rw [List.map_map]; rfl
  refine (NoteEvent.sound_ofNotes idPrefix _).trans
    (List.Perm.trans ?_ (NoteEvent.sound_ofNotes otherPrefix _).symm)
  rw [hsounds, hsounds, hplayed]

/-- Tempos never change what is played. Parts of the same music are played note by note
alike by any two maps; a forced tempo keeps the progression of a score, and its events
but for their times, their order, their numbers and their hands. -/
theorem tempo_keeps_music :
    (∀ part other : Part α, part.SameMusic other → ∀ map otherMap : TempoMap α,
        List.Forall₂ PlayedNote.SameSound (part.played map).value
          (other.played otherMap).value) ∧
      (∀ (score : Score α) (tempo : α) (options : Options),
        (score.forced tempo).progression options = score.progression options) ∧
      ∀ (score : Score α) (tempo : α) (idPrefix otherPrefix : String),
        (((score.forced tempo).noteEvents idPrefix).value.map NoteEvent.sound).Perm
          ((score.noteEvents otherPrefix).value.map NoteEvent.sound) := by
  refine ⟨fun part other h map otherMap => ?_, fun score tempo options => ?_,
    fun score tempo idPrefix otherPrefix => ?_⟩
  · have hsound := map_eq_map_iff.mp (h.sound_played map otherMap)
    exact hsound.imp fun _ _ hnote => PlayedNote.sameSound_iff.mpr hnote
  · exact (score.sameMusic_forced tempo).progression_eq options
  · exact (score.sameMusic_forced tempo).sound_noteEvents idPrefix otherPrefix

/-- A slashed grace note at the start of the second bar, behind some directions. -/
def graceInSecondBar (marks : List (Direction ℚ)) : Part ℚ where
  id := "P1"
  measures := [
    ⟨"1", .none, [.note (.plain none 4)]⟩,
    ⟨"2", .none, marks.map .direction ++ [
      .note { Note.plain (some ⟨.d, 0, 5⟩) 0 with grace := some .slashed },
      .note (.plain (some ⟨.c, 0, 5⟩) 4)]⟩]

/-- At tempo one the grace note would begin before the score: it is moved onto the beat,
and is played as the same note. -/
theorem tempo_keeps_music_graceInSecondBar :
    (graceInSecondBar []).SameMusic (graceInSecondBar [⟨[], some 1⟩]) ∧
      ((graceInSecondBar []).played TempoMap.empty).value.map (·.time) = [31 / 16, 2] ∧
      ((graceInSecondBar [⟨[], some 1⟩]).played TempoMap.empty).value.map (·.time) =
        [2, 19 / 2] ∧
      List.Forall₂ PlayedNote.SameSound ((graceInSecondBar []).played TempoMap.empty).value
        ((graceInSecondBar [⟨[], some 1⟩]).played TempoMap.empty).value := by
  have hmusic : (graceInSecondBar []).SameMusic (graceInSecondBar [⟨[], some 1⟩]) :=
    .cons ⟨rfl, .same rfl⟩ (.cons ⟨rfl, .right _ (.same rfl)⟩ .nil)
  exact ⟨hmusic, by decide +kernel, by decide +kernel,
    tempo_keeps_music.1 _ _ hmusic TempoMap.empty TempoMap.empty⟩

end Rubato
