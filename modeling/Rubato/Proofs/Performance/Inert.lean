import Rubato.Proofs.Performance.Conservation
import Rubato.Proofs.Performance.Moments

namespace Rubato

section Written

variable {α : Type}

namespace MeasureElement

/-- An element that takes no time and states no tempo. -/
def IsInert : MeasureElement α → Prop
  | .harmony _ => True
  | .direction mark => mark.tempo = none
  | _ => False

def isGrace : MeasureElement α → Bool
  | .note written => written.isGrace
  | _ => false

def graceNote? : MeasureElement α → Option GraceNote
  | .note written => GraceNote.ofNote? written
  | _ => none

def leadingGraces : List (MeasureElement α) → List GraceNote
  | [] => []
  | element :: rest =>
    if element.isGrace then element.graceNote?.toList ++ leadingGraces rest else []

def ledNote? : List (MeasureElement α) → Option PitchedNote
  | [] => none
  | element :: rest => if element.isGrace then ledNote? rest else element.pitched?

end MeasureElement

def Measure.insert (index : Nat) (element : MeasureElement α) (measure : Measure α) :
    Measure α :=
  { measure with elements := measure.elements.insertIdx index element }

/-- A part with an element put in before another one of a measure; both count from zero. -/
def Part.insert (number index : Nat) (element : MeasureElement α) (part : Part α) : Part α :=
  { part with measures := part.measures.modify number (Measure.insert index element) }

end Written

section Graces

variable {α : Type} [Quantity α]

namespace Walker

variable {walker : Walker α} {pitched : PitchedNote}

theorem value_place_of_not_begins (h : ¬walker.Begins pitched) (position : α)
    (first second : List GraceNote) :
    (walker.place pitched.note pitched.pitch position first).value =
      (walker.place pitched.note pitched.pitch position second).value := by
  have hkey : TieKey.ofNote pitched.note pitched.pitch = pitched.key := rfl
  unfold Begins at h
  rw [Walker.value_place, Walker.value_place, hkey]
  cases haction : walker.ties.action pitched.note.tie pitched.key with
  | begin =>
      rw [haction] at h
      exact absurd rfl h
  | restart =>
      rw [haction] at h
      exact absurd rfl h
  | extend index => rfl
  | drop => rfl

end Walker

namespace MeasureWalk

theorem step_of_inert (walk : MeasureWalk α) {element : MeasureElement α}
    (h : element.IsInert) : (walk.step element).value = { walk with graces := [] } := by
  cases element with
  | harmony harmony => rfl
  | direction mark =>
      have hmark : mark.tempo = none := h
      show (⟨direction walk.walker walk.place.cursor mark, walk.place, []⟩ : MeasureWalk α) = _
      simp only [direction, hmark]
  | note note => cases h
  | backup duration => cases h
  | forward duration => cases h

theorem step_of_isGrace (walk : MeasureWalk α) {element : MeasureElement α}
    (h : element.isGrace = true) :
    (walk.step element).value =
      { walk with graces := walk.graces ++ element.graceNote?.toList } := by
  cases element with
  | note note =>
      have hgrace : note.isGrace = true := h
      simp only [step, walkerAfter_of_isGrace walk hgrace, Noted.value_bind, Noted.value_pure,
        Place.after, gracesAfter, hgrace, Bool.true_or, if_true]
      rfl
  | harmony harmony => cases h
  | direction mark => cases h
  | backup duration => cases h
  | forward duration => cases h

omit [Quantity α] in
theorem gracesAfter_of_not_grace (graces : List GraceNote) {element : MeasureElement α}
    (h : element.isGrace = false) : gracesAfter graces element = [] := by
  cases element with
  | note note => exact if_neg (Bool.eq_false_iff.mp h)
  | harmony harmony => rfl
  | direction mark => rfl
  | backup duration => rfl
  | forward duration => rfl

theorem step_graces_eq (walk : MeasureWalk α) {element : MeasureElement α}
    (hgrace : element.isGrace = false) (first second : List GraceNote)
    (hsame : ∀ pitched ∈ element.pitched?, walk.walker.Begins pitched →
      walk.play pitched first = walk.play pitched second) :
    (({ walk with graces := first } : MeasureWalk α).step element).value =
      (({ walk with graces := second } : MeasureWalk α).step element).value := by
  suffices hwalker : (({ walk with graces := first } : MeasureWalk α).step element).value.walker =
      (({ walk with graces := second } : MeasureWalk α).step element).value.walker by
    show MeasureWalk.mk _ _ (gracesAfter first element) =
      MeasureWalk.mk _ _ (gracesAfter second element)
    rw [gracesAfter_of_not_grace first hgrace, gracesAfter_of_not_grace second hgrace]
    exact congrArg (MeasureWalk.mk · (walk.place.after element) []) hwalker
  cases hpitched : element.pitched? with
  | some pitched =>
      rw [walker_of_pitched hpitched, walker_of_pitched hpitched]
      by_cases hbegins : walk.walker.Begins pitched
      · have hplayed := hsame pitched hpitched hbegins
        unfold play at hplayed
        rw [hbegins.value_place, hbegins.value_place]
        simp only [Walker.begin, hplayed]
      · exact Walker.value_place_of_not_begins hbegins _ _ _
  | none =>
      cases element with
      | note note =>
          have hpitch : note.pitch = none :=
            Option.map_eq_none_iff.mp ((Note.pitched?_of_pitch hgrace).symm.trans hpitched)
          simp only [step, walkerAfter_of_rest _ hpitch, Noted.value_bind, Noted.value_pure]
      | harmony harmony => rfl
      | direction mark => rfl
      | backup duration => rfl
      | forward duration => rfl

end MeasureWalk

end Graces

theorem PlayedNote.lengthen_injective (seconds : ℚ) :
    Function.Injective (PlayedNote.lengthen seconds) := by
  intro first second h
  simp only [lengthen, PlayedNote.mk.injEq, add_left_inj] at h
  obtain ⟨htime, hpitch, hname, hduration, hstaff, hornamental⟩ := h
  cases first
  cases second
  simp_all only

/-- Walkers with ties open for the same keys that have played different notes. Where they
have played equally many, their ties agree. -/
structure Walker.Unlike (first second : Walker ℚ) : Prop where
  opens : ∀ key, (first.ties.find? key).isSome = (second.ties.find? key).isSome
  notes : first.notes ≠ second.notes
  ties : first.notes.length = second.notes.length → first.ties = second.ties

namespace Walker.Unlike

variable {first second : Walker ℚ}

theorem begin (h : Unlike first second) (hclock : first.clock = second.clock)
    (hmeter : first.meter = second.meter) (note : Note) (pitch : Pitch) (key : TieKey)
    (position : ℚ) (graces : List GraceNote) :
    Unlike (first.begin note pitch key position graces)
      (second.begin note pitch key position graces) := by
  have hfirst := first.notes_begin note pitch key position graces
  have hsecond := second.notes_begin note pitch key position graces
  rw [hclock, hmeter] at hfirst
  constructor
  · intro other
    rw [Walker.find?_ties_begin, Walker.find?_ties_begin]
    split
    · rw [Option.isSome_some, Option.isSome_some]
    · exact h.opens other
  · rw [hfirst, hsecond]
    simpa using h.notes
  · intro hlength
    have hbefore : first.notes.length = second.notes.length := by
      rw [hfirst, hsecond] at hlength
      simpa using hlength
    rw [Walker.ties_begin, Walker.ties_begin, hlength, h.ties hbefore]

theorem extend (h : Unlike first second) (hclock : first.clock = second.clock) (note : Note)
    (key : TieKey) (position : ℚ) {index other : Nat}
    (hindex : first.notes.length = second.notes.length → index = other) :
    Unlike (first.extend note key position index) (second.extend note key position other) := by
  have hlength : (first.extend note key position index).notes.length =
      (second.extend note key position other).notes.length →
        first.notes.length = second.notes.length := by
    rw [Walker.notes_extend, Walker.notes_extend, List.length_modify, List.length_modify]
    exact id
  constructor
  · intro third
    rw [Walker.find?_ties_extend, Walker.find?_ties_extend]
    split
    · rfl
    · exact h.opens third
  · intro hnotes
    have hsame := hindex (hlength (congrArg List.length hnotes))
    rw [Walker.notes_extend, Walker.notes_extend, hclock, hsame] at hnotes
    exact h.notes (modify_injective (PlayedNote.lengthen_injective _) other hnotes)
  · intro hafter
    rw [Walker.ties_extend, Walker.ties_extend, h.ties (hlength hafter)]

theorem place (h : Unlike first second) (hclock : first.clock = second.clock)
    (hmeter : first.meter = second.meter) (note : Note) (pitch : Pitch) (position : ℚ)
    (graces : List GraceNote) :
    Unlike (first.place note pitch position graces).value
      (second.place note pitch position graces).value := by
  -- The first walk has a tie open where the second one has, wherever it points.
  have hopens : first.ties.find? (TieKey.ofNote note pitch) =
      (second.ties.find? (TieKey.ofNote note pitch)).map
        ((first.ties.find? (TieKey.ofNote note pitch)).getD ·) := by
    have hsome := h.opens (TieKey.ofNote note pitch)
    cases hfirst : first.ties.find? (TieKey.ofNote note pitch) <;>
      cases hsecond : second.ties.find? (TieKey.ofNote note pitch) <;> simp_all
  rw [Walker.value_place, Walker.value_place, OpenTies.action_map hopens]
  cases haction : second.ties.action note.tie (TieKey.ofNote note pitch) with
  | begin => exact h.begin hclock hmeter ..
  | restart => exact h.begin hclock hmeter ..
  | extend other =>
      refine h.extend hclock note _ position fun hlength => ?_
      rw [h.ties hlength, (OpenTies.action_eq_extend_iff.mp haction).2]
      rfl
  | drop => exact h

end Walker.Unlike

namespace MeasureWalk

structure Unlike (first second : MeasureWalk ℚ) : Prop where
  inStep : first.InStep second
  walker : first.walker.Unlike second.walker

namespace Unlike

variable {first second : MeasureWalk ℚ}

theorem live (h : Unlike first second) (moment : Moment ℚ) :
    Unlike (first.live moment) (second.live moment) := by
  refine ⟨h.inStep.live moment, ?_⟩
  cases hpitched : moment.pitched? with
  | some pitched =>
      rw [walker_live_of_pitched hpitched, walker_live_of_pitched hpitched, h.inStep.place,
        h.inStep.graces]
      exact h.walker.place h.inStep.clock h.inStep.meter ..
  | none =>
      obtain ⟨hties, hnotes⟩ := first.walker_live_of_unpitched hpitched
      obtain ⟨hotherTies, hotherNotes⟩ := second.walker_live_of_unpitched hpitched
      constructor
      · rw [hties, hotherTies]
        exact h.walker.opens
      · rw [hnotes, hotherNotes]
        exact h.walker.notes
      · rw [hties, hotherTies, hnotes, hotherNotes]
        exact h.walker.ties

theorem past (h : Unlike first second) (moments : List (Moment ℚ)) :
    Unlike (first.past moments) (second.past moments) := by
  induction moments generalizing first second with
  | nil => exact h
  | cons moment rest ih => exact ih (h.live moment)

end Unlike

theorem unlike_of_graces (walk : MeasureWalk ℚ) {element : MeasureElement ℚ}
    {pitched : PitchedNote} (hpitched : element.pitched? = some pitched)
    (hbegins : walk.walker.Begins pitched) {first second : List GraceNote}
    (hplayed : walk.play pitched first ≠ walk.play pitched second) :
    Unlike (({ walk with graces := first } : MeasureWalk ℚ).step element).value
      (({ walk with graces := second } : MeasureWalk ℚ).step element).value := by
  have hgrace : element.isGrace = false := by
    cases element with
    | note note => exact Note.isGrace_of_pitched? hpitched
    | harmony harmony => rfl
    | direction mark => rfl
    | backup duration => rfl
    | forward duration => rfl
  constructor
  · constructor
    · rw [clock_step, clock_step]
    · rw [meter_step, meter_step]
    · rw [place_step, place_step]
    · rw [graces_step, graces_step, gracesAfter_of_not_grace first hgrace,
        gracesAfter_of_not_grace second hgrace]
  · rw [walker_of_pitched hpitched, walker_of_pitched hpitched, hbegins.value_place,
      hbegins.value_place]
    simp only [Walker.begin]
    constructor
    · intro other
      dsimp only
      split
      · rw [OpenTies.find?_insert, OpenTies.find?_insert]
        split
        · simp only [Option.isSome_some]
        · rfl
      · rfl
    · simpa [play] using hplayed
    · intro hlength
      simp only [hlength]

/-- Grace notes before some elements are heard in the note that these lead to, or not at
all. -/
theorem notes_past_graces_iff (walk : MeasureWalk ℚ) (elements : List (MeasureElement ℚ))
    (rest : List (Moment ℚ)) (first second : List GraceNote) :
    (({ walk with graces := first } : MeasureWalk ℚ).past
        (elements.map .element ++ .leave :: rest)).walker.notes =
      (({ walk with graces := second } : MeasureWalk ℚ).past
        (elements.map .element ++ .leave :: rest)).walker.notes ↔
    ∀ pitched ∈ MeasureElement.ledNote? elements, walk.walker.Begins pitched →
      walk.play pitched (first ++ MeasureElement.leadingGraces elements) =
        walk.play pitched (second ++ MeasureElement.leadingGraces elements) := by
  induction elements generalizing first second with
  | nil => exact iff_of_true rfl fun pitched hpitched => by cases hpitched
  | cons element elements ih =>
      rw [List.map_cons, List.cons_append, past_cons, past_cons, live, live]
      cases hgrace : element.isGrace with
      | true =>
          rw [step_of_isGrace _ hgrace, step_of_isGrace _ hgrace]
          simpa [MeasureElement.ledNote?, MeasureElement.leadingGraces, hgrace] using
            ih (first ++ element.graceNote?.toList) (second ++ element.graceNote?.toList)
      | false =>
          simp only [MeasureElement.ledNote?, MeasureElement.leadingGraces, hgrace,
            Bool.false_eq_true, if_false, List.append_nil]
          constructor
          · intro hnotes pitched hpitched hbegins
            by_contra hplayed
            exact ((walk.unlike_of_graces hpitched hbegins hplayed).past _).walker.notes hnotes
          · intro hsame
            rw [walk.step_graces_eq hgrace first second hsame]

end MeasureWalk

section Course

variable {α : Type}

theorem Part.moments_insert {part : Part α} {number : Nat} {measure : Measure α}
    (h : part.measures[number]? = some measure) (index : Nat) (element : MeasureElement α) :
    (part.insert number index element).moments =
      (part.measures.take number).flatMap Measure.moments ++
        ((measure.insert index element).moments ++
          (part.measures.drop (number + 1)).flatMap Measure.moments) := by
  obtain ⟨hnumber, rfl⟩ := List.getElem?_eq_some_iff.mp h
  unfold Part.moments Part.insert
  rw [List.modify_eq_take_cons_drop hnumber, List.flatMap_append, List.flatMap_cons]

theorem Measure.moments_insert {measure : Measure α} {index : Nat}
    (h : index ≤ measure.elements.length) (element : MeasureElement α) :
    (measure.insert index element).moments =
      .enter measure.attributes :: (measure.elements.take index).map .element ++
        .element element :: ((measure.elements.drop index).map .element ++ [.leave]) := by
  simp [Measure.moments, Measure.insert, insertIdx_eq h]

end Course

/-- An element that is inert leaves a performance as it is exactly where the note that it
cuts off from a run of grace notes sounds the same without them. Where no grace notes stand
before it, it always does. -/
theorem Part.played_insert_iff (part : Part ℚ) (map : TempoMap ℚ) {number : Nat}
    {measure : Measure ℚ} (hmeasure : part.measures[number]? = some measure) (index : Nat)
    {element : MeasureElement ℚ} (hinert : element.IsInert) :
    let walk := (part.walkerAt map number).before measure index
    let behind := measure.elements.drop index
    let later := MeasureElement.leadingGraces behind
    (((part.insert number index element).played map).value = (part.played map).value ↔
      ∀ pitched ∈ MeasureElement.ledNote? behind, walk.walker.Begins pitched →
        walk.play pitched later = walk.play pitched (walk.graces ++ later)) ∧
      (walk.graces = [] →
        ((part.insert number index element).played map).value = (part.played map).value) := by
  intro walk behind later
  suffices hiff : ((part.insert number index element).played map).value =
      (part.played map).value ↔ _ by
    refine ⟨hiff, fun hnone => hiff.mpr fun pitched _ _ => ?_⟩
    rw [hnone, List.nil_append]
  by_cases hindex : index ≤ measure.elements.length
  · let rest := (part.measures.drop (number + 1)).flatMap Measure.moments
    let front := (part.measures.take number).flatMap Measure.moments ++
      .enter measure.attributes :: (measure.elements.take index).map .element
    have hfront : (MeasureWalk.initial map).past front = walk := by
      rw [MeasureWalk.past_append, MeasureWalk.past_cons, MeasureWalk.past_elements,
        MeasureWalk.live, ← part.walkerAt_eq_past]
      rfl
    have hplayed : (part.played map).value =
        (walk.past (behind.map .element ++ .leave :: rest)).walker.notes := by
      rw [Part.value_played_eq_past, Part.moments_eq hmeasure, measure.moments_split index,
        ← hfront, ← MeasureWalk.past_append]
      simp only [front, behind, rest, List.append_assoc, List.cons_append, List.nil_append]
    have hinserted : ((part.insert number index element).played map).value =
        (({ walk with graces := [] } : MeasureWalk ℚ).past
          (behind.map .element ++ .leave :: rest)).walker.notes := by
      rw [← walk.step_of_inert hinert, Part.value_played_eq_past, Part.moments_insert hmeasure,
        Measure.moments_insert hindex, ← hfront]
      show _ = (((MeasureWalk.initial map).past front).past
        (.element element :: (behind.map .element ++ .leave :: rest))).walker.notes
      rw [← MeasureWalk.past_append]
      simp only [front, behind, rest, List.append_assoc, List.cons_append, List.nil_append]
    rw [hplayed, hinserted]
    exact walk.notes_past_graces_iff behind rest [] walk.graces
  · have hsame : part.insert number index element = part := by
      have hmeasures : measure.insert index element = measure := by
        unfold Measure.insert
        rw [List.insertIdx_of_length_lt (not_le.mp hindex)]
      obtain ⟨hnumber, hget⟩ := List.getElem?_eq_some_iff.mp hmeasure
      have hmodified : part.measures.modify number (Measure.insert index element) =
          part.measures := by
        rw [List.modify_eq_set_get _ hnumber, List.get_eq_getElem, hget, hmeasures, ← hget,
          List.set_getElem_self]
      unfold Part.insert
      rw [hmodified]
    have hbehind : behind = [] := List.drop_eq_nil_of_le (not_le.mp hindex).le
    rw [hsame]
    refine iff_of_true rfl fun pitched hpitched => ?_
    rw [hbehind] at hpitched
    cases hpitched

def graceInBar : Measure ℚ where
  number := "1"
  attributes := .none
  elements := [
    .note (.plain (some ⟨.g, 0, 4⟩) 1),
    .note { Note.plain (some ⟨.d, 0, 5⟩) 0 with grace := some .slashed },
    .note (.plain (some ⟨.c, 0, 5⟩) 1)]

def graceBeforeNote : Part ℚ := ⟨"P1", [graceInBar]⟩

def chordOfC : MeasureElement ℚ := .harmony ⟨some ⟨.c, 0⟩, "major", none, none⟩

section Text

open Markup (tagged)

private def stepText (letter octave : Char) : List Char :=
  tagged "pitch" [] [tagged "step" [] [[letter]], tagged "octave" [] [[octave]]]

private def quarterText (letter octave : Char) : List Char :=
  tagged "note" [] [stepText letter octave, tagged "duration" [] [['1']]]

private def graceBeforeNoteText (symbol : List Char) : List Char :=
  tagged "score-partwise" [] [tagged "part" [" id=", "\"P1\""] [
    tagged "measure" [" number=", "\"1\""] [
      quarterText 'G' '4',
      tagged "note" [] [tagged "grace" [" slash=", "\"yes\""] [], stepText 'D' '5'],
      symbol,
      quarterText 'C' '5']]]

private def chordOfCText : List Char :=
  tagged "harmony" [] [
    tagged "root" [] [tagged "root-step" [] [['C']]],
    tagged "kind" [] ["major".toList]]

end Text

/-- Between the grace note and its note the symbol silences the grace note. -/
theorem not_played_insert_graceBeforeNote :
    (Score.mk [graceBeforeNote]).IsRead ∧
      (Score.mk [graceBeforeNote.insert 0 2 chordOfC]).IsRead ∧
      ((graceBeforeNote.insert 0 2 chordOfC).played .empty).value ≠
        (graceBeforeNote.played .empty).value := by
  have hread : (Score.mk [graceBeforeNote]).IsRead :=
    Score.isRead_of_characters (graceBeforeNoteText []) (by decide +kernel)
  have hinserted : (Score.mk [graceBeforeNote.insert 0 2 chordOfC]).IsRead :=
    Score.isRead_of_characters (graceBeforeNoteText chordOfCText) (by decide +kernel)
  exact ⟨hread, hinserted, by decide +kernel⟩

theorem played_insert_iff_graceBeforeNote :
    graceBeforeNote.measures[0]? = some graceInBar ∧ chordOfC.IsInert ∧
      ((graceBeforeNote.insert 0 1 chordOfC).played .empty).value =
        (graceBeforeNote.played .empty).value := by
  have hmeasure : graceBeforeNote.measures[0]? = some graceInBar := rfl
  have hinert : chordOfC.IsInert := trivial
  refine ⟨hmeasure, hinert, ?_⟩
  exact (graceBeforeNote.played_insert_iff .empty hmeasure 1 hinert).2 (by decide +kernel)

end Rubato
