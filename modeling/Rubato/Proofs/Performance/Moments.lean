import Rubato.Proofs.Performance.Begun
import Rubato.Proofs.Performance.Conservation

namespace Rubato

/-! The course of a part: its measures are entered, walked through element by element, and
left, one moment after the other. -/

inductive Moment (α : Type)
  | enter (attributes : Attributes)
  | element (element : MeasureElement α)
  | leave
  deriving DecidableEq, Repr

section Course

variable {α : Type}

def Moment.pitched? : Moment α → Option PitchedNote
  | .element written => written.pitched?
  | _ => none

def Measure.moments (measure : Measure α) : List (Moment α) :=
  .enter measure.attributes :: (measure.elements.map .element ++ [.leave])

def Part.moments (part : Part α) : List (Moment α) :=
  part.measures.flatMap Measure.moments

theorem Part.moments_eq {part : Part α} {number : Nat} {measure : Measure α}
    (h : part.measures[number]? = some measure) :
    part.moments = (part.measures.take number).flatMap Measure.moments ++
      (measure.moments ++ (part.measures.drop (number + 1)).flatMap Measure.moments) := by
  obtain ⟨hnumber, rfl⟩ := List.getElem?_eq_some_iff.mp h
  have hmeasures := List.take_append_drop number part.measures
  rw [List.drop_eq_getElem_cons hnumber] at hmeasures
  unfold Part.moments
  conv_lhs => rw [← hmeasures]
  rw [List.flatMap_append, List.flatMap_cons]

theorem Measure.moments_split (measure : Measure α) (index : Nat) :
    measure.moments = .enter measure.attributes :: (measure.elements.take index).map .element ++
      ((measure.elements.drop index).map .element ++ [.leave]) := by
  have helements : measure.elements.map Moment.element =
      (measure.elements.take index).map .element ++
        (measure.elements.drop index).map .element := by
    rw [← List.map_append, List.take_append_drop]
  simp only [Measure.moments, helements, List.cons_append, List.append_assoc]

end Course

theorem Note.isGrace_of_pitched? {note : Note} {pitched : PitchedNote}
    (h : note.pitched? = some pitched) : note.isGrace = false := by
  cases hgrace : note.isGrace with
  | false => rfl
  | true => cases (Note.pitched?_of_isGrace hgrace).symm.trans h

variable {α : Type} [Quantity α]

namespace MeasureWalk

def initial (map : TempoMap α) : MeasureWalk α :=
  ⟨Walker.initial map, Place.start, []⟩

def live (walk : MeasureWalk α) : Moment α → MeasureWalk α
  | .enter attributes => ⟨walk.walker.enter attributes, Place.start, []⟩
  | .element element => (walk.step element).value
  | .leave => ⟨walk.walker.leave, walk.place, []⟩

def past (walk : MeasureWalk α) (moments : List (Moment α)) : MeasureWalk α :=
  moments.foldl live walk

@[simp] theorem past_nil (walk : MeasureWalk α) : walk.past [] = walk := rfl

@[simp] theorem past_cons (walk : MeasureWalk α) (moment : Moment α)
    (rest : List (Moment α)) : walk.past (moment :: rest) = (walk.live moment).past rest := rfl

@[simp] theorem past_append (walk : MeasureWalk α) (first second : List (Moment α)) :
    walk.past (first ++ second) = (walk.past first).past second :=
  List.foldl_append

@[simp] theorem graces_step (walk : MeasureWalk α) (element : MeasureElement α) :
    (walk.step element).value.graces = gracesAfter walk.graces element := rfl

/-- What is played for a note that begins where the walk is, with grace notes before it. -/
def play (walk : MeasureWalk α) (pitched : PitchedNote) (graces : List GraceNote) :
    List (PlayedNote α) :=
  walk.walker.clock.playNote walk.walker.meter.fifths pitched.note pitched.pitch
    (walk.place.onset pitched.note) graces

theorem play_ne_nil (walk : MeasureWalk α) (pitched : PitchedNote) (graces : List GraceNote) :
    walk.play pitched graces ≠ [] :=
  walk.walker.clock.playNote_ne_nil _ pitched.note pitched.pitch _ graces

theorem past_elements (walk : MeasureWalk α) (elements : List (MeasureElement α)) :
    walk.past (elements.map .element) = walk.after elements :=
  List.foldl_map

theorem walker_past_moments (walk : MeasureWalk α) (measure : Measure α) :
    (walk.past measure.moments).walker = (walk.walker.through measure).leave := by
  unfold Measure.moments Walker.through
  rw [Walker.value_elements, past_cons, past_append, past_elements]
  rfl

theorem walker_past_measures (walk : MeasureWalk α) (measures : List (Measure α)) :
    (walk.past (measures.flatMap Measure.moments)).walker =
      measures.foldl (fun walker measure => (walker.measure measure).value) walk.walker := by
  induction measures generalizing walk with
  | nil => rfl
  | cons measure rest ih =>
      rw [List.flatMap_cons, past_append, ih, walker_past_moments, List.foldl_cons,
        Walker.value_measure]

end MeasureWalk

def Walker.before (walker : Walker α) (measure : Measure α) (index : Nat) : MeasureWalk α :=
  MeasureWalk.after ⟨walker.enter measure.attributes, Place.start, []⟩
    (measure.elements.take index)

namespace Part

theorem walkerAt_eq_past (part : Part α) (map : TempoMap α) (number : Nat) :
    part.walkerAt map number = ((MeasureWalk.initial map).past
      ((part.measures.take number).flatMap Measure.moments)).walker :=
  (MeasureWalk.walker_past_measures (MeasureWalk.initial map) (part.measures.take number)).symm

theorem value_played_eq_past (part : Part α) (map : TempoMap α) :
    (part.played map).value = ((MeasureWalk.initial map).past part.moments).walker.notes := by
  rw [value_played, walkerAt_eq_past, List.take_length]
  rfl

end Part

namespace Walker

def Begins (walker : Walker α) (pitched : PitchedNote) : Prop :=
  (walker.ties.action pitched.note.tie pitched.key).begins = true

variable {walker : Walker α} {pitched : PitchedNote}

omit [Quantity α] in
theorem begins_of_not_stop (walker : Walker α) (h : pitched.note.tie.stop = false) :
    walker.Begins pitched := by
  unfold Begins
  rw [OpenTies.action_eq_begin_iff.mpr h]
  rfl

theorem Begins.value_place (h : walker.Begins pitched) (position : α)
    (graces : List GraceNote) :
    (walker.place pitched.note pitched.pitch position graces).value =
      walker.begin pitched.note pitched.pitch pitched.key position graces :=
  Walker.value_place_of_begins h position graces

end Walker

theorem Walker.find?_place (walker : Walker α) (pitched : PitchedNote) {key : TieKey}
    (h : key ≠ pitched.key) (position : α) (graces : List GraceNote) :
    (walker.place pitched.note pitched.pitch position graces).value.ties.find? key =
      walker.ties.find? key := by
  have hbegin : (walker.begin pitched.note pitched.pitch pitched.key position graces).ties.find?
      key = walker.ties.find? key := by
    rw [find?_ties_begin, if_neg fun hself => h hself.2]
  rw [value_place]
  cases walker.ties.action pitched.note.tie (TieKey.ofNote pitched.note pitched.pitch) with
  | begin => exact hbegin
  | restart => exact hbegin
  | extend index =>
      dsimp only
      rw [find?_ties_extend]
      exact if_neg fun hself => h hself.2
  | drop => rfl

namespace MeasureWalk

theorem walker_live_of_pitched {walk : MeasureWalk α} {moment : Moment α}
    {pitched : PitchedNote} (h : moment.pitched? = some pitched) :
    (walk.live moment).walker =
      (walk.walker.place pitched.note pitched.pitch (walk.place.onset pitched.note)
        walk.graces).value := by
  cases moment with
  | element written => exact walker_of_pitched h
  | enter attributes => cases h
  | leave => cases h

theorem walker_live_of_unpitched {walk : MeasureWalk α} {moment : Moment α}
    (h : moment.pitched? = none) :
    (walk.live moment).walker.ties = walk.walker.ties ∧
      (walk.live moment).walker.notes = walk.walker.notes := by
  cases moment with
  | element written => exact walker_of_unpitched h
  | enter attributes => exact ⟨rfl, rfl⟩
  | leave => exact ⟨rfl, rfl⟩

/-- Walks that differ in nothing but what they have played. -/
structure InStep (first second : MeasureWalk α) : Prop where
  clock : first.walker.clock = second.walker.clock
  meter : first.walker.meter = second.walker.meter
  place : first.place = second.place
  graces : first.graces = second.graces

namespace InStep

variable {first second : MeasureWalk α}

omit [Quantity α] in
theorem refl (walk : MeasureWalk α) : walk.InStep walk := ⟨rfl, rfl, rfl, rfl⟩

theorem step (h : first.InStep second) {element other : MeasureElement α}
    (htempo : element.tempo? = other.tempo?)
    (hafter : ∀ place : Place α, place.after element = place.after other)
    (hgraces : ∀ graces, gracesAfter graces element = gracesAfter graces other) :
    (first.step element).value.InStep (second.step other).value where
  clock := by rw [clock_step, clock_step, h.clock, h.place, htempo]
  meter := by rw [meter_step, meter_step, h.meter]
  place := by rw [place_step, place_step, h.place, hafter]
  graces := by rw [graces_step, graces_step, h.graces, hgraces]

theorem live (h : first.InStep second) (moment : Moment α) :
    (first.live moment).InStep (second.live moment) := by
  cases moment with
  | element written => exact h.step rfl (fun _ => rfl) fun _ => rfl
  | enter attributes =>
      refine ⟨?_, ?_, rfl, rfl⟩
      · show Clock.enter first.walker.clock _ _ = Clock.enter second.walker.clock _ _
        rw [h.clock, h.meter]
      · exact congrArg (·.update attributes) h.meter
  | leave =>
      refine ⟨?_, h.meter, h.place, rfl⟩
      show Clock.leave first.walker.clock _ = Clock.leave second.walker.clock _
      rw [h.clock, h.meter]

end InStep

/-- What holds of the ties and the played notes of a walk, and is kept when a note is placed,
holds behind any moments. -/
theorem past_induction {P : OpenTies → List (PlayedNote α) → Prop} {moments : List (Moment α)}
    (hplace : ∀ moment ∈ moments, ∀ pitched ∈ moment.pitched?,
      ∀ (walker : Walker α) (position : α) (graces : List GraceNote),
        P walker.ties walker.notes →
          P (walker.place pitched.note pitched.pitch position graces).value.ties
            (walker.place pitched.note pitched.pitch position graces).value.notes)
    {walk : MeasureWalk α} (h : P walk.walker.ties walk.walker.notes) :
    P (walk.past moments).walker.ties (walk.past moments).walker.notes := by
  induction moments generalizing walk with
  | nil => exact h
  | cons moment rest ih =>
      refine ih (fun other hother => hplace other (List.mem_cons_of_mem moment hother)) ?_
      cases hpitched : moment.pitched? with
      | none =>
          obtain ⟨hties, hnotes⟩ := walk.walker_live_of_unpitched hpitched
          rwa [hties, hnotes]
      | some pitched =>
          rw [walker_live_of_pitched hpitched]
          exact hplace moment List.mem_cons_self pitched hpitched _ _ _ h

theorem find?_past {key : TieKey} {moments : List (Moment α)}
    (hothers : ∀ moment ∈ moments, ∀ pitched ∈ moment.pitched?, pitched.key ≠ key)
    (walk : MeasureWalk α) :
    (walk.past moments).walker.ties.find? key = walk.walker.ties.find? key :=
  past_induction (P := fun ties _ => ties.find? key = walk.walker.ties.find? key)
    (fun moment hmoment pitched hpitched walker position graces h =>
      (walker.find?_place pitched (hothers moment hmoment pitched hpitched).symm position
        graces).trans h) rfl

end MeasureWalk

theorem Part.Reaches.exists_past {part : Part α} {map : TempoMap α} {walk : MeasureWalk α}
    (h : part.Reaches map walk) : ∃ moments, walk = (MeasureWalk.initial map).past moments := by
  obtain ⟨number, measure, walked, left, -, -, rfl⟩ := h
  refine ⟨(part.measures.take number).flatMap Measure.moments ++
    .enter measure.attributes :: walked.map .element, ?_⟩
  rw [MeasureWalk.past_append, MeasureWalk.past_cons, MeasureWalk.past_elements,
    walkerAt_eq_past]
  rfl

def Moment.WellFormed : Moment ℚ → Prop
  | .enter attributes => attributes.WellFormed
  | .element written => ∀ bpm ∈ written.tempo?, 0 < bpm
  | .leave => True

theorem Part.WellFormed.moments {part : Part ℚ} (hpart : part.WellFormed) :
    ∀ moment ∈ part.moments, moment.WellFormed := by
  intro moment hmoment
  obtain ⟨measure, hmeasure, hmoment⟩ := List.mem_flatMap.mp hmoment
  have hwritten := hpart measure hmeasure
  rcases List.mem_cons.mp hmoment with rfl | hinside
  · exact hwritten.attributes_wellFormed
  rcases List.mem_append.mp hinside with helement | hleave
  · obtain ⟨written, hwrittenMem, rfl⟩ := List.mem_map.mp helement
    exact hwritten.tempo_pos written hwrittenMem
  · rw [List.mem_singleton.mp hleave]
    trivial

namespace MeasureWalk

structure Grounded (walk : MeasureWalk ℚ) : Prop where
  walker : walk.walker.Grounded
  place : walk.place.Nonneg

variable {walk : MeasureWalk ℚ}

theorem Grounded.live (hwalk : walk.Grounded) {moment : Moment ℚ} (hmoment : moment.WellFormed) :
    (walk.live moment).Grounded := by
  cases moment with
  | enter attributes => exact ⟨hwalk.walker.enter hmoment, Place.nonneg_start⟩
  | element written => exact ⟨hwalk.walker.step hwalk.place hmoment, hwalk.place.after written⟩
  | leave => exact ⟨hwalk.walker.leave, hwalk.place⟩

theorem Grounded.past (hwalk : walk.Grounded) {moments : List (Moment ℚ)}
    (hmoments : ∀ moment ∈ moments, moment.WellFormed) : (walk.past moments).Grounded := by
  induction moments generalizing walk with
  | nil => exact hwalk
  | cons moment rest ih =>
      exact ih (hwalk.live (hmoments moment List.mem_cons_self))
        fun other hother => hmoments other (List.mem_cons_of_mem moment hother)

theorem grounded_initial {map : TempoMap ℚ} (hmap : map.WellFormed) :
    (initial map).Grounded :=
  ⟨⟨Clock.wellFormed_initial hmap, Meter.wellFormed_initial, fun note hnote => by cases hnote⟩,
    Place.nonneg_start⟩

end MeasureWalk

end Rubato
