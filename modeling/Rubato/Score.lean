import Rubato.Harmony
import Rubato.Ornament

namespace Rubato

/-! A partwise score: parts of measures, measures of elements in document order.
Durations count divisions, of which the attributes of a measure put so many into a
quarter note; attributes stay in force until they are declared again. -/

structure TimeSignature where
  beats : Nat
  beatType : Nat
  deriving DecidableEq, Repr

structure Attributes where
  divisions : Option Nat
  time : Option TimeSignature
  fifths : Option Int
  deriving DecidableEq, Repr

def Attributes.none : Attributes := ⟨.none, .none, .none⟩

inductive GraceMark
  | plain
  | slashed
  deriving DecidableEq, Repr

/-- The first note of a tied chain starts a tie, the last one stops it, those
between do both. -/
structure TieMarks where
  start : Bool
  stop : Bool
  deriving DecidableEq, Repr

/-- A note, or a rest when it has no pitch. A chord member sounds with the note
before it and does not move the measure on. -/
structure Note where
  pitch : Option Pitch
  duration : Nat
  chord : Bool
  grace : Option GraceMark
  voice : Nat
  staff : Nat
  tie : TieMarks
  dots : Nat
  ornaments : List OrnamentMark
  accidentals : List AccidentalMark
  lyric : Option String
  deriving DecidableEq, Repr

def Note.isGrace (note : Note) : Bool := note.grace.isSome

def Note.isDotted (note : Note) : Bool := 0 < note.dots

structure Direction (α : Type) where
  words : List String
  tempo : Option α
  deriving DecidableEq, Repr

inductive MeasureElement (α : Type)
  | note (note : Note)
  | harmony (harmony : Harmony)
  | direction (direction : Direction α)
  | backup (duration : Nat)
  | forward (duration : Nat)
  deriving DecidableEq, Repr

structure Measure (α : Type) where
  number : String
  attributes : Attributes
  elements : List (MeasureElement α)
  deriving DecidableEq, Repr

structure Part (α : Type) where
  id : String
  measures : List (Measure α)
  deriving DecidableEq, Repr

structure Score (α : Type) where
  parts : List (Part α)
  deriving DecidableEq, Repr

/-! What is in force in a measure, and the measure's length in divisions by its
time signature, whatever is written in it. -/

structure Meter where
  divisions : Nat
  time : TimeSignature
  fifths : Int
  deriving DecidableEq, Repr

namespace Meter

def initial : Meter := ⟨1, ⟨4, 4⟩, 0⟩

def update (meter : Meter) (attributes : Attributes) : Meter where
  divisions := attributes.divisions.getD meter.divisions
  time := attributes.time.getD meter.time
  fifths := attributes.fifths.getD meter.fifths

@[simp] theorem update_none (meter : Meter) : meter.update .none = meter := rfl

variable {α : Type} [Quantity α]

def span (meter : Meter) : α :=
  (meter.time.beats : α) * (((4 : Nat) : α) / (meter.time.beatType : α)) *
    (meter.divisions : α)

end Meter

/-! The place reached in a measure, in divisions from its start: where the next note
begins, and where a chord member sounds, with the last note that was none. -/

structure Place (α : Type) where
  cursor : α
  anchor : α
  deriving DecidableEq

namespace Place

variable {α : Type} [Quantity α]

def start : Place α := ⟨0, 0⟩

def onset (place : Place α) (note : Note) : α :=
  if note.chord then place.anchor else place.cursor

/-- The place after an element. A backup never leads before the measure; grace
notes and chord members leave the place as it is. -/
def after (place : Place α) : MeasureElement α → Place α
  | .note note =>
    if note.isGrace || note.chord then place
    else ⟨place.cursor + (note.duration : α), place.cursor⟩
  | .backup duration =>
    { place with cursor := Quantity.greater (place.cursor - (duration : α)) 0 }
  | .forward duration => { place with cursor := place.cursor + (duration : α) }
  | .harmony _ => place
  | .direction _ => place

@[simp] theorem after_harmony (place : Place α) (harmony : Harmony) :
    place.after (.harmony harmony) = place := rfl

@[simp] theorem after_direction (place : Place α) (direction : Direction α) :
    place.after (.direction direction) = place := rfl

end Place

variable {α : Type}

def MeasureElement.forced (tempo : α) : MeasureElement α → MeasureElement α
  | .direction mark => .direction { mark with tempo := mark.tempo.map fun _ => tempo }
  | element => element

def Measure.forced (tempo : α) (measure : Measure α) : Measure α :=
  { measure with elements := measure.elements.map (MeasureElement.forced tempo) }

def Measure.addFront (measure : Measure α) (element : MeasureElement α) : Measure α :=
  { measure with elements := element :: measure.elements }

def Part.forced (tempo : α) (part : Part α) : Part α :=
  { part with
    measures :=
      match part.measures.map (Measure.forced tempo) with
      | [] => []
      | first :: rest => first.addFront (.direction ⟨[], some tempo⟩) :: rest }

def Score.forced (tempo : α) (score : Score α) : Score α :=
  { score with parts := score.parts.map (Part.forced tempo) }

end Rubato
