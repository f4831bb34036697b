import Rubato.Pitch.Neighbor

namespace Rubato

/-! Ornaments. An ornamented note is replaced by a figure of notes that fills its
length. A figure note lasts one unit, a thirty-second of a whole, less when the
note is too short for the whole figure. Neighbours follow the key unless an
accidental asks for a chromatic one.

    mordent           main, lower, main         (long: once more)
    inverted mordent  main, upper, main         (long: once more)
    turn              upper, main, lower, main
    delayed turn      main held, then upper, main, lower, main
    trill             main, upper, main, ... an odd number, at least five -/

inductive OrnamentMark
  | mordent (long : Bool)
  | invertedMordent (long : Bool)
  | trill
  | turn
  | delayedTurn
  | shake
  | wavyLine
  deriving DecidableEq, Repr

inductive Placement
  | above
  | below
  deriving DecidableEq, Repr

structure AccidentalMark where
  semitones : Int
  placement : Option Placement
  deriving DecidableEq, Repr

inductive Ornament
  | mordent (long : Bool) (lower : Option Int)
  | invertedMordent (long : Bool) (upper : Option Int)
  | trill (upper : Option Int)
  | wavyLine (upper : Option Int)
  | shake (upper : Option Int)
  | turn (upper lower : Option Int)
  | delayedTurn (upper lower : Option Int)
  deriving DecidableEq, Repr

namespace Ornament

/-- The ornament of the first mark. A turn gives an accidental below to its lower
neighbour and the first other one to the upper; the ornaments with one neighbour
take the first accidental wherever it stands. -/
def ofMarks? (marks : List OrnamentMark) (accidentals : List AccidentalMark) :
    Option Ornament :=
  let first := accidentals.head?.map (·.semitones)
  let lower := (accidentals.find? fun mark => mark.placement = some .below).map (·.semitones)
  let upper := (accidentals.find? fun mark => mark.placement ≠ some .below).map (·.semitones)
  marks.head?.map fun
    | .mordent long => .mordent long first
    | .invertedMordent long => .invertedMordent long first
    | .trill => .trill first
    | .turn => .turn upper lower
    | .delayedTurn => .delayedTurn upper lower
    | .shake => .shake first
    | .wavyLine => .wavyLine first

end Ornament

structure FigureNote (α : Type) where
  pitch : PitchNumber
  offset : α
  duration : α
  ornamental : Bool
  deriving DecidableEq

abbrev Figure (α : Type) := List (FigureNote α)

namespace Figure

variable {α : Type} [Quantity α]

/-- Pitches one after the other from an offset, each of one length; the last one
takes what is left of the note. -/
def layOut (available slice : α) : α → List (PitchNumber × Bool) → Figure α
  | _, [] => []
  | offset, [(pitch, ornamental)] => [⟨pitch, offset, available - offset, ornamental⟩]
  | offset, (pitch, ornamental) :: rest =>
    ⟨pitch, offset, slice, ornamental⟩ :: layOut available slice (offset + slice) rest

/-- The length of a figure note when one more note has to fit beside the figure. -/
def sliceFor (figure : List PitchNumber) (available unit : α) : α :=
  Quantity.lesser unit (available / (figure.length + 1 : Nat))

/-- The figure, then the written pitch for what is left. -/
def leading (figure : List PitchNumber) (main : PitchNumber) (available unit : α) :
    Figure α :=
  layOut available (sliceFor figure available unit) 0
    (figure.map (·, true) ++ [(main, false)])

/-- The written pitch held, then the figure in the last units. -/
def delayed (figure : List PitchNumber) (main : PitchNumber) (available unit : α) :
    Figure α :=
  let slice := sliceFor figure available unit
  let held := available - slice * (figure.length : Nat)
  ⟨main, 0, held, false⟩ :: layOut available slice held (figure.map (·, true))

def fewestTrillNotes : Nat := 5

/-- The largest odd number of units in the note, at least five. -/
def trillCount (available unit : α) : Nat :=
  let count := if 0 < unit then Quantity.units (available / unit) else 0
  max (if count % 2 = 0 then count - 1 else count) fewestTrillNotes

def alternation (main neighbor : PitchNumber) (count : Nat) : List (PitchNumber × Bool) :=
  (List.range count).map fun index =>
    (if index % 2 = 0 then main else neighbor, decide (index + 1 ≠ count))

def trilled (main neighbor : PitchNumber) (available unit : α) : Figure α :=
  let count := trillCount available unit
  layOut available (available / (count : Nat)) 0 (alternation main neighbor count)

end Figure

namespace Ornament

variable {α : Type} [Quantity α]

def upper (main : PitchNumber) (mark : Option Int) (fifths : Int) : PitchNumber :=
  match mark with
  | some semitones => main.chromaticNeighbor semitones true
  | none => main.upperNeighbor fifths

def lower (main : PitchNumber) (mark : Option Int) (fifths : Int) : PitchNumber :=
  match mark with
  | some semitones => main.chromaticNeighbor semitones false
  | none => main.lowerNeighbor fifths

def mordentPitches (main neighbor : PitchNumber) (long : Bool) : List PitchNumber :=
  if long then [main, neighbor, main, neighbor] else [main, neighbor]

def expand (ornament : Ornament) (main : PitchNumber) (available : α) (fifths : Int)
    (unit : α) : Figure α :=
  match ornament with
  | .mordent long mark =>
    Figure.leading (mordentPitches main (lower main mark fifths) long) main available unit
  | .invertedMordent long mark =>
    Figure.leading (mordentPitches main (upper main mark fifths) long) main available unit
  | .turn up down =>
    Figure.leading [upper main up fifths, main, lower main down fifths] main available unit
  | .delayedTurn up down =>
    Figure.delayed [upper main up fifths, main, lower main down fifths, main] main
      available unit
  | .trill mark | .wavyLine mark | .shake mark =>
    Figure.trilled main (upper main mark fifths) available unit

end Ornament

end Rubato
