import Rubato.Performance.Walk

namespace Rubato

/-! Played notes in order of time and pitch, numbered, with the hand that plays each.
Notes that agree in both keep their order. Staff 1 is the right hand's and any
further one the left hand's; a pitch that sounds on two staves at the same
millisecond is played by both hands. -/

inductive Hand
  | left
  | right
  | both
  deriving DecidableEq, Repr

def Hand.ofStaff (staff : Nat) : Hand :=
  if 2 ≤ staff then .left else .right

structure NoteEvent (α : Type) where
  id : String
  time : α
  pitch : PitchNumber
  duration : Option α
  name : String
  hand : Hand
  ornamental : Bool
  deriving DecidableEq

structure Instant where
  millisecond : Int
  pitch : PitchNumber
  deriving DecidableEq, Repr

variable {α : Type} [Quantity α]

namespace PlayedNote

def instant (note : PlayedNote α) : Instant :=
  ⟨Quantity.nearest (note.time * ((1000 : Nat) : α)), note.pitch⟩

def order (first second : PlayedNote α) : Ordering :=
  (Quantity.order first.time second.time).then (compare first.pitch second.pitch)

def notAfter (first second : PlayedNote α) : Bool :=
  (order first second).isLE

end PlayedNote

abbrev Sounding := List (Instant × Nat)

def Sounding.ofNotes (notes : List (PlayedNote α)) : Sounding :=
  notes.map fun note => (note.instant, note.staff)

def Sounding.hand (sounding : Sounding) (instant : Instant) (staff : Nat) : Hand :=
  if sounding.any fun entry => entry.1 = instant && entry.2 ≠ staff then .both
  else Hand.ofStaff staff

namespace NoteEvent

def ofPlayed (id : String) (hand : Hand) (note : PlayedNote α) : NoteEvent α where
  id := id
  time := Quantity.greater note.time 0
  pitch := note.pitch
  duration := if 0 < note.duration then some note.duration else none
  name := note.name
  hand := hand
  ornamental := note.ornamental

def ofNotes (idPrefix : String) (notes : List (PlayedNote α)) : List (NoteEvent α) :=
  let sounding := Sounding.ofNotes notes
  (notes.mergeSort PlayedNote.notAfter).mapIdx fun index note =>
    ofPlayed (idPrefix ++ toString index) (sounding.hand note.instant note.staff) note

end NoteEvent

end Rubato
