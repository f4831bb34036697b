import Rubato.Grace
import Rubato.Performance.Clock
import Rubato.Remark
import Rubato.Score

namespace Rubato

/-! Playing a part: its measures are walked in order and every sounding note is
placed in time, with its grace notes before it and its ornament spread out. Notes
tied to an earlier one of the same pitch, voice and staff lengthen that one. -/

structure PlayedNote (α : Type) where
  time : α
  pitch : PitchNumber
  name : String
  duration : α
  staff : Nat
  ornamental : Bool
  deriving DecidableEq

structure TieKey where
  pitch : PitchNumber
  voice : Nat
  staff : Nat
  deriving DecidableEq, Repr

/-- The open ties, each with the index of the played note that it lengthens. -/
abbrev OpenTies := List (TieKey × Nat)

namespace OpenTies

def find? (ties : OpenTies) (key : TieKey) : Option Nat :=
  ties.lookup key

def remove (ties : OpenTies) (key : TieKey) : OpenTies :=
  ties.filter fun entry => entry.1 ≠ key

def insert (ties : OpenTies) (key : TieKey) (index : Nat) : OpenTies :=
  (key, index) :: ties.remove key

end OpenTies

def TieKey.ofNote (note : Note) (pitch : Pitch) : TieKey :=
  ⟨pitch.number, note.voice, note.staff⟩

def GraceNote.ofNote? (note : Note) : Option GraceNote :=
  note.pitch.map fun pitch => ⟨pitch.number, pitch.name, note.grace == some .slashed⟩

variable {α : Type} [Quantity α]

namespace PlayedNote

def lengthen (seconds : α) (played : PlayedNote α) : PlayedNote α :=
  { played with duration := played.duration + seconds }

end PlayedNote

namespace Clock

def play (clock : Clock α) (offset length : α) (pitch : PitchNumber) (name : String)
    (staff : Nat) (ornamental : Bool) : PlayedNote α :=
  ⟨clock.timeAt offset, pitch, name, clock.spanSeconds offset length, staff, ornamental⟩

/-- Ornament units in a quarter note; a unit is a thirty-second. -/
def unitsPerQuarter : Nat := 8

def ornamentUnit (clock : Clock α) : α :=
  (clock.divisions : α) / (unitsPerQuarter : α)

/-- The grace notes of a note at a position. A run that would start before the
score is moved onto the beat. -/
def graceRun (clock : Clock α) (note : Note) (position : α) (graces : List GraceNote) :
    GraceRun α :=
  let run := GraceRun.ofGroup graces (note.duration : α) note.isDotted clock.ornamentUnit
  if !graces.isEmpty && !run.onBeat &&
      decide (clock.timeAt (position - run.stolen) < 0) then run.movedOntoBeat
  else run

def playGraces (clock : Clock α) (note : Note) (position : α) (run : GraceRun α) :
    List (PlayedNote α) :=
  let start := if run.onBeat then position else position - run.stolen
  run.notes.map fun grace =>
    clock.play (start + grace.offset) grace.duration grace.pitch grace.name note.staff true

def figure (clock : Clock α) (fifths : Int) (note : Note) (pitch : Pitch) (available : α) :
    Figure α :=
  match Ornament.ofMarks? note.ornaments note.accidentals with
  | some ornament => ornament.expand pitch.number available fifths clock.ornamentUnit
  | none => [⟨pitch.number, 0, available, false⟩]

def playMain (clock : Clock α) (fifths : Int) (note : Note) (pitch : Pitch) (position : α)
    (run : GraceRun α) : List (PlayedNote α) :=
  let start := if run.onBeat then position + run.stolen else position
  let available := (note.duration : α) - run.stolen
  (clock.figure fifths note pitch available).map fun part =>
    let name :=
      if part.pitch = pitch.number then pitch.name
      else part.pitch.name (prefersFlats fifths)
    clock.play (start + part.offset) part.duration part.pitch name note.staff part.ornamental

def playNote (clock : Clock α) (fifths : Int) (note : Note) (pitch : Pitch) (position : α)
    (graces : List GraceNote) : List (PlayedNote α) :=
  let run := clock.graceRun note position graces
  clock.playGraces note position run ++ clock.playMain fifths note pitch position run

end Clock

structure Walker (α : Type) where
  clock : Clock α
  meter : Meter
  ties : OpenTies
  notes : List (PlayedNote α)
  deriving DecidableEq

inductive TieAction
  | begin
  | restart
  | extend (index : Nat)
  | drop
  deriving DecidableEq, Repr

def OpenTies.action (ties : OpenTies) (marks : TieMarks) (key : TieKey) : TieAction :=
  if marks.stop then
    match ties.find? key with
    | some index => .extend index
    | none => if marks.start then .restart else .drop
  else .begin

namespace Walker

def initial (map : TempoMap α) : Walker α :=
  ⟨Clock.initial map, .initial, [], []⟩

/-- Lengthens a played note by a tied one, which may end its tie. -/
def extend (walker : Walker α) (note : Note) (key : TieKey) (position : α) (index : Nat) :
    Walker α :=
  let seconds := walker.clock.spanSeconds position (note.duration : α)
  { walker with
    notes := walker.notes.modify index (PlayedNote.lengthen seconds)
    ties := if note.tie.start then walker.ties else walker.ties.remove key }

/-- Plays a note. A tie that starts on it goes to the last note played for it. -/
def begin (walker : Walker α) (note : Note) (pitch : Pitch) (key : TieKey) (position : α)
    (graces : List GraceNote) : Walker α :=
  let notes :=
    walker.notes ++ walker.clock.playNote walker.meter.fifths note pitch position graces
  { walker with
    notes
    ties := if note.tie.start then walker.ties.insert key (notes.length - 1) else walker.ties }

def place (walker : Walker α) (note : Note) (pitch : Pitch) (position : α)
    (graces : List GraceNote) : Noted α (Walker α) :=
  let key := TieKey.ofNote note pitch
  match walker.ties.action note.tie key with
  | .begin => pure (walker.begin note pitch key position graces)
  | .restart => do
    Noted.remark (.tieRestarted pitch.name)
    pure (walker.begin note pitch key position graces)
  | .extend index => pure (walker.extend note key position index)
  | .drop => do
    Noted.remark (.tieDropped pitch.name note.voice note.staff)
    pure walker

end Walker

/-- The walk through a measure: the walker, the place reached, and the pitched grace
notes right before it. -/
structure MeasureWalk (α : Type) where
  walker : Walker α
  place : Place α
  graces : List GraceNote
  deriving DecidableEq

namespace MeasureWalk

def direction (walker : Walker α) (cursor : α) (direction : Direction α) : Walker α :=
  match direction.tempo with
  | some bpm => { walker with clock := walker.clock.setTempo cursor bpm }
  | none => walker

def gracesAfter (graces : List GraceNote) : MeasureElement α → List GraceNote
  | .note note => if note.isGrace then graces ++ (GraceNote.ofNote? note).toList else []
  | _ => []

/-- The walker after an element. Grace notes are played with the note they lead to,
and rests are not played. -/
def walkerAfter (walk : MeasureWalk α) (element : MeasureElement α) :
    Noted α (Walker α) :=
  match element with
  | .direction mark => pure (direction walk.walker walk.place.cursor mark)
  | .note note =>
    if note.isGrace then pure walk.walker
    else
      match note.pitch with
      | some pitch => walk.walker.place note pitch (walk.place.onset note) walk.graces
      | none => pure walk.walker
  | _ => pure walk.walker

def step (walk : MeasureWalk α) (element : MeasureElement α) : Noted α (MeasureWalk α) := do
  let walker ← walk.walkerAfter element
  pure ⟨walker, walk.place.after element, gracesAfter walk.graces element⟩

end MeasureWalk

namespace Walker

def enter (walker : Walker α) (attributes : Attributes) : Walker α :=
  let meter := walker.meter.update attributes
  { walker with meter, clock := walker.clock.enter meter.divisions meter.span }

def elements (walker : Walker α) (elements : List (MeasureElement α)) :
    Noted α (Walker α) := do
  let walk ← Noted.foldList MeasureWalk.step ⟨walker, Place.start, []⟩ elements
  pure walk.walker

/-- The walker at the end of a measure, which is where its time signature says. -/
def leave (walker : Walker α) : Walker α :=
  { walker with clock := walker.clock.leave walker.meter.span }

def measure (walker : Walker α) (measure : Measure α) : Noted α (Walker α) := do
  let walked ← (walker.enter measure.attributes).elements measure.elements
  Noted.remark (.measureWalked measure.number walked.clock.startTime walked.meter.span
    walked.clock.segments.length)
  pure walked.leave

def finish (walker : Walker α) (part : String) : Noted α (List (PlayedNote α)) := do
  if !walker.ties.isEmpty then
    Noted.remark (.tiesLeftOpen part walker.ties.length)
  pure walker.notes

end Walker

def Part.played (part : Part α) (map : TempoMap α) : Noted α (List (PlayedNote α)) := do
  let walker ← Noted.foldList Walker.measure (Walker.initial map) part.measures
  walker.finish part.id

end Rubato
