import Rubato.Pitch

namespace Rubato

/-! Grace notes borrow time from the note they lead to. A run with an unslashed
note in it is played on the beat and takes half of that note, two thirds of a
dotted one, in whole divisions for each grace note if they fit. A run of slashed
notes is played before the beat, one unit for each, but no more than a quarter of
the note. -/

structure GraceNote where
  pitch : PitchNumber
  name : String
  slashed : Bool
  deriving DecidableEq, Repr

structure PlacedGrace (α : Type) where
  pitch : PitchNumber
  name : String
  offset : α
  duration : α
  deriving DecidableEq

structure GraceRun (α : Type) where
  notes : List (PlacedGrace α)
  /-- Divisions taken from the note the run leads to. -/
  stolen : α
  onBeat : Bool
  deriving DecidableEq

namespace GraceRun

variable {α : Type} [Quantity α]

/-- The same run played on the beat, for one that would start before the score. -/
def movedOntoBeat (run : GraceRun α) : GraceRun α :=
  { run with onBeat := true }

def isLong (group : List GraceNote) : Bool :=
  group.any fun note => !note.slashed

def longShare (dotted : Bool) : α :=
  if dotted then ((2 : Nat) : α) / (3 : Nat) else 1 / ((2 : Nat) : α)

def longLength (count : α) (mainDuration : α) (dotted : Bool) : α :=
  let target := mainDuration * longShare dotted
  let whole := Quantity.floor (target / count)
  if 0 < whole then whole else target / count

def shortLength (count : α) (mainDuration : α) (unit : α) : α :=
  Quantity.lesser (mainDuration / (4 : Nat)) (count * unit) / count

def noteLength (group : List GraceNote) (mainDuration : α) (dotted : Bool) (unit : α) : α :=
  if isLong group then longLength (group.length : Nat) mainDuration dotted
  else shortLength (group.length : Nat) mainDuration unit

def place (length : α) (group : List GraceNote) : List (PlacedGrace α) :=
  group.mapIdx fun index note => ⟨note.pitch, note.name, length * (index : Nat), length⟩

def ofGroup (group : List GraceNote) (mainDuration : α) (dotted : Bool) (unit : α) :
    GraceRun α :=
  if group.isEmpty then ⟨[], 0, false⟩
  else
    let length := noteLength group mainDuration dotted unit
    ⟨place length group, length * (group.length : Nat), isLong group⟩

end GraceRun

end Rubato
