import Rubato.Remark
import Rubato.Score
import Rubato.Tempo.Map

namespace Rubato

/-! The tempo map of a part. Ramp words open a ramp at the tempo in force unless one
is open. The next tempo closes it at that tempo, a return to the tempo at the tempo
in force; a ramp of no length is dropped. One that is still open at the end of the
part closes there at seven tenths of its tempo, or at its tempo by seven tenths when
it grows faster. -/

structure OpenRamp (α : Type) where
  kind : RampKind
  start : α
  tempo : α
  deriving DecidableEq

/-- What is known of the tempo after some measures; `position` is the start of the
next measure. -/
structure TempoScan (α : Type) where
  position : α
  meter : Meter
  tempo : α
  opened : Option (OpenRamp α)
  events : List (TempoEvent α)
  ramps : List (Ramp α)
  deriving DecidableEq

variable {α : Type} [Quantity α]

namespace OpenRamp

def closed? (ramp : OpenRamp α) (stop endTempo : α) : Option (Ramp α) :=
  if ramp.start < stop then some ⟨ramp.kind, ramp.start, stop, ramp.tempo, endTempo⟩
  else none

def unfinishedShare : α := ((7 : Nat) : α) / ((10 : Nat) : α)

def unfinishedTempo (ramp : OpenRamp α) : α :=
  match ramp.kind with
  | .ritardando => ramp.tempo * unfinishedShare
  | .accelerando => ramp.tempo / unfinishedShare

end OpenRamp

namespace TempoScan

def initial : TempoScan α := ⟨0, .initial, defaultTempo, none, [], []⟩

def close (scan : TempoScan α) (position endTempo : α) : TempoScan α :=
  { scan with
    opened := none
    ramps := scan.ramps ++ (scan.opened.bind fun ramp => ramp.closed? position endTempo).toList }

def setTempo (scan : TempoScan α) (position bpm : α) : TempoScan α :=
  close { scan with tempo := bpm, events := scan.events ++ [⟨position, bpm⟩] } position bpm

def applyCue (scan : TempoScan α) (position : α) : TempoCue → TempoScan α
  | .ramp kind =>
    match scan.opened with
    | none => { scan with opened := some ⟨kind, position, scan.tempo⟩ }
    | some _ => scan
  | .resume => scan.close position scan.tempo

def applyWords (position : α) (scan : TempoScan α) (words : String) : TempoScan α :=
  match TempoCue.ofWords? words with
  | some cue => scan.applyCue position cue
  | none => scan

def direction (scan : TempoScan α) (position : α) (direction : Direction α) : TempoScan α :=
  let timed :=
    match direction.tempo with
    | some bpm => scan.setTempo position bpm
    | none => scan
  direction.words.foldl (applyWords position) timed

def element (state : TempoScan α × Place α) (element : MeasureElement α) :
    TempoScan α × Place α :=
  let (scan, place) := state
  let next :=
    match element with
    | .direction mark => scan.direction (scan.position + place.cursor) mark
    | _ => scan
  (next, place.after element)

def measure (scan : TempoScan α) (measure : Measure α) : TempoScan α :=
  let meter := scan.meter.update measure.attributes
  let (next, _) := measure.elements.foldl element ({ scan with meter }, Place.start)
  { next with position := next.position + meter.span }

def byPosition (first second : TempoEvent α) : Bool :=
  (Quantity.order first.position second.position).isLE

def toMap (scan : TempoScan α) : TempoMap α :=
  ⟨scan.events.mergeSort byPosition, scan.ramps⟩

def finish (scan : TempoScan α) : Noted α (TempoMap α) :=
  match scan.opened with
  | none => pure scan.toMap
  | some ramp => do
    Noted.remark (.rampLeftOpen scan.position ramp.tempo ramp.unfinishedTempo)
    pure (scan.close scan.position ramp.unfinishedTempo).toMap

end TempoScan

def TempoMap.ofPart (part : Part α) : Noted α (TempoMap α) :=
  (part.measures.foldl TempoScan.measure TempoScan.initial).finish

end Rubato
