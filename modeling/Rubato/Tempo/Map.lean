import Rubato.Quantity
import Rubato.Tempo.Cue

namespace Rubato

/-! A tempo map answers which tempo is in force at a position, and how long a
stretch of divisions takes. A position counts divisions from the start of the part.
Over a ramp the tempo moves linearly; a stretch that touches one is summed one
division at a time, each at the tempo found at its start. -/

structure TempoEvent (α : Type) where
  position : α
  bpm : α
  deriving DecidableEq

/-- The tempo moves from `startTempo` at `start` to `endTempo` at `stop`. -/
structure Ramp (α : Type) where
  kind : RampKind
  start : α
  stop : α
  startTempo : α
  endTempo : α
  deriving DecidableEq

structure TempoMap (α : Type) where
  /-- In the order of their positions. -/
  events : List (TempoEvent α)
  ramps : List (Ramp α)
  deriving DecidableEq

def defaultTempo {α : Type} [Quantity α] : α := ((120 : Nat) : α)

variable {α : Type} [Quantity α]

namespace Ramp

def contains (ramp : Ramp α) (position : α) : Bool :=
  decide (ramp.start ≤ position) && decide (position < ramp.stop)

def overlaps (ramp : Ramp α) (start stop : α) : Bool :=
  decide (ramp.start < stop) && decide (start < ramp.stop)

def tempoAt (ramp : Ramp α) (position : α) : α :=
  let length := ramp.stop - ramp.start
  if length ≤ 0 then ramp.startTempo
  else
    let progress := Quantity.within 0 1 ((position - ramp.start) / length)
    ramp.startTempo + (ramp.endTempo - ramp.startTempo) * progress

end Ramp

namespace TempoMap

def empty : TempoMap α := ⟨[], []⟩

/-- The tempo last stated at or before a position; ramps do not count. -/
def tempoAt (map : TempoMap α) (position : α) : α :=
  ((map.events.takeWhile fun event => decide (event.position ≤ position)).getLast?.map
    (·.bpm)).getD defaultTempo

/-- The tempo of the first ramp over a position, or the given one outside ramps. -/
def localTempo (map : TempoMap α) (position base : α) : α :=
  ((map.ramps.find? fun ramp => ramp.contains position).map
    fun ramp => ramp.tempoAt position).getD base

def isSteady (map : TempoMap α) (start stop : α) : Bool :=
  !map.ramps.any fun ramp => ramp.overlaps start stop

def steadySeconds (count tempo divisions : α) : α :=
  count * ((60 : Nat) : α) / (tempo * divisions)

def steppedSeconds (map : TempoMap α) (stop tempo divisions : α) : Nat → α → α → α
  | 0, _, elapsed => elapsed
  | steps + 1, position, elapsed =>
    if position < stop then
      let step := Quantity.lesser (stop - position) 1
      let tempoHere := map.localTempo position tempo
      steppedSeconds map stop tempo divisions steps (position + step)
        (elapsed + steadySeconds step tempoHere divisions)
    else elapsed

/-- Enough steps for a stretch: its divisions, and some more for a partial one and
for positions that rounding leaves short of the end. -/
def stepLimit (count : α) : Nat :=
  Quantity.units count + 4

def seconds (map : TempoMap α) (start count tempo divisions : α) : α :=
  if count ≤ 0 ∨ tempo ≤ 0 ∨ divisions ≤ 0 then 0
  else
    let stop := start + count
    if map.isSteady start stop then steadySeconds count tempo divisions
    else map.steppedSeconds stop tempo divisions (stepLimit count) start 0

end TempoMap

end Rubato
