import Rubato.Tempo.Map

namespace Rubato

/-! The clock of a measure turns offsets in divisions from the start of the measure
into seconds. It knows when the measure starts, in seconds and in divisions from the
start of the part, and the tempo segments of the measure. Each piece of a stretch is
timed at the tempo of its segment; the first segment also covers what lies before
the measure. -/

structure TempoSegment (α : Type) where
  offset : α
  bpm : α
  deriving DecidableEq

abbrev TempoSegments (α : Type) := List (TempoSegment α)

variable {α : Type} [Quantity α]

/-- Offsets closer than this are the same point of the measure. -/
def offsetTolerance : α := 1 / ((1000000000 : Nat) : α)

namespace TempoSegments

/-- Starts a segment at an offset, in place of one that is already there. -/
def set (offset bpm : α) : TempoSegments α → TempoSegments α
  | [] => [⟨offset, bpm⟩]
  | segment :: rest =>
    if offset - offsetTolerance < segment.offset then
      if Quantity.distance segment.offset offset < offsetTolerance then
        { segment with bpm } :: rest
      else ⟨offset, bpm⟩ :: segment :: rest
    else segment :: set offset bpm rest

end TempoSegments

structure Stretch (α : Type) where
  start : α
  stop : α
  bpm : α
  deriving DecidableEq

namespace Stretch

def endBefore (stop : α) : TempoSegments α → α
  | [] => stop
  | next :: _ => Quantity.lesser stop next.offset

def ofLater (offset stop : α) : TempoSegments α → List (Stretch α)
  | [] => []
  | segment :: rest =>
    ⟨Quantity.greater offset segment.offset, endBefore stop rest, segment.bpm⟩ ::
      ofLater offset stop rest

/-- The pieces of a stretch, one for each segment, those outside it reversed. -/
def ofSegments (offset stop : α) : TempoSegments α → List (Stretch α)
  | [] => []
  | segment :: rest =>
    ⟨offset, endBefore stop rest, segment.bpm⟩ :: ofLater offset stop rest

end Stretch

structure Clock (α : Type) where
  map : TempoMap α
  startTime : α
  startPosition : α
  divisions : Nat
  segments : TempoSegments α
  deriving DecidableEq

namespace Clock

def initial (map : TempoMap α) : Clock α :=
  ⟨map, 0, 0, 1, [⟨0, defaultTempo⟩]⟩

/-- Seconds of the part of a stretch that lies in one segment. A stretch that lies
in it as a whole keeps its exact length. -/
def pieceSeconds (clock : Clock α) (offset length stop : α) (piece : Stretch α) : α :=
  let count :=
    if piece.start == offset && piece.stop == stop then length
    else piece.stop - piece.start
  if piece.start < piece.stop then
    clock.map.seconds (clock.startPosition + piece.start) count piece.bpm
      (clock.divisions : α)
  else 0

def spanSeconds (clock : Clock α) (offset length : α) : α :=
  let stop := offset + length
  Quantity.total <|
    (Stretch.ofSegments offset stop clock.segments).map
      (clock.pieceSeconds offset length stop)

/-- The time at an offset; a negative one reaches back before the measure. -/
def timeAt (clock : Clock α) (offset : α) : α :=
  if 0 ≤ offset then clock.startTime + clock.spanSeconds 0 offset
  else clock.startTime - clock.spanSeconds offset (-offset)

def setTempo (clock : Clock α) (offset bpm : α) : Clock α :=
  { clock with segments := TempoSegments.set offset bpm clock.segments }

def changesInside (clock : Clock α) (span : α) : List (TempoEvent α) :=
  clock.map.events.filter fun event =>
    decide (clock.startPosition < event.position) &&
      decide (event.position < clock.startPosition + span)

/-- The tempo segments at the start of a measure: the tempo in force there, and
every change the map has inside it. -/
def seededSegments (clock : Clock α) (span : α) : TempoSegments α :=
  (clock.changesInside span).foldl
    (fun segments event =>
      TempoSegments.set (event.position - clock.startPosition) event.bpm segments)
    [⟨0, clock.map.tempoAt clock.startPosition⟩]

def enter (clock : Clock α) (divisions : Nat) (span : α) : Clock α :=
  { clock with divisions, segments := clock.seededSegments span }

def leave (clock : Clock α) (span : α) : Clock α :=
  { clock with
    startTime := clock.startTime + clock.spanSeconds 0 span
    startPosition := clock.startPosition + span }

end Clock

end Rubato
