import Rubato.Pitch

namespace Rubato

/-! Neighbours of a pitch: the nearest tone of the key's scale within three
semitones, or the half or whole step that an accidental asks for. A key is given
by its number of fifths, flats counting down; the scale of a key is also that of
its relative minor. -/

def majorScale : List Int := [0, 2, 4, 5, 7, 9, 11]

def prefersFlats (fifths : Int) : Bool := fifths < 0

namespace PitchNumber

def isDiatonic (number : PitchNumber) (fifths : Int) : Bool :=
  majorScale.contains (((number : Int) - (fifths * 7) % 12) % 12)

def shift (number : PitchNumber) (semitones : Int) : PitchNumber :=
  pitchNumber (number + semitones)

def upperNeighbor (number : PitchNumber) (fifths : Int) : PitchNumber :=
  let candidates := [number + 1, number + 2, number + 3].takeWhile (· ≤ greatestPitch)
  (candidates.find? fun candidate => isDiatonic candidate fifths).getD (shift number 2)

def lowerNeighbor (number : PitchNumber) (fifths : Int) : PitchNumber :=
  let candidates := [1, 2, 3].takeWhile (· ≤ number) |>.map (number - ·)
  (candidates.find? fun candidate => isDiatonic candidate fifths).getD (shift number (-2))

/-- A half step for a single sharp or flat, otherwise a whole step. -/
def chromaticNeighbor (number : PitchNumber) (semitones : Int) (upward : Bool) :
    PitchNumber :=
  let size : Int := if semitones.natAbs = 1 then 1 else 2
  shift number (if upward then size else -size)

theorem shift_le (number : PitchNumber) (semitones : Int) :
    shift number semitones ≤ greatestPitch :=
  pitchNumber_le _

end PitchNumber

end Rubato
