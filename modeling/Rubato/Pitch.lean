import Rubato.Quantity
import Rubato.Text.Blank

namespace Rubato

/-! Written pitches, their numbers and their names. A pitch number counts
semitones with 60 for the C of octave 4 and lies between 0 and 127; names of
numbers above that range follow the same count. -/

inductive Letter
  | c | d | e | f | g | a | b
  deriving DecidableEq, Repr

namespace Letter

def all : List Letter := [.c, .d, .e, .f, .g, .a, .b]

def name : Letter → Char
  | .c => 'C'
  | .d => 'D'
  | .e => 'E'
  | .f => 'F'
  | .g => 'G'
  | .a => 'A'
  | .b => 'B'

def semitones : Letter → Nat
  | .c => 0
  | .d => 2
  | .e => 4
  | .f => 5
  | .g => 7
  | .a => 9
  | .b => 11

def ofName? (name : Char) : Option Letter :=
  all.find? fun letter => letter.name == name

/-- One letter in either case, with blanks around it. -/
def ofText? (text : String) : Option Letter :=
  match Text.trim text.toList with
  | [single] => ofName? single.toUpper
  | _ => none

@[simp] theorem ofName?_name (letter : Letter) : ofName? letter.name = some letter := by
  cases letter <;> rfl

end Letter

abbrev PitchNumber := Nat

def greatestPitch : PitchNumber := 127

def pitchNumber (value : Int) : PitchNumber :=
  (clampInt 0 greatestPitch value).toNat

theorem pitchNumber_le (value : Int) : pitchNumber value ≤ greatestPitch := by
  have h := (clampInt_mem (by decide : (0 : Int) ≤ greatestPitch) value).2
  exact Int.toNat_le.mpr h

namespace PitchNumber

def sharpNames : List String :=
  ["C", "C#", "D", "D#", "E", "F", "F#", "G", "G#", "A", "A#", "B"]

def flatNames : List String :=
  ["C", "Db", "D", "Eb", "E", "F", "Gb", "G", "Ab", "A", "Bb", "B"]

def octave (number : PitchNumber) : Int :=
  (number / 12 : Nat) - 1

def className (number : PitchNumber) (flats : Bool) : String :=
  (if flats then flatNames else sharpNames).getD (number % 12) ""

def name (number : PitchNumber) (flats : Bool) : String :=
  className number flats ++ toString (octave number)

end PitchNumber

structure Pitch where
  letter : Letter
  alter : Int
  octave : Int
  deriving DecidableEq, Repr

structure Spelling where
  pitchClass : String
  octave : Int
  deriving DecidableEq, Repr

def Spelling.name (spelling : Spelling) : String :=
  spelling.pitchClass ++ toString spelling.octave

namespace Pitch

def number (pitch : Pitch) : PitchNumber :=
  pitchNumber (pitch.letter.semitones + pitch.alter + (pitch.octave + 1) * 12)

/-- A sharp or flat that names a white key, such as the sharp of E. -/
def IsAwkward (pitch : Pitch) : Prop :=
  (pitch.letter, pitch.alter) ∈
    [(Letter.e, (1 : Int)), (Letter.b, 1), (Letter.f, -1), (Letter.c, -1)]

instance (pitch : Pitch) : Decidable pitch.IsAwkward :=
  inferInstanceAs (Decidable (_ ∈ _))

def accidentalSign (alter : Int) : String :=
  if alter = 1 then "#" else if alter = -1 then "b" else ""

/-- A simple spelling stays as written; a double accidental or an awkward one is
spelled anew from the pitch number. -/
def spelling (pitch : Pitch) : Spelling :=
  if -1 ≤ pitch.alter ∧ pitch.alter ≤ 1 ∧ ¬pitch.IsAwkward then
    ⟨pitch.letter.name.toString ++ accidentalSign pitch.alter, pitch.octave⟩
  else
    ⟨PitchNumber.className pitch.number (pitch.alter < 0),
      PitchNumber.octave pitch.number⟩

def name (pitch : Pitch) : String := pitch.spelling.name

end Pitch

end Rubato
