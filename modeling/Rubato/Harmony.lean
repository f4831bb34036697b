import Rubato.Pitch

namespace Rubato

/-! Chord symbols. The text an engraver printed for the kind wins over the suffix
that the kind's name stands for. -/

structure ChordTone where
  letter : Letter
  alter : Int
  deriving DecidableEq, Repr

structure Harmony where
  root : Option ChordTone
  kind : String
  kindText : Option String
  bass : Option ChordTone
  deriving DecidableEq, Repr

def kindSuffixes : List (String × String) := [
  ("minor", "m"), ("augmented", "aug"), ("diminished", "dim"), ("dominant", "7"),
  ("major-seventh", "maj7"), ("minor-seventh", "m7"), ("diminished-seventh", "dim7"),
  ("augmented-seventh", "aug7"), ("half-diminished", "m7b5"), ("major-minor", "m(maj7)"),
  ("major-sixth", "6"), ("minor-sixth", "m6"), ("dominant-ninth", "9"),
  ("major-ninth", "maj9"), ("minor-ninth", "m9"), ("dominant-11th", "11"),
  ("minor-11th", "m11"), ("dominant-13th", "13"), ("suspended-second", "sus2"),
  ("suspended-fourth", "sus4"), ("power", "5")]

def ChordTone.name (tone : ChordTone) : String :=
  tone.letter.name.toString ++
    if 2 ≤ tone.alter then "##"
    else if tone.alter = 1 then "#"
    else if tone.alter = -1 then "b"
    else if tone.alter ≤ -2 then "bb"
    else ""

namespace Harmony

def noChord : String := "N.C."

def suffix (harmony : Harmony) : String :=
  harmony.kindText.getD ((kindSuffixes.lookup harmony.kind).getD "")

/-- The chord symbol, absent when there is neither a root nor the kind `none`. -/
def label? (harmony : Harmony) : Option String :=
  if harmony.kind = "none" then some noChord
  else
    harmony.root.map fun root =>
      root.name ++ harmony.suffix ++
        match harmony.bass with
        | some bass => "/" ++ bass.name
        | none => ""

end Harmony

end Rubato
