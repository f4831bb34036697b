import Rubato.Decimal.Numeral
import Rubato.Markup.Element
import Rubato.Remark
import Rubato.Score

namespace Rubato

open Markup (Element)
open Decimal (Numeral)

/-! Scores read from an element tree. Elements and attributes that are not looked up
here are passed over; a number that cannot be read is remarked on and replaced by
its default. Tempos are read as quantities, counts and alterations are rounded to
whole numbers. -/

def greatestCount : Nat := 0xFFFFFFFF

def greatestDots : Nat := 256

namespace Reading

variable {α : Type}

/-! A field of a default when it is missing or blank, and also, with a remark, when
it holds something unreadable. -/

def field {β : Type} (read? : List Char → Option β) (name : String) (text : Option String)
    (default : β) : Noted α β :=
  match text.map Text.trimmed with
  | none => pure default
  | some "" => pure default
  | some raw =>
    match read? raw.toList with
    | some value => pure value
    | none => do
      Noted.remark (.unreadableNumber name raw)
      pure default

def count (name : String) (text : Option String) (default : Nat) : Noted α Nat :=
  field (Decimal.natural? greatestCount) name text default

def smallInteger (name : String) (text : Option String) (default : Int) : Noted α Int :=
  field (Decimal.integer? (-128) 127) name text default

def zero : Numeral := .decimal false 0 0

variable [Quantity α]

/-- A finite positive number, rounded and kept within the range of counts; anything
else is zero. -/
def roundedCount (α : Type) [Quantity α] (numeral : Numeral) : Nat :=
  match numeral with
  | .decimal negative digits exponent =>
    let value : α := Quantity.ofDecimal negative digits exponent
    if Quantity.isFinite value && decide (0 < value) then
      (clampInt 0 greatestCount (Quantity.nearest value)).toNat
    else 0
  | _ => 0

def divisionCount (name : String) (text : Option String) : Noted α Nat :=
  return roundedCount α (← field Decimal.numeral? name text zero)

/-- A number of semitones, rounded and kept within eight bits. -/
def roundedAlteration (α : Type) [Quantity α] (numeral : Numeral) : Int :=
  match numeral with
  | .decimal negative digits exponent =>
    clampInt (-128) 127 (Quantity.nearest (Quantity.ofDecimal negative digits exponent : α))
  | .infinite negative => if negative then -128 else 127
  | .undefined => 0

def alteration (name : String) (text : Option String) : Noted α Int :=
  return roundedAlteration α (← field Decimal.numeral? name text zero)

/-- A numeral that is a tempo, finite and positive. -/
def tempo? (numeral : Numeral) : Option α :=
  match numeral with
  | .decimal negative digits exponent =>
    let value : α := Quantity.ofDecimal negative digits exponent
    if Quantity.isFinite value && decide (0 < value) then some value else none
  | _ => none

theorem tempo?_pos {numeral : Numeral} {value : α} (h : tempo? numeral = some value) :
    0 < value := by
  unfold tempo? at h
  split at h
  · dsimp only at h
    split at h
    · next hvalid =>
        simp only [Bool.and_eq_true, decide_eq_true_eq] at hvalid
        injection h with h
        exact h ▸ hvalid.2
    · cases h
  · cases h

/-! Attributes of a measure. What several `attributes` elements of a measure declare
is taken together, the last declaration of each kind. -/

/-- The beats of a time signature, summed over the parts of one such as `3+2`. Each part has
at most 32 bits; the sum is exact and may have more, where a sum of words would overflow. -/
def beats (text : Option String) : Noted α Nat :=
  match text with
  | none => pure 0
  | some text => do
    let counts ← Noted.mapList (fun part => count "beats" (some (String.ofList part)) 0)
      (text.toList.splitOn '+')
    pure (counts.foldl (· + ·) 0)

def timeSignature (element : Element) : Noted α (Option TimeSignature) := do
  let beats ← beats (element.childText? "beats")
  let beatType ← count "beat-type" (element.childText? "beat-type") 0
  if 0 < beats ∧ 0 < beatType then pure (some ⟨beats, beatType⟩)
  else do
    Noted.remark .incompleteTime
    pure none

def divisions (text : String) : Noted α (Option Nat) := do
  let value ← divisionCount "divisions" (some text)
  if 0 < value then pure (some value)
  else do
    Noted.remark (.nonPositiveDivisions text)
    pure none

/-- Reads what is there with a reader, or keeps nothing. -/
def ifPresent {β γ : Type} (read : β → Noted α (Option γ)) : Option β → Noted α (Option γ)
  | some value => read value
  | none => pure none

def attributes (earlier : Attributes) (element : Element) : Noted α Attributes := do
  let divisions ← ifPresent divisions (element.childText? "divisions")
  let time ← ifPresent timeSignature (element.child? "time")
  let fifths ← ifPresent
    (fun key => some <$> smallInteger "fifths" (key.childText? "fifths") 0)
    (element.child? "key")
  pure ⟨divisions.or earlier.divisions, time.or earlier.time, fifths.or earlier.fifths⟩

def pitch (element : Element) : Noted α (Option Pitch) :=
  match (element.childText? "step").bind Letter.ofText? with
  | none => do
    Noted.remark .pitchWithoutStep
    pure none
  | some letter => do
    let alter ← alteration "alter" (element.childText? "alter")
    let octave ← smallInteger "octave" (element.childText? "octave") 4
    pure (some ⟨letter, alter, octave⟩)

def graceMark (element : Element) : GraceMark :=
  if element.attr? "slash" = some "yes" then .slashed else .plain

def tieMark (marks : TieMarks) (element : Element) : TieMarks :=
  match element.attr? "type" with
  | some "start" => { marks with start := true }
  | some "stop" => { marks with stop := true }
  | some "continue" => ⟨true, true⟩
  | _ => marks

def notations (element : Element) : List Element :=
  element.childrenNamed "notations"

def tieMarks (element : Element) : TieMarks :=
  let tied := (notations element).flatMap fun group => group.childrenNamed "tied"
  (element.childrenNamed "tie" ++ tied).foldl tieMark ⟨false, false⟩

def accidentalNames : List (String × Int) := [
  ("sharp", 1), ("flat", -1), ("natural", 0), ("double-sharp", 2), ("sharp-sharp", 2),
  ("flat-flat", -2), ("double-flat", -2)]

def placement? (element : Element) : Option Placement :=
  match element.attr? "placement" with
  | some "above" => some .above
  | some "below" => some .below
  | _ => none

structure OrnamentMarks where
  ornaments : List OrnamentMark
  accidentals : List AccidentalMark
  deriving DecidableEq, Repr

namespace OrnamentMarks

def addOrnament (marks : OrnamentMarks) (mark : OrnamentMark) : OrnamentMarks :=
  { marks with ornaments := marks.ornaments ++ [mark] }

def addAccidental (marks : OrnamentMarks) (mark : AccidentalMark) : OrnamentMarks :=
  { marks with accidentals := marks.accidentals ++ [mark] }

end OrnamentMarks

def accidentalMark (marks : OrnamentMarks) (element : Element) : Noted α OrnamentMarks :=
  match accidentalNames.lookup element.trimmedText with
  | some semitones => pure (marks.addAccidental ⟨semitones, placement? element⟩)
  | none => do
    Noted.remark (.unknownAccidental element.trimmedText)
    pure marks

/-- One child of an `ornaments` element. Of a wavy line only its start counts. -/
def ornamentMark (marks : OrnamentMarks) (element : Element) : Noted α OrnamentMarks :=
  let long := element.attr? "long" = some "yes"
  match element.name with
  | "mordent" => pure (marks.addOrnament (.mordent long))
  | "inverted-mordent" => pure (marks.addOrnament (.invertedMordent long))
  | "trill-mark" => pure (marks.addOrnament .trill)
  | "turn" => pure (marks.addOrnament .turn)
  | "delayed-turn" => pure (marks.addOrnament .delayedTurn)
  | "shake" => pure (marks.addOrnament .shake)
  | "wavy-line" =>
    pure (if element.attr? "type" = some "start" then marks.addOrnament .wavyLine else marks)
  | "accidental-mark" => accidentalMark marks element
  | name => do
    Noted.remark (.unsupportedOrnament name)
    pure marks

def ornamentMarks (element : Element) : Noted α OrnamentMarks :=
  Noted.foldList ornamentMark ⟨[], []⟩
    ((notations element).flatMap fun group =>
      (group.childrenNamed "ornaments").flatMap (·.children))

def lyricText (element : Element) : String :=
  String.join ((element.childrenNamed "text").map Element.trimmedText)

def note (element : Element) : Noted α Note := do
  let pitch ← ifPresent pitch (element.child? "pitch")
  let marks ← ornamentMarks element
  let duration ← divisionCount "duration" (element.childText? "duration")
  let voice ← count "voice" (element.childText? "voice") 1
  let staff ← count "staff" (element.childText? "staff") 1
  pure
    { pitch
      duration
      chord := element.hasChild "chord"
      grace := (element.child? "grace").map graceMark
      voice
      staff
      tie := tieMarks element
      dots := (element.childrenNamed "dot").length % greatestDots
      ornaments := marks.ornaments
      accidentals := marks.accidentals
      lyric := (element.child? "lyric").map lyricText }

/-! Directions. The tempo is that of the sound, or else of the first metronome mark
that states one. -/

def soundTempo (element : Element) : Noted α (Option α) :=
  match element.attr? "tempo" with
  | none => pure none
  | some raw =>
    match (Decimal.numeral? (Text.trim raw.toList)).bind tempo? with
    | some tempo => pure (some tempo)
    | none => do
      Noted.remark (.invalidTempo raw)
      pure none

/-- The quarter notes in a beat unit, as a quotient. -/
def beatUnits : List (String × Nat × Nat) := [
  ("whole", 4, 1), ("half", 2, 1), ("quarter", 1, 1), ("eighth", 1, 2), ("16th", 1, 4),
  ("32nd", 1, 8)]

def isNumberChar (c : Char) : Bool := Decimal.isDigit c || c == '.'

def firstNumber (text : List Char) : List Char :=
  (text.dropWhile fun c => !isNumberChar c).takeWhile isNumberChar

def unsigned? (text : List Char) : Option α :=
  match Decimal.numeral? text with
  | some (.decimal _ digits exponent) => some (Quantity.ofDecimal false digits exponent)
  | _ => none

def metronomeTempo? (element : Element) : Option α := do
  let written ← element.childText? "per-minute"
  let perMinute : α ← unsigned? (firstNumber written.toList)
  let unit ← element.childText? "beat-unit"
  let (numerator, denominator) ← beatUnits.lookup unit
  let quarters : α := (numerator : α) / (denominator : α)
  let dotted : α :=
    if element.hasChild "beat-unit-dot" then ((3 : Nat) : α) / ((2 : Nat) : α) else 1
  let tempo := perMinute * quarters * dotted
  if 0 < tempo then some tempo else none

def directionTypes (element : Element) : List Element :=
  element.childrenNamed "direction-type"

def words (element : Element) : List String :=
  (((directionTypes element).flatMap fun group => group.childrenNamed "words").map
    Element.trimmedText).filter (· ≠ "")

def direction (element : Element) : Noted α (Direction α) := do
  let sounded ← ifPresent soundTempo (element.child? "sound")
  let metronomes :=
    (directionTypes element).flatMap fun group => group.childrenNamed "metronome"
  pure ⟨words element, sounded.or (metronomes.findSome? metronomeTempo?)⟩

def chordTone (step alter : String) (element : Element) : Noted α (Option ChordTone) :=
  match (element.childText? step).bind Letter.ofText? with
  | none => pure none
  | some letter => do
    let alter ← alteration alter (element.childText? alter)
    pure (some ⟨letter, alter⟩)

def harmony (element : Element) : Noted α Harmony := do
  let root ← ifPresent (chordTone "root-step" "root-alter") (element.child? "root")
  let bass ← ifPresent (chordTone "bass-step" "bass-alter") (element.child? "bass")
  let kind := element.child? "kind"
  pure
    { root
      kind := (kind.map Element.trimmedText).getD ""
      kindText := kind.bind fun kind => kind.attr? "text"
      bass }

def measureChild (measure : Measure α) (element : Element) : Noted α (Measure α) :=
  let add (child : MeasureElement α) : Measure α :=
    { measure with elements := measure.elements ++ [child] }
  match element.name with
  | "attributes" => do
    let attributes ← attributes measure.attributes element
    pure { measure with attributes }
  | "note" => return add (.note (← note element))
  | "backup" => return add (.backup (← divisionCount "duration" (element.childText? "duration")))
  | "forward" =>
    return add (.forward (← divisionCount "duration" (element.childText? "duration")))
  | "direction" => return add (.direction (← direction element))
  | "sound" => do
    match ← soundTempo element with
    | some tempo => pure (add (.direction ⟨[], some tempo⟩))
    | none => pure measure
  | "harmony" => return add (.harmony (← harmony element))
  | _ => pure measure

def measure (element : Element) : Noted α (Measure α) := do
  let number := (element.attr? "number").getD ""
  let measure ← Noted.foldList measureChild ⟨number, .none, []⟩ element.children
  Noted.remark (.measureRead number measure.elements.length)
  pure measure

def part (element : Element) : Noted α (Part α) := do
  let measures ← Noted.mapList measure (element.childrenNamed "measure")
  pure ⟨(element.attr? "id").getD "", measures⟩

end Reading

variable {α : Type} [Quantity α]

def Score.ofElement (root : Element) : Except Failure (Noted α (Score α)) :=
  if root.name = "score-partwise" then
    let parts := root.childrenNamed "part"
    if parts.isEmpty then .error (.document .noPart)
    else .ok (Score.mk <$> Noted.mapList Reading.part parts)
  else if root.name = "score-timewise" then .error (.document .timewise)
  else .error (.document (.unexpectedRoot root.name))

def Score.ofText (text : String) : Except Failure (Noted α (Score α)) :=
  Markup.readElement text >>= Score.ofElement

end Rubato
