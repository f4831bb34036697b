import Rubato.Score

namespace Rubato

/-! The chord progression: what starts to sound where, by bar and beat. The notes and
chord symbols of all parts are gathered by onset, the bar and the position in it to
a thousandth of a division. An onset takes its beat from what is found there first
and its chord symbol and lyric from what is found there last. A lyric stays until
the next one. Rests, grace notes and notes tied to an earlier one start nothing. -/

inductive EntryContent
  | note (pitchClass : String) (octave : Int)
  | group (chord : String) (notes : List String)
  | harmony (chord : String)
  deriving DecidableEq, Repr

structure ProgressionEntry (α : Type) where
  bar : Nat
  beats : α
  content : EntryContent
  /-- The chord symbol at the onset. -/
  text : Option String
  lyric : Option String
  deriving DecidableEq

def ProgressionEntry.chord {α : Type} (entry : ProgressionEntry α) : String :=
  match entry.content with
  | .note pitchClass _ => pitchClass
  | .group chord _ => chord
  | .harmony chord => chord

structure OnsetNote where
  pitch : PitchNumber
  spelling : Spelling
  deriving DecidableEq, Repr

def OnsetNote.ofPitch (pitch : Pitch) : OnsetNote :=
  ⟨pitch.number, pitch.spelling⟩

inductive Finding
  | note (note : OnsetNote) (lyric : Option String)
  | harmony (label : String)
  deriving DecidableEq, Repr

structure Contribution (α : Type) where
  thousandths : Int
  beats : α
  finding : Finding
  deriving DecidableEq

structure Onset (α : Type) where
  beats : α
  notes : List OnsetNote
  harmony : Option String
  lyric : Option String
  deriving DecidableEq

namespace Finding

def note? : Finding → Option OnsetNote
  | .note sounding _ => some sounding
  | .harmony _ => none

def lyric? : Finding → Option String
  | .note _ lyric => lyric
  | .harmony _ => none

def harmony? : Finding → Option String
  | .note _ _ => none
  | .harmony label => some label

end Finding

/-- A note that starts to sound: pitched, no grace note, not tied to an earlier one. -/
def Note.sounds? (note : Note) : Option Pitch :=
  if note.isGrace || note.tie.stop then none else note.pitch

variable {α : Type} [Quantity α]

def Meter.beatAt (meter : Meter) (position : α) : α :=
  1 + position / (meter.divisions : α) * (meter.time.beatType : α) / ((4 : Nat) : α)

namespace Contribution

def of (meter : Meter) (position : α) (finding : Finding) : Contribution α :=
  ⟨Quantity.nearest (position * ((1000 : Nat) : α)), meter.beatAt position, finding⟩

def ofElement? (skipHarmony : Bool) (meter : Meter) (place : Place α) :
    MeasureElement α → Option (Contribution α)
  | .note note =>
    note.sounds?.map fun pitch =>
      .of meter (place.onset note) (.note (.ofPitch pitch) (note.lyric.filter (· ≠ "")))
  | .harmony harmony =>
    if skipHarmony then none
    else harmony.label?.map fun label => .of meter place.cursor (.harmony label)
  | _ => none

def ofElements (skipHarmony : Bool) (meter : Meter) :
    Place α → List (MeasureElement α) → List (Contribution α)
  | _, [] => []
  | place, element :: rest =>
    (ofElement? skipHarmony meter place element).toList ++
      ofElements skipHarmony meter (place.after element) rest

end Contribution

namespace Part

def meteredFrom (meter : Meter) : List (Measure α) → List (Meter × Measure α)
  | [] => []
  | measure :: rest =>
    let next := meter.update measure.attributes
    (next, measure) :: meteredFrom next rest

def contributions (skipHarmony : Bool) (part : Part α) : List (List (Contribution α)) :=
  (meteredFrom .initial part.measures).map fun (meter, measure) =>
    Contribution.ofElements skipHarmony meter Place.start measure.elements

end Part

namespace Onset

def ofContributions (first : Contribution α) (others : List (Contribution α)) : Onset α :=
  let findings := (first :: others).map (·.finding)
  { beats := first.beats
    notes := findings.filterMap Finding.note?
    harmony := (findings.filterMap Finding.harmony?).getLast?
    lyric := (findings.filterMap Finding.lyric?).getLast? }

def ofBar (contributions : List (Contribution α)) : List (Onset α) :=
  let positions := (contributions.map (·.thousandths)).eraseDups.mergeSort
  positions.filterMap fun position =>
    match contributions.filter fun contribution => contribution.thousandths == position with
    | [] => none
    | first :: others => some (ofContributions first others)

def sortedNotes (onset : Onset α) : List OnsetNote :=
  onset.notes.mergeSort fun first second => first.pitch ≤ second.pitch

def grouped (notes : List OnsetNote) : EntryContent :=
  let classes := (notes.map fun note => note.spelling.pitchClass).eraseDups
  .group (String.intercalate "+" classes) (notes.map fun note => note.spelling.name)

def single (note : OnsetNote) : EntryContent :=
  .note note.spelling.pitchClass note.spelling.octave

def contents (group : Bool) (onset : Onset α) : List EntryContent :=
  if onset.notes.isEmpty then (onset.harmony.map EntryContent.harmony).toList
  else if group then [grouped onset.sortedNotes]
  else onset.sortedNotes.map single

def entries (group : Bool) (bar : Nat) (lyric : Option String) (onset : Onset α) :
    List (ProgressionEntry α) :=
  (onset.contents group).map fun content =>
    ⟨bar, onset.beats, content, onset.harmony, lyric⟩

end Onset

namespace Progression

def onsets (skipHarmony : Bool) (score : Score α) : List (Nat × Onset α) :=
  let parts := score.parts.map fun part => (part.contributions skipHarmony).toArray
  let bars := (parts.map Array.size).foldl max 0
  (List.range bars).flatMap fun index =>
    (Onset.ofBar (parts.flatMap fun part => part.getD index [])).map (index + 1, ·)

/-- The entries of onsets; `lyric` is the last one before them. -/
def entriesFrom (group : Bool) (lyric : Option String) :
    List (Nat × Onset α) → List (ProgressionEntry α)
  | [] => []
  | (bar, onset) :: rest =>
    let current := onset.lyric.or lyric
    onset.entries group bar current ++ entriesFrom group current rest

def ofScore (group skipHarmony : Bool) (score : Score α) : List (ProgressionEntry α) :=
  entriesFrom group none (onsets skipHarmony score)

end Progression

end Rubato
