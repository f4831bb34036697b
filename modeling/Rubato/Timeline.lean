import Rubato.Options
import Rubato.Performance.Numbering
import Rubato.Progression
import Rubato.Score.Reading
import Rubato.Tempo.Attribute
import Rubato.Tempo.Scan

namespace Rubato

/-! The timeline of a score: its notes as timed events and its chord progression. All
parts are timed by the tempo map of the first one. -/

structure Timeline (α : Type) where
  notes : List (NoteEvent α)
  progression : List (ProgressionEntry α)
  deriving DecidableEq

variable {α : Type} [Quantity α]

namespace Score

def tempoMap (score : Score α) (number : Nat) : Noted α (TempoMap α) :=
  match score.parts[number]? with
  | some part => TempoMap.ofPart part
  | none => pure .empty

def playedParts (score : Score α) (number : Nat) :
    Noted α (List (List (PlayedNote α))) := do
  let map ← score.tempoMap number
  Noted.mapList (fun part => part.played map) score.parts

def noteEvents (score : Score α) (idPrefix : String) : Noted α (List (NoteEvent α)) := do
  let parts ← score.playedParts 0
  pure (NoteEvent.ofNotes idPrefix parts.flatten)

def progression (score : Score α) (options : Options) : List (ProgressionEntry α) :=
  Progression.ofScore options.groupSimultaneous options.skipHarmony score

def timeline (score : Score α) (options : Options) : Noted α (Timeline α) := do
  let notes ← score.noteEvents options.idPrefix
  pure ⟨notes, score.progression options⟩

end Score

/-! Conversions from the text of a score. Invalid options are found before anything
in the text. A tempo to force is put into the text and into the score read from it,
which also settles metronome marks and scores that state no tempo. -/

def readScore (text : String) (options : Options) :
    Except Failure (Noted Float (Score Float)) := do
  options.validate.mapError .options
  match options.tempoOverride with
  | some bpm =>
    let score ← Score.ofText (forceTempoText text bpm)
    .ok (Score.forced bpm <$> score)
  | none => Score.ofText text

def convertScore (text : String) (options : Options) :
    Except Failure (Noted Float (List (NoteEvent Float))) := do
  let score ← readScore text options
  .ok (score >>= fun score => score.noteEvents options.idPrefix)

def chordProgression (text : String) (options : Options) :
    Except Failure (Noted Float (List (ProgressionEntry Float))) := do
  let score ← readScore text options
  .ok ((fun score => Score.progression score options) <$> score)

def convert (text : String) (options : Options) :
    Except Failure (Noted Float (Timeline Float)) := do
  let score ← readScore text options
  .ok (score >>= fun score => score.timeline options)

def convertWithYaml (text yaml : String) : Except Failure (Noted Float (Timeline Float)) := do
  let options ← (Options.ofYamlText yaml).mapError .options
  convert text options

end Rubato
