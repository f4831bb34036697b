import Rubato.Json.Written
import Rubato.Timeline

namespace Rubato

/-! The JSON form of a timeline. What is absent is left out, and so is the mark of an
ornament on a note that is part of none. -/

def Hand.name : Hand → String
  | .left => "left"
  | .right => "right"
  | .both => "both"

def NoteEvent.toJson (event : NoteEvent Float) : Json :=
  .object <|
    [("id", .string event.id), ("time", Json.ofFloat event.time),
      ("pitch", Json.ofNat event.pitch)] ++
    Json.ifPresent "duration" Json.ofFloat event.duration ++
    [("noteName", .string event.name), ("hand", .string event.hand.name)] ++
    if event.ornamental then [("isOrnament", .bool true)] else []

def EntryContent.members : EntryContent → List (String × Json)
  | .note pitchClass octave => [("chord", .string pitchClass), ("octave", Json.ofInt octave)]
  | .group chord notes => [("chord", .string chord), ("notes", .array (notes.map .string))]
  | .harmony chord => [("chord", .string chord)]

def ProgressionEntry.toJson (entry : ProgressionEntry Float) : Json :=
  .object <|
    [("bar", Json.ofNat entry.bar), ("beats", Json.ofFloat entry.beats)] ++
    entry.content.members ++
    Json.ifPresent "text" .string entry.text ++
    Json.ifPresent "lyricDisplay" .string entry.lyric

def Timeline.toJson (timeline : Timeline Float) : Json :=
  .object [("notes", .array (timeline.notes.map NoteEvent.toJson)),
    ("progression", .array (timeline.progression.map ProgressionEntry.toJson))]

end Rubato
