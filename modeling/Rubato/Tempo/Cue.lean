import Rubato.Text.Letter
import Rubato.Text.Lowercase
import Rubato.Text.Search

namespace Rubato

/-! What the words of a direction mean for the tempo, whatever their case. A return
to the tempo is looked for anywhere in the text and wins over the ramp words, which
count only as whole words. -/

inductive RampKind
  | ritardando
  | accelerando
  deriving DecidableEq, Repr

inductive TempoCue
  | ramp (kind : RampKind)
  | resume
  deriving DecidableEq, Repr

namespace TempoCue

def resumeTexts : List (List Char) :=
  ["a tempo".toList, "tempo primo".toList]

def ritardandoWords : List (List Char) := [
  "rit".toList, "ritard".toList, "ritardando".toList, "ritenuto".toList, "rall".toList,
  "rallentando".toList, "allargando".toList, "slentando".toList]

def accelerandoWords : List (List Char) :=
  ["accel".toList, "accelerando".toList, "stringendo".toList]

/-- The pieces of a text between the characters that are no letters. -/
def words (text : List Char) : List (List Char) :=
  text.splitOnP fun c => !Text.isLetter c

def hasWord (candidates : List (List Char)) (text : List Char) : Bool :=
  (words text).any fun word => candidates.contains word

def ofLowercase? (text : List Char) : Option TempoCue :=
  if resumeTexts.any fun mark => Text.occursIn mark text then some .resume
  else if hasWord ritardandoWords text then some (.ramp .ritardando)
  else if hasWord accelerandoWords text then some (.ramp .accelerando)
  else none

def ofWords? (text : String) : Option TempoCue :=
  ofLowercase? (Text.lowercase text.toList)

end TempoCue

end Rubato
