import Rubato.Decimal.Numeral
import Rubato.Failure
import Rubato.Json.Form
import Rubato.Text.Blank
import Rubato.Yaml.Document

namespace Rubato

/-! Options of a conversion and their reading from a YAML or JSON text. Every option
may be left out; its name has a kebab-case and a camel-case form. Unknown names are
passed over, an option that is given twice is refused. -/

structure Options where
  idPrefix : String
  groupSimultaneous : Bool
  skipHarmony : Bool
  tempoOverride : Option Float

namespace Options

def default : Options := ⟨"note-", false, false, none⟩

/-- A tempo to force must be finite and positive. -/
def validate (options : Options) : Except OptionsFault Unit :=
  match options.tempoOverride with
  | some bpm => if bpm.isFinite && decide (0 < bpm) then .ok () else .error (.invalidTempo bpm)
  | none => .ok ()

inductive Name
  | idPrefix
  | groupSimultaneous
  | skipHarmony
  | tempoOverride
  deriving DecidableEq, Repr

def Name.all : List Name := [.idPrefix, .groupSimultaneous, .skipHarmony, .tempoOverride]

def Name.spellings : Name → List String
  | .idPrefix => ["id-prefix", "idPrefix"]
  | .groupSimultaneous => ["group-simultaneous-notes", "groupSimultaneousNotes"]
  | .skipHarmony => ["skip-harmony-overlay", "skipHarmonyOverlay"]
  | .tempoOverride => ["tempo-override", "tempoOverride"]

def Name.ofText? (text : String) : Option Name :=
  all.find? fun name => name.spellings.contains text

structure Format (β : Type) where
  text? : β → Option String
  bool? : β → Option Bool
  tempo? : β → Option (Option Float)

variable {β : Type}

def set? (format : Format β) (options : Options) (name : Name) (value : β) :
    Option Options :=
  match name with
  | .idPrefix => (format.text? value).map fun idPrefix => { options with idPrefix }
  | .groupSimultaneous =>
    (format.bool? value).map fun groupSimultaneous => { options with groupSimultaneous }
  | .skipHarmony => (format.bool? value).map fun skipHarmony => { options with skipHarmony }
  | .tempoOverride =>
    (format.tempo? value).map fun tempoOverride => { options with tempoOverride }

def setAll? (format : Format β) (entries : List (Name × β)) : Option Options :=
  if (entries.map (·.1)).Nodup then
    entries.foldlM (fun options (name, value) => options.set? format name value) default
  else none

def known (entries : List (String × β)) : List (Name × β) :=
  entries.filterMap fun (text, value) => (Name.ofText? text).map (·, value)

/-! YAML: a prefix is any scalar, a truth value one of three spellings, a tempo a
plain number or nothing. -/

def yamlText? : Yaml → Option String
  | .scalar _ text => some text
  | _ => none

def yamlBool? : Yaml → Option Bool
  | .scalar true text =>
    if ["true", "True", "TRUE"].contains text then some true
    else if ["false", "False", "FALSE"].contains text then some false
    else none
  | _ => none

def infinity : Float := Float.ofBits Decimal.infinityBits.toUInt64

def yamlWords : List (String × Float) := [
  (".inf", infinity), (".Inf", infinity), (".INF", infinity), ("+.inf", infinity),
  ("+.Inf", infinity), ("+.INF", infinity), ("-.inf", -infinity), ("-.Inf", -infinity),
  ("-.INF", -infinity), (".nan", 0.0 / 0.0), (".NaN", 0.0 / 0.0), (".NAN", 0.0 / 0.0)]

def yamlNumber? (text : String) : Option Float :=
  match yamlWords.lookup text with
  | some value => some value
  | none =>
    match Decimal.numeral? text.toList with
    | some (.decimal negative digits exponent) =>
      let value := Decimal.toFloat negative digits exponent
      if value.isFinite then some value else none
    | _ => none

def yamlTempo? : Yaml → Option (Option Float)
  | .scalar true text =>
    if ["", "~", "null", "Null", "NULL"].contains text then some none
    else (yamlNumber? text).map some
  | _ => none

def yaml : Format Yaml := ⟨yamlText?, yamlBool?, yamlTempo?⟩

def yamlEntries? (entries : List (Yaml × Yaml)) : Option (List (String × Yaml)) :=
  entries.mapM fun (key, value) => (yamlText? key).map (·, value)

def ofYaml? (value : Yaml) : Option Options :=
  match value with
  | .mapping entries => (yamlEntries? entries).bind fun named => setAll? yaml (known named)
  | .scalar true "" => some default
  | _ => none

/-- The options of a YAML text; one of blanks only stands for the defaults. -/
def ofYamlText (text : String) : Except OptionsFault Options :=
  if (Text.trim text.toList).isEmpty then .ok default
  else
    match (Yaml.ofText? text).bind ofYaml? with
    | some options => options.validate.map fun _ => options
    | none => .error .unreadable

/-! JSON: an object, or a list of values in the order of the names. -/

def jsonText? : Json → Option String
  | .string text => some text
  | _ => none

def jsonBool? : Json → Option Bool
  | .bool value => some value
  | _ => none

def jsonTempo? : Json → Option (Option Float)
  | .null => some none
  | .number negative digits exponent =>
    let value := Decimal.toFloat negative digits exponent
    if value.isFinite then some (some value) else none
  | _ => none

def json : Format Json := ⟨jsonText?, jsonBool?, jsonTempo?⟩

def ofJsonMembers? (text : String) : Option Options := do
  let members ← Json.wantedOfText? (fun name => (Name.ofText? name).isSome) text
  setAll? json (known members)

def ofJsonItems? (text : String) : Option Options := do
  match ← Json.ofText? text with
  | .array items =>
    if items.length ≤ Name.all.length then setAll? json (Name.all.zip items) else none
  | _ => none

/-- The options of a JSON text; one of blanks only stands for the defaults. -/
def ofJsonText (text : String) : Except OptionsFault Options :=
  if (Text.trim text.toList).isEmpty then .ok default
  else
    match ofJsonMembers? text <|> ofJsonItems? text with
    | some options => .ok options
    | none => .error .unreadable

end Options

end Rubato
