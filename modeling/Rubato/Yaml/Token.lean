import Rubato.Yaml.Directive

namespace Rubato.Yaml

/-! Tokens of a text. Block collections have tokens of their own, which follow from
the indentation of lines. A key needs no mark before it: where one can begin, its place
is kept, and the colon behind it marks it there. Tags, anchors and block scalars are
refused. -/

inductive Token
  | directive (directive : Directive)
  | document
  | documentEnd
  | blockSequence
  | blockMapping
  | blockEnd
  | openSequence
  | closeSequence
  | openMapping
  | closeMapping
  | item
  | separator
  | key
  | value
  | scalar (plain : Bool) (text : String)
  deriving DecidableEq, Repr

/-- A place at which a key may have begun, with the number of tokens before it. In a
block mapping what stands at its indentation is required to be a key. -/
structure PossibleKey where
  position : Nat
  place : Place
  required : Bool

/-- The most bytes from the beginning of an unmarked key to its colon. -/
def longestKey : Nat := 1024

/-- Whether a place is too far away for the colon of a key: on a later line or too
many bytes behind. -/
def PossibleKey.isStale (key : PossibleKey) (place : Place) : Bool :=
  decide (key.place.line < place.line) || decide (key.place.bytes + longestKey < place.bytes)

/-- The reading of tokens: the columns of the open block collections and the possible
keys of the flow collection that is read and of those around it, innermost first. -/
structure Reader where
  place : Place
  tokens : Array Token
  indents : List Nat
  keyAllowed : Bool
  key : Option PossibleKey
  outerKeys : List (Option PossibleKey)

namespace Reader

def start (place : Place) : Reader := ⟨place, #[], [], true, none, []⟩

def inFlow (reader : Reader) : Bool := !reader.outerKeys.isEmpty

def passAll (reader : Reader) (text : List Char) : Reader :=
  { reader with place := reader.place.afterAll text }

def dropKey? (reader : Reader) : Option Reader :=
  if reader.key.any (·.required) then none else some { reader with key := none }

def possibleKey (reader : Reader) : PossibleKey where
  position := reader.tokens.size
  place := reader.place
  required := !reader.inFlow && reader.indents.head? == some reader.place.column

def keepKey? (reader : Reader) : Option Reader :=
  if reader.keyAllowed then
    reader.dropKey?.map fun dropped => { dropped with key := some reader.possibleKey }
  else some reader

/-- Drops a key that has become stale. Those around a flow collection are looked at
when it has ended, since they stay stale. -/
def dropStaleKey? (reader : Reader) : Option Reader :=
  if reader.key.any (·.isStale reader.place) then reader.dropKey? else some reader

/-- Opens a block collection before some token, unless one is open at its column. -/
def openBlock (reader : Reader) (column position : Nat) (token : Token) : Reader :=
  if !reader.inFlow && reader.indents.head?.all (· < column) then
    { reader with
      indents := column :: reader.indents
      tokens := reader.tokens.insertIdxIfInBounds position token }
  else reader

def openBlockHere (reader : Reader) (token : Token) : Reader :=
  reader.openBlock reader.place.column reader.tokens.size token

def closeBlocks (reader : Reader) (closes : Nat → Bool) : Reader :=
  if reader.inFlow then reader
  else
    let closed := reader.indents.takeWhile closes
    { reader with
      indents := reader.indents.drop closed.length
      tokens := reader.tokens ++ (closed.map fun _ => Token.blockEnd) }

/-! Single tokens. Each takes the text from its first character on and returns what is
left of it. -/

abbrev Step := Option (Reader × List Char)

/-- Passes the text of a token, which decides whether a key may follow. -/
def pass (reader : Reader) (token : Token) (keyAllowed : Bool) (text rest : List Char) :
    Reader × List Char :=
  ({ reader with
    place := reader.place.afterAll text
    tokens := reader.tokens.push token
    keyAllowed }, rest)

def marker? (reader : Reader) (token : Token) (text : List Char) : Step :=
  (reader.closeBlocks fun _ => true).dropKey?.map
    (·.pass token false (text.take 3) (text.drop 3))

/-- A directive, which takes a whole line with its break. -/
def directive? (reader : Reader) (text : List Char) : Step := do
  let line := text.takeWhile (!isBreak ·)
  let directive ← Directive.ofLine? (line.drop 1)
  (reader.closeBlocks fun _ => true).dropKey?.map
    (·.pass (.directive directive) false (text.take (line.length + 1))
      (text.drop (line.length + 1)))

def openFlow? (reader : Reader) (token : Token) (c : Char) (rest : List Char) : Step :=
  reader.keepKey?.map fun kept =>
    { kept with key := none, outerKeys := kept.key :: kept.outerKeys }.pass token true [c]
      rest

def closeFlow? (reader : Reader) (token : Token) (c : Char) (rest : List Char) : Step :=
  reader.dropKey?.map fun dropped =>
    { dropped with
      key := dropped.outerKeys.head?.join
      outerKeys := dropped.outerKeys.tail }.pass token false [c] rest

def separator? (reader : Reader) (c : Char) (rest : List Char) : Step :=
  reader.dropKey?.map (·.pass .separator true [c] rest)

def takesMark (reader : Reader) : Bool := reader.inFlow || reader.keyAllowed

def item? (reader : Reader) (c : Char) (rest : List Char) : Step :=
  if reader.takesMark then
    (reader.openBlockHere .blockSequence).dropKey?.map (·.pass .item true [c] rest)
  else none

def markedKey? (reader : Reader) (c : Char) (rest : List Char) : Step :=
  if reader.takesMark then
    (reader.openBlockHere .blockMapping).dropKey?.map
      (·.pass .key (!reader.inFlow) [c] rest)
  else none

def markKey (reader : Reader) (key : PossibleKey) : Reader :=
  { reader with
    key := none
    tokens := reader.tokens.insertIdxIfInBounds key.position .key }.openBlock
      key.place.column key.position .blockMapping

def value? (reader : Reader) (c : Char) (rest : List Char) : Step :=
  match reader.key with
  | some key => some ((reader.markKey key).pass .value false [c] rest)
  | none =>
    if reader.takesMark then
      some ((reader.openBlockHere .blockMapping).pass .value (!reader.inFlow) [c] rest)
    else none

def scalar (reader : Reader) (plain : Bool) (text : String) (keyAllowed : Bool)
    (behind : Cursor) : Reader × List Char :=
  ({ reader with
    place := behind.place
    tokens := reader.tokens.push (.scalar plain text)
    keyAllowed }, behind.rest)

def quoted? (reader : Reader)
    (read? : Place → List Char → Option (List Piece × Cursor)) (c : Char)
    (rest : List Char) : Step := do
  let kept ← reader.keepKey?
  let (pieces, behind) ← read? (kept.place.after c) rest
  some (kept.scalar false (layOutAll pieces) false behind)

def plainContext (reader : Reader) : PlainContext where
  inFlow := reader.inFlow
  least :=
    match reader.indents with
    | [] => 0
    | indent :: _ => indent + 1

/-- A plain scalar, behind which a key may begin if its text is followed by a line
break. -/
def plain? (reader : Reader) (text : List Char) : Step := do
  let kept ← reader.keepKey?
  let found ← kept.plainContext.scalarFrom? [] false kept.place text
  some (kept.scalar true found.text found.broken found.behind)

/-- Whether a character is a mark. Unless it is one wherever it stands, a blank has to
follow; otherwise a plain scalar begins with it. -/
def isAlone (mark : Char) (always : Bool) (c : Char) (rest : List Char) : Bool :=
  c == mark && (always || startsBlank rest)

def token? (reader : Reader) (c : Char) (rest : List Char) : Step :=
  let text := c :: rest
  if reader.place.column == 0 && c == '%' then reader.directive? text
  else if reader.place.isMarker '-' text then reader.marker? .document text
  else if reader.place.isMarker '.' text then reader.marker? .documentEnd text
  else if c = '[' then reader.openFlow? .openSequence c rest
  else if c = '{' then reader.openFlow? .openMapping c rest
  else if c = ']' then reader.closeFlow? .closeSequence c rest
  else if c = '}' then reader.closeFlow? .closeMapping c rest
  else if c = ',' then reader.separator? c rest
  else if isAlone '-' false c rest then reader.item? c rest
  else if isAlone '?' reader.inFlow c rest then reader.markedKey? c rest
  else if isAlone ':' reader.inFlow c rest then reader.value? c rest
  else if c = '\'' then reader.quoted? (singleQuoted? []) c rest
  else if c = '"' then reader.quoted? (doubleQuoted? []) c rest
  else if startsPlain reader.inFlow text then reader.plain? text
  else none

/-- Passes blanks, line breaks and comments, and a byte order mark at the beginning of a
line. No tab may stand where a block key can begin, which is on every new line. -/
def skip (reader : Reader) (inComment : Bool) : List Char → Reader × List Char
  | [] => (reader, [])
  | c :: rest =>
    if isBreak c then
      { reader.passAll [c] with keyAllowed := reader.keyAllowed || !reader.inFlow }.skip false
        rest
    else if inComment || c == ' ' || (c == '\uFEFF' && reader.place.column == 0) ||
        (c == '\t' && (reader.inFlow || !reader.keyAllowed)) then
      (reader.passAll [c]).skip inComment rest
    else if c == '#' then (reader.passAll [c]).skip true rest
    else (reader, c :: rest)

def tokens? : Nat → Reader → List Char → Option (List Token)
  | 0, _, _ => none
  | steps + 1, reader, text => do
    let (reader, text) := reader.skip false text
    let reader ← reader.dropStaleKey?
    match text with
    | [] =>
      let reader ← (reader.closeBlocks fun _ => true).dropKey?
      some reader.tokens.toList
    | c :: rest =>
      let (reader, text) ←
        (reader.closeBlocks fun indent => reader.place.column < indent).token? c rest
      tokens? steps reader text

end Reader

def Token.ofText? (text : List Char) : Option (List Token) :=
  (Reader.start Place.start).tokens? (text.length + 1) text

end Rubato.Yaml
