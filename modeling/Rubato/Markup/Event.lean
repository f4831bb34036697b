import Rubato.Markup.Attribute
import Rubato.Text.Search

namespace Rubato.Markup

/-! Markup events. A text is read one event at a time; each event is reported with
the place its reading began, the end of the markup before it or, after character
data, the `<` that ended that. Character data is trimmed of white space on both
ends, one run at a time, and its references are resolved; names are local names.
A tag that is cut short by the end of the text right after its `<` ends the text
like any other end. -/

inductive Event
  | start (name : String) (attributes : List Attribute)
  | empty (name : String) (attributes : List Attribute)
  | close (name : String)
  | text (content : String)
  /-- A comment, an instruction or a document type. -/
  | aside
  deriving DecidableEq, Repr

/-- Where the reading of a text stands: what is left of it, the bytes read so far,
whether the `<` before the rest has been read with the character data before it,
and the full names of the open elements, innermost first. -/
structure Reader where
  rest : List Char
  offset : Nat
  afterText : Bool
  opened : List (List Char)
  deriving DecidableEq, Repr

inductive Step
  | finished (place : Nat)
  | failed (place : Nat) (fault : Fault)
  | event (place : Nat) (event : Event) (next : Reader)

def byteOrderMark : Char := '\uFEFF'

/-- A byte order mark is passed over and not counted. -/
def Reader.ofText (text : List Char) : Reader :=
  match text with
  | first :: rest => ⟨if first = byteOrderMark then rest else text, 0, false, []⟩
  | [] => ⟨[], 0, false, []⟩

def Reader.place (reader : Reader) : Nat :=
  if reader.afterText then reader.offset - 1 else reader.offset

def closingName (content : List Char) : List Char :=
  let name := trimSpaceEnd content
  if name.isEmpty then content else name

def localString (name : List Char) : String :=
  String.ofList (localName name)

/-- A closing tag, given from behind its `</`. Its `>` may be missing at the end of
the text. -/
def readClose (place offset : Nat) (opened : List (List Char)) (text : List Char) : Step :=
  let (content, after) := cut (· == '>') text
  let start := offset + bytes (after.take 1)
  let name := closingName content
  match opened with
  | [] => .failed start (.mismatched "" (String.ofList content))
  | expected :: outer =>
    if name = expected then
      .event place (.close (localString name))
        ⟨after.drop 1, start + 1 + bytes content, false, outer⟩
    else .failed start (.mismatched (String.ofList expected) (String.ofList name))

/-- An instruction, given from its first `?` on. -/
def readInstruction (place offset : Nat) (opened : List (List Char)) (text : List Char) :
    Step :=
  let (content, after) := cut (· == '>') text
  let start := offset + bytes (after.take 1)
  if 2 < bytes content ∧ content.getLast? = some '?' then
    .event place .aside ⟨after.drop 1, start + bytes content, false, opened⟩
  else .failed start (.incomplete .instruction)

def quoteAfter (quote : Option Char) (c : Char) : Option Char :=
  match quote with
  | none => if isQuote c then some c else none
  | some mark => if c = mark then none else some mark

def splitTag? : Option Char → List Char → Option (List Char × List Char)
  | _, [] => none
  | quote, c :: rest =>
    if quote = none ∧ c = '>' then some ([], rest)
    else (splitTag? (quoteAfter quote c) rest).map fun (tag, after) => (c :: tag, after)

def readTag (place offset : Nat) (opened : List (List Char)) (text : List Char) : Step :=
  match splitTag? none text with
  | none => .failed offset (.incomplete .tag)
  | some (content, after) =>
    let stop := offset + bytes content + 1
    let isEmpty := content.getLast? = some '/'
    let tag := if isEmpty then content.dropLast else content
    let name := tagName tag
    match tagAttributes tag with
    | .error fault => .failed place fault
    | .ok attributes =>
      if isEmpty then
        .event place (.empty (localString name) attributes) ⟨after, stop, false, opened⟩
      else
        .event place (.start (localString name) attributes)
          ⟨after, stop, false, name :: opened⟩

def readCharacterData (place offset : Nat) (opened : List (List Char))
    (text : List Char) : Step :=
  match Text.splitAtText? "]]>".toList text with
  | none => .failed offset (.incomplete .characterData)
  | some (content, after) =>
    let stop := offset + bytes content + 3
    if startsAnyCase "![CDATA[".toList content then
      .event place (.text (String.ofList (content.drop 8))) ⟨after, stop, false, opened⟩
    else .failed stop (.incomplete .characterData)

/-- A comment holds at least two characters between its `!` and its closing `-->`. -/
def readComment (place offset : Nat) (opened : List (List Char)) (text : List Char) : Step :=
  match Text.splitAtText? "-->".toList (text.drop 3) with
  | none => .failed offset (.incomplete .comment)
  | some (content, after) =>
    let stop := offset + bytes (text.take 3) + bytes content + 3
    if text.take 3 = "!--".toList then
      .event place .aside ⟨after, stop, false, opened⟩
    else .failed stop (.incomplete .comment)

/-- The text of a document type up to the `>` that no earlier `<` claims. -/
def splitDoctype? : Nat → List Char → Option (List Char × List Char)
  | _, [] => none
  | depth, c :: rest =>
    if depth = 0 ∧ c = '>' then some ([], rest)
    else
      let depthAfter := if c = '<' then depth + 1 else if c = '>' then depth - 1 else depth
      (splitDoctype? depthAfter rest).map fun (content, after) => (c :: content, after)

def readDoctype (place offset : Nat) (opened : List (List Char)) (text : List Char) : Step :=
  match splitDoctype? 0 text with
  | none => .failed offset (.incomplete .doctype)
  | some (content, after) =>
    let stop := offset + bytes content + 1
    if startsAnyCase "!DOCTYPE".toList content then
      if (content.drop 8).all isSpace then .failed stop .emptyDoctype
      else .event place .aside ⟨after, stop, false, opened⟩
    else .failed stop (.incomplete .doctype)

def readDeclaration (place offset : Nat) (opened : List (List Char)) (text : List Char) :
    Step :=
  match text.drop 1 with
  | [] => .failed offset (.incomplete .declaration)
  | c :: _ =>
    if c = '[' then readCharacterData place offset opened text
    else if c = '-' then readComment place offset opened text
    else if c = 'D' ∨ c = 'd' then readDoctype place offset opened text
    else .failed offset (.unknownDeclaration (leadingByte c))

def readMarkup (place offset : Nat) (opened : List (List Char)) (text : List Char) : Step :=
  match text with
  | [] => .finished offset
  | '/' :: rest => readClose place offset opened rest
  | '?' :: _ => readInstruction place offset opened text
  | '!' :: _ => readDeclaration place offset opened text
  | _ => readTag place offset opened text

/-- Character data up to the next `<`, which is read with it. -/
def readText (place offset : Nat) (opened : List (List Char)) (text : List Char) : Step :=
  let (content, after) := cut (· == '<') text
  let stop := offset + bytes content + bytes (after.take 1)
  match resolve (trimSpaceEnd content) with
  | .error fault => .failed place (.badReference fault)
  | .ok resolved =>
    .event place (.text (String.ofList resolved)) ⟨after.drop 1, stop, true, opened⟩

def Reader.next (reader : Reader) : Step :=
  if reader.afterText then
    readMarkup reader.place reader.offset reader.opened reader.rest
  else
    let (space, rest) := cut (fun c => !isSpace c) reader.rest
    let offset := reader.offset + bytes space
    match rest with
    | [] => .finished offset
    | '<' :: markup => readMarkup reader.place (offset + 1) reader.opened markup
    | _ => readText reader.place offset reader.opened rest

end Rubato.Markup
