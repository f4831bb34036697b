import Rubato.Yaml.Place

namespace Rubato.Yaml

/-! Scalars: plain ones and those in single or double quotes. Any of them may go over
several lines, up to a document marker: a line break in one is a space, further breaks
are kept, and the blanks around them are dropped. A break that is escaped leaves
nothing behind; one that is no newline is kept. -/

inductive Piece
  | solid (c : Char)
  | blank (c : Char)
  | lineBreak (c : Char)
  | escapedBreak

def Piece.ofChar (c : Char) : Piece :=
  if isBreak c then .lineBreak c else if isBlank c then .blank c else .solid c

def Piece.isSolid : Piece → Bool
  | .solid _ => true
  | _ => false

/-- What has been passed since the last solid piece, last first: blanks, or a break
that may be an escaped one and further ones behind it. -/
inductive Gap
  | blanks (passed : List Char)
  | breaks (first : Option Char) (further : List Char)

def Gap.text : Gap → List Char
  | .blanks passed => passed.reverse
  | .breaks (some '\n') [] => [' ']
  | .breaks (some '\n') further => further.reverse
  | .breaks first further => first.toList ++ further.reverse

def layOut : Gap → List Piece → List Char
  | gap, [] => gap.text
  | gap, .solid c :: rest => gap.text ++ c :: layOut (.blanks []) rest
  | gap, .escapedBreak :: rest => gap.text ++ layOut (.breaks none []) rest
  | .blanks passed, .blank c :: rest => layOut (.blanks (c :: passed)) rest
  | .breaks first further, .blank _ :: rest => layOut (.breaks first further) rest
  | .blanks _, .lineBreak c :: rest => layOut (.breaks (some c) []) rest
  | .breaks first further, .lineBreak c :: rest => layOut (.breaks first (c :: further)) rest

def layOutAll (pieces : List Piece) : String := String.ofList (layOut (.blanks []) pieces)

/-! Plain scalars. In a flow collection they also end at its punctuation, and a colon
right before that or before a question mark is refused. Elsewhere they end at a line
that is indented less than the least column, to which no tab may lead. -/

def isFlowIndicator (c : Char) : Bool :=
  c == ',' || c == '[' || c == ']' || c == '{' || c == '}'

def isIndicator (c : Char) : Bool :=
  isFlowIndicator c || "-?:#&*!|>'\"%@`".toList.contains c

def startsPlain (inFlow : Bool) : List Char → Bool
  | [] => false
  | '-' :: rest => !startsBlank rest
  | c :: rest =>
    if c == '?' || c == ':' then !inFlow && !startsBlank rest
    else !isBlankOrBreak c && !isIndicator c

structure PlainContext where
  inFlow : Bool
  least : Nat

/-- Whether a plain scalar ends at a character that is no blank. `solid` says whether
it follows one of its kind, `broken` whether a line break lies in between. -/
def PlainContext.endsAt (context : PlainContext) (solid broken : Bool) (place : Place)
    (c : Char) (rest : List Char) : Bool :=
  (broken && !context.inFlow && decide (place.column < context.least)) ||
    place.endsDocument (c :: rest) || (c == '#' && !solid) ||
    (c == ':' && startsBlank rest) || (context.inFlow && isFlowIndicator c)

structure PlainScalar where
  text : String
  /-- Whether line breaks have been passed behind the text. -/
  broken : Bool
  behind : Cursor

def PlainScalar.ofPassed (passed : List Piece) (broken : Bool) (behind : Cursor) :
    PlainScalar :=
  ⟨layOutAll (passed.dropWhile fun piece => !piece.isSolid).reverse, broken, behind⟩

/-- The plain scalar of which some pieces, last first, have been passed, a line break
among those behind its text if `broken`. The blanks and breaks behind the text are
passed too. -/
def PlainContext.scalarFrom? (context : PlainContext) (passed : List Piece)
    (broken : Bool) (place : Place) : List Char → Option PlainScalar
  | [] => some (.ofPassed passed broken ⟨place, []⟩)
  | c :: rest =>
    if isBlankOrBreak c then
      if broken && c == '\t' && decide (place.column < context.least) then none
      else
        context.scalarFrom? (Piece.ofChar c :: passed) (broken || isBreak c)
          (place.after c) rest
    else if context.endsAt (passed.head?.all Piece.isSolid) broken place c rest then
      some (.ofPassed passed broken ⟨place, c :: rest⟩)
    else if context.inFlow && c == ':' &&
        rest.head?.any (fun d => isFlowIndicator d || d == '?') then none
    else context.scalarFrom? (.solid c :: passed) false (place.after c) rest

def singleQuoted? (passed : List Piece) (place : Place) :
    List Char → Option (List Piece × Cursor)
  | [] => none
  | '\'' :: '\'' :: rest =>
    singleQuoted? (.solid '\'' :: passed) (place.afterAll ['\'', '\'']) rest
  | '\'' :: rest => some (passed.reverse, ⟨place.after '\'', rest⟩)
  | c :: rest =>
    if place.endsDocument (c :: rest) then none
    else singleQuoted? (Piece.ofChar c :: passed) (place.after c) rest

def simpleEscapes : List (Char × Char) := [
  ('0', '\x00'), ('a', '\x07'), ('b', '\x08'), ('t', '\t'), ('\t', '\t'), ('n', '\n'),
  ('v', '\x0b'), ('f', '\x0c'), ('r', '\r'), ('e', '\x1b'), (' ', ' '), ('"', '"'),
  ('/', '/'), ('\\', '\\'), ('N', '\u0085'), ('_', '\u00a0'), ('L', '\u2028'),
  ('P', '\u2029')]

def hexValue? (c : Char) : Option Nat :=
  if '0' ≤ c ∧ c ≤ '9' then some (c.toNat - '0'.toNat)
  else if 'a' ≤ c ∧ c ≤ 'f' then some (c.toNat - 'a'.toNat + 10)
  else if 'A' ≤ c ∧ c ≤ 'F' then some (c.toNat - 'A'.toNat + 10)
  else none

def hexEscapes : List (Char × Nat) := [('x', 2), ('u', 4), ('U', 8)]

def codePoint? (digits : List Char) (count : Nat) : Option Char := do
  if digits.length < count then none
  let values ← digits.mapM hexValue?
  let code := values.foldl (fun value digit => 16 * value + digit) 0
  if code.isValidChar then some (Char.ofNat code) else none

/-- What a backslash and the letter behind it stand for, and the number of further
characters that belong to them. -/
def escape? (letter : Char) (rest : List Char) : Option (Piece × Nat) :=
  if isBreak letter then some (.escapedBreak, 0)
  else
    match hexEscapes.lookup letter with
    | some count => (codePoint? (rest.take count) count).map fun c => (.solid c, count)
    | none => (simpleEscapes.lookup letter).map fun c => (.solid c, 0)

def doubleQuoted? (passed : List Piece) (place : Place) (text : List Char) :
    Option (List Piece × Cursor) :=
  match text with
  | [] => none
  | '"' :: rest => some (passed.reverse, ⟨place.after '"', rest⟩)
  | '\\' :: letter :: rest =>
    match escape? letter rest with
    | some (piece, count) =>
      doubleQuoted? (piece :: passed)
        (place.afterAll ('\\' :: letter :: rest.take count)) (rest.drop count)
    | none => none
  | c :: rest =>
    if place.endsDocument (c :: rest) then none
    else doubleQuoted? (Piece.ofChar c :: passed) (place.after c) rest
termination_by text.length
decreasing_by all_goals grind

end Rubato.Yaml
