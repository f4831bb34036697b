namespace Rubato.Yaml

/-! The characters of a YAML text and the places between them. -/

def isBlank (c : Char) : Bool := c == ' ' || c == '\t'

/-- The line breaks that are left once the others have been made one. -/
def isBreak (c : Char) : Bool := c == '\n' || c == '\u2028' || c == '\u2029'

def isBlankOrBreak (c : Char) : Bool := isBlank c || isBreak c

def startsBlank (text : List Char) : Bool := text.head?.all isBlankOrBreak

/-- The breaks that are read as a newline wherever they stand, as a newline. The line
and the paragraph separator stay what they are. -/
def normalizeBreaks : List Char → List Char
  | [] => []
  | '\r' :: '\n' :: rest => '\n' :: normalizeBreaks rest
  | c :: rest => (if c = '\r' ∨ c = '\u0085' then '\n' else c) :: normalizeBreaks rest

def isAllowed (c : Char) : Bool :=
  c == '\t' || c == '\n' || (0x20 ≤ c.toNat && c.toNat ≤ 0x7E) ||
    (0xA0 ≤ c.toNat && c.toNat ≤ 0xFFFD) || 0x10000 ≤ c.toNat

/-- A place in a text: its line, the characters before it on that line, and the
bytes they take. -/
structure Place where
  line : Nat
  column : Nat
  bytes : Nat

namespace Place

def start : Place := ⟨0, 0, 0⟩

def after (place : Place) (c : Char) : Place :=
  if isBreak c then ⟨place.line + 1, 0, 0⟩
  else ⟨place.line, place.column + 1, place.bytes + c.utf8Size⟩

def afterAll (place : Place) (text : List Char) : Place := text.foldl after place

end Place

structure Cursor where
  place : Place
  rest : List Char

/-- Whether a document marker stands at a place: three times one character, alone at
the start of a line. -/
def Place.isMarker (place : Place) (mark : Char) (text : List Char) : Bool :=
  place.column == 0 && text.take 3 == [mark, mark, mark] && startsBlank (text.drop 3)

def Place.endsDocument (place : Place) (text : List Char) : Bool :=
  place.isMarker '-' text || place.isMarker '.' text

end Rubato.Yaml
