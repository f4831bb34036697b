import Rubato.Text.Quoted

namespace Rubato.Markup

/-! What can be wrong with a markup text, by cause, and the wording of each. -/

/-- Markup whose end is missing or whose beginning is not what it should be. -/
inductive Construct
  | declaration
  | characterData
  | comment
  | doctype
  | instruction
  | tag
  deriving DecidableEq, Repr

def Construct.name : Construct → String
  | .declaration => "Bang"
  | .characterData => "CData"
  | .comment => "Comment"
  | .doctype => "DOCTYPE"
  | .instruction => "XmlDecl"
  | .tag => "Element"

/-- Places are byte offsets in the text that holds the reference. -/
inductive ReferenceFault
  | unterminated (start length : Nat)
  | unknown (start stop : Nat) (name : String)
  | longDecimal
  | longHexadecimal
  | notDecimal (symbol : Char)
  | notHexadecimal (symbol : Char)
  | null (start stop : Nat)
  | notScalar (code : Nat)
  deriving DecidableEq, Repr

/-- Places are byte offsets in the tag. -/
inductive AttributeFault
  | missingEquals (place : Nat)
  | duplicated (place previous : Nat)
  | missingValue (place : Nat)
  | unquoted (place : Nat)
  | unclosedQuote (place : Nat) (quote : Char)
  deriving DecidableEq, Repr

inductive Fault
  | incomplete (construct : Construct)
  | unknownDeclaration (symbol : Char)
  | emptyDoctype
  | mismatched (opened closed : String)
  | badAttribute (fault : AttributeFault)
  | badReference (fault : ReferenceFault)
  | strayClose (name : String)
  | secondRoot (name : String)
  | unclosed (name : String)
  deriving DecidableEq, Repr

def ReferenceFault.message : ReferenceFault → String
  | .unterminated start length =>
    s!"Error while escaping character at range {start}..{length}: Cannot find ';' after '&'"
  | .unknown start stop name =>
    s!"Error while escaping character at range {start}..{stop}: " ++
      s!"Unrecognized escape symbol: {Text.quoted name}"
  | .longDecimal => "Cannot convert decimal to utf8"
  | .longHexadecimal => "Cannot convert hexadecimal to utf8"
  | .notDecimal symbol => s!"'{symbol}' is not a valid decimal character"
  | .notHexadecimal symbol => s!"'{symbol}' is not a valid hexadecimal character"
  | .null start stop =>
    s!"Error while escaping character at range {start}..{stop}: " ++
      "Null character entity not allowed"
  | .notScalar code => s!"'{code}' is not a valid codepoint"

def AttributeFault.message : AttributeFault → String
  | .missingEquals place =>
    s!"position {place}: attribute key must be directly followed by " ++ "`=` or space"
  | .duplicated place previous =>
    s!"position {place}: duplicated attribute, previous declaration at position {previous}"
  | .missingValue place =>
    s!"position {place}: " ++ "`=` must be followed by an attribute value"
  | .unquoted place =>
    s!"position {place}: attribute value must be enclosed in " ++ "`\"` or `'`"
  | .unclosedQuote place quote =>
    s!"position {place}: missing closing quote " ++ "`" ++ quote.toString ++
      "` in attribute value"

def Fault.message : Fault → String
  | .incomplete construct => s!"Unexpected EOF during reading {construct.name}"
  | .unknownDeclaration symbol =>
    "Only Comment (`--`), CDATA (`[CDATA[`) and DOCTYPE (`DOCTYPE`) nodes can start " ++
      "with a '!', but symbol `" ++ symbol.toString ++ "` found"
  | .emptyDoctype => "DOCTYPE declaration must not be empty"
  | .mismatched opened closed => s!"Expecting </{opened}> found </{closed}>"
  | .badAttribute fault => fault.message
  | .badReference fault => fault.message
  | .strayClose name => s!"unexpected closing tag </{name}>"
  | .secondRoot name => s!"second root element <{name}>"
  | .unclosed name => s!"unclosed element <{name}>"

end Rubato.Markup
