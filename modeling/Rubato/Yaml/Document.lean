import Rubato.Yaml.Basic
import Rubato.Yaml.Token

namespace Rubato.Yaml

/-! Documents. A text holds at most one, whose value is read from its tokens. -/

/-- Whether a token begins a value. In a block mapping that may be the first item of a
sequence which is not indented further. -/
def Token.beginsValue (unindented : Bool) : Token → Bool
  | .blockSequence => true
  | .blockMapping => true
  | .openSequence => true
  | .openMapping => true
  | .scalar _ _ => true
  | .item => unindented
  | _ => false

def beginsValue (unindented : Bool) (tokens : List Token) : Bool :=
  tokens.head?.any (·.beginsValue unindented)

/-! The first argument bounds the steps of the reading. A value may be left out at
most places, so the readers of collections look whether one begins. -/

mutual

def value? : Nat → (unindented : Bool) → List Token → Option (Yaml × List Token)
  | 0, _, _ => none
  | steps + 1, unindented, tokens =>
    match tokens with
    | .scalar plain text :: rest => some (.scalar plain text, rest)
    | .openSequence :: rest => flowItems? steps [] rest
    | .openMapping :: rest => flowEntries? steps [] rest
    | .blockSequence :: rest => blockItems? steps [] rest
    | .blockMapping :: rest => blockEntries? steps [] rest
    | .item :: _ => if unindented then unindentedItems? steps [] tokens else none
    | _ => none

def optionalValue? : Nat → (unindented : Bool) → List Token → Option (Yaml × List Token)
  | 0, _, _ => none
  | steps + 1, unindented, tokens =>
    if beginsValue unindented tokens then value? steps unindented tokens
    else some (absent, tokens)

def blockItems? : Nat → List Yaml → List Token → Option (Yaml × List Token)
  | 0, _, _ => none
  | steps + 1, earlier, tokens =>
    match tokens with
    | .item :: rest => do
      let (item, after) ← optionalValue? steps false rest
      blockItems? steps (item :: earlier) after
    | .blockEnd :: rest => some (.sequence earlier.reverse, rest)
    | _ => none

/-- The items of a sequence that stands as far to the left as the key before it. It
ends with its last item. -/
def unindentedItems? : Nat → List Yaml → List Token → Option (Yaml × List Token)
  | 0, _, _ => none
  | steps + 1, earlier, tokens =>
    match tokens with
    | .item :: rest => do
      let (item, after) ← optionalValue? steps false rest
      unindentedItems? steps (item :: earlier) after
    | _ => some (.sequence earlier.reverse, tokens)

def blockEntries? : Nat → List (Yaml × Yaml) → List Token → Option (Yaml × List Token)
  | 0, _, _ => none
  | steps + 1, earlier, tokens =>
    match tokens with
    | .blockEnd :: rest => some (.mapping earlier.reverse, rest)
    | .key :: rest => do
      let (key, afterKey) ← optionalValue? steps true rest
      let (value, after) ← entryValue? steps true afterKey
      blockEntries? steps ((key, value) :: earlier) after
    | _ => none

def entryValue? : Nat → (unindented : Bool) → List Token → Option (Yaml × List Token)
  | 0, _, _ => none
  | steps + 1, unindented, tokens =>
    match tokens with
    | .value :: rest => optionalValue? steps unindented rest
    | _ => some (absent, tokens)

/-- The items of a sequence in brackets; one with a key is a mapping of one entry. If
the key is left out, the mark that follows belongs to its place. -/
def flowItems? : Nat → List Yaml → List Token → Option (Yaml × List Token)
  | 0, _, _ => none
  | steps + 1, earlier, tokens =>
    match tokens with
    | .closeSequence :: rest => some (.sequence earlier.reverse, rest)
    | _ => do
      let (item, after) ←
        match tokens with
        | .key :: rest => do
          let (key, afterKey) ←
            match rest with
            | .value :: after => some (absent, after)
            | .separator :: after => some (absent, after)
            | .closeSequence :: after => some (absent, after)
            | _ => value? steps false rest
          let (value, after) ← entryValue? steps false afterKey
          some (.mapping [(key, value)], after)
        | _ => value? steps false tokens
      match after with
      | .separator :: rest => flowItems? steps (item :: earlier) rest
      | .closeSequence :: _ => flowItems? steps (item :: earlier) after
      | _ => none

/-- The entries of a mapping in braces; a value without a colon behind it is a key. -/
def flowEntries? : Nat → List (Yaml × Yaml) → List Token → Option (Yaml × List Token)
  | 0, _, _ => none
  | steps + 1, earlier, tokens =>
    match tokens with
    | .closeMapping :: rest => some (.mapping earlier.reverse, rest)
    | _ => do
      let (entry, after) ←
        match tokens with
        | .key :: rest => do
          let (key, afterKey) ← optionalValue? steps false rest
          let (value, after) ← entryValue? steps false afterKey
          some ((key, value), after)
        | _ => (value? steps false tokens).map fun (key, after) => ((key, absent), after)
      match after with
      | .separator :: rest => flowEntries? steps (entry :: earlier) rest
      | .closeMapping :: _ => flowEntries? steps (entry :: earlier) after
      | _ => none

end

def Token.directive? : Token → Option Directive
  | .directive found => some found
  | _ => none

/-- The value of the document that some tokens begin with. It has no need of a marker
before it, unless directives are there. -/
def document? (tokens : List Token) : Option (Yaml × List Token) :=
  let steps := 4 * (tokens.length + 1)
  let leading := tokens.takeWhile fun token => token.directive?.isSome
  let directives := leading.filterMap Token.directive?
  let behind := tokens.drop leading.length
  if !areDirectives directives then none
  else
    match behind with
    | [] => if directives.isEmpty then some (absent, []) else none
    | .document :: [] => some (absent, [])
    | .document :: .documentEnd :: rest => some (absent, rest)
    | .document :: rest => value? steps false rest
    | _ => if directives.isEmpty then value? steps false behind else none

/-- The value of a text, behind which only end markers may follow. -/
def ofText? (text : String) : Option Yaml := do
  let characters := normalizeBreaks text.toList
  if !characters.all isAllowed then none
  let tokens ← Token.ofText? characters
  let (value, rest) ← document? tokens
  if rest.all (· == .documentEnd) then some value else none

end Rubato.Yaml
