import Rubato.Markup.Trace
import Rubato.Failure
import Rubato.Text.Blank

namespace Rubato.Markup

/-! The element tree of a text: one root, every element with its attributes and
children in document order and the character data that stands directly in it, run
after run. -/

structure Element where
  name : String
  attributes : List Attribute
  children : List Element
  text : String
  deriving Repr

namespace Element

def addChild (element child : Element) : Element :=
  { element with children := element.children ++ [child] }

def addText (element : Element) (text : String) : Element :=
  { element with text := element.text ++ text }

def attr? (element : Element) (name : String) : Option String :=
  (element.attributes.find? fun entry => entry.name == name).map (·.value)

def child? (element : Element) (name : String) : Option Element :=
  element.children.find? fun child => child.name == name

def childrenNamed (element : Element) (name : String) : List Element :=
  element.children.filter fun child => child.name == name

def hasChild (element : Element) (name : String) : Bool :=
  (element.child? name).isSome

def trimmedText (element : Element) : String :=
  Text.trimmed element.text

def childText? (element : Element) (name : String) : Option String :=
  (element.child? name).map trimmedText

end Element

/-- The tree under construction: the open elements, innermost first, with what has
been read of them, and the root once it is complete. -/
structure Builder where
  opened : List Element
  root : Option Element
  deriving Repr

namespace Builder

def empty : Builder := ⟨[], none⟩

def attach (builder : Builder) (element : Element) : Except Fault Builder :=
  match builder.opened with
  | parent :: outer => .ok { builder with opened := parent.addChild element :: outer }
  | [] =>
    match builder.root with
    | none => .ok { builder with root := some element }
    | some _ => .error (.secondRoot element.name)

def add (builder : Builder) : Event → Except Fault Builder
  | .start name attributes =>
    .ok { builder with opened := ⟨name, attributes, [], ""⟩ :: builder.opened }
  | .empty name attributes => builder.attach ⟨name, attributes, [], ""⟩
  | .close name =>
    match builder.opened with
    | element :: outer => attach { builder with opened := outer } element
    | [] => .error (.strayClose name)
  | .text content =>
    match builder.opened with
    | element :: outer => .ok { builder with opened := element.addText content :: outer }
    | [] => .ok builder
  | .aside => .ok builder

def addLocated (builder : Builder) (located : Located) : Except Failure Builder :=
  (builder.add located.event).mapError (.markup located.place)

def finish (builder : Builder) (place : Nat) : Except Failure Element :=
  match builder.opened with
  | element :: _ => .error (.markup place (.unclosed element.name))
  | [] =>
    match builder.root with
    | some root => .ok root
    | none => .error (.document .noRoot)

end Builder

def Trace.element (trace : Trace) : Except Failure Element := do
  let builder ← trace.events.foldlM Builder.addLocated Builder.empty
  match trace.ending with
  | .finished place => builder.finish place
  | .failed place fault => .error (.markup place fault)

def readElement (text : String) : Except Failure Element :=
  (trace text).element

end Rubato.Markup
