import Mathlib.Data.List.Induction
import Rubato.Markup.Element

namespace Rubato.Markup

/-- The events of what stands in an element: its children in order and its text, run after
run. A child is opened and closed, with what stands in it between. -/
inductive Content : List Event → List Element → String → Prop
  | nil : Content [] [] ""
  | text {events : List Event} {children : List Element} {text : String}
      (h : Content events children text) (content : String) :
      Content (events ++ [.text content]) children (text ++ content)
  | aside {events : List Event} {children : List Element} {text : String}
      (h : Content events children text) : Content (events ++ [.aside]) children text
  | empty {events : List Event} {children : List Element} {text : String}
      (h : Content events children text) (name : String) (attributes : List Attribute) :
      Content (events ++ [.empty name attributes]) (children ++ [⟨name, attributes, [], ""⟩]) text
  | element {events inner : List Event} {children own : List Element} {text ownText : String}
      (h : Content events children text) (name : String) (attributes : List Attribute)
      (hown : Content inner own ownText) :
      Content (events ++ .start name attributes :: (inner ++ [.close name]))
        (children ++ [⟨name, attributes, own, ownText⟩]) text

namespace Event

def openedAfter (opened : List String) : Event → List String
  | .start name _ => name :: opened
  | .close _ => opened.tail
  | _ => opened

def begins : Event → Bool
  | .start .. => true
  | .empty .. => true
  | _ => false

def completes : Event → Bool
  | .close _ => true
  | .empty .. => true
  | _ => false

end Event

def openedBy (events : List Event) : List String :=
  events.foldl Event.openedAfter []

/-- A closing tag has the name of the innermost open element. -/
def ClosesInnermost (events : List Event) : Prop :=
  ∀ before name after, events = before ++ .close name :: after →
    (openedBy before).head? = some name

def Trace.content (trace : Trace) : List Event :=
  trace.events.map (·.event)

theorem ClosesInnermost.before {events later : List Event}
    (h : ClosesInnermost (events ++ later)) : ClosesInnermost events := by
  intro before name after hevents
  refine h before name (after ++ later) ?_
  rw [hevents, List.append_assoc]
  rfl

theorem openedBy_append_singleton (events : List Event) (event : Event) :
    openedBy (events ++ [event]) = event.openedAfter (openedBy events) := by
  unfold openedBy
  rw [List.foldl_append]
  rfl

namespace Content

variable {events inner : List Event} {children own : List Element} {text ownText : String}

theorem append (h : Content events children text) (hinner : Content inner own ownText) :
    Content (events ++ inner) (children ++ own) (text ++ ownText) := by
  induction hinner with
  | nil => simpa using h
  | text _ content ih =>
      rw [← List.append_assoc, ← String.append_assoc]
      exact ih.text content
  | aside _ ih =>
      rw [← List.append_assoc]
      exact ih.aside
  | empty _ name attributes ih =>
      rw [← List.append_assoc, ← List.append_assoc]
      exact ih.empty name attributes
  | element _ name attributes hown ih _ =>
      rw [← List.append_assoc, ← List.append_assoc]
      exact ih.element name attributes hown

theorem foldl_openedAfter (h : Content events children text) (opened : List String) :
    events.foldl Event.openedAfter opened = opened := by
  induction h generalizing opened with
  | nil => rfl
  | text _ content ih => rw [List.foldl_append, ih]; rfl
  | aside _ ih => rw [List.foldl_append, ih]; rfl
  | empty _ name attributes ih => rw [List.foldl_append, ih]; rfl
  | element _ name attributes _ ih ihown =>
      rw [List.foldl_append, ih, List.foldl_cons, List.foldl_append, ihown]
      rfl

theorem openedBy_eq (h : Content events children text) : openedBy events = [] :=
  h.foldl_openedAfter []

theorem begins_of_nil (h : Content events [] text) : ∀ event ∈ events, event.begins = false := by
  generalize hchildren : ([] : List Element) = children at h
  induction h with
  | nil => simp
  | text _ content ih =>
      intro event hevent
      rcases List.mem_append.mp hevent with hbefore | hlast
      · exact ih hchildren event hbefore
      · rw [List.mem_singleton.mp hlast]
        rfl
  | aside _ ih =>
      intro event hevent
      rcases List.mem_append.mp hevent with hbefore | hlast
      · exact ih hchildren event hbefore
      · rw [List.mem_singleton.mp hlast]
        rfl
  | empty => simp at hchildren
  | element => simp at hchildren

theorem nil_iff (hcloses : ClosesInnermost events) :
    (∃ text, Content events [] text) ↔ ∀ event ∈ events, event.begins = false := by
  constructor
  · rintro ⟨text, h⟩
    exact h.begins_of_nil
  · induction events using List.reverseRecOn with
    | nil => exact fun _ => ⟨"", .nil⟩
    | append_singleton events event ih =>
        intro hbegins
        obtain ⟨text, h⟩ := ih hcloses.before fun other hother =>
          hbegins other (List.mem_append_left _ hother)
        have hevent := hbegins event (by simp)
        cases event with
        | start name attributes => cases hevent
        | empty name attributes => cases hevent
        | text content => exact ⟨_, h.text content⟩
        | aside => exact ⟨_, h.aside⟩
        | close name =>
            have hopen := hcloses events name [] rfl
            rw [h.openedBy_eq] at hopen
            cases hopen

end Content

/-- A closing tag is that of the innermost open element, and the names of the open elements
are kept. -/
def Step.Nests (opened : List (List Char)) : Step → Prop
  | .event _ found next =>
    (∀ name, found = .close name → (opened.map localString).head? = some name) ∧
      next.opened.map localString = found.openedAfter (opened.map localString)
  | _ => True

section Reader

variable (place offset : Nat) (opened : List (List Char)) (text : List Char)

theorem nests_readClose : (readClose place offset opened text).Nests opened := by
  unfold readClose
  dsimp only
  split
  · trivial
  · split
    · next hname =>
        refine ⟨fun name hclose => ?_, rfl⟩
        cases hclose
        rw [hname]
        rfl
    · trivial

theorem nests_readInstruction : (readInstruction place offset opened text).Nests opened := by
  unfold readInstruction
  dsimp only
  split
  · exact ⟨nofun, rfl⟩
  · trivial

theorem nests_readTag : (readTag place offset opened text).Nests opened := by
  unfold readTag
  split
  · trivial
  · dsimp only
    split
    · trivial
    · split <;> exact ⟨nofun, rfl⟩

theorem nests_readCharacterData :
    (readCharacterData place offset opened text).Nests opened := by
  unfold readCharacterData
  split
  · trivial
  · dsimp only
    split
    · exact ⟨nofun, rfl⟩
    · trivial

theorem nests_readComment : (readComment place offset opened text).Nests opened := by
  unfold readComment
  split
  · trivial
  · dsimp only
    split
    · exact ⟨nofun, rfl⟩
    · trivial

theorem nests_readDoctype : (readDoctype place offset opened text).Nests opened := by
  unfold readDoctype
  split
  · trivial
  · dsimp only
    split
    · split
      · trivial
      · exact ⟨nofun, rfl⟩
    · trivial

theorem nests_readDeclaration : (readDeclaration place offset opened text).Nests opened := by
  unfold readDeclaration
  split
  · trivial
  split
  · exact nests_readCharacterData ..
  split
  · exact nests_readComment ..
  split
  · exact nests_readDoctype ..
  · trivial

theorem nests_readMarkup : (readMarkup place offset opened text).Nests opened := by
  unfold readMarkup
  split
  · trivial
  · exact nests_readClose ..
  · exact nests_readInstruction ..
  · exact nests_readDeclaration ..
  · exact nests_readTag ..

theorem nests_readText : (readText place offset opened text).Nests opened := by
  unfold readText
  dsimp only
  split
  · trivial
  · exact ⟨nofun, rfl⟩

end Reader

theorem Reader.nests_next (reader : Reader) : reader.next.Nests reader.opened := by
  unfold Reader.next
  split
  · exact nests_readMarkup ..
  · dsimp only
    split
    · trivial
    · exact nests_readMarkup ..
    · exact nests_readText ..

theorem ClosesInnermost.concat {events : List Event} {event : Event}
    (h : ClosesInnermost events)
    (hevent : ∀ name, event = .close name → (openedBy events).head? = some name) :
    ClosesInnermost (events ++ [event]) := by
  intro before name after hevents
  rcases List.eq_nil_or_concat after with rfl | ⟨later, last, rfl⟩
  · obtain ⟨rfl, hlast⟩ := List.append_inj' hevents rfl
    exact hevent name (List.singleton_inj.mp hlast)
  · rw [List.concat_eq_append, ← List.cons_append, ← List.append_assoc] at hevents
    exact h before name later (List.append_inj' hevents rfl).1

theorem Reader.closesInnermost_trace {reader : Reader} {earlier : List Event}
    (hearlier : ClosesInnermost earlier)
    (hopened : reader.opened.map localString = openedBy earlier) :
    ClosesInnermost (earlier ++ reader.trace.events.map (·.event)) := by
  generalize hlength : reader.rest.length = length
  induction length using Nat.strongRecOn generalizing reader earlier with
  | _ length ih =>
      have hnests := reader.nests_next
      cases hnext : reader.next with
      | finished place =>
          rw [trace_of_finished hnext]
          simpa using hearlier
      | failed place fault =>
          rw [trace_of_failed hnext]
          simpa using hearlier
      | event place event next =>
          rw [hnext] at hnests
          obtain ⟨hclose, hkept⟩ := hnests
          rw [hopened] at hclose hkept
          rw [trace_of_event hnext, List.map_cons, ← List.singleton_append, ← List.append_assoc]
          exact ih next.rest.length (hlength ▸ length_next hnext) (hearlier.concat hclose)
            (hkept.trans (openedBy_append_singleton earlier event).symm) rfl

@[simp] theorem Reader.opened_ofText (text : List Char) : (ofText text).opened = [] := by
  unfold ofText
  split <;> rfl

@[simp] theorem Reader.afterText_ofText (text : List Char) : (ofText text).afterText = false := by
  unfold ofText
  split <;> rfl

theorem closesInnermost_trace (text : String) : ClosesInnermost (trace text).content := by
  have hnil : ClosesInnermost [] := fun before name after h => by simp at h
  refine Reader.closesInnermost_trace hnil ?_
  rw [Reader.opened_ofText]
  rfl

end Rubato.Markup
