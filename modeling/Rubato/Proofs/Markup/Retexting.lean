import Rubato.Proofs.Markup.Building

namespace Rubato.Markup

/-! Events with another text in one place build the same elements, and the texts of one of
them differ by what has been put in place. -/

/-- A piece of the text that stands in one of the elements is another one. -/
inductive Element.Retexted (said other : String) : Element → Element → Prop
  | here (name : String) (attributes : List Attribute) (children : List Element)
      (before after : String) :
      Retexted said other ⟨name, attributes, children, before ++ said ++ after⟩
        ⟨name, attributes, children, before ++ other ++ after⟩
  | inside (name : String) (attributes : List Attribute) (before after : List Element)
      (text : String) {child child' : Element} (h : Retexted said other child child') :
      Retexted said other ⟨name, attributes, before ++ child :: after, text⟩
        ⟨name, attributes, before ++ child' :: after, text⟩

namespace Element.Retexted

variable {said other : String} {first second : Element}

theorem eq_iff (h : first.Retexted said other second) : second = first ↔ other = said := by
  induction h with
  | here => simp
  | inside => simpa

theorem addChild (h : first.Retexted said other second) (child : Element) :
    (first.addChild child).Retexted said other (second.addChild child) := by
  cases h with
  | here name attributes children before after =>
      exact .here name attributes (children ++ [child]) before after
  | inside name attributes before after text h =>
      simp only [Element.addChild, List.append_assoc, List.cons_append]
      exact .inside name attributes before (after ++ [child]) text h

theorem addText (h : first.Retexted said other second) (text : String) :
    (first.addText text).Retexted said other (second.addText text) := by
  cases h with
  | here name attributes children before after =>
      have hhere : Retexted said other _ _ :=
        .here name attributes children before (after ++ text)
      simpa only [Element.addText, String.append_assoc] using hhere
  | inside name attributes before after own h =>
      exact .inside name attributes before after (own ++ text) h

theorem of_addText (element : Element) (said other : String) :
    (element.addText said).Retexted said other (element.addText other) := by
  have hhere : Retexted said other _ _ :=
    .here element.name element.attributes element.children element.text ""
  rw [String.append_empty, String.append_empty] at hhere
  exact hhere

theorem of_child (h : first.Retexted said other second) (parent : Element) :
    (parent.addChild first).Retexted said other (parent.addChild second) :=
  .inside parent.name parent.attributes parent.children [] parent.text h

end Element.Retexted

namespace Builder

/-- The text is in an open element, or in the root. -/
inductive Retexted (said other : String) : Builder → Builder → Prop
  | opened (inner outer : List Element) (root : Option Element) {first second : Element}
      (h : first.Retexted said other second) :
      Retexted said other ⟨inner ++ first :: outer, root⟩ ⟨inner ++ second :: outer, root⟩
  | root (opened : List Element) {first second : Element}
      (h : first.Retexted said other second) :
      Retexted said other ⟨opened, some first⟩ ⟨opened, some second⟩

namespace Retexted

variable {said other : String} {one two next : Builder}

theorem attach (h : one.Retexted said other two) {element : Element}
    (hnext : one.attach element = .ok next) :
    ∃ next', two.attach element = .ok next' ∧ next.Retexted said other next' := by
  cases h with
  | opened inner outer root h =>
      cases inner with
      | nil =>
          cases hnext
          exact ⟨_, rfl, .opened [] outer root (h.addChild element)⟩
      | cons parent inner =>
          cases hnext
          exact ⟨_, rfl, .opened (parent.addChild element :: inner) outer root h⟩
  | root opened h =>
      cases opened with
      | nil => cases hnext
      | cons parent outer =>
          cases hnext
          exact ⟨_, rfl, .root (parent.addChild element :: outer) h⟩

theorem of_attach {first second : Element} (h : first.Retexted said other second)
    {builder : Builder} (hnext : builder.attach first = .ok next) :
    ∃ next', builder.attach second = .ok next' ∧ next.Retexted said other next' := by
  obtain ⟨opened, root⟩ := builder
  cases opened with
  | nil =>
      cases root with
      | none =>
          cases hnext
          exact ⟨_, rfl, .root [] h⟩
      | some _ => cases hnext
  | cons parent outer =>
      cases hnext
      exact ⟨_, rfl, .opened [] outer root (h.of_child parent)⟩

theorem add (h : one.Retexted said other two) {event : Event} (hnext : one.add event = .ok next) :
    ∃ next', two.add event = .ok next' ∧ next.Retexted said other next' := by
  cases event with
  | empty name attributes => exact h.attach hnext
  | aside =>
      cases hnext
      exact ⟨two, rfl, h⟩
  | start name attributes =>
      cases hnext
      cases h with
      | opened inner outer root h =>
          exact ⟨_, rfl, .opened (⟨name, attributes, [], ""⟩ :: inner) outer root h⟩
      | root opened h => exact ⟨_, rfl, .root (⟨name, attributes, [], ""⟩ :: opened) h⟩
  | close name =>
      cases h with
      | opened inner outer root h =>
          cases inner with
          | nil => exact of_attach h hnext
          | cons element inner =>
              have houter : Retexted said other ⟨inner ++ _ :: outer, root⟩ _ :=
                .opened inner outer root h
              exact houter.attach hnext
      | root opened h =>
          cases opened with
          | nil => cases hnext
          | cons element outer =>
              have houter : Retexted said other ⟨outer, some _⟩ _ := .root outer h
              exact houter.attach hnext
  | text content =>
      cases h with
      | opened inner outer root h =>
          cases inner with
          | nil =>
              cases hnext
              exact ⟨_, rfl, .opened [] outer root (h.addText content)⟩
          | cons element inner =>
              cases hnext
              exact ⟨_, rfl, .opened (element.addText content :: inner) outer root h⟩
      | root opened h =>
          cases opened with
          | nil =>
              cases hnext
              exact ⟨_, rfl, .root [] h⟩
          | cons element outer =>
              cases hnext
              exact ⟨_, rfl, .root (element.addText content :: outer) h⟩

theorem foldlM {events : List Event} (h : one.Retexted said other two)
    (hnext : events.foldlM Builder.add one = .ok next) :
    ∃ next', events.foldlM Builder.add two = .ok next' ∧ next.Retexted said other next' := by
  induction events generalizing one two with
  | nil =>
      cases hnext
      exact ⟨two, rfl, h⟩
  | cons event events ih =>
      rw [List.foldlM_cons] at hnext
      obtain ⟨added, hadded, hnext⟩ := bind_eq_ok_iff.mp hnext
      obtain ⟨added', hadded', hretexted⟩ := h.add hadded
      obtain ⟨next', hnext', hlast⟩ := ih hretexted hnext
      refine ⟨next', ?_, hlast⟩
      rw [List.foldlM_cons]
      exact bind_eq_ok_iff.mpr ⟨added', hadded', hnext'⟩

end Retexted

theorem foldlM_text {texts : List Event} {said : String} (h : Content texts [] said)
    (later : List Event) (parent : Element) (outer : List Element) (root : Option Element) :
    (texts ++ later).foldlM add ⟨parent :: outer, root⟩ =
      later.foldlM add ⟨parent.addText said :: outer, root⟩ := by
  rw [List.foldlM_append, h.adds, List.append_nil]
  rfl

theorem exists_root {later : List Event} {parent root : Element} {outer : List Element}
    {found : Option Element} {said : String}
    (h : later.foldlM add ⟨parent.addText said :: outer, found⟩ = .ok ⟨[], some root⟩)
    (other : String) :
    ∃ root', later.foldlM add ⟨parent.addText other :: outer, found⟩ = .ok ⟨[], some root'⟩ ∧
      (root' = root ↔ other = said) := by
  have hparent := Element.Retexted.of_addText parent said other
  obtain ⟨next, hnext, hretexted⟩ := (Retexted.opened [] outer found hparent).foldlM h
  generalize hlast : (⟨[], some root⟩ : Builder) = last at hretexted
  cases hretexted with
  | opened inner => simp at hlast
  | root opened hroot =>
      obtain ⟨rfl, rfl⟩ : opened = [] ∧ _ = root := by simpa using hlast.symm
      exact ⟨_, hnext, hroot.eq_iff⟩

theorem foldlM_addLocated_iff {events : List Located} {builder next : Builder} :
    events.foldlM addLocated builder = .ok next ↔
      (events.map (·.event)).foldlM add builder = .ok next := by
  refine ⟨fun h => ?_, foldlM_addLocated⟩
  induction events generalizing builder with
  | nil =>
      cases h
      rfl
  | cons located rest ih =>
      rw [List.foldlM_cons] at h
      obtain ⟨added, hadded, hnext⟩ := bind_eq_ok_iff.mp h
      rw [List.map_cons, List.foldlM_cons]
      exact bind_eq_ok_iff.mpr ⟨added, mapError_eq_ok_iff.mp hadded, ih hnext⟩

theorem reached_of_foldlM {events : List Event} {builder : Builder}
    (hcloses : ClosesInnermost events) (h : events.foldlM add empty = .ok builder) :
    Reached events builder := by
  induction events using List.reverseRecOn generalizing builder with
  | nil =>
      cases h
      have hempty : Content [] (none : Option Element).toList "" := .nil
      exact .outside hempty
  | append_singleton earlier last ih =>
      rw [List.foldlM_append] at h
      obtain ⟨built, hbuilt, hlast⟩ := bind_eq_ok_iff.mp h
      rw [List.foldlM_cons] at hlast
      obtain ⟨added, hadded, hadded'⟩ := bind_eq_ok_iff.mp hlast
      cases hadded'
      have hclose : ∀ name, last = .close name → (openedBy earlier).head? = some name :=
        fun name hname => hcloses _ name [] (by rw [← hname])
      rcases (ih hcloses.before hbuilt).add hclose with
        ⟨next, hnext, hreached⟩ | ⟨_, _, _, hfault, -⟩
      · rw [hadded] at hnext
        cases hnext
        exact hreached
      · rw [hadded] at hfault
        cases hfault

end Builder

namespace Trace

variable {trace : Trace} {place : Nat} {root : Element}

theorem element_eq_ok_iff (hending : trace.ending = .finished place) :
    trace.element = .ok root ↔
      trace.content.foldlM Builder.add Builder.empty = .ok ⟨[], some root⟩ := by
  rw [element_eq hending, bind_eq_ok_iff]
  constructor
  · rintro ⟨⟨opened, built⟩, hbuilt, hfinish⟩
    unfold Builder.finish at hfinish
    cases opened with
    | cons _ _ => cases hfinish
    | nil =>
        cases built with
        | none => cases hfinish
        | some _ =>
            cases hfinish
            exact Builder.foldlM_addLocated_iff.mp hbuilt
  · exact fun h => ⟨_, Builder.foldlM_addLocated h, rfl⟩

theorem finished_of_element (h : trace.element = .ok root) :
    ∃ place, trace.ending = .finished place := by
  obtain ⟨_, -, hfinish⟩ := bind_eq_ok_iff.mp h
  split at hfinish
  · next place hending => exact ⟨place, hending⟩
  · cases hfinish

end Trace

theorem readElement_eq_ok_iff {chars : List Char} {place : Nat}
    (hending : (Reader.ofText chars).trace.ending = .finished place) {root : Element} :
    readElement (String.ofList chars) = .ok root ↔
      (Reader.ofText chars).trace.content.foldlM Builder.add Builder.empty =
        .ok ⟨[], some root⟩ := by
  unfold readElement trace
  rw [String.toList_ofList]
  exact Trace.element_eq_ok_iff hending

end Rubato.Markup
