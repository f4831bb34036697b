import Rubato.Markup.Element
import Rubato.Proofs.Markup.Reader

namespace Rubato.Markup

inductive Element.Retimed (value : List Char) : Element → Element → Prop
  | mk (name : String) {attributes otherAttributes : List Attribute}
      {children otherChildren : List Element} (text : String)
      (hattributes : List.Forall₂ (Attribute.Retimed value) attributes otherAttributes)
      (hchildren : List.Forall₂ (Element.Retimed value) children otherChildren) :
      Retimed value ⟨name, attributes, children, text⟩ ⟨name, otherAttributes, otherChildren, text⟩

variable {value : List Char}

theorem Attribute.Retimed.refl (written : Attribute) : written.Retimed value written :=
  ⟨rfl, .inl rfl⟩

theorem Attribute.Retimed.refl_list (attributes : List Attribute) :
    List.Forall₂ (Attribute.Retimed value) attributes attributes :=
  List.forall₂_same.mpr fun written _ => .refl written

theorem rel_find? {β γ : Type} {R : β → γ → Prop} {p : β → Bool} {q : γ → Bool}
    (hpq : ∀ b c, R b c → p b = q c) {list : List β} {other : List γ}
    (h : List.Forall₂ R list other) : Option.Rel R (list.find? p) (other.find? q) := by
  induction h with
  | nil => exact .none
  | @cons b c _ _ hhead _ ih =>
      rw [List.find?_cons, List.find?_cons, ← hpq b c hhead]
      cases p b with
      | true => exact .some hhead
      | false => exact ih

theorem map_eq_of_rel {β γ δ : Type} {R : β → γ → Prop} {f : β → δ} {g : γ → δ}
    (hfg : ∀ b c, R b c → f b = g c) {found : Option β} {other : Option γ}
    (h : Option.Rel R found other) : found.map f = other.map g := by
  cases h with
  | none => rfl
  | some hrel => exact congrArg some (hfg _ _ hrel)

namespace Element.Retimed

variable {first second child other : Element}

theorem name_eq (h : first.Retimed value second) : second.name = first.name := by
  cases h
  rfl

theorem trimmedText_eq (h : first.Retimed value second) :
    second.trimmedText = first.trimmedText := by
  cases h
  rfl

theorem attributes (h : first.Retimed value second) :
    List.Forall₂ (Attribute.Retimed value) first.attributes second.attributes := by
  cases h
  assumption

theorem children (h : first.Retimed value second) :
    List.Forall₂ (Element.Retimed value) first.children second.children := by
  cases h
  assumption

theorem attr?_eq_or (h : first.Retimed value second) (name : String) :
    second.attr? name = first.attr? name ∨
      (∀ c ∈ name.toList.getLast?, endsTempo c = true) ∧ (first.attr? name).isSome ∧
        second.attr? name = some (String.ofList value) := by
  have hfound := rel_find? (p := fun entry => entry.name == name)
    (q := fun entry => entry.name == name)
    (fun _ _ hentry => by rw [hentry.name]) h.attributes
  have hname : ∀ entry ∈ first.attributes.find? fun entry => entry.name == name,
      entry.name = name := fun _ hentry => by simpa using List.find?_some hentry
  unfold attr?
  generalize (first.attributes.find? fun entry => entry.name == name) = found at hfound hname ⊢
  generalize (second.attributes.find? fun entry => entry.name == name) = found' at hfound ⊢
  cases hfound with
  | none => exact .inl rfl
  | some hentry =>
      rcases hentry.value with hvalue | ⟨htempo, hvalue⟩
      · exact .inl (congrArg some hvalue)
      · exact .inr ⟨hname _ rfl ▸ htempo, rfl, congrArg some hvalue⟩

theorem attr?_eq (h : first.Retimed value second) (name : String)
    (hname : name.toList.getLast?.all endsTempo = false) :
    second.attr? name = first.attr? name := by
  refine (h.attr?_eq_or name).resolve_right fun ⟨htempo, _⟩ => ?_
  cases hlast : name.toList.getLast? with
  | none =>
      rw [hlast] at hname
      cases hname
  | some c =>
      rw [hlast, Option.all_some, htempo c hlast] at hname
      cases hname

theorem childrenNamed (h : first.Retimed value second) (name : String) :
    List.Forall₂ (Element.Retimed value) (first.childrenNamed name) (second.childrenNamed name) :=
  List.rel_filter (fun _ _ hchild => by simp only [hchild.name_eq]) h.children

theorem addChild (h : first.Retimed value second) (hchild : child.Retimed value other) :
    (first.addChild child).Retimed value (second.addChild other) := by
  cases h with
  | mk name text hattributes hchildren =>
      exact .mk name text hattributes (List.rel_append hchildren (.cons hchild .nil))

theorem addText (h : first.Retimed value second) (text : String) :
    (first.addText text).Retimed value (second.addText text) := by
  cases h with
  | mk name own hattributes hchildren => exact .mk name (own ++ text) hattributes hchildren

end Element.Retimed

structure Builder.Retimed (value : List Char) (first second : Builder) : Prop where
  opened : List.Forall₂ (Element.Retimed value) first.opened second.opened
  root : Option.Rel (Element.Retimed value) first.root second.root

namespace Builder.Retimed

variable {first second next : Builder} {element other : Element}

theorem attach (h : first.Retimed value second) (helement : element.Retimed value other)
    (hnext : first.attach element = .ok next) :
    ∃ next', second.attach other = .ok next' ∧ next.Retimed value next' := by
  obtain ⟨opened, root⟩ := first
  obtain ⟨opened', root'⟩ := second
  obtain ⟨hopened, hroot⟩ := h
  unfold Builder.attach at hnext ⊢
  cases hopened with
  | nil =>
      cases hroot with
      | none =>
          cases hnext
          exact ⟨_, rfl, .nil, .some helement⟩
      | some _ => cases hnext
  | cons hparent houter =>
      cases hnext
      exact ⟨_, rfl, .cons (hparent.addChild helement) houter, hroot⟩

theorem add (h : first.Retimed value second) {event event' : Event}
    (hevent : event.Retimed value event') (hnext : first.add event = .ok next) :
    ∃ next', second.add event' = .ok next' ∧ next.Retimed value next' := by
  cases hevent with
  | start name hattributes =>
      cases hnext
      exact ⟨_, rfl, .cons (.mk name "" hattributes .nil) h.opened, h.root⟩
  | empty name hattributes => exact h.attach (.mk name "" hattributes .nil) hnext
  | same event =>
      cases event with
      | start name attributes =>
          cases hnext
          have hattributes : List.Forall₂ (Attribute.Retimed value) attributes attributes :=
            Attribute.Retimed.refl_list attributes
          exact ⟨_, rfl, .cons (.mk name "" hattributes .nil) h.opened, h.root⟩
      | empty name attributes =>
          exact h.attach (.mk name "" (Attribute.Retimed.refl_list attributes) .nil) hnext
      | close name =>
          obtain ⟨opened, root⟩ := first
          obtain ⟨opened', root'⟩ := second
          obtain ⟨hopened, hroot⟩ := h
          cases hopened with
          | nil => cases hnext
          | @cons element other outer outer' helement houter =>
              have hattach : (⟨outer, root⟩ : Builder).attach element = .ok next := hnext
              have houter : (⟨outer, root⟩ : Builder).Retimed value ⟨outer', root'⟩ :=
                ⟨houter, hroot⟩
              exact houter.attach helement hattach
      | text content =>
          obtain ⟨opened, root⟩ := first
          obtain ⟨opened', root'⟩ := second
          obtain ⟨hopened, hroot⟩ := h
          cases hopened with
          | nil =>
              cases hnext
              exact ⟨_, rfl, .nil, hroot⟩
          | cons helement houter =>
              cases hnext
              exact ⟨_, rfl, .cons (helement.addText content) houter, hroot⟩
      | aside =>
          cases hnext
          exact ⟨second, rfl, h⟩

theorem addAll {events others : List Located}
    (hevents : List.Forall₂ (fun one other => one.event.Retimed value other.event) events others)
    (h : first.Retimed value second) (hnext : events.foldlM Builder.addLocated first = .ok next) :
    ∃ next', others.foldlM Builder.addLocated second = .ok next' ∧ next.Retimed value next' := by
  induction hevents generalizing first second with
  | nil =>
      cases hnext
      exact ⟨second, rfl, h⟩
  | cons hevent _ ih =>
      rw [List.foldlM_cons] at hnext
      obtain ⟨built, hbuilt, hnext⟩ := bind_eq_ok_iff.mp hnext
      obtain ⟨built', hbuilt', hretimed⟩ := h.add hevent (mapError_eq_ok_iff.mp hbuilt)
      obtain ⟨next', hnext', hlast⟩ := ih hretimed hnext
      refine ⟨next', ?_, hlast⟩
      rw [List.foldlM_cons]
      exact bind_eq_ok_iff.mpr ⟨built', mapError_eq_ok_iff.mpr hbuilt', hnext'⟩

theorem finish (h : first.Retimed value second) {place : Nat} {root : Element}
    (hroot : first.finish place = .ok root) (place' : Nat) :
    ∃ root', second.finish place' = .ok root' ∧ root.Retimed value root' := by
  obtain ⟨opened, built⟩ := first
  obtain ⟨opened', built'⟩ := second
  obtain ⟨hopened, hbuilt⟩ := h
  unfold Builder.finish at hroot ⊢
  cases hopened with
  | cons _ _ => cases hroot
  | nil =>
      cases hbuilt with
      | none => cases hroot
      | some hretimed =>
          cases hroot
          exact ⟨_, rfl, hretimed⟩

end Builder.Retimed

/-- A text in which the values of tempo attributes are replaced is read like the text. -/
theorem readElement_replaced (hvalue : TempoAttribute.Plain value)
    {text : String} (htempos : temposInMarkup text = true) {root : Element}
    (hroot : readElement text = .ok root) :
    ∃ root', readElement (String.ofList (TempoAttribute.replaceAll value text.toList)) = .ok root' ∧
      root.Retimed value root' := by
  unfold readElement trace Trace.element at hroot ⊢
  rw [String.toList_ofList, TempoAttribute.replaceAll_eq]
  obtain ⟨builder, hbuilder, hroot⟩ := bind_eq_ok_iff.mp hroot
  split at hroot
  · next place hending =>
      obtain ⟨hevents, place', hending'⟩ := (Reader.Retimed.ofText value text.toList).trace hvalue
        htempos hending
      have hempty : Builder.empty.Retimed value Builder.empty := ⟨.nil, .none⟩
      obtain ⟨builder', hbuilder', hretimed⟩ := hempty.addAll hevents hbuilder
      obtain ⟨root', hroot', hlast⟩ := hretimed.finish hroot place'
      refine ⟨root', bind_eq_ok_iff.mpr ⟨builder', hbuilder', ?_⟩, hlast⟩
      rw [hending']
      exact hroot'
  · cases hroot

end Rubato.Markup
