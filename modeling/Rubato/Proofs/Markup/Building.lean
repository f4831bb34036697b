import Rubato.Proofs.Markup.Nesting
import Rubato.Proofs.Markup.Written

namespace Rubato.Markup

/-! The tree under construction has the complete elements at the top and, for every open
one, what stands in it so far. -/

theorem eq_of_toList_eq_concat {β : Type} {found : Option β} {front : List β} {last : β}
    (h : found.toList = front ++ [last]) : front = [] ∧ found = some last := by
  cases found with
  | none => simp at h
  | some b =>
      obtain ⟨hfront, hlast⟩ := List.append_inj' ((List.nil_append _).trans h) rfl
      exact ⟨hfront.symm, congrArg some (List.singleton_inj.mp hlast)⟩

namespace Builder

def Adds (events : List Event) (children : List Element) (text : String) : Prop :=
  ∀ (parent : Element) (outer : List Element) (root : Option Element),
    events.foldlM Builder.add ⟨parent :: outer, root⟩ =
      .ok ⟨⟨parent.name, parent.attributes, parent.children ++ children, parent.text ++ text⟩ ::
        outer, root⟩

theorem Adds.foldlM_element {inner : List Event} {own : List Element} {ownText : String}
    (h : Adds inner own ownText) (builder : Builder) (name : String)
    (attributes : List Attribute) :
    (Event.start name attributes :: (inner ++ [Event.close name])).foldlM Builder.add builder =
      builder.attach ⟨name, attributes, own, ownText⟩ := by
  have hinner := h ⟨name, attributes, [], ""⟩ builder.opened builder.root
  rw [List.nil_append, String.empty_append] at hinner
  calc (Event.start name attributes :: (inner ++ [Event.close name])).foldlM Builder.add builder
    _ = (inner ++ [Event.close name]).foldlM Builder.add
          ⟨⟨name, attributes, [], ""⟩ :: builder.opened, builder.root⟩ := rfl
    _ = builder.attach ⟨name, attributes, own, ownText⟩ >>= pure := by
        rw [List.foldlM_append, hinner]
        rfl
    _ = builder.attach ⟨name, attributes, own, ownText⟩ := bind_pure _

end Builder

namespace Content

variable {events inner : List Event} {children own : List Element} {text ownText : String}

theorem adds (h : Content events children text) : Builder.Adds events children text := by
  induction h with
  | nil =>
      intro parent outer root
      rw [List.append_nil, String.append_empty, List.foldlM_nil]
      cases parent
      rfl
  | text _ content ih =>
      intro parent outer root
      rw [List.foldlM_append, ih, ← String.append_assoc]
      rfl
  | aside _ ih =>
      intro parent outer root
      rw [List.foldlM_append, ih]
      rfl
  | empty _ name attributes ih =>
      intro parent outer root
      rw [List.foldlM_append, ih, ← List.append_assoc]
      rfl
  | element _ name attributes _ ih ihown =>
      intro parent outer root
      rw [List.foldlM_append, ih, ← List.append_assoc]
      exact ihown.foldlM_element _ name attributes

theorem foldlM_outside (root : Option Element) (h : Content events root.toList text) :
    events.foldlM Builder.add Builder.empty = .ok ⟨[], root⟩ := by
  generalize hroot : root.toList = children at h
  induction h generalizing root with
  | nil =>
      cases root with
      | none => rfl
      | some element => cases hroot
  | text _ content ih =>
      rw [List.foldlM_append, ih root hroot]
      rfl
  | aside _ ih =>
      rw [List.foldlM_append, ih root hroot]
      rfl
  | @empty _ before _ _ name attributes ih =>
      obtain ⟨rfl, rfl⟩ := eq_of_toList_eq_concat hroot
      rw [List.foldlM_append, ih none rfl]
      rfl
  | @element _ _ before own _ ownText _ name attributes hown ih _ =>
      obtain ⟨rfl, rfl⟩ := eq_of_toList_eq_concat hroot
      rw [List.foldlM_append, ih none rfl]
      exact hown.adds.foldlM_element _ name attributes

theorem secondRoot_of_completes {event : Event} {first second : Element}
    (h : Content (events ++ [event]) [first, second] text) (hevent : event.completes = true) :
    ∃ builder, events.foldlM Builder.add Builder.empty = .ok builder ∧
      builder.add event = .error (.secondRoot second.name) := by
  generalize hall : events ++ [event] = all at h
  generalize hroots : [first, second] = roots at h
  have hsplit : ∀ {front : List Element} {last : Element}, [first, second] = front ++ [last] →
      front = [first] ∧ last = second := by
    intro front last hfront
    obtain ⟨hfirst, hsecond⟩ :=
      List.append_inj' (show [first] ++ [second] = front ++ [last] from hfront) rfl
    exact ⟨hfirst.symm, (List.singleton_inj.mp hsecond).symm⟩
  cases h with
  | nil => cases hroots
  | text _ content =>
      obtain ⟨-, hlast⟩ := List.append_inj' hall rfl
      rw [List.singleton_inj.mp hlast] at hevent
      cases hevent
  | aside _ =>
      obtain ⟨-, hlast⟩ := List.append_inj' hall rfl
      rw [List.singleton_inj.mp hlast] at hevent
      cases hevent
  | empty hbefore name attributes =>
      obtain ⟨rfl, hlast⟩ := List.append_inj' hall rfl
      obtain ⟨rfl, rfl⟩ := hsplit hroots
      rw [List.singleton_inj.mp hlast]
      exact ⟨⟨[], some first⟩, hbefore.foldlM_outside (some first), rfl⟩
  | @element before inner _ own _ ownText hbefore name attributes hown =>
      obtain ⟨rfl, hlast⟩ := List.append_inj' (hall.trans (show _ =
        (before ++ .start name attributes :: inner) ++ [.close name] by simp)) rfl
      obtain ⟨rfl, rfl⟩ := hsplit hroots
      refine ⟨⟨[⟨name, attributes, own, ownText⟩], some first⟩, ?_, ?_⟩
      · rw [List.foldlM_append, hbefore.foldlM_outside (some first)]
        have hinner := hown.adds ⟨name, attributes, [], ""⟩ [] (some first)
        rw [List.nil_append, String.empty_append] at hinner
        exact hinner
      · rw [List.singleton_inj.mp hlast]
        rfl

end Content

/-- What some events have made of an empty tree: complete elements at the top, or what stands
before an open element and then in it. -/
inductive Builder.Reached : List Event → Builder → Prop
  | outside {events : List Event} {root : Option Element} {text : String}
      (h : Content events root.toList text) : Reached events ⟨[], root⟩
  | inside {events inner : List Event} {opened own : List Element} {root : Option Element}
      {text : String} (h : Reached events ⟨opened, root⟩) (name : String)
      (attributes : List Attribute) (hown : Content inner own text) :
      Reached (events ++ .start name attributes :: inner)
        ⟨⟨name, attributes, own, text⟩ :: opened, root⟩

namespace Builder.Reached

variable {events piece : List Event} {builder : Builder} {element : Element}

theorem openedBy_eq (h : Reached events builder) :
    openedBy events = builder.opened.map (·.name) := by
  induction h with
  | outside h => exact h.openedBy_eq
  | @inside before _ _ _ _ _ _ name attributes hown ih =>
      have hinner := hown.foldl_openedAfter (name :: openedBy before)
      unfold openedBy at ih hinner ⊢
      rw [List.foldl_append, List.foldl_cons]
      exact hinner.trans (congrArg (name :: ·) ih)

theorem attach (h : Reached events builder)
    (hpiece : ∀ {before : List Event} {children : List Element} {text : String},
      Content before children text → Content (before ++ piece) (children ++ [element]) text) :
    (∃ next, builder.attach element = .ok next ∧ Reached (events ++ piece) next) ∨
      ∃ first text, builder.attach element = .error (.secondRoot element.name) ∧
        Content (events ++ piece) [first, element] text := by
  cases h with
  | @outside _ root text hevents =>
      cases root with
      | none =>
          have hroot : Content (events ++ piece) (some element).toList text := hpiece hevents
          exact .inl ⟨_, rfl, .outside hroot⟩
      | some first => exact .inr ⟨first, text, rfl, hpiece hevents⟩
  | inside houter name attributes hown =>
      refine .inl ⟨_, rfl, ?_⟩
      rw [List.append_assoc]
      exact .inside houter name attributes (hpiece hown)

theorem text (h : Reached events builder) (content : String) :
    ∃ next, builder.add (.text content) = .ok next ∧
      Reached (events ++ [.text content]) next := by
  cases h with
  | outside hevents => exact ⟨_, rfl, .outside (hevents.text content)⟩
  | inside houter name attributes hown =>
      refine ⟨_, rfl, ?_⟩
      rw [List.append_assoc]
      exact .inside houter name attributes (hown.text content)

theorem aside (h : Reached events builder) : Reached (events ++ [.aside]) builder := by
  cases h with
  | outside hevents => exact .outside hevents.aside
  | inside houter name attributes hown =>
      rw [List.append_assoc]
      exact .inside houter name attributes hown.aside

theorem add (h : Reached events builder) {event : Event}
    (hclose : ∀ name, event = .close name → (openedBy events).head? = some name) :
    (∃ next, builder.add event = .ok next ∧ Reached (events ++ [event]) next) ∨
      ∃ first second text, builder.add event = .error (.secondRoot second.name) ∧
        event.completes = true ∧ Content (events ++ [event]) [first, second] text := by
  cases event with
  | start name attributes => exact .inl ⟨_, rfl, .inside h name attributes .nil⟩
  | text content => exact .inl (h.text content)
  | aside => exact .inl ⟨builder, rfl, h.aside⟩
  | empty name attributes =>
      rcases h.attach fun hbefore => hbefore.empty name attributes with hnext | hsecond
      · exact .inl hnext
      · obtain ⟨first, text, hfault, hcontent⟩ := hsecond
        exact .inr ⟨first, _, text, hfault, rfl, hcontent⟩
  | close name =>
      have hopen := hclose name rfl
      rw [h.openedBy_eq] at hopen
      cases h with
      | outside _ => cases hopen
      | @inside before inner _ own _ ownText houter name' attributes hown =>
          obtain rfl : name' = name := Option.some.inj hopen
          have hlist : (before ++ .start name' attributes :: inner) ++ [.close name'] =
              before ++ .start name' attributes :: (inner ++ [.close name']) := by simp
          rw [hlist]
          rcases houter.attach fun hbefore => hbefore.element name' attributes hown with
            hnext | hsecond
          · exact .inl hnext
          · obtain ⟨first, text, hfault, hcontent⟩ := hsecond
            exact .inr ⟨first, _, text, hfault, rfl, hcontent⟩

end Builder.Reached

/-- At a place a second element is complete at the top. -/
def CompletesSecond (events : List Located) (place : Nat) (second : Element) : Prop :=
  ∃ (earlier : List Located) (last : Located) (later : List Located) (first : Element)
    (text : String), events = earlier ++ last :: later ∧ last.place = place ∧
      last.event.completes = true ∧
        Content ((earlier ++ [last]).map (·.event)) [first, second] text

namespace Builder

theorem foldlM_addLocated {events : List Located} {builder next : Builder}
    (h : (events.map (·.event)).foldlM Builder.add builder = .ok next) :
    events.foldlM addLocated builder = .ok next := by
  induction events generalizing builder with
  | nil =>
      rw [List.map_nil, List.foldlM_nil] at h
      cases h
      rfl
  | cons located rest ih =>
      rw [List.map_cons, List.foldlM_cons] at h
      obtain ⟨added, hadded, hnext⟩ := bind_eq_ok_iff.mp h
      rw [List.foldlM_cons]
      exact bind_eq_ok_iff.mpr ⟨added, mapError_eq_ok_iff.mpr hadded, ih hnext⟩

theorem foldlM_cases {events : List Located}
    (hcloses : ClosesInnermost (events.map (·.event))) :
    (∃ next, events.foldlM addLocated empty = .ok next ∧
        Reached (events.map (·.event)) next) ∨
      ∃ place second, events.foldlM addLocated empty =
          .error (.markup place (.secondRoot second.name)) ∧
        CompletesSecond events place second := by
  induction events using List.reverseRecOn with
  | nil =>
      have hempty : Content [] (none : Option Element).toList "" := .nil
      exact .inl ⟨empty, rfl, .outside hempty⟩
  | append_singleton earlier last ih =>
      rw [List.map_append] at hcloses
      rw [List.foldlM_append]
      rcases ih hcloses.before with ⟨next, hnext, hreached⟩ | ⟨place, second, hfault, hsecond⟩
      · rw [hnext, List.map_append]
        have hclose : ∀ name, last.event = .close name →
            (openedBy (earlier.map (·.event))).head? = some name :=
          fun name hname => hcloses _ name [] (by rw [← hname]; rfl)
        rcases hreached.add hclose with
          ⟨added, hadded, hreached'⟩ | ⟨first, second, text, hfault, hcompletes, hcontent⟩
        · refine .inl ⟨added, ?_, hreached'⟩
          have hlast : ([last].map (·.event)).foldlM Builder.add next = .ok added := by
            rw [List.map_singleton, List.foldlM_cons, hadded]
            rfl
          exact foldlM_addLocated hlast
        · refine .inr ⟨last.place, second, ?_, earlier, last, [], first, text, rfl, rfl,
            hcompletes, ?_⟩
          · show ([last] : List Located).foldlM addLocated next = _
            rw [List.foldlM_cons, addLocated, hfault]
            rfl
          · rwa [List.map_append]
      · rw [hfault]
        obtain ⟨before, middle, later, first, text, rfl, hmiddle⟩ := hsecond
        refine .inr ⟨place, second, rfl, before, middle, later ++ [last], first, text, ?_, hmiddle⟩
        rw [List.append_assoc]
        rfl

end Builder

theorem CompletesSecond.foldlM_eq {events : List Located} {place : Nat} {second : Element}
    (h : CompletesSecond events place second) :
    events.foldlM Builder.addLocated Builder.empty =
      .error (.markup place (.secondRoot second.name)) := by
  obtain ⟨earlier, last, later, first, text, rfl, rfl, hcompletes, hcontent⟩ := h
  rw [List.map_append] at hcontent
  obtain ⟨builder, hearlier, hfault⟩ := hcontent.secondRoot_of_completes hcompletes
  rw [List.foldlM_append, Builder.foldlM_addLocated hearlier]
  show (last :: later).foldlM Builder.addLocated builder = _
  rw [List.foldlM_cons, Builder.addLocated, hfault]
  rfl

namespace Trace

variable {trace : Trace} {place : Nat}

theorem element_eq (hending : trace.ending = .finished place) :
    trace.element =
      trace.events.foldlM Builder.addLocated Builder.empty >>= fun builder =>
        builder.finish place := by
  simp only [Trace.element, hending]

theorem element_of_foldlM (hending : trace.ending = .finished place) {builder : Builder}
    (h : trace.events.foldlM Builder.addLocated Builder.empty = .ok builder) :
    trace.element = builder.finish place := by
  rw [element_eq hending, h]
  rfl

theorem element_of_root (hending : trace.ending = .finished place) {root : Element}
    {text : String} (h : Content trace.content [root] text) : trace.element = .ok root :=
  element_of_foldlM hending
    (Builder.foldlM_addLocated (h.foldlM_outside (some root)))

theorem element_of_noRoot (hending : trace.ending = .finished place) {text : String}
    (h : Content trace.content [] text) : trace.element = .error (.document .noRoot) :=
  element_of_foldlM hending
    (Builder.foldlM_addLocated (h.foldlM_outside none))

theorem element_of_secondRoot (hending : trace.ending = .finished place) {stop : Nat}
    {second : Element} (h : CompletesSecond trace.events stop second) :
    trace.element = .error (.markup stop (.secondRoot second.name)) := by
  rw [element_eq hending, h.foldlM_eq]
  rfl

theorem element_cases (hcloses : ClosesInnermost trace.content)
    (hending : trace.ending = .finished place) :
    (∃ root text, trace.element = .ok root ∧ Content trace.content [root] text) ∨
      (∃ text, trace.element = .error (.document .noRoot) ∧ Content trace.content [] text) ∨
      (∃ name, trace.element = .error (.markup place (.unclosed name)) ∧
        (openedBy trace.content).head? = some name) ∨
      ∃ stop second, trace.element = .error (.markup stop (.secondRoot second.name)) ∧
        CompletesSecond trace.events stop second := by
  rcases Builder.foldlM_cases hcloses with ⟨builder, hbuilder, hreached⟩ | ⟨stop, second, -, h⟩
  · rw [element_of_foldlM hending hbuilder]
    have hopened : openedBy trace.content = builder.opened.map (·.name) := hreached.openedBy_eq
    have hreached : Builder.Reached trace.content builder := hreached
    rw [hopened]
    generalize trace.content = events at hreached ⊢
    cases hreached with
    | @outside _ root text hcontent =>
        cases root with
        | none => exact .inr (.inl ⟨text, rfl, hcontent⟩)
        | some root => exact .inl ⟨root, text, rfl, hcontent⟩
    | inside _ name _ _ => exact .inr (.inr (.inl ⟨name, rfl, rfl⟩))
  · exact .inr (.inr (.inr ⟨stop, second, element_of_secondRoot hending h, h⟩))

/-- A tree is built of one element that is complete at the end, with what stands in it. A
second element at the top is at fault where it is complete, an open one at the end, and
nothing but text is no document. A closing tag is never at fault: what reads the events
lets none pass that does not close the innermost open element. -/
theorem element_of_closesInnermost (hcloses : ClosesInnermost trace.content)
    (hending : trace.ending = .finished place) :
    (∀ root, trace.element = .ok root ↔ ∃ text, Content trace.content [root] text) ∧
      (∀ stop name, trace.element = .error (.markup stop (.secondRoot name)) ↔
        ∃ second, second.name = name ∧ CompletesSecond trace.events stop second) ∧
      (∀ name, (openedBy trace.content).head? = some name →
        trace.element = .error (.markup place (.unclosed name)) ∨
          ∃ stop second, trace.element = .error (.markup stop (.secondRoot second))) ∧
      (trace.element = .error (.document .noRoot) ↔
        ∀ event ∈ trace.content, event.begins = false) ∧
      ∀ stop name, trace.element ≠ .error (.markup stop (.strayClose name)) := by
  have hcases := element_cases hcloses hending
  refine ⟨fun root => ⟨fun h => ?_, fun ⟨_, h⟩ => element_of_root hending h⟩,
    fun stop name => ⟨fun h => ?_, ?_⟩, fun name hname => ?_,
    ⟨fun h => ?_, fun h => ?_⟩, fun stop name h => ?_⟩
  · rw [h] at hcases
    simpa using hcases
  · rw [h] at hcases
    obtain ⟨second, hname, hsecond⟩ := by simpa using hcases
    exact ⟨second, hname.symm, hsecond⟩
  · rintro ⟨second, rfl, hsecond⟩
    exact element_of_secondRoot hending hsecond
  · rcases hcases with ⟨_, _, _, hcontent⟩ | ⟨_, _, hcontent⟩ | ⟨_, hfault, hopen⟩ |
      ⟨stop, second, hfault, _⟩
    · rw [hcontent.openedBy_eq] at hname
      cases hname
    · rw [hcontent.openedBy_eq] at hname
      cases hname
    · obtain rfl := Option.some.inj (hopen.symm.trans hname)
      exact .inl hfault
    · exact .inr ⟨stop, second.name, hfault⟩
  · rw [h] at hcases
    obtain ⟨text, hcontent⟩ := by simpa using hcases
    exact (Content.nil_iff hcloses).mp ⟨text, hcontent⟩
  · obtain ⟨text, hcontent⟩ := (Content.nil_iff hcloses).mpr h
    exact element_of_noRoot hending hcontent
  · rw [h] at hcases
    simp at hcases

/-- The events of `<a>b<c/>d</a>`. -/
def nested : Trace where
  events := [⟨0, .start "a" []⟩, ⟨3, .text "b"⟩, ⟨4, .empty "c" []⟩, ⟨8, .text "d"⟩,
    ⟨9, .close "a"⟩]
  ending := .finished 13

theorem nested_eq :
    Markup.trace (String.ofList "<a>b<c/>d</a>".toList) = nested := by
  unfold Markup.trace
  rw [String.toList_ofList]
  decide +kernel

theorem element_of_closesInnermost_nested :
    ClosesInnermost nested.content ∧ nested.ending = .finished 13 ∧
      nested.element = .ok ⟨"a", [], [⟨"c", [], [], ""⟩], "bd"⟩ := by
  have hcloses : ClosesInnermost nested.content :=
    nested_eq ▸ closesInnermost_trace _
  have hcontent : Content nested.content [⟨"a", [], [⟨"c", [], [], ""⟩], "bd"⟩] "" :=
    Content.nil.element "a" [] (((Content.nil.text "b").empty "c" []).text "d")
  exact ⟨hcloses, rfl,
    ((element_of_closesInnermost hcloses rfl).1 _).mpr ⟨"", hcontent⟩⟩

end Trace

end Rubato.Markup
