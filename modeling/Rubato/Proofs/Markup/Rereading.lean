import Rubato.Proofs.Markup.CharacterData

namespace Rubato.Markup

theorem head?_escaped {text : List Char} {c : Char} (h : c ∈ (escaped text).head?) :
    c = '&' ∨ c ∈ text.head? := by
  cases text with
  | nil => cases h
  | cons first rest =>
      rw [escaped, List.flatMap_cons] at h
      rcases escape_cases first with ⟨name, hescape, -⟩ | ⟨hescape, -⟩
      · rw [hescape] at h
        exact .inl (Option.some.inj h).symm
      · rw [hescape] at h
        exact .inr h

theorem getLast?_escaped {text : List Char} {c : Char} (h : c ∈ (escaped text).getLast?) :
    c = ';' ∨ c ∈ text.getLast? := by
  rcases List.eq_nil_or_concat text with rfl | ⟨front, last, rfl⟩
  · cases h
  · rw [List.concat_eq_append] at h ⊢
    rw [escaped, List.flatMap_append, List.flatMap_singleton] at h
    rcases escape_cases last with ⟨name, hescape, -⟩ | ⟨hescape, -⟩
    · rw [hescape, ← List.cons_append, ← List.append_assoc, List.getLast?_concat] at h
      exact .inl (Option.some.inj h).symm
    · rw [hescape, List.getLast?_concat] at h
      rw [List.getLast?_concat]
      exact .inr h

theorem isTrimmed_escaped {text : List Char} (h : isTrimmed text = true) :
    isTrimmed (escaped text) = true := by
  rw [isTrimmed, Bool.and_eq_true, Option.all_eq_true, Option.all_eq_true] at h ⊢
  refine ⟨fun c hc => ?_, fun c hc => ?_⟩
  · rcases head?_escaped hc with rfl | hhead
    · rfl
    · exact h.1 c hhead
  · rcases getLast?_escaped hc with rfl | hlast
    · rfl
    · exact h.2 c hlast

theorem Spelled.ofText {first : Element} {siblings : List Element} {text : List Char}
    (h : Spelled (first :: siblings) text) : Reader.ofText text = ⟨text, 0, false, []⟩ := by
  obtain ⟨space, rest, rfl, hspace⟩ := h.starts_of_cons
  cases space with
  | nil => rfl
  | cons c space =>
      have hmark : c ≠ byteOrderMark := by
        rintro rfl
        cases hspace _ List.mem_cons_self
      show (⟨if c = byteOrderMark then _ else _, 0, false, []⟩ : Reader) = _
      rw [if_neg hmark]

theorem Filler.says {filler : List Char} (h : Filler filler) :
    ∃ asides, Content asides [] "" ∧ ∀ {opened : List (List Char)} {rest : List Char}
      {later : List Event}, Tells opened rest later →
        Tells opened (filler ++ rest) (asides ++ later) := by
  induction h with
  | spaces hspace => exact ⟨[], .nil, fun hrest => hrest.of_spaces hspace⟩
  | comment hspace hcontent _ ih =>
      obtain ⟨asides, hasides, htells⟩ := ih
      refine ⟨.aside :: asides, Content.nil.aside.append hasides, fun hrest => ?_⟩
      simp only [List.append_assoc, List.cons_append]
      exact ((htells hrest).of_markup fun place offset =>
        readMarkup_commentText hcontent _ place offset _).of_spaces hspace
  | instruction hspace hne hcontent _ ih =>
      obtain ⟨asides, hasides, htells⟩ := ih
      refine ⟨.aside :: asides, Content.nil.aside.append hasides, fun hrest => ?_⟩
      simp only [List.append_assoc, List.cons_append]
      exact ((htells hrest).of_markup fun place offset =>
        readMarkup_instruction hne hcontent _ place offset _).of_spaces hspace

theorem says_text {own : String} (hown : isTrimmed own.toList = true)
    {opened : List (List Char)} {space markup : List Char} {later : List Event}
    (hspace : ∀ c ∈ space, isSpace c = true) (h : Tells opened (space ++ '<' :: markup) later) :
    Tells opened (escaped own.toList ++ (space ++ '<' :: markup))
      (dataEvents own.toList ++ later) := by
  have hdata : '<' ∉ escaped own.toList ++ space := by
    intro hmem
    rcases List.mem_append.mp hmem with hmem | hmem
    · exact not_mem_escaped ("lt".toList, '<') (by decide) (by decide) _ hmem
    · cases hspace _ hmem
  have hsaid : Resolves (trimSpace (escaped own.toList ++ space)) own.toList := by
    have hnone : ∀ c ∈ ([] : List Char), isSpace c = true := by simp
    have htrim : trimSpace (escaped own.toList ++ space) = escaped own.toList :=
      trimSpace_eq hnone hspace (isTrimmed_escaped hown)
    rw [htrim]
    exact resolve_eq_ok_iff.mp (resolve_escaped _)
  have hbehind : Tells opened ('<' :: markup) later := fun offset spaced hspaced =>
    h offset spaced (by rw [List.dropWhile_append_of_pos hspace]; exact hspaced)
  have htold := says_data hdata hsaid hbehind
  rwa [List.append_assoc] at htold

theorem Spelled.says {elements : List Element} {text : List Char} (h : Spelled elements text)
    (hwritable : ∀ element ∈ elements, element.Writable) :
    ∃ events, Content events elements "" ∧ ∀ {opened : List (List Char)} {rest : List Char}
      {later : List Event}, Tells opened rest later →
        Tells opened (text ++ rest) (events ++ later) := by
  induction h with
  | nil hfiller => exact hfiller.says
  | @empty _ _ _ name attributes _ _ hfiller hattributes htail _ ih =>
      obtain ⟨asides, hasides, hfill⟩ := hfiller.says
      obtain ⟨events, hevents, htells⟩ := ih fun element helement =>
        hwritable element (List.mem_cons_of_mem _ helement)
      obtain ⟨hname, hnames, hdistinct, -, -⟩ := hwritable _ List.mem_cons_self
      refine ⟨asides ++ [.empty name attributes] ++ events,
        (hasides.empty name attributes).append hevents, fun hrest => ?_⟩
      simp only [List.append_assoc, List.cons_append, List.nil_append]
      exact hfill ((htells hrest).of_markup fun place offset =>
        readMarkup_emptyTag hname hnames hdistinct hattributes htail _ place offset _)
  | @element _ _ _ inside stop text name own attributes _ children _ hfiller hattributes htail
      hbefore hinside hstop _ ihinside ih =>
      obtain ⟨asides, hasides, hfill⟩ := hfiller.says
      obtain ⟨fillers, hfillers, hfillBefore⟩ := hbefore.says
      obtain ⟨events, hevents, htells⟩ := ih fun element helement =>
        hwritable element (List.mem_cons_of_mem _ helement)
      obtain ⟨hname, hnames, hdistinct, hown, hchildren⟩ := hwritable _ List.mem_cons_self
      obtain ⟨inner, hinner, htellsInside⟩ := ihinside hchildren
      have htexts := content_dataEvents own.toList
      rw [String.ofList_toList] at htexts
      have hcontent : Content (fillers ++ dataEvents own.toList ++ inner) children own := by
        have hall := (hfillers.append htexts).append hinner
        rwa [String.empty_append, String.append_empty] at hall
      refine ⟨asides ++ .start name attributes :: (fillers ++ dataEvents own.toList ++ inner ++
        [.close name]) ++
        events, (hasides.element name attributes hcontent).append hevents, fun hrest => ?_⟩
      simp only [List.append_assoc, List.cons_append, List.nil_append]
      refine hfill (Tells.of_markup (fun place offset =>
        readMarkup_startTag hname hnames hdistinct hattributes htail _ place offset _)
        (hfillBefore ?_))
      -- What stands behind the text begins with white space and a markup.
      have hclosed := htellsInside ((htells hrest).of_markup fun place offset =>
        readMarkup_closeTag hname hstop _ place offset _)
      obtain ⟨space, markup, hmarkup, hspace⟩ := hinside.starts
        ('/' :: (name.toList ++ (stop ++ '>' :: (text ++ _))))
      rw [hmarkup] at hclosed ⊢
      exact says_text hown hspace hclosed

theorem Attribute.exists_spelled {one : Attribute} (hname : isName one.name = true) :
    ∃ written, one.Spelled written := by
  obtain ⟨first, others, hlist, -⟩ := exists_cons_of_isName hname
  have hspaces := name_not_special hname fun c hc => isNameChar_of_isSpace hc
  have hends : ∀ c ∈ one.name.toList, endsName c = false := by
    refine name_not_special hname fun c hc => ?_
    rw [endsName, Bool.or_eq_true, beq_iff_eq] at hc
    rcases hc with rfl | hspace
    · decide
    · exact isNameChar_of_isSpace hspace
  have hquote : '"' ∉ escaped one.value.toList :=
    not_mem_escaped ("quot".toList, '"') (by simp [predefined]) (by decide) _
  rw [hlist] at hspaces hends
  exact ⟨⟨[' '], first, others, [], [], '"', escaped one.value.toList, by simp [isSpace],
    hspaces first List.mem_cons_self, fun c hc => hends c (List.mem_cons_of_mem _ hc), by simp,
    by simp, rfl, hquote⟩, by simp, hlist.symm, rfl⟩

theorem exists_spelled_attributes {attributes : List Attribute}
    (hnames : ∀ one ∈ attributes, isName one.name = true) :
    ∃ written, List.Forall₂ Attribute.Spelled attributes written := by
  induction attributes with
  | nil => exact ⟨[], .nil⟩
  | cons one rest ih =>
      obtain ⟨first, hfirst⟩ := Attribute.exists_spelled (hnames one List.mem_cons_self)
      obtain ⟨others, hothers⟩ :=
        ih fun other hother => hnames other (List.mem_cons_of_mem _ hother)
      exact ⟨first :: others, .cons hfirst hothers⟩

theorem exists_spelled (elements : List Element)
    (hwritable : ∀ element ∈ elements, element.Writable) : ∃ text, Spelled elements text := by
  match elements with
  | [] => exact ⟨[], .nil (.spaces (by simp))⟩
  | ⟨name, attributes, children, own⟩ :: siblings =>
      obtain ⟨-, hnames, -, -, hchildren⟩ := hwritable _ List.mem_cons_self
      obtain ⟨written, hwritten⟩ := exists_spelled_attributes hnames
      obtain ⟨inside, hinside⟩ := exists_spelled children hchildren
      obtain ⟨text, htext⟩ := exists_spelled siblings fun element helement =>
        hwritable element (List.mem_cons_of_mem _ helement)
      have hnone : ∀ c ∈ ([] : List Char), isSpace c = true := by simp
      exact ⟨_, .element (.spaces hnone) hwritten hnone (.spaces hnone) hinside hnone htext⟩
termination_by sizeOf elements

/-- An element whose names are names, whose attributes differ in their names and whose texts
have no white space on their ends can be written, and is read as it was written, however that
was done. -/
theorem readElement_spelled {root : Element} (hroot : root.Writable) :
    (∃ text, Spelled [root] text) ∧
      ∀ text, Spelled [root] text → readElement (String.ofList text) = .ok root := by
  have hwritable : ∀ element ∈ [root], element.Writable := fun element helement =>
    List.mem_singleton.mp helement ▸ hroot
  refine ⟨exists_spelled [root] hwritable, fun text htext => ?_⟩
  obtain ⟨events, hevents, htells⟩ := htext.says hwritable
  obtain ⟨place, hcontent, hending⟩ := htells (Tells.nil []) 0 text (by rw [List.append_nil])
  rw [List.append_nil] at hcontent
  unfold readElement trace
  rw [String.toList_ofList, htext.ofText]
  exact Trace.element_of_root hending (hcontent ▸ hevents)

/-- A note, and a text of it with all that may stand between markups. -/
def coloredNote : Element :=
  ⟨"note", [⟨"color", "<\""⟩], [⟨"chord", [], [], ""⟩, ⟨"step", [], [], "C & D"⟩], ""⟩

def coloredNoteText : String :=
  "<?xml version='1.0'?>\n<!-- one - note --><note color='&lt;&quot;'>\n" ++
    "  <chord /><step>C &amp; D</step >\n</note>\n"

def spelledColor : WrittenAttribute where
  space := [' ']
  first := 'c'
  others := "olor".toList
  gap := []
  lead := []
  quote := '\''
  value := "&lt;&quot;".toList
  isSpace_of_mem_space := by simp [isSpace]
  first_not_space := rfl
  not_endsName := by simp [endsName, isSpace]
  isSpace_of_mem_gap := by simp
  isSpace_of_mem_lead := by simp
  isQuote_quote := rfl
  quote_not_mem := by simp

theorem spelled_coloredNote : Spelled [coloredNote] coloredNoteText.toList := by
  have hnone : ∀ c ∈ ([] : List Char), isSpace c = true := by simp
  have hline : ∀ c ∈ ['\n'], isSpace c = true := by simp [isSpace]
  have hblank : ∀ c ∈ [' '], isSpace c = true := by simp [isSpace]
  have hcolor : Attribute.Spelled ⟨"color", "<\""⟩ spelledColor :=
    ⟨by simp [spelledColor], by decide +kernel, by decide +kernel⟩
  have hindent : ∀ c ∈ ['\n', ' ', ' '], isSpace c = true := by simp [isSpace]
  have hdashes : ¬['-', '-'] <:+: " one - note ".toList ++ ['-'] := by decide +kernel
  have hcomment : Filler _ := .comment hline hdashes (.spaces hnone)
  have hgreater : '>' ∉ "xml version='1.0'".toList := by decide +kernel
  have hfiller : Filler _ := .instruction hnone (by simp) hgreater hcomment
  have hstep : Spelled [⟨"step", [], [], "C & D"⟩] _ :=
    .element (.spaces hnone) .nil hnone (.spaces hnone) (.nil (.spaces hnone)) hblank
      (.nil (.spaces hline))
  have hchord : Spelled [⟨"chord", [], [], ""⟩, ⟨"step", [], [], "C & D"⟩] _ :=
    .empty (.spaces hindent) .nil hblank hstep
  have hnote : Spelled [coloredNote] _ :=
    .element hfiller (.cons hcolor .nil) hnone (.spaces hnone) hchord hnone
      (.nil (.spaces hline))
  convert hnote using 1
  decide +kernel

theorem readElement_spelled_coloredNote :
    coloredNote.Writable ∧ readElement coloredNoteText = .ok coloredNote := by
  have hwritable : coloredNote.Writable := by
    refine .mk (by decide +kernel) (by simp; decide +kernel) (by simp) (by decide +kernel)
      fun child hchild => ?_
    simp only [List.mem_cons, List.not_mem_nil, or_false] at hchild
    rcases hchild with rfl | rfl <;>
      exact .mk (by decide +kernel) (by simp) (by simp) (by decide +kernel) (by simp)
  have hread := (readElement_spelled hwritable).2 _ spelled_coloredNote
  rw [String.ofList_toList] at hread
  exact ⟨hwritable, hread⟩

end Rubato.Markup
