import Rubato.Proofs.Markup.Spelling

namespace Rubato.Markup

theorem trimSpaceEnd_append {text space : List Char} (hspace : ∀ c ∈ space, isSpace c = true)
    (htext : ∀ c ∈ text.getLast?, isSpace c = false) : trimSpaceEnd (text ++ space) = text := by
  have hreverse : ∀ c ∈ space.reverse, isSpace c = true :=
    fun c hc => hspace c (List.mem_reverse.mp hc)
  unfold trimSpaceEnd
  rw [List.reverse_append, List.dropWhile_append_of_pos hreverse]
  rcases List.eq_nil_or_concat text with rfl | ⟨front, last, rfl⟩
  · rfl
  · rw [List.concat_eq_append] at htext ⊢
    have hlast : ¬isSpace last = true :=
      Bool.eq_false_iff.mp (htext last List.getLast?_concat)
    rw [List.reverse_append, List.reverse_singleton, List.singleton_append,
      List.dropWhile_cons_of_neg hlast, List.reverse_cons, List.reverse_reverse]

namespace Attribute.Spelled

variable {one : Attribute} {written : WrittenAttribute}

theorem means (h : one.Spelled written) (hname : isName one.name = true) :
    written.Means one := by
  rw [WrittenAttribute.means_iff]
  refine ⟨one.value.toList, ?_, ?_⟩
  · rw [h.value, resolve_escaped]
  · rw [h.name, localString_name hname, String.ofList_toList]

theorem not_mem_head (h : one.Spelled written) (hname : isName one.name = true) {x : Char}
    (hchar : isNameChar x = false) (hspace : isSpace x = false) (hequals : x ≠ '=') :
    x ∉ written.head := by
  have hspaces : ∀ text : List Char, (∀ c ∈ text, isSpace c = true) → x ∉ text :=
    fun text htext hx => by
      rw [htext x hx] at hspace
      cases hspace
  unfold WrittenAttribute.head
  rw [h.name]
  simp only [List.mem_append, List.mem_cons, not_or]
  exact ⟨hspaces _ written.isSpace_of_mem_space, not_mem_name hname hchar,
    hspaces _ written.isSpace_of_mem_gap, hequals, hspaces _ written.isSpace_of_mem_lead⟩

theorem closes_before (h : one.Spelled written) (hname : isName one.name = true)
    (rest : List Char) : closes none (written.before rest) = closes none rest := by
  have hquotes : ∀ c ∈ written.head, isQuote c = false := by
    intro c hc
    rw [Bool.eq_false_iff]
    intro hquote
    refine h.not_mem_head hname (isNameChar_of_isQuote hquote) (isSpace_of_isQuote hquote) ?_ hc
    rintro rfl
    cases hquote
  have hgreater : written.head.contains '>' = false := by
    rw [List.contains_eq_mem]
    exact decide_eq_false (h.not_mem_head hname (by decide) (by decide) (by decide))
  rw [WrittenAttribute.closes_before hquotes, hgreater]
  rfl

end Attribute.Spelled

section Attributes

variable {attributes : List Attribute} {written : List WrittenAttribute}
  (h : List.Forall₂ Attribute.Spelled attributes written)

include h

theorem means_of_spelled (hnames : ∀ one ∈ attributes, isName one.name = true) :
    List.Forall₂ WrittenAttribute.Means written attributes := by
  induction h with
  | nil => exact .nil
  | cons hone _ ih =>
      exact .cons (hone.means (hnames _ List.mem_cons_self))
        (ih fun other hother => hnames other (List.mem_cons_of_mem _ hother))

theorem freshNames_of_spelled (hdistinct : (attributes.map (·.name)).Nodup)
    {earlier : List (List Char)} (hearlier : ∀ one ∈ attributes, one.name.toList ∉ earlier) :
    FreshNames earlier written := by
  induction h generalizing earlier with
  | nil => trivial
  | @cons one first _ _ hone _ ih =>
      rw [List.map_cons, List.nodup_cons] at hdistinct
      refine ⟨hone.name ▸ hearlier one List.mem_cons_self, ih hdistinct.2 ?_⟩
      intro other hother hmem
      rcases List.mem_cons.mp hmem with hsame | hbefore
      · rw [hone.name, String.toList_inj] at hsame
        exact hdistinct.1 (hsame ▸ List.mem_map_of_mem hother)
      · exact hearlier other (List.mem_cons_of_mem _ hother) hbefore

theorem closes_of_spelled (hnames : ∀ one ∈ attributes, isName one.name = true)
    (rest : List Char) : closes none (attributesText written rest) = closes none rest := by
  induction h with
  | nil => rfl
  | cons hone _ ih =>
      rw [attributesText_cons, hone.closes_before (hnames _ List.mem_cons_self),
        ih fun other hother => hnames other (List.mem_cons_of_mem _ hother)]

theorem isSpace_of_head?_spelled {tail : List Char} (htail : ∀ c ∈ tail, isSpace c = true) :
    ∀ c ∈ (attributesText written tail).head?, isSpace c = true := by
  cases h with
  | nil => exact fun c hc => htail c (List.mem_of_mem_head? hc)
  | @cons _ first _ others hone _ =>
      intro c hc
      have hspace := first.isSpace_of_mem_space
      cases hlist : first.space with
      | nil => exact absurd hlist hone.space
      | cons d space =>
          rw [attributesText_cons, WrittenAttribute.before, WrittenAttribute.head, hlist] at hc
          obtain rfl : d = c := Option.some.inj hc
          exact hspace d (hlist ▸ List.mem_cons_self)

end Attributes

section Tag

variable {name : String} {attributes : List Attribute} {written : List WrittenAttribute}
  {tail : List Char} (hname : isName name = true)
  (hnames : ∀ one ∈ attributes, isName one.name = true)
  (hdistinct : (attributes.map (·.name)).Nodup)
  (hattributes : List.Forall₂ Attribute.Spelled attributes written)
  (htail : ∀ c ∈ tail, isSpace c = true)

include hname hnames hattributes htail

theorem closes_tag {slash : List Char} (hslash : slash = ['/'] ∨ slash = []) :
    closes none (name.toList ++ attributesText written tail ++ slash) = true := by
  have hend : ∀ c ∈ tail ++ slash, isQuote c = false := by
    intro c hc
    rcases List.mem_append.mp hc with hspace | hmem
    · exact isQuote_of_isSpace (htail c hspace)
    · rcases hslash with rfl | rfl
      · rw [List.mem_singleton.mp hmem]
        rfl
      · cases hmem
  have hgreater : '>' ∉ tail ++ slash := by
    intro hmem
    rcases List.mem_append.mp hmem with hspace | hmem
    · cases htail _ hspace
    · rcases hslash with rfl | rfl
      · cases List.mem_singleton.mp hmem
      · cases hmem
  have htagEnd := closes_append_of_no_quote hend []
  rw [List.append_nil, List.contains_eq_mem, decide_eq_false hgreater] at htagEnd
  have hplain : ∀ c ∈ name.toList, isQuote c = false :=
    name_not_special hname fun c hc => isNameChar_of_isQuote hc
  rw [List.append_assoc, attributesText_append, closes_append_of_no_quote hplain,
    closes_of_spelled hattributes hnames, htagEnd, List.contains_eq_mem,
    decide_eq_false (not_mem_name hname (by decide))]
  rfl

omit hnames hattributes in
theorem getLast?_tag : (name.toList ++ attributesText written tail).getLast? ≠ some '/' := by
  have hlast : (attributesText written tail).getLast? ≠ some '/' :=
    getLast?_attributesText written fun h => by
      cases htail _ (List.mem_of_getLast? h)
  rw [List.getLast?_append]
  cases hend : (attributesText written tail).getLast? with
  | some c =>
      rw [hend] at hlast
      exact hlast
  | none =>
      intro h
      exact not_mem_name hname (by decide) (List.mem_of_getLast? h)

include hdistinct

theorem readMarkup_tag {slash : List Char} (hslash : slash = ['/'] ∨ slash = [])
    (after : List Char) (place offset : Nat) (opened : List (List Char)) :
    (readMarkup place offset opened
      (name.toList ++ attributesText written tail ++ slash ++ '>' :: after)).Reads
        (if slash = ['/'] then .empty name attributes else .start name attributes) after
        (if slash = ['/'] then opened else name.toList :: opened) false := by
  have hcut : cut isSpace (name.toList ++ attributesText written tail) =
      (name.toList, attributesText written tail) :=
    cut_tag (name_not_special hname fun c hc => isNameChar_of_isSpace hc)
      (isSpace_of_head?_spelled hattributes htail)
  have hlast : (name.toList ++ attributesText written tail).getLast? ≠ some '/' :=
    getLast?_tag hname htail
  have htag := tagOf_append (hslash.imp_right fun h => ⟨h, hlast⟩)
  have hread : tagAttributes (name.toList ++ attributesText written tail) = .ok attributes := by
    unfold tagAttributes
    rw [hcut]
    exact attributesFrom_text htail (freshNames_of_spelled hattributes hdistinct fun _ _ => by simp)
      (means_of_spelled hattributes hnames)
  have hslashEnd : (name.toList ++ attributesText written tail ++ slash).getLast? = some '/' ↔
      slash = ['/'] := by
    rcases hslash with rfl | rfl
    · simp
    · simpa using hlast
  obtain ⟨c, others, hlist, hc⟩ := exists_cons_of_isName hname
  have hmarkup : readMarkup place offset opened
        (name.toList ++ attributesText written tail ++ slash ++ '>' :: after) =
      readTag place offset opened
        (name.toList ++ attributesText written tail ++ slash ++ '>' :: after) := by
    rw [hlist]
    exact readMarkup_of_tag hc place offset _
  rw [hmarkup, readTag_eq (closes_tag hname hnames hattributes htail hslash)
    (htag.1 ▸ hread), htag.1, tagName, hcut]
  simp only [hslashEnd, localString_name hname]
  split <;> exact ⟨_, _, rfl⟩

theorem readMarkup_emptyTag (after : List Char) (place offset : Nat)
    (opened : List (List Char)) :
    (readMarkup place offset opened
      (name.toList ++ (attributesText written tail ++ '/' :: '>' :: after))).Reads
        (.empty name attributes) after opened false := by
  have hread := readMarkup_tag hname hnames hdistinct hattributes htail (.inl rfl) after place
    offset opened
  rwa [List.append_assoc, List.append_assoc] at hread

theorem readMarkup_startTag (after : List Char) (place offset : Nat)
    (opened : List (List Char)) :
    (readMarkup place offset opened
      (name.toList ++ (attributesText written tail ++ '>' :: after))).Reads
        (.start name attributes) after (name.toList :: opened) false := by
  have hread := readMarkup_tag hname hnames hdistinct hattributes htail (.inr rfl) after place
    offset opened
  rwa [List.append_assoc, List.append_assoc] at hread

end Tag

theorem readMarkup_closeTag {name : String} (hname : isName name = true) {stop : List Char}
    (hstop : ∀ c ∈ stop, isSpace c = true) (after : List Char) (place offset : Nat)
    (outer : List (List Char)) :
    (readMarkup place offset (name.toList :: outer)
      ('/' :: (name.toList ++ (stop ++ '>' :: after)))).Reads (.close name) after outer false := by
  have hcut : cut (· == '>') (name.toList ++ (stop ++ '>' :: after)) =
      (name.toList ++ stop, '>' :: after) := by
    refine cut_eq_cons_iff.mpr ⟨by rw [List.append_assoc], fun c hc => ?_, rfl⟩
    rw [beq_eq_false_iff_ne]
    rintro rfl
    rcases List.mem_append.mp hc with hmem | hspace
    · exact not_mem_name hname (by decide) hmem
    · cases hstop _ hspace
  have hclosing : closingName (name.toList ++ stop) = name.toList := by
    obtain ⟨c, others, hlist, -⟩ := exists_cons_of_isName hname
    have hplain := name_not_special hname fun c hc => isNameChar_of_isSpace hc
    have htrim : trimSpaceEnd (name.toList ++ stop) = name.toList :=
      trimSpaceEnd_append hstop fun c hc => hplain c (List.mem_of_getLast? hc)
    unfold closingName
    rw [htrim, hlist]
    rfl
  show (readClose place offset (name.toList :: outer) _).Reads _ _ _ _
  unfold readClose
  simp only [hcut, hclosing, if_true, localString_name hname]
  exact ⟨_, _, rfl⟩

theorem readMarkup_instruction {content : List Char} (hne : content ≠ []) (hcontent : '>' ∉ content)
    (after : List Char) (place offset : Nat) (opened : List (List Char)) :
    (readMarkup place offset opened ('?' :: (content ++ '?' :: '>' :: after))).Reads .aside after
      opened false := by
  have hcut : cut (· == '>') ('?' :: (content ++ '?' :: '>' :: after)) =
      ('?' :: (content ++ ['?']), '>' :: after) := by
    refine cut_eq_cons_iff.mpr ⟨by simp, fun c hc => ?_, rfl⟩
    rw [beq_eq_false_iff_ne]
    rintro rfl
    simp [hcontent] at hc
  have hlength : 2 < bytes ('?' :: (content ++ ['?'])) := by
    have hpos := List.length_pos_iff.mpr hne
    have hbytes := length_le_bytes ('?' :: (content ++ ['?']))
    simp only [List.length_cons, List.length_append, List.length_nil] at hbytes
    omega
  have hlast : ('?' :: (content ++ ['?'])).getLast? = some '?' := by
    rw [← List.cons_append]
    exact List.getLast?_concat
  show (readInstruction place offset opened _).Reads _ _ _ _
  unfold readInstruction
  simp only [hcut, hlength, hlast, true_and, if_true]
  exact ⟨_, _, rfl⟩

theorem splitAtText?_comment {content : List Char} (hcontent : ¬['-', '-'] <:+: content ++ ['-'])
    (after : List Char) :
    Text.splitAtText? "-->".toList (content ++ ("-->".toList ++ after)) =
      some (content, after) := by
  induction content with
  | nil => rfl
  | cons c content ih =>
      have hrest : ¬['-', '-'] <:+: content ++ ['-'] :=
        fun h => hcontent (List.infix_cons h)
      have hnot : ¬"-->".toList.isPrefixOf (c :: (content ++ ("-->".toList ++ after))) = true := by
        intro hmark
        obtain ⟨tail, htail⟩ := List.isPrefixOf_iff_prefix.mp hmark
        obtain ⟨rfl, hbehind⟩ := List.cons.inj htail
        cases content with
        | nil => exact hcontent ⟨[], [], rfl⟩
        | cons d content =>
            obtain ⟨rfl, -⟩ := List.cons.inj hbehind
            exact hcontent ⟨[], content ++ ['-'], rfl⟩
      rw [List.cons_append, Text.splitAtText?_cons, if_neg hnot, ih hrest]
      rfl

theorem readMarkup_commentText {content : List Char} (hcontent : ¬['-', '-'] <:+: content ++ ['-'])
    (after : List Char) (place offset : Nat) (opened : List (List Char)) :
    (readMarkup place offset opened
      ('!' :: '-' :: '-' :: (content ++ '-' :: '-' :: '>' :: after))).Reads .aside after opened
        false :=
  readMarkup_comment (splitAtText?_comment hcontent after) place offset opened

end Rubato.Markup
