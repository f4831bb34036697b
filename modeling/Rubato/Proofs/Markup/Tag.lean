import Rubato.Markup.Event
import Rubato.Proofs.Markup.Written

namespace Rubato.Markup

/-! Where the names of a tag hold no quotes and no tempo attribute begins in a value, the
replacement gives some attributes another value, and nothing else changes. -/

def endsTempo (c : Char) : Bool := c == 'o' || Text.isBlank c

namespace WrittenAttribute

/-- No tempo attribute begins in the value, with its closing quote. -/
structure Quiet (written : WrittenAttribute) : Prop where
  name : ∀ c ∈ written.name, isQuote c = false
  value : TempoAttribute.opens false (written.value ++ [written.quote]) = false

inductive Replaced (value : List Char) : WrittenAttribute → WrittenAttribute → Prop
  | kept (written : WrittenAttribute) : Replaced value written written
  | forced {written : WrittenAttribute} (hname : ∀ c ∈ written.name.getLast?, endsTempo c = true)
      (hvalue : written.quote ∉ value) :
      Replaced value written { written with value, quote_not_mem := hvalue }

end WrittenAttribute

theorem isBlank_of_isSpace {c : Char} (h : isSpace c = true) : Text.isBlank c = true := by
  simp only [isSpace, Bool.or_eq_true, beq_iff_eq] at h
  rcases h with ((rfl | rfl) | rfl) | rfl <;> decide

theorem isQuote_of_isSpace {c : Char} (h : isSpace c = true) : isQuote c = false :=
  TempoAttribute.isQuote_eq_false_of_isBlank (isBlank_of_isSpace h)

theorem eq_of_append_blanks {x y : Char} (hx : Text.isBlank x = false)
    (hy : Text.isBlank y = false) {first second firstEnd secondEnd : List Char}
    (hfirst : ∀ c ∈ firstEnd, Text.isBlank c = true)
    (hsecond : ∀ c ∈ secondEnd, Text.isBlank c = true)
    (h : first ++ x :: firstEnd = second ++ y :: secondEnd) : x = y ∧ first = second := by
  have hback := congrArg (fun text => text.reverse.dropWhile Text.isBlank) h
  simp only [List.reverse_append, List.reverse_cons, List.append_assoc, List.singleton_append]
    at hback
  rw [dropWhile_stop (fun c hc => hfirst c (List.mem_reverse.mp hc)) hx,
    dropWhile_stop (fun c hc => hsecond c (List.mem_reverse.mp hc)) hy] at hback
  obtain ⟨hchar, hfront⟩ := List.cons.inj hback
  exact ⟨hchar, List.reverse_injective hfront⟩

namespace WrittenAttribute

variable {written : WrittenAttribute}

theorem isQuote_of_mem_head (hquiet : written.Quiet) {c : Char} (hc : c ∈ written.head) :
    isQuote c = false := by
  simp only [head, List.mem_append, List.mem_cons] at hc
  rcases hc with hc | hc | hc | rfl | hc
  · exact isQuote_of_isSpace (written.isSpace_of_mem_space c hc)
  · exact hquiet.name c hc
  · exact isQuote_of_isSpace (written.isSpace_of_mem_gap c hc)
  · rfl
  · exact isQuote_of_isSpace (written.isSpace_of_mem_lead c hc)

theorem endsTempo_of_opens {before : List Char} (hbefore : ∀ c ∈ before, isQuote c = false)
    (hquiet : written.Quiet)
    (h : TempoAttribute.opens false (before ++ written.head ++ [written.quote]) = true) :
    ∀ c ∈ written.name.getLast?, endsTempo c = true := by
  intro c hc
  have hplain : ∀ c ∈ before ++ written.head, isQuote c = false := fun c hc =>
    (List.mem_append.mp hc).elim (hbefore c) (isQuote_of_mem_head hquiet)
  obtain ⟨front, first, second, htext, hfirst, hsecond⟩ :=
    TempoAttribute.of_opens written.isQuote_quote hplain h
  -- The `=` of the attribute is the one in front of the quote, and only blanks are
  -- between it and the end of the name.
  have hequals : before ++ (written.space ++ (written.name ++ written.gap)) =
      front ++ (TempoAttribute.name ++ first) := by
    refine (eq_of_append_blanks (x := '=') (y := '=') (by decide) (by decide)
      (fun c hc => isBlank_of_isSpace (written.isSpace_of_mem_lead c hc)) hsecond ?_).2
    simpa only [head, List.append_assoc] using htext
  rw [endsTempo, Bool.or_eq_true, beq_iff_eq]
  rcases Bool.eq_false_or_eq_true (Text.isBlank c) with hblank | hblank
  · exact .inr hblank
  · have hname := List.dropLast_append_getLast? c hc
    have htempo : TempoAttribute.name = ['t', 'e', 'm', 'p', 'o'] := rfl
    have hlast : (before ++ (written.space ++ written.name.dropLast)) ++ c :: written.gap =
        (front ++ ['t', 'e', 'm', 'p']) ++ 'o' :: first := by
      rw [← hname, htempo] at hequals
      simpa only [List.append_assoc, List.cons_append, List.nil_append] using hequals
    exact .inl (eq_of_append_blanks hblank (by decide)
      (fun c hc => isBlank_of_isSpace (written.isSpace_of_mem_gap c hc)) hfirst hlast).1

open TempoAttribute (replaced opens) in
theorem exists_replaced {value : List Char} (hvalue : ∀ c ∈ value, isQuote c = false)
    (hquiet : written.Quiet) {before : List Char} (hbefore : ∀ c ∈ before, isQuote c = false) :
    ∃ other, written.Replaced value other ∧ ∀ rest,
      replaced value false (before ++ written.before rest) =
        before ++ other.before (replaced value false rest) := by
  have hplain : ∀ c ∈ before ++ written.head, isQuote c = false := fun c hc =>
    (List.mem_append.mp hc).elim (hbefore c) (isQuote_of_mem_head hquiet)
  rcases Bool.eq_false_or_eq_true (opens false (before ++ written.head ++ [written.quote])) with
    hopens | hopens
  · have hnot : written.quote ∉ value := fun hmem => by
      have hquote := written.isQuote_quote
      rw [hvalue _ hmem] at hquote
      cases hquote
    refine ⟨_, .forced (endsTempo_of_opens hbefore hquiet hopens) hnot, fun rest => ?_⟩
    rw [WrittenAttribute.before, ← List.append_assoc,
      TempoAttribute.replaced_value written.isQuote_quote written.quote_not_mem _ hplain hopens,
      List.append_assoc]
    rfl
  · refine ⟨_, .kept written, fun rest => ?_⟩
    have hinner := TempoAttribute.isInner_of_isQuote written.isQuote_quote
    rw [WrittenAttribute.before, ← List.append_assoc, TempoAttribute.replaced_copy hinner _ hopens,
      TempoAttribute.replaced_copy hinner _ hquiet.value, List.append_assoc]
    rfl

end WrittenAttribute

open TempoAttribute (replaced) in
theorem replaced_attributesText {value : List Char} (hvalue : ∀ c ∈ value, isQuote c = false)
    {x : Char} (hx : TempoAttribute.isInner x = false) (hxQuote : isQuote x = false)
    {tail : List Char} (htail : ∀ c ∈ tail, isSpace c = true) (rest : List Char)
    {written : List WrittenAttribute} (hquiet : ∀ one ∈ written, one.Quiet) {before : List Char}
    (hbefore : ∀ c ∈ before, isQuote c = false) :
    ∃ written', List.Forall₂ (WrittenAttribute.Replaced value) written written' ∧
      replaced value false (before ++ attributesText written (tail ++ x :: rest)) =
        before ++ attributesText written' (tail ++ x :: replaced value false rest) := by
  induction written generalizing before with
  | nil =>
      refine ⟨[], .nil, ?_⟩
      have hplain : ∀ c ∈ before ++ tail ++ [x], isQuote c = false := by
        intro c hc
        rw [List.mem_append, List.mem_append, List.mem_singleton] at hc
        rcases hc with (hc | hc) | rfl
        · exact hbefore c hc
        · exact isQuote_of_isSpace (htail c hc)
        · exact hxQuote
      rw [attributesText_nil, attributesText_nil, ← List.append_assoc, ← List.append_assoc]
      exact TempoAttribute.replaced_copy hx rest (TempoAttribute.opens_of_no_quote hplain false)
  | cons one written ih =>
      obtain ⟨other, hone, hreplaced⟩ :=
        WrittenAttribute.exists_replaced hvalue (hquiet one List.mem_cons_self) hbefore
      obtain ⟨written', hrest, heq⟩ :=
        @ih (fun one hone => hquiet one (List.mem_cons_of_mem _ hone)) []
          (fun c hc => by cases hc)
      refine ⟨other :: written', .cons hone hrest, ?_⟩
      rw [List.nil_append, List.nil_append] at heq
      rw [attributesText_cons, attributesText_cons, hreplaced, heq]

theorem resolveFrom_of_no_reference {text : List Char} (htext : '&' ∉ text)
    (length place : Nat) : resolveFrom length place text = .ok text := by
  induction text generalizing place with
  | nil => rw [resolveFrom]
  | cons c text ih =>
      rw [List.mem_cons, not_or] at htext
      rw [resolveFrom, if_neg (Ne.symm htext.1)]
      exact bind_eq_ok_iff.mpr ⟨text, ih htext.2 _, rfl⟩

theorem resolve_of_no_reference {text : List Char} (htext : '&' ∉ text) :
    resolve text = .ok text :=
  resolveFrom_of_no_reference htext _ 0

/-- The same attribute, with another value if it is named like a tempo. -/
structure Attribute.Retimed (value : List Char) (first second : Attribute) : Prop where
  name : second.name = first.name
  value : second.value = first.value ∨
    (∀ c ∈ first.name.toList.getLast?, endsTempo c = true) ∧ second.value = String.ofList value

theorem localName_suffix (name : List Char) : localName name <:+ name := by
  unfold localName
  split
  · next before c rest hcut =>
      obtain ⟨rfl, -, -⟩ := cut_eq_cons_iff.mp hcut
      exact ⟨before ++ [c], by simp⟩
  · next whole hcut =>
      obtain ⟨rfl, -⟩ := cut_eq_nil_iff.mp hcut
      exact List.suffix_refl _

theorem getLast?_localName {name : List Char} {c : Char} (hc : c ∈ (localName name).getLast?) :
    c ∈ name.getLast? := by
  obtain ⟨before, hname⟩ := localName_suffix name
  rw [← hname, List.getLast?_append, Option.mem_def.mp hc]
  rfl

namespace WrittenAttribute

theorem means_iff {written : WrittenAttribute} {meant : Attribute} :
    written.Means meant ↔ ∃ value, resolve written.value = .ok value ∧
      meant = ⟨localString written.name, String.ofList value⟩ := by
  unfold Means resolvedAttribute
  constructor
  · intro h
    obtain ⟨value, hvalue, h⟩ := bind_eq_ok_iff.mp h
    cases h
    exact ⟨value, mapError_eq_ok_iff.mp hvalue, rfl⟩
  · rintro ⟨value, hvalue, rfl⟩
    exact bind_eq_ok_iff.mpr ⟨value, mapError_eq_ok_iff.mpr hvalue, rfl⟩

theorem Replaced.means {value : List Char} (hvalue : '&' ∉ value)
    {first second : WrittenAttribute} (h : Replaced value first second) {meant : Attribute}
    (hmeant : first.Means meant) :
    ∃ other, second.Means other ∧ meant.Retimed value other := by
  cases h with
  | kept => exact ⟨meant, hmeant, ⟨rfl, .inl rfl⟩⟩
  | forced hname hquote =>
      obtain ⟨old, -, rfl⟩ := means_iff.mp hmeant
      refine ⟨⟨localString first.name, String.ofList value⟩,
        means_iff.mpr ⟨value, resolve_of_no_reference hvalue, rfl⟩, rfl, .inr ⟨?_, rfl⟩⟩
      intro c hc
      rw [localString, String.toList_ofList] at hc
      exact hname c (getLast?_localName hc)

theorem Replaced.name_eq {value : List Char} {first second : WrittenAttribute}
    (h : Replaced value first second) : second.name = first.name := by
  cases h <;> rfl

theorem Replaced.freshNames {value : List Char} {written others : List WrittenAttribute}
    (h : List.Forall₂ (Replaced value) written others) {earlier : List (List Char)}
    (hfresh : FreshNames earlier written) : FreshNames earlier others := by
  induction h generalizing earlier with
  | nil => trivial
  | cons hone _ ih =>
      refine ⟨?_, ?_⟩
      · rw [hone.name_eq]
        exact hfresh.1
      · rw [hone.name_eq]
        exact ih hfresh.2

theorem Replaced.means_all {value : List Char} (hvalue : '&' ∉ value)
    {written others : List WrittenAttribute}
    (h : List.Forall₂ (Replaced value) written others) {attributes : List Attribute}
    (hmeans : List.Forall₂ Means written attributes) :
    ∃ attributes', List.Forall₂ Means others attributes' ∧
      List.Forall₂ (Attribute.Retimed value) attributes attributes' := by
  induction h generalizing attributes with
  | nil =>
      cases hmeans
      exact ⟨[], .nil, .nil⟩
  | cons hone _ ih =>
      cases hmeans with
      | cons hmeant hmeans =>
          obtain ⟨other, hother, hretimed⟩ := hone.means hvalue hmeant
          obtain ⟨rest, hrest, hall⟩ := ih hmeans
          exact ⟨other :: rest, .cons hother hrest, .cons hretimed hall⟩

end WrittenAttribute

/-- Whether a text leaves no quote open and has no `>` outside quotes. -/
def closes : Option Char → List Char → Bool
  | quote, [] => quote.isNone
  | quote, c :: rest => !(quote.isNone && c == '>') && closes (quoteAfter quote c) rest

theorem closes_cons_iff {quote : Option Char} {c : Char} {rest : List Char} :
    closes quote (c :: rest) = true ↔
      ¬(quote = none ∧ c = '>') ∧ closes (quoteAfter quote c) rest = true := by
  rw [closes, Bool.and_eq_true, Bool.not_eq_true', Bool.and_eq_false_iff, not_and_or,
    Option.isNone_eq_false_iff, Option.isSome_iff_ne_none, beq_eq_false_iff_ne]

theorem splitTag?_eq_some_iff {quote : Option Char} {text content after : List Char} :
    splitTag? quote text = some (content, after) ↔
      text = content ++ '>' :: after ∧ closes quote content = true := by
  induction text generalizing quote content with
  | nil => simp [splitTag?]
  | cons c text ih =>
      rw [splitTag?]
      split
      · next hend =>
          cases content with
          | nil =>
              obtain ⟨rfl, rfl⟩ := hend
              simp [closes]
          | cons d content =>
              refine iff_of_false (by simp) ?_
              rintro ⟨htext, hcloses⟩
              obtain ⟨rfl, -⟩ := List.cons.inj htext
              exact (closes_cons_iff.mp hcloses).1 hend
      · next hend =>
          rw [Option.map_eq_some_iff]
          constructor
          · rintro ⟨⟨first, last⟩, hfound, hpair⟩
            cases hpair
            obtain ⟨rfl, hcloses⟩ := ih.mp hfound
            exact ⟨rfl, closes_cons_iff.mpr ⟨hend, hcloses⟩⟩
          · rintro ⟨htext, hcloses⟩
            cases content with
            | nil =>
                obtain ⟨rfl, -⟩ := List.cons.inj htext
                exact absurd ⟨Option.isNone_iff_eq_none.mp hcloses, rfl⟩ hend
            | cons d content =>
                obtain ⟨rfl, rfl⟩ := List.cons.inj htext
                exact ⟨(content, after), ih.mpr ⟨rfl, (closes_cons_iff.mp hcloses).2⟩, rfl⟩

theorem closes_append_of_no_quote {first : List Char}
    (hfirst : ∀ c ∈ first, isQuote c = false) (rest : List Char) :
    closes none (first ++ rest) = (!first.contains '>' && closes none rest) := by
  induction first with
  | nil => simp
  | cons c first ih =>
      have hc : quoteAfter none c = none := by
        simp [quoteAfter, hfirst c List.mem_cons_self]
      have hchar : (c == '>') = ('>' == c) := Bool.beq_comm
      rw [List.cons_append, closes, hc, ih fun c hc => hfirst c (List.mem_cons_of_mem _ hc),
        List.contains_cons, Option.isNone_none, Bool.true_and, Bool.not_or, Bool.and_assoc, hchar]

theorem closes_quoted {quote : Char} {value : List Char} (hvalue : quote ∉ value)
    (rest : List Char) : closes (some quote) (value ++ quote :: rest) = closes none rest := by
  induction value with
  | nil => simp [closes, quoteAfter]
  | cons c value ih =>
      rw [List.mem_cons, not_or] at hvalue
      have hc : quoteAfter (some quote) c = some quote := if_neg (Ne.symm hvalue.1)
      rw [List.cons_append, closes, hc, ih hvalue.2]
      rfl

theorem WrittenAttribute.closes_before {written : WrittenAttribute}
    (hplain : ∀ c ∈ written.head, isQuote c = false) (rest : List Char) :
    closes none (written.before rest) = (!written.head.contains '>' && closes none rest) := by
  have hquote : quoteAfter none written.quote = some written.quote :=
    if_pos written.isQuote_quote
  have hne : (written.quote == '>') = false := by
    have := written.isQuote_quote
    rw [isQuote, Bool.or_eq_true, beq_iff_eq, beq_iff_eq] at this
    rcases this with h | h <;> rw [h] <;> rfl
  rw [before, closes_append_of_no_quote hplain, closes, hquote,
    closes_quoted written.quote_not_mem, hne]
  rfl

theorem WrittenAttribute.Replaced.head_eq {value : List Char} {first second : WrittenAttribute}
    (h : Replaced value first second) : second.head = first.head := by
  cases h <;> rfl

theorem closes_attributesText {value : List Char} {written others : List WrittenAttribute}
    (h : List.Forall₂ (WrittenAttribute.Replaced value) written others)
    (hquiet : ∀ one ∈ written, one.Quiet) (rest : List Char) :
    closes none (attributesText others rest) = closes none (attributesText written rest) := by
  induction h with
  | nil => rfl
  | @cons one other _ _ hone _ ih =>
      have hplain : ∀ c ∈ one.head, isQuote c = false := fun c hc =>
        WrittenAttribute.isQuote_of_mem_head (hquiet one List.mem_cons_self) hc
      rw [attributesText_cons, attributesText_cons, WrittenAttribute.closes_before hplain,
        WrittenAttribute.closes_before (hone.head_eq ▸ hplain), hone.head_eq,
        ih fun one hone => hquiet one (List.mem_cons_of_mem _ hone)]

theorem attributesText_append (written : List WrittenAttribute) (tail rest : List Char) :
    attributesText written tail ++ rest = attributesText written (tail ++ rest) := by
  induction written with
  | nil => rfl
  | cons one written ih =>
      simp only [attributesText_cons, WrittenAttribute.before, List.append_assoc,
        List.cons_append, ih]

theorem head?_attributesText {value : List Char} {written others : List WrittenAttribute}
    (h : List.Forall₂ (WrittenAttribute.Replaced value) written others) (tail : List Char) :
    (attributesText others tail).head? = (attributesText written tail).head? := by
  cases h with
  | nil => rfl
  | @cons one other _ _ hone _ =>
      have hhead : one.head ≠ [] := by
        simp [WrittenAttribute.head, WrittenAttribute.name]
      rw [attributesText_cons, attributesText_cons, WrittenAttribute.before,
        WrittenAttribute.before, hone.head_eq, List.head?_append_of_ne_nil _ hhead,
        List.head?_append_of_ne_nil _ hhead]

theorem getLast?_attributesText (written : List WrittenAttribute) {tail : List Char}
    (htail : tail.getLast? ≠ some '/') : (attributesText written tail).getLast? ≠ some '/' := by
  induction written with
  | nil => exact htail
  | cons one written ih =>
      have hquote : one.quote ≠ '/' := fun heq => by
        have := one.isQuote_quote
        rw [heq] at this
        cases this
      rw [attributesText_cons, WrittenAttribute.before, List.getLast?_append, List.getLast?_cons,
        Option.some_or, List.getLast?_append, List.getLast?_cons, Option.some_or,
        Option.getD_some]
      cases hlast : (attributesText written tail).getLast? with
      | none => simpa using hquote
      | some c =>
          rw [hlast] at ih
          exact ih

/-- The names and values of the attributes in a text, as they are written, up to the
first fault. -/
def rawAttributes (text : List Char) : List (List Char × List Char) :=
  match hspace : text.dropWhile isSpace with
  | [] => []
  | initial :: body =>
    match hraw : rawAttribute 0 [] initial body with
    | .error _ => []
    | .ok (raw, rest) =>
      have := length_after_rawAttribute hspace hraw
      (raw.name, raw.value) :: rawAttributes rest
termination_by text.length

theorem rawAttributes_text (written : List WrittenAttribute) {tail : List Char}
    (htail : ∀ c ∈ tail, isSpace c = true) :
    rawAttributes (attributesText written tail) =
      written.map fun one => (one.name, one.value) := by
  induction written with
  | nil =>
      rw [rawAttributes]
      split
      · rfl
      · next hspace =>
          rw [attributesText_nil, List.dropWhile_eq_nil_iff.mpr htail] at hspace
          cases hspace
  | cons one written ih =>
      rw [rawAttributes, attributesText_cons]
      split
      · next hnil =>
          rw [one.dropWhile_before] at hnil
          cases hnil
      · next initial body hcons =>
          obtain ⟨place, hraw⟩ : ∃ place, rawAttribute 0 [] initial body =
              .ok (⟨one.name, place, one.value⟩, attributesText written tail) :=
            one.rawAttribute_before (by simp) hcons
          split
          · next fault hfault =>
              rw [hraw] at hfault
              cases hfault
          · next raw rest hok =>
              rw [hraw] at hok
              cases hok
              rw [ih, List.map_cons]

/-- Whether whatever reads as a tempo attribute in a tag is an attribute: the names hold
no quotes, and no tempo attribute begins in a value with its closing quote. -/
def temposAreAttributes (tag : List Char) : Bool :=
  (tagName tag).all (fun c => !isQuote c) &&
    (rawAttributes (cut isSpace tag).2).all fun written =>
      written.1.all (fun c => !isQuote c) &&
        ['"', '\''].all fun quote => !TempoAttribute.opens false (written.2 ++ [quote])

theorem quiet_of_temposAreAttributes {tag : List Char} (h : temposAreAttributes tag = true)
    {written : List WrittenAttribute} {tail : List Char} (htail : ∀ c ∈ tail, isSpace c = true)
    (htag : (cut isSpace tag).2 = attributesText written tail) :
    (∀ c ∈ tagName tag, isQuote c = false) ∧ ∀ one ∈ written, one.Quiet := by
  rw [temposAreAttributes, Bool.and_eq_true, htag, rawAttributes_text written htail,
    List.all_map, List.all_eq_true, List.all_eq_true] at h
  refine ⟨fun c hc => by simpa using h.1 c hc, fun one hone => ?_⟩
  have hquiet := h.2 one hone
  simp only [Function.comp_apply, Bool.and_eq_true, List.all_eq_true, Bool.not_eq_true'] at hquiet
  refine ⟨hquiet.1, hquiet.2 one.quote ?_⟩
  have hquote := one.isQuote_quote
  rw [isQuote, Bool.or_eq_true, beq_iff_eq, beq_iff_eq] at hquote
  rcases hquote with h | h <;> rw [h] <;> decide

def tagOf (content : List Char) : List Char :=
  if content.getLast? = some '/' then content.dropLast else content

def slashOf (content : List Char) : List Char :=
  if content.getLast? = some '/' then ['/'] else []

theorem tagOf_append_slashOf (content : List Char) :
    tagOf content ++ slashOf content = content := by
  unfold tagOf slashOf
  split
  · next hslash => exact List.dropLast_append_getLast? '/' hslash
  · exact List.append_nil content

theorem tagOf_append {tag slash : List Char}
    (h : slash = ['/'] ∨ slash = [] ∧ tag.getLast? ≠ some '/') :
    tagOf (tag ++ slash) = tag ∧ slashOf (tag ++ slash) = slash := by
  unfold tagOf slashOf
  rcases h with rfl | ⟨rfl, hne⟩
  · simp
  · simp [hne]

theorem slashOf_eq (content : List Char) :
    slashOf content = ['/'] ∨ slashOf content = [] ∧ (tagOf content).getLast? ≠ some '/' := by
  unfold tagOf slashOf
  split
  · exact .inl rfl
  · next hne => exact .inr ⟨rfl, hne⟩

theorem cut_tag {name rest : List Char} (hname : ∀ c ∈ name, isSpace c = false)
    (hrest : ∀ c ∈ rest.head?, isSpace c = true) : cut isSpace (name ++ rest) = (name, rest) := by
  cases rest with
  | nil => exact cut_eq_nil_iff.mpr ⟨(List.append_nil name).symm, by simpa using hname⟩
  | cons c rest => exact cut_eq_cons_iff.mpr ⟨rfl, hname, hrest c rfl⟩

section Replaced

variable {value tail : List Char} {written others : List WrittenAttribute}
  (hreplaced : List.Forall₂ (WrittenAttribute.Replaced value) written others)

include hreplaced

theorem cut_replaced {tag : List Char} (htag : (cut isSpace tag).2 = attributesText written tail) :
    cut isSpace (tagName tag ++ attributesText others tail) =
      (tagName tag, attributesText others tail) := by
  have hname : ∀ c ∈ tagName tag, isSpace c = false := fun c hc => by
    simpa using List.mem_takeWhile_imp hc
  refine cut_tag hname fun c hc => ?_
  rw [head?_attributesText hreplaced, ← htag] at hc
  obtain ⟨rest, hrest⟩ := List.head?_eq_some_iff.mp hc
  exact (cut_eq_cons_iff.mp (Prod.ext rfl hrest)).2.2

theorem getLast?_replaced (htail : ∀ c ∈ tail, isSpace c = true) {name : List Char}
    (hne : (name ++ attributesText written tail).getLast? ≠ some '/') :
    (name ++ attributesText others tail).getLast? ≠ some '/' := by
  have htailEnd : tail.getLast? ≠ some '/' := fun heq => by
    have := htail _ (List.mem_of_getLast? heq)
    cases this
  have hend := getLast?_attributesText others htailEnd
  have hhead := head?_attributesText hreplaced tail
  rw [List.getLast?_append]
  cases hrest : attributesText others tail with
  | nil =>
      rw [hrest, List.head?_nil, eq_comm, List.head?_eq_none_iff] at hhead
      rwa [hhead, List.append_nil] at hne
  | cons c rest =>
      rw [hrest] at hend
      rw [List.getLast?_cons] at hend ⊢
      exact hend

end Replaced

section Tag

open TempoAttribute (replaced)

variable {value : List Char} (hvalue : ∀ c ∈ value, isQuote c = false)

include hvalue

theorem replaced_tagText {name tail slash : List Char} {written : List WrittenAttribute}
    (hname : ∀ c ∈ name, isQuote c = false) (hquiet : ∀ one ∈ written, one.Quiet)
    (htail : ∀ c ∈ tail, isSpace c = true) (hslash : slash = ['/'] ∨ slash = [])
    (after : List Char) :
    ∃ written', List.Forall₂ (WrittenAttribute.Replaced value) written written' ∧
      replaced value false (name ++ attributesText written (tail ++ slash) ++ '>' :: after) =
        name ++ attributesText written' (tail ++ slash) ++ '>' :: replaced value false after := by
  have hend : replaced value false ('>' :: after) = '>' :: replaced value false after :=
    TempoAttribute.replaced_copy (by decide) after
      (show TempoAttribute.opens false ([] ++ ['>']) = false from rfl)
  simp only [List.append_assoc, attributesText_append]
  rcases hslash with rfl | rfl
  · obtain ⟨written', hreplaced, heq⟩ := replaced_attributesText hvalue (x := '/') (by decide)
      (by decide) htail ('>' :: after) hquiet hname
    exact ⟨written', hreplaced, by rw [← hend]; exact heq⟩
  · exact replaced_attributesText hvalue (by decide) (by decide) htail after hquiet hname

/-- The replacement in a tag gives a tag of the same name, with attributes that differ in
values of tempos only. -/
theorem replaced_tag (hreference : '&' ∉ value) {content : List Char}
    (hcloses : closes none content = true) {attributes : List Attribute}
    (hattributes : tagAttributes (tagOf content) = .ok attributes)
    (hquiet : temposAreAttributes (tagOf content) = true) (after : List Char) :
    ∃ content' attributes',
      replaced value false (content ++ '>' :: after) =
        content' ++ '>' :: replaced value false after ∧
      closes none content' = true ∧ tagName (tagOf content') = tagName (tagOf content) ∧
      slashOf content' = slashOf content ∧
      tagAttributes (tagOf content') = .ok attributes' ∧
      List.Forall₂ (Attribute.Retimed value) attributes attributes' := by
  obtain ⟨written, tail, htext, htail, hfresh, hmeans⟩ := of_attributesFrom hattributes
  obtain ⟨hname, hwritten⟩ := quiet_of_temposAreAttributes hquiet htail htext
  have hslash := slashOf_eq content
  obtain ⟨written', hreplaced, hrewritten⟩ :=
    replaced_tagText hvalue hname hwritten htail (hslash.imp id And.left) after
  obtain ⟨attributes', hmeans', hretimed⟩ :=
    WrittenAttribute.Replaced.means_all hreference hreplaced hmeans
  have hcut := cut_replaced hreplaced htext
  have htag : tagOf content = tagName (tagOf content) ++ attributesText written tail := by
    rw [← htext]
    exact (cut_append isSpace _).symm
  have hcontent : content =
      tagName (tagOf content) ++ attributesText written (tail ++ slashOf content) := by
    rw [← attributesText_append, ← List.append_assoc, ← htag, tagOf_append_slashOf]
  have htag' :
      tagOf (tagName (tagOf content) ++ attributesText written' (tail ++ slashOf content)) =
        tagName (tagOf content) ++ attributesText written' tail ∧
      slashOf (tagName (tagOf content) ++ attributesText written' (tail ++ slashOf content)) =
        slashOf content := by
    rw [← attributesText_append, ← List.append_assoc]
    exact tagOf_append (hslash.imp id fun ⟨hnil, hne⟩ =>
      ⟨hnil, getLast?_replaced hreplaced htail (htag ▸ hne)⟩)
  refine ⟨tagName (tagOf content) ++ attributesText written' (tail ++ slashOf content),
    attributes', ?_, ?_, ?_, htag'.2, ?_, hretimed⟩
  · rw [← hrewritten, ← hcontent]
  · rw [hcontent, closes_append_of_no_quote hname] at hcloses
    rw [closes_append_of_no_quote hname, closes_attributesText hreplaced hwritten]
    exact hcloses
  · rw [htag'.1, tagName, hcut]
  · rw [htag'.1, tagAttributes, hcut]
    exact attributesFrom_text htail (WrittenAttribute.Replaced.freshNames hreplaced hfresh) hmeans'

end Tag

end Rubato.Markup
