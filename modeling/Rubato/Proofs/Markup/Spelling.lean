import Rubato.Proofs.Markup.Building
import Rubato.Proofs.Markup.Reader
import Rubato.Text.Letter

namespace Rubato.Markup

/-! How an element is written: a tag of its name and attributes, then its text with its
children behind it. The characters that markup is made of are written as references. -/

def isNameChar (c : Char) : Bool :=
  Text.isLetter c || c.isDigit || c == '-'

/-- A name of letters, digits and hyphens that starts with a letter. -/
def isName (name : String) : Bool :=
  name.toList.head?.any Text.isLetter && name.toList.all isNameChar

def isTrimmed (text : List Char) : Bool :=
  text.head?.all (fun c => !isSpace c) && text.getLast?.all (fun c => !isSpace c)

inductive Element.Writable : Element → Prop
  | mk {name : String} {attributes : List Attribute} {children : List Element} {text : String}
      (hname : isName name = true) (hnames : ∀ one ∈ attributes, isName one.name = true)
      (hdistinct : (attributes.map (·.name)).Nodup) (htext : isTrimmed text.toList = true)
      (hchildren : ∀ child ∈ children, child.Writable) :
      Writable ⟨name, attributes, children, text⟩

/-- A character as it is written: by its predefined name if it has one. -/
def escape (c : Char) : List Char :=
  match predefined.find? fun entry => entry.2 == c with
  | some (name, _) => '&' :: (name ++ [';'])
  | none => [c]

def escaped (text : List Char) : List Char :=
  text.flatMap escape

/-- The attribute is written by its name, with white space before it and its value escaped. -/
structure Attribute.Spelled (one : Attribute) (written : WrittenAttribute) : Prop where
  space : written.space ≠ []
  name : written.name = one.name.toList
  value : written.value = escaped one.value.toList

/-- What may stand between two markups. A comment has no two hyphens in it, and no hyphen
before the two at its end. -/
inductive Filler : List Char → Prop
  | spaces {space : List Char} (hspace : ∀ c ∈ space, isSpace c = true) : Filler space
  | comment {space content rest : List Char} (hspace : ∀ c ∈ space, isSpace c = true)
      (hcontent : ¬['-', '-'] <:+: content ++ ['-']) (hrest : Filler rest) :
      Filler (space ++ '<' :: '!' :: '-' :: '-' :: (content ++ '-' :: '-' :: '>' :: rest))
  | instruction {space content rest : List Char} (hspace : ∀ c ∈ space, isSpace c = true)
      (hne : content ≠ []) (hcontent : '>' ∉ content) (hrest : Filler rest) :
      Filler (space ++ '<' :: '?' :: (content ++ '?' :: '>' :: rest))

/-- Elements that are written side by side. An element without children and text may have a
single tag. -/
inductive Spelled : List Element → List Char → Prop
  | nil {filler : List Char} (hfiller : Filler filler) : Spelled [] filler
  | empty {filler tail text : List Char} {name : String} {attributes : List Attribute}
      {written : List WrittenAttribute} {siblings : List Element} (hfiller : Filler filler)
      (hattributes : List.Forall₂ Attribute.Spelled attributes written)
      (htail : ∀ c ∈ tail, isSpace c = true) (hnext : Spelled siblings text) :
      Spelled (⟨name, attributes, [], ""⟩ :: siblings)
        (filler ++ '<' :: (name.toList ++ (attributesText written tail ++ '/' :: '>' :: text)))
  | element {filler tail before inside stop text : List Char} {name own : String}
      {attributes : List Attribute} {written : List WrittenAttribute}
      {children siblings : List Element} (hfiller : Filler filler)
      (hattributes : List.Forall₂ Attribute.Spelled attributes written)
      (htail : ∀ c ∈ tail, isSpace c = true) (hbefore : Filler before)
      (hinside : Spelled children inside) (hstop : ∀ c ∈ stop, isSpace c = true)
      (hnext : Spelled siblings text) :
      Spelled (⟨name, attributes, children, own⟩ :: siblings)
        (filler ++ '<' :: (name.toList ++ (attributesText written tail ++ '>' ::
          (before ++ (escaped own.toList ++ (inside ++ '<' :: '/' ::
            (name.toList ++ (stop ++ '>' :: text))))))))

theorem Filler.starts {filler : List Char} (h : Filler filler) (markup : List Char) :
    ∃ space rest, filler ++ '<' :: markup = space ++ '<' :: rest ∧
      ∀ c ∈ space, isSpace c = true := by
  cases h with
  | spaces hspace => exact ⟨filler, markup, rfl, hspace⟩
  | comment hspace _ _ => exact ⟨_, _, by rw [List.append_assoc]; rfl, hspace⟩
  | instruction hspace _ _ _ => exact ⟨_, _, by rw [List.append_assoc]; rfl, hspace⟩

theorem Spelled.starts_of_cons {first : Element} {siblings : List Element} {text : List Char}
    (h : Spelled (first :: siblings) text) :
    ∃ space rest, text = space ++ '<' :: rest ∧ ∀ c ∈ space, isSpace c = true := by
  cases h with
  | empty hfiller _ _ _ => exact hfiller.starts _
  | element hfiller _ _ _ _ _ _ => exact hfiller.starts _

theorem Spelled.starts {elements : List Element} {text : List Char} (h : Spelled elements text)
    (markup : List Char) :
    ∃ space rest, text ++ '<' :: markup = space ++ '<' :: rest ∧
      ∀ c ∈ space, isSpace c = true := by
  cases elements with
  | nil =>
      cases h with
      | nil hfiller => exact hfiller.starts markup
  | cons first siblings =>
      obtain ⟨space, rest, rfl, hspace⟩ := h.starts_of_cons
      exact ⟨space, _, by rw [List.append_assoc]; rfl, hspace⟩

theorem not_mem_name {name : String} (hname : isName name = true) {x : Char}
    (hx : isNameChar x = false) : x ∉ name.toList := by
  intro hmem
  unfold isName at hname
  rw [Bool.and_eq_true, List.all_eq_true] at hname
  rw [hname.2 x hmem] at hx
  cases hx

theorem name_not_special {name : String} (hname : isName name = true) {special : Char → Bool}
    (hspecial : ∀ c, special c = true → isNameChar c = false) :
    ∀ c ∈ name.toList, special c = false := by
  intro c hc
  rw [Bool.eq_false_iff]
  exact fun h => not_mem_name hname (hspecial c h) hc

theorem isNameChar_of_isSpace {c : Char} (h : isSpace c = true) : isNameChar c = false := by
  unfold isSpace at h
  simp only [Bool.or_eq_true, beq_iff_eq] at h
  rcases h with ((rfl | rfl) | rfl) | rfl <;> decide

theorem isNameChar_of_isQuote {c : Char} (h : isQuote c = true) : isNameChar c = false := by
  rw [isQuote, Bool.or_eq_true, beq_iff_eq, beq_iff_eq] at h
  rcases h with rfl | rfl <;> decide

theorem localString_name {name : String} (hname : isName name = true) :
    localString name.toList = name := by
  have hcolon : ':' ∉ name.toList := not_mem_name hname (by decide)
  have hcut : cut (· == ':') name.toList = (name.toList, []) := by
    refine cut_eq_nil_iff.mpr ⟨rfl, fun c hc => ?_⟩
    rw [beq_eq_false_iff_ne]
    rintro rfl
    exact hcolon hc
  unfold localString localName
  simp only [hcut, String.ofList_toList]

theorem exists_cons_of_isName {name : String} (hname : isName name = true) :
    ∃ c others, name.toList = c :: others ∧ (c ≠ '/' ∧ c ≠ '?' ∧ c ≠ '!') := by
  cases hlist : name.toList with
  | nil =>
      unfold isName at hname
      rw [hlist] at hname
      cases hname
  | cons c others =>
      refine ⟨c, others, rfl, ?_, ?_, ?_⟩ <;>
        exact fun heq => not_mem_name hname (by rw [heq]; decide : isNameChar c = false)
          (hlist ▸ List.mem_cons_self)

theorem escape_cases (c : Char) :
    (∃ name, escape c = '&' :: (name ++ [';']) ∧ (name, c) ∈ predefined) ∨
      escape c = [c] ∧ ∀ entry ∈ predefined, entry.2 ≠ c := by
  unfold escape
  cases hfind : predefined.find? fun entry => entry.2 == c with
  | some entry =>
      obtain ⟨name, meant⟩ := entry
      obtain rfl : meant = c := by simpa using List.find?_some hfind
      exact .inl ⟨name, rfl, List.mem_of_find?_eq_some hfind⟩
  | none =>
      refine .inr ⟨rfl, fun entry hentry => ?_⟩
      simpa using List.find?_eq_none.mp hfind entry hentry

theorem predefined_names : ∀ entry ∈ predefined,
    entry.1.all Char.isAlpha = true ∧ predefined.lookup entry.1 = some entry.2 := by
  decide

theorem isAlpha_of_mem_predefined {entry : List Char × Char} (hentry : entry ∈ predefined) :
    ∀ c ∈ entry.1, c.isAlpha = true :=
  List.all_eq_true.mp (predefined_names entry hentry).1

theorem not_mem_escaped (entry : List Char × Char) (hentry : entry ∈ predefined)
    (hne : entry.2 ≠ '&') (text : List Char) : entry.2 ∉ escaped text := by
  have hspecial : ∀ entry ∈ predefined, entry.2.isAlpha = false ∧ entry.2 ≠ ';' := by decide
  intro hmem
  obtain ⟨c, -, hc⟩ := List.mem_flatMap.mp hmem
  rcases escape_cases c with ⟨name, hescape, hname⟩ | ⟨hescape, hplain⟩
  · rw [hescape, List.mem_cons, List.mem_append, List.mem_singleton] at hc
    rcases hc with hamp | hletter | hsemicolon
    · exact hne hamp
    · have halpha := isAlpha_of_mem_predefined hname _ hletter
      rw [(hspecial entry hentry).1] at halpha
      cases halpha
    · exact (hspecial entry hentry).2 hsemicolon
  · rw [hescape, List.mem_singleton] at hc
    exact hplain entry hentry hc

theorem referenceName?_of_predefined {entry : List Char × Char} (hentry : entry ∈ predefined)
    (rest : List Char) : referenceName? (entry.1 ++ ';' :: rest) = some (entry.1, rest) := by
  have hcut : cut (fun c => c == '&' || c == ';') (entry.1 ++ ';' :: rest) =
      (entry.1, ';' :: rest) := by
    refine cut_eq_cons_iff.mpr ⟨rfl, fun c hc => ?_, rfl⟩
    have halpha := isAlpha_of_mem_predefined hentry c hc
    rw [Bool.eq_false_iff]
    intro h
    rw [Bool.or_eq_true, beq_iff_eq, beq_iff_eq] at h
    rcases h with rfl | rfl <;> cases halpha
  unfold referenceName?
  simp only [hcut]

theorem referenced_of_predefined {entry : List Char × Char} (hentry : entry ∈ predefined)
    (start stop : Nat) : referenced start stop entry.1 = .ok entry.2 := by
  unfold referenced
  split
  · next digits heq =>
      have halpha := isAlpha_of_mem_predefined hentry '#' (heq ▸ List.mem_cons_self)
      cases halpha
  · rw [(predefined_names entry hentry).2]

theorem resolveFrom_escaped (text : List Char) (length place : Nat) :
    resolveFrom length place (escaped text) = .ok text := by
  induction text generalizing place with
  | nil =>
      rw [escaped, List.flatMap_nil, resolveFrom]
  | cons c text ih =>
      rw [escaped, List.flatMap_cons]
      rcases escape_cases c with ⟨name, hescape, hname⟩ | ⟨hescape, hplain⟩
      · have hreference := referenceName?_of_predefined hname (escaped text)
        have hmeant := fun start stop => referenced_of_predefined hname start stop
        rw [hescape]
        simp only [List.cons_append, List.append_assoc, List.nil_append]
        rw [resolveFrom, if_pos rfl]
        split
        · next hnone =>
            rw [show name ++ ';' :: text.flatMap escape = name ++ ';' :: escaped text from rfl,
              hreference] at hnone
            cases hnone
        · next found after hsome =>
            rw [show name ++ ';' :: text.flatMap escape = name ++ ';' :: escaped text from rfl,
              hreference] at hsome
            obtain ⟨rfl, rfl⟩ : name = found ∧ escaped text = after := by simpa using hsome
            exact bind_eq_ok_iff.mpr ⟨c, hmeant _ _, bind_eq_ok_iff.mpr ⟨text, ih _, rfl⟩⟩
      · have hamp : c ≠ '&' := (hplain ("amp".toList, '&') (by decide)).symm
        rw [hescape, List.singleton_append, resolveFrom, if_neg hamp]
        exact bind_eq_ok_iff.mpr ⟨text, ih _, rfl⟩

theorem resolve_escaped (text : List Char) : resolve (escaped text) = .ok text :=
  resolveFrom_escaped text _ 0

end Rubato.Markup
