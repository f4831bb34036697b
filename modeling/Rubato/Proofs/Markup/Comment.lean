import Rubato.Proofs.Markup.CharacterData
import Rubato.Proofs.Markup.Retexting

namespace Rubato.Markup

/-! A comment says nothing itself, but the data it stands in becomes two runs, each of which
is trimmed. -/

def comment (content : List Char) : List Char :=
  '<' :: '!' :: '-' :: '-' :: (content ++ ['-', '-', '>'])

/-- A text with a comment in it, between two halves of character data. -/
def commented (before first content second after : List Char) : String :=
  String.ofList (before ++ (first ++ (comment content ++ (second ++ '<' :: after))))

/-- The text without the white space at the place where the comment would stand. -/
def squeezed (before first second after : List Char) : String :=
  String.ofList (before ++ (trimSpaceEnd first ++ (second.dropWhile isSpace ++ '<' :: after)))

/-- A text with the character data of an element in it, up to the next `<`, and a place in the
data that is in no reference. -/
structure DataPlace (text before first second after : List Char) : Prop where
  text_eq : text = before ++ (first ++ (second ++ '<' :: after))
  data : '<' ∉ first ++ second
  reached : ∃ turns offset opened,
    (Reader.ofText text).after? turns =
      some ⟨first ++ (second ++ '<' :: after), offset, false, opened⟩ ∧ opened ≠ []
  outside : ¬EndsInReference first

theorem DataPlace.tells {text before first second after : List Char} {place : Nat}
    (h : DataPlace text before first second after)
    (hending : (Reader.ofText text).trace.ending = .finished place) :
    ∃ events opened said later, opened ≠ [] ∧ opened.map localString = openedBy events ∧
      Resolves (trimSpace (first ++ second)) said ∧ Tells opened ('<' :: after) later ∧
      ∀ tail told, Tells opened tail told → ∃ place,
        (Reader.ofText (before ++ tail)).trace.content = events ++ told ∧
          (Reader.ofText (before ++ tail)).trace.ending = .finished place := by
  obtain ⟨rfl, hdata, ⟨turns, offset, opened, hreached, hopened⟩, -⟩ := h
  rw [Reader.ending_of_after? hreached, ← List.append_assoc] at hending
  obtain ⟨said, later, hsaid, hlater⟩ := Reader.data_of_finished hdata hending
  obtain ⟨consumed, events, hrest, hnames, htells⟩ := Reader.tells_of_after? hreached (by simp)
  rw [Reader.opened_ofText] at hnames
  refine ⟨events, opened, said, later, hopened, hnames, hsaid, hlater, fun tail told htold => ?_⟩
  have hne : consumed ≠ [] := by
    rintro rfl
    rcases Reader.shorter_of_after? hreached with hsame | hshorter
    · exact hopened ((congrArg Reader.opened hsame).trans (Reader.opened_ofText _))
    · rw [hrest] at hshorter
      exact Nat.lt_irrefl _ hshorter
  have hwhole := htells tail told htold
  rw [Reader.opened_ofText, Reader.unread, Reader.afterText_ofText,
    if_neg Bool.false_ne_true] at hwhole
  rw [Reader.ofText_append hrest hne]
  exact hwhole 0 _ rfl

theorem DataPlace.rereads {text : String} {before first second after : List Char}
    (h : DataPlace text.toList before first second after) {root : Element}
    (hroot : readElement text = .ok root) :
    ∃ opened said later, ∃ rootOf : String → Element,
      Resolves (trimSpace (first ++ second)) said ∧ Tells opened ('<' :: after) later ∧
      (∀ other, rootOf other = root ↔ other = String.ofList said) ∧
      ∀ {tail : List Char} {texts : List Event} {other : String}, Content texts [] other →
        Tells opened tail (texts ++ later) →
          readElement (String.ofList (before ++ tail)) = .ok (rootOf other) := by
  obtain ⟨place, hending⟩ := Trace.finished_of_element hroot
  have hcloses := closesInnermost_trace text
  rw [← String.ofList_toList (s := text), readElement_eq_ok_iff hending] at hroot
  obtain ⟨events, opened, said, later, hopened, hnames, hsaid, hlater, htells⟩ := h.tells hending
  obtain ⟨_, hwhole, -⟩ := htells _ _ (says_data h.data hsaid hlater)
  rw [List.append_assoc, ← h.text_eq] at hwhole
  have hcontent : (trace text).content = events ++ (dataEvents said ++ later) := hwhole
  rw [hcontent] at hcloses
  rw [hwhole, List.foldlM_append] at hroot
  obtain ⟨⟨found, foundRoot⟩, hbuilt, hroot⟩ := bind_eq_ok_iff.mp hroot
  have hfound := (Builder.reached_of_foldlM hcloses.before hbuilt).openedBy_eq
  cases found with
  | nil => exact absurd (List.map_eq_nil_iff.mp (hnames.trans hfound)) hopened
  | cons parent outer =>
      rw [Builder.foldlM_text (content_dataEvents said)] at hroot
      choose rootOf hrootOf hsame using Builder.exists_root hroot
      refine ⟨opened, said, later, rootOf, hsaid, hlater, hsame, fun htexts htold => ?_⟩
      obtain ⟨_, htail, hendingTail⟩ := htells _ _ htold
      rw [readElement_eq_ok_iff hendingTail, htail, List.foldlM_append, hbuilt]
      exact (Builder.foldlM_text htexts ..).trans (hrootOf _)

theorem tells_comment {content text : List Char} (hcontent : ¬['-', '-'] <:+: content ++ ['-'])
    {opened : List (List Char)} {told : List Event} (h : Tells opened text told) :
    Tells opened (comment content ++ text) (.aside :: told) := by
  have hmark : comment content ++ text =
      '<' :: '!' :: '-' :: '-' :: (content ++ '-' :: '-' :: '>' :: text) := by
    simp [comment]
  rw [hmark]
  exact .of_markup (fun place offset => readMarkup_commentText hcontent _ place offset opened) h

/-- A comment in character data is read as if it stood there without the white space around
it, which is the same only where no white space is lost. -/
theorem readElement_commented {text : String} {before first second after content : List Char}
    (h : DataPlace text.toList before first second after)
    (hcontent : ¬['-', '-'] <:+: content ++ ['-']) {root : Element}
    (hroot : readElement text = .ok root) :
    ∃ root', readElement (commented before first content second after) = .ok root' ∧
      readElement (squeezed before first second after) = .ok root' ∧
      (root' = root ↔ losesSpace first second = false) := by
  obtain ⟨opened, said, later, rootOf, hsaid, hlater, hsame, hread⟩ := h.rereads hroot
  obtain ⟨left, lost, right, rfl, hleft, hright, hlost⟩ := hsaid.halves h.outside
  have hless := h.data
  rw [List.mem_append, not_or] at hless
  have hhalves : Content (dataEvents left ++ .aside :: dataEvents right) []
      (String.ofList (left ++ right)) := by
    rw [List.append_cons, String.ofList_append]
    exact (content_dataEvents left).aside.append (content_dataEvents right)
  have hbare : '<' ∉ trimSpaceEnd first ++ second.dropWhile isSpace := by
    rw [List.mem_append, not_or]
    exact ⟨fun hmem => hless.1 (mem_of_mem_trimSpaceEnd hmem),
      fun hmem => hless.2 ((List.dropWhile_suffix _).mem hmem)⟩
  refine ⟨rootOf (String.ofList (left ++ right)), hread hhalves ?_,
    hread (content_dataEvents (left ++ right)) ?_, ?_⟩
  · rw [List.append_assoc]
    exact says_data hless.1 hleft (tells_comment hcontent (says_data hless.2 hright hlater))
  · rw [← List.append_assoc]
    refine says_data hbare ?_ hlater
    rw [trimSpace_squeezed]
    exact hleft.append hright
  · rw [hsame, String.ofList_inj, ← hlost]
    simp

end Rubato.Markup
