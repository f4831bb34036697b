import Rubato.Markup.Trace
import Rubato.Proofs.Markup.Written

namespace Rubato.Markup

/-! Every event but a tag is read from a piece of the text that ends with it, and would be
read from that piece whatever stood behind it. -/

def Step.Reads (step : Step) (event : Event) (rest : List Char) (opened : List (List Char))
    (afterText : Bool) : Prop :=
  ∃ place offset, step = .event place event ⟨rest, offset, afterText, opened⟩

/-- The event is read from its own piece of the text, whatever stands behind that. The
piece can reach to the end of the text. -/
structure Consumes (read : Nat → Nat → List Char → Step) (consumed rest : List Char)
    (event : Event) (opened : List (List Char)) (afterText : Bool) : Prop where
  ends : rest = [] ∨ ∃ front x, consumed = front ++ [x] ∧ TempoAttribute.isInner x = false
  reads : ∀ place offset rest', (rest = [] → rest' = []) →
    (read place offset (consumed ++ rest')).Reads event rest' opened afterText

def Event.isTag : Event → Bool
  | .start _ _ => true
  | .empty _ _ => true
  | _ => false

section Pieces

variable {place offset : Nat} {opened opened' : List (List Char)} {text rest : List Char}
  {event : Event} {afterText : Bool}

theorem consumes_of_cut {x : Char} (hx : TempoAttribute.isInner x = false)
    {read : Nat → Nat → List Char → Step} {content after : List Char}
    (hcut : cut (· == x) text = (content, after)) (hrest : rest = after.drop 1)
    (hread : ∀ place offset text after, cut (· == x) text = (content, after) →
      (read place offset text).Reads event (after.drop 1) opened' afterText) :
    ∃ consumed, text = consumed ++ rest ∧
      Consumes read consumed rest event opened' afterText := by
  subst hrest
  cases after with
  | nil =>
      obtain ⟨rfl, -⟩ := cut_eq_nil_iff.mp hcut
      refine ⟨content, (List.append_nil _).symm, .inl rfl, fun place offset rest' hrest => ?_⟩
      obtain rfl := hrest rfl
      rw [List.append_nil]
      exact hread place offset content [] hcut
  | cons c after =>
      obtain ⟨rfl, hcontent, hc⟩ := cut_eq_cons_iff.mp hcut
      obtain rfl : c = x := by simpa using hc
      refine ⟨content ++ [c], by simp, .inr ⟨content, c, rfl, hx⟩,
        fun place offset rest' _ => ?_⟩
      rw [List.append_assoc, List.singleton_append]
      exact hread place offset _ (c :: rest') (cut_eq_cons_iff.mpr ⟨rfl, hcontent, hc⟩)

theorem consumes_of_readClose
    (h : (readClose place offset opened text).Reads event rest opened' afterText) :
    event.isTag = false ∧ ∃ consumed, text = consumed ++ rest ∧
      Consumes (fun place offset => readClose place offset opened) consumed rest event opened'
        afterText := by
  obtain ⟨place', offset', h⟩ := h
  unfold readClose at h
  rcases hcut : cut (· == '>') text with ⟨content, after⟩
  rw [hcut] at h
  cases opened with
  | nil => cases h
  | cons expected outer =>
      dsimp only at h
      split at h
      · next hname =>
          cases h
          refine ⟨rfl, consumes_of_cut (by decide) hcut rfl fun place offset text after hcut => ?_⟩
          simp only [Step.Reads, readClose, hcut, if_pos hname]
          exact ⟨_, _, rfl⟩
      · cases h

theorem consumes_of_readInstruction
    (h : (readInstruction place offset opened text).Reads event rest opened' afterText) :
    event.isTag = false ∧ ∃ consumed, text = consumed ++ rest ∧
      Consumes (fun place offset => readInstruction place offset opened) consumed rest event
        opened' afterText := by
  obtain ⟨place', offset', h⟩ := h
  unfold readInstruction at h
  rcases hcut : cut (· == '>') text with ⟨content, after⟩
  rw [hcut] at h
  dsimp only at h
  split at h
  · next hcontent =>
      cases h
      refine ⟨rfl, consumes_of_cut (by decide) hcut rfl fun place offset text after hcut => ?_⟩
      simp only [Step.Reads, readInstruction, hcut, if_pos hcontent]
      exact ⟨_, _, rfl⟩
  · cases h

theorem consumes_of_readText
    (h : (readText place offset opened text).Reads event rest opened' afterText) :
    (∃ content, event = .text content) ∧ ∃ consumed, text = consumed ++ rest ∧
      Consumes (fun place offset => readText place offset opened) consumed rest event opened'
        afterText := by
  obtain ⟨place', offset', h⟩ := h
  unfold readText at h
  rcases hcut : cut (· == '<') text with ⟨content, after⟩
  rw [hcut] at h
  dsimp only at h
  split at h
  · cases h
  · next resolved hresolved =>
      cases h
      refine ⟨⟨_, rfl⟩, consumes_of_cut (by decide) hcut rfl fun place offset text after hcut => ?_⟩
      simp only [Step.Reads, readText, hcut, hresolved]
      exact ⟨_, _, rfl⟩

end Pieces

theorem isPrefixOf_append_of_le {mark first : List Char} (hlength : mark.length ≤ first.length)
    (rest : List Char) : mark.isPrefixOf (first ++ rest) = mark.isPrefixOf first := by
  induction mark generalizing first with
  | nil => rfl
  | cons m mark ih =>
      cases first with
      | nil => cases hlength
      | cons c first =>
          rw [List.cons_append, List.isPrefixOf_cons_cons, List.isPrefixOf_cons_cons,
            ih (Nat.le_of_succ_le_succ hlength)]

theorem splitAtText?_local {mark : List Char} (hmark : mark ≠ []) {text before after : List Char}
    (h : Text.splitAtText? mark text = some (before, after)) (rest : List Char) :
    Text.splitAtText? mark (before ++ (mark ++ rest)) = some (before, rest) := by
  induction text generalizing before with
  | nil => cases h
  | cons c text ih =>
      have htext := Text.splitAtText?_eq h
      rw [Text.splitAtText?_cons] at h
      split at h
      · cases h
        obtain ⟨m, others, rfl⟩ := List.exists_cons_of_ne_nil hmark
        have hmatch : (m :: others).isPrefixOf (m :: (others ++ rest)) = true :=
          List.isPrefixOf_iff_prefix.mpr (List.prefix_append (m :: others) rest)
        rw [List.nil_append, List.cons_append, Text.splitAtText?_cons, if_pos hmatch,
          ← List.cons_append, List.drop_left]
      · next hnot =>
          obtain ⟨⟨first, last⟩, hfound, hpair⟩ := Option.map_eq_some_iff.mp h
          cases hpair
          have hlength : mark.length ≤ (c :: (first ++ mark)).length := by
            simp only [List.length_cons, List.length_append]
            omega
          have hstart : ∀ rest, mark.isPrefixOf (c :: (first ++ (mark ++ rest))) =
              mark.isPrefixOf (c :: (first ++ mark)) := fun rest => by
            rw [← List.append_assoc, ← List.cons_append, isPrefixOf_append_of_le hlength]
          rw [htext, List.append_assoc, List.cons_append, hstart] at hnot
          rw [List.cons_append, Text.splitAtText?_cons, hstart, if_neg hnot, ih hfound]
          rfl

theorem splitDoctype?_local {depth : Nat} {text content after : List Char}
    (h : splitDoctype? depth text = some (content, after)) :
    text = content ++ '>' :: after ∧
      ∀ rest, splitDoctype? depth (content ++ '>' :: rest) = some (content, rest) := by
  induction text generalizing depth content with
  | nil => cases h
  | cons c text ih =>
      rw [splitDoctype?] at h
      split at h
      · next hend =>
          cases h
          refine ⟨by rw [hend.2, List.nil_append], fun rest => ?_⟩
          rw [List.nil_append, splitDoctype?, if_pos ⟨hend.1, rfl⟩]
      · next hend =>
          obtain ⟨⟨first, last⟩, hfound, hpair⟩ := Option.map_eq_some_iff.mp h
          cases hpair
          obtain ⟨rfl, hlocal⟩ := ih hfound
          refine ⟨rfl, fun rest => ?_⟩
          rw [List.cons_append, splitDoctype?, if_neg hend]
          dsimp only
          rw [hlocal]
          rfl

theorem consumes_of_split {read : Nat → Nat → List Char → Step} {front rest : List Char}
    {event : Event} {opened : List (List Char)}
    (hread : ∀ place offset rest',
      (read place offset (front ++ '>' :: rest')).Reads event rest' opened false) :
    Consumes read (front ++ ['>']) rest event opened false := by
  refine ⟨.inr ⟨front, '>', rfl, by decide⟩, fun place offset rest' _ => ?_⟩
  rw [List.append_assoc, List.singleton_append]
  exact hread place offset rest'

section Declarations

variable {place offset : Nat} {opened opened' : List (List Char)} {text rest : List Char}
  {event : Event} {afterText : Bool}

theorem consumes_of_readCharacterData
    (h : (readCharacterData place offset opened text).Reads event rest opened' afterText) :
    event.isTag = false ∧ ∃ consumed, text = consumed ++ rest ∧ 1 < consumed.length ∧
      Consumes (fun place offset => readCharacterData place offset opened) consumed rest event
        opened' afterText := by
  obtain ⟨place', offset', h⟩ := h
  unfold readCharacterData at h
  split at h
  · cases h
  · next content after hsplit =>
      dsimp only at h
      split at h
      · next hstart =>
          cases h
          have hmark : ∀ rest, content ++ [']', ']'] ++ '>' :: rest =
              content ++ ("]]>".toList ++ rest) := fun rest => List.append_assoc ..
          refine ⟨rfl, content ++ [']', ']'] ++ ['>'], ?_, by simp, consumes_of_split ?_⟩
          · rw [List.append_assoc, List.singleton_append, hmark, ← List.append_assoc]
            exact Text.splitAtText?_eq hsplit
          · intro place offset rest'
            have hlocal := splitAtText?_local (by decide) hsplit rest'
            simp only [Step.Reads, readCharacterData, hmark, hlocal, if_pos hstart]
            exact ⟨_, _, rfl⟩
      · cases h

theorem consumes_of_readComment
    (h : (readComment place offset opened text).Reads event rest opened' afterText) :
    event.isTag = false ∧ ∃ consumed, text = consumed ++ rest ∧ 1 < consumed.length ∧
      Consumes (fun place offset => readComment place offset opened) consumed rest event
        opened' afterText := by
  obtain ⟨place', offset', h⟩ := h
  unfold readComment at h
  split at h
  · cases h
  · next content after hsplit =>
      dsimp only at h
      split at h
      · next hstart =>
          cases h
          have hmark : ∀ rest, text.take 3 ++ (content ++ ['-', '-']) ++ '>' :: rest =
              text.take 3 ++ (content ++ ("-->".toList ++ rest)) := fun rest => by
            rw [List.append_assoc, List.append_assoc]
            rfl
          have hlength : (text.take 3).length = 3 := by rw [hstart]; rfl
          refine ⟨rfl, text.take 3 ++ (content ++ ['-', '-']) ++ ['>'], ?_,
            by rw [List.length_append, List.length_append, hlength]; omega, consumes_of_split ?_⟩
          · rw [List.append_assoc, List.singleton_append, hmark, ← List.append_assoc content,
              ← Text.splitAtText?_eq hsplit, List.take_append_drop]
          · intro place offset rest'
            have hlocal := splitAtText?_local (by decide) hsplit rest'
            simp only [Step.Reads, readComment, hmark, List.drop_left' hlength,
              List.take_left' hlength, hlocal, if_pos hstart]
            exact ⟨_, _, rfl⟩
      · cases h

theorem consumes_of_readDoctype
    (h : (readDoctype place offset opened text).Reads event rest opened' afterText) :
    event.isTag = false ∧ ∃ consumed, text = consumed ++ rest ∧ 1 < consumed.length ∧
      Consumes (fun place offset => readDoctype place offset opened) consumed rest event
        opened' afterText := by
  obtain ⟨place', offset', h⟩ := h
  unfold readDoctype at h
  split at h
  · cases h
  · next content after hsplit =>
      dsimp only at h
      split at h
      · next hstart =>
          split at h
          · cases h
          · next hblank =>
              cases h
              obtain ⟨rfl, hlocal⟩ := splitDoctype?_local hsplit
              have hlength : 0 < content.length := by
                refine List.length_pos_iff.mpr fun hnil => ?_
                rw [hnil] at hstart
                revert hstart
                decide
              refine ⟨rfl, content ++ ['>'], by simp, by simpa using hlength,
                consumes_of_split fun place offset rest' => ?_⟩
              simp only [Step.Reads, readDoctype, hlocal, if_pos hstart, if_neg hblank]
              exact ⟨_, _, rfl⟩
      · cases h

theorem consumes_of_declared {read : Nat → Nat → List Char → Step} {c : Char}
    {others : List Char} (htext : text.drop 1 = c :: others)
    (hkind : ∀ place offset text others, text.drop 1 = c :: others →
      readDeclaration place offset opened text = read place offset text)
    (h : event.isTag = false ∧ ∃ consumed, text = consumed ++ rest ∧ 1 < consumed.length ∧
      Consumes read consumed rest event opened' afterText) :
    event.isTag = false ∧ ∃ consumed, text = consumed ++ rest ∧ consumed ≠ [] ∧
      Consumes (fun place offset => readDeclaration place offset opened) consumed rest event
        opened' afterText := by
  obtain ⟨htag, consumed, rfl, hlength, hends, hreads⟩ := h
  refine ⟨htag, consumed, rfl, List.ne_nil_of_length_pos (by omega), hends, ?_⟩
  intro place offset rest' hrest
  obtain ⟨first, second, behind, rfl⟩ : ∃ first second behind,
      consumed = first :: second :: behind := by
    match consumed, hlength with
    | first :: second :: behind, _ => exact ⟨first, second, behind, rfl⟩
  obtain ⟨rfl, -⟩ := List.cons.inj htext
  show (readDeclaration place offset opened _).Reads _ _ _ _
  rw [hkind place offset _ (behind ++ rest') rfl]
  exact hreads place offset rest' hrest

theorem readDeclaration_of_drop {c : Char} {others : List Char} (htext : text.drop 1 = c :: others)
    (place offset : Nat) (opened : List (List Char)) :
    readDeclaration place offset opened text =
      if c = '[' then readCharacterData place offset opened text
      else if c = '-' then readComment place offset opened text
      else if c = 'D' ∨ c = 'd' then readDoctype place offset opened text
      else .failed offset (.unknownDeclaration (leadingByte c)) := by
  rw [readDeclaration, htext]

theorem consumes_of_readDeclaration
    (h : (readDeclaration place offset opened text).Reads event rest opened' afterText) :
    event.isTag = false ∧ ∃ consumed, text = consumed ++ rest ∧ consumed ≠ [] ∧
      Consumes (fun place offset => readDeclaration place offset opened) consumed rest event
        opened' afterText := by
  cases htext : text.drop 1 with
  | nil =>
      obtain ⟨place', offset', h⟩ := h
      rw [readDeclaration, htext] at h
      cases h
  | cons c others =>
      rw [readDeclaration_of_drop htext] at h
      split at h
      · next hc =>
          refine consumes_of_declared htext (fun place offset text others htext => ?_)
            (consumes_of_readCharacterData h)
          rw [readDeclaration_of_drop htext, if_pos hc]
      · next hc =>
          split at h
          · next hdash =>
              refine consumes_of_declared htext (fun place offset text others htext => ?_)
                (consumes_of_readComment h)
              rw [readDeclaration_of_drop htext, if_neg hc, if_pos hdash]
          · next hdash =>
              split at h
              · next hd =>
                  refine consumes_of_declared htext (fun place offset text others htext => ?_)
                    (consumes_of_readDoctype h)
                  rw [readDeclaration_of_drop htext, if_neg hc, if_neg hdash, if_pos hd]
              · obtain ⟨place', offset', h⟩ := h
                cases h

end Declarations

section Markup

variable {place offset : Nat} {opened opened' : List (List Char)} {text rest : List Char}
  {event : Event} {afterText : Bool}

theorem Consumes.cons {read : Nat → Nat → List Char → Step} {consumed : List Char} {c : Char}
    {inner : Nat → Nat → List Char → Step}
    (h : Consumes inner consumed rest event opened' afterText)
    (hread : ∀ place offset text, read place offset (c :: text) = inner place offset text) :
    Consumes read (c :: consumed) rest event opened' afterText := by
  refine ⟨h.ends.imp id ?_, fun place offset rest' hrest => ?_⟩
  · rintro ⟨front, x, rfl, hx⟩
    exact ⟨c :: front, x, rfl, hx⟩
  · rw [List.cons_append, hread]
    exact h.reads place offset rest' hrest

theorem Consumes.of_head {read : Nat → Nat → List Char → Step} {consumed behind : List Char}
    {c : Char} {inner : Nat → Nat → List Char → Step}
    (h : Consumes inner consumed rest event opened' afterText)
    (hconsumed : c :: behind = consumed ++ rest) (hne : consumed ≠ [])
    (hread : ∀ place offset text, read place offset (c :: text) = inner place offset (c :: text)) :
    Consumes read consumed rest event opened' afterText := by
  obtain ⟨first, others, rfl⟩ := List.exists_cons_of_ne_nil hne
  obtain ⟨rfl, -⟩ := List.cons.inj hconsumed
  refine ⟨h.ends, fun place offset rest' hrest => ?_⟩
  rw [List.cons_append, hread]
  exact h.reads place offset rest' hrest

theorem readMarkup_of_tag {c : Char} (hc : c ≠ '/' ∧ c ≠ '?' ∧ c ≠ '!') (place offset : Nat)
    (rest : List Char) :
    readMarkup place offset opened (c :: rest) = readTag place offset opened (c :: rest) := by
  unfold readMarkup
  split
  · next heq => cases heq
  · next heq => exact absurd (List.cons.inj heq).1 hc.1
  · next heq => exact absurd (List.cons.inj heq).1 hc.2.1
  · next heq => exact absurd (List.cons.inj heq).1 hc.2.2
  · rfl

theorem readMarkup_cases
    (h : (readMarkup place offset opened text).Reads event rest opened' afterText) :
    (event.isTag = false ∧ ∃ consumed, text = consumed ++ rest ∧
      Consumes (fun place offset => readMarkup place offset opened) consumed rest event opened'
        afterText) ∨
      (readTag place offset opened text).Reads event rest opened' afterText ∧
        ∃ c, text.head? = some c ∧ c ≠ '/' ∧ c ≠ '?' ∧ c ≠ '!' := by
  cases text with
  | nil =>
      obtain ⟨place', offset', h⟩ := h
      cases h
  | cons c text =>
      by_cases hslash : c = '/'
      · subst hslash
        obtain ⟨htag, consumed, rfl, hconsumes⟩ := consumes_of_readClose h
        exact .inl ⟨htag, '/' :: consumed, rfl, hconsumes.cons fun _ _ _ => rfl⟩
      by_cases hquestion : c = '?'
      · subst hquestion
        obtain ⟨htag, consumed, hconsumed, hconsumes⟩ := consumes_of_readInstruction h
        have hne : consumed ≠ [] := fun hnil => by
          obtain ⟨place', offset', h⟩ := h
          have hwithin := within_readInstruction place offset opened (List.cons_ne_nil '?' text)
          have hread : readInstruction place offset opened ('?' :: text) = _ := h
          rw [hread, hconsumed, hnil] at hwithin
          exact Nat.lt_irrefl _ hwithin
        exact .inl ⟨htag, consumed, hconsumed,
          hconsumes.of_head hconsumed hne fun _ _ _ => rfl⟩
      by_cases hbang : c = '!'
      · subst hbang
        obtain ⟨htag, consumed, hconsumed, hne, hconsumes⟩ := consumes_of_readDeclaration h
        exact .inl ⟨htag, consumed, hconsumed,
          hconsumes.of_head hconsumed hne fun _ _ _ => rfl⟩
      rw [readMarkup_of_tag ⟨hslash, hquestion, hbang⟩] at h
      exact .inr ⟨h, c, rfl, hslash, hquestion, hbang⟩

end Markup

end Rubato.Markup
