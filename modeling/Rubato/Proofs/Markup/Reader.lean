import Rubato.Proofs.Markup.Piece
import Rubato.Proofs.Markup.Tag

namespace Rubato.Markup

/-! Reading a text whose tempo attributes have been replaced: a piece without them is read
as it was, tags keep their names, and comments stay comments. -/

theorem splitAtText?_pass {m : Char} {mark front : List Char} (hfront : m ∉ front)
    (text : List Char) :
    Text.splitAtText? (m :: mark) (front ++ text) =
      (Text.splitAtText? (m :: mark) text).map fun found => (front ++ found.1, found.2) := by
  induction front with
  | nil => simp
  | cons c front ih =>
      rw [List.mem_cons, not_or] at hfront
      have hnot : ¬(m :: mark).isPrefixOf (c :: (front ++ text)) = true := by
        rw [List.isPrefixOf_cons_cons, Bool.and_eq_true, beq_iff_eq]
        exact fun h => hfront.1 h.1
      rw [List.cons_append, Text.splitAtText?_cons, if_neg hnot, ih hfront.2, Option.map_map]
      rfl

theorem splitAtText?_behind {mark front text rest : List Char}
    (h : Text.splitAtText? mark (front ++ (text ++ (mark ++ rest))) = some (front ++ text, rest)) :
    Text.splitAtText? mark (text ++ (mark ++ rest)) = some (text, rest) := by
  induction front with
  | nil => exact h
  | cons c front ih =>
      rw [List.cons_append, Text.splitAtText?_cons] at h
      split at h
      · cases h
      · obtain ⟨⟨first, last⟩, hfound, hpair⟩ := Option.map_eq_some_iff.mp h
        obtain ⟨rfl, rfl⟩ : first = front ++ text ∧ last = rest := by simpa using hpair
        exact ih hfound

theorem not_mem_of_valueAt? {m : Char} (hquote : TempoAttribute.isQuote m = false)
    (hinner : TempoAttribute.isInner m = false) {blank : Bool} {text : List Char}
    {found : TempoAttribute.QuotedValue}
    (hfound : TempoAttribute.valueAt? blank text = some found) :
    m ∉ TempoAttribute.name ++ found.lead ++ [found.quote] := by
  obtain ⟨-, old, -, -, hisQuote, hlead, hopens⟩ := TempoAttribute.of_valueAt? hfound
  obtain ⟨hname, hblank, hequals⟩ :
      m ∉ TempoAttribute.name ∧ Text.isBlank m = false ∧ m ≠ '=' := by
    simpa [TempoAttribute.isInner, and_assoc] using hinner
  have hnotBlank : ∀ blanks : List Char, (∀ c ∈ blanks, Text.isBlank c = true) → m ∉ blanks :=
    fun blanks hblanks hmem => Bool.false_ne_true (hblank.symm.trans (hblanks m hmem))
  have hnotQuote : m ≠ found.quote := by
    rintro rfl
    exact Bool.false_ne_true (hquote.symm.trans hisQuote)
  obtain ⟨first, second, heq, hfirst, hsecond⟩ :=
    TempoAttribute.lead_of_opensValue hlead hisQuote hopens
  rw [heq]
  simp [hname, hequals, hnotBlank first hfirst, hnotBlank second hsecond, hnotQuote]

theorem splitAtText?_replaced {value mark rest : List Char} {m : Char}
    (hmark : ∀ c ∈ m :: mark, TempoAttribute.isQuote c = false)
    (hinner : TempoAttribute.isInner m = false) (hvalue : m ∉ value) {text : List Char}
    (h : Text.splitAtText? (m :: mark) (text ++ (m :: mark ++ rest)) = some (text, rest))
    (blank : Bool) :
    Text.splitAtText? (m :: mark)
        (TempoAttribute.replaced value blank text ++ (m :: mark ++ rest)) =
      some (TempoAttribute.replaced value blank text, rest) := by
  fun_induction TempoAttribute.replaced value blank text with
  | case1 => exact h
  | case2 blank c rest' found hfound hlength ih =>
      obtain ⟨-, old, htext, -⟩ := TempoAttribute.of_valueAt? hfound
      have hbefore := not_mem_of_valueAt? (hmark m List.mem_cons_self) hinner hfound
      have hbehind : Text.splitAtText? (m :: mark) (found.rest ++ (m :: mark ++ rest)) =
          some (found.rest, rest) := by
        have hwhole : c :: rest' = (TempoAttribute.name ++ found.lead ++ found.quote :: old ++
            [found.quote]) ++ found.rest := by
          rw [htext]
          simp
        rw [hwhole, List.append_assoc _ found.rest] at h
        exact splitAtText?_behind h
      have hfront : m ∉ TempoAttribute.name ++ found.lead ++ found.quote :: value ++
          [found.quote] := by
        simp only [List.mem_append, List.mem_cons, not_or] at hbefore ⊢
        exact ⟨⟨hbefore.1, hbefore.2.1, hvalue⟩, hbefore.2⟩
      have hwhole : TempoAttribute.name ++ found.lead ++ found.quote :: value ++
          found.quote :: TempoAttribute.replaced value false found.rest =
            (TempoAttribute.name ++ found.lead ++ found.quote :: value ++ [found.quote]) ++
              TempoAttribute.replaced value false found.rest := by
        simp
      rw [hwhole, List.append_assoc _ (TempoAttribute.replaced value false found.rest),
        splitAtText?_pass hfront, ih hbehind]
      rfl
  | case3 blank c rest' hnone ih =>
      have hmatch : (m :: mark).isPrefixOf (TempoAttribute.replaced value blank (c :: rest') ++
          (m :: mark ++ rest)) = (m :: mark).isPrefixOf (c :: rest' ++ (m :: mark ++ rest)) :=
        TempoAttribute.isPrefixOf_replaced hmark blank (c :: rest') _
      rw [TempoAttribute.replaced_cons hnone] at hmatch
      rw [List.cons_append, Text.splitAtText?_cons] at h ⊢
      rw [List.cons_append] at hmatch
      split at h
      · cases h
      · next hnot =>
          obtain ⟨⟨first, last⟩, hfound, hpair⟩ := Option.map_eq_some_iff.mp h
          obtain ⟨rfl, rfl⟩ : first = rest' ∧ last = rest := by simpa using hpair
          rw [if_neg, ih hfound]
          · rfl
          · rw [hmatch]
            exact hnot

inductive Event.Retimed (value : List Char) : Event → Event → Prop
  | same (event : Event) : Retimed value event event
  | start (name : String) {attributes others : List Attribute}
      (h : List.Forall₂ (Attribute.Retimed value) attributes others) :
      Retimed value (.start name attributes) (.start name others)
  | empty (name : String) {attributes others : List Attribute}
      (h : List.Forall₂ (Attribute.Retimed value) attributes others) :
      Retimed value (.empty name attributes) (.empty name others)

/-- Whether whatever reads as a tempo attribute in the tag at the front of a text is one. -/
def tagTempos (text : List Char) : Bool :=
  (splitTag? none text).all fun found => temposAreAttributes (tagOf found.1)

section Retimed

open TempoAttribute (replaced opens)

variable {value : List Char} {place offset : Nat} {opened opened' : List (List Char)}
  {text rest : List Char} {event : Event} {afterText : Bool}

theorem readTag_eq {content : List Char} (hcloses : closes none content = true)
    {attributes : List Attribute} (hattributes : tagAttributes (tagOf content) = .ok attributes)
    (after : List Char) (place offset : Nat) (opened : List (List Char)) :
    readTag place offset opened (content ++ '>' :: after) =
      if content.getLast? = some '/' then
        .event place (.empty (localString (tagName (tagOf content))) attributes)
          ⟨after, offset + bytes content + 1, false, opened⟩
      else
        .event place (.start (localString (tagName (tagOf content))) attributes)
          ⟨after, offset + bytes content + 1, false, tagName (tagOf content) :: opened⟩ := by
  have hsplit : splitTag? none (content ++ '>' :: after) = some (content, after) :=
    splitTag?_eq_some_iff.mpr ⟨rfl, hcloses⟩
  unfold tagOf at *
  simp only [readTag, hsplit, hattributes]

theorem slash_iff_of_slashOf_eq {first second : List Char} (h : slashOf first = slashOf second) :
    first.getLast? = some '/' ↔ second.getLast? = some '/' := by
  unfold slashOf at h
  split at h <;> split at h <;> simp_all

theorem reads_readTag (hvalue : TempoAttribute.Plain value)
    (h : (readTag place offset opened text).Reads event rest opened' afterText)
    (hquiet : tagTempos text = true) :
    ∃ event', event.Retimed value event' ∧ ∀ place offset,
      (readTag place offset opened (replaced value false text)).Reads event'
        (replaced value false rest) opened' afterText := by
  obtain ⟨_, _, h⟩ := h
  cases hsplit : splitTag? none text with
  | none => simp [readTag, hsplit] at h
  | some found =>
      obtain ⟨content, after⟩ := found
      rw [tagTempos, hsplit, Option.all_some] at hquiet
      obtain ⟨rfl, hcloses⟩ := splitTag?_eq_some_iff.mp hsplit
      cases hattributes : tagAttributes (tagOf content) with
      | error fault =>
          unfold tagOf at hattributes
          simp [readTag, hsplit, hattributes] at h
      | ok attributes =>
          obtain ⟨content', attributes', heq, hcloses', hname, hslash, hattributes', hretimed⟩ :=
            replaced_tag hvalue.quote hvalue.reference hcloses hattributes hquiet after
          have hread := fun place offset =>
            readTag_eq hcloses' hattributes' (replaced value false after) place offset opened
          simp only [hname, slash_iff_of_slashOf_eq hslash] at hread
          rw [readTag_eq hcloses hattributes] at h
          split at h
          · next hempty =>
              cases h
              refine ⟨_, .empty _ hretimed, fun place offset => ?_⟩
              rw [heq, hread, if_pos hempty]
              exact ⟨_, _, rfl⟩
          · next hempty =>
              cases h
              refine ⟨_, .start _ hretimed, fun place offset => ?_⟩
              rw [heq, hread, if_neg hempty]
              exact ⟨_, _, rfl⟩

theorem Consumes.replaced_eq {read : Nat → Nat → List Char → Step} {consumed : List Char}
    (h : Consumes read consumed rest event opened' afterText) {before : List Char}
    (hquiet : opens false (before ++ consumed) = false) :
    replaced value false (before ++ (consumed ++ rest)) =
      before ++ (consumed ++ replaced value false rest) := by
  rcases h.ends with rfl | ⟨front, x, rfl, hx⟩
  · rw [TempoAttribute.replaced_nil, List.append_nil, TempoAttribute.replaced_all hquiet]
  · rw [← List.append_assoc] at hquiet
    have hcopy : replaced value false (before ++ front ++ x :: rest) =
        before ++ front ++ x :: replaced value false rest :=
      TempoAttribute.replaced_copy hx rest hquiet
    simpa only [List.append_assoc, List.singleton_append] using hcopy

theorem Consumes.reads_replaced {read : Nat → Nat → List Char → Step} {consumed : List Char}
    (h : Consumes read consumed rest event opened' afterText) (place offset : Nat) :
    (read place offset (consumed ++ replaced value false rest)).Reads event
      (replaced value false rest) opened' afterText :=
  h.reads place offset _ fun hnil => by rw [hnil, TempoAttribute.replaced_nil]

theorem isTag_of_readTag
    (h : (readTag place offset opened text).Reads event rest opened' afterText) :
    event.isTag = true := by
  obtain ⟨_, _, h⟩ := h
  unfold readTag at h
  split at h
  · cases h
  · dsimp only at h
    split at h
    · cases h
    · split at h <;> cases h <;> rfl

/-- Whether a text begins with a comment, and every tempo attribute that begins in the
comment ends in it. -/
def commentTempos (text : List Char) : Bool :=
  "!--".toList.isPrefixOf text &&
    (Text.splitAtText? "-->".toList (text.drop 3)).any fun found =>
      TempoAttribute.complete false found.1

theorem readMarkup_comment {content : List Char}
    (h : Text.splitAtText? "-->".toList (content ++ ("-->".toList ++ rest)) = some (content, rest))
    (place offset : Nat) (opened : List (List Char)) :
    (readMarkup place offset opened
      ('!' :: '-' :: '-' :: (content ++ ("-->".toList ++ rest)))).Reads
        .aside rest opened false := by
  have hdeclared : ∀ text, readMarkup place offset opened ('!' :: '-' :: text) =
      readComment place offset opened ('!' :: '-' :: text) := fun _ => rfl
  rw [hdeclared, readComment]
  simp only [List.drop_succ_cons, List.drop_zero, h]
  exact ⟨_, _, rfl⟩

theorem replaced_comment {content : List Char} (h : TempoAttribute.complete false content = true) :
    replaced value false ('!' :: '-' :: '-' :: (content ++ ("-->".toList ++ rest))) =
      '!' :: '-' :: '-' :: (replaced value false content ++
        ("-->".toList ++ replaced value false rest)) := by
  have hmark : replaced value false ('-' :: '>' :: rest) =
      '-' :: '>' :: replaced value false rest := by
    rw [TempoAttribute.replaced_cons_false]
    exact congrArg _ (TempoAttribute.replaced_cons_false '>' rest)
  have hcontent : replaced value false (content ++ '-' :: ('-' :: '>' :: rest)) =
      replaced value false content ++ '-' :: replaced value false ('-' :: '>' :: rest) :=
    TempoAttribute.replaced_complete (by decide) (by decide) _ h
  rw [hmark] at hcontent
  have hstart :
      replaced value false ('!' :: '-' :: '-' :: (content ++ '-' :: ('-' :: '>' :: rest))) =
      '!' :: '-' :: '-' :: replaced value false (content ++ '-' :: ('-' :: '>' :: rest)) :=
    TempoAttribute.replaced_copy (by decide) _
      (show opens false (['!', '-'] ++ ['-']) = false from rfl)
  exact hstart.trans (congrArg (fun text => '!' :: '-' :: '-' :: text) hcontent)

theorem reads_comment (hdash : '-' ∉ value)
    (h : (readMarkup place offset opened text).Reads event rest opened' afterText)
    (hcomment : commentTempos text = true) :
    event = .aside ∧ ∀ place offset,
      (readMarkup place offset opened (replaced value false text)).Reads event
        (replaced value false rest) opened' afterText := by
  rw [commentTempos, Bool.and_eq_true] at hcomment
  obtain ⟨others, rfl⟩ := List.isPrefixOf_iff_prefix.mp hcomment.1
  obtain ⟨⟨content, rest'⟩, hfound, hcomplete⟩ := (Option.any_eq_true _ _).mp hcomment.2
  have hsplit : Text.splitAtText? "-->".toList others = some (content, rest') := hfound
  obtain rfl := Text.splitAtText?_eq hsplit
  rw [List.append_assoc] at hsplit h ⊢
  obtain ⟨_, _, hread⟩ := h
  obtain ⟨_, _, hread'⟩ := readMarkup_comment hsplit place offset opened
  obtain ⟨-, rfl, hnext⟩ := Step.event.inj (hread.symm.trans hread')
  cases hnext
  refine ⟨rfl, fun place offset => ?_⟩
  have heq : replaced value false ("!--".toList ++ (content ++ ("-->".toList ++ rest))) = _ :=
    replaced_comment hcomplete
  rw [heq]
  refine readMarkup_comment ?_ place offset opened
  have hmark : "-->".toList = '-' :: ['-', '>'] := rfl
  have hlocal := splitAtText?_local (by decide) hsplit (replaced value false rest)
  rw [hmark] at hlocal ⊢
  have hplain : ∀ c ∈ ['-', '-', '>'], isQuote c = false := by
    simp [isQuote]
  exact splitAtText?_replaced hplain (by decide) hdash hlocal false

def eventTempos (event : Event) (markup consumed : List Char) : Bool :=
  if event.isTag then tagTempos markup
  else event == .aside && commentTempos markup || !opens false consumed

theorem reads_readMarkup (hvalue : TempoAttribute.Plain value)
    (h : (readMarkup place offset opened text).Reads event rest opened' afterText)
    (before : List Char)
    (hbefore : ∀ text, replaced value false (before ++ text) = before ++ replaced value false text)
    (htempos : eventTempos event text
      ((before ++ text).take ((before ++ text).length - rest.length)) = true) :
    ∃ text' event', replaced value false (before ++ text) = before ++ text' ∧
      event.Retimed value event' ∧
      ∀ place offset, (readMarkup place offset opened text').Reads event'
        (replaced value false rest) opened' afterText := by
  unfold eventTempos at htempos
  rcases readMarkup_cases h with ⟨htag, consumed, rfl, hconsumes⟩ | ⟨hread, c, hhead, hc⟩
  · have hpiece : (before ++ (consumed ++ rest)).take
        ((before ++ (consumed ++ rest)).length - rest.length) = before ++ consumed := by
      rw [← List.append_assoc, List.length_append, Nat.add_sub_cancel, List.take_left]
    rw [htag, if_neg Bool.false_ne_true, hpiece, Bool.or_eq_true, Bool.and_eq_true,
      Bool.not_eq_true'] at htempos
    rcases htempos with ⟨-, hcomment⟩ | hquiet
    · exact ⟨_, event, hbefore _, .same event, (reads_comment hvalue.dash h hcomment).2⟩
    · exact ⟨_, event, hconsumes.replaced_eq hquiet, .same event, hconsumes.reads_replaced⟩
  · rw [isTag_of_readTag hread, if_pos rfl] at htempos
    obtain ⟨event', hretimed, hreads⟩ := reads_readTag hvalue hread htempos
    refine ⟨replaced value false text, event', hbefore text, hretimed, fun place offset => ?_⟩
    have hhead' : (replaced value false text).head? = some c :=
      (TempoAttribute.head?_replaced text).trans hhead
    obtain ⟨others, hothers⟩ := List.head?_eq_some_iff.mp hhead'
    rw [hothers, readMarkup_of_tag hc, ← hothers]
    exact hreads place offset

end Retimed

namespace Reader

open TempoAttribute (replaced opens)

/-- The same place in a text with other tempos. -/
structure Retimed (value : List Char) (first second : Reader) : Prop where
  rest : second.rest = replaced value false first.rest
  afterText : second.afterText = first.afterText
  opened : second.opened = first.opened

def markup (reader : Reader) : List Char :=
  if reader.afterText then reader.rest else (reader.rest.dropWhile isSpace).drop 1

def stepTempos (reader : Reader) (event : Event) (next : Reader) : Bool :=
  eventTempos event reader.markup
    (reader.rest.take (reader.rest.length - next.rest.length))

def temposInMarkup (reader : Reader) : Bool :=
  match h : reader.next with
  | .event _ event next =>
    have := length_next h
    reader.stepTempos event next && next.temposInMarkup
  | _ => true
termination_by reader.rest.length

variable {value : List Char} {first second next : Reader} {place : Nat} {event : Event}

theorem replaced_markup_front {space : List Char} (hspace : ∀ c ∈ space, isSpace c = true)
    (text : List Char) :
    replaced value false (space ++ ['<'] ++ text) =
      space ++ ['<'] ++ replaced value false text := by
  have hplain : ∀ c ∈ space ++ ['<'], isQuote c = false := by
    intro c hc
    rw [List.mem_append, List.mem_singleton] at hc
    rcases hc with hc | rfl
    · exact isQuote_of_isSpace (hspace c hc)
    · rfl
  have hcopy := TempoAttribute.opens_of_no_quote hplain false
  simpa using TempoAttribute.replaced_copy (by decide) text hcopy

theorem next_of_space {reader : Reader} (hafter : reader.afterText = false) {space rest : List Char}
    {c : Char} (hspace : ∀ c ∈ space, isSpace c = true) (hc : isSpace c = false)
    (hrest : reader.rest = space ++ c :: rest) :
    reader.next = if c = '<' then
        readMarkup reader.place (reader.offset + bytes space + 1) reader.opened rest
      else readText reader.place (reader.offset + bytes space) reader.opened (c :: rest) := by
  have hcut : cut (fun c => !isSpace c) (space ++ c :: rest) = (space, c :: rest) :=
    cut_eq_cons_iff.mpr ⟨rfl, by simpa using hspace, by simpa using hc⟩
  unfold next
  rw [hafter, if_neg Bool.false_ne_true, hrest, hcut]
  dsimp only
  split
  · next heq => cases heq
  · next heq =>
      obtain ⟨rfl, rfl⟩ := List.cons.inj heq
      rw [if_pos rfl]
  · next hne =>
      rw [if_neg fun heq => hne rest (by rw [heq])]

theorem next_of_spaces {reader : Reader} (hafter : reader.afterText = false)
    (hspace : ∀ c ∈ reader.rest, isSpace c = true) :
    reader.next = .finished (reader.offset + bytes reader.rest) := by
  have hcut : cut (fun c => !isSpace c) reader.rest = (reader.rest, []) :=
    cut_eq_nil_iff.mpr ⟨rfl, by simpa using hspace⟩
  unfold next
  rw [hafter, if_neg Bool.false_ne_true, hcut]

theorem next_of_afterText {reader : Reader} (hafter : reader.afterText = true) :
    reader.next = readMarkup reader.place reader.offset reader.opened reader.rest := by
  unfold next
  rw [hafter, if_pos rfl]

theorem spaces_or (text : List Char) :
    (∀ c ∈ text, isSpace c = true) ∨ ∃ space c rest, text = space ++ c :: rest ∧
      (∀ c ∈ space, isSpace c = true) ∧ isSpace c = false := by
  cases hrest : text.dropWhile isSpace with
  | nil => exact .inl (List.dropWhile_eq_nil_iff.mp hrest)
  | cons c rest =>
      obtain ⟨space, htext, hspace, hc⟩ := dropWhile_eq_cons_iff.mp hrest
      exact .inr ⟨space, c, rest, htext, hspace, hc⟩

/-- Two readers at the same place read the same event but for tempos, and go on at the same
place. -/
def Retimed.Reads (value : List Char) (event : Event) (next second : Reader) : Prop :=
  ∃ event', event.Retimed value event' ∧
    second.next.Reads event' (replaced value false next.rest) next.opened next.afterText

namespace Retimed

variable (h : first.Retimed value second)
  (hreads : first.next.Reads event next.rest next.opened next.afterText)
  (hstep : first.stepTempos event next = true)

include h hreads hstep

theorem reads_markup (hvalue : TempoAttribute.Plain value) (hafter : first.afterText = false)
    {space rest : List Char} (hspace : ∀ c ∈ space, isSpace c = true)
    (hrest : first.rest = space ++ '<' :: rest) : Reads value event next second := by
  have hwhole : first.rest = space ++ ['<'] ++ rest := by
    rw [hrest, List.append_assoc, List.singleton_append]
  rw [next_of_space hafter hspace rfl hrest, if_pos rfl] at hreads
  unfold stepTempos markup at hstep
  rw [hafter, if_neg Bool.false_ne_true, hrest, dropWhile_stop hspace rfl, List.drop_one,
    List.tail_cons, ← hrest, hwhole] at hstep
  obtain ⟨text', event', heq, hevent, hread⟩ := reads_readMarkup hvalue hreads (space ++ ['<'])
    (replaced_markup_front hspace) hstep
  have hsecond : second.rest = space ++ '<' :: text' := by
    rw [h.rest, hwhole, heq, List.append_assoc, List.singleton_append]
  refine ⟨event', hevent, ?_⟩
  rw [next_of_space (h.afterText.trans hafter) hspace rfl hsecond, if_pos rfl, h.opened]
  exact hread _ _

theorem reads_text (hafter : first.afterText = false) {space rest : List Char} {c : Char}
    (hspace : ∀ c ∈ space, isSpace c = true) (hc : isSpace c = false) (htext : c ≠ '<')
    (hrest : first.rest = space ++ c :: rest) : Reads value event next second := by
  rw [next_of_space hafter hspace hc hrest, if_neg htext] at hreads
  obtain ⟨⟨content, rfl⟩, consumed, hconsumed, hconsumes⟩ := consumes_of_readText hreads
  have hne : consumed ≠ [] := fun hnil => by
    obtain ⟨_, _, hread⟩ := hreads
    have hwithin := within_readText first.place (first.offset + bytes space) first.opened
      (List.cons_ne_nil c rest)
    rw [hread, hconsumed, hnil] at hwithin
    exact Nat.lt_irrefl _ hwithin
  have hpiece : first.rest.take (first.rest.length - next.rest.length) = space ++ consumed := by
    rw [hrest, hconsumed, ← List.append_assoc, List.length_append, Nat.add_sub_cancel,
      List.take_left]
  unfold stepTempos eventTempos at hstep
  rw [hpiece] at hstep
  have hquiet : opens false (space ++ consumed) = false := by
    simpa [Event.isTag] using hstep
  obtain ⟨first', others, rfl⟩ := List.exists_cons_of_ne_nil hne
  obtain ⟨rfl, -⟩ := List.cons.inj hconsumed
  have hsecond : second.rest = space ++ c :: (others ++ replaced value false next.rest) := by
    rw [h.rest, hrest, hconsumed, hconsumes.replaced_eq hquiet]
    rfl
  refine ⟨.text content, .same _, ?_⟩
  rw [next_of_space (h.afterText.trans hafter) hspace hc hsecond, if_neg htext, h.opened]
  exact hconsumes.reads_replaced _ _

theorem reads_behindText (hvalue : TempoAttribute.Plain value) (hafter : first.afterText = true) :
    Reads value event next second := by
  rw [next_of_afterText hafter] at hreads
  unfold stepTempos markup at hstep
  rw [hafter, if_pos rfl] at hstep
  obtain ⟨text', event', heq, hevent, hread⟩ :=
    reads_readMarkup hvalue hreads [] (fun _ => rfl) hstep
  refine ⟨event', hevent, ?_⟩
  rw [next_of_afterText (h.afterText.trans hafter), h.opened, h.rest,
    show replaced value false first.rest = text' from heq]
  exact hread _ _

end Retimed

theorem Retimed.next_event (hvalue : TempoAttribute.Plain value)
    (h : first.Retimed value second) (hnext : first.next = .event place event next)
    (hstep : first.stepTempos event next = true) :
    ∃ place' event' next', second.next = .event place' event' next' ∧
      event.Retimed value event' ∧ next.Retimed value next' := by
  have hreads : first.next.Reads event next.rest next.opened next.afterText :=
    ⟨place, next.offset, hnext⟩
  suffices Retimed.Reads value event next second by
    obtain ⟨event', hevent, place', offset', hread⟩ := this
    exact ⟨place', event', _, hread, hevent, rfl, rfl, rfl⟩
  cases hafter : first.afterText with
  | true => exact h.reads_behindText hreads hstep hvalue hafter
  | false =>
      rcases spaces_or first.rest with hspace | ⟨space, c, rest, hrest, hspace, hc⟩
      · rw [next_of_spaces hafter hspace] at hnext
        cases hnext
      · by_cases hmarkup : c = '<'
        · exact h.reads_markup hreads hstep hvalue hafter hspace (hmarkup ▸ hrest)
        · exact h.reads_text hreads hstep hafter hspace hc hmarkup hrest

theorem readDeclaration_ne_finished (place offset : Nat) (opened : List (List Char))
    (text : List Char) (place' : Nat) :
    readDeclaration place offset opened text ≠ .finished place' := by
  unfold readDeclaration readCharacterData readComment readDoctype
  repeat' split
  all_goals simp

theorem readText_ne_finished (place offset : Nat) (opened : List (List Char)) (text : List Char)
    (place' : Nat) : readText place offset opened text ≠ .finished place' := by
  unfold readText
  dsimp only
  split <;> nofun

theorem eq_nil_of_readMarkup_finished {place offset place' : Nat} {opened : List (List Char)}
    {text : List Char} (h : readMarkup place offset opened text = .finished place') :
    text = [] := by
  cases text with
  | nil => rfl
  | cons c text =>
      unfold readMarkup at h
      split at h
      · next heq => cases heq
      · unfold readClose at h
        dsimp only at h
        split at h
        · cases h
        · split at h <;> cases h
      · unfold readInstruction at h
        dsimp only at h
        split at h <;> cases h
      · exact absurd h (readDeclaration_ne_finished _ _ _ _ _)
      · unfold readTag at h
        split at h
        · cases h
        · dsimp only at h
          split at h
          · cases h
          · split at h <;> cases h

theorem Retimed.next_finished (h : first.Retimed value second)
    (hnext : first.next = .finished place) : ∃ place', second.next = .finished place' := by
  rcases hafter : first.afterText with _ | _
  · rcases spaces_or first.rest with hspace | ⟨space, c, rest, hrest, hspace, hc⟩
    · have hplain := TempoAttribute.opens_of_no_quote
        (fun c hc => isQuote_of_isSpace (hspace c hc)) false
      have hrest : second.rest = first.rest := by
        rw [h.rest, TempoAttribute.replaced_all hplain]
      exact ⟨_, next_of_spaces (h.afterText.trans hafter) (hrest ▸ hspace)⟩
    · rw [next_of_space hafter hspace hc hrest] at hnext
      split at hnext
      · next hmarkup =>
          obtain rfl := eq_nil_of_readMarkup_finished hnext
          have hwhole : first.rest = space ++ ['<'] ++ [] := by rw [hrest, hmarkup, List.append_nil]
          have hsecond : second.rest = space ++ c :: [] := by
            rw [h.rest, hwhole, replaced_markup_front hspace, TempoAttribute.replaced_nil,
              List.append_nil, hmarkup]
          rw [next_of_space (h.afterText.trans hafter) hspace hc hsecond, if_pos hmarkup]
          exact ⟨_, rfl⟩
      · exact absurd hnext (readText_ne_finished _ _ _ _ _)
  · rw [next_of_afterText hafter] at hnext
    rw [next_of_afterText (h.afterText.trans hafter), h.rest,
      eq_nil_of_readMarkup_finished hnext, TempoAttribute.replaced_nil]
    exact ⟨_, rfl⟩

theorem temposInMarkup_of_event (hnext : first.next = .event place event next) :
    first.temposInMarkup = (first.stepTempos event next && next.temposInMarkup) := by
  rw [temposInMarkup]
  split
  · next heq =>
      rw [hnext] at heq
      cases heq
      rfl
  · next hne => exact absurd hnext (hne _ _ _)

theorem Retimed.trace (hvalue : TempoAttribute.Plain value)
    (h : first.Retimed value second) (htempos : first.temposInMarkup = true)
    (hfinished : first.trace.ending = .finished place) :
    List.Forall₂ (fun one other => one.event.Retimed value other.event) first.trace.events
        second.trace.events ∧
      ∃ place', second.trace.ending = .finished place' := by
  induction hlength : first.rest.length using Nat.strongRecOn generalizing first second with
  | _ length ih =>
      cases hnext : first.next with
      | finished place' =>
          obtain ⟨other, hother⟩ := h.next_finished hnext
          rw [trace_of_finished hnext, trace_of_finished hother]
          exact ⟨.nil, other, rfl⟩
      | failed place' fault =>
          rw [trace_of_failed hnext] at hfinished
          cases hfinished
      | event place' event next =>
          rw [temposInMarkup_of_event hnext, Bool.and_eq_true] at htempos
          obtain ⟨otherPlace, other, otherNext, hother, hevent, hretimed⟩ :=
            h.next_event hvalue hnext htempos.1
          rw [trace_of_event hnext] at hfinished ⊢
          rw [trace_of_event hother]
          obtain ⟨hevents, hending⟩ :=
            ih _ (hlength ▸ length_next hnext) hretimed htempos.2 hfinished rfl
          exact ⟨.cons hevent hevents, hending⟩

theorem Retimed.ofText (value text : List Char) :
    (Reader.ofText text).Retimed value (Reader.ofText (replaced value false text)) := by
  cases text with
  | nil =>
      rw [TempoAttribute.replaced_nil]
      exact ⟨(TempoAttribute.replaced_nil false).symm, rfl, rfl⟩
  | cons c rest =>
      rw [TempoAttribute.replaced_cons_false]
      refine ⟨?_, rfl, rfl⟩
      unfold Reader.ofText
      dsimp only
      split
      · next hmark =>
          rw [hmark]
          rfl
      · rw [TempoAttribute.replaced_cons_false]

end Reader

/-- Whether whatever reads as a tempo attribute in a text is an attribute of a tag, or ends
in the comment it begins in. -/
def temposInMarkup (text : String) : Bool :=
  (Reader.ofText text.toList).temposInMarkup

end Rubato.Markup
