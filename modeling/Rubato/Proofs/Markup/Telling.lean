import Rubato.Proofs.Markup.Nesting
import Rubato.Proofs.Markup.Reader

namespace Rubato.Markup

theorem ne_nil_of_cut {stop : Char → Bool} {c : Char} {others before after : List Char}
    (hc : stop c = false) (h : cut stop (c :: others) = (before, after)) : before ≠ [] := by
  unfold cut at h
  rw [List.takeWhile_cons_of_pos (by simpa using hc)] at h
  rw [← (Prod.mk.inj h).1]
  exact List.cons_ne_nil _ _

theorem readText_data {text content after resolved : List Char} (hne : content ≠ [])
    (hcut : cut (· == '<') text = (content, after))
    (hresolved : resolve (trimSpaceEnd content) = .ok resolved) (place offset : Nat)
    (opened : List (List Char)) :
    ∃ stop, readText place offset opened text =
      .event place (.text (String.ofList resolved)) ⟨after.drop 1, stop + 1, true, opened⟩ := by
  have hlength := length_le_bytes content
  have hpos := List.length_pos_iff.mpr hne
  refine ⟨offset + (bytes content - 1) + bytes (after.take 1), ?_⟩
  simp only [readText, hcut, hresolved]
  congr 2
  omega

/-- From a text on, whatever white space stands before it, some events are read up to the
end. -/
def Tells (opened : List (List Char)) (text : List Char) (events : List Event) : Prop :=
  ∀ (offset : Nat) (spaced : List Char), spaced.dropWhile isSpace = text.dropWhile isSpace →
    ∃ place, (Reader.trace ⟨spaced, offset, false, opened⟩).content = events ∧
      (Reader.trace ⟨spaced, offset, false, opened⟩).ending = .finished place

theorem Reader.trace_eq_of_next_eq {first second : Reader} (h : first.next = second.next) :
    first.trace = second.trace := by
  cases hnext : second.next with
  | finished place => rw [trace_of_finished hnext, trace_of_finished (h.trans hnext)]
  | failed place fault => rw [trace_of_failed hnext, trace_of_failed (h.trans hnext)]
  | event place event next => rw [trace_of_event hnext, trace_of_event (h.trans hnext)]

theorem Reader.next_eq_readMarkup {spaced markup : List Char}
    (hspaced : spaced.dropWhile isSpace = ('<' :: markup).dropWhile isSpace) (offset : Nat)
    (opened : List (List Char)) :
    ∃ stop, Reader.next ⟨spaced, offset, false, opened⟩ =
      readMarkup offset stop opened markup := by
  rw [List.dropWhile_cons_of_neg (by decide)] at hspaced
  obtain ⟨space, rfl, hspace, hless⟩ := dropWhile_eq_cons_iff.mp hspaced
  exact ⟨_, (Reader.next_of_space rfl hspace hless rfl).trans (if_pos rfl)⟩

namespace Tells

variable {opened opened' : List (List Char)} {text rest markup space : List Char}
  {event : Event} {events : List Event}

theorem nil (opened : List (List Char)) : Tells opened [] [] := by
  intro offset spaced hspaced
  have hspace : ∀ c ∈ spaced, isSpace c = true := List.dropWhile_eq_nil_iff.mp hspaced
  rw [Reader.trace_of_finished (Reader.next_of_spaces rfl hspace)]
  exact ⟨_, rfl, rfl⟩

theorem of_spaces (h : Tells opened text events) (hspace : ∀ c ∈ space, isSpace c = true) :
    Tells opened (space ++ text) events := by
  intro offset spaced hspaced
  rw [List.dropWhile_append_of_pos hspace] at hspaced
  exact h offset spaced hspaced

theorem behind_spaces (hspace : ∀ c ∈ space, isSpace c = true)
    (h : Tells opened (space ++ text) events) : Tells opened text events :=
  fun offset spaced hspaced =>
    h offset spaced (by rw [List.dropWhile_append_of_pos hspace]; exact hspaced)

theorem of_markup (hread : ∀ place offset,
      (readMarkup place offset opened markup).Reads event rest opened' false)
    (h : Tells opened' rest events) : Tells opened ('<' :: markup) (event :: events) := by
  intro offset spaced hspaced
  obtain ⟨stop, hnext⟩ := Reader.next_eq_readMarkup hspaced offset opened
  obtain ⟨place, behind, hevent⟩ := hread offset stop
  rw [Reader.trace_of_event (hnext.trans hevent)]
  obtain ⟨last, hcontent, hending⟩ := h behind rest rfl
  exact ⟨last, congrArg (event :: ·) hcontent, hending⟩

theorem of_data {content after resolved : List Char} {c : Char} (hc : isSpace c = false)
    (hless : c ≠ '<') (hhead : text.head? = some c)
    (hcut : cut (· == '<') text = (content, after))
    (hresolved : resolve (trimSpaceEnd content) = .ok resolved)
    (h : Tells opened ('<' :: after.drop 1) events) :
    Tells opened text (.text (String.ofList resolved) :: events) := by
  obtain ⟨others, rfl⟩ := List.head?_eq_some_iff.mp hhead
  intro offset spaced hspaced
  rw [List.dropWhile_cons_of_neg (Bool.eq_false_iff.mp hc)] at hspaced
  obtain ⟨before, rfl, hbefore, -⟩ := dropWhile_eq_cons_iff.mp hspaced
  have hnext : Reader.next ⟨before ++ c :: others, offset, false, opened⟩ = _ :=
    Reader.next_of_space rfl hbefore hc rfl
  rw [if_neg hless] at hnext
  have hne : content ≠ [] := ne_nil_of_cut (by simpa using hless) hcut
  obtain ⟨stop, hevent⟩ := readText_data hne hcut hresolved offset (offset + bytes before) opened
  rw [Reader.trace_of_event (hnext.trans hevent)]
  -- The markup behind the data is read as if its `<` were still to come.
  have hbehind : Reader.trace ⟨after.drop 1, stop + 1, true, opened⟩ =
      Reader.trace ⟨'<' :: after.drop 1, stop, false, opened⟩ := by
    have hless' : Reader.next ⟨[] ++ '<' :: after.drop 1, stop, false, opened⟩ = _ :=
      Reader.next_of_space rfl (by simp) (by decide) rfl
    rw [if_pos rfl] at hless'
    exact Reader.trace_eq_of_next_eq ((Reader.next_of_afterText rfl).trans hless'.symm)
  rw [hbehind]
  obtain ⟨last, hcontent, hending⟩ := h stop ('<' :: after.drop 1) rfl
  exact ⟨last, congrArg (Event.text (String.ofList resolved) :: ·) hcontent, hending⟩

end Tells

section Local

variable {place offset : Nat} {opened opened' : List (List Char)} {text rest : List Char}
  {event : Event} {afterText : Bool}

theorem readTag_reads
    (h : (readTag place offset opened text).Reads event rest opened' afterText) :
    ∃ content, text = content ++ '>' :: rest ∧ ∀ place offset tail,
      (readTag place offset opened (content ++ '>' :: tail)).Reads event tail opened' false := by
  obtain ⟨_, _, h⟩ := h
  cases hsplit : splitTag? none text with
  | none => simp [readTag, hsplit] at h
  | some found =>
      obtain ⟨content, after⟩ := found
      obtain ⟨rfl, hcloses⟩ := splitTag?_eq_some_iff.mp hsplit
      cases hattributes : tagAttributes (tagOf content) with
      | error fault =>
          unfold tagOf at hattributes
          simp [readTag, hsplit, hattributes] at h
      | ok attributes =>
          refine ⟨content, ?_⟩
          simp only [readTag_eq hcloses hattributes] at h ⊢
          split at h
          · next hempty =>
              cases h
              exact ⟨rfl, fun place offset tail => ⟨_, _, by rw [if_pos hempty]⟩⟩
          · next hempty =>
              cases h
              exact ⟨rfl, fun place offset tail => ⟨_, _, by rw [if_neg hempty]⟩⟩

theorem afterText_of_readMarkup
    (h : (readMarkup place offset opened text).Reads event rest opened' afterText) :
    afterText = false := by
  obtain ⟨_, _, h⟩ := h
  revert h
  unfold readMarkup readClose readInstruction readDeclaration readCharacterData readComment
    readDoctype readTag
  dsimp only
  repeat' split
  all_goals simp +contextual

theorem readMarkup_reads
    (h : (readMarkup place offset opened text).Reads event rest opened' afterText) :
    ∃ consumed, text = consumed ++ rest ∧ ∀ place offset tail, (rest = [] → tail = []) →
      (readMarkup place offset opened (consumed ++ tail)).Reads event tail opened' false := by
  have hafter := afterText_of_readMarkup h
  subst hafter
  rcases readMarkup_cases h with ⟨-, consumed, rfl, hconsumes⟩ | ⟨hread, c, hhead, hc⟩
  · exact ⟨consumed, rfl, hconsumes.reads⟩
  · obtain ⟨content, rfl, hreads⟩ := readTag_reads hread
    refine ⟨content ++ ['>'], by simp, fun place offset tail _ => ?_⟩
    have hstart : ∃ others, content ++ '>' :: tail = c :: others := by
      cases content with
      | nil => exact ⟨tail, by rw [← Option.some.inj hhead]; rfl⟩
      | cons d content => exact ⟨_, by rw [← Option.some.inj hhead]; rfl⟩
    obtain ⟨others, hothers⟩ := hstart
    rw [List.append_assoc, List.singleton_append, hothers, readMarkup_of_tag hc, ← hothers]
    exact hreads place offset tail

end Local

/-- A text with the `<` that a reader has read with the data before it. -/
def Reader.unread (reader : Reader) (text : List Char) : List Char :=
  if reader.afterText then '<' :: text else text

section Telling

variable {opened opened' : List (List Char)} {text rest : List Char} {event : Event}
  {events later : List Event} {afterText : Bool}

theorem Tells.of_readMarkup {place offset : Nat}
    (h : (readMarkup place offset opened text).Reads event rest opened' afterText) :
    ∃ consumed, text = consumed ++ rest ∧ ∀ tail later, (rest = [] → tail = []) →
      Tells opened' tail later → Tells opened ('<' :: (consumed ++ tail)) (event :: later) := by
  obtain ⟨consumed, rfl, hreads⟩ := readMarkup_reads h
  exact ⟨consumed, rfl, fun tail later htail hlater =>
    .of_markup (fun place offset => hreads place offset tail htail) hlater⟩

theorem Tells.of_readText {place offset : Nat} {c : Char} (hc : isSpace c = false) (hless : c ≠ '<')
    (h : (readText place offset opened (c :: text)).Reads event rest opened' afterText) :
    opened' = opened ∧ afterText = true ∧ ∃ consumed, c :: text = consumed ++ rest ∧
      ∀ tail later, (rest = [] → tail = []) → Tells opened ('<' :: tail) later →
        Tells opened (consumed ++ tail) (event :: later) := by
  obtain ⟨_, _, h⟩ := h
  unfold readText at h
  rcases hcut : cut (· == '<') (c :: text) with ⟨content, after⟩
  rw [hcut] at h
  dsimp only at h
  split at h
  · cases h
  · next resolved hresolved =>
      cases h
      refine ⟨rfl, rfl, ?_⟩
      cases after with
      | nil =>
          refine ⟨c :: text, (List.append_nil _).symm, fun tail later htail hlater => ?_⟩
          obtain rfl := htail rfl
          rw [List.append_nil]
          exact .of_data hc hless rfl hcut hresolved hlater
      | cons d after =>
          have hne : content ≠ [] := ne_nil_of_cut (by simpa using hless) hcut
          obtain ⟨hwhole, hcontent, hd⟩ := cut_eq_cons_iff.mp hcut
          obtain rfl : d = '<' := by simpa using hd
          refine ⟨content ++ ['<'], by rw [hwhole]; simp, fun tail later _ hlater => ?_⟩
          have hhead : (content ++ '<' :: tail).head? = some c := by
            have hfirst := congrArg List.head? hwhole
            rw [List.head?_append_of_ne_nil _ hne] at hfirst ⊢
            exact hfirst.symm
          rw [List.append_assoc, List.singleton_append]
          exact .of_data hc hless hhead (cut_eq_cons_iff.mpr ⟨rfl, hcontent, rfl⟩) hresolved hlater

theorem Tells.of_next {reader next : Reader} {place : Nat}
    (h : reader.next = .event place event next) :
    ∃ consumed, reader.rest = consumed ++ next.rest ∧ ∀ tail later, (next.rest = [] → tail = []) →
      Tells next.opened (next.unread tail) later →
        Tells reader.opened (reader.unread (consumed ++ tail)) (event :: later) := by
  have hreads : reader.next.Reads event next.rest next.opened next.afterText :=
    ⟨place, next.offset, h⟩
  rcases hafter : reader.afterText with _ | _
  · rcases Reader.spaces_or reader.rest with hspace | ⟨space, c, rest, hrest, hspace, hc⟩
    · rw [Reader.next_of_spaces hafter hspace] at h
      cases h
    · rw [Reader.next_of_space hafter hspace hc hrest] at hreads
      split at hreads
      · next hmarkup =>
          subst hmarkup
          have hnext := afterText_of_readMarkup hreads
          obtain ⟨consumed, rfl, htells⟩ := Tells.of_readMarkup hreads
          refine ⟨space ++ '<' :: consumed, by rw [hrest, List.append_assoc]; rfl, ?_⟩
          intro tail later htail hlater
          rw [Reader.unread, hnext, if_neg Bool.false_ne_true] at hlater
          rw [Reader.unread, hafter, if_neg Bool.false_ne_true, List.append_assoc]
          exact (htells tail later htail hlater).of_spaces hspace
      · next htext =>
          obtain ⟨hopened, hnext, consumed, hconsumed, htells⟩ := Tells.of_readText hc htext hreads
          refine ⟨space ++ consumed, by rw [hrest, hconsumed, List.append_assoc], ?_⟩
          intro tail later htail hlater
          rw [Reader.unread, hnext, if_pos rfl, hopened] at hlater
          rw [Reader.unread, hafter, if_neg Bool.false_ne_true, List.append_assoc]
          exact (htells tail later htail hlater).of_spaces hspace
  · rw [Reader.next_of_afterText hafter] at hreads
    have hnext := afterText_of_readMarkup hreads
    obtain ⟨consumed, hrest, htells⟩ := Tells.of_readMarkup hreads
    refine ⟨consumed, hrest, fun tail later htail hlater => ?_⟩
    rw [Reader.unread, hnext, if_neg Bool.false_ne_true] at hlater
    rw [Reader.unread, hafter, if_pos rfl]
    exact htells tail later htail hlater

theorem Tells.less (opened : List (List Char)) : Tells opened ['<'] [] := by
  intro offset spaced hspaced
  obtain ⟨stop, hnext⟩ := Reader.next_eq_readMarkup hspaced offset opened
  rw [Reader.trace_of_finished hnext]
  exact ⟨_, rfl, rfl⟩

theorem Tells.of_finished {reader : Reader} {place : Nat} (h : reader.next = .finished place) :
    Tells reader.opened (reader.unread reader.rest) [] := by
  rcases hafter : reader.afterText with _ | _
  · rw [Reader.unread, hafter, if_neg Bool.false_ne_true]
    rcases Reader.spaces_or reader.rest with hspace | ⟨space, c, rest, hrest, hspace, hc⟩
    · rw [← List.append_nil reader.rest]
      exact (Tells.nil _).of_spaces hspace
    · rw [Reader.next_of_space hafter hspace hc hrest] at h
      split at h
      · next hmarkup =>
          rw [hrest, hmarkup, Reader.eq_nil_of_readMarkup_finished h]
          exact (Tells.less _).of_spaces hspace
      · exact absurd h (Reader.readText_ne_finished _ _ _ _ _)
  · rw [Reader.next_of_afterText hafter] at h
    rw [Reader.unread, hafter, if_pos rfl, Reader.eq_nil_of_readMarkup_finished h]
    exact Tells.less _

theorem Reader.tells_trace {reader : Reader} {place : Nat}
    (h : reader.trace.ending = .finished place) :
    Tells reader.opened (reader.unread reader.rest) reader.trace.content := by
  induction hlength : reader.rest.length using Nat.strongRecOn generalizing reader with
  | _ length ih =>
      cases hnext : reader.next with
      | finished stop =>
          rw [trace_of_finished hnext]
          exact Tells.of_finished hnext
      | failed stop fault =>
          rw [trace_of_failed hnext] at h
          cases h
      | event start event next =>
          rw [trace_of_event hnext] at h ⊢
          obtain ⟨consumed, hrest, htells⟩ := Tells.of_next hnext
          rw [hrest]
          exact htells next.rest _ id (ih _ (hlength ▸ length_next hnext) h rfl)

def Reader.after? : Nat → Reader → Option Reader
  | 0, reader => some reader
  | turns + 1, reader =>
    match reader.next with
    | .event _ _ next => next.after? turns
    | _ => none

theorem Reader.next_of_after? {turns : Nat} {reader last : Reader}
    (h : reader.after? (turns + 1) = some last) :
    ∃ place event next, reader.next = .event place event next ∧ next.after? turns = some last := by
  rw [after?] at h
  split at h
  · next place event next hnext => exact ⟨place, event, next, hnext, h⟩
  · cases h

theorem Reader.ending_of_after? {turns : Nat} {reader last : Reader}
    (h : reader.after? turns = some last) : reader.trace.ending = last.trace.ending := by
  induction turns generalizing reader with
  | zero => rw [Option.some.inj h]
  | succ turns ih =>
      obtain ⟨place, event, next, hnext, hlast⟩ := next_of_after? h
      rw [trace_of_event hnext]
      exact ih hlast

theorem Reader.tells_of_after? {turns : Nat} {reader last : Reader}
    (h : reader.after? turns = some last) (hne : last.rest ≠ []) :
    ∃ consumed events, reader.rest = consumed ++ last.rest ∧
      last.opened.map localString =
        events.foldl Event.openedAfter (reader.opened.map localString) ∧
      ∀ tail later, Tells last.opened (last.unread tail) later →
        Tells reader.opened (reader.unread (consumed ++ tail)) (events ++ later) := by
  induction turns generalizing reader with
  | zero =>
      obtain rfl := Option.some.inj h
      exact ⟨[], [], rfl, rfl, fun _ _ hlater => hlater⟩
  | succ turns ih =>
      obtain ⟨place, event, next, hnext, hlast⟩ := next_of_after? h
      obtain ⟨consumed, events, hrest, hopened, htells⟩ := ih hlast
      obtain ⟨first, hfirst, htellsFirst⟩ := Tells.of_next hnext
      have hnests := reader.nests_next
      rw [hnext] at hnests
      refine ⟨first ++ consumed, event :: events, by rw [hfirst, hrest, List.append_assoc], ?_, ?_⟩
      · rw [hopened, hnests.2]
        rfl
      · intro tail later hlater
        rw [List.append_assoc]
        exact htellsFirst _ _ (by simp [hrest, hne]) (htells tail later hlater)

end Telling

namespace Reader

theorem shorter_of_after? {turns : Nat} {reader last : Reader}
    (h : reader.after? turns = some last) :
    last = reader ∨ last.rest.length < reader.rest.length := by
  induction turns generalizing reader with
  | zero => exact .inl (Option.some.inj h).symm
  | succ turns ih =>
      obtain ⟨place, event, next, hnext, hlast⟩ := next_of_after? h
      have hshorter := length_next hnext
      rcases ih hlast with rfl | hlength
      · exact .inr hshorter
      · exact .inr (Nat.lt_trans hlength hshorter)

theorem ofText_append {before consumed rest : List Char}
    (hrest : (ofText (before ++ rest)).rest = consumed ++ rest) (hne : consumed ≠ [])
    (tail : List Char) : ofText (before ++ tail) = ⟨consumed ++ tail, 0, false, []⟩ := by
  cases before with
  | nil =>
      have hlength := congrArg List.length hrest
      have hpos := List.length_pos_iff.mpr hne
      rw [List.length_append] at hlength
      unfold ofText at hlength
      split at hlength
      · next heq =>
          rw [List.nil_append] at heq
          dsimp only at hlength
          split at hlength
          all_goals
            simp only [heq, List.nil_append, List.length_cons] at hlength
            omega
      · simp at hlength
        omega
  | cons first before =>
      have hofText : ∀ tail, ofText (first :: before ++ tail) =
          ⟨if first = byteOrderMark then before ++ tail else first :: before ++ tail, 0, false,
            []⟩ := fun _ => rfl
      rw [hofText] at hrest ⊢
      split at hrest
      · next hmark => rw [if_pos hmark, List.append_cancel_right hrest]
      · next hmark => rw [if_neg hmark, List.append_cancel_right hrest]

end Reader

end Rubato.Markup
