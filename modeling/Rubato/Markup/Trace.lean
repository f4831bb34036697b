import Rubato.Markup.Event

namespace Rubato.Markup

/-! The events of a whole text. Every event leaves a shorter rest, so a text has at
most as many events as characters, and reading it ends. -/

def Step.Within (bound : Nat) : Step → Prop
  | .event _ _ next => next.rest.length < bound
  | _ => True

theorem Step.Within.mono {smaller larger : Nat} {step : Step}
    (hstep : step.Within smaller) (hle : smaller ≤ larger) : step.Within larger := by
  cases step with
  | finished _ => trivial
  | failed _ _ => trivial
  | event _ _ next => exact Nat.lt_of_lt_of_le hstep hle

theorem length_splitTag? {quote : Option Char} {text tag after : List Char}
    (h : splitTag? quote text = some (tag, after)) : after.length < text.length := by
  induction text generalizing quote tag with
  | nil => cases h
  | cons c rest ih =>
      rw [splitTag?] at h
      split at h
      · cases h
        simp
      · obtain ⟨⟨first, last⟩, hfound, hpair⟩ := Option.map_eq_some_iff.mp h
        cases hpair
        exact Nat.lt_succ_of_lt (ih hfound)

theorem length_splitDoctype? {depth : Nat} {text content after : List Char}
    (h : splitDoctype? depth text = some (content, after)) :
    after.length < text.length := by
  induction text generalizing depth content with
  | nil => cases h
  | cons c rest ih =>
      rw [splitDoctype?] at h
      split at h
      · cases h
        simp
      · obtain ⟨⟨first, last⟩, hfound, hpair⟩ := Option.map_eq_some_iff.mp h
        cases hpair
        exact Nat.lt_succ_of_lt (ih hfound)

theorem length_drop_cut_le (stop : Char → Bool) (text : List Char) :
    ((cut stop text).2.drop 1).length ≤ text.length - 1 := by
  have hcut := length_cut_le stop text
  rw [List.length_drop]
  omega

theorem within_readClose (place offset : Nat) (opened : List (List Char))
    (text : List Char) : (readClose place offset opened text).Within (text.length + 1) := by
  unfold readClose
  dsimp only
  have hdrop := length_drop_cut_le (· == '>') text
  split
  · trivial
  · split
    · simp only [Step.Within]
      omega
    · trivial

theorem within_readInstruction (place offset : Nat) (opened : List (List Char))
    {text : List Char} (htext : text ≠ []) :
    (readInstruction place offset opened text).Within text.length := by
  unfold readInstruction
  dsimp only
  have hdrop := length_drop_cut_le (· == '>') text
  have hpos := List.length_pos_iff.mpr htext
  split
  · simp only [Step.Within]
    omega
  · trivial

theorem within_readTag (place offset : Nat) (opened : List (List Char))
    (text : List Char) : (readTag place offset opened text).Within text.length := by
  unfold readTag
  split
  · trivial
  · next content after hfound =>
      have hlength := length_splitTag? hfound
      dsimp only
      split
      · trivial
      · split <;> exact hlength

theorem within_readCharacterData (place offset : Nat) (opened : List (List Char))
    (text : List Char) :
    (readCharacterData place offset opened text).Within text.length := by
  unfold readCharacterData
  split
  · trivial
  · next content after hfound =>
      have hlength := Text.length_splitAtText? (by decide) hfound
      dsimp only
      split
      · exact hlength
      · trivial

theorem within_readComment (place offset : Nat) (opened : List (List Char))
    (text : List Char) : (readComment place offset opened text).Within text.length := by
  unfold readComment
  split
  · trivial
  · next content after hfound =>
      have hlength := Text.length_splitAtText? (by decide) hfound
      rw [List.length_drop] at hlength
      dsimp only
      split
      · exact Nat.lt_of_lt_of_le hlength (Nat.sub_le _ _)
      · trivial

theorem within_readDoctype (place offset : Nat) (opened : List (List Char))
    (text : List Char) : (readDoctype place offset opened text).Within text.length := by
  unfold readDoctype
  split
  · trivial
  · next content after hfound =>
      have hlength := length_splitDoctype? hfound
      dsimp only
      split
      · split
        · trivial
        · exact hlength
      · trivial

theorem within_readDeclaration (place offset : Nat) (opened : List (List Char))
    (text : List Char) : (readDeclaration place offset opened text).Within text.length := by
  unfold readDeclaration
  split
  · trivial
  split
  · exact within_readCharacterData ..
  split
  · exact within_readComment ..
  split
  · exact within_readDoctype ..
  · trivial

theorem within_readMarkup (place offset : Nat) (opened : List (List Char))
    (text : List Char) : (readMarkup place offset opened text).Within text.length := by
  unfold readMarkup
  split
  · trivial
  · exact within_readClose ..
  · exact within_readInstruction place offset opened (List.cons_ne_nil _ _)
  · exact within_readDeclaration ..
  · exact within_readTag ..

theorem within_readText (place offset : Nat) (opened : List (List Char))
    {text : List Char} (htext : text ≠ []) :
    (readText place offset opened text).Within text.length := by
  unfold readText
  dsimp only
  have hdrop := length_drop_cut_le (· == '<') text
  have hpos := List.length_pos_iff.mpr htext
  split
  · trivial
  · simp only [Step.Within]
    omega

theorem Reader.within_next (reader : Reader) : reader.next.Within reader.rest.length := by
  unfold Reader.next
  split
  · exact within_readMarkup ..
  · dsimp only
    have hlength := length_cut_le (fun c => !isSpace c) reader.rest
    split
    · trivial
    · next markup hrest =>
        rw [hrest, List.length_cons] at hlength
        exact (within_readMarkup ..).mono (by omega)
    · next hne _ => exact (within_readText _ _ _ hne).mono hlength

theorem Reader.length_next {reader next : Reader} {place : Nat} {event : Event}
    (h : reader.next = .event place event next) :
    next.rest.length < reader.rest.length := by
  have hwithin := reader.within_next
  rw [h] at hwithin
  exact hwithin

inductive Ending
  | finished (place : Nat)
  | failed (place : Nat) (fault : Fault)
  deriving DecidableEq, Repr

structure Located where
  place : Nat
  event : Event
  deriving DecidableEq, Repr

structure Trace where
  events : List Located
  ending : Ending
  deriving DecidableEq, Repr

/-- Reads to the end; `earlier` holds the events read before, last one first. -/
def Reader.traceAfter (earlier : List Located) (reader : Reader) : Trace :=
  match h : reader.next with
  | .finished place => ⟨earlier.reverse, .finished place⟩
  | .failed place fault => ⟨earlier.reverse, .failed place fault⟩
  | .event place event next =>
    have := length_next h
    traceAfter (⟨place, event⟩ :: earlier) next
termination_by reader.rest.length

def Reader.trace (reader : Reader) : Trace :=
  reader.traceAfter []

def trace (text : String) : Trace :=
  (Reader.ofText text.toList).trace

theorem Reader.traceAfter_eq (earlier : List Located) (reader : Reader) :
    reader.traceAfter earlier =
      ⟨earlier.reverse ++ reader.trace.events, reader.trace.ending⟩ := by
  suffices h : ∀ (length : Nat) (reader : Reader) (first second : List Located),
      reader.rest.length = length →
      reader.traceAfter (first ++ second) =
        ⟨second.reverse ++ (reader.traceAfter first).events,
          (reader.traceAfter first).ending⟩ by
    simpa [Reader.trace] using h _ reader [] earlier rfl
  intro length
  induction length using Nat.strongRecOn with
  | _ length ih =>
      intro reader first second hlength
      rw [traceAfter, traceAfter]
      split
      · simp
      · simp
      · next place event next hnext =>
          have hshorter := length_next hnext
          exact ih _ (hlength ▸ hshorter) next (⟨place, event⟩ :: first) second rfl

theorem Reader.trace_of_finished {reader : Reader} {place : Nat}
    (h : reader.next = .finished place) : reader.trace = ⟨[], .finished place⟩ := by
  unfold trace
  rw [traceAfter]
  split <;> simp_all

theorem Reader.trace_of_failed {reader : Reader} {place : Nat} {fault : Fault}
    (h : reader.next = .failed place fault) : reader.trace = ⟨[], .failed place fault⟩ := by
  unfold trace
  rw [traceAfter]
  split <;> simp_all

theorem Reader.trace_of_event {reader next : Reader} {place : Nat} {event : Event}
    (h : reader.next = .event place event next) :
    reader.trace = ⟨⟨place, event⟩ :: next.trace.events, next.trace.ending⟩ := by
  unfold trace
  rw [traceAfter]
  split
  · simp_all
  · simp_all
  · next hnext =>
      rw [h] at hnext
      cases hnext
      rw [traceAfter_eq]
      rfl

end Rubato.Markup
