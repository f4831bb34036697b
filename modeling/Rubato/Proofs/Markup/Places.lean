import Rubato.Markup.Element
import Rubato.Proofs.Markup.Piece
import Rubato.Proofs.Markup.Tag

namespace Rubato.Markup

theorem bytes_toList (text : String) : bytes text.toList = text.utf8ByteSize := by
  have hofList : ∀ chars : List Char, bytes chars = (String.ofList chars).utf8ByteSize := by
    intro chars
    induction chars with
    | nil => rfl
    | cons c rest ih =>
        rw [bytes_cons, String.ofList_cons, String.utf8ByteSize_append,
          String.utf8ByteSize_singleton, ih]
  rw [hofList, String.ofList_toList]

theorem bytes_cut (stop : Char → Bool) (text : List Char) :
    bytes (cut stop text).1 + (bytes ((cut stop text).2.take 1) +
      bytes ((cut stop text).2.drop 1)) = bytes text := by
  rw [← bytes_append ((cut stop text).2.take 1), List.take_append_drop, ← bytes_append,
    cut_append]

/-- A step names no place behind the end of the text, and its reader has all the bytes that
are not read yet before it. -/
def Step.Inside (size : Nat) : Step → Prop
  | .finished place => place ≤ size
  | .failed place _ => place ≤ size
  | .event place _ next => place ≤ size ∧ next.offset + bytes next.rest ≤ size

section Places

variable {size place offset : Nat} {opened : List (List Char)} {text : List Char}
  (hplace : place ≤ size)

include hplace

theorem inside_readClose (hsize : offset + 1 + bytes text ≤ size) :
    (readClose place offset opened text).Inside size := by
  have hbytes := bytes_cut (· == '>') text
  unfold readClose
  dsimp only
  split
  · simp only [Step.Inside]
    omega
  · split
    · simp only [Step.Inside]
      omega
    · simp only [Step.Inside]
      omega

theorem inside_readInstruction (hsize : offset + bytes text ≤ size) :
    (readInstruction place offset opened text).Inside size := by
  have hbytes := bytes_cut (· == '>') text
  unfold readInstruction
  dsimp only
  split
  · simp only [Step.Inside]
    omega
  · simp only [Step.Inside]
    omega

theorem inside_readTag (hsize : offset + bytes text ≤ size) :
    (readTag place offset opened text).Inside size := by
  unfold readTag
  split
  · simp only [Step.Inside]
    omega
  · next content after hfound =>
      obtain ⟨rfl, -⟩ := splitTag?_eq_some_iff.mp hfound
      have hgreater : '>'.utf8Size = 1 := rfl
      rw [bytes_append, bytes_cons, hgreater] at hsize
      dsimp only
      split
      · exact hplace
      · split
        all_goals
          simp only [Step.Inside]
          omega

theorem inside_readCharacterData (hsize : offset + bytes text ≤ size) :
    (readCharacterData place offset opened text).Inside size := by
  unfold readCharacterData
  split
  · simp only [Step.Inside]
    omega
  · next content after hfound =>
      obtain rfl := Text.splitAtText?_eq hfound
      have hmark : bytes "]]>".toList = 3 := rfl
      rw [bytes_append, bytes_append, hmark] at hsize
      dsimp only
      split
      · simp only [Step.Inside]
        omega
      · simp only [Step.Inside]
        omega

theorem inside_readComment (hsize : offset + bytes text ≤ size) :
    (readComment place offset opened text).Inside size := by
  unfold readComment
  split
  · simp only [Step.Inside]
    omega
  · next content after hfound =>
      have hmark : bytes "-->".toList = 3 := rfl
      have hbytes : bytes (text.take 3) + bytes (text.drop 3) = bytes text := by
        rw [← bytes_append, List.take_append_drop]
      rw [Text.splitAtText?_eq hfound, bytes_append, bytes_append, hmark] at hbytes
      dsimp only
      split
      · simp only [Step.Inside]
        omega
      · simp only [Step.Inside]
        omega

theorem inside_readDoctype (hsize : offset + bytes text ≤ size) :
    (readDoctype place offset opened text).Inside size := by
  unfold readDoctype
  split
  · simp only [Step.Inside]
    omega
  · next content after hfound =>
      obtain ⟨rfl, -⟩ := splitDoctype?_local hfound
      have hgreater : '>'.utf8Size = 1 := rfl
      rw [bytes_append, bytes_cons, hgreater] at hsize
      dsimp only
      split
      · split
        · simp only [Step.Inside]
          omega
        · simp only [Step.Inside]
          omega
      · simp only [Step.Inside]
        omega

theorem inside_readDeclaration (hsize : offset + bytes text ≤ size) :
    (readDeclaration place offset opened text).Inside size := by
  have hoffset : offset ≤ size := by omega
  unfold readDeclaration
  split
  · exact hoffset
  split
  · exact inside_readCharacterData hplace hsize
  split
  · exact inside_readComment hplace hsize
  split
  · exact inside_readDoctype hplace hsize
  · exact hoffset

theorem inside_readMarkup (hsize : offset + bytes text ≤ size) :
    (readMarkup place offset opened text).Inside size := by
  unfold readMarkup
  split
  · exact hsize
  · refine inside_readClose hplace ?_
    have hslash : '/'.utf8Size = 1 := rfl
    rw [bytes_cons, hslash] at hsize
    omega
  · exact inside_readInstruction hplace hsize
  · exact inside_readDeclaration hplace hsize
  · exact inside_readTag hplace hsize

theorem inside_readText (hsize : offset + bytes text ≤ size) :
    (readText place offset opened text).Inside size := by
  have hbytes := bytes_cut (· == '<') text
  unfold readText
  dsimp only
  split
  · exact hplace
  · simp only [Step.Inside]
    omega

end Places

namespace Reader

variable {size : Nat} {reader : Reader}

theorem inside_next (hsize : reader.offset + bytes reader.rest ≤ size) :
    reader.next.Inside size := by
  have hplace : reader.place ≤ size := by
    unfold place
    split <;> omega
  unfold next
  split
  · exact inside_readMarkup hplace hsize
  · have hbytes : bytes (cut (fun c => !isSpace c) reader.rest).1 +
        bytes (cut (fun c => !isSpace c) reader.rest).2 = bytes reader.rest := by
      rw [← bytes_append, cut_append]
    dsimp only
    split
    · simp only [Step.Inside]
      omega
    · next markup hmarkup =>
        have hless : '<'.utf8Size = 1 := rfl
        rw [hmarkup, bytes_cons, hless] at hbytes
        exact inside_readMarkup hplace (by omega)
    · exact inside_readText hplace (by omega)

end Reader

/-- Reads event after event into a tree, in at most so many turns, one of them for the end. -/
def Reader.elementIn : Nat → Builder → Reader → Option (Except Failure Element)
  | 0, _, _ => none
  | turns + 1, builder, reader =>
    match reader.next with
    | .finished place => some (builder.finish place)
    | .failed place fault => some (.error (.markup place fault))
    | .event place event next =>
      match builder.add event with
      | .error fault => some (.error (.markup place fault))
      | .ok built => next.elementIn turns built

def Trace.elementFrom (builder : Builder) (trace : Trace) : Except Failure Element := do
  let built ← trace.events.foldlM Builder.addLocated builder
  match trace.ending with
  | .finished place => built.finish place
  | .failed place fault => .error (.markup place fault)

theorem Reader.elementIn_eq {turns : Nat} {reader : Reader} (hturns : reader.rest.length < turns)
    (builder : Builder) :
    reader.elementIn turns builder = some (reader.trace.elementFrom builder) := by
  induction turns generalizing reader builder with
  | zero => cases hturns
  | succ turns ih =>
      rw [elementIn]
      cases hnext : reader.next with
      | finished place => rw [trace_of_finished hnext]; rfl
      | failed place fault => rw [trace_of_failed hnext]; rfl
      | event place event next =>
          have hshorter := length_next hnext
          rw [trace_of_event hnext]
          simp only [Trace.elementFrom, List.foldlM_cons, Builder.addLocated]
          cases builder.add event with
          | error fault => rfl
          | ok built => exact ih (by omega) built

theorem Builder.place_of_finish {builder : Builder} {stop place : Nat} {fault : Fault}
    (h : builder.finish stop = .error (.markup place fault)) : place = stop := by
  unfold finish at h
  split at h
  · cases h
    rfl
  · split at h <;> cases h

theorem Reader.place_le_of_elementIn {size turns : Nat} {reader : Reader} {builder : Builder}
    (hsize : reader.offset + bytes reader.rest ≤ size) {place : Nat} {fault : Fault}
    (h : reader.elementIn turns builder = some (.error (.markup place fault))) :
    place ≤ size := by
  induction turns generalizing reader builder with
  | zero => cases h
  | succ turns ih =>
      have hinside := inside_next hsize
      rw [elementIn] at h
      cases hnext : reader.next with
      | finished stop =>
          rw [hnext] at h hinside
          rw [Builder.place_of_finish (Option.some.inj h)]
          exact hinside
      | failed stop found =>
          rw [hnext] at h hinside
          cases h
          exact hinside
      | event start event next =>
          rw [hnext] at h hinside
          dsimp only at h
          split at h
          · cases h
            exact hinside.1
          · exact ih hinside.2 h

theorem Reader.ofText_size (text : List Char) :
    (Reader.ofText text).offset + bytes (Reader.ofText text).rest ≤ bytes text ∧
      (Reader.ofText text).rest.length ≤ bytes text := by
  have hlength := length_le_bytes (Reader.ofText text).rest
  suffices (Reader.ofText text).offset + bytes (Reader.ofText text).rest ≤ bytes text by omega
  unfold ofText
  split
  · dsimp only
    split
    · rw [bytes_cons]
      omega
    · omega
  · exact Nat.le_refl 0

/-- A text is read in at most as many turns as it has bytes, and one for the end, and whatever
is wrong in it is at a place that is not behind its end. -/
theorem readElement_inTurns (text : String) :
    (Reader.ofText text.toList).elementIn (text.utf8ByteSize + 1) Builder.empty =
        some (readElement text) ∧
      ∀ place fault, readElement text = .error (.markup place fault) →
        place ≤ text.utf8ByteSize := by
  obtain ⟨hsize, hlength⟩ := Reader.ofText_size text.toList
  rw [bytes_toList] at hsize hlength
  have hread := Reader.elementIn_eq (Nat.lt_succ_of_le hlength) Builder.empty
  refine ⟨hread, fun place fault hfault => ?_⟩
  exact Reader.place_le_of_elementIn hsize (hread.trans (congrArg some hfault))

/-- The events of `<a><é>`. -/
def unclosed : Trace where
  events := [⟨0, .start "a" []⟩, ⟨3, .start "é" []⟩]
  ending := .finished 7

/-- An element that is still open at the end is at fault there, behind the last byte. -/
theorem readElement_inTurns_unclosed :
    (String.ofList "<a><é>".toList).utf8ByteSize = 7 ∧
      (Reader.ofText (String.ofList "<a><é>".toList).toList).elementIn 8 Builder.empty =
        some (.error (.markup 7 (.unclosed "é"))) ∧
      7 ≤ (String.ofList "<a><é>".toList).utf8ByteSize := by
  have htrace : trace (String.ofList "<a><é>".toList) = unclosed := by
    unfold trace
    rw [String.toList_ofList]
    decide +kernel
  have hsize : (String.ofList "<a><é>".toList).utf8ByteSize = 7 := by
    rw [← bytes_toList, String.toList_ofList]
    decide
  have hread : readElement (String.ofList "<a><é>".toList) =
      .error (.markup 7 (.unclosed "é")) := by
    rw [readElement, htrace]
    rfl
  obtain ⟨hturns, hplaces⟩ := readElement_inTurns (String.ofList "<a><é>".toList)
  rw [hsize, hread] at hturns
  exact ⟨hsize, hturns, hplaces 7 _ hread⟩

end Rubato.Markup
