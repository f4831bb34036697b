import Rubato.Proofs.Markup.Comment
import Rubato.Proofs.Score.WellFormed

namespace Rubato

open Markup (DataPlace commented losesSpace readElement squeezed)

section Scores

variable {α : Type} [Quantity α]

/-- A comment in the character data of a text that is a score leaves a text that is read as if
the white space on both sides of the comment were not there. The tree of it is that of the
text without the comment exactly where no white space is lost, and then the score is the same. -/
theorem Score.ofText_commented {text : String} {before first second after content : List Char}
    (hplace : DataPlace text.toList before first second after)
    (hcontent : ¬['-', '-'] <:+: content ++ ['-']) {score : Noted α (Score α)}
    (hscore : Score.ofText text = .ok score) :
    (Score.ofText (commented before first content second after) :
        Except Failure (Noted α (Score α))) =
          Score.ofText (squeezed before first second after) ∧
      (readElement (commented before first content second after) = readElement text ↔
        losesSpace first second = false) ∧
      (losesSpace first second = false →
        Score.ofText (commented before first content second after) = .ok score) := by
  obtain ⟨root, hroot, -⟩ := Markup.bind_eq_ok_iff.mp hscore
  obtain ⟨root', hcommented, hsqueezed, hsame⟩ :=
    Markup.readElement_commented hplace hcontent hroot
  have hiff : readElement (commented before first content second after) = readElement text ↔
      losesSpace first second = false := by
    rw [hcommented, hroot, Except.ok.injEq, hsame]
  refine ⟨?_, hiff, fun hkept => ?_⟩
  · rw [Score.ofText, Score.ofText, hcommented, hsqueezed]
  · rw [Score.ofText, hiff.mpr hkept]
    exact hscore

end Scores

section Words

def beforeWords : List Char :=
  "<score-partwise><part><measure><direction><direction-type><words>".toList

def behindWords : List Char :=
  "/words></direction-type></direction></measure></part></score-partwise>".toList

def directionText (words : List Char) : List Char :=
  beforeWords ++ (words ++ '<' :: behindWords)

private def inWords : List (List Char) :=
  ["words".toList, "direction-type".toList, "direction".toList, "measure".toList, "part".toList,
    "score-partwise".toList]

def Score.words {α : Type} (score : Score α) : List String :=
  score.parts.flatMap fun part => part.measures.flatMap fun measure =>
    measure.elements.flatMap fun
      | .direction direction => direction.words
      | _ => []

private theorem reached_words :
    (Markup.Reader.ofText (directionText "a tempo".toList)).after? 6 =
      some ⟨"a tempo".toList ++ '<' :: behindWords, 65, false, inWords⟩ := by
  decide +kernel

private theorem dataPlace_words {first second : List Char}
    (hwords : first ++ second = "a tempo".toList) :
    DataPlace (directionText "a tempo".toList) beforeWords first second behindWords where
  text_eq := by rw [directionText, ← hwords, List.append_assoc]
  data := by rw [hwords]; decide
  reached := ⟨6, 65, inWords, by rw [reached_words, ← hwords, List.append_assoc],
    List.cons_ne_nil _ _⟩
  outside := by
    rintro ⟨front, name, rfl, -⟩
    have hmem : '&' ∈ "a tempo".toList := by
      rw [← hwords]
      simp
    revert hmem
    decide

private theorem read_words :
    ∃ score : Noted ℚ (Score ℚ), Score.ofText (String.ofList (directionText "a tempo".toList)) =
      .ok score ∧ score.value.words = ["a tempo"] :=
  Score.exists_ofText _ (·.value.words) (by decide +kernel)

theorem Score.ofText_commented_withinTempo :
    DataPlace (String.ofList (directionText "a tempo".toList)).toList beforeWords "a te".toList
        "mpo".toList behindWords ∧
      ¬['-', '-'] <:+: " p. 4 ".toList ++ ['-'] ∧
      losesSpace "a te".toList "mpo".toList = false ∧
      ∃ score : Noted ℚ (Score ℚ),
        Score.ofText (String.ofList (directionText "a tempo".toList)) = .ok score ∧
          Score.ofText (commented beforeWords "a te".toList " p. 4 ".toList "mpo".toList
            behindWords) = .ok score := by
  have hplace : DataPlace (String.ofList (directionText "a tempo".toList)).toList beforeWords
      "a te".toList "mpo".toList behindWords := by
    rw [String.toList_ofList]
    exact dataPlace_words rfl
  have hcontent : ¬['-', '-'] <:+: " p. 4 ".toList ++ ['-'] := by decide +kernel
  obtain ⟨score, hscore, -⟩ := read_words
  exact ⟨hplace, hcontent, by decide, score, hscore,
    (Score.ofText_commented hplace hcontent hscore).2.2 (by decide)⟩

/-- Next to white space a comment makes one word of two. -/
theorem Score.not_ofText_commented_beforeTempo :
    DataPlace (String.ofList (directionText "a tempo".toList)).toList beforeWords "a".toList
        " tempo".toList behindWords ∧
      ¬['-', '-'] <:+: " p. 4 ".toList ++ ['-'] ∧
      ∃ score found : Noted ℚ (Score ℚ),
        Score.ofText (String.ofList (directionText "a tempo".toList)) = .ok score ∧
          Score.ofText (commented beforeWords "a".toList " p. 4 ".toList " tempo".toList
            behindWords) = .ok found ∧
          score.value.words = ["a tempo"] ∧ found.value.words = ["atempo"] ∧ found ≠ score := by
  have hplace : DataPlace (String.ofList (directionText "a tempo".toList)).toList beforeWords
      "a".toList " tempo".toList behindWords := by
    rw [String.toList_ofList]
    exact dataPlace_words rfl
  obtain ⟨score, hscore, hwords⟩ := read_words
  obtain ⟨found, hfound, hwords'⟩ : ∃ found : Noted ℚ (Score ℚ), Score.ofText
      (commented beforeWords "a".toList " p. 4 ".toList " tempo".toList behindWords) = .ok found ∧
        found.value.words = ["atempo"] :=
    Score.exists_ofText _ (·.value.words) (by decide +kernel)
  refine ⟨hplace, by decide +kernel, score, found, hscore, hfound, hwords, hwords', ?_⟩
  rintro rfl
  rw [hwords] at hwords'
  exact absurd hwords' (by decide)

end Words

end Rubato
