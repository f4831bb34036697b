import Rubato.Proofs.Tempo.Rewriting
import Rubato.Tempo.Cue

namespace Rubato

namespace TempoCue

/-- The text occurs in another one with no letter directly before or behind it. -/
def StandsAlone (mark text : List Char) : Prop :=
  ∃ before after, text = before ++ (mark ++ after) ∧
    (∀ c ∈ before.getLast?, Text.isLetter c = false) ∧
    ∀ c ∈ after.head?, Text.isLetter c = false

/-- A run of letters, as long as it can be. -/
structure IsRun (word text : List Char) : Prop where
  ne_nil : word ≠ []
  letters : ∀ c ∈ word, Text.isLetter c = true
  alone : StandsAlone word text

/-- What a text in small letters means if only whole words count. -/
inductive ByWholeWords (text : List Char) : Option TempoCue → Prop
  | resume (h : ∃ mark ∈ resumeTexts, StandsAlone mark text) :
      ByWholeWords text (some .resume)
  | ritardando (hresume : ¬∃ mark ∈ resumeTexts, StandsAlone mark text)
      (h : ∃ word ∈ ritardandoWords, IsRun word text) :
      ByWholeWords text (some (.ramp .ritardando))
  | accelerando (hresume : ¬∃ mark ∈ resumeTexts, StandsAlone mark text)
      (hritardando : ¬∃ word ∈ ritardandoWords, IsRun word text)
      (h : ∃ word ∈ accelerandoWords, IsRun word text) :
      ByWholeWords text (some (.ramp .accelerando))
  | none (hresume : ¬∃ mark ∈ resumeTexts, StandsAlone mark text)
      (hritardando : ¬∃ word ∈ ritardandoWords, IsRun word text)
      (haccelerando : ¬∃ word ∈ accelerandoWords, IsRun word text) :
      ByWholeWords text .none

section Pieces

variable {p : Char → Bool} {text piece : List Char}

theorem exists_around_of_mem_splitOnP (h : piece ∈ text.splitOnP p) :
    (∀ c ∈ piece, p c = false) ∧ ∃ before after, text = before ++ (piece ++ after) ∧
      (∀ c ∈ before.getLast?, p c = true) ∧ ∀ c ∈ after.head?, p c = true := by
  induction hlength : text.length using Nat.strongRecOn generalizing text with
  | _ length ih =>
      cases hrest : text.dropWhile fun c => !p c with
      | nil =>
          have hnone : ∀ c ∈ text, p c = false := by
            simpa using List.dropWhile_eq_nil_iff.mp hrest
          rw [List.splitOnP_eq_singleton hnone, List.mem_singleton] at h
          subst h
          exact ⟨hnone, [], [], by simp, by simp, by simp⟩
      | cons separator rest =>
          obtain ⟨front, rfl, hfront, hseparator⟩ := dropWhile_eq_cons_iff.mp hrest
          rw [Bool.not_eq_false'] at hseparator
          have hfront : ∀ c ∈ front, p c = false := by simpa using hfront
          rw [List.splitOnP_append_cons_of_forall_mem hfront separator hseparator,
            List.mem_cons] at h
          rcases h with rfl | hbehind
          · exact ⟨hfront, [], separator :: rest, rfl, by simp, by simpa using hseparator⟩
          · have hshorter : rest.length < length := by
              rw [← hlength, List.length_append, List.length_cons]
              omega
            obtain ⟨hpiece, before, after, rfl, hbefore, hafter⟩ := ih _ hshorter hbehind rfl
            refine ⟨hpiece, front ++ separator :: before, after, by simp, fun c hc => ?_, hafter⟩
            rw [List.getLast?_append, List.getLast?_cons, Option.some_or] at hc
            cases hlast : before.getLast? with
            | none =>
                rw [hlast] at hc
                obtain rfl : separator = c := by simpa using hc
                exact hseparator
            | some last =>
                rw [hlast] at hc
                obtain rfl : last = c := by simpa using hc
                exact hbefore last hlast

theorem mem_splitOnP_iff :
    piece ∈ text.splitOnP p ↔
      (∀ c ∈ piece, p c = false) ∧ ∃ before after, text = before ++ (piece ++ after) ∧
        (∀ c ∈ before.getLast?, p c = true) ∧ ∀ c ∈ after.head?, p c = true := by
  refine ⟨exists_around_of_mem_splitOnP, ?_⟩
  rintro ⟨hpiece, before, after, rfl, hbefore, hafter⟩
  have hbehind : piece ∈ (piece ++ after).splitOnP p := by
    cases after with
    | nil => rw [List.append_nil, List.splitOnP_eq_singleton hpiece, List.mem_singleton]
    | cons separator rest =>
        rw [List.splitOnP_append_cons _ _ (hafter separator rfl),
          List.splitOnP_eq_singleton hpiece]
        exact List.mem_append_left _ (List.mem_singleton.mpr rfl)
  rcases List.eq_nil_or_concat before with rfl | ⟨front, separator, rfl⟩
  · exact hbehind
  · rw [List.concat_eq_append] at hbefore ⊢
    rw [List.append_assoc, List.singleton_append,
      List.splitOnP_append_cons _ _ (hbefore separator List.getLast?_concat)]
    exact List.mem_append_right _ hbehind

end Pieces

theorem mem_words_iff {word text : List Char} (hword : word ≠ []) :
    word ∈ words text ↔ IsRun word text := by
  unfold words
  rw [mem_splitOnP_iff]
  simp only [Bool.not_eq_eq_eq_not, Bool.not_false, Bool.not_true]
  exact ⟨fun ⟨hletters, halone⟩ => ⟨hword, hletters, halone⟩,
    fun h => ⟨h.letters, h.alone⟩⟩

theorem hasWord_iff {candidates : List (List Char)} (hcandidates : [] ∉ candidates)
    {text : List Char} :
    hasWord candidates text = true ↔ ∃ word ∈ candidates, IsRun word text := by
  have hne : ∀ word ∈ candidates, word ≠ [] := fun word hword hnil => hcandidates (hnil ▸ hword)
  unfold hasWord
  simp only [List.any_eq_true, List.contains_iff_mem]
  exact ⟨fun ⟨word, htext, hword⟩ => ⟨word, hword, (mem_words_iff (hne word hword)).mp htext⟩,
    fun ⟨word, hword, hrun⟩ => ⟨word, (mem_words_iff (hne word hword)).mpr hrun, hword⟩⟩

theorem standsAlone_iff {mark text : List Char} :
    StandsAlone mark text ↔ ∃ n ∈ List.range (text.length + 1),
      text.drop n = mark ++ text.drop (n + mark.length) ∧
        (text.take n).getLast?.all (fun c => !Text.isLetter c) = true ∧
        (text.drop (n + mark.length)).head?.all (fun c => !Text.isLetter c) = true := by
  simp only [Option.all_eq_true, Bool.not_eq_true']
  constructor
  · rintro ⟨before, after, rfl, hbefore, hafter⟩
    have hbehind : (before ++ (mark ++ after)).drop (before.length + mark.length) = after := by
      rw [← List.append_assoc, ← List.length_append, List.drop_left]
    refine ⟨before.length, by rw [List.mem_range, List.length_append]; omega, ?_, ?_, ?_⟩
    · rw [List.drop_left, hbehind]
    · rwa [List.take_left]
    · rwa [hbehind]
  · rintro ⟨n, -, htext, hbefore, hafter⟩
    exact ⟨text.take n, _, by rw [← htext, List.take_append_drop], hbefore, hafter⟩

instance (mark text : List Char) : Decidable (StandsAlone mark text) :=
  decidable_of_iff _ standsAlone_iff.symm

theorem StandsAlone.infix {mark text : List Char} (h : StandsAlone mark text) :
    mark <:+: text := by
  obtain ⟨before, after, rfl, -, -⟩ := h
  exact ⟨before, after, by rw [List.append_assoc]⟩

theorem resumes_iff {text : List Char} :
    resumeTexts.any (fun mark => Text.occursIn mark text) = true ↔
      ∃ mark ∈ resumeTexts, mark <:+: text := by
  simp only [List.any_eq_true, Text.occursIn_iff_infix]

theorem byWholeWords_of_not_resumes {text : List Char}
    (h : ¬∃ mark ∈ resumeTexts, mark <:+: text) : ByWholeWords text (ofLowercase? text) := by
  have hresume : ¬∃ mark ∈ resumeTexts, StandsAlone mark text :=
    fun ⟨mark, hmark, halone⟩ => h ⟨mark, hmark, halone.infix⟩
  have hritardando : hasWord ritardandoWords text = true ↔ _ := hasWord_iff (by decide)
  have haccelerando : hasWord accelerandoWords text = true ↔ _ := hasWord_iff (by decide)
  unfold ofLowercase?
  rw [if_neg (mt resumes_iff.mp h)]
  split
  · next hword => exact .ritardando hresume (hritardando.mp hword)
  · next hnone =>
      split
      · next hword => exact .accelerando hresume (mt hritardando.mpr hnone) (haccelerando.mp hword)
      · next hneither =>
          exact .none hresume (mt hritardando.mpr hnone) (mt haccelerando.mpr hneither)

theorem ofLowercase?_of_resumes {text : List Char} (h : ∃ mark ∈ resumeTexts, mark <:+: text) :
    ofLowercase? text = some .resume := by
  unfold ofLowercase?
  rw [if_pos (resumes_iff.mpr h)]

/-- The cue of a text is the one by whole words, unless a return to the tempo is only found
inside of longer words: then it is a return. -/
theorem byWholeWords_iff (text : String) :
    (ByWholeWords (Text.lowercase text.toList) (ofWords? text) ↔
      ((∃ mark ∈ resumeTexts, mark <:+: Text.lowercase text.toList) →
        ∃ mark ∈ resumeTexts, StandsAlone mark (Text.lowercase text.toList))) ∧
      (¬ByWholeWords (Text.lowercase text.toList) (ofWords? text) →
        ofWords? text = some .resume) := by
  unfold ofWords?
  generalize Text.lowercase text.toList = lower
  by_cases hresumes : ∃ mark ∈ resumeTexts, mark <:+: lower
  · rw [ofLowercase?_of_resumes hresumes]
    refine ⟨⟨fun h _ => ?_, fun h => .resume (h hresumes)⟩, fun _ => rfl⟩
    cases h with
    | resume h => exact h
  · have h := byWholeWords_of_not_resumes hresumes
    exact ⟨⟨fun _ hresume => absurd hresume hresumes, fun _ => h⟩, fun hnot => absurd h hnot⟩

/-- `a tempo` is found in `senza tempo`, which asks for no return. -/
theorem not_byWholeWords_senzaTempo :
    ¬ByWholeWords (Text.lowercase "senza tempo".toList) (ofWords? "senza tempo") := by
  have hlower : Text.lowercase "senza tempo".toList = "senza tempo".toList := by decide +kernel
  have hresumes : ∃ mark ∈ resumeTexts, mark <:+: "senza tempo".toList :=
    ⟨"a tempo".toList, by decide, "senz".toList, [], rfl⟩
  have hnone : ¬∃ mark ∈ resumeTexts, StandsAlone mark "senza tempo".toList := by decide +kernel
  unfold ofWords?
  rw [hlower, ofLowercase?_of_resumes hresumes]
  intro h
  cases h with
  | resume halone => exact hnone halone

end TempoCue

end Rubato
