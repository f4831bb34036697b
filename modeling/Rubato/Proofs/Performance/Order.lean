import Rubato.Proofs.Performance.Numbering
import Rubato.Proofs.Performance.Times

namespace Rubato

def NoteEvent.InOrder (first second : NoteEvent ℚ) : Prop :=
  first.time < second.time ∨ first.time = second.time ∧ first.pitch ≤ second.pitch

instance (first second : NoteEvent ℚ) : Decidable (first.InOrder second) :=
  inferInstanceAs (Decidable (first.time < second.time ∨
    first.time = second.time ∧ first.pitch ≤ second.pitch))

theorem NoteEvent.inOrder_iff {first second : NoteEvent ℚ} :
    first.InOrder second ↔
      toLex (first.time, first.pitch) ≤ toLex (second.time, second.pitch) := by
  rw [Prod.Lex.toLex_le_toLex]
  rfl

instance : Trans NoteEvent.InOrder NoteEvent.InOrder NoteEvent.InOrder where
  trans := by
    intro first second third hfirst hsecond
    rw [NoteEvent.inOrder_iff] at hfirst hsecond ⊢
    exact hfirst.trans hsecond

namespace PlayedNote

/-- Played notes whose events are in order: a time before the score counts as its
start. -/
def OutputInOrder (first second : PlayedNote ℚ) : Prop :=
  max first.time 0 < max second.time 0 ∨
    max first.time 0 = max second.time 0 ∧ first.pitch ≤ second.pitch

theorem notAfter_iff {first second : PlayedNote ℚ} :
    notAfter first second = true ↔
      first.time < second.time ∨ first.time = second.time ∧ first.pitch ≤ second.pitch := by
  unfold notAfter order
  simp only [Quantity.order]
  by_cases hbefore : first.time < second.time
  · simp [hbefore]
  · by_cases hsame : first.time = second.time
    · simp [hsame, Nat.isLE_compare]
    · simp [hbefore, hsame]

/-- Sorting by the played times leaves only notes up to the start of the score to
compare. -/
theorem outputInOrder_iff {first second : PlayedNote ℚ} (h : notAfter first second = true) :
    first.OutputInOrder second ↔
      (first.time < second.time → second.time ≤ 0 → first.pitch ≤ second.pitch) := by
  rw [notAfter_iff] at h
  unfold OutputInOrder
  rcases h with hbefore | ⟨hsame, hpitch⟩
  · rcases le_or_gt second.time 0 with hstart | hlater
    · simp [max_eq_right (hbefore.le.trans hstart), hbefore, hstart]
    · have hmax : max first.time 0 < max second.time 0 :=
        max_lt (lt_max_of_lt_left hbefore) (lt_max_of_lt_left hlater)
      simp [hmax, not_le.mpr hlater]
  · simp [hsame, hpitch]

end PlayedNote

namespace NoteEvent

theorem isChain_ofNotes_iff (idPrefix : String) (notes : List (PlayedNote ℚ)) :
    (ofNotes idPrefix notes).IsChain InOrder ↔
      (notes.mergeSort PlayedNote.notAfter).Pairwise PlayedNote.OutputInOrder := by
  rw [List.isChain_iff_pairwise]
  unfold ofNotes
  generalize notes.mergeSort PlayedNote.notAfter = sorted
  rw [List.pairwise_iff_getElem, List.pairwise_iff_getElem]
  simp only [List.length_mapIdx, List.getElem_mapIdx, InOrder, ofPlayed,
    Quantity.greater_eq_max]
  rfl

theorem ofNotes_inOrder_iff (idPrefix : String) (notes : List (PlayedNote ℚ)) :
    (ofNotes idPrefix notes).IsChain InOrder ↔
      ∀ first ∈ notes, ∀ second ∈ notes, first.time < second.time → second.time ≤ 0 →
        first.pitch ≤ second.pitch := by
  have hsorted := List.pairwise_mergeSort PlayedNote.notAfter_trans
    PlayedNote.notAfter_total notes
  have hmem : ∀ note, note ∈ notes.mergeSort PlayedNote.notAfter ↔ note ∈ notes :=
    fun note => List.mem_mergeSort
  rw [isChain_ofNotes_iff]
  constructor
  · intro houtput first hfirst second hsecond hbefore hstart
    obtain ⟨one, hone, rfl⟩ := List.getElem_of_mem ((hmem first).mpr hfirst)
    obtain ⟨two, htwo, rfl⟩ := List.getElem_of_mem ((hmem second).mpr hsecond)
    rw [List.pairwise_iff_getElem] at hsorted houtput
    rcases lt_trichotomy one two with hlt | rfl | hgt
    · exact (PlayedNote.outputInOrder_iff (hsorted one two hone htwo hlt)).mp
        (houtput one two hone htwo hlt) hbefore hstart
    · exact absurd hbefore (lt_irrefl _)
    · -- Sorted the other way round, the second note would not be later.
      have hordered := PlayedNote.notAfter_iff.mp (hsorted two one htwo hone hgt)
      rcases hordered with hbehind | ⟨hsame, _⟩
      · exact absurd hbefore hbehind.asymm
      · exact absurd hbefore hsame.not_gt
  · intro hrise
    apply hsorted.imp_of_mem
    intro first second hfirst hsecond hordered
    rw [PlayedNote.outputInOrder_iff hordered]
    exact hrise first ((hmem first).mp hfirst) second ((hmem second).mp hsecond)

end NoteEvent

namespace Score

variable {score : Score ℚ}

theorem WellFormed.grounded_playedParts (hscore : score.WellFormed) (number : Nat) :
    ∀ note ∈ (score.playedParts number).value.flatten,
      note.Grounded (score.tempoMap number).value := by
  intro note hnote
  rw [value_playedParts] at hnote
  obtain ⟨notes, hnotes, hmem⟩ := List.mem_flatten.mp hnote
  obtain ⟨part, hpart, rfl⟩ := List.mem_map.mp hnotes
  exact (hscore part hpart).grounded_played (hscore.tempoMap number) note hmem

/-- The events of a score are in order exactly when no higher note is played earlier than
a lower one that is not behind the start of the score. Only grace notes are played
before the score, and only where there are ramps. -/
theorem noteEvents_inOrder_iff (hscore : score.IsRead) (idPrefix : String) :
    let map := (score.tempoMap 0).value
    let played := (score.playedParts 0).value.flatten
    let events := (score.noteEvents idPrefix).value
    (events.IsChain NoteEvent.InOrder ↔
        ∀ first ∈ played, ∀ second ∈ played, first.time < second.time →
          second.time ≤ 0 → first.pitch ≤ second.pitch) ∧
      (∀ note ∈ played, note.time < 0 → note.ornamental = true ∧ map.ramps ≠ []) ∧
      (map.ramps = [] → events.IsChain NoteEvent.InOrder) := by
  intro map played events
  have hgrounded : ∀ note ∈ played, note.Grounded map :=
    hscore.wellFormed.grounded_playedParts 0
  have hiff : events.IsChain NoteEvent.InOrder ↔
      ∀ first ∈ played, ∀ second ∈ played, first.time < second.time →
        second.time ≤ 0 → first.pitch ≤ second.pitch :=
    NoteEvent.ofNotes_inOrder_iff idPrefix played
  refine ⟨hiff, hgrounded, fun hramps => hiff.mpr ?_⟩
  intro first hfirst second _ hbefore hstart
  exact absurd hramps (hgrounded first hfirst (hbefore.trans_le hstart)).2

end Score

/-- A short bar with a ramp over most of it, then a slow one that begins with slashed
grace notes. -/
def gracesBehindRamp (graces : List Letter) : Score ℚ where
  parts := [⟨"P1", [
    { number := "1"
      attributes := ⟨some 1, some ⟨5, 16⟩, none⟩
      elements := [
        .direction ⟨["rit."], none⟩,
        .note (.plain none 1),
        .direction ⟨["a tempo"], none⟩] },
    { number := "2"
      attributes := .none
      elements := .direction ⟨[], some 1⟩ ::
        (graces.map fun letter =>
          .note { Note.plain (some ⟨letter, 0, 4⟩) 0 with grace := some .slashed }) ++
          [.note (.plain (some ⟨.c, 0, 4⟩) 2)] }]⟩]

section Text

open Markup (tagged)

private def pitchText (letter : Letter) : List Char :=
  tagged "pitch" [] [tagged "step" [] [[letter.name]], tagged "octave" [] [['4']]]

private def graceText (letter : Letter) : List Char :=
  tagged "note" [] [tagged "grace" [" slash=", "\"yes\""] [], pitchText letter]

private def wordsText (words : String) : List Char :=
  tagged "direction" [] [tagged "direction-type" [] [tagged "words" [] [words.toList]]]

def gracesBehindRampText (graces : List Letter) : List Char :=
  tagged "score-partwise" [] [tagged "part" [" id=", "\"P1\""] [
    tagged "measure" [" number=", "\"1\""] [
      tagged "attributes" [] [
        tagged "divisions" [] [['1']],
        tagged "time" [] [tagged "beats" [] [['5']], tagged "beat-type" [] [['1', '6']]]],
      wordsText "rit.",
      tagged "note" [] [tagged "rest" [] [], tagged "duration" [] [['1']]],
      wordsText "a tempo"],
    tagged "measure" [" number=", "\"2\""] ([
      tagged "sound" [" tempo=", "\"1\""] []] ++
      graces.map graceText ++ [
      tagged "note" [] [pitchText .c, tagged "duration" [] [['2']]]])]]

end Text

def mapOfRamp : TempoMap ℚ := ⟨[⟨5 / 4, 1⟩], [⟨.ritardando, 0, 1, 120, 120⟩]⟩

theorem tempoMap_gracesBehindRamp (graces : List Letter)
    (hevents : (gracesBehindRamp graces).parts.map Part.events = [mapOfRamp.events])
    (hramps : ((gracesBehindRamp graces).tempoMap 0).value.ramps = mapOfRamp.ramps) :
    ((gracesBehindRamp graces).tempoMap 0).value = mapOfRamp := by
  have hsorted : ((gracesBehindRamp graces).tempoMap 0).value.events = mapOfRamp.events := by
    show (TempoMap.ofPart _).value.events = _
    rw [TempoMap.events_ofPart, List.head_eq_of_cons_eq hevents]
    exact List.mergeSort_singleton _
  exact congr (congrArg TempoMap.mk hsorted) hramps

private theorem value_playedParts_gracesBehindRamp (graces : List Letter)
    (hevents : (gracesBehindRamp graces).parts.map Part.events = [mapOfRamp.events])
    (hramps : ((gracesBehindRamp graces).tempoMap 0).value.ramps = mapOfRamp.ramps) :
    ((gracesBehindRamp graces).playedParts 0).value =
      (gracesBehindRamp graces).parts.map fun part => (part.played mapOfRamp).value := by
  rw [Score.value_playedParts, tempoMap_gracesBehindRamp graces hevents hramps]

/-- The last grace note is lower than the one before it: both are played before the
score, and both start at zero. -/
theorem not_inOrder_gracesBehindRamp :
    (gracesBehindRamp [.c, .e, .d]).IsRead ∧
      ¬((gracesBehindRamp [.c, .e, .d]).noteEvents "note-").value.IsChain NoteEvent.InOrder := by
  have hread : (gracesBehindRamp [.c, .e, .d]).IsRead :=
    Score.isRead_of_characters (gracesBehindRampText [.c, .e, .d]) (by decide +kernel)
  have hplayed := value_playedParts_gracesBehindRamp [.c, .e, .d]
    (by decide +kernel) (by decide +kernel)
  refine ⟨hread, ?_⟩
  rw [Score.value_noteEvents, hplayed, NoteEvent.ofNotes_inOrder_iff]
  decide +kernel

theorem noteEvents_inOrder_iff_gracesBehindRamp :
    (gracesBehindRamp [.c, .d, .e]).IsRead ∧
      ((gracesBehindRamp [.c, .d, .e]).noteEvents "note-").value.IsChain NoteEvent.InOrder := by
  have hread : (gracesBehindRamp [.c, .d, .e]).IsRead :=
    Score.isRead_of_characters (gracesBehindRampText [.c, .d, .e]) (by decide +kernel)
  have hplayed := value_playedParts_gracesBehindRamp [.c, .d, .e]
    (by decide +kernel) (by decide +kernel)
  refine ⟨hread, (Score.noteEvents_inOrder_iff hread "note-").1.mpr ?_⟩
  rw [hplayed]
  decide +kernel

end Rubato
