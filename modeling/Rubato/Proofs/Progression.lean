import Rubato.Proofs.Share
import Rubato.Timeline

namespace Rubato

section Sounding

variable {α : Type}

def MeasureElement.sounds? : MeasureElement α → Option Pitch
  | .note written => written.sounds?
  | _ => none

def Measure.soundingPitches (measure : Measure α) : List Pitch :=
  measure.elements.filterMap MeasureElement.sounds?

def Part.soundingPitches (part : Part α) : List Pitch :=
  part.measures.flatMap Measure.soundingPitches

def Score.soundingPitches (score : Score α) : List Pitch :=
  score.parts.flatMap Part.soundingPitches

def ProgressionEntry.noteName? (entry : ProgressionEntry α) : Option String :=
  match entry.content with
  | .note pitchClass octave => some (pitchClass ++ toString octave)
  | _ => none

def ProgressionEntry.note? (entry : ProgressionEntry α) : Option (ProgressionEntry α) :=
  match entry.content with
  | .note _ _ => some { entry with text := none, lyric := none }
  | _ => none

theorem ProgressionEntry.noteName?_eq_bind (entry : ProgressionEntry α) :
    entry.noteName? = entry.note?.bind noteName? := by
  obtain ⟨bar, beats, content, text, lyric⟩ := entry
  cases content <;> rfl

def OnsetNote.entry (bar : Nat) (beats : α) (note : OnsetNote) : ProgressionEntry α :=
  ⟨bar, beats, Onset.single note, none, none⟩

def Contribution.note? (contribution : Contribution α) : Option OnsetNote :=
  contribution.finding.note?

/-- What is found first at the position of something that is found. -/
def Contribution.leader (contributions : List (Contribution α))
    (contribution : Contribution α) : Contribution α :=
  (contributions.find? fun other => decide (other.thousandths = contribution.thousandths)).getD
    contribution

theorem Contribution.leader_of_filter {contributions others : List (Contribution α)}
    {first contribution : Contribution α} {position : Int}
    (hhere : (contributions.filter fun other => decide (other.thousandths = position)) =
      first :: others) (hmem : contribution ∈ first :: others) :
    contribution.leader contributions = first := by
  rw [← hhere, List.mem_filter, decide_eq_true_iff] at hmem
  unfold leader
  rw [hmem.2, ← List.head?_filter, hhere]
  rfl

end Sounding

variable {α : Type} [Quantity α]

theorem Contribution.note?_ofElement? (skipHarmony : Bool) (meter : Meter) (place : Place α)
    (element : MeasureElement α) :
    (ofElement? skipHarmony meter place element).toList.filterMap note? =
      (element.sounds?.map OnsetNote.ofPitch).toList := by
  cases element with
  | note note =>
      show (note.sounds?.map _).toList.filterMap note? = (note.sounds?.map _).toList
      cases note.sounds? with
      | none => rfl
      | some pitch => rfl
  | harmony harmony =>
      show (if skipHarmony then none else _).toList.filterMap note? = []
      split
      · rfl
      · cases harmony.label? <;> rfl
  | direction mark => rfl
  | backup duration => rfl
  | forward duration => rfl

theorem Contribution.notes_ofElements (skipHarmony : Bool) (meter : Meter) (place : Place α)
    (elements : List (MeasureElement α)) :
    (ofElements skipHarmony meter place elements).filterMap note? =
      (elements.filterMap MeasureElement.sounds?).map OnsetNote.ofPitch := by
  induction elements generalizing place with
  | nil => rfl
  | cons element rest ih =>
      rw [ofElements, List.filterMap_append, note?_ofElement?, ih]
      cases hsounds : element.sounds? with
      | none =>
          rw [List.filterMap_cons_none hsounds]
          rfl
      | some pitch =>
          rw [List.filterMap_cons_some hsounds]
          rfl

namespace Part

theorem notes_contributions (skipHarmony : Bool) (part : Part α) :
    (part.contributions skipHarmony).flatten.filterMap Contribution.note? =
      part.soundingPitches.map OnsetNote.ofPitch := by
  have hmeasures : ∀ (meter : Meter) (measures : List (Measure α)),
      ((meteredFrom meter measures).map fun metered => Contribution.ofElements skipHarmony
          metered.1 Place.start metered.2.elements).flatten.filterMap Contribution.note? =
        (measures.flatMap Measure.soundingPitches).map OnsetNote.ofPitch := by
    intro meter measures
    induction measures generalizing meter with
    | nil => rfl
    | cons measure rest ih =>
        rw [meteredFrom, List.map_cons, List.flatten_cons, List.filterMap_append, ih,
          List.flatMap_cons, List.map_append, Contribution.notes_ofElements]
        rfl
  exact hmeasures .initial part.measures

theorem length_contributions (skipHarmony : Bool) (part : Part α) :
    (part.contributions skipHarmony).length = part.measures.length := by
  have hmetered : ∀ (meter : Meter) (measures : List (Measure α)),
      (meteredFrom meter measures).length = measures.length := by
    intro meter measures
    induction measures generalizing meter with
    | nil => rfl
    | cons measure rest ih => rw [meteredFrom, List.length_cons, List.length_cons, ih]
  unfold contributions
  rw [List.length_map, hmetered]

end Part

namespace Score

def barCount (score : Score α) : Nat :=
  (score.parts.map (·.measures.length)).foldl max 0

/-- What the parts of a score have in a bar, one part after the other. -/
def foundIn (skipHarmony : Bool) (score : Score α) (index : Nat) : List (Contribution α) :=
  score.parts.flatMap fun part => (part.contributions skipHarmony).getD index []

end Score

namespace Onset

omit [Quantity α]

section Contents

variable {onset : Onset α}

theorem sortedNotes_eq_nil_iff : onset.sortedNotes = [] ↔ onset.notes = [] := by
  unfold sortedNotes
  rw [← List.length_eq_zero_iff, List.length_mergeSort, List.length_eq_zero_iff]

theorem contents_of_silent (hnotes : onset.notes = []) (group : Bool) :
    onset.contents group = (onset.harmony.map EntryContent.harmony).toList :=
  if_pos (List.isEmpty_iff.mpr hnotes)

theorem contents_of_sounding (hnotes : onset.notes ≠ []) (group : Bool) :
    onset.contents group =
      if group then [grouped onset.sortedNotes] else onset.sortedNotes.map single :=
  if_neg (mt List.isEmpty_iff.mp hnotes)

theorem contents_ne_nil (h : onset.notes ≠ [] ∨ onset.harmony ≠ none) (group : Bool) :
    onset.contents group ≠ [] := by
  by_cases hnotes : onset.notes = []
  · rw [contents_of_silent hnotes, ne_eq, Option.toList_eq_nil_iff, Option.map_eq_none_iff]
    exact h.resolve_left (not_not_intro hnotes)
  · rw [contents_of_sounding hnotes]
    split
    · exact List.cons_ne_nil _ _
    · rwa [ne_eq, List.map_eq_nil_iff, sortedNotes_eq_nil_iff]

end Contents

theorem notes_ofContributions (first : Contribution α) (others : List (Contribution α)) :
    (ofContributions first others).notes = (first :: others).filterMap Contribution.note? :=
  List.filterMap_map

/-- The onsets of a bar share its notes out among them. Each note takes its beat from what is
found first where it is found. -/
theorem beats_ofBar_perm (contributions : List (Contribution α)) :
    ((ofBar contributions).flatMap fun onset => onset.notes.map (onset.beats, ·)).Perm
      (contributions.filterMap fun contribution =>
        contribution.note?.map ((contribution.leader contributions).beats, ·)) := by
  have hpositions := List.mergeSort_perm (contributions.map (·.thousandths)).eraseDups
    fun first second => decide (first ≤ second)
  have hgathered : contributions.Perm _ := perm_flatMap_filter
    (hpositions.nodup_iff.mpr (nodup_eraseDups _)) (·.thousandths) fun contribution h =>
      hpositions.mem_iff.mpr (List.mem_eraseDups.mpr (List.mem_map_of_mem h))
  refine List.Perm.trans ?_ (hgathered.filterMap _).symm
  unfold ofBar
  rw [List.filterMap_flatMap, List.filterMap_eq_flatMap_toList, List.flatMap_assoc]
  refine List.Perm.of_eq (List.flatMap_congr fun position _ => ?_)
  have hfound : (contributions.filter fun contribution =>
      contribution.thousandths == position) = contributions.filter fun contribution =>
        decide (contribution.thousandths = position) := rfl
  rw [hfound]
  cases hhere : contributions.filter fun contribution =>
      decide (contribution.thousandths = position) with
  | nil => rfl
  | cons first others =>
      rw [Option.toList_some, List.flatMap_singleton, notes_ofContributions, List.map_filterMap]
      refine List.filterMap_congr fun contribution h => ?_
      rw [Contribution.leader_of_filter hhere h]
      rfl

theorem notes_ofBar_perm (contributions : List (Contribution α)) :
    ((ofBar contributions).flatMap (·.notes)).Perm
      (contributions.filterMap Contribution.note?) := by
  have hnotes := (beats_ofBar_perm contributions).map (·.2)
  rw [List.map_flatMap, List.map_filterMap] at hnotes
  simpa only [List.map_map, Option.map_map, Function.comp_def, List.map_id', Option.map_id']
    using hnotes

theorem notes_entries_perm (bar : Nat) (lyric : Option String) (onset : Onset α) :
    ((onset.entries false bar lyric).filterMap ProgressionEntry.note?).Perm
      (onset.notes.map (OnsetNote.entry bar onset.beats)) := by
  have hcontents : (onset.entries false bar lyric).filterMap ProgressionEntry.note? =
      (onset.contents false).filterMap fun content =>
        ProgressionEntry.note? ⟨bar, onset.beats, content, onset.harmony, lyric⟩ :=
    List.filterMap_map
  rw [hcontents]
  by_cases hnotes : onset.notes = []
  · rw [contents_of_silent hnotes, hnotes]
    cases onset.harmony <;> exact .nil
  · rw [contents_of_sounding hnotes, if_neg Bool.false_ne_true, List.filterMap_map]
    have hsingle : (onset.sortedNotes.filterMap
        ((fun content => ProgressionEntry.note?
          ⟨bar, onset.beats, content, onset.harmony, lyric⟩) ∘ single)) =
        onset.sortedNotes.map (OnsetNote.entry bar onset.beats) :=
      congrFun List.filterMap_eq_map onset.sortedNotes
    rw [hsingle]
    exact (List.mergeSort_perm onset.notes _).map _

end Onset

namespace Progression

omit [Quantity α] in
theorem entries_entriesFrom_perm (lyric : Option String) (onsets : List (Nat × Onset α)) :
    ((entriesFrom false lyric onsets).filterMap ProgressionEntry.note?).Perm
      (onsets.flatMap fun item => item.2.notes.map (OnsetNote.entry item.1 item.2.beats)) := by
  induction onsets generalizing lyric with
  | nil => exact .nil
  | cons first rest ih =>
      rw [entriesFrom, List.filterMap_append, List.flatMap_cons]
      exact (first.2.notes_entries_perm first.1 _).append (ih _)

omit [Quantity α] in
theorem notes_entriesFrom_perm (lyric : Option String) (onsets : List (Nat × Onset α)) :
    ((entriesFrom false lyric onsets).filterMap ProgressionEntry.noteName?).Perm
      ((onsets.flatMap (·.2.notes)).map (·.spelling.name)) := by
  have hnames := (entries_entriesFrom_perm lyric onsets).filterMap ProgressionEntry.noteName?
  rw [List.filterMap_filterMap, List.filterMap_flatMap] at hnames
  rw [List.map_flatMap, List.filterMap_congr fun entry _ => entry.noteName?_eq_bind]
  refine hnames.trans (.of_eq (List.flatMap_congr fun item _ => ?_))
  rw [List.filterMap_map]
  exact congrFun List.filterMap_eq_map item.2.notes

omit [Quantity α] in
theorem onset_of_mem_entriesFrom {group : Bool} {lyric : Option String}
    {onsets : List (Nat × Onset α)} {entry : ProgressionEntry α}
    (h : entry ∈ entriesFrom group lyric onsets) :
    ∃ item ∈ onsets, ∃ current, entry ∈ item.2.entries group item.1 current := by
  induction onsets generalizing lyric with
  | nil => cases h
  | cons first rest ih =>
      rcases List.mem_append.mp h with hfirst | hrest
      · exact ⟨first, List.mem_cons_self, _, hfirst⟩
      · obtain ⟨item, hitem, current, hentry⟩ := ih hrest
        exact ⟨item, List.mem_cons_of_mem first hitem, current, hentry⟩

theorem le_foldl_max {count start : Nat} {counts : List Nat}
    (h : count ≤ start ∨ count ∈ counts) : count ≤ counts.foldl max start := by
  induction counts generalizing start with
  | nil => exact h.resolve_right List.not_mem_nil
  | cons first rest ih =>
      refine ih ?_
      rw [List.mem_cons] at h
      rcases h with hstart | rfl | hrest
      · exact .inl (hstart.trans (le_max_left _ _))
      · exact .inl (le_max_right _ _)
      · exact .inr hrest

theorem ofScore_congr {skipHarmony : Bool} {first second : Score α}
    (h : first.parts.map (Part.contributions skipHarmony) =
      second.parts.map (Part.contributions skipHarmony)) (group : Bool) :
    ofScore group skipHarmony first = ofScore group skipHarmony second := by
  have harrays : ∀ score : Score α,
      score.parts.map (fun part => (part.contributions skipHarmony).toArray) =
        (score.parts.map (Part.contributions skipHarmony)).map List.toArray :=
    fun score => List.map_map.symm
  unfold ofScore onsets
  rw [harrays, harrays, h]

theorem onsets_eq (skipHarmony : Bool) (score : Score α) :
    onsets skipHarmony score = (List.range score.barCount).flatMap fun index =>
      (Onset.ofBar (score.foundIn skipHarmony index)).map (index + 1, ·) := by
  have hcounts : (score.parts.map fun part => (part.contributions skipHarmony).toArray).map
      Array.size = score.parts.map (·.measures.length) := by
    rw [List.map_map]
    exact List.map_congr_left fun part _ => part.length_contributions skipHarmony
  unfold onsets Score.barCount Score.foundIn
  dsimp only
  rw [hcounts]
  refine List.flatMap_congr fun index _ => ?_
  rw [List.flatMap_map]
  refine congrArg (fun found => (Onset.ofBar found).map (index + 1, ·)) ?_
  refine List.flatMap_congr fun part _ => ?_
  show (part.contributions skipHarmony).toArray.getD index [] = _
  rw [Array.getD_eq_getD_getElem?, List.getElem?_toArray, List.getD_eq_getElem?_getD]

theorem notes_onsets_perm (skipHarmony : Bool) (score : Score α) :
    ((onsets skipHarmony score).flatMap (·.2.notes)).Perm
      (score.soundingPitches.map OnsetNote.ofPitch) := by
  have hbars : ((onsets skipHarmony score).flatMap (·.2.notes)).Perm
      (((List.range score.barCount).flatMap (score.foundIn skipHarmony)).filterMap
        Contribution.note?) := by
    rw [onsets_eq, List.flatMap_assoc, List.filterMap_flatMap]
    refine List.Perm.flatMap_left _ fun index _ => ?_
    rw [List.flatMap_map]
    exact Onset.notes_ofBar_perm _
  have hparts : (score.parts.flatMap fun part => (List.range score.barCount).flatMap fun index =>
      (part.contributions skipHarmony).getD index []) =
      score.parts.flatMap fun part => (part.contributions skipHarmony).flatten := by
    refine List.flatMap_congr fun part hpart => flatMap_range_getD _ ?_
    rw [part.length_contributions]
    exact le_foldl_max (.inr (List.mem_map_of_mem hpart))
  have hnotes : (score.parts.flatMap fun part =>
        (part.contributions skipHarmony).flatten).filterMap Contribution.note? =
      score.soundingPitches.map OnsetNote.ofPitch := by
    unfold Score.soundingPitches
    rw [List.filterMap_flatMap, List.map_flatMap]
    exact List.flatMap_congr fun part _ => part.notes_contributions skipHarmony
  rw [← hnotes, ← hparts]
  exact hbars.trans ((perm_flatMap_comm _ _ _).filterMap _)

end Progression

/-- Every note that starts to sound has one entry of its own when notes are not grouped. -/
theorem Score.noteNames_progression_perm (score : Score α) (options : Options) :
    ((score.progression { options with groupSimultaneous := false }).filterMap
      ProgressionEntry.noteName?).Perm (score.soundingPitches.map Pitch.name) := by
  have hnotes := (Progression.notes_onsets_perm options.skipHarmony score).map
    (·.spelling.name)
  rw [List.map_map] at hnotes
  exact (Progression.notes_entriesFrom_perm none _).trans hnotes

end Rubato
