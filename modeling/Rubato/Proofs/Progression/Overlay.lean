import Mathlib.Order.Bounds.Basic
import Rubato.Proofs.Progression.Onsets

namespace Rubato

variable {α : Type}

def EntryContent.noteNames : EntryContent → List String
  | .note pitchClass octave => [pitchClass ++ toString octave]
  | .group _ notes => notes
  | .harmony _ => []

variable [Quantity α]

namespace Score

/-- The places of some at which a note with a lyric starts to sound. -/
def sungAmong (score : Score α) (places : Set OnsetPlace) : Set OnsetPlace :=
  {place ∈ places | (score.lyricAt place).isSome}

/-- The lyric of the greatest of some places at which there is one. -/
def LastLyric (score : Score α) (places : Set OnsetPlace) (lyric : Option String) : Prop :=
  (∃ sung, IsGreatest (score.sungAmong places) sung ∧ lyric = score.lyricAt sung) ∨
    score.sungAmong places = ∅ ∧ lyric = none

/-- What the entries of a place say: they are its notes, under its chord symbol and the lyric
that it has reached, or its chord symbol alone. -/
structure Overlays (skipHarmony : Bool) (score : Score α) (place : OnsetPlace)
    (entries : List (ProgressionEntry α)) : Prop where
  bar : ∀ entry ∈ entries, entry.bar = place.bar + 1
  notes : (entries.flatMap fun entry => entry.content.noteNames).Perm
    ((score.pitchesAt place).map Pitch.name)
  text : ∀ entry ∈ entries, entry.text = if skipHarmony then none else score.symbolAt place
  lyric : ∀ entry ∈ entries, score.LastLyric (Set.Iic place) entry.lyric
  sounding : score.pitchesAt place ≠ [] → ∀ entry ∈ entries, entry.content.noteNames ≠ []
  silent : score.pitchesAt place = [] → ∃ label entry, score.symbolAt place = some label ∧
    entries = [entry] ∧ entry.content = .harmony label ∧ entry.text = some label

variable {score : Score α} {places others : Set OnsetPlace} {lyric : Option String}

theorem pitchesAt_ne_nil_of_sung {place : OnsetPlace}
    (h : (score.lyricAt place).isSome = true) : score.pitchesAt place ≠ [] := by
  obtain ⟨text, htext⟩ := Option.isSome_iff_exists.mp h
  obtain ⟨element, hmem, hsung⟩ := List.mem_filterMap.mp (List.mem_of_getLast? htext)
  obtain ⟨pitch, hpitch⟩ := Option.isSome_iff_exists.mp
    (MeasureElement.isSome_sounds?_of_sung? hsung)
  exact List.ne_nil_of_mem (List.mem_filterMap.mpr ⟨element, hmem, hpitch⟩)

theorem LastLyric.empty (score : Score α) : score.LastLyric ∅ none :=
  .inr ⟨Set.sep_empty _, rfl⟩

theorem LastLyric.congr (h : score.LastLyric places lyric)
    (hsame : ∀ place, (score.lyricAt place).isSome = true → (place ∈ places ↔ place ∈ others)) :
    score.LastLyric others lyric := by
  have hsung : score.sungAmong places = score.sungAmong others :=
    Set.ext fun place => and_congr_left fun hplace => hsame place hplace
  unfold LastLyric at h ⊢
  rwa [← hsung]

theorem LastLyric.upTo (h : score.LastLyric places lyric) {next : OnsetPlace}
    (hnext : ∀ place ∈ places, place < next)
    (hsung : ∀ place, (score.lyricAt place).isSome = true → place ∈ places ∨ next ≤ place) :
    score.LastLyric (Set.Iic next) ((score.lyricAt next).or lyric) := by
  cases htext : score.lyricAt next with
  | none =>
      refine h.congr fun place hplace => ⟨fun hmem => (hnext place hmem).le, fun hle => ?_⟩
      refine (hsung place hplace).resolve_right fun hge => ?_
      rw [le_antisymm hle hge, htext] at hplace
      cases hplace
  | some text =>
      refine .inl ⟨next, ⟨⟨le_refl next, ?_⟩, fun place hplace => hplace.1⟩, htext.symm⟩
      rw [htext]
      rfl

end Score

namespace Onset

omit [Quantity α] in
theorem noteNames_contents (group : Bool) (onset : Onset α) :
    (onset.contents group).flatMap EntryContent.noteNames =
      onset.sortedNotes.map (·.spelling.name) := by
  by_cases hnotes : onset.notes = []
  · rw [contents_of_silent hnotes, sortedNotes_eq_nil_iff.mpr hnotes]
    cases onset.harmony <;> rfl
  · rw [contents_of_sounding hnotes]
    cases group with
    | true => exact List.append_nil _
    | false =>
        rw [if_neg Bool.false_ne_true, List.flatMap_map, List.map_eq_flatMap]
        rfl

omit [Quantity α] in
theorem noteNames_ne_nil {group : Bool} {onset : Onset α} (hnotes : onset.notes ≠ [])
    {content : EntryContent} (h : content ∈ onset.contents group) : content.noteNames ≠ [] := by
  rw [contents_of_sounding hnotes] at h
  split at h
  · rw [List.mem_singleton.mp h]
    show onset.sortedNotes.map _ ≠ []
    rwa [ne_eq, List.map_eq_nil_iff, sortedNotes_eq_nil_iff]
  · obtain ⟨note, _, rfl⟩ := List.mem_map.mp h
    exact List.cons_ne_nil _ _

end Onset

variable {skipHarmony : Bool} {score : Score α}

theorem Score.overlays_onsetAt {place : OnsetPlace}
    (hplace : place ∈ score.onsetPlaces skipHarmony) (group : Bool) {lyric : Option String}
    (hlyric : score.LastLyric (Set.Iic place) lyric) :
    score.Overlays skipHarmony place
      ((score.onsetAt skipHarmony place).entries group (place.bar + 1) lyric) where
  bar := by
    intro entry hentry
    obtain ⟨content, _, rfl⟩ := List.mem_map.mp hentry
    rfl
  notes := by
    unfold Onset.entries
    rw [List.flatMap_map]
    show (((score.onsetAt skipHarmony place).contents group).flatMap
      EntryContent.noteNames).Perm _
    have hnames : (score.pitchesAt place).map Pitch.name =
        (score.onsetAt skipHarmony place).notes.map (·.spelling.name) := by
      show _ = ((score.pitchesAt place).map OnsetNote.ofPitch).map _
      rw [List.map_map]
      rfl
    rw [Onset.noteNames_contents, hnames]
    exact (List.mergeSort_perm _ _).map _
  text := by
    intro entry hentry
    obtain ⟨content, _, rfl⟩ := List.mem_map.mp hentry
    rfl
  lyric := by
    intro entry hentry
    obtain ⟨content, _, rfl⟩ := List.mem_map.mp hentry
    exact hlyric
  sounding := by
    intro hpitches entry hentry
    obtain ⟨content, hcontent, rfl⟩ := List.mem_map.mp hentry
    exact Onset.noteNames_ne_nil (mt List.map_eq_nil_iff.mp hpitches) hcontent
  silent := by
    intro hpitches
    obtain ⟨hkept, hsymbol⟩ := (Score.mem_onsetPlaces_iff.mp hplace).resolve_left
      fun hnotes => hnotes hpitches
    obtain ⟨label, hlabel⟩ := Option.ne_none_iff_exists'.mp hsymbol
    refine ⟨label, ⟨place.bar + 1, score.beatsAt skipHarmony place, .harmony label, some label,
      lyric⟩, hlabel, ?_, rfl, rfl⟩
    unfold Onset.entries Onset.contents Score.onsetAt
    rw [hpitches, hlabel, hkept]
    rfl

namespace Progression

/-- The run over the places: the lyric is the last one of those that were passed, and whatever
else is sung at is still to come. -/
theorem overlaid_entriesFrom (group : Bool) {places : List OnsetPlace}
    (hplaces : ∀ place ∈ places, place ∈ score.onsetPlaces skipHarmony)
    (hsorted : places.Pairwise (· < ·)) {passed : Set OnsetPlace} {lyric : Option String}
    (hlyric : score.LastLyric passed lyric)
    (hpassed : ∀ before ∈ passed, ∀ place ∈ places, before < place)
    (hsung : ∀ place, (score.lyricAt place).isSome = true → place ∈ passed ∨ place ∈ places) :
    ∃ blocks : List (OnsetPlace × List (ProgressionEntry α)),
      entriesFrom group lyric (places.map fun place =>
          (place.bar + 1, score.onsetAt skipHarmony place)) = blocks.flatMap (·.2) ∧
        blocks.map (·.1) = places ∧
        ∀ block ∈ blocks, score.Overlays skipHarmony block.1 block.2 := by
  induction places generalizing passed lyric with
  | nil => exact ⟨[], rfl, rfl, fun block hblock => by cases hblock⟩
  | cons place rest ih =>
      obtain ⟨hahead, hsorted⟩ := List.pairwise_cons.mp hsorted
      have hupTo := hlyric.upTo (fun before hbefore => hpassed before hbefore place
        List.mem_cons_self) fun other hother => (hsung other hother).imp_right fun hmem =>
          (List.mem_cons.mp hmem).elim ge_of_eq fun hrest => (hahead other hrest).le
      obtain ⟨blocks, hentries, hblocks, hoverlays⟩ := ih
        (fun other hother => hplaces other (List.mem_cons_of_mem place hother)) hsorted hupTo
        (fun before hbefore other hother => lt_of_le_of_lt hbefore (hahead other hother))
        (fun other hother => (hsung other hother).elim
          (fun hmem => .inl (hpassed other hmem place List.mem_cons_self).le)
          fun hmem => (List.mem_cons.mp hmem).imp_left le_of_eq)
      refine ⟨(place, (score.onsetAt skipHarmony place).entries group (place.bar + 1)
        ((score.lyricAt place).or lyric)) :: blocks, ?_, by rw [List.map_cons, hblocks], ?_⟩
      · rw [List.map_cons, entriesFrom, List.flatMap_cons, ← hentries]
        rfl
      · intro block hblock
        rcases List.mem_cons.mp hblock with rfl | hmem
        · exact Score.overlays_onsetAt (hplaces place List.mem_cons_self) group hupTo
        · exact hoverlays block hmem

/-- The progression goes through the places of a score in their order. Notes and groups stand
where notes start to sound, under the last chord symbol at that very place, and chord symbols
by themselves where there is no such note; none of either if chord symbols are skipped. The
lyric of an entry is the last one of the greatest place up to its own at which one is sung. -/
theorem overlays_ofScore (group skipHarmony : Bool) (score : Score α) :
    ∃ blocks : List (OnsetPlace × List (ProgressionEntry α)),
      ofScore group skipHarmony score = blocks.flatMap (·.2) ∧
        (blocks.map (·.1)).Pairwise (· < ·) ∧
        (∀ place, place ∈ blocks.map (·.1) ↔
          score.pitchesAt place ≠ [] ∨ skipHarmony = false ∧ score.symbolAt place ≠ none) ∧
        ∀ block ∈ blocks, score.Overlays skipHarmony block.1 block.2 := by
  have hsorted := score.sorted_onsetPlaces skipHarmony
  obtain ⟨blocks, hentries, hblocks, hoverlays⟩ := overlaid_entriesFrom group
    (fun _ => id) hsorted (Score.LastLyric.empty score)
    (fun before hbefore => by cases hbefore)
    (fun place hsung => .inr (Score.mem_onsetPlaces_iff.mpr
      (.inl (Score.pitchesAt_ne_nil_of_sung hsung))))
  refine ⟨blocks, ?_, hblocks ▸ hsorted, fun place => ?_, hoverlays⟩
  · unfold ofScore
    rw [onsets_eq_places, hentries]
  · rw [hblocks]
    exact Score.mem_onsetPlaces_iff

end Progression

end Rubato
