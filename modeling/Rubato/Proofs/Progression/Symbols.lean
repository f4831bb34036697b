import Mathlib.Data.List.Sort
import Rubato.Proofs.Progression.Overlay
import Rubato.Proofs.Progression.Positions

namespace Rubato

/-! Chord symbols make onsets of their own, and one that is found before the notes of an
onset gives it its beat. -/

section Entries

variable {α : Type}

/-- An entry without its chord symbol. Nothing is left of one that is a chord symbol alone. -/
def ProgressionEntry.withoutSymbol? (entry : ProgressionEntry α) : Option (ProgressionEntry α) :=
  match entry.content with
  | .harmony _ => none
  | _ => some { entry with text := none }

/-- All that an entry says except its beat. -/
def ProgressionEntry.untimed (entry : ProgressionEntry α) :
    Nat × EntryContent × Option String × Option String :=
  (entry.bar, entry.content, entry.text, entry.lyric)

def Progression.withoutSymbols (entries : List (ProgressionEntry α)) :
    List (ProgressionEntry α) :=
  entries.filterMap (·.withoutSymbol?)

namespace Onset

variable {onset : Onset α}

def withoutSymbol (onset : Onset α) : Onset α :=
  { onset with harmony := none }

theorem withoutSymbols_entries (hnotes : onset.notes ≠ []) (group : Bool) (bar : Nat)
    (lyric : Option String) :
    Progression.withoutSymbols (onset.entries group bar lyric) =
      onset.withoutSymbol.entries group bar lyric := by
  have hcontents : onset.withoutSymbol.contents group = onset.contents group := by
    have hkept : onset.withoutSymbol.notes ≠ [] := hnotes
    rw [contents_of_sounding hkept, contents_of_sounding hnotes]
    rfl
  unfold entries Progression.withoutSymbols
  rw [hcontents, List.filterMap_map, contents_of_sounding hnotes]
  cases group with
  | true => rfl
  | false =>
      rw [if_neg Bool.false_ne_true, List.filterMap_map, List.map_map]
      exact congrFun List.filterMap_eq_map onset.sortedNotes

theorem withoutSymbols_entries_of_silent (hnotes : onset.notes = []) (group : Bool) (bar : Nat)
    (lyric : Option String) :
    Progression.withoutSymbols (onset.entries group bar lyric) = [] := by
  unfold entries
  rw [contents_of_silent hnotes]
  cases onset.harmony <;> rfl

end Onset

end Entries

variable {α : Type} [Quantity α] {score : Score α} {places : List OnsetPlace}

/-- The bar of a place and the onset that its notes make up on some beat. -/
def Score.notesAt (score : Score α) (beats : OnsetPlace → α) (place : OnsetPlace) :
    Nat × Onset α :=
  (place.bar + 1,
    ⟨beats place, (score.pitchesAt place).map OnsetNote.ofPitch, none, score.lyricAt place⟩)

theorem Score.onsetPlaces_skipping (score : Score α) :
    score.onsetPlaces true =
      (score.onsetPlaces false).filter fun place => !(score.pitchesAt place).isEmpty := by
  refine (score.sorted_onsetPlaces true).eq_of_mem_iff
    ((score.sorted_onsetPlaces false).filter _) fun place => ?_
  rw [List.mem_filter, mem_onsetPlaces_iff, mem_onsetPlaces_iff, Bool.not_eq_true',
    List.isEmpty_eq_false_iff]
  constructor
  · rintro (hnotes | ⟨hskipped, _⟩)
    · exact ⟨.inl hnotes, hnotes⟩
    · cases hskipped
  · exact fun h => .inl h.2

theorem Score.pitchesAt_ne_nil_of_mem {place : OnsetPlace} (h : place ∈ score.onsetPlaces true) :
    score.pitchesAt place ≠ [] :=
  (mem_onsetPlaces_iff.mp h).resolve_right fun hkept => by cases hkept.1

namespace Progression

/-- An onset without notes has no lyric either, so that it leaves no trace. -/
theorem withoutSymbols_entriesFrom (group : Bool) (lyric : Option String)
    (places : List OnsetPlace) :
    withoutSymbols (entriesFrom group lyric (places.map fun place =>
        (place.bar + 1, score.onsetAt false place))) =
      entriesFrom group lyric ((places.filter fun place =>
        !(score.pitchesAt place).isEmpty).map (score.notesAt (score.beatsAt false))) := by
  induction places generalizing lyric with
  | nil => rfl
  | cons place rest ih =>
      have hfirst : withoutSymbols (entriesFrom group lyric ((place :: rest).map fun place =>
          (place.bar + 1, score.onsetAt false place))) =
          withoutSymbols ((score.onsetAt false place).entries group (place.bar + 1)
              ((score.lyricAt place).or lyric)) ++
            withoutSymbols (entriesFrom group ((score.lyricAt place).or lyric)
              (rest.map fun place => (place.bar + 1, score.onsetAt false place))) :=
        List.filterMap_append
      rw [hfirst, ih]
      by_cases hnotes : score.pitchesAt place = []
      · have hsilent : score.lyricAt place = none := by
          by_contra hsung
          exact Score.pitchesAt_ne_nil_of_sung (Option.isSome_iff_ne_none.mpr hsung) hnotes
        rw [List.filter_cons_of_neg (by rw [hnotes]; exact Bool.false_ne_true), hsilent,
          Onset.withoutSymbols_entries_of_silent (List.map_eq_nil_iff.mpr hnotes),
          List.nil_append, Option.none_or]
      · rw [List.filter_cons_of_pos (by rwa [Bool.not_eq_true', List.isEmpty_eq_false_iff]),
          Onset.withoutSymbols_entries (mt List.map_eq_nil_iff.mp hnotes), List.map_cons,
          entriesFrom]
        rfl

theorem withoutSymbols_ofScore (group : Bool) (score : Score α) :
    withoutSymbols (ofScore group false score) = entriesFrom group none
      ((score.onsetPlaces true).map (score.notesAt (score.beatsAt false))) := by
  unfold ofScore
  rw [onsets_eq_places, withoutSymbols_entriesFrom, score.onsetPlaces_skipping]

theorem ofScore_skipping (group : Bool) (score : Score α) :
    ofScore group true score = entriesFrom group none
      ((score.onsetPlaces true).map (score.notesAt (score.beatsAt true))) := by
  unfold ofScore
  rw [onsets_eq_places]
  rfl

theorem untimed_notesAt (group : Bool) (first second : OnsetPlace → α) (lyric : Option String)
    (places : List OnsetPlace) :
    (entriesFrom group lyric (places.map (score.notesAt first))).map (·.untimed) =
      (entriesFrom group lyric (places.map (score.notesAt second))).map (·.untimed) := by
  induction places generalizing lyric with
  | nil => rfl
  | cons place rest ih =>
      have hplace : ∀ beats : OnsetPlace → α,
          ((score.notesAt beats place).2.entries group (place.bar + 1)
              ((score.lyricAt place).or lyric)).map (·.untimed) =
            ((score.notesAt first place).2.contents group).map fun content =>
              (place.bar + 1, content, none, (score.lyricAt place).or lyric) :=
        fun beats => List.map_map
      rw [List.map_cons, List.map_cons, entriesFrom, entriesFrom, List.map_append,
        List.map_append]
      exact congrArg₂ (· ++ ·) ((hplace first).trans (hplace second).symm) (ih _)

theorem entriesFrom_notesAt_inj (group : Bool) {first second : OnsetPlace → α}
    (hplaces : ∀ place ∈ places, score.pitchesAt place ≠ []) (lyric : Option String) :
    entriesFrom group lyric (places.map (score.notesAt first)) =
        entriesFrom group lyric (places.map (score.notesAt second)) ↔
      ∀ place ∈ places, first place = second place := by
  constructor
  · induction places generalizing lyric with
    | nil => exact fun _ place hplace => by cases hplace
    | cons place rest ih =>
        intro hentries
        obtain ⟨hhere, hrest⟩ := List.append_inj hentries
          ((List.length_map _).trans (List.length_map _).symm)
        have hnotes : (score.notesAt first place).2.notes ≠ [] :=
          mt List.map_eq_nil_iff.mp (hplaces place List.mem_cons_self)
        obtain ⟨content, hcontent⟩ := List.exists_mem_of_ne_nil _
          (Onset.contents_ne_nil (.inl hnotes) group)
        have hbeats := congrArg ProgressionEntry.beats
          (List.map_inj_left.mp hhere content hcontent)
        exact List.forall_mem_cons.mpr ⟨hbeats,
          ih (fun other hother => hplaces other (List.mem_cons_of_mem place hother)) _ hrest⟩
  · intro hbeats
    refine congrArg (entriesFrom group lyric) (List.map_congr_left fun place hplace => ?_)
    unfold Score.notesAt
    rw [hbeats place hplace]

theorem skipping_eq_withoutSymbols_iff (group : Bool) (score : Score α) :
    ofScore group true score = withoutSymbols (ofScore group false score) ↔
      ∀ place, score.pitchesAt place ≠ [] →
        score.beatsAt true place = score.beatsAt false place := by
  rw [ofScore_skipping, withoutSymbols_ofScore,
    entriesFrom_notesAt_inj group fun _ => Score.pitchesAt_ne_nil_of_mem]
  exact forall_congr' fun place => imp_congr_left
    ⟨Score.pitchesAt_ne_nil_of_mem, fun hnotes => Score.mem_onsetPlaces_iff.mpr (.inl hnotes)⟩

end Progression

theorem Score.exists_beatsAt {skipHarmony : Bool} {place : OnsetPlace}
    (hplace : place ∈ score.onsetPlaces skipHarmony) :
    ∃ first ∈ score.foundIn skipHarmony place.bar, first.thousandths = place.thousandths ∧
      score.beatsAt skipHarmony place = first.beats := by
  obtain ⟨contribution, hmem, hhere⟩ := mem_onsetPlaces.mp hplace
  have hsome : ((score.foundIn skipHarmony place.bar).find? fun contribution =>
      decide (contribution.thousandths = place.thousandths)).isSome = true :=
    List.find?_isSome.mpr ⟨contribution, hmem, decide_eq_true hhere⟩
  obtain ⟨first, hfirst⟩ := Option.isSome_iff_exists.mp hsome
  refine ⟨first, List.mem_of_find?_eq_some hfirst,
    of_decide_eq_true (List.find?_some hfirst :), ?_⟩
  unfold beatsAt
  rw [hfirst]
  rfl

namespace Score

/-- In every bar all parts that have it agree on the divisions and the beat type. -/
def MetersAgree (score : Score ℚ) : Prop :=
  ∀ bar, ∀ first ∈ score.parts, ∀ second ∈ score.parts,
    bar < first.measures.length → bar < second.measures.length →
      (first.meterAt bar).divisions = (second.meterAt bar).divisions ∧
        (first.meterAt bar).time.beatType = (second.meterAt bar).time.beatType

/-- In every bar a division is the same part of a beat in all parts that have the bar. -/
def DividesAlike (score : Score ℚ) : Prop :=
  ∀ bar, ∀ first ∈ score.parts, ∀ second ∈ score.parts,
    bar < first.measures.length → bar < second.measures.length →
      (first.meterAt bar).beatsPerDivision = (second.meterAt bar).beatsPerDivision

variable {skipHarmony : Bool} {score : Score ℚ} {place : OnsetPlace}

theorem MetersAgree.dividesAlike (h : score.MetersAgree) : score.DividesAlike := by
  intro bar first hfirst second hsecond hbar hother
  obtain ⟨hdivisions, htype⟩ := h bar first hfirst second hsecond hbar hother
  unfold Meter.beatsPerDivision
  rw [hdivisions, htype]

/-- The beat of a place follows from its thousandths by the meter of some part, unless they
are as many as 64 bits hold. -/
theorem beatsAt_eq (hplace : place ∈ score.onsetPlaces skipHarmony)
    (hwithin : place.thousandths < greatestWord) :
    ∃ part ∈ score.parts, place.bar < part.measures.length ∧
      score.beatsAt skipHarmony place =
        1 + (place.thousandths : ℚ) / 1000 * (part.meterAt place.bar).beatsPerDivision := by
  obtain ⟨first, hfirst, hhere, hbeats⟩ := exists_beatsAt hplace
  obtain ⟨part, hpart, hbar, count, finding, rfl⟩ := mem_foundIn hfirst
  have hcount : place.thousandths = (count * 1000 : ℕ) := by
    have hnearest : min greatestWord ((count * 1000 : ℕ) : ℤ) = place.thousandths :=
      (Quantity.nearest_natCast count).symm.trans hhere
    omega
  have hposition : (place.thousandths : ℚ) / 1000 = count := by
    rw [hcount]
    push_cast
    exact mul_div_cancel_right₀ _ (by norm_num)
  refine ⟨part, hpart, hbar, ?_⟩
  rw [hbeats, hposition]
  exact Meter.beatAt_eq _ _

theorem DividesAlike.beatsAt_eq (h : score.DividesAlike) (hnotes : score.pitchesAt place ≠ [])
    (hwithin : place.thousandths < greatestWord) :
    score.beatsAt true place = score.beatsAt false place := by
  have hplace : ∀ skipHarmony, place ∈ score.onsetPlaces skipHarmony :=
    fun _ => mem_onsetPlaces_iff.mpr (.inl hnotes)
  obtain ⟨part, hpart, hbar, hskipping⟩ := Score.beatsAt_eq (hplace true) hwithin
  obtain ⟨other, hother, hotherBar, hkeeping⟩ := Score.beatsAt_eq (hplace false) hwithin
  rw [hskipping, hkeeping, h place.bar part hpart other hother hbar hotherBar]

end Score

/-- A chord symbol over the first part, behind one division, and a note of the second part
behind one of its own divisions. -/
def symbolBehindOneDivision (divisions : Nat) : Score ℚ where
  parts := [
    ⟨"P1", [⟨"1", ⟨some 1, none, none⟩,
      [.forward 1, .harmony ⟨some ⟨.c, 0⟩, "major", none, none⟩]⟩]⟩,
    ⟨"P2", [⟨"1", ⟨some divisions, none, none⟩,
      [.forward 1, .note (.plain (some ⟨.e, 0, 4⟩) 1)]⟩]⟩]

theorem Contribution.ofElements_forwards (skipHarmony : Bool) (meter : Meter) (place : Place ℚ)
    (forwards : List Nat) (elements : List (MeasureElement ℚ)) :
    ofElements skipHarmony meter place (forwards.map .forward ++ elements) =
      ofElements skipHarmony meter ⟨place.cursor + (forwards.sum : Nat), place.anchor⟩
        elements := by
  induction forwards generalizing place with
  | nil =>
      rw [List.map_nil, List.nil_append, List.sum_nil, Nat.cast_zero, add_zero]
  | cons duration rest ih =>
      have hrest := ih (place.after (.forward duration))
      have hcursor : (place.after (.forward duration)).cursor + (rest.sum : Nat) =
          place.cursor + ((duration :: rest).sum : Nat) := by
        rw [List.sum_cons, Nat.cast_add, ← add_assoc]
        rfl
      rw [hcursor] at hrest
      exact hrest

def symbolThenNote : List (MeasureElement ℚ) :=
  [.harmony ⟨some ⟨.c, 0⟩, "major", none, none⟩, .forward 1,
    .note (.plain (some ⟨.e, 0, 4⟩) 1)]

def symbolBehind (forwards : List Nat) : Score ℚ where
  parts := [⟨"P1", [⟨"1", ⟨some 1, none, none⟩, forwards.map .forward ++ symbolThenNote⟩]⟩]

theorem ofScore_symbolBehind (group skipHarmony : Bool) (forwards : List Nat) :
    Progression.ofScore group skipHarmony (symbolBehind forwards) =
      Progression.ofScore group skipHarmony (symbolBehind [forwards.sum]) := by
  have hfound : ∀ forwards : List Nat,
      (symbolBehind forwards).parts.map (Part.contributions skipHarmony) =
        [[Contribution.ofElements skipHarmony (Meter.initial.update ⟨some 1, none, none⟩)
          ⟨(Place.start : Place ℚ).cursor + (forwards.sum : Nat), 0⟩ symbolThenNote]] :=
    fun forwards => congrArg (fun found => [[found]])
      (Contribution.ofElements_forwards _ _ _ forwards symbolThenNote)
  apply Progression.ofScore_congr
  rw [hfound, hfound, List.sum_singleton]

example :
    Progression.ofScore true true (symbolBehindOneDivision 2) ≠
      Progression.withoutSymbols
        (Progression.ofScore true false (symbolBehindOneDivision 2)) := by
  decide +kernel

end Rubato
