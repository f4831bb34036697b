import Mathlib
import Rubato.Proofs.Progression.Onsets

namespace Rubato

/-- A note that starts to sound, where it is written: its bar, counted from zero, what is in
force there, and its position in divisions. -/
structure NoteOnset where
  bar : Nat
  meter : Meter
  position : ℚ
  pitch : Pitch

namespace NoteOnset

/-- The entry of a note on the beat that it is written on. -/
def entry (onset : NoteOnset) : ProgressionEntry ℚ where
  bar := onset.bar + 1
  beats := 1 + onset.position / onset.meter.divisions * onset.meter.time.beatType / 4
  content := .note onset.pitch.spelling.pitchClass onset.pitch.spelling.octave
  text := none
  lyric := none

def ofElement? (bar : Nat) (meter : Meter) (place : Place ℚ) :
    MeasureElement ℚ → Option NoteOnset
  | .note note => note.sounds?.map (NoteOnset.mk bar meter (place.onset note))
  | _ => none

def ofElements (bar : Nat) (meter : Meter) : Place ℚ → List (MeasureElement ℚ) → List NoteOnset
  | _, [] => []
  | place, element :: rest =>
    (ofElement? bar meter place element).toList ++
      ofElements bar meter (place.after element) rest

end NoteOnset

def Part.noteOnsetsIn (part : Part ℚ) (bar : Nat) : List NoteOnset :=
  match part.measures[bar]? with
  | some measure => NoteOnset.ofElements bar (part.meterAt bar) Place.start measure.elements
  | none => []

namespace Score

def noteOnsets (score : Score ℚ) : List NoteOnset :=
  (List.range score.barCount).flatMap fun bar =>
    score.parts.flatMap fun part => part.noteOnsetsIn bar

/-- The progression has one entry for every note that starts to sound, with its own spelling
on the beat that it is written on, and otherwise only chord symbols found in the score. The
entries are sorted by bar and beat. -/
structure PlacesProgression (skipHarmony : Bool) (score : Score ℚ) : Prop where
  notes : ((Progression.ofScore false skipHarmony score).filterMap ProgressionEntry.note?).Perm
    (score.noteOnsets.map NoteOnset.entry)
  symbols : ∀ entry ∈ Progression.ofScore false skipHarmony score, entry.note? = none →
    ∃ symbol bar, entry.content = .harmony symbol ∧ entry.bar = bar + 1 ∧
      ∃ contribution ∈ score.foundIn skipHarmony bar, contribution.finding = .harmony symbol
  sorted : (Progression.ofScore false skipHarmony score).Pairwise fun first second =>
    first.bar < second.bar ∨ first.bar = second.bar ∧ first.beats ≤ second.beats

/-- The notes on the beats of what is found first at their positions. -/
def leadEntries (skipHarmony : Bool) (score : Score ℚ) : List (ProgressionEntry ℚ) :=
  (List.range score.barCount).flatMap fun bar =>
    (score.foundIn skipHarmony bar).filterMap fun contribution =>
      contribution.note?.map
        (OnsetNote.entry (bar + 1) (contribution.leader (score.foundIn skipHarmony bar)).beats)

/-- Later positions of a bar have later beats, as far as what is found first says. -/
def LeadersInOrder (skipHarmony : Bool) (score : Score ℚ) : Prop :=
  ∀ bar, ∀ first ∈ score.foundIn skipHarmony bar, ∀ second ∈ score.foundIn skipHarmony bar,
    first.thousandths < second.thousandths →
      (first.leader (score.foundIn skipHarmony bar)).beats ≤
        (second.leader (score.foundIn skipHarmony bar)).beats

end Score

/-- The part of a beat that one division is. -/
def Meter.beatsPerDivision (meter : Meter) : ℚ :=
  (meter.time.beatType : ℚ) / (4 * meter.divisions)

/-- The parts count alike: in every bar a division is the same part of a beat in all parts
that have the bar. No position is so far behind the bar line that its thousandths exceed 64
bits. -/
structure Score.CountsAlike (skipHarmony : Bool) (score : Score ℚ) : Prop where
  alike : ∀ bar, ∀ first ∈ score.parts, ∀ second ∈ score.parts,
    bar < first.measures.length → bar < second.measures.length →
      (first.meterAt bar).beatsPerDivision = (second.meterAt bar).beatsPerDivision
  bounded : ∀ bar, ∀ contribution ∈ score.foundIn skipHarmony bar,
    contribution.thousandths < greatestWord

theorem NoteOnset.entry_ofElement? (skipHarmony : Bool) (bar : Nat) (meter : Meter)
    (place : Place ℚ) (element : MeasureElement ℚ) :
    ((Contribution.ofElement? skipHarmony meter place element).toList.filterMap
        fun contribution =>
          contribution.note?.map (OnsetNote.entry (bar + 1) contribution.beats)) =
      (ofElement? bar meter place element).toList.map entry := by
  cases element with
  | note note =>
      show (note.sounds?.map _).toList.filterMap _ = (note.sounds?.map _).toList.map _
      cases note.sounds? with
      | none => rfl
      | some pitch => rfl
  | harmony harmony =>
      show (if skipHarmony then none else _).toList.filterMap _ = []
      split
      · rfl
      · cases harmony.label? <;> rfl
  | direction mark => rfl
  | backup duration => rfl
  | forward duration => rfl

theorem NoteOnset.entries_ofElements (skipHarmony : Bool) (bar : Nat) (meter : Meter)
    (place : Place ℚ) (elements : List (MeasureElement ℚ)) :
    ((Contribution.ofElements skipHarmony meter place elements).filterMap fun contribution =>
        contribution.note?.map (OnsetNote.entry (bar + 1) contribution.beats)) =
      (ofElements bar meter place elements).map entry := by
  induction elements generalizing place with
  | nil => rfl
  | cons element rest ih =>
      rw [Contribution.ofElements, List.filterMap_append, ih, entry_ofElement?, ofElements,
        List.map_append]

theorem Score.entries_noteOnsets (skipHarmony : Bool) (score : Score ℚ) :
    score.noteOnsets.map NoteOnset.entry =
      (List.range score.barCount).flatMap fun bar =>
        (score.foundIn skipHarmony bar).filterMap fun contribution =>
          contribution.note?.map (OnsetNote.entry (bar + 1) contribution.beats) := by
  unfold noteOnsets foundIn
  rw [List.map_flatMap]
  refine List.flatMap_congr fun bar _ => ?_
  rw [List.map_flatMap, List.filterMap_flatMap]
  refine List.flatMap_congr fun part _ => ?_
  rw [Part.getD_contributions]
  unfold Part.noteOnsetsIn
  cases part.measures[bar]? with
  | none => rfl
  | some measure => exact (NoteOnset.entries_ofElements skipHarmony bar _ _ _).symm

theorem Progression.entries_ofScore_perm (skipHarmony : Bool) (score : Score ℚ) :
    ((ofScore false skipHarmony score).filterMap ProgressionEntry.note?).Perm
      (score.leadEntries skipHarmony) := by
  refine (entries_entriesFrom_perm none _).trans ?_
  unfold Score.leadEntries
  rw [onsets_eq, List.flatMap_assoc]
  refine List.Perm.flatMap_left _ fun bar _ => ?_
  have hbar := (Onset.beats_ofBar_perm (score.foundIn skipHarmony bar)).map
    fun timed => OnsetNote.entry (bar + 1) timed.1 timed.2
  rw [List.map_flatMap, List.map_filterMap] at hbar
  rw [List.flatMap_map]
  simpa only [List.map_map, Option.map_map, Function.comp_def] using hbar

theorem pairwise_iff_of_sorted {R : Int → Int → Prop} {positions : List Int}
    (hsorted : positions.Pairwise (· < ·)) :
    positions.Pairwise R ↔
      ∀ first ∈ positions, ∀ second ∈ positions, first < second → R first second := by
  constructor
  · intro h first hfirst second hsecond hlt
    obtain ⟨i, hi, rfl⟩ := List.getElem_of_mem hfirst
    obtain ⟨j, hj, rfl⟩ := List.getElem_of_mem hsecond
    rcases lt_trichotomy i j with hij | rfl | hji
    · exact List.pairwise_iff_getElem.mp h i j hi hj hij
    · exact absurd hlt (lt_irrefl _)
    · exact absurd hlt (List.pairwise_iff_getElem.mp hsorted j i hj hi hji).le.not_gt
  · exact fun h => hsorted.imp_of_mem fun hfirst hsecond => h _ hfirst _ hsecond

namespace Onset

variable {found : List (Contribution ℚ)} {onset : Onset ℚ}

theorem beats_of_at? {contribution : Contribution ℚ} (hmem : contribution ∈ found)
    (h : at? found contribution.thousandths = some onset) :
    onset.beats = (contribution.leader found).beats := by
  obtain ⟨first, others, hhere, rfl⟩ := exists_of_at? h
  have hmember : contribution ∈ first :: others :=
    hhere ▸ List.mem_filter.mpr ⟨hmem, decide_eq_true rfl⟩
  rw [Contribution.leader_of_filter hhere hmember]
  rfl

theorem sorted_ofBar_iff (found : List (Contribution ℚ)) :
    ((ofBar found).Pairwise fun first second => first.beats ≤ second.beats) ↔
      ∀ first ∈ found, ∀ second ∈ found, first.thousandths < second.thousandths →
        (first.leader found).beats ≤ (second.leader found).beats := by
  rw [ofBar_eq, List.pairwise_filterMap, pairwise_iff_of_sorted (sorted_positions found)]
  constructor
  · intro h first hfirst second hsecond hlt
    obtain ⟨before, hbefore⟩ := exists_at? hfirst
    obtain ⟨after, hafter⟩ := exists_at? hsecond
    have hbeats := h _ (mem_positions.mpr ⟨first, hfirst, rfl⟩) _
      (mem_positions.mpr ⟨second, hsecond, rfl⟩) hlt before hbefore after hafter
    rwa [beats_of_at? hfirst hbefore, beats_of_at? hsecond hafter] at hbeats
  · intro h position hposition later hlater hlt before hbefore after hafter
    obtain ⟨first, hfirst, rfl⟩ := mem_positions.mp hposition
    obtain ⟨second, hsecond, rfl⟩ := mem_positions.mp hlater
    rw [beats_of_at? hfirst hbefore, beats_of_at? hsecond hafter]
    exact h first hfirst second hsecond hlt

theorem exists_of_mem_ofBar (h : onset ∈ ofBar found) :
    ∃ first others, onset = ofContributions first others ∧
      ∀ contribution ∈ first :: others, contribution ∈ found := by
  rw [ofBar_eq] at h
  obtain ⟨position, _, hat⟩ := List.mem_filterMap.mp h
  obtain ⟨first, others, hhere, rfl⟩ := exists_of_at? hat
  exact ⟨first, others, rfl, fun contribution hmem =>
    List.mem_of_mem_filter (hhere ▸ hmem)⟩

theorem contents_ne_nil_of_mem (h : onset ∈ ofBar found) : onset.contents false ≠ [] := by
  obtain ⟨⟨thousandths, beats, finding⟩, others, rfl, _⟩ := exists_of_mem_ofBar h
  refine contents_ne_nil ?_ false
  cases finding with
  | note note lyric => exact .inl (List.cons_ne_nil note _)
  | harmony label =>
      right
      show (label :: _).getLast? ≠ none
      rw [ne_eq, List.getLast?_eq_none_iff]
      exact List.cons_ne_nil label _

theorem harmony_of_mem_ofBar (h : onset ∈ ofBar found) {symbol : String}
    (hsymbol : onset.harmony = some symbol) :
    ∃ contribution ∈ found, contribution.finding = .harmony symbol := by
  obtain ⟨first, others, rfl, hfound⟩ := exists_of_mem_ofBar h
  obtain ⟨finding, hfinding, hlabel⟩ := List.mem_filterMap.mp (List.mem_of_getLast? hsymbol)
  obtain ⟨contribution, hmem, rfl⟩ := List.mem_map.mp hfinding
  refine ⟨contribution, hfound contribution hmem, ?_⟩
  cases hcase : contribution.finding with
  | note note lyric =>
      rw [hcase] at hlabel
      cases hlabel
  | harmony label =>
      rw [hcase] at hlabel
      cases hlabel
      rfl

theorem symbol_of_mem_entries {bar : Nat} {lyric : Option String} {entry : ProgressionEntry ℚ}
    (hentry : entry ∈ onset.entries false bar lyric) (hnote : entry.note? = none) :
    entry.bar = bar ∧ ∃ symbol, onset.harmony = some symbol ∧ entry.content = .harmony symbol := by
  obtain ⟨content, hcontent, rfl⟩ := List.mem_map.mp hentry
  unfold contents at hcontent
  split at hcontent
  · obtain ⟨symbol, hsymbol, rfl⟩ := Option.map_eq_some_iff.mp (Option.mem_toList.mp hcontent)
    exact ⟨rfl, symbol, hsymbol, rfl⟩
  · obtain ⟨note, _, rfl⟩ := List.mem_map.mp hcontent
    cases hnote

end Onset

namespace Progression

def InOrder (first second : Nat × ℚ) : Prop :=
  first.1 < second.1 ∨ first.1 = second.1 ∧ first.2 ≤ second.2

theorem places_entriesFrom (lyric : Option String) (onsets : List (Nat × Onset ℚ)) :
    (entriesFrom false lyric onsets).map (fun entry => (entry.bar, entry.beats)) =
      onsets.flatMap fun item => (item.2.contents false).map fun _ => (item.1, item.2.beats) := by
  induction onsets generalizing lyric with
  | nil => rfl
  | cons first rest ih =>
      rw [entriesFrom, List.map_append, ih, List.flatMap_cons]
      refine congrArg (· ++ _) ?_
      unfold Onset.entries
      rw [List.map_map]
      rfl

theorem sorted_entriesFrom_iff {onsets : List (Nat × Onset ℚ)}
    (honsets : ∀ item ∈ onsets, item.2.contents false ≠ []) (lyric : Option String) :
    ((entriesFrom false lyric onsets).Pairwise fun first second =>
        InOrder (first.bar, first.beats) (second.bar, second.beats)) ↔
      onsets.Pairwise fun first second =>
        InOrder (first.1, first.2.beats) (second.1, second.2.beats) := by
  have hplaces := List.pairwise_map (R := InOrder)
    (f := fun entry : ProgressionEntry ℚ => (entry.bar, entry.beats))
    (l := entriesFrom false lyric onsets)
  rw [places_entriesFrom, List.pairwise_flatMap] at hplaces
  refine hplaces.symm.trans ⟨fun h => ?_, fun h => ⟨fun item _ => ?_, ?_⟩⟩
  · refine h.2.imp_of_mem fun {first second} hfirst hsecond hall => ?_
    obtain ⟨content, hcontent⟩ := List.exists_mem_of_ne_nil _ (honsets first hfirst)
    obtain ⟨other, hother⟩ := List.exists_mem_of_ne_nil _ (honsets second hsecond)
    exact hall _ (List.mem_map_of_mem hcontent) _ (List.mem_map_of_mem hother)
  · exact List.pairwise_map.mpr (List.pairwise_of_forall fun _ _ => .inr ⟨rfl, le_refl _⟩)
  · refine h.imp fun {first second} horder place hplace other hother => ?_
    obtain ⟨_, _, rfl⟩ := List.mem_map.mp hplace
    obtain ⟨_, _, rfl⟩ := List.mem_map.mp hother
    exact horder

theorem sorted_onsets_iff (skipHarmony : Bool) (score : Score ℚ) :
    ((onsets skipHarmony score).Pairwise fun first second =>
        InOrder (first.1, first.2.beats) (second.1, second.2.beats)) ↔
      ∀ bar < score.barCount, (Onset.ofBar (score.foundIn skipHarmony bar)).Pairwise
        fun first second => first.beats ≤ second.beats := by
  rw [onsets_eq, List.pairwise_flatMap]
  constructor
  · intro h bar hbar
    refine (List.pairwise_map.mp (h.1 bar (List.mem_range.mpr hbar))).imp fun horder => ?_
    exact (horder.resolve_left (lt_irrefl _)).2
  · refine fun h => ⟨fun bar hbar => ?_, ?_⟩
    · exact List.pairwise_map.mpr ((h bar (List.mem_range.mp hbar)).imp fun hbeats =>
        .inr ⟨rfl, hbeats⟩)
    · refine List.pairwise_lt_range.imp fun {bar later} hlt item hitem other hother => ?_
      obtain ⟨_, _, rfl⟩ := List.mem_map.mp hitem
      obtain ⟨_, _, rfl⟩ := List.mem_map.mp hother
      exact .inl (Nat.succ_lt_succ hlt)

end Progression

structure Place.IsWhole (place : Place ℚ) : Prop where
  cursor : ∃ count : ℕ, place.cursor = count
  anchor : ∃ count : ℕ, place.anchor = count

namespace Place.IsWhole

variable {place : Place ℚ}

theorem start : (Place.start : Place ℚ).IsWhole :=
  ⟨⟨0, Nat.cast_zero.symm⟩, ⟨0, Nat.cast_zero.symm⟩⟩

theorem after (h : place.IsWhole) (element : MeasureElement ℚ) :
    (place.after element).IsWhole := by
  obtain ⟨⟨cursor, hcursor⟩, hanchor⟩ := h
  cases element with
  | note note =>
      simp only [Place.after]
      split
      · exact ⟨⟨cursor, hcursor⟩, hanchor⟩
      · refine ⟨⟨cursor + note.duration, ?_⟩, ⟨cursor, hcursor⟩⟩
        rw [hcursor, Nat.cast_add]
  | harmony harmony => exact ⟨⟨cursor, hcursor⟩, hanchor⟩
  | direction mark => exact ⟨⟨cursor, hcursor⟩, hanchor⟩
  | backup duration =>
      refine ⟨⟨cursor - duration, ?_⟩, hanchor⟩
      simp only [Place.after, Quantity.greater_eq_max]
      rw [hcursor]
      rcases le_total duration cursor with hle | hle
      · rw [Nat.cast_sub hle, max_eq_left (sub_nonneg.mpr (Nat.cast_le.mpr hle))]
      · rw [Nat.sub_eq_zero_of_le hle, Nat.cast_zero,
          max_eq_right (sub_nonpos.mpr (Nat.cast_le.mpr hle))]
  | forward duration =>
      refine ⟨⟨cursor + duration, ?_⟩, hanchor⟩
      rw [Nat.cast_add, ← hcursor]
      rfl

theorem onset (h : place.IsWhole) (note : Note) : ∃ count : ℕ, place.onset note = count := by
  unfold Place.onset
  split
  · exact h.anchor
  · exact h.cursor

end Place.IsWhole

theorem Contribution.of_mem_ofElements {skipHarmony : Bool} {meter : Meter} {place : Place ℚ}
    (hplace : place.IsWhole) {elements : List (MeasureElement ℚ)} {contribution : Contribution ℚ}
    (h : contribution ∈ ofElements skipHarmony meter place elements) :
    ∃ (count : ℕ) (finding : Finding), contribution = .of meter count finding := by
  induction elements generalizing place with
  | nil => cases h
  | cons element rest ih =>
      rcases List.mem_append.mp h with hhere | hlater
      · rw [Option.mem_toList] at hhere
        cases element with
        | note note =>
            obtain ⟨pitch, _, rfl⟩ := Option.map_eq_some_iff.mp hhere
            obtain ⟨count, hcount⟩ := hplace.onset note
            exact ⟨count, _, by rw [hcount]⟩
        | harmony harmony =>
            unfold ofElement? at hhere
            dsimp only at hhere
            split at hhere
            · cases hhere
            · obtain ⟨label, _, rfl⟩ := Option.map_eq_some_iff.mp hhere
              obtain ⟨count, hcount⟩ := hplace.cursor
              exact ⟨count, _, by rw [hcount]⟩
        | direction mark => cases hhere
        | backup duration => cases hhere
        | forward duration => cases hhere
      · exact ih (hplace.after element) hlater

theorem Quantity.nearest_natCast (count : ℕ) :
    nearest ((count : ℚ) * ((1000 : ℕ) : ℚ)) = min greatestWord (count * 1000 : ℕ) := by
  have hround : ratNearest ((count : ℚ) * ((1000 : ℕ) : ℚ)) = (count * 1000 : ℕ) := by
    rw [← Nat.cast_mul]
    unfold ratNearest
    rw [if_neg (not_lt.mpr (Nat.cast_nonneg _))]
    show ⌊((count * 1000 : ℕ) : ℚ) + 1 / 2⌋ = _
    rw [Int.floor_natCast_add, show ⌊(1 / 2 : ℚ)⌋ = 0 by norm_num, add_zero]
  show clampInt _ _ _ = _
  rw [hround]
  unfold clampInt leastWord greatestWord
  omega

theorem Meter.beatAt_eq (meter : Meter) (position : ℚ) :
    meter.beatAt position = 1 + position * meter.beatsPerDivision := by
  show 1 + position / (meter.divisions : ℚ) * (meter.time.beatType : ℚ) / ((4 : ℕ) : ℚ) = _
  unfold beatsPerDivision
  rw [Nat.cast_ofNat]
  ring

namespace Score

variable {skipHarmony : Bool} {score : Score ℚ}

theorem mem_foundIn {bar : Nat} {contribution : Contribution ℚ}
    (h : contribution ∈ score.foundIn skipHarmony bar) :
    ∃ part ∈ score.parts, bar < part.measures.length ∧
      ∃ (count : ℕ) (finding : Finding), contribution = .of (part.meterAt bar) count finding := by
  obtain ⟨part, hpart, hcontribution⟩ := List.mem_flatMap.mp h
  rw [Part.getD_contributions] at hcontribution
  cases hmeasure : part.measures[bar]? with
  | none =>
      rw [hmeasure] at hcontribution
      cases hcontribution
  | some measure =>
      rw [hmeasure] at hcontribution
      exact ⟨part, hpart, (List.getElem?_eq_some_iff.mp hmeasure).1,
        Contribution.of_mem_ofElements Place.IsWhole.start hcontribution⟩

theorem CountsAlike.beats_le (h : score.CountsAlike skipHarmony) {bar : Nat}
    {first second : Contribution ℚ} (hfirst : first ∈ score.foundIn skipHarmony bar)
    (hsecond : second ∈ score.foundIn skipHarmony bar)
    (hle : first.thousandths ≤ second.thousandths) : first.beats ≤ second.beats := by
  have hwithin := h.bounded bar first hfirst
  obtain ⟨part, hpart, hbar, count, finding, rfl⟩ := mem_foundIn hfirst
  obtain ⟨other, hother, hotherBar, later, otherFinding, rfl⟩ := mem_foundIn hsecond
  have hscale : 0 ≤ (other.meterAt bar).beatsPerDivision :=
    div_nonneg (Nat.cast_nonneg _) (mul_nonneg (by norm_num) (Nat.cast_nonneg _))
  have hcounts : count ≤ later := by
    unfold Contribution.of at hle hwithin
    dsimp only at hle hwithin
    rw [Quantity.nearest_natCast] at hle hwithin
    rw [Quantity.nearest_natCast] at hle
    omega
  show (part.meterAt bar).beatAt (count : ℚ) ≤ (other.meterAt bar).beatAt (later : ℚ)
  rw [Meter.beatAt_eq, Meter.beatAt_eq, h.alike bar part hpart other hother hbar hotherBar]
  exact add_le_add_right (mul_le_mul_of_nonneg_right (Nat.cast_le.mpr hcounts) hscale) 1

theorem CountsAlike.beats_leader (h : score.CountsAlike skipHarmony) {bar : Nat}
    {contribution : Contribution ℚ} (hmem : contribution ∈ score.foundIn skipHarmony bar) :
    (contribution.leader (score.foundIn skipHarmony bar)).beats = contribution.beats := by
  obtain ⟨hleader, hsame⟩ := Contribution.leader_mem hmem
  exact le_antisymm (h.beats_le hleader hmem hsame.le) (h.beats_le hmem hleader hsame.ge)

theorem CountsAlike.leadEntries_eq (h : score.CountsAlike skipHarmony) :
    score.leadEntries skipHarmony = score.noteOnsets.map NoteOnset.entry := by
  rw [score.entries_noteOnsets skipHarmony]
  refine List.flatMap_congr fun bar _ => List.filterMap_congr fun contribution hmem => ?_
  rw [h.beats_leader hmem]

theorem CountsAlike.leadersInOrder (h : score.CountsAlike skipHarmony) :
    score.LeadersInOrder skipHarmony := by
  intro bar first hfirst second hsecond hlt
  rw [h.beats_leader hfirst, h.beats_leader hsecond]
  exact h.beats_le hfirst hsecond hlt.le

theorem symbols_progression (skipHarmony : Bool) (score : Score ℚ) :
    ∀ entry ∈ Progression.ofScore false skipHarmony score, entry.note? = none →
      ∃ symbol bar, entry.content = .harmony symbol ∧ entry.bar = bar + 1 ∧
        ∃ contribution ∈ score.foundIn skipHarmony bar,
          contribution.finding = .harmony symbol := by
  intro entry hentry hnote
  obtain ⟨item, hitem, lyric, hmem⟩ := Progression.onset_of_mem_entriesFrom hentry
  rw [Progression.onsets_eq] at hitem
  obtain ⟨bar, _, hbar⟩ := List.mem_flatMap.mp hitem
  obtain ⟨onset, honset, rfl⟩ := List.mem_map.mp hbar
  obtain ⟨hentryBar, symbol, hsymbol, hcontent⟩ := Onset.symbol_of_mem_entries hmem hnote
  exact ⟨symbol, bar, hcontent, hentryBar, Onset.harmony_of_mem_ofBar honset hsymbol⟩

theorem sorted_progression_iff (skipHarmony : Bool) (score : Score ℚ) :
    ((Progression.ofScore false skipHarmony score).Pairwise fun first second =>
        first.bar < second.bar ∨ first.bar = second.bar ∧ first.beats ≤ second.beats) ↔
      score.LeadersInOrder skipHarmony := by
  have honsets : ∀ item ∈ Progression.onsets skipHarmony score, item.2.contents false ≠ [] := by
    intro item hitem
    rw [Progression.onsets_eq] at hitem
    obtain ⟨bar, _, hbar⟩ := List.mem_flatMap.mp hitem
    obtain ⟨onset, honset, rfl⟩ := List.mem_map.mp hbar
    exact Onset.contents_ne_nil_of_mem honset
  refine (Progression.sorted_entriesFrom_iff honsets none).trans ?_
  rw [Progression.sorted_onsets_iff]
  constructor
  · intro h bar first hfirst
    obtain ⟨part, hpart, hbar, _⟩ := mem_foundIn hfirst
    have hcount : bar < score.barCount :=
      hbar.trans_le (Progression.le_foldl_max (.inr (List.mem_map_of_mem hpart)))
    exact (Onset.sorted_ofBar_iff _).mp (h bar hcount) first hfirst
  · exact fun h bar _ => (Onset.sorted_ofBar_iff _).mpr (h bar)

/-- Every note that starts to sound has one entry, on the beat of what is found first at its
position; all other entries are chord symbols. The entries are the notes on their own beats,
in order, if and only if these beats are those that the notes are written on, and later
positions have later ones. So it is where the parts count alike. -/
theorem placesProgression_iff (skipHarmony : Bool) (score : Score ℚ) :
    ((Progression.ofScore false skipHarmony score).filterMap ProgressionEntry.note?).Perm
        (score.leadEntries skipHarmony) ∧
      (score.PlacesProgression skipHarmony ↔
        (score.leadEntries skipHarmony).Perm (score.noteOnsets.map NoteOnset.entry) ∧
          score.LeadersInOrder skipHarmony) ∧
      (score.CountsAlike skipHarmony → score.PlacesProgression skipHarmony) := by
  have hnotes := Progression.entries_ofScore_perm skipHarmony score
  have hplaced : (score.leadEntries skipHarmony).Perm (score.noteOnsets.map NoteOnset.entry) →
      score.LeadersInOrder skipHarmony → score.PlacesProgression skipHarmony :=
    fun hbeats horder => ⟨hnotes.trans hbeats, symbols_progression skipHarmony score,
      (sorted_progression_iff skipHarmony score).mpr horder⟩
  refine ⟨hnotes, ⟨fun h => ?_, fun h => hplaced h.1 h.2⟩, fun h => ?_⟩
  · exact ⟨hnotes.symm.trans h.notes, (sorted_progression_iff skipHarmony score).mp h.sorted⟩
  · exact hplaced (.of_eq h.leadEntries_eq) h.leadersInOrder

end Score

/-- Two parts, each with a note behind one division. That is a quarter note in the first part
and an eighth note in the second, where a time signature may be declared. -/
def behindOneDivision (time : Option TimeSignature) : Score ℚ where
  parts := [
    ⟨"P1", [⟨"1", .none, [.forward 1, .note (.plain (some ⟨.c, 0, 4⟩) 1)]⟩]⟩,
    ⟨"P2", [⟨"1", ⟨some 2, time, none⟩, [.forward 1, .note (.plain (some ⟨.e, 0, 4⟩) 1)]⟩]⟩]

section Text

open Markup (tagged)

private def behindText (step : Char) : List (List Char) :=
  [tagged "forward" [] [tagged "duration" [] [['1']]],
    tagged "note" [] [
      tagged "pitch" [] [tagged "step" [] [[step]], tagged "octave" [] [['4']]],
      tagged "duration" [] [['1']]]]

private def behindOneDivisionText (time : List (List Char)) : List Char :=
  tagged "score-partwise" [] [
    tagged "part" [" id=", "\"P1\""] [
      tagged "measure" [" number=", "\"1\""] (behindText 'C')],
    tagged "part" [" id=", "\"P2\""] [
      tagged "measure" [" number=", "\"1\""]
        (tagged "attributes" [] (tagged "divisions" [] [['2']] :: time) :: behindText 'E')]]

private def inEighthsText : List Char :=
  tagged "time" [] [tagged "beats" [] [['8']], tagged "beat-type" [] [['8']]]

end Text

theorem placesProgression_iff_inEighths :
    (behindOneDivision (some ⟨8, 8⟩)).IsRead ∧
      (behindOneDivision (some ⟨8, 8⟩)).CountsAlike false ∧
      (behindOneDivision (some ⟨8, 8⟩)).PlacesProgression false := by
  have hread : (behindOneDivision (some ⟨8, 8⟩)).IsRead :=
    Score.isRead_of_characters (behindOneDivisionText [inEighthsText]) (by decide +kernel)
  have hbars : ∀ part ∈ (behindOneDivision (some ⟨8, 8⟩)).parts, part.measures.length = 1 := by
    decide
  have hcounts : (behindOneDivision (some ⟨8, 8⟩)).CountsAlike false := by
    constructor
    · intro bar first hfirst second hsecond hbar _
      rw [hbars first hfirst, Nat.lt_one_iff] at hbar
      subst hbar
      revert first second
      decide +kernel
    · intro bar contribution hfound
      have hfront : bar = 0 := by
        obtain ⟨part, hpart, hbar, _⟩ := Score.mem_foundIn hfound
        rwa [hbars part hpart, Nat.lt_one_iff] at hbar
      subst hfront
      revert contribution
      decide +kernel
  exact ⟨hread, hcounts, (Score.placesProgression_iff false _).2.2 hcounts⟩

/-- In quarters it is written at beat one and a half. It is found where the first note is, and
its entry is put on the beat of that note. -/
theorem not_placesProgression_unlikeDivisions :
    (behindOneDivision none).IsRead ∧ ¬(behindOneDivision none).PlacesProgression false := by
  have hread : (behindOneDivision none).IsRead :=
    Score.isRead_of_characters (behindOneDivisionText []) (by decide +kernel)
  refine ⟨hread, fun hplaced => ?_⟩
  have hentries := (Progression.entries_ofScore_perm false (behindOneDivision none)).symm.trans
    hplaced.notes
  have hbeats : (behindOneDivision none).leadEntries false =
      [⟨1, 2, .note "C" 4, none, none⟩, ⟨1, 2, .note "E" 4, none, none⟩] := by decide +kernel
  have hwritten : (behindOneDivision none).noteOnsets.map NoteOnset.entry =
      [⟨1, 2, .note "C" 4, none, none⟩, ⟨1, 3 / 2, .note "E" 4, none, none⟩] := by
    decide +kernel
  rw [hbeats, hwritten] at hentries
  exact absurd (hentries.mem_iff (a := ⟨1, 3 / 2, .note "E" 4, none, none⟩)) (by decide +kernel)

end Rubato
