import Mathlib.Data.Prod.Lex
import Rubato.Proofs.Progression
import Rubato.Proofs.Tempo.Written

namespace Rubato

/-! An onset stands at a bar and at the thousandths of a division behind the bar line. What
makes it up is what all parts have there, one part after the other and each in document
order. -/

/-- A bar, counted from zero, and thousandths of a division behind the bar line. -/
abbrev OnsetPlace := ℕ ×ₗ ℤ

def OnsetPlace.bar (place : OnsetPlace) : Nat := (ofLex place).1

def OnsetPlace.thousandths (place : OnsetPlace) : Int := (ofLex place).2

variable {α : Type}

def MeasureElement.sung? : MeasureElement α → Option String
  | .note written => if written.sounds?.isSome then written.lyric.filter (· ≠ "") else none
  | _ => none

def MeasureElement.symbol? : MeasureElement α → Option String
  | .harmony chord => chord.label?
  | _ => none

theorem MeasureElement.isSome_sounds?_of_sung? {element : MeasureElement α} {text : String}
    (h : element.sung? = some text) : element.sounds?.isSome = true := by
  cases element with
  | note written =>
      by_contra hsilent
      exact absurd ((if_neg hsilent).symm.trans h) (Option.some_ne_none text).symm
  | harmony chord => cases h
  | direction mark => cases h
  | backup duration => cases h
  | forward duration => cases h

namespace Finding

def ofElement? (skipHarmony : Bool) : MeasureElement α → Option Finding
  | .note written =>
    written.sounds?.map fun pitch => .note (.ofPitch pitch) (written.lyric.filter (· ≠ ""))
  | .harmony chord => if skipHarmony then none else chord.label?.map .harmony
  | _ => none

theorem note?_ofElement? (skipHarmony : Bool) (element : MeasureElement α) :
    (ofElement? skipHarmony element).bind note? = element.sounds?.map OnsetNote.ofPitch := by
  cases element with
  | note written =>
      show (written.sounds?.map _).bind note? = written.sounds?.map _
      cases written.sounds? <;> rfl
  | harmony harmony =>
      show (if skipHarmony then none else _).bind note? = none
      split
      · rfl
      · cases harmony.label? <;> rfl
  | direction mark => rfl
  | backup duration => rfl
  | forward duration => rfl

theorem lyric?_ofElement? (skipHarmony : Bool) (element : MeasureElement α) :
    (ofElement? skipHarmony element).bind lyric? = element.sung? := by
  cases element with
  | note written =>
      show (written.sounds?.map _).bind lyric? = if written.sounds?.isSome then _ else _
      cases written.sounds? <;> rfl
  | harmony harmony =>
      show (if skipHarmony then none else _).bind lyric? = none
      split
      · rfl
      · cases harmony.label? <;> rfl
  | direction mark => rfl
  | backup duration => rfl
  | forward duration => rfl

theorem harmony?_ofElement? (skipHarmony : Bool) (element : MeasureElement α) :
    (ofElement? skipHarmony element).bind harmony? =
      if skipHarmony then none else element.symbol? := by
  cases element with
  | note written =>
      show (written.sounds?.map _).bind harmony? = if skipHarmony then none else none
      rw [ite_self]
      cases written.sounds? <;> rfl
  | harmony harmony =>
      show (if skipHarmony then none else _).bind harmony? = if skipHarmony then none else _
      split
      · rfl
      · show (harmony.label?.map _).bind harmony? = harmony.label?
        cases harmony.label? <;> rfl
  | direction mark => exact (ite_self none).symm
  | backup duration => exact (ite_self none).symm
  | forward duration => exact (ite_self none).symm

theorem isSome_ofElement? (skipHarmony : Bool) (element : MeasureElement α) :
    (ofElement? skipHarmony element).isSome = true ↔
      element.sounds?.isSome = true ∨ skipHarmony = false ∧ element.symbol?.isSome = true := by
  cases element with
  | note written =>
      show (written.sounds?.map _).isSome = true ↔ written.sounds?.isSome = true ∨ _ ∧ false = true
      simp
  | harmony harmony =>
      show (if skipHarmony then none else _).isSome = true ↔
        false = true ∨ _ ∧ harmony.label?.isSome = true
      cases skipHarmony <;> simp
  | direction mark => simp [ofElement?, MeasureElement.sounds?, MeasureElement.symbol?]
  | backup duration => simp [ofElement?, MeasureElement.sounds?, MeasureElement.symbol?]
  | forward duration => simp [ofElement?, MeasureElement.sounds?, MeasureElement.symbol?]

end Finding

variable [Quantity α]

namespace Place

def positionOf (place : Place α) : MeasureElement α → α
  | .note note => place.onset note
  | _ => place.cursor

/-- The elements of a measure, each with its thousandths behind the bar line. -/
def located (place : Place α) : List (MeasureElement α) → List (Int × MeasureElement α)
  | [] => []
  | element :: rest =>
    (Quantity.nearest (place.positionOf element * ((1000 : Nat) : α)), element) ::
      (place.after element).located rest

end Place

def Part.located (part : Part α) : List (OnsetPlace × MeasureElement α) :=
  part.measures.zipIdx.flatMap fun (measure, bar) =>
    (Place.start.located measure.elements).map fun entry => (toLex (bar, entry.1), entry.2)

def Score.located (score : Score α) : List (OnsetPlace × MeasureElement α) :=
  score.parts.flatMap Part.located

namespace Score

def elementsAt (score : Score α) (place : OnsetPlace) : List (MeasureElement α) :=
  share place score.located

/-- The notes that start to sound at a place. -/
def pitchesAt (score : Score α) (place : OnsetPlace) : List Pitch :=
  (score.elementsAt place).filterMap MeasureElement.sounds?

def symbolAt (score : Score α) (place : OnsetPlace) : Option String :=
  ((score.elementsAt place).filterMap MeasureElement.symbol?).getLast?

def lyricAt (score : Score α) (place : OnsetPlace) : Option String :=
  ((score.elementsAt place).filterMap MeasureElement.sung?).getLast?

end Score

theorem Part.getD_contributions (skipHarmony : Bool) (part : Part α)
    (bar : Nat) :
    (part.contributions skipHarmony).getD bar [] =
      match part.measures[bar]? with
      | some measure =>
          Contribution.ofElements skipHarmony (part.meterAt bar) Place.start measure.elements
      | none => [] := by
  have hmetered : ∀ (meter : Meter) (measures : List (Measure α)) (bar : Nat),
      (meteredFrom meter measures)[bar]? = measures[bar]?.map fun measure =>
        ((measures.take (bar + 1)).foldl (fun meter measure => meter.update measure.attributes)
          meter, measure) := by
    intro meter measures
    induction measures generalizing meter with
    | nil => exact fun bar => rfl
    | cons measure rest ih =>
        intro bar
        cases bar with
        | zero => rfl
        | succ bar =>
            rw [meteredFrom, List.getElem?_cons_succ, ih, List.getElem?_cons_succ,
              List.take_succ_cons, List.foldl_cons]
  unfold contributions
  rw [List.getD_eq_getElem?_getD, List.getElem?_map, hmetered]
  cases part.measures[bar]? <;> rfl

theorem Contribution.ofElement?_eq (skipHarmony : Bool) (meter : Meter) (place : Place α)
    (element : MeasureElement α) :
    ofElement? skipHarmony meter place element =
      (Finding.ofElement? skipHarmony element).map
        (Contribution.of meter (place.positionOf element)) := by
  cases element with
  | note written =>
      show written.sounds?.map _ = (written.sounds?.map _).map _
      rw [Option.map_map]
      rfl
  | harmony harmony =>
      show (if skipHarmony then none else harmony.label?.map _) =
        (if skipHarmony then none else harmony.label?.map _).map _
      split
      · rfl
      · rw [Option.map_map]
        rfl
  | direction mark => rfl
  | backup duration => rfl
  | forward duration => rfl

theorem Contribution.findings_ofElements (skipHarmony : Bool) (meter : Meter) (place : Place α)
    (thousandths : Int) (elements : List (MeasureElement α)) :
    ((ofElements skipHarmony meter place elements).filter fun contribution =>
        decide (contribution.thousandths = thousandths)).map (·.finding) =
      (share thousandths (place.located elements)).filterMap
        (Finding.ofElement? skipHarmony) := by
  induction elements generalizing place with
  | nil => rfl
  | cons element rest ih =>
      rw [ofElements, List.filter_append, List.map_append, ih, Place.located, ofElement?_eq]
      by_cases hhere : Quantity.nearest (place.positionOf element * ((1000 : Nat) : α)) =
          thousandths
      · rw [hhere, share_cons_self]
        cases hfinding : Finding.ofElement? skipHarmony element with
        | none =>
            rw [List.filterMap_cons_none hfinding]
            rfl
        | some finding =>
            rw [List.filterMap_cons_some hfinding, Option.map_some, Option.toList_some,
              List.filter_cons_of_pos (by exact decide_eq_true hhere)]
            rfl
      · rw [share_cons_of_ne hhere]
        cases Finding.ofElement? skipHarmony element with
        | none => rfl
        | some finding =>
            rw [Option.map_some, Option.toList_some,
              List.filter_cons_of_neg (by exact mt of_decide_eq_true hhere)]
            rfl

theorem share_located_measures (bar : Nat) (thousandths : Int) (measures : List (Measure α))
    (first : Nat) :
    share (toLex (bar, thousandths)) ((measures.zipIdx first).flatMap fun (measure, number) =>
        (Place.start.located measure.elements).map fun entry =>
          (toLex (number, entry.1), entry.2)) =
      if first ≤ bar then
        match measures[bar - first]? with
        | some measure => share thousandths (Place.start.located measure.elements)
        | none => []
      else [] := by
  induction measures generalizing first with
  | nil => exact (ite_self []).symm
  | cons measure rest ih =>
      rw [List.zipIdx_cons, List.flatMap_cons, share_append, ih]
      by_cases hbar : first = bar
      · subst hbar
        have hhere := share_rename (toLex.injective.comp (Prod.mk_right_injective first))
          thousandths (Place.start.located measure.elements)
        rw [if_neg (Nat.not_succ_le_self first), if_pos (le_refl first), Nat.sub_self,
          List.append_nil]
        exact hhere
      · have hnone : share (toLex (bar, thousandths))
            ((Place.start.located measure.elements).map fun entry =>
              (toLex (first, entry.1), entry.2)) = [] := by
          refine share_eq_nil fun entry hentry heq => hbar ?_
          obtain ⟨_, _, rfl⟩ := List.mem_map.mp hentry
          exact congrArg Prod.fst (toLex.injective heq)
        rw [hnone, List.nil_append]
        by_cases hlater : first ≤ bar
        · have hnext : first + 1 ≤ bar := Nat.lt_of_le_of_ne hlater hbar
          rw [if_pos hnext, if_pos hlater, show bar - first = bar - (first + 1) + 1 by omega,
            List.getElem?_cons_succ]
        · rw [if_neg hlater, if_neg fun hnext => hlater (Nat.le_of_succ_le hnext)]

theorem Part.share_located (part : Part α) (place : OnsetPlace) :
    share place part.located =
      match part.measures[place.bar]? with
      | some measure => share place.thousandths (Place.start.located measure.elements)
      | none => [] := by
  have hmeasures := share_located_measures place.bar place.thousandths part.measures 0
  rwa [if_pos (Nat.zero_le _)] at hmeasures

theorem Score.findings_foundIn (skipHarmony : Bool) (score : Score α) (place : OnsetPlace) :
    ((score.foundIn skipHarmony place.bar).filter fun contribution =>
        decide (contribution.thousandths = place.thousandths)).map (·.finding) =
      (score.elementsAt place).filterMap (Finding.ofElement? skipHarmony) := by
  unfold foundIn elementsAt located
  rw [List.filter_flatMap, List.map_flatMap, share_flatMap, List.filterMap_flatMap]
  refine List.flatMap_congr fun part _ => ?_
  rw [Part.getD_contributions, Part.share_located]
  cases part.measures[place.bar]? with
  | none => rfl
  | some measure => exact Contribution.findings_ofElements _ _ _ _ _

namespace Onset

omit [Quantity α]

variable {found : List (Contribution α)} {onset : Onset α}

def at? (found : List (Contribution α)) (position : Int) : Option (Onset α) :=
  match found.filter fun contribution => contribution.thousandths == position with
  | [] => none
  | first :: others => some (ofContributions first others)

def positions (found : List (Contribution α)) : List Int :=
  (found.map (·.thousandths)).eraseDups.mergeSort

theorem ofBar_eq (found : List (Contribution α)) :
    ofBar found = (positions found).filterMap (at? found) := by
  unfold ofBar
  refine List.filterMap_congr fun position _ => ?_
  unfold at?
  cases found.filter fun contribution => contribution.thousandths == position <;> rfl

theorem mem_positions {position : Int} :
    position ∈ positions found ↔ ∃ contribution ∈ found, contribution.thousandths = position := by
  unfold positions
  rw [List.mem_mergeSort, List.mem_eraseDups, List.mem_map]

theorem sorted_positions (found : List (Contribution α)) :
    (positions found).Pairwise (· < ·) := by
  have hperm := List.mergeSort_perm (found.map (·.thousandths)).eraseDups
    fun first second => decide (first ≤ second)
  have hsorted : (positions found).Pairwise fun first second => decide (first ≤ second) = true :=
    List.pairwise_mergeSort (fun a b c => by simpa using le_trans)
      (fun a b => by simpa using le_total a b) _
  have hdistinct : (positions found).Nodup := hperm.nodup_iff.mpr (nodup_eraseDups _)
  exact (hsorted.and hdistinct).imp fun h => lt_of_le_of_ne (of_decide_eq_true h.1) h.2

theorem exists_of_at? {position : Int} (h : at? found position = some onset) :
    ∃ first others, (found.filter fun contribution =>
        decide (contribution.thousandths = position)) = first :: others ∧
      onset = ofContributions first others := by
  unfold at? at h
  split at h
  · cases h
  · next first others hhere =>
      cases h
      exact ⟨first, others, hhere, rfl⟩

theorem exists_at? {contribution : Contribution α} (hmem : contribution ∈ found) :
    ∃ onset, at? found contribution.thousandths = some onset := by
  have hmember : contribution ∈ found.filter fun other =>
      other.thousandths == contribution.thousandths :=
    List.mem_filter.mpr ⟨hmem, beq_self_eq_true _⟩
  unfold at?
  split
  · next hhere => rw [hhere] at hmember; cases hmember
  · exact ⟨_, rfl⟩

end Onset

omit [Quantity α] in
theorem Contribution.leader_mem {found : List (Contribution α)} {contribution : Contribution α}
    (hmem : contribution ∈ found) :
    contribution.leader found ∈ found ∧
      (contribution.leader found).thousandths = contribution.thousandths := by
  unfold leader
  cases hfirst : found.find? fun other =>
      decide (other.thousandths = contribution.thousandths) with
  | none => exact ⟨hmem, rfl⟩
  | some first =>
      exact ⟨List.mem_of_find?_eq_some hfirst, of_decide_eq_true (List.find?_some hfirst :)⟩

namespace Score

def onsetPlaces (skipHarmony : Bool) (score : Score α) : List OnsetPlace :=
  (List.range score.barCount).flatMap fun bar =>
    (Onset.positions (score.foundIn skipHarmony bar)).map fun thousandths =>
      toLex (bar, thousandths)

/-- The beat of what is found first at a place. -/
def beatsAt (skipHarmony : Bool) (score : Score α) (place : OnsetPlace) : α :=
  (((score.foundIn skipHarmony place.bar).find? fun contribution =>
    decide (contribution.thousandths = place.thousandths)).map (·.beats)).getD 0

def onsetAt (skipHarmony : Bool) (score : Score α) (place : OnsetPlace) : Onset α where
  beats := score.beatsAt skipHarmony place
  notes := (score.pitchesAt place).map OnsetNote.ofPitch
  harmony := if skipHarmony then none else score.symbolAt place
  lyric := score.lyricAt place

variable {skipHarmony : Bool} {score : Score α} {place : OnsetPlace}

theorem sorted_onsetPlaces (skipHarmony : Bool) (score : Score α) :
    (score.onsetPlaces skipHarmony).Pairwise (· < ·) := by
  unfold onsetPlaces
  rw [List.pairwise_flatMap]
  constructor
  · intro bar _
    refine List.pairwise_map.mpr ((Onset.sorted_positions _).imp fun hlt => ?_)
    exact Prod.Lex.toLex_lt_toLex.mpr (.inr ⟨rfl, hlt⟩)
  · refine List.pairwise_lt_range.imp fun {bar later} hlt first hfirst second hsecond => ?_
    obtain ⟨_, _, rfl⟩ := List.mem_map.mp hfirst
    obtain ⟨_, _, rfl⟩ := List.mem_map.mp hsecond
    exact Prod.Lex.toLex_lt_toLex.mpr (.inl hlt)

theorem bar_lt_of_mem_foundIn {bar : Nat} {contribution : Contribution α}
    (h : contribution ∈ score.foundIn skipHarmony bar) : bar < score.barCount := by
  obtain ⟨part, hpart, hmem⟩ := List.mem_flatMap.mp h
  have hmeasures : (part.contributions skipHarmony).length ≤ score.barCount := by
    rw [part.length_contributions]
    exact Progression.le_foldl_max (.inr (List.mem_map_of_mem hpart))
  by_contra hbar
  rw [List.getD_eq_default _ _ (hmeasures.trans (Nat.not_lt.mp hbar))] at hmem
  cases hmem

theorem mem_onsetPlaces :
    place ∈ score.onsetPlaces skipHarmony ↔
      ∃ contribution ∈ score.foundIn skipHarmony place.bar,
        contribution.thousandths = place.thousandths := by
  unfold onsetPlaces
  rw [List.mem_flatMap]
  constructor
  · rintro ⟨bar, _, hplace⟩
    obtain ⟨thousandths, hmem, rfl⟩ := List.mem_map.mp hplace
    exact Onset.mem_positions.mp hmem
  · rintro ⟨contribution, hmem, hthousandths⟩
    refine ⟨place.bar, List.mem_range.mpr (bar_lt_of_mem_foundIn hmem), ?_⟩
    exact List.mem_map.mpr ⟨place.thousandths,
      Onset.mem_positions.mpr ⟨contribution, hmem, hthousandths⟩, rfl⟩

theorem mem_onsetPlaces_iff :
    place ∈ score.onsetPlaces skipHarmony ↔
      score.pitchesAt place ≠ [] ∨ skipHarmony = false ∧ score.symbolAt place ≠ none := by
  have hplace : place ∈ score.onsetPlaces skipHarmony ↔
      (score.elementsAt place).filterMap (Finding.ofElement? skipHarmony) ≠ [] := by
    rw [← score.findings_foundIn skipHarmony place, mem_onsetPlaces, ne_eq, List.map_eq_nil_iff,
      List.filter_eq_nil_iff]
    simp
  rw [hplace]
  unfold pitchesAt symbolAt
  simp only [ne_eq, List.getLast?_eq_none_iff, List.filterMap_eq_nil_iff, not_forall,
    ← Option.isSome_iff_ne_none, Finding.isSome_ofElement?]
  constructor
  · rintro ⟨element, hmem, hsounds | ⟨hkept, hsymbol⟩⟩
    · exact .inl ⟨element, hmem, hsounds⟩
    · exact .inr ⟨hkept, element, hmem, hsymbol⟩
  · rintro (⟨element, hmem, hsounds⟩ | ⟨hkept, element, hmem, hsymbol⟩)
    · exact ⟨element, hmem, .inl hsounds⟩
    · exact ⟨element, hmem, .inr ⟨hkept, hsymbol⟩⟩

theorem ofContributions_eq_onsetAt {first : Contribution α} {others : List (Contribution α)}
    (hhere : ((score.foundIn skipHarmony place.bar).filter fun contribution =>
      decide (contribution.thousandths = place.thousandths)) = first :: others) :
    Onset.ofContributions first others = score.onsetAt skipHarmony place := by
  have hfindings := score.findings_foundIn skipHarmony place
  rw [hhere] at hfindings
  unfold Onset.ofContributions onsetAt
  dsimp only
  rw [hfindings, List.filterMap_filterMap, List.filterMap_filterMap, List.filterMap_filterMap]
  simp only [Finding.note?_ofElement?, Finding.harmony?_ofElement?, Finding.lyric?_ofElement?]
  congr 1
  · unfold beatsAt
    rw [← List.head?_filter, hhere]
    rfl
  · exact List.map_filterMap.symm
  · cases skipHarmony with
    | true => exact congrArg List.getLast? (List.filterMap_eq_nil_iff.mpr fun _ _ => rfl)
    | false => rfl

theorem at?_of_mem_onsetPlaces (h : place ∈ score.onsetPlaces skipHarmony) :
    Onset.at? (score.foundIn skipHarmony place.bar) place.thousandths =
      some (score.onsetAt skipHarmony place) := by
  obtain ⟨contribution, hmem, hthousandths⟩ := mem_onsetPlaces.mp h
  obtain ⟨onset, honset⟩ := Onset.exists_at? hmem
  rw [hthousandths] at honset
  obtain ⟨first, others, hhere, rfl⟩ := Onset.exists_of_at? honset
  rw [honset, ofContributions_eq_onsetAt hhere]

end Score

namespace Progression

theorem onsets_eq_places (skipHarmony : Bool) (score : Score α) :
    onsets skipHarmony score = (score.onsetPlaces skipHarmony).map fun place =>
      (place.bar + 1, score.onsetAt skipHarmony place) := by
  have hplaces : onsets skipHarmony score =
      (score.onsetPlaces skipHarmony).filterMap fun place =>
        (Onset.at? (score.foundIn skipHarmony place.bar) place.thousandths).map
          (place.bar + 1, ·) := by
    rw [onsets_eq]
    unfold Score.onsetPlaces
    rw [List.filterMap_flatMap]
    refine List.flatMap_congr fun bar _ => ?_
    rw [Onset.ofBar_eq, List.map_filterMap, List.filterMap_map]
    rfl
  rw [hplaces, List.filterMap_eq_map_iff_forall_eq_some]
  intro place hplace
  rw [Score.at?_of_mem_onsetPlaces hplace]
  rfl

end Progression

end Rubato
