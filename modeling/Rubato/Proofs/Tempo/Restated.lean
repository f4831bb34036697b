import Rubato.Proofs.Performance.Segments

namespace Rubato

/-! A map answers alike with an event next to its double and without: the last tempo up to a
position is the same, and setting a segment again leaves the segments as they are. -/

structure Noted.Alike {α β γ : Type} (related : β → γ → Prop) (first : Noted α β)
    (second : Noted α γ) : Prop where
  value : related first.value second.value
  remarks : first.remarks = second.remarks

namespace Noted.Alike

variable {α β γ β' γ' δ : Type} {related : β → γ → Prop} {related' : β' → γ' → Prop}

theorem pure {b : β} {c : γ} (h : related b c) :
    Alike related (Pure.pure b : Noted α β) (Pure.pure c : Noted α γ) := ⟨h, rfl⟩

theorem bind {first : Noted α β} {second : Noted α γ} (h : Alike related first second)
    {next : β → Noted α β'} {other : γ → Noted α γ'}
    (hnext : ∀ b c, related b c → Alike related' (next b) (other c)) :
    Alike related' (first >>= next) (second >>= other) := by
  have hvalue := hnext first.value second.value h.value
  refine ⟨hvalue.value, ?_⟩
  rw [remarks_bind, remarks_bind, h.remarks, hvalue.remarks]

theorem foldList {step : β → δ → Noted α β} {other : γ → δ → Noted α γ}
    (hstep : ∀ b c entry, related b c → Alike related (step b entry) (other c entry))
    (list : List δ) {b : β} {c : γ} (h : related b c) :
    Alike related (Noted.foldList step b list) (Noted.foldList other c list) := by
  induction list generalizing b c with
  | nil => exact pure h
  | cons entry rest ih => exact (hstep b c entry h).bind fun _ _ hnext => ih hnext

theorem eq {first second : Noted α β} (h : Alike Eq first second) : first = second := by
  obtain ⟨value, remarks⟩ := first
  obtain ⟨hvalue, hremarks⟩ := h
  subst hvalue hremarks
  rfl

end Noted.Alike

/-- The same entries in the same order, of which one may stand there twice in a row. -/
inductive Restated {β : Type} : List β → List β → Prop
  | same (entries : List β) : Restated entries entries
  | again (entry : β) (rest : List β) : Restated (entry :: entry :: rest) (entry :: rest)
  | cons (entry : β) {first second : List β} (h : Restated first second) :
      Restated (entry :: first) (entry :: second)

namespace Restated

variable {β γ : Type} {first second : List β}

theorem append (front : List β) (h : Restated first second) :
    Restated (front ++ first) (front ++ second) := by
  induction front with
  | nil => exact h
  | cons entry rest ih => exact .cons entry ih

theorem takeWhile (keep : β → Bool) (h : Restated first second) :
    Restated (first.takeWhile keep) (second.takeWhile keep) := by
  induction h with
  | same entries => exact .same _
  | again entry rest =>
      by_cases hkeep : keep entry = true
      · rw [List.takeWhile_cons_of_pos hkeep, List.takeWhile_cons_of_pos hkeep]
        exact .again entry _
      · rw [List.takeWhile_cons_of_neg hkeep, List.takeWhile_cons_of_neg hkeep]
        exact .same []
  | cons entry _ ih =>
      by_cases hkeep : keep entry = true
      · rw [List.takeWhile_cons_of_pos hkeep, List.takeWhile_cons_of_pos hkeep]
        exact .cons entry ih
      · rw [List.takeWhile_cons_of_neg hkeep, List.takeWhile_cons_of_neg hkeep]
        exact .same []

theorem filter (keep : β → Bool) (h : Restated first second) :
    Restated (first.filter keep) (second.filter keep) := by
  induction h with
  | same entries => exact .same _
  | again entry rest =>
      by_cases hkeep : keep entry = true
      · rw [List.filter_cons_of_pos hkeep, List.filter_cons_of_pos hkeep]
        exact .again entry _
      · rw [List.filter_cons_of_neg hkeep, List.filter_cons_of_neg hkeep]
        exact .same _
  | cons entry _ ih =>
      by_cases hkeep : keep entry = true
      · rw [List.filter_cons_of_pos hkeep, List.filter_cons_of_pos hkeep]
        exact .cons entry ih
      · rw [List.filter_cons_of_neg hkeep, List.filter_cons_of_neg hkeep]
        exact ih

theorem getLast?_eq (h : Restated first second) : first.getLast? = second.getLast? := by
  induction h with
  | same entries => rfl
  | again entry rest => exact List.getLast?_cons_cons
  | cons entry _ ih => rw [List.getLast?_cons, List.getLast?_cons, ih]

theorem foldl_eq {step : γ → β → γ} (hagain : ∀ c b, step (step c b) b = step c b)
    (h : Restated first second) (start : γ) :
    first.foldl step start = second.foldl step start := by
  induction h generalizing start with
  | same entries => rfl
  | again entry rest => rw [List.foldl_cons, List.foldl_cons, hagain, List.foldl_cons]
  | cons entry _ ih => exact ih (step start entry)

theorem mergeSort {inOrder : β → β → Bool}
    (htrans : ∀ first second third, inOrder first second → inOrder second third →
      inOrder first third)
    (htotal : ∀ first second, inOrder first second || inOrder second first)
    (entry : β) (rest : List β) :
    Restated ((entry :: entry :: rest).mergeSort inOrder)
      ((entry :: rest).mergeSort inOrder) := by
  obtain ⟨front, back, hsorted, -, hfront⟩ := List.mergeSort_cons htrans htotal entry rest
  obtain ⟨front', back', hsorted', hwithout, hfront'⟩ :=
    List.mergeSort_cons htrans htotal entry (entry :: rest)
  have hself : inOrder entry entry = true := by simpa using htotal entry entry
  have hback' : ∀ other ∈ back', inOrder entry other = true := by
    have hpairwise := List.pairwise_mergeSort htrans htotal (entry :: entry :: rest)
    rw [hsorted', List.pairwise_append] at hpairwise
    exact (List.pairwise_cons.mp hpairwise.2.1).1
  -- Both fronts are what the sorted entries begin with before one that is not smaller.
  have hsame : front = front' := by
    have htake := congrArg (List.takeWhile fun other => !inOrder entry other)
      (hsorted.symm.trans hwithout)
    rw [List.takeWhile_append_of_pos hfront, List.takeWhile_append_of_pos hfront',
      List.takeWhile_cons_of_neg (by simp [hself]), List.append_nil] at htake
    cases back' with
    | nil => simpa using htake
    | cons other later =>
        rwa [List.takeWhile_cons_of_neg (by simp [hback' other List.mem_cons_self]),
          List.append_nil] at htake
  subst hsame
  have hback : entry :: back = back' := List.append_cancel_left (hsorted.symm.trans hwithout)
  rw [hsorted', hsorted, ← hback]
  exact .append front (.again entry back)

end Restated

theorem TempoSegments.set_set (offset bpm : ℚ) (segments : TempoSegments ℚ) :
    set offset bpm (set offset bpm segments) = set offset bpm segments := by
  have htolerance := offsetTolerance_pos
  have hthere : ∀ rest : TempoSegments ℚ,
      set offset bpm (⟨offset, bpm⟩ :: rest) = ⟨offset, bpm⟩ :: rest := by
    intro rest
    rw [set_cons, if_pos (sub_lt_self offset htolerance)]
    exact if_pos (by rwa [sub_self, abs_zero])
  induction segments with
  | nil => exact hthere []
  | cons segment rest ih =>
      rw [set_cons]
      split
      · next hreached =>
          split
          · next hnear =>
              rw [set_cons]
              exact (if_pos hreached).trans (if_pos hnear)
          · exact hthere _
      · next hbefore => rw [set_cons, if_neg hbefore, ih]

structure TempoMap.Restates (map other : TempoMap ℚ) : Prop where
  events : Restated map.events other.events
  ramps : map.ramps = other.ramps

namespace TempoMap.Restates

variable {map other : TempoMap ℚ} (h : map.Restates other)

include h

theorem tempoAt_eq (position : ℚ) : map.tempoAt position = other.tempoAt position := by
  unfold TempoMap.tempoAt
  rw [(h.events.takeWhile _).getLast?_eq]

theorem localTempo_eq (position base : ℚ) :
    map.localTempo position base = other.localTempo position base := by
  unfold TempoMap.localTempo
  rw [h.ramps]

theorem steppedSeconds_eq (stop tempo divisions : ℚ) (steps : Nat) (position elapsed : ℚ) :
    map.steppedSeconds stop tempo divisions steps position elapsed =
      other.steppedSeconds stop tempo divisions steps position elapsed := by
  induction steps generalizing position elapsed with
  | zero => rfl
  | succ steps ih =>
      unfold steppedSeconds
      simp only [h.localTempo_eq, ih]

theorem seconds_eq (start count tempo divisions : ℚ) :
    map.seconds start count tempo divisions = other.seconds start count tempo divisions := by
  unfold TempoMap.seconds isSteady
  simp only [h.ramps, h.steppedSeconds_eq]

end TempoMap.Restates

section Scan

variable {α : Type}

def Part.stating (tempo : α) (part : Part α) : Part α :=
  { part with
    measures :=
      match part.measures with
      | [] => []
      | first :: rest => first.addFront (.direction ⟨[], some tempo⟩) :: rest }

theorem MeasureElement.forced_forced (first second : α) (element : MeasureElement α) :
    (element.forced first).forced second = element.forced second := by
  cases element with
  | direction mark => cases mark with | mk words tempo => cases tempo <;> rfl
  | note note => rfl
  | harmony harmony => rfl
  | backup duration => rfl
  | forward duration => rfl

theorem Measure.forced_forced (first second : α) (measure : Measure α) :
    (measure.forced first).forced second = measure.forced second := by
  unfold Measure.forced
  dsimp only
  rw [List.map_map]
  congr 1
  exact List.map_congr_left fun element _ => element.forced_forced first second

theorem Part.forced_forced (first second : α) (part : Part α) :
    (part.forced first).forced second = (part.forced second).stating second := by
  cases part with
  | mk id measures =>
      cases measures with
      | nil => rfl
      | cons measure rest =>
          have hrest : (rest.map (Measure.forced first)).map (Measure.forced second) =
              rest.map (Measure.forced second) := by
            rw [List.map_map]
            exact List.map_congr_left fun other _ => other.forced_forced first second
          have hfront : ((measure.forced first).addFront (.direction ⟨[], some first⟩)).forced
                second =
              (measure.forced second).addFront (.direction ⟨[], some second⟩) := by
            rw [← measure.forced_forced first second]
            rfl
          simp only [Part.forced, Part.stating, List.map_cons, hrest, hfront]

variable [Quantity α]

namespace TempoScan

def following (front : List (TempoEvent α)) (scan : TempoScan α) : TempoScan α :=
  { scan with events := front ++ scan.events }

variable (front : List (TempoEvent α)) (scan : TempoScan α)

theorem following_setTempo (position bpm : α) :
    (scan.following front).setTempo position bpm =
      (scan.setTempo position bpm).following front := by
  simp only [setTempo, close, following, List.append_assoc]

theorem following_applyWords (position : α) (words : String) :
    applyWords position (scan.following front) words =
      (applyWords position scan words).following front := by
  unfold applyWords
  cases TempoCue.ofWords? words with
  | none => rfl
  | some cue =>
      cases cue with
      | resume => rfl
      | ramp kind =>
          simp only [applyCue, following]
          split <;> rfl

theorem following_direction (position : α) (mark : Direction α) :
    (scan.following front).direction position mark =
      (scan.direction position mark).following front := by
  have hwords : ∀ (words : List String) (scan : TempoScan α),
      words.foldl (applyWords position) (scan.following front) =
        (words.foldl (applyWords position) scan).following front := by
    intro words
    induction words with
    | nil => exact fun _ => rfl
    | cons text rest ih =>
        intro scan
        rw [List.foldl_cons, following_applyWords, ih, List.foldl_cons]
  unfold direction
  cases mark.tempo with
  | none => exact hwords _ _
  | some bpm =>
      dsimp only
      rw [following_setTempo, hwords]

theorem following_foldl_element (elements : List (MeasureElement α)) (place : Place α) :
    elements.foldl element (scan.following front, place) =
      ((elements.foldl element (scan, place)).1.following front,
        (elements.foldl element (scan, place)).2) := by
  induction elements generalizing scan place with
  | nil => rfl
  | cons first rest ih =>
      have hstep : element (scan.following front, place) first =
          ((element (scan, place) first).1.following front,
            (element (scan, place) first).2) := by
        cases first with
        | direction mark =>
            exact congrArg (·, place) (scan.following_direction front _ mark)
        | note note => rfl
        | harmony harmony => rfl
        | backup duration => rfl
        | forward duration => rfl
      rw [List.foldl_cons, List.foldl_cons, hstep, ih]

theorem following_measure (measure : Measure α) :
    (scan.following front).measure measure = (scan.measure measure).following front := by
  unfold TempoScan.measure
  dsimp only
  rw [show ({ scan.following front with
        meter := (scan.following front).meter.update measure.attributes } : TempoScan α) =
      TempoScan.following front
        { scan with meter := scan.meter.update measure.attributes } from rfl,
    following_foldl_element]
  rfl

theorem following_foldl_measure (measures : List (Measure α)) :
    measures.foldl TempoScan.measure (scan.following front) =
      (measures.foldl TempoScan.measure scan).following front := by
  induction measures generalizing scan with
  | nil => rfl
  | cons first rest ih => rw [List.foldl_cons, following_measure, ih, List.foldl_cons]

end TempoScan

theorem Part.exists_scan_stating (part : Part α) (bpm : α) (hmeasures : part.measures ≠ []) :
    ∃ (event : TempoEvent α) (scan : TempoScan α),
      (part.stating bpm).measures.foldl TempoScan.measure .initial = scan.following [event] ∧
        ((part.stating bpm).stating bpm).measures.foldl TempoScan.measure .initial =
          scan.following [event, event] := by
  let event : TempoEvent α := ⟨0 + 0, bpm⟩
  let stated : TempoScan α := { TempoScan.initial with tempo := bpm }
  unfold Part.stating
  cases hpart : part.measures with
  | nil => exact absurd hpart hmeasures
  | cons first rest =>
      let front : MeasureElement α := .direction ⟨[], some bpm⟩
      have honce : TempoScan.initial.measure (first.addFront front) =
          (stated.following [event]).measure first := rfl
      have htwice : TempoScan.initial.measure ((first.addFront front).addFront front) =
          (stated.following [event, event]).measure first := rfl
      refine ⟨event, (first :: rest).foldl TempoScan.measure stated, ?_, ?_⟩
      · rw [← TempoScan.following_foldl_measure]
        exact congrArg (rest.foldl TempoScan.measure) honce
      · rw [← TempoScan.following_foldl_measure]
        exact congrArg (rest.foldl TempoScan.measure) htwice

end Scan

theorem TempoScan.restates_toMap (scan : TempoScan ℚ) (event : TempoEvent ℚ) :
    (scan.following [event, event]).toMap.Restates (scan.following [event]).toMap := by
  have htrans : ∀ first second third : TempoEvent ℚ, byPosition first second →
      byPosition second third → byPosition first third := by
    rw [byPosition_eq]
    exact fun first second third => by simpa using le_trans
  have htotal : ∀ first second : TempoEvent ℚ,
      byPosition first second || byPosition second first := by
    rw [byPosition_eq]
    exact fun first second => by simpa using le_total first.position second.position
  exact ⟨.mergeSort htrans htotal event scan.events, rfl⟩

theorem TempoScan.restates_finish (scan : TempoScan ℚ) (event : TempoEvent ℚ) :
    Noted.Alike TempoMap.Restates (scan.following [event, event]).finish
      (scan.following [event]).finish := by
  have hopened : ∀ front, (scan.following front).opened = scan.opened := fun _ => rfl
  unfold finish
  rw [hopened, hopened]
  cases scan.opened with
  | none => exact .pure (scan.restates_toMap event)
  | some ramp =>
      have hclosed := (scan.close scan.position ramp.unfinishedTempo).restates_toMap event
      exact ⟨hclosed, rfl⟩

theorem TempoMap.restates_stating (part : Part ℚ) (bpm : ℚ) :
    Noted.Alike TempoMap.Restates (TempoMap.ofPart ((part.stating bpm).stating bpm))
      (TempoMap.ofPart (part.stating bpm)) := by
  by_cases hmeasures : part.measures = []
  · have hsame : (part.stating bpm).stating bpm = part.stating bpm := by
      simp only [Part.stating, hmeasures]
    rw [hsame]
    exact ⟨⟨.same _, rfl⟩, rfl⟩
  · obtain ⟨event, scan, honce, htwice⟩ := part.exists_scan_stating bpm hmeasures
    unfold TempoMap.ofPart
    rw [honce, htwice]
    exact scan.restates_finish event

end Rubato
