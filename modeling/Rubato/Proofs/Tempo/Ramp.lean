import Rubato.Proofs.Tempo.Openings
import Rubato.Timeline

namespace Rubato

structure Ramp.WellFormed (ramp : Ramp ℚ) : Prop where
  ordered : ramp.start < ramp.stop
  startTempo_pos : 0 < ramp.startTempo
  endTempo_pos : 0 < ramp.endTempo

structure TempoMap.WellFormed (map : TempoMap ℚ) : Prop where
  sorted : map.Sorted
  tempos_pos : ∀ event ∈ map.events, 0 < event.bpm
  ramps : ∀ ramp ∈ map.ramps, ramp.WellFormed

theorem Quantity.within_mem {low high : ℚ} (hle : low ≤ high) (a : ℚ) :
    low ≤ within low high a ∧ within low high a ≤ high := by
  unfold within
  split
  · exact ⟨le_rfl, hle⟩
  · next hlow =>
      split
      · exact ⟨hle, le_rfl⟩
      · next hhigh => exact ⟨not_lt.mp hlow, not_lt.mp hhigh⟩

theorem Ramp.tempoAt_mem {tempos : Set ℚ} (hconvex : Convex ℚ tempos) {ramp : Ramp ℚ}
    (hstart : ramp.startTempo ∈ tempos) (hend : ramp.endTempo ∈ tempos) (position : ℚ) :
    ramp.tempoAt position ∈ tempos := by
  unfold Ramp.tempoAt
  dsimp only
  split
  · exact hstart
  · have hprogress := Quantity.within_mem (zero_le_one (α := ℚ))
      ((position - ramp.start) / (ramp.stop - ramp.start))
    rw [mul_comm]
    exact hconvex.add_smul_sub_mem hstart hend hprogress

theorem TempoMap.localTempo_mem {tempos : Set ℚ} (hconvex : Convex ℚ tempos) {map : TempoMap ℚ}
    (hramps : ∀ ramp ∈ map.ramps, ramp.startTempo ∈ tempos ∧ ramp.endTempo ∈ tempos)
    (position : ℚ) {base : ℚ} (hbase : base ∈ tempos) : map.localTempo position base ∈ tempos := by
  unfold TempoMap.localTempo
  cases hfound : map.ramps.find? fun ramp => ramp.contains position with
  | none => exact hbase
  | some ramp =>
      obtain ⟨hstart, hend⟩ := hramps ramp (List.mem_of_find?_eq_some hfound)
      exact ramp.tempoAt_mem hconvex hstart hend position

theorem TempoMap.WellFormed.localTempo_pos {map : TempoMap ℚ} (hmap : map.WellFormed)
    (position : ℚ) {base : ℚ} (hbase : 0 < base) : 0 < map.localTempo position base :=
  map.localTempo_mem (convex_Ioi 0)
    (fun ramp hramp =>
      ⟨(hmap.ramps ramp hramp).startTempo_pos, (hmap.ramps ramp hramp).endTempo_pos⟩)
    position hbase

structure TempoScan.WellFormed (scan : TempoScan ℚ) : Prop where
  tempo_pos : 0 < scan.tempo
  opened_pos : ∀ ramp ∈ scan.opened, 0 < ramp.tempo
  ramps : ∀ ramp ∈ scan.ramps, ramp.WellFormed

namespace TempoScan.WellFormed

variable {scan : TempoScan ℚ}

theorem initial : (TempoScan.initial : TempoScan ℚ).WellFormed := by
  refine ⟨by norm_num [TempoScan.initial, defaultTempo_eq], ?_, ?_⟩
  · intro ramp hramp
    cases hramp
  · intro ramp hramp
    cases hramp

theorem close (hscan : scan.WellFormed) (position : ℚ) {endTempo : ℚ} (hend : 0 < endTempo) :
    (scan.close position endTempo).WellFormed := by
  refine ⟨hscan.tempo_pos, fun ramp hramp => (by cases hramp), fun ramp hramp => ?_⟩
  rcases List.mem_append.mp hramp with hold | hnew
  · exact hscan.ramps ramp hold
  · rw [Option.mem_toList] at hnew
    obtain ⟨opened, hopened, hclosed⟩ := Option.bind_eq_some_iff.mp hnew
    obtain ⟨hordered, rfl⟩ := OpenRamp.eq_of_closed? hclosed
    exact ⟨hordered, hscan.opened_pos opened hopened, hend⟩

theorem setTempo (hscan : scan.WellFormed) (position : ℚ) {bpm : ℚ} (hbpm : 0 < bpm) :
    (scan.setTempo position bpm).WellFormed := by
  unfold TempoScan.setTempo
  apply close _ position hbpm
  exact ⟨hbpm, hscan.opened_pos, hscan.ramps⟩

theorem applyWords (hscan : scan.WellFormed) (position : ℚ) (words : String) :
    (TempoScan.applyWords position scan words).WellFormed := by
  unfold TempoScan.applyWords
  split
  · next cue _ =>
      cases cue with
      | ramp kind =>
          simp only [applyCue]
          split
          · refine ⟨hscan.tempo_pos, fun ramp hramp => ?_, hscan.ramps⟩
            cases hramp
            exact hscan.tempo_pos
          · exact hscan
      | resume => exact hscan.close position hscan.tempo_pos
  · exact hscan

theorem foldl_applyWords (position : ℚ) (words : List String) {scan : TempoScan ℚ}
    (hscan : scan.WellFormed) :
    (words.foldl (TempoScan.applyWords position) scan).WellFormed := by
  induction words generalizing scan with
  | nil => exact hscan
  | cons word rest ih => exact ih (hscan.applyWords position word)

theorem element (hscan : scan.WellFormed) (place : Place ℚ) (element : MeasureElement ℚ)
    (helement : ∀ bpm ∈ element.tempo?, 0 < bpm) :
    (TempoScan.element (scan, place) element).1.WellFormed := by
  cases element with
  | direction mark =>
      show (scan.direction (scan.position + place.cursor) mark).WellFormed
      unfold TempoScan.direction
      apply foldl_applyWords
      split
      · next bpm hbpm => exact hscan.setTempo _ (helement bpm hbpm)
      · exact hscan
  | note note => exact hscan
  | harmony harmony => exact hscan
  | backup duration => exact hscan
  | forward duration => exact hscan

theorem foldl_element (elements : List (MeasureElement ℚ)) {scan : TempoScan ℚ}
    (hscan : scan.WellFormed) (place : Place ℚ)
    (helements : ∀ element ∈ elements, ∀ bpm ∈ element.tempo?, 0 < bpm) :
    (elements.foldl TempoScan.element (scan, place)).1.WellFormed := by
  induction elements generalizing scan place with
  | nil => exact hscan
  | cons element rest ih =>
      exact ih (hscan.element place element (helements element List.mem_cons_self)) _
        fun other hother => helements other (List.mem_cons_of_mem element hother)

theorem measure (hscan : scan.WellFormed) {measure : Measure ℚ}
    (hmeasure : measure.WellFormed) : (scan.measure measure).WellFormed := by
  have hentered : TempoScan.WellFormed
      { scan with meter := scan.meter.update measure.attributes } :=
    ⟨hscan.tempo_pos, hscan.opened_pos, hscan.ramps⟩
  have hwalked := foldl_element measure.elements hentered Place.start hmeasure.tempo_pos
  exact ⟨hwalked.tempo_pos, hwalked.opened_pos, hwalked.ramps⟩

end TempoScan.WellFormed

theorem OpenRamp.unfinishedShare_pos : (0 : ℚ) < OpenRamp.unfinishedShare := by
  show (0 : ℚ) < 7 / 10
  norm_num

theorem OpenRamp.unfinishedTempo_pos {ramp : OpenRamp ℚ} (hramp : 0 < ramp.tempo) :
    0 < ramp.unfinishedTempo := by
  unfold OpenRamp.unfinishedTempo
  split
  · exact mul_pos hramp unfinishedShare_pos
  · exact div_pos hramp unfinishedShare_pos

theorem Part.WellFormed.scanAt {part : Part ℚ} (hpart : part.WellFormed) (number : Nat) :
    (part.scanAt number).WellFormed := by
  induction number with
  | zero => exact TempoScan.WellFormed.initial
  | succ number ih =>
      cases hmeasure : part.measures[number]? with
      | none =>
          unfold Part.scanAt at ih ⊢
          rwa [take_succ_of_none hmeasure]
      | some measure =>
          rw [Part.scanAt_succ hmeasure]
          exact ih.measure (hpart measure (List.mem_of_getElem? hmeasure))

theorem Part.WellFormed.tempoMap {part : Part ℚ} (hpart : part.WellFormed) :
    (TempoMap.ofPart part).value.WellFormed := by
  refine ⟨TempoMap.sorted_ofPart part,
    fun event hevent => hpart.events_pos (TempoMap.mem_events_ofPart.mp hevent), ?_⟩
  have hscan := hpart.scanAt part.measures.length
  rw [TempoMap.ofPart_eq, TempoScan.finish]
  split
  · exact hscan.ramps
  · next ramp hopened =>
      exact (hscan.close _ (OpenRamp.unfinishedTempo_pos
        (hscan.opened_pos ramp hopened))).ramps

theorem Score.WellFormed.tempoMap {score : Score ℚ} (hscore : score.WellFormed)
    (number : Nat) : (score.tempoMap number).value.WellFormed := by
  unfold Score.tempoMap
  split
  · next part hpart => exact (hscore part (List.mem_of_getElem? hpart)).tempoMap
  · refine ⟨List.Pairwise.nil, ?_, ?_⟩
    · intro event hevent
      cases hevent
    · intro ramp hramp
      cases hramp

def MeasureElement.words {α : Type} : MeasureElement α → List String
  | .direction mark => mark.words
  | _ => []

theorem MeasureElement.exists_cue_of_mem_signs {element : MeasureElement ℚ}
    {position start : ℚ} {kind : RampKind} (h : .ramp start kind ∈ element.signs position) :
    ∃ text ∈ element.words, TempoCue.ofWords? text = some (.ramp kind) := by
  cases element with
  | direction mark =>
      rcases List.mem_append.mp h with htempo | hwords
      · obtain ⟨bpm, -, hsign⟩ := Option.map_eq_some_iff.mp (Option.mem_toList.mp htempo)
        cases hsign
      · obtain ⟨text, htext, hsign⟩ := List.mem_filterMap.mp hwords
        obtain ⟨cue, hcue, hramp⟩ := Option.map_eq_some_iff.mp hsign
        cases cue with
        | ramp other =>
            cases hramp
            exact ⟨text, htext, hcue⟩
        | resume => cases hramp
  | note note => cases h
  | harmony harmony => cases h
  | backup duration => cases h
  | forward duration => cases h

def MeasureElement.Rampless {α : Type} (element : MeasureElement α) : Prop :=
  ∀ words ∈ element.words, ∀ cue ∈ TempoCue.ofWords? words, cue = .resume

theorem TempoMap.ramps_ofPart {part : Part ℚ}
    (hpart : ∀ measure ∈ part.measures, ∀ element ∈ measure.elements, element.Rampless) :
    (TempoMap.ofPart part).value.ramps = [] := by
  refine List.eq_nil_iff_forall_not_mem.mpr fun ramp hramp => ?_
  obtain ⟨opening, hin, -⟩ := TempoMap.mem_ramps_ofPart.mp hramp
  have hsign : .ramp opening.position opening.kind ∈ part.signs := by
    rw [hin.split]
    exact List.mem_append_right _ List.mem_cons_self
  obtain ⟨measure, hmeasure, element, helement, position, hwritten⟩ :=
    Part.exists_element_of_mem_signs hsign
  obtain ⟨text, htext, hcue⟩ := MeasureElement.exists_cue_of_mem_signs hwritten
  cases hpart measure hmeasure element helement text htext _ hcue

end Rubato
