import Rubato.Proofs.Tempo.Ramp

namespace Rubato

/-! A checked function does what its namesake does and fails where that one would divide by
a number that is not positive or look behind the end of a list. -/

def divide? (numerator denominator : ℚ) : Option ℚ :=
  if 0 < denominator then some (numerator / denominator) else none

theorem divide?_of_pos {denominator : ℚ} (h : 0 < denominator) (numerator : ℚ) :
    divide? numerator denominator = some (numerator / denominator) :=
  if_pos h

section Lists

variable {β γ σ : Type}

theorem mapM_eq_some {checked : β → Option γ} {f : β → γ} {list : List β}
    (h : ∀ entry ∈ list, checked entry = some (f entry)) :
    list.mapM checked = some (list.map f) := by
  induction list with
  | nil => rfl
  | cons entry rest ih =>
      rw [List.mapM_cons, h entry List.mem_cons_self,
        ih fun other hother => h other (List.mem_cons_of_mem entry hother)]
      rfl

theorem foldlM_eq_some (holds : σ → Prop) {checked : σ → β → Option σ} {f : σ → β → σ}
    {list : List β}
    (hstep : ∀ state, holds state → ∀ entry ∈ list,
      checked state entry = some (f state entry) ∧ holds (f state entry))
    {state : σ} (hstate : holds state) :
    list.foldlM checked state = some (list.foldl f state) ∧ holds (list.foldl f state) := by
  induction list generalizing state with
  | nil => exact ⟨rfl, hstate⟩
  | cons entry rest ih =>
      obtain ⟨hchecked, hholds⟩ := hstep state hstate entry List.mem_cons_self
      rw [List.foldlM_cons, hchecked]
      exact ih (fun next hnext other hother =>
        hstep next hnext other (List.mem_cons_of_mem entry hother)) hholds

end Lists

namespace Meter

def checkedSpan (meter : Meter) : Option ℚ := do
  let quarters ← divide? ((4 : Nat) : ℚ) (meter.time.beatType : ℚ)
  some ((meter.time.beats : ℚ) * quarters * (meter.divisions : ℚ))

theorem WellFormed.checkedSpan_eq {meter : Meter} (h : meter.WellFormed) :
    meter.checkedSpan = some meter.span := by
  have hbeatType : (0 : ℚ) < meter.time.beatType :=
    Nat.cast_pos.mpr h.time_wellFormed.beatType_pos
  unfold checkedSpan
  rw [divide?_of_pos hbeatType]
  rfl

example : (⟨1, ⟨4, 0⟩, 0⟩ : Meter).checkedSpan = none := by decide

end Meter

def Ramp.checkedTempoAt (ramp : Ramp ℚ) (position : ℚ) : Option ℚ :=
  let length := ramp.stop - ramp.start
  if length ≤ 0 then some ramp.startTempo
  else do
    let share ← divide? (position - ramp.start) length
    some (ramp.startTempo + (ramp.endTempo - ramp.startTempo) * Quantity.within 0 1 share)

theorem Ramp.checkedTempoAt_eq (ramp : Ramp ℚ) (position : ℚ) :
    ramp.checkedTempoAt position = some (ramp.tempoAt position) := by
  unfold checkedTempoAt tempoAt
  dsimp only
  split
  · rfl
  · next hlength =>
      rw [divide?_of_pos (not_le.mp hlength)]
      rfl

namespace TempoMap

def checkedLocalTempo (map : TempoMap ℚ) (position base : ℚ) : Option ℚ :=
  match map.ramps.find? fun ramp => ramp.contains position with
  | some ramp => ramp.checkedTempoAt position
  | none => some base

def checkedSteadySeconds (count tempo divisions : ℚ) : Option ℚ :=
  divide? (count * ((60 : Nat) : ℚ)) (tempo * divisions)

def checkedSteppedSeconds (map : TempoMap ℚ) (stop tempo divisions : ℚ) :
    Nat → ℚ → ℚ → Option ℚ
  | 0, _, elapsed => some elapsed
  | steps + 1, position, elapsed =>
    if position < stop then do
      let step := Quantity.lesser (stop - position) 1
      let tempoHere ← map.checkedLocalTempo position tempo
      let seconds ← checkedSteadySeconds step tempoHere divisions
      checkedSteppedSeconds map stop tempo divisions steps (position + step) (elapsed + seconds)
    else some elapsed

def checkedSeconds (map : TempoMap ℚ) (start count tempo divisions : ℚ) : Option ℚ :=
  if count ≤ 0 ∨ tempo ≤ 0 ∨ divisions ≤ 0 then some 0
  else
    let stop := start + count
    if map.isSteady start stop then checkedSteadySeconds count tempo divisions
    else map.checkedSteppedSeconds stop tempo divisions (stepLimit count) start 0

theorem checkedLocalTempo_eq (map : TempoMap ℚ) (position base : ℚ) :
    map.checkedLocalTempo position base = some (map.localTempo position base) := by
  unfold checkedLocalTempo localTempo
  cases map.ramps.find? fun ramp => ramp.contains position with
  | none => rfl
  | some ramp => exact ramp.checkedTempoAt_eq position

theorem checkedSteadySeconds_eq {tempo divisions : ℚ} (htempo : 0 < tempo)
    (hdivisions : 0 < divisions) (count : ℚ) :
    checkedSteadySeconds count tempo divisions = some (steadySeconds count tempo divisions) :=
  divide?_of_pos (mul_pos htempo hdivisions) _

namespace WellFormed

variable {map : TempoMap ℚ}

theorem checkedSteppedSeconds_eq (hmap : map.WellFormed) {tempo divisions : ℚ}
    (htempo : 0 < tempo) (hdivisions : 0 < divisions) (stop : ℚ) (steps : Nat)
    (position elapsed : ℚ) :
    map.checkedSteppedSeconds stop tempo divisions steps position elapsed =
      some (map.steppedSeconds stop tempo divisions steps position elapsed) := by
  induction steps generalizing position elapsed with
  | zero => rfl
  | succ steps ih =>
      unfold checkedSteppedSeconds steppedSeconds
      split
      · rw [checkedLocalTempo_eq, Option.bind_eq_bind, Option.bind_some,
          checkedSteadySeconds_eq (hmap.localTempo_pos position htempo) hdivisions,
          Option.bind_some, ih]
      · rfl

theorem checkedSeconds_eq (hmap : map.WellFormed) (start count tempo divisions : ℚ) :
    map.checkedSeconds start count tempo divisions =
      some (map.seconds start count tempo divisions) := by
  unfold checkedSeconds seconds
  split
  · rfl
  · next hpositive =>
      rw [not_or, not_or, not_le, not_le, not_le] at hpositive
      obtain ⟨_, htempo, hdivisions⟩ := hpositive
      dsimp only
      split
      · exact checkedSteadySeconds_eq htempo hdivisions count
      · exact hmap.checkedSteppedSeconds_eq htempo hdivisions _ _ _ _

end WellFormed

end TempoMap

def Ramp.checked (ramp : Ramp ℚ) : Option (Ramp ℚ) :=
  if ramp.start < ramp.stop ∧ 0 < ramp.startTempo ∧ 0 < ramp.endTempo then some ramp else none

theorem Ramp.WellFormed.checked_eq {ramp : Ramp ℚ} (h : ramp.WellFormed) :
    ramp.checked = some ramp :=
  if_pos ⟨h.ordered, h.startTempo_pos, h.endTempo_pos⟩

def OpenRamp.checkedUnfinishedTempo (ramp : OpenRamp ℚ) : Option ℚ :=
  match ramp.kind with
  | .ritardando => some (ramp.tempo * OpenRamp.unfinishedShare)
  | .accelerando => divide? ramp.tempo OpenRamp.unfinishedShare

theorem OpenRamp.checkedUnfinishedTempo_eq (ramp : OpenRamp ℚ) :
    ramp.checkedUnfinishedTempo = some ramp.unfinishedTempo := by
  unfold checkedUnfinishedTempo unfinishedTempo
  cases ramp.kind with
  | ritardando => rfl
  | accelerando => exact divide?_of_pos unfinishedShare_pos _

namespace TempoScan

def checkedClose (scan : TempoScan ℚ) (position endTempo : ℚ) : Option (TempoScan ℚ) :=
  match scan.opened.bind fun ramp => ramp.closed? position endTempo with
  | some ramp => do
    let built ← ramp.checked
    some { scan with opened := none, ramps := scan.ramps ++ [built] }
  | none => some { scan with opened := none }

def checkedSetTempo (scan : TempoScan ℚ) (position bpm : ℚ) : Option (TempoScan ℚ) :=
  checkedClose { scan with tempo := bpm, events := scan.events ++ [⟨position, bpm⟩] } position bpm

def checkedApplyWords (position : ℚ) (scan : TempoScan ℚ) (words : String) :
    Option (TempoScan ℚ) :=
  match TempoCue.ofWords? words with
  | some (.ramp kind) => some (scan.applyCue position (.ramp kind))
  | some .resume => scan.checkedClose position scan.tempo
  | none => some scan

def checkedDirection (scan : TempoScan ℚ) (position : ℚ) (direction : Direction ℚ) :
    Option (TempoScan ℚ) := do
  let timed ←
    match direction.tempo with
    | some bpm => scan.checkedSetTempo position bpm
    | none => some scan
  direction.words.foldlM (checkedApplyWords position) timed

def checkedElement (state : TempoScan ℚ × Place ℚ) (element : MeasureElement ℚ) :
    Option (TempoScan ℚ × Place ℚ) := do
  let next ←
    match element with
    | .direction mark => state.1.checkedDirection (state.1.position + state.2.cursor) mark
    | _ => some state.1
  some (next, state.2.after element)

def checkedMeasure (scan : TempoScan ℚ) (measure : Measure ℚ) : Option (TempoScan ℚ) := do
  let meter := scan.meter.update measure.attributes
  let (next, _) ← measure.elements.foldlM checkedElement ({ scan with meter }, Place.start)
  let span ← meter.checkedSpan
  some { next with position := next.position + span }

def checkedFinish (scan : TempoScan ℚ) : Option (TempoMap ℚ) :=
  match scan.opened with
  | none => some scan.toMap
  | some ramp => do
    let endTempo ← ramp.checkedUnfinishedTempo
    let closed ← scan.checkedClose scan.position endTempo
    some closed.toMap

namespace WellFormed

variable {scan : TempoScan ℚ}

theorem checkedClose_eq (h : scan.WellFormed) (position : ℚ) {endTempo : ℚ}
    (hend : 0 < endTempo) :
    scan.checkedClose position endTempo = some (scan.close position endTempo) := by
  have hramps := (h.close position hend).ramps
  unfold TempoScan.close at hramps
  unfold checkedClose TempoScan.close
  cases hclosed : scan.opened.bind fun ramp => ramp.closed? position endTempo with
  | none => simp
  | some ramp =>
      rw [hclosed] at hramps
      have hramp := hramps ramp (List.mem_append_right _ (List.mem_singleton_self ramp))
      simp [hramp.checked_eq]

theorem checkedSetTempo_eq (h : scan.WellFormed) (position : ℚ) {bpm : ℚ} (hbpm : 0 < bpm) :
    scan.checkedSetTempo position bpm = some (scan.setTempo position bpm) := by
  have htimed : TempoScan.WellFormed
      { scan with tempo := bpm, events := scan.events ++ [⟨position, bpm⟩] } :=
    ⟨hbpm, h.opened_pos, h.ramps⟩
  exact htimed.checkedClose_eq position hbpm

theorem checkedApplyWords_eq (h : scan.WellFormed) (position : ℚ) (words : String) :
    checkedApplyWords position scan words = some (scan.applyWords position words) := by
  unfold checkedApplyWords TempoScan.applyWords
  cases TempoCue.ofWords? words with
  | none => rfl
  | some cue =>
      cases cue with
      | ramp kind => rfl
      | resume => exact h.checkedClose_eq position h.tempo_pos

theorem checkedDirection_eq (h : scan.WellFormed) (position : ℚ) {mark : Direction ℚ}
    (hmark : ∀ bpm ∈ mark.tempo, 0 < bpm) :
    scan.checkedDirection position mark = some (scan.direction position mark) := by
  have hwords : ∀ timed : TempoScan ℚ, timed.WellFormed →
      mark.words.foldlM (checkedApplyWords position) timed =
        some (mark.words.foldl (TempoScan.applyWords position) timed) := fun timed htimed =>
    (foldlM_eq_some TempoScan.WellFormed (fun state hstate words _ =>
      ⟨hstate.checkedApplyWords_eq position words, hstate.applyWords position words⟩) htimed).1
  unfold checkedDirection TempoScan.direction
  cases htempo : mark.tempo with
  | none => exact hwords scan h
  | some bpm =>
      have hbpm := hmark bpm htempo
      dsimp only
      rw [h.checkedSetTempo_eq position hbpm]
      exact hwords _ (h.setTempo position hbpm)

theorem checkedElement_eq (h : scan.WellFormed) (place : Place ℚ) {element : MeasureElement ℚ}
    (helement : ∀ bpm ∈ element.tempo?, 0 < bpm) :
    checkedElement (scan, place) element = some (TempoScan.element (scan, place) element) := by
  cases element with
  | direction mark =>
      unfold checkedElement
      dsimp only
      rw [h.checkedDirection_eq _ helement]
      rfl
  | note note => rfl
  | harmony harmony => rfl
  | backup duration => rfl
  | forward duration => rfl

theorem checkedMeasure_eq (h : scan.WellFormed) (hmeter : scan.meter.WellFormed)
    {measure : Measure ℚ} (hmeasure : measure.WellFormed) :
    scan.checkedMeasure measure = some (scan.measure measure) := by
  let entered : TempoScan ℚ := { scan with meter := scan.meter.update measure.attributes }
  have hentered : entered.WellFormed := ⟨h.tempo_pos, h.opened_pos, h.ramps⟩
  have helements : measure.elements.foldlM checkedElement (entered, Place.start) =
      some (measure.elements.foldl TempoScan.element (entered, Place.start)) :=
    (foldlM_eq_some (fun state : TempoScan ℚ × Place ℚ => state.1.WellFormed)
      (fun state hstate element helement =>
        ⟨hstate.checkedElement_eq state.2 (hmeasure.tempo_pos element helement),
          hstate.element state.2 element (hmeasure.tempo_pos element helement)⟩)
      hentered).1
  unfold checkedMeasure TempoScan.measure
  dsimp only
  rw [helements, (hmeter.update hmeasure.attributes_wellFormed).checkedSpan_eq]
  rfl

theorem checkedFinish_eq (h : scan.WellFormed) :
    scan.checkedFinish = some scan.finish.value := by
  unfold checkedFinish finish
  cases hopened : scan.opened with
  | none => rfl
  | some ramp =>
      have hend := OpenRamp.unfinishedTempo_pos (h.opened_pos ramp hopened)
      dsimp only
      rw [ramp.checkedUnfinishedTempo_eq, Option.bind_eq_bind, Option.bind_some,
        h.checkedClose_eq _ hend]
      rfl

end WellFormed

end TempoScan

def TempoMap.checkedOfPart (part : Part ℚ) : Option (TempoMap ℚ) := do
  let scan ← part.measures.foldlM TempoScan.checkedMeasure TempoScan.initial
  scan.checkedFinish

theorem Part.WellFormed.checkedOfPart_eq {part : Part ℚ} (hpart : part.WellFormed) :
    TempoMap.checkedOfPart part = some (TempoMap.ofPart part).value := by
  have hscan : part.measures.foldlM TempoScan.checkedMeasure TempoScan.initial =
        some (part.measures.foldl TempoScan.measure TempoScan.initial) ∧
      (part.measures.foldl TempoScan.measure TempoScan.initial).WellFormed ∧
        (part.measures.foldl TempoScan.measure TempoScan.initial).meter.WellFormed :=
    foldlM_eq_some (fun scan : TempoScan ℚ => scan.WellFormed ∧ scan.meter.WellFormed)
      (fun scan hscan measure hmeasure =>
        have hwell := hpart measure hmeasure
        ⟨hscan.1.checkedMeasure_eq hscan.2 hwell, hscan.1.measure hwell,
          (TempoScan.meter_measure scan measure).symm ▸
            hscan.2.update hwell.attributes_wellFormed⟩)
      ⟨TempoScan.WellFormed.initial, Meter.wellFormed_initial⟩
  unfold TempoMap.checkedOfPart
  rw [hscan.1]
  exact hscan.2.1.checkedFinish_eq

end Rubato
