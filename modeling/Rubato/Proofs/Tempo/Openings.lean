import Rubato.Proofs.Tempo.Position

namespace Rubato

/-! The tempos of a part, and the words that ask for a ramp or end one, make a list in the
order of the document. The first tempo or end behind words that open a ramp closes it. -/

/-- What a part says about its tempo at a position. -/
inductive TempoSign
  | tempo (position bpm : ℚ)
  | ramp (position : ℚ) (kind : RampKind)
  | resume (position : ℚ)
  deriving DecidableEq

namespace TempoSign

def ofCue (position : ℚ) : TempoCue → TempoSign
  | .ramp kind => .ramp position kind
  | .resume => .resume position

def position : TempoSign → ℚ
  | .tempo position _ | .ramp position _ | .resume position => position

def event? : TempoSign → Option (TempoEvent ℚ)
  | .tempo position bpm => some ⟨position, bpm⟩
  | _ => none

/-- A ramp that is open ends at a tempo and at a return to the tempo. -/
def ends : TempoSign → Bool
  | .ramp _ _ => false
  | _ => true

end TempoSign

/-- The signs of a part, in the order of the document. -/
abbrev TempoSigns := List TempoSign

namespace TempoSigns

def lastTempo (signs : TempoSigns) : ℚ :=
  ((signs.filterMap TempoSign.event?).getLast?.map (·.bpm)).getD 120

theorem lastTempo_concat_tempo (signs : TempoSigns) (position bpm : ℚ) :
    (signs ++ [TempoSign.tempo position bpm]).lastTempo = bpm := by
  simp [lastTempo, TempoSign.event?]

theorem lastTempo_append_of_none {signs more : TempoSigns}
    (hmore : more.filterMap TempoSign.event? = []) :
    (signs ++ more).lastTempo = signs.lastTempo := by
  rw [lastTempo, lastTempo, List.filterMap_append, hmore, List.append_nil]

/-- No ramp is open behind some signs when they are none, or when the last of them ends ramps. -/
def Quiet (signs : TempoSigns) : Prop :=
  ∀ sign ∈ signs.getLast?, sign.ends = true

theorem quiet_concat {signs : TempoSigns} {sign : TempoSign} :
    (signs ++ [sign]).Quiet ↔ sign.ends = true := by
  simp [Quiet]

end TempoSigns

theorem OpenRamp.eq_of_closed? {opened : OpenRamp ℚ} {stop endTempo : ℚ} {ramp : Ramp ℚ}
    (h : opened.closed? stop endTempo = some ramp) :
    opened.start < stop ∧ ramp = ⟨opened.kind, opened.start, stop, opened.tempo, endTempo⟩ := by
  unfold closed? at h
  split at h
  · next hlt => exact ⟨hlt, (Option.some.inj h).symm⟩
  · cases h

structure Opening where
  before : TempoSigns
  position : ℚ
  kind : RampKind
  after : TempoSigns

namespace Opening

/-- Words open a ramp where none is open yet. -/
structure In (opening : Opening) (signs : TempoSigns) : Prop where
  split : signs = opening.before ++ .ramp opening.position opening.kind :: opening.after
  quiet : opening.before.Quiet

def ending? (opening : Opening) : Option TempoSign :=
  opening.after.find? TempoSign.ends

def opened (opening : Opening) : OpenRamp ℚ :=
  ⟨opening.kind, opening.position, opening.before.lastTempo⟩

/-- A ramp that a tempo ends runs to that tempo, one that is otherwise ended keeps its own. -/
def endTempo (opening : Opening) : TempoSign → ℚ
  | .tempo _ bpm => bpm
  | _ => opening.before.lastTempo

/-- The ramp, unless it has no length; one without an end runs to the end of the part. -/
def ramp? (opening : Opening) (finish : ℚ) : Option (Ramp ℚ) :=
  match opening.ending? with
  | some sign => opening.opened.closed? sign.position (opening.endTempo sign)
  | none => opening.opened.closed? finish opening.opened.unfinishedTempo

def grow (opening : Opening) (sign : TempoSign) : Opening :=
  { opening with after := opening.after ++ [sign] }

variable {signs : TempoSigns} {sign : TempoSign}

theorem In.grow {opening : Opening} (hin : opening.In signs) (sign : TempoSign) :
    (opening.grow sign).In (signs ++ [sign]) := by
  refine ⟨?_, hin.quiet⟩
  rw [hin.split, Opening.grow, List.append_assoc, List.cons_append]

theorem In.of_concat {opening : Opening} (hin : opening.In (signs ++ [sign])) :
    (∃ shorter : Opening, shorter.In signs ∧ opening = shorter.grow sign) ∨
      signs.Quiet ∧ sign = .ramp opening.position opening.kind ∧
        opening = ⟨signs, opening.position, opening.kind, []⟩ := by
  obtain ⟨before, position, kind, after⟩ := opening
  obtain ⟨hsplit, hquiet⟩ := hin
  rcases List.eq_nil_or_concat after with rfl | ⟨rest, last, rfl⟩
  · obtain ⟨rfl, hsign⟩ := List.append_inj' hsplit rfl
    exact .inr ⟨hquiet, List.singleton_inj.mp hsign, rfl⟩
  · have hconcat : signs ++ [sign] = (before ++ .ramp position kind :: rest) ++ [last] := by
      simpa using hsplit
    obtain ⟨hsigns, hsign⟩ := List.append_inj' hconcat rfl
    refine .inl ⟨⟨before, position, kind, rest⟩, ⟨hsigns, hquiet⟩, ?_⟩
    rw [List.singleton_inj.mp hsign, List.concat_eq_append]
    rfl

theorem not_in_nil (opening : Opening) : ¬opening.In [] := by
  intro hin
  simpa using hin.split

theorem ending?_grow (opening : Opening) (sign : TempoSign) :
    (opening.grow sign).ending? =
      opening.ending?.or (if sign.ends then some sign else none) := by
  unfold ending? grow
  rw [List.find?_append, List.find?_singleton]

theorem tempo_opened {opening : Opening} (hin : opening.In signs) (hopen : opening.ending? = none) :
    opening.opened.tempo = signs.lastTempo := by
  have hnone : (TempoSign.ramp opening.position opening.kind :: opening.after).filterMap
      TempoSign.event? = [] := by
    rw [List.filterMap_eq_nil_iff]
    intro sign hsign
    rcases List.mem_cons.mp hsign with rfl | hafter
    · rfl
    · have hends := List.find?_eq_none.mp hopen sign hafter
      cases sign with
      | tempo position bpm => exact absurd rfl hends
      | ramp position kind => rfl
      | resume position => rfl
  rw [hin.split, TempoSigns.lastTempo_append_of_none hnone]
  rfl

end Opening

namespace TempoSigns

/-- A ramp that is open behind some signs; there is one at most. -/
def LeavesOpen (signs : TempoSigns) (ramp : OpenRamp ℚ) : Prop :=
  ∃ opening : Opening, opening.In signs ∧ opening.ending? = none ∧ opening.opened = ramp

def Closes (signs : TempoSigns) (ramp : Ramp ℚ) : Prop :=
  ∃ (opening : Opening) (sign : TempoSign), opening.In signs ∧ opening.ending? = some sign ∧
    opening.opened.closed? sign.position (opening.endTempo sign) = some ramp

section Concat

variable {signs : TempoSigns}

theorem leavesOpen_concat_ramp {position : ℚ} {kind : RampKind} {ramp : OpenRamp ℚ} :
    (signs ++ [TempoSign.ramp position kind]).LeavesOpen ramp ↔
      signs.LeavesOpen ramp ∨ signs.Quiet ∧ ramp = ⟨kind, position, signs.lastTempo⟩ := by
  constructor
  · rintro ⟨opening, hin, hopen, rfl⟩
    rcases hin.of_concat with ⟨shorter, hshorter, rfl⟩ | ⟨hquiet, hsign, hopening⟩
    · rw [Opening.ending?_grow, Option.or_eq_none_iff] at hopen
      exact .inl ⟨shorter, hshorter, hopen.1, rfl⟩
    · obtain ⟨rfl, rfl⟩ := TempoSign.ramp.inj hsign
      refine .inr ⟨hquiet, ?_⟩
      rw [hopening]
      rfl
  · rintro (⟨opening, hin, hopen, rfl⟩ | ⟨hquiet, rfl⟩)
    · refine ⟨opening.grow _, hin.grow _, ?_, rfl⟩
      rw [Opening.ending?_grow, hopen]
      rfl
    · exact ⟨⟨signs, position, kind, []⟩, ⟨rfl, hquiet⟩, rfl, rfl⟩

theorem closes_concat_ramp {position : ℚ} {kind : RampKind} {ramp : Ramp ℚ} :
    (signs ++ [TempoSign.ramp position kind]).Closes ramp ↔ signs.Closes ramp := by
  constructor
  · rintro ⟨opening, sign, hin, hending, hclosed⟩
    rcases hin.of_concat with ⟨shorter, hshorter, rfl⟩ | ⟨-, -, hopening⟩
    · rw [Opening.ending?_grow] at hending
      exact ⟨shorter, sign, hshorter, by simpa [TempoSign.ends] using hending, hclosed⟩
    · rw [hopening] at hending
      cases hending
  · rintro ⟨opening, sign, hin, hending, hclosed⟩
    refine ⟨opening.grow _, sign, hin.grow _, ?_, hclosed⟩
    rw [Opening.ending?_grow, hending]
    rfl

variable {sign : TempoSign} (hends : sign.ends = true)

include hends

theorem not_leavesOpen_concat (ramp : OpenRamp ℚ) : ¬(signs ++ [sign]).LeavesOpen ramp := by
  rintro ⟨opening, hin, hopen, -⟩
  rcases hin.of_concat with ⟨shorter, -, rfl⟩ | ⟨-, rfl, -⟩
  · rw [Opening.ending?_grow, if_pos hends] at hopen
    cases (Option.or_eq_none_iff.mp hopen).2
  · cases hends

theorem closes_concat_iff {ramp : Ramp ℚ} :
    (signs ++ [sign]).Closes ramp ↔ signs.Closes ramp ∨
      ∃ opening : Opening, opening.In signs ∧ opening.ending? = none ∧
        opening.opened.closed? sign.position (opening.endTempo sign) = some ramp := by
  constructor
  · rintro ⟨opening, last, hin, hending, hclosed⟩
    rcases hin.of_concat with ⟨shorter, hshorter, rfl⟩ | ⟨-, -, hopening⟩
    · rw [Opening.ending?_grow, if_pos hends, Option.or_eq_some_iff] at hending
      rcases hending with hbefore | ⟨hopen, hlast⟩
      · exact .inl ⟨shorter, last, hshorter, hbefore, hclosed⟩
      · cases hlast
        exact .inr ⟨shorter, hshorter, hopen, hclosed⟩
    · rw [hopening] at hending
      cases hending
  · rintro (⟨opening, last, hin, hending, hclosed⟩ | ⟨opening, hin, hopen, hclosed⟩)
    · refine ⟨opening.grow sign, last, hin.grow sign, ?_, hclosed⟩
      rw [Opening.ending?_grow, hending]
      rfl
    · refine ⟨opening.grow sign, sign, hin.grow sign, ?_, hclosed⟩
      rw [Opening.ending?_grow, hopen, if_pos hends]
      rfl

end Concat

end TempoSigns

structure TempoScan.Tells (scan : TempoScan ℚ) (signs : TempoSigns) : Prop where
  tempo : scan.tempo = signs.lastTempo
  events : scan.events = signs.filterMap TempoSign.event?
  quiet : scan.opened = none ↔ signs.Quiet
  opened : ∀ ramp, scan.opened = some ramp ↔ signs.LeavesOpen ramp
  ramps : ∀ ramp, ramp ∈ scan.ramps ↔ signs.Closes ramp

namespace TempoScan

def apply (scan : TempoScan ℚ) : TempoSign → TempoScan ℚ
  | .tempo position bpm => scan.setTempo position bpm
  | .ramp position kind => scan.applyCue position (.ramp kind)
  | .resume position => scan.applyCue position .resume

namespace Tells

variable {scan : TempoScan ℚ} {signs : TempoSigns}

theorem initial : TempoScan.Tells TempoScan.initial [] where
  tempo := defaultTempo_eq
  events := rfl
  quiet := by simp [TempoScan.initial, TempoSigns.Quiet]
  opened ramp := by simp [TempoScan.initial, TempoSigns.LeavesOpen, Opening.not_in_nil]
  ramps ramp := by simp [TempoScan.initial, TempoSigns.Closes, Opening.not_in_nil]

theorem ramps_close (hscan : scan.Tells signs) {sign : TempoSign} (hends : sign.ends = true)
    {endTempo : ℚ} (hend : ∀ opening : Opening, opening.In signs → opening.ending? = none →
      opening.endTempo sign = endTempo) (ramp : Ramp ℚ) :
    ramp ∈ (scan.close sign.position endTempo).ramps ↔ (signs ++ [sign]).Closes ramp := by
  rw [TempoSigns.closes_concat_iff hends, ← hscan.ramps, TempoScan.close, List.mem_append,
    Option.mem_toList, Option.bind_eq_some_iff]
  refine or_congr_right ⟨?_, ?_⟩
  · rintro ⟨opened, hopened, hclosed⟩
    obtain ⟨opening, hin, hopen, rfl⟩ := (hscan.opened opened).mp hopened
    exact ⟨opening, hin, hopen, (hend opening hin hopen).symm ▸ hclosed⟩
  · rintro ⟨opening, hin, hopen, hclosed⟩
    exact ⟨opening.opened, (hscan.opened _).mpr ⟨opening, hin, hopen, rfl⟩,
      hend opening hin hopen ▸ hclosed⟩

theorem setTempo (hscan : scan.Tells signs) (position bpm : ℚ) :
    (scan.setTempo position bpm).Tells (signs ++ [TempoSign.tempo position bpm]) where
  tempo := (TempoSigns.lastTempo_concat_tempo signs position bpm).symm
  events := by
    rw [List.filterMap_append, ← hscan.events]
    rfl
  quiet := iff_of_true rfl (TempoSigns.quiet_concat.mpr rfl)
  opened ramp := iff_of_false (by simp [TempoScan.setTempo, TempoScan.close])
    (TempoSigns.not_leavesOpen_concat rfl ramp)
  ramps ramp := @ramps_close _ _ hscan (.tempo position bpm) rfl bpm (fun _ _ _ => rfl) ramp

theorem resume (hscan : scan.Tells signs) (position : ℚ) :
    (scan.applyCue position .resume).Tells (signs ++ [TempoSign.resume position]) where
  tempo := by
    rw [TempoSigns.lastTempo_append_of_none rfl, ← hscan.tempo]
    rfl
  events := by
    rw [List.filterMap_append, ← hscan.events]
    exact (List.append_nil _).symm
  quiet := iff_of_true rfl (TempoSigns.quiet_concat.mpr rfl)
  opened ramp := iff_of_false (by simp [TempoScan.applyCue, TempoScan.close])
    (TempoSigns.not_leavesOpen_concat rfl ramp)
  ramps ramp := by
    refine @ramps_close _ _ hscan (.resume position) rfl scan.tempo ?_ ramp
    intro opening hin hopen
    rw [hscan.tempo]
    exact opening.tempo_opened hin hopen

theorem ramp (hscan : scan.Tells signs) (position : ℚ) (kind : RampKind) :
    (scan.applyCue position (.ramp kind)).Tells (signs ++ [TempoSign.ramp position kind]) := by
  have htempo : scan.tempo = (signs ++ [TempoSign.ramp position kind]).lastTempo := by
    rw [TempoSigns.lastTempo_append_of_none rfl, hscan.tempo]
  have hevents : scan.events =
      (signs ++ [TempoSign.ramp position kind]).filterMap TempoSign.event? := by
    rw [List.filterMap_append, ← hscan.events]
    exact (List.append_nil _).symm
  have hramps (ramp : Ramp ℚ) :
      ramp ∈ scan.ramps ↔ (signs ++ [TempoSign.ramp position kind]).Closes ramp := by
    rw [TempoSigns.closes_concat_ramp, hscan.ramps]
  have hnotQuiet : ¬(signs ++ [TempoSign.ramp position kind]).Quiet := by
    rw [TempoSigns.quiet_concat]
    exact Bool.false_ne_true
  unfold TempoScan.applyCue
  -- While a ramp is open the words change nothing, and they open none among the signs.
  cases hopened : scan.opened with
  | none =>
      have hquiet := hscan.quiet.mp hopened
      refine ⟨htempo, hevents, iff_of_false (Option.some_ne_none _) hnotQuiet, fun ramp => ?_,
        hramps⟩
      rw [TempoSigns.leavesOpen_concat_ramp, ← hscan.opened, hopened, hscan.tempo]
      simp [hquiet, eq_comm]
  | some opened =>
      have hquiet : ¬signs.Quiet := fun hquiet => by
        rw [hscan.quiet.mpr hquiet] at hopened
        cases hopened
      refine ⟨htempo, hevents, iff_of_false (by simp [hopened]) hnotQuiet, fun ramp => ?_, hramps⟩
      rw [TempoSigns.leavesOpen_concat_ramp, hscan.opened]
      simp [hquiet]

theorem apply (hscan : scan.Tells signs) (sign : TempoSign) :
    (scan.apply sign).Tells (signs ++ [sign]) := by
  cases sign with
  | tempo position bpm => exact hscan.setTempo position bpm
  | ramp position kind => exact hscan.ramp position kind
  | resume position => exact hscan.resume position

theorem foldl_apply (more : TempoSigns) {scan : TempoScan ℚ} {signs : TempoSigns}
    (hscan : scan.Tells signs) : (more.foldl TempoScan.apply scan).Tells (signs ++ more) := by
  induction more generalizing scan signs with
  | nil => rwa [List.append_nil]
  | cons sign rest ih =>
      rw [List.append_cons]
      exact ih (hscan.apply sign)

end Tells

end TempoScan

def Direction.signs (mark : Direction ℚ) (position : ℚ) : TempoSigns :=
  (mark.tempo.map (TempoSign.tempo position)).toList ++
    mark.words.filterMap fun text => (TempoCue.ofWords? text).map (TempoSign.ofCue position)

def MeasureElement.signs (position : ℚ) : MeasureElement ℚ → TempoSigns
  | .direction mark => mark.signs position
  | _ => []

def Place.signs (start : ℚ) (place : Place ℚ) : List (MeasureElement ℚ) → TempoSigns
  | [] => []
  | element :: rest =>
    element.signs (start + place.cursor) ++ (place.after element).signs start rest

theorem Place.exists_element_of_mem_signs {start : ℚ} {place : Place ℚ}
    {elements : List (MeasureElement ℚ)} {sign : TempoSign}
    (h : sign ∈ place.signs start elements) :
    ∃ element ∈ elements, ∃ position, sign ∈ element.signs position := by
  induction elements generalizing place with
  | nil => cases h
  | cons element rest ih =>
      rcases List.mem_append.mp h with hhere | hlater
      · exact ⟨element, List.mem_cons_self, _, hhere⟩
      · obtain ⟨other, hother, hsign⟩ := ih hlater
        exact ⟨other, List.mem_cons_of_mem element hother, hsign⟩

namespace Part

def signsIn (part : Part ℚ) (number : Nat) : TempoSigns :=
  (part.measures[number]?.map fun measure =>
    Place.start.signs (part.barStart number) measure.elements).getD []

def signsBefore (part : Part ℚ) (number : Nat) : TempoSigns :=
  (List.range number).flatMap part.signsIn

def signs (part : Part ℚ) : TempoSigns :=
  part.signsBefore part.measures.length

end Part

namespace TempoScan

theorem applyWords_eq_foldl (scan : TempoScan ℚ) (position : ℚ) (words : List String) :
    words.foldl (applyWords position) scan =
      (words.filterMap fun text =>
        (TempoCue.ofWords? text).map (TempoSign.ofCue position)).foldl apply scan := by
  induction words generalizing scan with
  | nil => rfl
  | cons text rest ih =>
      rw [List.foldl_cons, ih, List.filterMap_cons, applyWords]
      cases TempoCue.ofWords? text with
      | none => rfl
      | some cue => cases cue <;> rfl

theorem direction_eq_foldl (scan : TempoScan ℚ) (position : ℚ) (mark : Direction ℚ) :
    scan.direction position mark = (mark.signs position).foldl apply scan := by
  rw [direction, applyWords_eq_foldl, Direction.signs, List.foldl_append]
  cases mark.tempo <;> rfl

theorem element_eq_foldl (scan : TempoScan ℚ) (place : Place ℚ) (element : MeasureElement ℚ) :
    (TempoScan.element (scan, place) element).1 =
      (element.signs (scan.position + place.cursor)).foldl apply scan := by
  cases element with
  | direction mark => exact direction_eq_foldl scan _ mark
  | note note => rfl
  | harmony harmony => rfl
  | backup duration => rfl
  | forward duration => rfl

theorem elements_eq_foldl (elements : List (MeasureElement ℚ)) (scan : TempoScan ℚ)
    (place : Place ℚ) :
    (elements.foldl TempoScan.element (scan, place)).1 =
      (place.signs scan.position elements).foldl apply scan := by
  induction elements generalizing scan place with
  | nil => rfl
  | cons element rest ih =>
      obtain ⟨hplace, hposition, -, -⟩ := element_eq scan place element
      rw [List.foldl_cons, ← Prod.mk.eta (p := TempoScan.element (scan, place) element), ih,
        hplace, hposition, element_eq_foldl, Place.signs, List.foldl_append]

theorem Tells.measure {scan : TempoScan ℚ} {signs : TempoSigns} (hscan : scan.Tells signs)
    (measure : Measure ℚ) :
    (scan.measure measure).Tells
      (signs ++ Place.start.signs scan.position measure.elements) := by
  have hentered : TempoScan.Tells
      { scan with meter := scan.meter.update measure.attributes } signs :=
    ⟨hscan.tempo, hscan.events, hscan.quiet, hscan.opened, hscan.ramps⟩
  have hwalked := hentered.foldl_apply (Place.start.signs scan.position measure.elements)
  rw [← elements_eq_foldl measure.elements
    { scan with meter := scan.meter.update measure.attributes } Place.start] at hwalked
  exact ⟨hwalked.tempo, hwalked.events, hwalked.quiet, hwalked.opened, hwalked.ramps⟩

end TempoScan

namespace Part

variable {part : Part ℚ}

theorem tells_scanAt {number : Nat} (h : number ≤ part.measures.length) :
    (part.scanAt number).Tells (part.signsBefore number) := by
  induction number with
  | zero => exact TempoScan.Tells.initial
  | succ number ih =>
      have hmeasure := List.getElem?_eq_getElem (Nat.lt_of_succ_le h)
      have hbefore := Nat.le_of_succ_le h
      have hsigns : part.signsBefore (number + 1) = part.signsBefore number ++
          Place.start.signs (part.barStart number) part.measures[number].elements := by
        rw [signsBefore, signsBefore, List.range_succ, List.flatMap_append,
          List.flatMap_singleton, signsIn, hmeasure]
        rfl
      rw [scanAt_succ hmeasure, hsigns, ← position_scanAt hbefore]
      exact (ih hbefore).measure part.measures[number]

theorem exists_element_of_mem_signs {sign : TempoSign} (h : sign ∈ part.signs) :
    ∃ measure ∈ part.measures, ∃ element ∈ measure.elements, ∃ position,
      sign ∈ element.signs position := by
  obtain ⟨number, -, hsign⟩ := List.mem_flatMap.mp h
  unfold signsIn at hsign
  cases hmeasure : part.measures[number]? with
  | none =>
      rw [hmeasure] at hsign
      cases hsign
  | some measure =>
      rw [hmeasure] at hsign
      exact ⟨measure, List.mem_of_getElem? hmeasure, Place.exists_element_of_mem_signs hsign⟩

theorem events_eq_signs (part : Part ℚ) : part.events = part.signs.filterMap TempoSign.event? :=
  (tells_scanAt le_rfl).events

end Part

theorem TempoSigns.exists_ramp?_iff {signs : TempoSigns} {finish : ℚ} {ramp : Ramp ℚ} :
    (∃ opening : Opening, opening.In signs ∧ opening.ramp? finish = some ramp) ↔
      signs.Closes ramp ∨ ∃ opened, signs.LeavesOpen opened ∧
        opened.closed? finish opened.unfinishedTempo = some ramp := by
  constructor
  · rintro ⟨opening, hin, hramp⟩
    cases hending : opening.ending? with
    | none =>
        rw [Opening.ramp?, hending] at hramp
        exact .inr ⟨opening.opened, ⟨opening, hin, hending, rfl⟩, hramp⟩
    | some sign =>
        rw [Opening.ramp?, hending] at hramp
        exact .inl ⟨opening, sign, hin, hending, hramp⟩
  · rintro (⟨opening, sign, hin, hending, hclosed⟩ | ⟨_, ⟨opening, hin, hopen, rfl⟩, hclosed⟩)
    · refine ⟨opening, hin, ?_⟩
      rwa [Opening.ramp?, hending]
    · refine ⟨opening, hin, ?_⟩
      rwa [Opening.ramp?, hopen]

theorem TempoScan.mem_ramps_finish {scan : TempoScan ℚ} {ramp : Ramp ℚ} :
    ramp ∈ scan.finish.value.ramps ↔ ramp ∈ scan.ramps ∨ ∃ opened, scan.opened = some opened ∧
      opened.closed? scan.position opened.unfinishedTempo = some ramp := by
  unfold finish
  cases hopened : scan.opened with
  | none => simp [toMap]
  | some opened => simp [close, toMap, hopened]

namespace TempoMap

/-- The ramps of a part are those that its words open, each from the position of the words and
the tempo last written before them. -/
theorem mem_ramps_ofPart {part : Part ℚ} {ramp : Ramp ℚ} :
    ramp ∈ (ofPart part).value.ramps ↔ ∃ opening : Opening, opening.In part.signs ∧
      opening.ramp? (part.barStart part.measures.length) = some ramp := by
  have htells : (part.scanAt part.measures.length).Tells part.signs := part.tells_scanAt le_rfl
  rw [ofPart_eq, TempoScan.mem_ramps_finish, Part.position_scanAt le_rfl, htells.ramps,
    TempoSigns.exists_ramp?_iff]
  simp only [htells.opened]

end TempoMap

end Rubato
