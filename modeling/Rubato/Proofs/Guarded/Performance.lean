import Rubato.Proofs.Guarded.Tempo
import Rubato.Proofs.Performance.Times

namespace Rubato

/-! Checked playing: tempo segments, open ties and pitch names are looked up by index, and
every length is divided by a positive number. -/

namespace TempoSegments

def checkedPut (offset bpm : ℚ) (segments : TempoSegments ℚ) (index : Nat) :
    Option (TempoSegments ℚ) := do
  let segment ← segments[index]?
  if Quantity.distance segment.offset offset < offsetTolerance then
    some (List.set segments index { segment with bpm })
  else if index ≤ segments.length then some (segments.insertIdx index ⟨offset, bpm⟩)
  else none

def checkedSet (offset bpm : ℚ) (segments : TempoSegments ℚ) : Option (TempoSegments ℚ) :=
  match segments.findIdx? fun segment =>
    decide (offset - offsetTolerance < segment.offset) with
  | some index => checkedPut offset bpm segments index
  | none => some (segments ++ [⟨offset, bpm⟩])

theorem checkedPut_succ (offset bpm : ℚ) (segment : TempoSegment ℚ)
    (rest : TempoSegments ℚ) (index : Nat) :
    checkedPut offset bpm (segment :: rest) (index + 1) =
      (checkedPut offset bpm rest index).map (segment :: ·) := by
  unfold checkedPut
  rw [List.getElem?_cons_succ, List.length_cons]
  cases rest[index]? with
  | none => rfl
  | some found =>
      simp only [Option.bind_eq_bind, Option.bind_some, Nat.add_le_add_iff_right]
      split
      · rfl
      · split <;> rfl

theorem checkedSet_eq (offset bpm : ℚ) (segments : TempoSegments ℚ) :
    checkedSet offset bpm segments = some (set offset bpm segments) := by
  induction segments with
  | nil => rfl
  | cons segment rest ih =>
      unfold checkedSet at ih ⊢
      rw [List.findIdx?_cons, set]
      by_cases hbehind : offset - offsetTolerance < segment.offset
      · rw [decide_eq_true hbehind, if_pos rfl, if_pos hbehind]
        unfold checkedPut
        simp only [List.getElem?_cons_zero, Option.bind_eq_bind, Option.bind_some]
        split
        · rfl
        · rfl
      · rw [decide_eq_false hbehind, if_neg Bool.false_ne_true, if_neg hbehind]
        cases hfound : rest.findIdx? fun segment =>
            decide (offset - offsetTolerance < segment.offset) with
        | none =>
            rw [hfound] at ih
            rw [← Option.some.inj ih]
            rfl
        | some index =>
            rw [hfound] at ih
            show checkedPut offset bpm (segment :: rest) (index + 1) = _
            rw [checkedPut_succ, show checkedPut offset bpm rest index = _ from ih]
            rfl

end TempoSegments

namespace Clock

def checkedPieceSeconds (clock : Clock ℚ) (offset length stop : ℚ) (piece : Stretch ℚ) :
    Option ℚ :=
  let count :=
    if piece.start == offset && piece.stop == stop then length
    else piece.stop - piece.start
  if piece.start < piece.stop then
    clock.map.checkedSeconds (clock.startPosition + piece.start) count piece.bpm
      (clock.divisions : ℚ)
  else some 0

def checkedSpanSeconds (clock : Clock ℚ) (offset length : ℚ) : Option ℚ := do
  let stop := offset + length
  let seconds ← (Stretch.ofSegments offset stop clock.segments).mapM
    (clock.checkedPieceSeconds offset length stop)
  some (Quantity.total seconds)

def checkedTimeAt (clock : Clock ℚ) (offset : ℚ) : Option ℚ :=
  if 0 ≤ offset then do
    let seconds ← clock.checkedSpanSeconds 0 offset
    some (clock.startTime + seconds)
  else do
    let seconds ← clock.checkedSpanSeconds offset (-offset)
    some (clock.startTime - seconds)

def checkedSetTempo (clock : Clock ℚ) (offset bpm : ℚ) : Option (Clock ℚ) := do
  let segments ← TempoSegments.checkedSet offset bpm clock.segments
  some { clock with segments }

def checkedSeededSegments (clock : Clock ℚ) (span : ℚ) : Option (TempoSegments ℚ) :=
  (clock.changesInside span).foldlM
    (fun segments event =>
      TempoSegments.checkedSet (event.position - clock.startPosition) event.bpm segments)
    [⟨0, clock.map.tempoAt clock.startPosition⟩]

def checkedEnter (clock : Clock ℚ) (divisions : Nat) (span : ℚ) : Option (Clock ℚ) := do
  let segments ← clock.checkedSeededSegments span
  some { clock with divisions, segments }

def checkedLeave (clock : Clock ℚ) (span : ℚ) : Option (Clock ℚ) := do
  let seconds ← clock.checkedSpanSeconds 0 span
  some { clock with
    startTime := clock.startTime + seconds
    startPosition := clock.startPosition + span }

def checkedOrnamentUnit (clock : Clock ℚ) : Option ℚ :=
  divide? (clock.divisions : ℚ) (unitsPerQuarter : ℚ)

theorem checkedSetTempo_eq (clock : Clock ℚ) (offset bpm : ℚ) :
    clock.checkedSetTempo offset bpm = some (clock.setTempo offset bpm) := by
  unfold checkedSetTempo
  rw [TempoSegments.checkedSet_eq]
  rfl

theorem checkedEnter_eq (clock : Clock ℚ) (divisions : Nat) (span : ℚ) :
    clock.checkedEnter divisions span = some (clock.enter divisions span) := by
  have hsegments : clock.checkedSeededSegments span = some (clock.seededSegments span) :=
    (foldlM_eq_some (fun _ => True)
      (fun segments _ event _ => ⟨TempoSegments.checkedSet_eq _ _ segments, trivial⟩) trivial).1
  unfold checkedEnter
  rw [hsegments]
  rfl

theorem checkedOrnamentUnit_eq (clock : Clock ℚ) :
    clock.checkedOrnamentUnit = some clock.ornamentUnit :=
  divide?_of_pos (Nat.cast_pos.mpr (by decide)) _

namespace WellFormed

variable {clock : Clock ℚ}

theorem checkedSpanSeconds_eq (h : clock.WellFormed) (offset length : ℚ) :
    clock.checkedSpanSeconds offset length = some (clock.spanSeconds offset length) := by
  have hpieces : ∀ piece ∈ Stretch.ofSegments offset (offset + length) clock.segments,
      clock.checkedPieceSeconds offset length (offset + length) piece =
        some (clock.pieceSeconds offset length (offset + length) piece) := by
    intro piece _
    unfold checkedPieceSeconds pieceSeconds
    dsimp only
    split
    · exact h.map.checkedSeconds_eq _ _ _ _
    · rfl
  unfold checkedSpanSeconds
  dsimp only
  rw [mapM_eq_some hpieces]
  rfl

theorem checkedTimeAt_eq (h : clock.WellFormed) (offset : ℚ) :
    clock.checkedTimeAt offset = some (clock.timeAt offset) := by
  unfold checkedTimeAt timeAt
  rw [h.checkedSpanSeconds_eq, h.checkedSpanSeconds_eq]
  split <;> rfl

theorem checkedLeave_eq (h : clock.WellFormed) (span : ℚ) :
    clock.checkedLeave span = some (clock.leave span) := by
  unfold checkedLeave
  rw [h.checkedSpanSeconds_eq]
  rfl

end WellFormed

end Clock

def PitchNumber.checkedClassName (number : PitchNumber) (flats : Bool) : Option String :=
  (if flats then flatNames else sharpNames)[number % 12]?

theorem PitchNumber.checkedClassName_eq (number : PitchNumber) (flats : Bool) :
    number.checkedClassName flats = some (number.className flats) := by
  have hlength : (if flats then flatNames else sharpNames).length = 12 := by
    cases flats <;> rfl
  have hindex : number % 12 < (if flats then flatNames else sharpNames).length := by
    rw [hlength]
    exact Nat.mod_lt number (by decide)
  unfold checkedClassName className
  rw [List.getD_eq_getElem?_getD, List.getElem?_eq_getElem hindex]
  rfl

def PitchNumber.checkedName (number : PitchNumber) (flats : Bool) : Option String := do
  let name ← number.checkedClassName flats
  some (name ++ toString (PitchNumber.octave number))

theorem PitchNumber.checkedName_eq (number : PitchNumber) (flats : Bool) :
    number.checkedName flats = some (number.name flats) := by
  unfold checkedName
  rw [checkedClassName_eq]
  rfl

namespace Pitch

def checkedSpelling (pitch : Pitch) : Option Spelling :=
  if -1 ≤ pitch.alter ∧ pitch.alter ≤ 1 ∧ ¬pitch.IsAwkward then
    some ⟨pitch.letter.name.toString ++ accidentalSign pitch.alter, pitch.octave⟩
  else do
    let name ← PitchNumber.checkedClassName pitch.number (pitch.alter < 0)
    some ⟨name, PitchNumber.octave pitch.number⟩

def checkedName (pitch : Pitch) : Option String := do
  let spelling ← pitch.checkedSpelling
  some spelling.name

theorem checkedSpelling_eq (pitch : Pitch) : pitch.checkedSpelling = some pitch.spelling := by
  unfold checkedSpelling spelling
  rw [PitchNumber.checkedClassName_eq]
  split <;> rfl

theorem checkedName_eq (pitch : Pitch) : pitch.checkedName = some pitch.name := by
  unfold checkedName
  rw [checkedSpelling_eq]
  rfl

end Pitch

def GraceNote.checkedOfNote (note : Note) : Option (List GraceNote) :=
  match note.pitch with
  | some pitch => do
    let name ← pitch.checkedName
    some [⟨pitch.number, name, note.grace == some .slashed⟩]
  | none => some []

theorem GraceNote.checkedOfNote_eq (note : Note) :
    checkedOfNote note = some (ofNote? note).toList := by
  unfold checkedOfNote ofNote?
  cases note.pitch with
  | none => rfl
  | some pitch =>
      dsimp only
      rw [pitch.checkedName_eq]
      rfl

namespace GraceRun

def checkedLongLength (count : ℚ) (mainDuration : ℚ) (dotted : Bool) : Option ℚ := do
  let target := mainDuration * longShare dotted
  let whole ← (divide? target count).map Quantity.floor
  if 0 < whole then some whole else divide? target count

def checkedShortLength (count : ℚ) (mainDuration : ℚ) (unit : ℚ) : Option ℚ := do
  let quarter ← divide? mainDuration ((4 : Nat) : ℚ)
  divide? (Quantity.lesser quarter (count * unit)) count

def checkedNoteLength (group : List GraceNote) (mainDuration : ℚ) (dotted : Bool) (unit : ℚ) :
    Option ℚ :=
  if isLong group then checkedLongLength (group.length : Nat) mainDuration dotted
  else checkedShortLength (group.length : Nat) mainDuration unit

def checkedOfGroup (group : List GraceNote) (mainDuration : ℚ) (dotted : Bool) (unit : ℚ) :
    Option (GraceRun ℚ) :=
  if group.isEmpty then some ⟨[], 0, false⟩
  else do
    let length ← checkedNoteLength group mainDuration dotted unit
    some ⟨place length group, length * (group.length : Nat), isLong group⟩

theorem checkedNoteLength_eq {group : List GraceNote} (hgroup : 0 < group.length)
    (mainDuration : ℚ) (dotted : Bool) (unit : ℚ) :
    checkedNoteLength group mainDuration dotted unit =
      some (noteLength group mainDuration dotted unit) := by
  have hcount : (0 : ℚ) < (group.length : Nat) := Nat.cast_pos.mpr hgroup
  unfold checkedNoteLength noteLength checkedLongLength longLength checkedShortLength shortLength
  dsimp only
  rw [divide?_of_pos hcount, divide?_of_pos (Nat.cast_pos.mpr (by decide))]
  split
  · simp only [Option.map_some, Option.bind_eq_bind, Option.bind_some]
    split <;> rfl
  · exact divide?_of_pos hcount _

theorem checkedOfGroup_eq (group : List GraceNote) (mainDuration : ℚ) (dotted : Bool)
    (unit : ℚ) :
    checkedOfGroup group mainDuration dotted unit =
      some (ofGroup group mainDuration dotted unit) := by
  unfold checkedOfGroup ofGroup
  cases group with
  | nil => rfl
  | cons first rest =>
      have hgroup : 0 < (first :: rest).length := Nat.succ_pos rest.length
      rw [checkedNoteLength_eq hgroup]
      rfl

end GraceRun

namespace Figure

def checkedSliceFor (figure : List PitchNumber) (available unit : ℚ) : Option ℚ := do
  let share ← divide? available (figure.length + 1 : Nat)
  some (Quantity.lesser unit share)

def checkedLeading (figure : List PitchNumber) (main : PitchNumber) (available unit : ℚ) :
    Option (Figure ℚ) := do
  let slice ← checkedSliceFor figure available unit
  some (layOut available slice 0 (figure.map (·, true) ++ [(main, false)]))

def checkedDelayed (figure : List PitchNumber) (main : PitchNumber) (available unit : ℚ) :
    Option (Figure ℚ) := do
  let slice ← checkedSliceFor figure available unit
  let held := available - slice * (figure.length : Nat)
  some (⟨main, 0, held, false⟩ :: layOut available slice held (figure.map (·, true)))

def checkedTrillCount (available unit : ℚ) : Option Nat := do
  let count ←
    if 0 < unit then (divide? available unit).map Quantity.units else some 0
  some (max (if count % 2 = 0 then count - 1 else count) fewestTrillNotes)

def checkedTrilled (main neighbor : PitchNumber) (available unit : ℚ) : Option (Figure ℚ) := do
  let count ← checkedTrillCount available unit
  let slice ← divide? available (count : Nat)
  some (layOut available slice 0 (alternation main neighbor count))

theorem checkedSliceFor_eq (figure : List PitchNumber) (available unit : ℚ) :
    checkedSliceFor figure available unit = some (sliceFor figure available unit) := by
  unfold checkedSliceFor
  rw [divide?_of_pos (Nat.cast_pos.mpr (Nat.succ_pos _))]
  rfl

theorem checkedLeading_eq (figure : List PitchNumber) (main : PitchNumber)
    (available unit : ℚ) :
    checkedLeading figure main available unit = some (leading figure main available unit) := by
  unfold checkedLeading
  rw [checkedSliceFor_eq]
  rfl

theorem checkedDelayed_eq (figure : List PitchNumber) (main : PitchNumber)
    (available unit : ℚ) :
    checkedDelayed figure main available unit = some (delayed figure main available unit) := by
  unfold checkedDelayed
  rw [checkedSliceFor_eq]
  rfl

theorem checkedTrillCount_eq (available unit : ℚ) :
    checkedTrillCount available unit = some (trillCount available unit) := by
  unfold checkedTrillCount trillCount
  split
  · next hunit =>
      rw [divide?_of_pos hunit]
      rfl
  · rfl

theorem trillCount_pos (available unit : ℚ) : 0 < trillCount available unit :=
  lt_max_of_lt_right (by decide)

theorem checkedTrilled_eq (main neighbor : PitchNumber) (available unit : ℚ) :
    checkedTrilled main neighbor available unit =
      some (trilled main neighbor available unit) := by
  unfold checkedTrilled
  rw [checkedTrillCount_eq, Option.bind_eq_bind, Option.bind_some,
    divide?_of_pos (Nat.cast_pos.mpr (trillCount_pos available unit))]
  rfl

end Figure

def Ornament.checkedExpand (ornament : Ornament) (main : PitchNumber) (available : ℚ)
    (fifths : Int) (unit : ℚ) : Option (Figure ℚ) :=
  match ornament with
  | .mordent long mark =>
    Figure.checkedLeading (mordentPitches main (lower main mark fifths) long) main available unit
  | .invertedMordent long mark =>
    Figure.checkedLeading (mordentPitches main (upper main mark fifths) long) main available unit
  | .turn up down =>
    Figure.checkedLeading [upper main up fifths, main, lower main down fifths] main available
      unit
  | .delayedTurn up down =>
    Figure.checkedDelayed [upper main up fifths, main, lower main down fifths, main] main
      available unit
  | .trill mark | .wavyLine mark | .shake mark =>
    Figure.checkedTrilled main (upper main mark fifths) available unit

theorem Ornament.checkedExpand_eq (ornament : Ornament) (main : PitchNumber) (available : ℚ)
    (fifths : Int) (unit : ℚ) :
    ornament.checkedExpand main available fifths unit =
      some (ornament.expand main available fifths unit) := by
  cases ornament with
  | mordent long mark => exact Figure.checkedLeading_eq _ main available unit
  | invertedMordent long mark => exact Figure.checkedLeading_eq _ main available unit
  | trill mark => exact Figure.checkedTrilled_eq main _ available unit
  | wavyLine mark => exact Figure.checkedTrilled_eq main _ available unit
  | shake mark => exact Figure.checkedTrilled_eq main _ available unit
  | turn up down => exact Figure.checkedLeading_eq _ main available unit
  | delayedTurn up down => exact Figure.checkedDelayed_eq _ main available unit

namespace Clock

def checkedPlay (clock : Clock ℚ) (offset length : ℚ) (pitch : PitchNumber) (name : String)
    (staff : Nat) (ornamental : Bool) : Option (PlayedNote ℚ) := do
  let time ← clock.checkedTimeAt offset
  let seconds ← clock.checkedSpanSeconds offset length
  some ⟨time, pitch, name, seconds, staff, ornamental⟩

def checkedGraceRun (clock : Clock ℚ) (note : Note) (position : ℚ) (graces : List GraceNote) :
    Option (GraceRun ℚ) := do
  let unit ← clock.checkedOrnamentUnit
  let run ← GraceRun.checkedOfGroup graces (note.duration : ℚ) note.isDotted unit
  if !graces.isEmpty && !run.onBeat then do
    let time ← clock.checkedTimeAt (position - run.stolen)
    some (if time < 0 then run.movedOntoBeat else run)
  else some run

def checkedPlayGraces (clock : Clock ℚ) (note : Note) (position : ℚ) (run : GraceRun ℚ) :
    Option (List (PlayedNote ℚ)) :=
  let start := if run.onBeat then position else position - run.stolen
  run.notes.mapM fun grace =>
    clock.checkedPlay (start + grace.offset) grace.duration grace.pitch grace.name note.staff
      true

def checkedFigure (clock : Clock ℚ) (fifths : Int) (note : Note) (pitch : Pitch)
    (available : ℚ) : Option (Figure ℚ) :=
  match Ornament.ofMarks? note.ornaments note.accidentals with
  | some ornament => do
    let unit ← clock.checkedOrnamentUnit
    ornament.checkedExpand pitch.number available fifths unit
  | none => some [⟨pitch.number, 0, available, false⟩]

def checkedPartName (fifths : Int) (pitch : Pitch) (number : PitchNumber) : Option String :=
  if number = pitch.number then pitch.checkedName
  else number.checkedName (prefersFlats fifths)

def checkedPlayMain (clock : Clock ℚ) (fifths : Int) (note : Note) (pitch : Pitch)
    (position : ℚ) (run : GraceRun ℚ) : Option (List (PlayedNote ℚ)) := do
  let start := if run.onBeat then position + run.stolen else position
  let figure ← clock.checkedFigure fifths note pitch ((note.duration : ℚ) - run.stolen)
  figure.mapM fun part => do
    let name ← checkedPartName fifths pitch part.pitch
    clock.checkedPlay (start + part.offset) part.duration part.pitch name note.staff
      part.ornamental

def checkedPlayNote (clock : Clock ℚ) (fifths : Int) (note : Note) (pitch : Pitch)
    (position : ℚ) (graces : List GraceNote) : Option (List (PlayedNote ℚ)) := do
  let run ← clock.checkedGraceRun note position graces
  let before ← clock.checkedPlayGraces note position run
  let main ← clock.checkedPlayMain fifths note pitch position run
  some (before ++ main)

theorem checkedPartName_eq (fifths : Int) (pitch : Pitch) (number : PitchNumber) :
    checkedPartName fifths pitch number =
      some (if number = pitch.number then pitch.name else number.name (prefersFlats fifths)) := by
  unfold checkedPartName
  rw [pitch.checkedName_eq, number.checkedName_eq]
  split <;> rfl

theorem checkedFigure_eq (clock : Clock ℚ) (fifths : Int) (note : Note) (pitch : Pitch)
    (available : ℚ) :
    clock.checkedFigure fifths note pitch available =
      some (clock.figure fifths note pitch available) := by
  unfold checkedFigure figure
  rw [checkedOrnamentUnit_eq]
  cases Ornament.ofMarks? note.ornaments note.accidentals with
  | none => rfl
  | some ornament => exact ornament.checkedExpand_eq _ _ _ _

namespace WellFormed

variable {clock : Clock ℚ}

theorem checkedPlay_eq (h : clock.WellFormed) (offset length : ℚ) (pitch : PitchNumber)
    (name : String) (staff : Nat) (ornamental : Bool) :
    clock.checkedPlay offset length pitch name staff ornamental =
      some (clock.play offset length pitch name staff ornamental) := by
  unfold checkedPlay
  rw [h.checkedTimeAt_eq, h.checkedSpanSeconds_eq]
  rfl

theorem checkedGraceRun_eq (h : clock.WellFormed) (note : Note) (position : ℚ)
    (graces : List GraceNote) :
    clock.checkedGraceRun note position graces =
      some (clock.graceRun note position graces) := by
  unfold checkedGraceRun graceRun
  dsimp only
  simp only [checkedOrnamentUnit_eq, GraceRun.checkedOfGroup_eq, h.checkedTimeAt_eq,
    Option.bind_eq_bind, Option.bind_some]
  generalize GraceRun.ofGroup graces (note.duration : ℚ) note.isDotted clock.ornamentUnit = run
  cases graces.isEmpty <;> cases run.onBeat <;> simp

theorem checkedPlayMain_eq (h : clock.WellFormed) (fifths : Int) (note : Note) (pitch : Pitch)
    (position : ℚ) (run : GraceRun ℚ) :
    clock.checkedPlayMain fifths note pitch position run =
      some (clock.playMain fifths note pitch position run) := by
  unfold checkedPlayMain
  rw [checkedFigure_eq]
  refine mapM_eq_some fun part _ => ?_
  rw [checkedPartName_eq]
  exact h.checkedPlay_eq _ _ _ _ _ _

theorem checkedPlayNote_eq (h : clock.WellFormed) (fifths : Int) (note : Note) (pitch : Pitch)
    (position : ℚ) (graces : List GraceNote) :
    clock.checkedPlayNote fifths note pitch position graces =
      some (clock.playNote fifths note pitch position graces) := by
  have hgraces : clock.checkedPlayGraces note position (clock.graceRun note position graces) =
      some (clock.playGraces note position (clock.graceRun note position graces)) :=
    mapM_eq_some fun grace _ => h.checkedPlay_eq _ _ _ _ _ _
  unfold checkedPlayNote
  rw [h.checkedGraceRun_eq, Option.bind_eq_bind, Option.bind_some, hgraces, Option.bind_eq_bind,
    Option.bind_some, h.checkedPlayMain_eq]
  rfl

end WellFormed

end Clock

end Rubato
