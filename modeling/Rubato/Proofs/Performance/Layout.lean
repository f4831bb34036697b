import Rubato.Proofs.Performance.Music
import Rubato.Proofs.Tiling

namespace Rubato

/-! What is played for a note, laid out in divisions before any tempo is known. -/

structure LaidNote where
  offset : ℚ
  length : ℚ
  pitch : PitchNumber
  name : String
  staff : Nat
  ornamental : Bool
  deriving DecidableEq

def LaidNote.span (laid : LaidNote) : Span := ⟨laid.offset, laid.length⟩

namespace GraceRun

def start (run : GraceRun ℚ) (position : ℚ) : ℚ :=
  if run.onBeat then position else position - run.stolen

def mainStart (run : GraceRun ℚ) (position : ℚ) : ℚ :=
  if run.onBeat then position + run.stolen else position

end GraceRun

namespace Note

def layGraces (note : Note) (position : ℚ) (run : GraceRun ℚ) : List LaidNote :=
  run.notes.map fun grace =>
    ⟨run.start position + grace.offset, grace.duration, grace.pitch, grace.name, note.staff,
      true⟩

def figure (note : Note) (divisions : Nat) (fifths : Int) (pitch : Pitch) (available : ℚ) :
    Figure ℚ :=
  match Ornament.ofMarks? note.ornaments note.accidentals with
  | some ornament => ornament.expand pitch.number available fifths (divisions / 8)
  | none => [⟨pitch.number, 0, available, false⟩]

def layMain (note : Note) (divisions : Nat) (fifths : Int) (pitch : Pitch) (position : ℚ)
    (run : GraceRun ℚ) : List LaidNote :=
  (note.figure divisions fifths pitch (note.duration - run.stolen)).map fun part =>
    ⟨run.mainStart position + part.offset, part.duration, part.pitch,
      if part.pitch = pitch.number then pitch.name else part.pitch.name (prefersFlats fifths),
      note.staff, part.ornamental⟩

/-- What is played for a note at a position with a run before it. -/
def layOut (note : Note) (divisions : Nat) (fifths : Int) (pitch : Pitch) (position : ℚ)
    (run : GraceRun ℚ) : List LaidNote :=
  note.layGraces position run ++ note.layMain divisions fifths pitch position run

end Note

namespace Clock

def playLaid (clock : Clock ℚ) (laid : LaidNote) : PlayedNote ℚ :=
  clock.play laid.offset laid.length laid.pitch laid.name laid.staff laid.ornamental

variable (clock : Clock ℚ) (note : Note) (position : ℚ) (graces : List GraceNote)

theorem playNote_eq (fifths : Int) (pitch : Pitch) :
    clock.playNote fifths note pitch position graces =
      (note.layOut clock.divisions fifths pitch position
        (clock.graceRun note position graces)).map clock.playLaid := by
  unfold Note.layOut Note.layGraces Note.layMain
  rw [List.map_append, List.map_map, List.map_map]
  rfl

theorem fills_graceRun : (clock.graceRun note position graces).Fills note.duration := by
  have hunit : 0 ≤ clock.ornamentUnit := div_nonneg (Nat.cast_nonneg _) (Nat.cast_nonneg 8)
  have hfills := GraceRun.fills_ofGroup graces (Nat.cast_nonneg note.duration) note.isDotted hunit
  rcases clock.graceRun_eq_or note position graces with hrun | hrun
  · rw [hrun]
    exact hfills
  · rw [hrun]
    exact hfills.movedOntoBeat

end Clock

namespace GraceRun.Fills

variable {note : Note} {run : GraceRun ℚ} (hrun : run.Fills note.duration) (divisions : Nat)
  (fifths : Int) (pitch : Pitch) (position : ℚ)

include hrun

theorem tiles_layGraces :
    Tiles (run.start position) (run.start position + run.stolen)
      ((note.layGraces position run).map LaidNote.span) := by
  have hgraces := hrun.tiles.shift (run.start position)
  rw [add_zero, List.map_map] at hgraces
  unfold Note.layGraces
  rw [List.map_map]
  exact hgraces

theorem tiles_layMain :
    Tiles (run.mainStart position) (run.mainStart position + (note.duration - run.stolen))
      ((note.layMain divisions fifths pitch position run).map LaidNote.span) := by
  have havailable : 0 ≤ (note.duration : ℚ) - run.stolen := sub_nonneg.mpr hrun.stolen_le
  have hfigure : Tiles 0 (note.duration - run.stolen)
      (note.figure divisions fifths pitch (note.duration - run.stolen)).spans := by
    unfold Note.figure
    split
    · exact Ornament.tiles_expand _ _ havailable fifths
        (div_nonneg (Nat.cast_nonneg divisions) (by norm_num))
    · have hplain := Tiles.singleton ⟨0, note.duration - run.stolen⟩ havailable
      rwa [Span.stop, zero_add] at hplain
  have hmain := hfigure.shift (run.mainStart position)
  rw [add_zero, Figure.spans, List.map_map] at hmain
  unfold Note.layMain
  rw [List.map_map]
  exact hmain

theorem sum_layOut :
    ((note.layOut divisions fifths pitch position run).map (·.length)).sum = note.duration := by
  have hgraces := (hrun.tiles_layGraces position).sum_length
  have hmain := (hrun.tiles_layMain divisions fifths pitch position).sum_length
  rw [List.map_map] at hgraces hmain
  unfold Note.layOut
  rw [List.map_append, List.sum_append]
  calc _ = (run.start position + run.stolen - run.start position) +
        (run.mainStart position + (note.duration - run.stolen) - run.mainStart position) :=
        congrArg₂ (· + ·) hgraces hmain
    _ = note.duration := by ring

theorem tiles_layOut (hbeat : run.onBeat = true ∨ run.stolen = 0) :
    Tiles position (position + note.duration)
      ((note.layOut divisions fifths pitch position run).map LaidNote.span) := by
  have hstart : run.start position = position := by
    unfold start
    rcases hbeat with hbeat | hnone
    · rw [if_pos hbeat]
    · rw [hnone, sub_zero, ite_self]
  have hmainStart : run.mainStart position = position + run.stolen := by
    unfold mainStart
    rcases hbeat with hbeat | hnone
    · rw [if_pos hbeat]
    · rw [hnone, add_zero, ite_self]
  have hgraces := hrun.tiles_layGraces position
  have hmain := hrun.tiles_layMain divisions fifths pitch position
  rw [hstart] at hgraces
  rw [hmainStart, add_assoc, add_sub_cancel] at hmain
  unfold Note.layOut
  rw [List.map_append]
  exact hgraces.append hmain

theorem within_layOut :
    ∀ laid ∈ note.layOut divisions fifths pitch position run,
      run.start position ≤ laid.span.start ∧ 0 ≤ laid.span.length ∧
        laid.span.stop ≤ position + note.duration := by
  have hstolen := hrun.tiles.le
  have hduration := hrun.stolen_le
  intro laid hlaid
  rcases List.mem_append.mp hlaid with hgrace | hmain
  · obtain ⟨hstart, hlength, hstop⟩ := (hrun.tiles_layGraces position).within laid.span
      (List.mem_map_of_mem hgrace)
    refine ⟨hstart, hlength, hstop.trans ?_⟩
    unfold start
    split <;> linarith
  · obtain ⟨hstart, hlength, hstop⟩ := (hrun.tiles_layMain divisions fifths pitch position).within
      laid.span (List.mem_map_of_mem hmain)
    refine ⟨le_trans ?_ hstart, hlength, hstop.trans ?_⟩
    · unfold start mainStart
      split <;> linarith
    · unfold mainStart
      split <;> linarith

end GraceRun.Fills

end Rubato
