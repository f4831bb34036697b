import Rubato.Proofs.Figure
import Rubato.Proofs.Performance.Moments

namespace Rubato

/-! Whatever is played for a note ends on the written pitch, and a tie that starts there
points at this end. Later notes are played behind it and tied ones only lengthen it. -/

variable {α : Type}

namespace OpenTies

/-- Open ties of different keys that point at different notes, each at a note of the pitch and
the staff of its key. -/
structure PointInto (ties : OpenTies) (notes : List (PlayedNote α)) : Prop where
  keys : (ties.map (·.1)).Nodup
  targets : (ties.map (·.2)).Nodup
  played : ∀ entry ∈ ties, ∃ note, notes[entry.2]? = some note ∧
    note.pitch = entry.1.pitch ∧ note.staff = entry.1.staff

theorem pointInto_nil (notes : List (PlayedNote α)) : PointInto [] notes :=
  ⟨List.nodup_nil, List.nodup_nil, fun entry hentry => by cases hentry⟩

namespace PointInto

variable {ties : OpenTies} {notes : List (PlayedNote α)}

theorem lt_length (h : ties.PointInto notes) {entry : TieKey × Nat} (hentry : entry ∈ ties) :
    entry.2 < notes.length := by
  obtain ⟨note, hnote, -⟩ := h.played entry hentry
  exact (List.getElem?_eq_some_iff.mp hnote).1

theorem append (h : ties.PointInto notes) (added : List (PlayedNote α)) :
    ties.PointInto (notes ++ added) := by
  refine ⟨h.keys, h.targets, fun entry hentry => ?_⟩
  rw [List.getElem?_append_left (h.lt_length hentry)]
  exact h.played entry hentry

theorem remove (h : ties.PointInto notes) (key : TieKey) :
    (ties.remove key).PointInto notes := by
  have hkept : (ties.remove key).Sublist ties := List.filter_sublist
  exact ⟨h.keys.sublist (hkept.map _), h.targets.sublist (hkept.map _),
    fun entry hentry => h.played entry (hkept.subset hentry)⟩

theorem insert (h : ties.PointInto notes) {key : TieKey} {index : Nat}
    (hbehind : ∀ entry ∈ ties, entry.2 < index)
    (hplayed : ∃ note, notes[index]? = some note ∧ note.pitch = key.pitch ∧
      note.staff = key.staff) : (ties.insert key index).PointInto notes := by
  have hothers := h.remove key
  refine ⟨?_, ?_, fun entry hentry => ?_⟩
  · refine List.nodup_cons.mpr ⟨fun hkey => ?_, hothers.keys⟩
    obtain ⟨entry, hentry, hsame⟩ := List.mem_map.mp hkey
    exact of_decide_eq_true (List.mem_filter.mp hentry).2 hsame
  · refine List.nodup_cons.mpr ⟨fun hindex => ?_, hothers.targets⟩
    obtain ⟨entry, hentry, hsame⟩ := List.mem_map.mp hindex
    exact (hbehind entry (List.mem_filter.mp hentry).1).ne hsame
  · rcases List.mem_cons.mp hentry with rfl | hother
    · exact hplayed
    · exact hothers.played entry hother

end PointInto

end OpenTies

variable [Quantity α]

namespace Clock

theorem lastPitch?_figure (clock : Clock α) (fifths : Int) (note : Note) (pitch : Pitch)
    (available : α) :
    Figure.lastPitch? (clock.figure fifths note pitch available) = some pitch.number := by
  unfold figure
  split
  · exact Ornament.lastPitch?_expand _ pitch.number available fifths _
  · rfl

theorem getLast?_playNote (clock : Clock α) (fifths : Int) (note : Note) (pitch : Pitch)
    (position : α) (graces : List GraceNote) :
    ∃ last, (clock.playNote fifths note pitch position graces).getLast? = some last ∧
      last.pitch = pitch.number ∧ last.staff = note.staff := by
  let run := clock.graceRun note position graces
  obtain ⟨part, hpart, hpitch⟩ := Option.map_eq_some_iff.mp
    (clock.lastPitch?_figure fifths note pitch ((note.duration : α) - run.stolen))
  unfold playNote playMain
  dsimp only
  rw [List.getLast?_append, List.getLast?_map, hpart]
  exact ⟨_, rfl, hpitch, rfl⟩

end Clock

namespace OpenTies.PointInto

theorem lengthen {ties : OpenTies} {notes : List (PlayedNote α)} (h : ties.PointInto notes)
    (index : Nat) (seconds : α) :
    ties.PointInto (notes.modify index (PlayedNote.lengthen seconds)) := by
  refine ⟨h.keys, h.targets, fun entry hentry => ?_⟩
  obtain ⟨note, hnote, hfits⟩ := h.played entry hentry
  rw [List.getElem?_modify, hnote]
  by_cases hindex : index = entry.2
  · exact ⟨note.lengthen seconds, by simp [hindex], hfits⟩
  · exact ⟨note, by simp [hindex], hfits⟩

variable {walker : Walker α}

theorem begin (h : walker.ties.PointInto walker.notes) (note : Note) (pitch : Pitch)
    (position : α) (graces : List GraceNote) :
    let begun := walker.begin note pitch (TieKey.ofNote note pitch) position graces
    begun.ties.PointInto begun.notes := by
  obtain ⟨last, hlast, hfits⟩ :=
    walker.clock.getLast?_playNote walker.meter.fifths note pitch position graces
  have hmore := walker.length_lt_begin note pitch (TieKey.ofNote note pitch) position graces
  have hkept := h.append (walker.clock.playNote walker.meter.fifths note pitch position graces)
  rw [← Walker.notes_begin walker note pitch (TieKey.ofNote note pitch)] at hkept
  dsimp only
  rw [Walker.ties_begin]
  split
  · refine hkept.insert (fun entry hentry => ?_) ⟨last, ?_, hfits⟩
    -- Something is played, so that its end lies behind all that was played before.
    · have hbefore := h.lt_length hentry
      omega
    · rw [← List.getLast?_eq_getElem?, Walker.notes_begin, List.getLast?_append, hlast]
      rfl
  · exact hkept

theorem extend (h : walker.ties.PointInto walker.notes) (note : Note) (key : TieKey)
    (position : α) (index : Nat) :
    let extended := walker.extend note key position index
    extended.ties.PointInto extended.notes := by
  have hnotes := h.lengthen index (walker.clock.spanSeconds position (note.duration : α))
  rw [← Walker.notes_extend walker note key] at hnotes
  dsimp only
  rw [Walker.ties_extend]
  split
  · exact hnotes
  · exact hnotes.remove key

theorem place (h : walker.ties.PointInto walker.notes) (note : Note) (pitch : Pitch)
    (position : α) (graces : List GraceNote) :
    let placed := (walker.place note pitch position graces).value
    placed.ties.PointInto placed.notes := by
  rw [Walker.value_place]
  cases walker.ties.action note.tie (TieKey.ofNote note pitch) with
  | begin => exact h.begin note pitch position graces
  | restart => exact h.begin note pitch position graces
  | extend index => exact h.extend note _ position index
  | drop => exact h

end OpenTies.PointInto

theorem MeasureWalk.ties_past {walk : MeasureWalk α}
    (h : walk.walker.ties.PointInto walk.walker.notes) (moments : List (Moment α)) :
    (walk.past moments).walker.ties.PointInto (walk.past moments).walker.notes :=
  past_induction (P := OpenTies.PointInto)
    (fun _ _ pitched _ _ position graces hreached =>
      hreached.place pitched.note pitched.pitch position graces) h

/-- In every state of the walk through a part, between its measures and inside them, each open
tie points at a played note of its pitch on its staff, and no two point at the same one. -/
theorem Part.ties_pointInto (part : Part α) (map : TempoMap α) :
    (∀ number, (part.walkerAt map number).ties.PointInto (part.walkerAt map number).notes) ∧
      ∀ walk, part.Reaches map walk → walk.walker.ties.PointInto walk.walker.notes := by
  have hinitial : (MeasureWalk.initial map).walker.ties.PointInto
      (MeasureWalk.initial map).walker.notes := OpenTies.pointInto_nil []
  refine ⟨fun number => ?_, fun walk hreached => ?_⟩
  · rw [walkerAt_eq_past]
    exact MeasureWalk.ties_past hinitial _
  · obtain ⟨moments, rfl⟩ := hreached.exists_past
    exact MeasureWalk.ties_past hinitial moments

def tiedC (voice : Nat) (stop : Bool) : Note :=
  { Note.plain (some ⟨.c, 0, 4⟩) 8 with voice, tie := ⟨true, stop⟩ }

def heldTogether : Part ℚ where
  id := "P1"
  measures := [
    { number := "1"
      attributes := ⟨some 2, none, none⟩
      elements := [
        .note { Note.plain (some ⟨.d, 0, 4⟩) 0 with grace := some .slashed },
        .note { tiedC 1 false with ornaments := [.delayedTurn] },
        .backup 8,
        .note (tiedC 2 false)] },
    { number := "2"
      attributes := .none
      elements := [
        .note (tiedC 1 true),
        .backup 8,
        .note { Note.plain (some ⟨.e, 0, 4⟩) 8 with voice := 2 }] }]

def heldOverBar : MeasureWalk ℚ :=
  MeasureWalk.after ⟨(heldTogether.walkerAt .empty 1).enter .none, Place.start, []⟩
    [.note (tiedC 1 true)]

theorem ties_pointInto_heldOverBar :
    heldTogether.Reaches .empty heldOverBar ∧
      heldOverBar.walker.ties = [(⟨60, 2, 1⟩, 6), (⟨60, 1, 1⟩, 5)] ∧
      heldOverBar.walker.notes.map (·.pitch) = [62, 60, 62, 60, 59, 60, 60] ∧
      heldOverBar.walker.ties.PointInto heldOverBar.walker.notes := by
  have hreached : heldTogether.Reaches .empty heldOverBar := ⟨1, _, _, _, rfl, rfl, rfl⟩
  exact ⟨hreached, by decide +kernel, by decide +kernel,
    (heldTogether.ties_pointInto .empty).2 heldOverBar hreached⟩

end Rubato
