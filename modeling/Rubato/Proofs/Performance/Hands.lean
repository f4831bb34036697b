import Rubato.Proofs.Performance.Numbering

namespace Rubato

variable {α : Type} [Quantity α]

namespace PlayedNote

/-- Notes of one pitch that begin at the same millisecond. -/
def Together (note other : PlayedNote α) : Prop :=
  Quantity.nearest (other.time * ((1000 : Nat) : α)) =
      Quantity.nearest (note.time * ((1000 : Nat) : α)) ∧
    other.pitch = note.pitch

instance (note other : PlayedNote α) : Decidable (note.Together other) :=
  inferInstanceAs (Decidable (_ ∧ _))

theorem together_iff {note other : PlayedNote α} :
    note.Together other ↔ other.instant = note.instant := by
  unfold Together instant
  rw [Instant.mk.injEq]

/-- A note of the same pitch begins at the same millisecond on another staff. -/
def HasUnison (notes : List (PlayedNote α)) (note : PlayedNote α) : Prop :=
  ∃ other ∈ notes, note.Together other ∧ other.staff ≠ note.staff

instance (notes : List (PlayedNote α)) (note : PlayedNote α) :
    Decidable (HasUnison notes note) :=
  inferInstanceAs (Decidable (∃ other ∈ notes, _))

theorem hasUnison_or_one_staff (notes : List (PlayedNote α)) {note : PlayedNote α}
    (hnote : note ∈ notes) :
    (∀ other ∈ notes, note.Together other → HasUnison notes other) ∨
      ∀ other ∈ notes, note.Together other → other.staff = note.staff := by
  by_cases hstaves : ∃ other ∈ notes, note.Together other ∧ other.staff ≠ note.staff
  · obtain ⟨second, hsecond, htogether, hstaff⟩ := hstaves
    left
    intro other hother hsame
    rw [together_iff] at htogether hsame
    -- One of the two is on another staff than the third.
    by_cases hown : other.staff = note.staff
    · exact ⟨second, hsecond, together_iff.mpr (htogether.trans hsame.symm), hown ▸ hstaff⟩
    · exact ⟨note, hnote, together_iff.mpr hsame.symm, Ne.symm hown⟩
  · right
    intro other hother hsame
    by_contra hstaff
    exact hstaves ⟨other, hother, hsame, hstaff⟩

end PlayedNote

namespace Sounding

theorem hand_eq_both_iff (notes : List (PlayedNote α)) (note : PlayedNote α) :
    (ofNotes notes).hand note.instant note.staff = .both ↔ note.HasUnison notes := by
  have hany : ((ofNotes notes).any fun entry =>
      decide (entry.1 = note.instant) && decide (entry.2 ≠ note.staff)) = true ↔
        note.HasUnison notes := by
    simp only [ofNotes, List.any_map, List.any_eq_true, Function.comp_apply, Bool.and_eq_true,
      decide_eq_true_eq, PlayedNote.HasUnison, PlayedNote.together_iff]
  unfold hand
  rw [← hany]
  split
  · next hboth => exact iff_of_true rfl hboth
  · next hone =>
      refine iff_of_false ?_ hone
      unfold Hand.ofStaff
      split <;> decide

theorem hand_of_ne_both {sounding : Sounding} {instant : Instant} {staff : Nat}
    (h : sounding.hand instant staff ≠ .both) :
    sounding.hand instant staff = if 2 ≤ staff then .left else .right := by
  unfold hand at h ⊢
  split
  · next hboth => exact absurd (if_pos hboth) h
  · rfl

theorem hand_of_perm {notes others : List (PlayedNote α)} (h : notes.Perm others)
    (instant : Instant) (staff : Nat) :
    (ofNotes notes).hand instant staff = (ofNotes others).hand instant staff := by
  unfold hand ofNotes
  rw [(h.map _).any_eq]

end Sounding

namespace NoteEvent

/-- The notes in the order of their events, each with the event that it becomes. -/
def paired (idPrefix : String) (notes : List (PlayedNote α)) :
    List (PlayedNote α × NoteEvent α) :=
  (notes.mergeSort PlayedNote.notAfter).zip (ofNotes idPrefix notes)

/-- The hand of a note's event: both where the note has a unison, otherwise the left one from
the second staff on. -/
structure IsHanded (event : NoteEvent α) (notes : List (PlayedNote α))
    (note : PlayedNote α) : Prop where
  both : event.hand = .both ↔ note.HasUnison notes
  single : event.hand ≠ .both → event.hand = if 2 ≤ note.staff then .left else .right

theorem length_sorted (idPrefix : String) (notes : List (PlayedNote α)) :
    (notes.mergeSort PlayedNote.notAfter).length = (ofNotes idPrefix notes).length := by
  rw [length_ofNotes, List.length_mergeSort]

theorem map_fst_paired (idPrefix : String) (notes : List (PlayedNote α)) :
    (paired idPrefix notes).map (·.1) = notes.mergeSort PlayedNote.notAfter :=
  List.map_fst_zip (length_sorted idPrefix notes).le

theorem map_snd_paired (idPrefix : String) (notes : List (PlayedNote α)) :
    (paired idPrefix notes).map (·.2) = ofNotes idPrefix notes :=
  List.map_snd_zip (length_sorted idPrefix notes).ge

theorem mem_of_mem_paired {idPrefix : String} {notes : List (PlayedNote α)}
    {pair : PlayedNote α × NoteEvent α} (h : pair ∈ paired idPrefix notes) : pair.1 ∈ notes :=
  List.mem_mergeSort.mp (map_fst_paired idPrefix notes ▸ List.mem_map_of_mem h)

theorem eq_ofPlayed_of_mem_paired {idPrefix : String} {notes : List (PlayedNote α)}
    {pair : PlayedNote α × NoteEvent α} (h : pair ∈ paired idPrefix notes) :
    ∃ id, pair.2 = ofPlayed id
      ((Sounding.ofNotes notes).hand pair.1.instant pair.1.staff) pair.1 := by
  unfold paired at h
  obtain ⟨index, hindex, rfl⟩ := List.getElem_of_mem h
  refine ⟨idPrefix ++ toString index, ?_⟩
  simp only [List.getElem_zip, ofNotes, List.getElem_mapIdx]

theorem hand_of_mem_paired {idPrefix : String} {notes : List (PlayedNote α)}
    {pair : PlayedNote α × NoteEvent α} (h : pair ∈ paired idPrefix notes) :
    pair.2.hand = (Sounding.ofNotes notes).hand pair.1.instant pair.1.staff := by
  obtain ⟨id, hevent⟩ := eq_ofPlayed_of_mem_paired h
  rw [hevent]
  rfl

theorem keeps_of_mem_paired {idPrefix : String} {notes : List (PlayedNote α)}
    {pair : PlayedNote α × NoteEvent α} (h : pair ∈ paired idPrefix notes) :
    pair.2.Keeps pair.1 := by
  obtain ⟨id, hevent⟩ := eq_ofPlayed_of_mem_paired h
  rw [hevent]
  exact keeps_ofPlayed id _ pair.1

theorem map_hand_paired (idPrefix : String) (notes : List (PlayedNote α)) :
    (paired idPrefix notes).map (fun pair => (pair.1, pair.2.hand)) =
      (notes.mergeSort PlayedNote.notAfter).map fun note =>
        (note, (Sounding.ofNotes notes).hand note.instant note.staff) := by
  rw [← map_fst_paired idPrefix, List.map_map]
  exact List.map_congr_left fun pair hpair => congrArg (pair.1, ·) (hand_of_mem_paired hpair)

theorem isHanded_of_mem_paired {idPrefix : String} {notes : List (PlayedNote α)}
    {pair : PlayedNote α × NoteEvent α} (h : pair ∈ paired idPrefix notes) :
    pair.2.IsHanded notes pair.1 where
  both := by rw [hand_of_mem_paired h, Sounding.hand_eq_both_iff]
  single := by
    rw [hand_of_mem_paired h]
    exact Sounding.hand_of_ne_both

/-- The event of a note has both hands if and only if the note has a unison, and otherwise the
hand of its staff. Notes that begin together are all played by both hands, or all on one staff.
In whatever order the notes come, the same notes are played by the same hands. -/
theorem hands_ofNotes (idPrefix : String) (notes : List (PlayedNote α)) :
    ((paired idPrefix notes).map (·.1)).Perm notes ∧
      (paired idPrefix notes).map (·.2) = ofNotes idPrefix notes ∧
      (∀ pair ∈ paired idPrefix notes, pair.2.Keeps pair.1 ∧ pair.2.IsHanded notes pair.1) ∧
      (∀ pair ∈ paired idPrefix notes,
        (∀ other ∈ paired idPrefix notes, pair.1.Together other.1 → other.2.hand = .both) ∨
          ∀ other ∈ paired idPrefix notes, pair.1.Together other.1 →
            other.1.staff = pair.1.staff) ∧
      ∀ others : List (PlayedNote α), others.Perm notes →
        ((paired idPrefix others).map fun pair => (pair.1, pair.2.hand)).Perm
          ((paired idPrefix notes).map fun pair => (pair.1, pair.2.hand)) := by
  refine ⟨?_, map_snd_paired idPrefix notes,
    fun pair hpair => ⟨keeps_of_mem_paired hpair, isHanded_of_mem_paired hpair⟩, ?_, ?_⟩
  · rw [map_fst_paired]
    exact List.mergeSort_perm notes _
  · intro pair hpair
    refine (PlayedNote.hasUnison_or_one_staff notes (mem_of_mem_paired hpair)).imp ?_ ?_
    · intro hall other hother htogether
      exact (isHanded_of_mem_paired hother).both.mpr
        (hall other.1 (mem_of_mem_paired hother) htogether)
    · exact fun hall other hother => hall other.1 (mem_of_mem_paired hother)
  · intro others hperm
    have hsorted : (others.mergeSort PlayedNote.notAfter).Perm
        (notes.mergeSort PlayedNote.notAfter) :=
      (List.mergeSort_perm others _).trans (hperm.trans (List.mergeSort_perm notes _).symm)
    rw [map_hand_paired, map_hand_paired]
    simp only [Sounding.hand_of_perm hperm]
    exact hsorted.map _

/-- One pitch on two staves within half a millisecond, with the left hand's note twice, and
another pitch. -/
def acrossStaves : List (PlayedNote ℚ) :=
  [⟨1, 60, "C4", 1, 2, false⟩, ⟨10002 / 10000, 60, "C4", 1, 1, false⟩,
    ⟨1, 60, "B#3", 1, 2, false⟩, ⟨1, 64, "E4", 1, 2, false⟩]

theorem hands_acrossStaves :
    acrossStaves.reverse.Perm acrossStaves ∧
      (∃ event, ((⟨1, 60, "B#3", 1, 2, false⟩ : PlayedNote ℚ), event) ∈
        paired "note-" acrossStaves ∧ event.hand = .both) ∧
      (∃ event, ((⟨1, 64, "E4", 1, 2, false⟩ : PlayedNote ℚ), event) ∈
        paired "note-" acrossStaves ∧ event.hand = .left) ∧
      ((paired "note-" acrossStaves.reverse).map fun pair => (pair.1, pair.2.hand)).Perm
        ((paired "note-" acrossStaves).map fun pair => (pair.1, pair.2.hand)) := by
  obtain ⟨hnotes, -, hhanded, -, hperm⟩ := hands_ofNotes "note-" acrossStaves
  have hevent : ∀ note ∈ acrossStaves, ∃ event, (note, event) ∈ paired "note-" acrossStaves ∧
      event.IsHanded acrossStaves note := by
    intro note hnote
    obtain ⟨⟨_, event⟩, hpair, rfl⟩ := List.mem_map.mp (hnotes.mem_iff.mpr hnote)
    exact ⟨event, hpair, (hhanded _ hpair).2⟩
  obtain ⟨doubled, hdoubled, hboth⟩ := hevent ⟨1, 60, "B#3", 1, 2, false⟩ (by decide +kernel)
  obtain ⟨alone, halone, hleft⟩ := hevent ⟨1, 64, "E4", 1, 2, false⟩ (by decide +kernel)
  refine ⟨acrossStaves.reverse_perm, ⟨doubled, hdoubled, hboth.both.mpr (by decide +kernel)⟩,
    ⟨alone, halone, ?_⟩, hperm _ acrossStaves.reverse_perm⟩
  exact hleft.single (mt hleft.both.mp (by decide +kernel))

end NoteEvent

end Rubato
