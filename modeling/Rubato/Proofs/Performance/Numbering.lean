import Rubato.Performance.Numbering
import Rubato.Proofs.Rational

namespace Rubato

instance : Std.TransCmp (Quantity.order : Float → Float → Ordering) :=
  inferInstanceAs (Std.TransCmp (compareOn floatRank))

instance : Std.TransCmp (Quantity.order : ℚ → ℚ → Ordering) :=
  Std.TransOrd.compareOfLessAndEq_of_lt_trans_of_lt_iff lt_trans fun first second => by
    rw [not_lt, lt_iff_le_and_ne]

variable {α : Type} [Quantity α]

namespace PlayedNote

variable [Std.TransCmp (Quantity.order : α → α → Ordering)]

instance : Std.TransCmp (order : PlayedNote α → PlayedNote α → Ordering) :=
  let _ : Ord α := ⟨Quantity.order⟩
  have : Std.TransOrd α := inferInstanceAs (Std.TransCmp (Quantity.order : α → α → Ordering))
  inferInstanceAs (Std.TransCmp (compareLex (compareOn fun note : PlayedNote α => note.time)
    (compareOn (·.pitch))))

theorem notAfter_trans (first second third : PlayedNote α)
    (hfirst : notAfter first second = true) (hsecond : notAfter second third = true) :
    notAfter first third = true :=
  Std.TransCmp.isLE_trans hfirst hsecond

theorem notAfter_total (first second : PlayedNote α) :
    (notAfter first second || notAfter second first) = true := by
  unfold notAfter
  cases h : order first second with
  | lt | eq => rfl
  | gt => rw [Std.OrientedCmp.lt_of_gt h]; rfl

/-- The same notes in order, those that agree in time and pitch in the order that they had. -/
structure StablySorted (sorted notes : List (PlayedNote α)) : Prop where
  perm : sorted.Perm notes
  ordered : sorted.Pairwise fun first second => notAfter first second = true
  stable : ∀ note : PlayedNote α, sorted.filter (fun other => order note other = .eq) =
    notes.filter fun other => order note other = .eq

theorem stablySorted_mergeSort (notes : List (PlayedNote α)) :
    StablySorted (notes.mergeSort notAfter) notes where
  perm := List.mergeSort_perm notes notAfter
  ordered := List.pairwise_mergeSort notAfter_trans notAfter_total notes
  stable := by
    intro note
    -- Notes that agree are in order as they stand, and sorting keeps what is in order.
    have hagree : (notes.filter fun other => order note other = .eq).Pairwise
        fun first second => notAfter first second = true := by
      refine List.pairwise_of_forall_mem_list fun first hfirst second hsecond => ?_
      have hfirst := of_decide_eq_true (List.mem_filter.mp hfirst).2
      have hsecond := of_decide_eq_true (List.mem_filter.mp hsecond).2
      unfold notAfter
      rw [← Std.TransCmp.congr_left hfirst, hsecond]
      rfl
    have hkept := (List.sublist_mergeSort notAfter_trans notAfter_total hagree
      List.filter_sublist).filter fun other => order note other = .eq
    rw [List.filter_filter] at hkept
    simp only [Bool.and_self] at hkept
    exact (hkept.eq_of_length ((List.mergeSort_perm notes notAfter).symm.filter _).length_eq).symm

end PlayedNote

namespace NoteEvent

/-- The event of a note: a time before the score counts as its start, and there is a duration
where it is positive. -/
structure Keeps (event : NoteEvent α) (note : PlayedNote α) : Prop where
  time : event.time = Quantity.greater note.time 0
  pitch : event.pitch = note.pitch
  name : event.name = note.name
  ornamental : event.ornamental = note.ornamental
  duration : ∀ length, event.duration = some length ↔ 0 < note.duration ∧ length = note.duration

theorem keeps_ofPlayed (id : String) (hand : Hand) (note : PlayedNote α) :
    (ofPlayed id hand note).Keeps note where
  time := rfl
  pitch := rfl
  name := rfl
  ornamental := rfl
  duration := by
    intro length
    simp only [ofPlayed, Option.ite_none_right_eq_some, Option.some.injEq]
    exact and_congr_right fun _ => eq_comm

theorem length_ofNotes (idPrefix : String) (notes : List (PlayedNote α)) :
    (ofNotes idPrefix notes).length = notes.length := by
  rw [ofNotes, List.length_mapIdx, List.length_mergeSort]

theorem ids_ofNotes (idPrefix : String) (notes : List (PlayedNote α)) :
    (ofNotes idPrefix notes).map (·.id) =
      (List.range notes.length).map fun index => idPrefix ++ toString index := by
  apply List.ext_getElem
  · simp [ofNotes]
  · intro index _ _
    simp [ofNotes, ofPlayed]

theorem nodup_ids_ofNotes (idPrefix : String) (notes : List (PlayedNote α)) :
    ((ofNotes idPrefix notes).map (·.id)).Nodup := by
  rw [ids_ofNotes]
  refine List.nodup_range.map fun first second h => ?_
  exact Nat.repr_inj.mp ((String.append_right_inj idPrefix).mp h)

/-- Each note becomes one event. The events stand in order of the notes' times and pitches, those
of notes that agree in both in the order of the notes; each has the prefix and its place for an
id, and no two have the same. -/
theorem ofNotes_numbers [Std.TransCmp (Quantity.order : α → α → Ordering)]
    (idPrefix : String) (notes : List (PlayedNote α)) :
    let events := ofNotes idPrefix notes
    ∃ sorted : List (PlayedNote α), PlayedNote.StablySorted sorted notes ∧
      events.length = notes.length ∧
      (∀ (index : Nat) (note : PlayedNote α), sorted[index]? = some note →
        ∃ event : NoteEvent α, events[index]? = some event ∧
          event.id = idPrefix ++ toString index ∧ event.Keeps note) ∧
      (events.map (·.id)).Nodup := by
  refine ⟨_, PlayedNote.stablySorted_mergeSort notes, ?_, fun index note hnote => ?_,
    nodup_ids_ofNotes idPrefix notes⟩
  · rw [ofNotes, List.length_mapIdx, List.length_mergeSort]
  · refine ⟨ofPlayed (idPrefix ++ toString index)
      ((Sounding.ofNotes notes).hand note.instant note.staff) note, ?_, rfl,
      keeps_ofPlayed _ _ note⟩
    rw [ofNotes, List.getElem?_mapIdx, hnote]
    rfl

/-- The two halves of a unison, and a grace note that is played before the score. -/
def unisonWithGrace : List (PlayedNote ℚ) :=
  [⟨1, 60, "C4", 1, 2, false⟩, ⟨1, 60, "B#3", 0, 1, false⟩, ⟨-1 / 2, 62, "D4", 1 / 2, 1, true⟩]

theorem numbers_unison :
    Std.TransCmp (Quantity.order : ℚ → ℚ → Ordering) ∧
      ∃ event : NoteEvent ℚ, (ofNotes "note-" unisonWithGrace)[1]? = some event ∧
        event.id = "note-1" ∧ event.Keeps ⟨1, 60, "C4", 1, 2, false⟩ := by
  have hsorts : ∀ sorted ∈ unisonWithGrace.permutations',
      (sorted.Pairwise fun first second => PlayedNote.notAfter first second = true) →
      (∀ note ∈ unisonWithGrace,
        sorted.filter (fun other => PlayedNote.order note other = .eq) =
          unisonWithGrace.filter fun other => PlayedNote.order note other = .eq) →
      sorted[1]? = some ⟨1, 60, "C4", 1, 2, false⟩ := by
    decide +kernel
  obtain ⟨sorted, hsorted, -, hevents, -⟩ := ofNotes_numbers "note-" unisonWithGrace
  have hsecond := hsorts sorted (List.mem_permutations'.mpr hsorted.perm) hsorted.ordered
    fun note _ => hsorted.stable note
  exact ⟨inferInstance, hevents 1 _ hsecond⟩

end NoteEvent

end Rubato
