import Rubato.Proofs.Tempo.Position

namespace Rubato

/-- Places that are the same or can be told apart. -/
def Apart (places : List ℚ) : Prop :=
  ∀ first ∈ places, ∀ second ∈ places, first = second ∨ offsetTolerance ≤ |first - second|

instance (places : List ℚ) : Decidable (Apart places) :=
  inferInstanceAs (Decidable (∀ first ∈ places, ∀ second ∈ places,
    first = second ∨ offsetTolerance ≤ |first - second|))

theorem Apart.mono {some all : List ℚ} (hall : Apart all) (hsubset : ∀ p ∈ some, p ∈ all) :
    Apart some :=
  fun first hfirst second hsecond =>
    hall first (hsubset first hfirst) second (hsubset second hsecond)

namespace TempoSegments

/-- Segments from the start of the measure on, each apart from all before it. -/
structure Ordered (segments : TempoSegments ℚ) : Prop where
  starts : segments.head?.map (·.offset) = some 0
  spaced : segments.Pairwise fun first second =>
    first.offset + offsetTolerance ≤ second.offset

structure WellFormed (segments : TempoSegments ℚ) : Prop where
  starts : segments.head?.map (·.offset) = some 0
  spaced : segments.Pairwise fun first second =>
    first.offset + offsetTolerance ≤ second.offset
  positive : ∀ segment ∈ segments, 0 < segment.bpm

theorem WellFormed.ordered {segments : TempoSegments ℚ} (hsegments : segments.WellFormed) :
    segments.Ordered :=
  ⟨hsegments.starts, hsegments.spaced⟩

theorem set_cons (offset bpm : ℚ) (segment : TempoSegment ℚ) (rest : TempoSegments ℚ) :
    set offset bpm (segment :: rest) =
      if offset - offsetTolerance < segment.offset then
        if |segment.offset - offset| < offsetTolerance then { segment with bpm } :: rest
        else ⟨offset, bpm⟩ :: segment :: rest
      else segment :: set offset bpm rest := by
  rw [set, Quantity.distance_eq_abs]

theorem exists_set_eq (offset bpm : ℚ) (segments : TempoSegments ℚ) :
    ∃ front behind : TempoSegments ℚ,
      (∀ segment ∈ front, segment.offset + offsetTolerance ≤ offset) ∧
      ((∃ old, segments = front ++ old :: behind ∧ |old.offset - offset| < offsetTolerance ∧
          set offset bpm segments = front ++ { old with bpm } :: behind) ∨
        segments = front ++ behind ∧
          (∀ next ∈ behind.head?, offset + offsetTolerance ≤ next.offset) ∧
          set offset bpm segments = front ++ ⟨offset, bpm⟩ :: behind) := by
  induction segments with
  | nil => exact ⟨[], [], by simp, .inr ⟨rfl, by simp, rfl⟩⟩
  | cons head rest ih =>
      rw [set_cons]
      split
      · next hreached =>
          split
          · next hnear => exact ⟨[], rest, by simp, .inl ⟨head, rfl, hnear, rfl⟩⟩
          · next hfar =>
              have hbehind : offset + offsetTolerance ≤ head.offset := by
                rcases le_abs.mp (not_lt.mp hfar) with h | h <;> linarith
              exact ⟨[], head :: rest, by simp, .inr ⟨rfl, by simpa using hbehind, rfl⟩⟩
      · next hbefore =>
          obtain ⟨front, behind, hfront, hcases⟩ := ih
          have hhead : head.offset + offsetTolerance ≤ offset := by linarith
          refine ⟨head :: front, behind, List.forall_mem_cons.mpr ⟨hhead, hfront⟩, ?_⟩
          rcases hcases with ⟨old, hrest, hnear, hset⟩ | ⟨hrest, hbehind, hset⟩
          · exact .inl ⟨old, congrArg _ hrest, hnear, congrArg _ hset⟩
          · exact .inr ⟨congrArg _ hrest, hbehind, congrArg _ hset⟩

theorem mem_set {offset bpm : ℚ} {segments : TempoSegments ℚ} {segment : TempoSegment ℚ}
    (h : segment ∈ set offset bpm segments) :
    segment ∈ segments ∨ segment.bpm = bpm ∧
      (segment.offset = offset ∨ ∃ old ∈ segments, old.offset = segment.offset) := by
  obtain ⟨front, behind, -, ⟨old, rfl, -, hset⟩ | ⟨rfl, -, hset⟩⟩ :=
    exists_set_eq offset bpm segments
  all_goals
    rw [hset, List.mem_append, List.mem_cons] at h
    rcases h with hfront | rfl | hbehind
  · exact .inl (List.mem_append_left _ hfront)
  · exact .inr ⟨rfl, .inr ⟨old, by simp, rfl⟩⟩
  · exact .inl (by simp [hbehind])
  · exact .inl (List.mem_append_left _ hfront)
  · exact .inr ⟨rfl, .inl rfl⟩
  · exact .inl (List.mem_append_right _ hbehind)

theorem le_of_head? {segments : TempoSegments ℚ} {bound : ℚ}
    (hsorted : segments.Pairwise fun first second => first.offset ≤ second.offset)
    (hhead : ∀ head ∈ segments.head?, bound ≤ head.offset) :
    ∀ segment ∈ segments, bound ≤ segment.offset := by
  cases segments with
  | nil => simp
  | cons head rest =>
      have hfirst : bound ≤ head.offset := hhead head rfl
      exact List.forall_mem_cons.mpr ⟨hfirst, fun segment hsegment =>
        hfirst.trans ((List.pairwise_cons.mp hsorted).1 segment hsegment)⟩

theorem spaced_set {segments : TempoSegments ℚ} (offset bpm : ℚ)
    (hspaced : segments.Pairwise fun first second =>
      first.offset + offsetTolerance ≤ second.offset) :
    (set offset bpm segments).Pairwise fun first second =>
      first.offset + offsetTolerance ≤ second.offset := by
  obtain ⟨front, behind, hfront, ⟨old, rfl, -, hset⟩ | ⟨rfl, hnext, hset⟩⟩ :=
    exists_set_eq offset bpm segments
  · rw [hset]
    simpa [List.pairwise_append] using hspaced
  · rw [List.pairwise_append] at hspaced
    have hbehind : ∀ segment ∈ behind, offset + offsetTolerance ≤ segment.offset :=
      le_of_head? (hspaced.2.1.imp fun h => by linarith [offsetTolerance_pos]) hnext
    rw [hset, List.pairwise_append]
    exact ⟨hspaced.1, List.pairwise_cons.mpr ⟨hbehind, hspaced.2.1⟩, fun first hfirst =>
      List.forall_mem_cons.mpr ⟨hfront first hfirst, hspaced.2.2 first hfirst⟩⟩

theorem Ordered.set {segments : TempoSegments ℚ} (hsegments : segments.Ordered)
    {offset : ℚ} (hoffset : 0 ≤ offset) (bpm : ℚ) :
    (TempoSegments.set offset bpm segments).Ordered := by
  refine ⟨?_, spaced_set offset bpm hsegments.spaced⟩
  have hstarts := hsegments.starts
  obtain ⟨front, behind, -, ⟨old, rfl, -, hset⟩ | ⟨rfl, hnext, hset⟩⟩ :=
    exists_set_eq offset bpm segments
  · rw [hset, ← hstarts]
    cases front <;> rfl
  · rw [hset, ← hstarts]
    cases front with
    | cons first rest => rfl
    | nil =>
        -- The first segment stands at the start, where none can be put in before it.
        obtain ⟨first, hfirst, hzero⟩ := Option.map_eq_some_iff.mp hstarts
        have hbehind := hnext first hfirst
        linarith [offsetTolerance_pos]

theorem WellFormed.set {segments : TempoSegments ℚ} (hsegments : segments.WellFormed)
    {offset bpm : ℚ} (hoffset : 0 ≤ offset) (hbpm : 0 < bpm) :
    (TempoSegments.set offset bpm segments).WellFormed := by
  have hordered := hsegments.ordered.set hoffset bpm
  refine ⟨hordered.starts, hordered.spaced, fun segment hsegment => ?_⟩
  rcases mem_set hsegment with hold | ⟨hnew, _⟩
  · exact hsegments.positive segment hold
  · rw [hnew]
    exact hbpm

theorem Ordered.sorted {segments : TempoSegments ℚ} (hsegments : segments.Ordered) :
    segments.Pairwise fun first second => first.offset < second.offset :=
  hsegments.spaced.imp fun h => by linarith [offsetTolerance_pos]

theorem WellFormed.sorted {segments : TempoSegments ℚ} (hsegments : segments.WellFormed) :
    segments.Pairwise fun first second => first.offset < second.offset :=
  hsegments.ordered.sorted

theorem Ordered.lastAt?_of_mem {segments : TempoSegments ℚ} (hsegments : segments.Ordered)
    {segment : TempoSegment ℚ} (h : segment ∈ segments) :
    lastAt? TempoSegment.offset segments segment.offset = some segment :=
  Rubato.lastAt?_of_mem (hsegments.sorted.imp fun h => h.ne) h

theorem ordered_singleton (bpm : ℚ) : Ordered ([⟨0, bpm⟩] : TempoSegments ℚ) :=
  ⟨rfl, List.pairwise_singleton _ _⟩

theorem wellFormed_singleton {bpm : ℚ} (hbpm : 0 < bpm) :
    WellFormed ([⟨0, bpm⟩] : TempoSegments ℚ) := by
  have hordered := ordered_singleton bpm
  refine ⟨hordered.starts, hordered.spaced, fun segment hsegment => ?_⟩
  rw [List.mem_singleton.mp hsegment]
  exact hbpm

theorem WellFormed.exists_first {segments : TempoSegments ℚ}
    (hsegments : segments.WellFormed) : ∃ segment ∈ segments, segment.offset = 0 := by
  have hstarts := hsegments.starts
  cases segments with
  | nil => cases hstarts
  | cons head rest => exact ⟨head, List.mem_cons_self, by simpa using hstarts⟩

theorem WellFormed.offset_nonneg {segments : TempoSegments ℚ}
    (hsegments : segments.WellFormed) {segment : TempoSegment ℚ} (h : segment ∈ segments) :
    0 ≤ segment.offset := by
  have hstarts := hsegments.starts
  have hsorted := hsegments.sorted
  cases segments with
  | nil => cases h
  | cons head rest =>
      have hhead : head.offset = 0 := by simpa using hstarts
      rw [List.pairwise_cons] at hsorted
      rcases List.mem_cons.mp h with rfl | hrest
      · exact hhead.ge
      · exact hhead ▸ (hsorted.1 segment hrest).le

theorem lastAt?_set {segments : TempoSegments ℚ}
    (hsorted : segments.Pairwise fun first second => first.offset < second.offset)
    (offset bpm : ℚ)
    (hapart : ∀ segment ∈ segments,
      segment.offset = offset ∨ offsetTolerance ≤ |segment.offset - offset|)
    (position : ℚ) :
    lastAt? TempoSegment.offset (set offset bpm segments) position =
      if offset = position then some ⟨offset, bpm⟩
      else lastAt? TempoSegment.offset segments position := by
  have htolerance := offsetTolerance_pos
  obtain ⟨front, behind, -, ⟨old, rfl, hnear, hset⟩ | ⟨rfl, hnext, hset⟩⟩ :=
    exists_set_eq offset bpm segments
  · have hsame : old.offset = offset :=
      (hapart old (by simp)).resolve_right (not_le.mpr hnear)
    have hbehind : lastAt? TempoSegment.offset behind offset = none := by
      rw [lastAt?_eq_none_iff]
      intro later hlater
      have hsorted := (List.pairwise_append.mp hsorted).2.1
      exact hsame ▸ ((List.pairwise_cons.mp hsorted).1 later hlater).ne'
    rw [hset, lastAt?_append, lastAt?_append, lastAt?_cons, lastAt?_cons]
    by_cases hposition : offset = position
    · subst hposition
      simp [hbehind, hsame]
    · simp [hsame, hposition]
  · have hbehind : lastAt? TempoSegment.offset behind offset = none := by
      rw [lastAt?_eq_none_iff]
      intro later hlater
      have hsorted := (List.pairwise_append.mp hsorted).2.1.imp fun h => h.le
      exact (lt_of_lt_of_le (by linarith) (le_of_head? hsorted hnext later hlater)).ne'
    rw [hset, lastAt?_append, lastAt?_append, lastAt?_cons]
    by_cases hposition : offset = position
    · subst hposition
      simp [hbehind]
    · simp [hposition]

theorem Ordered.setAll {segments : TempoSegments ℚ} (hsegments : segments.Ordered)
    {tempos : TempoSegments ℚ} (htempos : ∀ tempo ∈ tempos, 0 ≤ tempo.offset) :
    (segments.setAll tempos).Ordered :=
  List.foldlRecOn tempos _ hsegments fun _ hreached tempo htempo =>
    hreached.set (htempos tempo htempo) tempo.bpm

theorem WellFormed.setAll {segments : TempoSegments ℚ} (hsegments : segments.WellFormed)
    {tempos : TempoSegments ℚ} (htempos : ∀ tempo ∈ tempos, 0 ≤ tempo.offset ∧ 0 < tempo.bpm) :
    (segments.setAll tempos).WellFormed :=
  List.foldlRecOn tempos _ hsegments fun _ hreached tempo htempo =>
    hreached.set (htempos tempo htempo).1 (htempos tempo htempo).2

theorem apart_set {segments rest : TempoSegments ℚ} {tempo : TempoSegment ℚ}
    (hapart : Apart ((segments ++ tempo :: rest).map (·.offset))) :
    Apart ((set tempo.offset tempo.bpm segments ++ rest).map (·.offset)) := by
  refine hapart.mono fun place hplace => ?_
  simp only [List.map_append, List.mem_append, List.mem_map, List.map_cons, List.mem_cons]
    at hplace ⊢
  rcases hplace with ⟨segment, hsegment, rfl⟩ | hlater
  · rcases mem_set hsegment with hold | ⟨_, hoffset | ⟨old, hold, hsame⟩⟩
    · exact .inl ⟨segment, hold, rfl⟩
    · exact .inr (.inl hoffset)
    · exact .inl ⟨old, hold, hsame⟩
  · exact .inr (.inr hlater)

/-- The last write at a place wins, and no other place is written. -/
theorem lastAt?_setAll {segments tempos : TempoSegments ℚ} (hsegments : segments.Ordered)
    (htempos : ∀ tempo ∈ tempos, 0 ≤ tempo.offset)
    (hapart : Apart ((segments ++ tempos).map (·.offset))) (position : ℚ) :
    lastAt? TempoSegment.offset (segments.setAll tempos) position =
      lastAt? TempoSegment.offset (segments ++ tempos) position := by
  induction tempos generalizing segments with
  | nil => rw [List.append_nil]; rfl
  | cons tempo rest ih =>
      have hset := lastAt?_set hsegments.sorted tempo.offset tempo.bpm
        (fun segment hsegment => hapart segment.offset
          (List.mem_map_of_mem (List.mem_append_left _ hsegment)) tempo.offset
          (List.mem_map_of_mem (List.mem_append_right _ List.mem_cons_self))) position
      have hrest := ih (hsegments.set (htempos tempo List.mem_cons_self) tempo.bpm)
        (fun other hother => htempos other (List.mem_cons_of_mem tempo hother))
        (apart_set hapart)
      rw [show segments.setAll (tempo :: rest) =
        (TempoSegments.set tempo.offset tempo.bpm segments).setAll rest from rfl, hrest,
        lastAt?_append, hset, lastAt?_append, lastAt?_cons]
      by_cases hposition : tempo.offset = position
      · subst hposition
        simp
      · simp [hposition]

/-- Tempos that are set one after the other, from a single segment on, leave segments in the
order of their offsets, apart from each other and from the start of the measure on. If all
offsets can be told apart, one segment stands at each of them, with the tempo that was set
there last. -/
theorem lastWins_setAll (initial : ℚ) {tempos : TempoSegments ℚ}
    (hoffsets : ∀ tempo ∈ tempos, 0 ≤ tempo.offset) :
    let segments := setAll [⟨0, initial⟩] tempos
    segments.Ordered ∧
      segments.Pairwise (fun first second => first.offset < second.offset) ∧
      (Apart (0 :: tempos.map (·.offset)) →
        segments.map (·.offset) = (0 :: tempos.map (·.offset)).toFinset.sort ∧
          ∀ segment ∈ segments,
            lastAt? TempoSegment.offset (⟨0, initial⟩ :: tempos) segment.offset =
              some segment) := by
  intro segments
  have hordered : segments.Ordered := (ordered_singleton initial).setAll hoffsets
  refine ⟨hordered, hordered.sorted, fun hapart => ?_⟩
  have hlast : ∀ position, lastAt? TempoSegment.offset segments position =
      lastAt? TempoSegment.offset (⟨0, initial⟩ :: tempos) position :=
    lastAt?_setAll (ordered_singleton initial) hoffsets hapart
  have hsorted : (segments.map (·.offset)).Pairwise (· < ·) :=
    List.pairwise_map.mpr hordered.sorted
  have hplaces : (segments.map (·.offset)).toFinset =
      (0 :: tempos.map (·.offset)).toFinset := by
    ext position
    rw [List.mem_toFinset, List.mem_toFinset, ← isSome_lastAt?, hlast, isSome_lastAt?]
    rfl
  constructor
  · rw [← hplaces, (List.toFinset_sort _ (hsorted.imp fun h => h.ne)).mpr
      (hsorted.imp fun h => h.le)]
  · intro segment hsegment
    rw [← hlast]
    exact hordered.lastAt?_of_mem hsegment

theorem lastWins_setAll_backAndForth :
    let tempos : TempoSegments ℚ :=
      [⟨4, 60⟩, ⟨2, 90⟩, ⟨4, 72⟩, ⟨0, 100⟩, ⟨2 + offsetTolerance, 80⟩]
    let segments := setAll [⟨0, 120⟩] tempos
    (∀ tempo ∈ tempos, 0 ≤ tempo.offset) ∧ Apart (0 :: tempos.map (·.offset)) ∧
      segments.map (·.offset) = [0, 2, 2 + offsetTolerance, 4] ∧ ⟨4, 72⟩ ∈ segments := by
  intro tempos segments
  have hoffsets : ∀ tempo ∈ tempos, 0 ≤ tempo.offset := by decide +kernel
  have hapart : Apart (0 :: tempos.map (·.offset)) := by decide +kernel
  have hdistinct : (0 :: tempos.map (·.offset)).toFinset =
      [0, 2, 2 + offsetTolerance, 4].toFinset := by decide +kernel
  have hlastAtFour : lastAt? TempoSegment.offset (⟨0, 120⟩ :: tempos) 4 = some ⟨4, 72⟩ := by
    decide +kernel
  obtain ⟨-, -, hwritten⟩ := lastWins_setAll 120 hoffsets
  obtain ⟨hplaces, hlast⟩ := hwritten hapart
  rw [hdistinct, (List.toFinset_sort _ (by decide +kernel)).mpr (by decide +kernel)] at hplaces
  obtain ⟨segment, hsegment, hfour⟩ : ∃ segment ∈ segments, segment.offset = 4 :=
    List.mem_map.mp (hplaces ▸ by simp)
  have hbpm := hlast segment hsegment
  rw [hfour, hlastAtFour] at hbpm
  exact ⟨hoffsets, hapart, hplaces, Option.some.inj hbpm ▸ hsegment⟩

end TempoSegments

end Rubato
