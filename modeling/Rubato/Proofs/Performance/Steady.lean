import Rubato.Proofs.Performance.Following
import Rubato.Proofs.Performance.Spans

namespace Rubato

def Stretch.seconds (divisions : ℚ) (piece : Stretch ℚ) : ℚ :=
  (piece.stop - piece.start) * 60 / (piece.bpm * divisions)

namespace TempoMap

variable (map : TempoMap ℚ)

/-- The start of a stretch and every event inside it, each position once. -/
def cuts (start stop : ℚ) : List ℚ :=
  start :: ((map.events.map (·.position)).filter fun position =>
    start < position ∧ position < stop).dedup

/-- The pieces between cuts, each with the tempo in force at its start. -/
def piecesFrom (stop : ℚ) : List ℚ → List (Stretch ℚ)
  | [] => []
  | cut :: rest => ⟨cut, rest.headD stop, map.tempoAt cut⟩ :: piecesFrom stop rest

/-- Seconds of a measure that starts at a position, by the tempos of the map alone. -/
def writtenSeconds (start : ℚ) (meter : Meter) : ℚ :=
  ((map.piecesFrom (start + meter.span) (map.cuts start (start + meter.span))).map
    (Stretch.seconds meter.divisions)).sum

end TempoMap

/-- A clock that runs without ramps: its tempos and its divisions are positive. -/
structure Clock.Steady (clock : Clock ℚ) : Prop where
  no_ramps : clock.map.ramps = []
  divisions_pos : 0 < clock.divisions
  segments : clock.segments.WellFormed

theorem Clock.Steady.secondsIn_eq {clock : Clock ℚ} (hclock : clock.Steady)
    {segment : TempoSegment ℚ} (hsegment : segment ∈ clock.segments) {start stop : ℚ}
    (h : start < stop) :
    clock.secondsIn segment start stop =
      (Stretch.mk start stop segment.bpm).seconds clock.divisions :=
  TempoMap.seconds_of_isSteady (sub_pos.mpr h) (hclock.segments.positive segment hsegment)
    (Nat.cast_pos.mpr hclock.divisions_pos) (TempoMap.isSteady_of_no_ramps hclock.no_ramps _ _)

private theorem headD_cuts {start span : ℚ} {rest : TempoSegments ℚ}
    (hsorted : rest.Pairwise fun first second => first.offset < second.offset) :
    ((rest.filter fun segment => segment.offset < span).map
        fun segment => start + segment.offset).headD (start + span) =
      start + Stretch.endBefore span rest := by
  rw [Stretch.endBefore_eq]
  cases rest with
  | nil => rfl
  | cons next others =>
      rw [List.pairwise_cons] at hsorted
      by_cases hinside : next.offset < span
      · simp [hinside, min_eq_right hinside.le]
      · have hbehind : (next :: others).filter (fun segment => segment.offset < span) = [] := by
          rw [List.filter_eq_nil_iff]
          intro other hother
          rcases List.mem_cons.mp hother with rfl | hlater
          · simpa using hinside
          · simpa using (not_lt.mp hinside).trans (hsorted.1 other hlater).le
        simp [hbehind, min_eq_left (not_lt.mp hinside)]

theorem Clock.Steady.laterSeconds_eq {clock : Clock ℚ} (hclock : clock.Steady)
    (map : TempoMap ℚ) {start span : ℚ} {segments : TempoSegments ℚ}
    (hsegments : ∀ segment ∈ segments, segment ∈ clock.segments)
    (hsorted : segments.Pairwise fun first second => first.offset < second.offset)
    (htempo : ∀ segment ∈ segments, segment.offset < span →
      segment.bpm = map.tempoAt (start + segment.offset)) :
    clock.laterSeconds 0 span segments =
      ((map.piecesFrom (start + span)
        ((segments.filter fun segment => segment.offset < span).map
          fun segment => start + segment.offset)).map (Stretch.seconds clock.divisions)).sum := by
  induction segments with
  | nil => rfl
  | cons segment rest ih =>
      rw [List.pairwise_cons] at hsorted
      have hsegment := hsegments segment List.mem_cons_self
      have hrest := ih
        (fun other hother => hsegments other (List.mem_cons_of_mem segment hother)) hsorted.2
        (fun other hother => htempo other (List.mem_cons_of_mem segment hother))
      rw [laterSeconds, max_eq_right (hclock.segments.offset_nonneg hsegment), hrest]
      by_cases hinside : segment.offset < span
      · have hpiece : segment.offset < Stretch.endBefore span rest := by
          rw [Stretch.endBefore_eq]
          cases rest with
          | nil => exact hinside
          | cons next others => exact lt_min hinside (hsorted.1 next List.mem_cons_self)
        rw [hclock.secondsIn_eq hsegment hpiece, List.filter_cons_of_pos (by simpa using hinside),
          List.map_cons, TempoMap.piecesFrom, List.map_cons, List.sum_cons, headD_cuts hsorted.2,
          ← htempo segment List.mem_cons_self hinside]
        simp only [Stretch.seconds, add_sub_add_left_eq_sub]
      · have hpiece : Stretch.endBefore span rest ≤ segment.offset :=
          (Stretch.endBefore_le span rest).trans (not_lt.mp hinside)
        rw [secondsIn_of_le hpiece, List.filter_cons_of_neg (by simpa using hinside), zero_add]

namespace TempoSegments.Follows

variable {segments : TempoSegments ℚ} {map : TempoMap ℚ} {start span : ℚ}

theorem bpm_eq (hfollows : segments.Follows map start span) {segment : TempoSegment ℚ}
    (h : segment ∈ segments) (hspan : segment.offset < span) :
    segment.bpm = map.tempoAt (start + segment.offset) := by
  have hordered := hfollows.wellFormed.sorted.imp fun {first second} h => le_of_lt h
  have htempo := hfollows.tempoAt? segment.offset (hfollows.wellFormed.offset_nonneg h) hspan
  rw [TempoSegments.tempoAt?, lastUpTo?_eq_lastAt? hordered ⟨segment, h, rfl⟩ le_rfl
    fun other _ hle => hle, hfollows.wellFormed.ordered.lastAt?_of_mem h] at htempo
  exact Option.some.inj htempo

theorem cuts_eq (hfollows : segments.Follows map start span) (hsorted : map.Sorted)
    (hspan : 0 < span) :
    (segments.filter fun segment => segment.offset < span).map
        (fun segment => start + segment.offset) =
      map.cuts start (start + span) := by
  have hkept : ((segments.filter fun segment => segment.offset < span).map
      fun segment => start + segment.offset).Pairwise (· < ·) := by
    rw [List.pairwise_map]
    exact (hfollows.wellFormed.sorted.filter _).imp fun {first second} h => by linarith
  have hcuts : (map.cuts start (start + span)).Pairwise (· < ·) := by
    refine List.pairwise_cons.mpr ⟨?_, ?_⟩
    · intro position hposition
      rw [List.mem_dedup, List.mem_filter, decide_eq_true_eq] at hposition
      exact hposition.2.1
    · have hevents : (map.events.map (·.position)).Pairwise (· ≤ ·) :=
        List.pairwise_map.mpr hsorted
      have hordered := (hevents.filter fun position =>
        start < position ∧ position < start + span).sublist (List.dedup_sublist _)
      exact (hordered.and (List.nodup_dedup _)).imp fun h => lt_of_le_of_ne h.1 h.2
  apply hkept.eq_of_mem_iff hcuts
  intro position
  simp only [TempoMap.cuts, List.mem_map, List.mem_filter, List.mem_cons, List.mem_dedup,
    decide_eq_true_eq]
  constructor
  · rintro ⟨segment, ⟨hsegment, hinside⟩, rfl⟩
    rcases hfollows.offset_mem segment hsegment with hzero | ⟨event, hevent, hplace⟩
    · exact .inl (by rw [hzero, add_zero])
    · rcases (hfollows.wellFormed.offset_nonneg hsegment).eq_or_lt with hzero | hpositive
      · exact .inl (by rw [← hzero, add_zero])
      · exact .inr ⟨⟨event, hevent, hplace⟩, by linarith, by linarith⟩
  · rintro (rfl | ⟨⟨event, hevent, rfl⟩, hbehind, hbefore⟩)
    · obtain ⟨head, hhead, hzero⟩ := hfollows.wellFormed.exists_first
      exact ⟨head, ⟨hhead, by rwa [hzero]⟩, by rw [hzero, add_zero]⟩
    · obtain ⟨segment, hsegment, hplace⟩ := hfollows.event_mem event hevent hbehind hbefore
      exact ⟨segment, ⟨hsegment, by linarith⟩, hplace⟩

end TempoSegments.Follows

theorem Clock.Steady.spanSeconds_of_follows {clock : Clock ℚ} (hclock : clock.Steady)
    {map : TempoMap ℚ} (hsorted : map.Sorted) {start : ℚ} {meter : Meter}
    (hmeter : meter.WellFormed) (hdivisions : clock.divisions = meter.divisions)
    (hfollows : clock.segments.Follows map start meter.span) :
    clock.spanSeconds 0 meter.span = map.writtenSeconds start meter := by
  rw [clock.spanSeconds_eq, zero_add, Clock.stretchSeconds_of_nonneg hclock.segments le_rfl,
    hclock.laterSeconds_eq map (fun _ h => h) hclock.segments.sorted
      (fun segment hsegment => hfollows.bpm_eq hsegment),
    hfollows.cuts_eq hsorted hmeter.span_pos, hdivisions]
  rfl

end Rubato
