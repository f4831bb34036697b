import Rubato.Proofs.Tiling

namespace Rubato

namespace GraceRun

theorem longShare_eq (dotted : Bool) :
    (longShare dotted : ℚ) = if dotted then 2 / 3 else 1 / 2 := by
  cases dotted <;> rfl

theorem longLength_share {count : ℕ} (hcount : 0 < count) (mainDuration : ℚ) (dotted : Bool) :
    let share := mainDuration * longShare dotted
    let length := longLength (count : ℚ) mainDuration dotted
    (∃ divisions : ℕ, 0 < divisions ∧ length = divisions ∧ length * count ≤ share ∧
        share < length * count + count) ∨
      (share < count ∧ length * count = share) := by
  intro share length
  have hpositive : (0 : ℚ) < count := Nat.cast_pos.mpr hcount
  have hpart : share / count * count = share := div_mul_cancel₀ _ hpositive.ne'
  have hle : (⌊share / count⌋ : ℚ) * count ≤ share :=
    calc (⌊share / count⌋ : ℚ) * count ≤ share / count * count :=
          mul_le_mul_of_nonneg_right (Int.floor_le _) hpositive.le
      _ = share := hpart
  have hlt : share < (⌊share / count⌋ : ℚ) * count + count :=
    calc share = share / count * count := hpart.symm
      _ < (⌊share / count⌋ + 1) * count :=
          mul_lt_mul_of_pos_right (Int.lt_floor_add_one _) hpositive
      _ = ⌊share / count⌋ * count + count := add_one_mul _ _
  have hfloor : Quantity.floor (share / count) = (⌊share / count⌋ : ℚ) := rfl
  by_cases hwhole : 0 < ⌊share / count⌋
  · have hlength : length = (⌊share / count⌋ : ℚ) :=
      if_pos (hfloor ▸ Int.cast_pos.mpr hwhole)
    obtain ⟨divisions, hdivisions⟩ := Int.eq_ofNat_of_zero_le hwhole.le
    refine .inl ⟨divisions, Int.natCast_pos.mp (hdivisions ▸ hwhole), ?_, ?_, ?_⟩
    · rw [hlength, hdivisions, Int.cast_natCast]
    · rwa [hlength]
    · rwa [hlength]
  · have hlength : length = share / count :=
      if_neg fun h => hwhole (Int.cast_pos.mp (hfloor ▸ h))
    have hnone : (⌊share / count⌋ : ℚ) * count ≤ 0 :=
      mul_nonpos_of_nonpos_of_nonneg (Int.cast_nonpos.mpr (not_lt.mp hwhole)) hpositive.le
    refine .inr ⟨by linarith, ?_⟩
    rw [hlength, hpart]

theorem shortLength_mul {count : ℕ} (hcount : 0 < count) (mainDuration unit : ℚ) :
    shortLength (count : ℚ) mainDuration unit * count = min (mainDuration / 4) (count * unit) := by
  have hpositive : (0 : ℚ) < count := Nat.cast_pos.mpr hcount
  unfold shortLength
  rw [Quantity.lesser_eq_min, div_mul_cancel₀ _ hpositive.ne']
  rfl

theorem isLong_iff (group : List GraceNote) :
    isLong group = true ↔ ∃ grace ∈ group, grace.slashed = false := by
  simp [isLong]

/-- A run plays the notes of its group in their order, one after the other, in equal parts of
the time that it takes. -/
structure Plays (run : GraceRun ℚ) (group : List GraceNote) : Prop where
  notes : run.notes.map (fun note => (note.pitch, note.name)) =
    group.map fun grace => (grace.pitch, grace.name)
  even : ∀ note ∈ run.notes, note.duration = run.stolen / group.length
  tiles : Tiles 0 run.stolen (run.notes.map PlacedGrace.span)

theorem plays_ofGroup {group : List GraceNote} (hgroup : group ≠ []) {mainDuration unit : ℚ}
    (hmain : 0 ≤ mainDuration) (dotted : Bool) (hunit : 0 ≤ unit) :
    (ofGroup group mainDuration dotted unit).Plays group where
  notes := by
    rw [ofGroup_eq hgroup]
    apply List.ext_getElem
    · simp [place]
    · intro index _ _
      simp [place]
  even := by
    intro note hnote
    rw [ofGroup_eq hgroup] at hnote ⊢
    obtain ⟨index, hindex, rfl⟩ := List.mem_mapIdx.mp hnote
    have hpositive : (0 : ℚ) < group.length := Nat.cast_pos.mpr (List.length_pos_of_ne_nil hgroup)
    exact (mul_div_cancel_right₀ _ hpositive.ne').symm
  tiles := (fills_ofGroup group hmain dotted hunit).tiles

/-- A run on the beat takes its share of the note up to a rest that is too small to give each of
its notes one more division, and all of a share that has not one division for each. -/
structure TakesShare (run : GraceRun ℚ) (share : ℚ) : Prop where
  within : run.stolen ≤ share
  whole : (∃ divisions : ℕ, 0 < divisions ∧ (∀ note ∈ run.notes, note.duration = divisions) ∧
      0 ≤ share - run.stolen ∧ share - run.stolen < run.notes.length) ∨
    (share < run.notes.length ∧ run.stolen = share)

theorem takesShare_ofGroup {group : List GraceNote} (hgroup : group ≠ [])
    (hlong : isLong group = true) (mainDuration : ℚ) (dotted : Bool) (unit : ℚ) :
    (ofGroup group mainDuration dotted unit).TakesShare (mainDuration * longShare dotted) := by
  have hcount : (place (noteLength group mainDuration dotted unit) group).length =
      group.length := List.length_mapIdx
  have hlength : noteLength group mainDuration dotted unit =
      longLength (group.length : ℚ) mainDuration dotted := if_pos hlong
  rw [ofGroup_eq hgroup]
  rcases longLength_share (List.length_pos_of_ne_nil hgroup) mainDuration dotted with
    ⟨divisions, hdivisions, hwhole, hle, hlt⟩ | ⟨hless, hall⟩
  · rw [← hlength] at hwhole hle hlt
    refine ⟨hle, .inl ⟨divisions, hdivisions, fun note hnote => ?_, sub_nonneg.mpr hle, ?_⟩⟩
    · obtain ⟨index, hindex, rfl⟩ := List.mem_mapIdx.mp hnote
      exact hwhole
    · rw [hcount]
      exact sub_left_lt_of_lt_add hlt
  · rw [← hlength] at hall
    exact ⟨hall.le, .inr ⟨hcount ▸ hless, hall⟩⟩

theorem stolen_short {group : List GraceNote} (hgroup : group ≠ [])
    (hshort : isLong group = false) (mainDuration : ℚ) (dotted : Bool) (unit : ℚ) :
    (ofGroup group mainDuration dotted unit).stolen =
      min (mainDuration / 4) (group.length * unit) := by
  have hlength : noteLength group mainDuration dotted unit =
      shortLength (group.length : ℚ) mainDuration unit :=
    if_neg (Bool.eq_false_iff.mp hshort)
  rw [ofGroup_eq hgroup, hlength]
  exact shortLength_mul (List.length_pos_of_ne_nil hgroup) mainDuration unit

/-- A run plays its notes in equal parts of what it takes, and takes no more than the note has.
A run of slashed notes takes a unit for each, a quarter of the note at most; one with an
unslashed note is on the beat and takes its share, half of the note or two thirds of a dotted
one. -/
theorem ofGroup_takes {group : List GraceNote} (hgroup : group ≠ []) {mainDuration unit : ℚ}
    (hmain : 0 ≤ mainDuration) (dotted : Bool) (hunit : 0 < unit) :
    let run := ofGroup group mainDuration dotted unit
    run.Plays group ∧ 0 ≤ run.stolen ∧ run.stolen ≤ mainDuration ∧
      (run.onBeat = true ↔ ∃ grace ∈ group, grace.slashed = false) ∧
      ((∀ grace ∈ group, grace.slashed = true) →
        run.stolen = min (mainDuration / 4) (group.length * unit)) ∧
      ((∃ grace ∈ group, grace.slashed = false) →
        run.TakesShare (mainDuration * if dotted then 2 / 3 else 1 / 2)) := by
  have hfits := fits_ofGroup group hmain dotted hunit.le
  refine ⟨plays_ofGroup hgroup hmain dotted hunit.le, hfits.stolen_nonneg, hfits.stolen_le,
    ?_, fun hslashed => ?_, fun hunslashed => ?_⟩
  · rw [ofGroup_eq hgroup]
    exact isLong_iff group
  · refine stolen_short hgroup (Bool.eq_false_iff.mpr fun hlong => ?_) mainDuration dotted unit
    obtain ⟨grace, hgrace, hnot⟩ := (isLong_iff group).mp hlong
    exact Bool.false_ne_true (hnot.symm.trans (hslashed grace hgrace))
  · rw [← longShare_eq]
    exact takesShare_ofGroup hgroup ((isLong_iff group).mpr hunslashed) mainDuration dotted unit

theorem takes_dotted :
    let group : List GraceNote := [⟨62, "D4", true⟩, ⟨64, "E4", false⟩]
    let run := ofGroup group (9 / 2 : ℚ) true 1
    group ≠ [] ∧ (0 : ℚ) ≤ 9 / 2 ∧ (0 : ℚ) < 1 ∧ run.stolen = 2 ∧ run.TakesShare 3 := by
  intro group run
  obtain ⟨_, _, _, _, _, hshare⟩ := @ofGroup_takes group (List.cons_ne_nil _ _) (9 / 2) 1
    (by norm_num) true (by norm_num)
  have htakes := hshare ⟨_, List.mem_cons_of_mem _ List.mem_cons_self, rfl⟩
  norm_num at htakes
  exact ⟨List.cons_ne_nil _ _, by norm_num, by norm_num, by decide +kernel, htakes⟩

end GraceRun

end Rubato
