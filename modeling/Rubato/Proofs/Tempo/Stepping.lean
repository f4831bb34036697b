import Rubato.Proofs.Tempo.Ramp

namespace Rubato

/-! The loop takes one step for each division that a stretch begins. Where no ramp is near,
its steps add up to what the stretch takes at one tempo, so that the time of a stretch is a
sum over divisions in any case. -/

/-- The share of a division, counted from the start of a stretch, that lies in the stretch. -/
def stepShare (count : ℚ) (step : ℕ) : ℚ :=
  max 0 (min 1 (count - step))

section StepShare

variable {count longer : ℚ} {step steps : ℕ}

theorem stepShare_of_lt (h : (step : ℚ) < count) : stepShare count step = min 1 (count - step) :=
  max_eq_right (le_min zero_le_one (sub_pos.mpr h).le)

theorem stepShare_of_le (h : count ≤ step) : stepShare count step = 0 :=
  max_eq_left ((min_le_right _ _).trans (sub_nonpos.mpr h))

theorem stepShare_mono (h : count ≤ longer) (step : ℕ) :
    stepShare count step ≤ stepShare longer step :=
  max_le_max_left 0 (min_le_min_left 1 (sub_le_sub_right h step))

theorem stepShare_add (count : ℚ) (before step : ℕ) :
    stepShare (before + count) (before + step) = stepShare count step := by
  simp [stepShare]

theorem sum_stepShare (hcount : 0 ≤ count) (hsteps : count ≤ steps) :
    ∑ step ∈ Finset.range steps, stepShare count step = count := by
  have hpart : ∀ steps : ℕ, ∑ step ∈ Finset.range steps, stepShare count step =
      min count steps := by
    intro steps
    induction steps with
    | zero => simpa using hcount
    | succ steps ih =>
        rw [Finset.sum_range_succ, ih, stepShare]
        push_cast
        grind
  rw [hpart, min_eq_left hsteps]

theorem sum_steps_of_le (hsteps : ⌈count⌉₊ ≤ steps) (f : ℕ → ℚ) :
    ∑ step ∈ Finset.range ⌈count⌉₊, stepShare count step * f step =
      ∑ step ∈ Finset.range steps, stepShare count step * f step := by
  apply Finset.sum_subset (Finset.range_subset_range.mpr hsteps)
  intro step _ hbehind
  rw [Finset.mem_range, not_lt] at hbehind
  rw [stepShare_of_le (Nat.ceil_le.mp hbehind), zero_mul]

theorem sum_steps_of_constant (hcount : 0 ≤ count) {f : ℕ → ℚ} {rate : ℚ}
    (hf : ∀ step : ℕ, (step : ℚ) < count → f step = rate) :
    ∑ step ∈ Finset.range ⌈count⌉₊, stepShare count step * f step = count * rate := by
  have hrate : ∀ step ∈ Finset.range ⌈count⌉₊, f step = rate :=
    fun step hstep => hf step (Nat.lt_ceil.mp (Finset.mem_range.mp hstep))
  rw [Finset.sum_congr rfl fun step hstep => by rw [hrate step hstep], ← Finset.sum_mul,
    sum_stepShare hcount (Nat.le_ceil count)]

end StepShare

namespace TempoMap

theorem ceil_le_stepLimit (count : ℚ) : ⌈count⌉₊ ≤ stepLimit count := by
  have hunits : ⌊count⌋ ≤ ((Quantity.units count : ℕ) : ℤ) := Int.self_le_toNat _
  have hcast : (⌊count⌋ : ℚ) ≤ (Quantity.units count : ℕ) := by exact_mod_cast hunits
  have hbelow := (Int.lt_floor_add_one count).le
  rw [Nat.ceil_le, stepLimit, Nat.cast_add, Nat.cast_ofNat]
  linarith

variable {map : TempoMap ℚ}

theorem localTempo_of_isSteady {start stop position : ℚ} (h : map.isSteady start stop = true)
    (hstart : start ≤ position) (hstop : position < stop) (base : ℚ) :
    map.localTempo position base = base := by
  have hnone : (map.ramps.find? fun ramp => ramp.contains position) = none := by
    rw [List.find?_eq_none]
    intro ramp hramp hcontains
    simp only [isSteady, Bool.not_eq_true', List.any_eq_false] at h
    apply h ramp hramp
    simp only [Ramp.contains, Ramp.overlaps, Bool.and_eq_true, decide_eq_true_iff]
      at hcontains ⊢
    exact ⟨hcontains.1.trans_lt hstop, hstart.trans_lt hcontains.2⟩
  rw [localTempo, hnone]
  rfl

/-- The loop from a position to `stop`, with the steps that it takes and the seconds that it
ends with. -/
inductive Stepping (map : TempoMap ℚ) (stop tempo divisions : ℚ) : ℕ → ℚ → ℚ → ℚ → Prop
  | reached {position : ℚ} (elapsed : ℚ) (hposition : stop ≤ position) :
      Stepping map stop tempo divisions 0 position elapsed elapsed
  | step {steps : ℕ} {position elapsed total : ℚ} (hposition : position < stop)
      (hrest : Stepping map stop tempo divisions steps (position + min (stop - position) 1)
        (elapsed + steadySeconds (min (stop - position) 1) (map.localTempo position tempo)
          divisions) total) :
      Stepping map stop tempo divisions (steps + 1) position elapsed total

namespace Stepping

variable {stop tempo divisions position elapsed total other : ℚ} {steps more limit : ℕ}

theorem unique (h : map.Stepping stop tempo divisions steps position elapsed total)
    (hother : map.Stepping stop tempo divisions more position elapsed other) :
    steps = more ∧ total = other := by
  induction h generalizing more with
  | reached elapsed hposition =>
      cases hother with
      | reached => exact ⟨rfl, rfl⟩
      | step hbefore => exact absurd hposition (not_le.mpr hbefore)
  | step hposition _ ih =>
      cases hother with
      | reached _ hbehind => exact absurd hbehind (not_le.mpr hposition)
      | step _ hrest =>
          obtain ⟨hsteps, htotal⟩ := ih hrest
          exact ⟨congrArg (· + 1) hsteps, htotal⟩

theorem steppedSeconds_eq (h : map.Stepping stop tempo divisions steps position elapsed total)
    (hlimit : steps ≤ limit) :
    map.steppedSeconds stop tempo divisions limit position elapsed = total := by
  induction h generalizing limit with
  | reached elapsed hposition =>
      cases limit with
      | zero => rfl
      | succ limit => exact if_neg (not_lt.mpr hposition)
  | step hposition _ ih =>
      cases limit with
      | zero => exact absurd hlimit (Nat.not_succ_le_zero _)
      | succ limit =>
          rw [steppedSeconds, if_pos hposition]
          simp only [Quantity.lesser_eq_min]
          exact ih (Nat.succ_le_succ_iff.mp hlimit)

end Stepping

def stepSeconds (map : TempoMap ℚ) (start tempo divisions : ℚ) (step : ℕ) : ℚ :=
  60 / (map.localTempo (start + step) tempo * divisions)

theorem stepSeconds_add (start tempo divisions : ℚ) (before step : ℕ) :
    map.stepSeconds start tempo divisions (before + step) =
      map.stepSeconds (start + before) tempo divisions step := by
  simp [stepSeconds, add_assoc]

theorem share_mul_stepSeconds_zero {count : ℚ} (hcount : 0 < count)
    (start tempo divisions : ℚ) :
    stepShare count 0 * map.stepSeconds start tempo divisions 0 =
      steadySeconds (min count 1) (map.localTempo start tempo) divisions := by
  rw [stepShare_of_lt (by exact_mod_cast hcount), stepSeconds, steadySeconds]
  simp [min_comm, mul_div_assoc]

theorem share_mul_stepSeconds_succ (count start tempo divisions : ℚ) (step : ℕ) :
    stepShare count (step + 1) * map.stepSeconds start tempo divisions (step + 1) =
      stepShare (count - 1) step * map.stepSeconds (start + 1) tempo divisions step := by
  have hshare := stepShare_add (count - 1) 1 step
  have hseconds := map.stepSeconds_add start tempo divisions 1 step
  rw [Nat.cast_one, add_sub_cancel] at hshare
  rw [Nat.cast_one] at hseconds
  rw [add_comm step, hshare, hseconds]

theorem stepping_stretch (start count tempo divisions elapsed : ℚ) :
    map.Stepping (start + count) tempo divisions ⌈count⌉₊ start elapsed
      (elapsed + ∑ step ∈ Finset.range ⌈count⌉₊,
        stepShare count step * map.stepSeconds start tempo divisions step) := by
  generalize hsteps : ⌈count⌉₊ = steps
  induction steps generalizing start count elapsed with
  | zero =>
      have hnone : start + count ≤ start :=
        add_le_of_nonpos_right (Nat.ceil_eq_zero.mp hsteps)
      simpa using Stepping.reached elapsed hnone
  | succ steps ih =>
      have hcount : 0 < count := Nat.ceil_pos.mp (hsteps ▸ steps.succ_pos)
      have hleft : ⌈count - 1⌉₊ = steps := by
        rw [Nat.ceil_sub_one, hsteps, Nat.add_sub_cancel]
      refine .step (lt_add_of_pos_right start hcount) ?_
      rw [add_sub_cancel_left, Finset.sum_range_succ', share_mul_stepSeconds_zero hcount,
        add_comm (Finset.sum _ _), ← add_assoc,
        Finset.sum_congr rfl fun step _ => share_mul_stepSeconds_succ count start _ _ step]
      rcases le_or_gt count 1 with hlast | hwhole
      · -- The step is the last one: it goes to the end of the stretch.
        have hnone : steps = 0 := by
          rw [← hleft, Nat.ceil_eq_zero]
          linarith
        subst hnone
        rw [min_eq_left hlast]
        simpa using Stepping.reached _ (le_refl (start + count))
      · rw [min_eq_right hwhole.le]
        have hrest := ih (start + 1) (count - 1)
          (elapsed + steadySeconds 1 (map.localTempo start tempo) divisions) hleft
        rwa [add_add_sub_cancel] at hrest

section Sum

variable {count tempo divisions : ℚ} (htempo : 0 < tempo) (hdivisions : 0 < divisions)

include htempo hdivisions

/-- The time of a stretch is a sum over divisions, whether or not a ramp is near. -/
theorem seconds_eq_sum (start : ℚ) {steps : ℕ} (hsteps : ⌈count⌉₊ ≤ steps) :
    map.seconds start count tempo divisions = ∑ step ∈ Finset.range steps,
      stepShare count step * map.stepSeconds start tempo divisions step := by
  rw [← sum_steps_of_le hsteps]
  rcases le_or_gt count 0 with hnone | hcount
  · rw [seconds_of_nonpos hnone, Nat.ceil_eq_zero.mpr hnone, Finset.sum_range_zero]
  · rw [seconds_of_pos hcount htempo hdivisions]
    split
    · next hsteady =>
        have hone : ∀ step : ℕ, (step : ℚ) < count →
            map.stepSeconds start tempo divisions step = 60 / (tempo * divisions) := by
          intro step hinside
          rw [stepSeconds, localTempo_of_isSteady hsteady
            (le_add_of_nonneg_right step.cast_nonneg) (add_lt_add_right hinside start)]
        rw [sum_steps_of_constant hcount.le hone, ← mul_div_assoc]
        rfl
    · rw [(stepping_stretch start count tempo divisions 0).steppedSeconds_eq
        (ceil_le_stepLimit count), zero_add]

theorem seconds_add (start : ℚ) (before : ℕ) (hcount : 0 ≤ count) :
    map.seconds start (before + count) tempo divisions =
      map.seconds start before tempo divisions +
        map.seconds (start + before) count tempo divisions := by
  have hwhole : ∀ step ∈ Finset.range before, stepShare (before + count) step =
      stepShare before step := by
    intro step hstep
    have hinside : (step : ℚ) + 1 ≤ before := by exact_mod_cast Finset.mem_range.mp hstep
    unfold stepShare
    grind
  have hsteps : ⌈(before : ℚ) + count⌉₊ ≤ before + ⌈count⌉₊ := by
    rw [Nat.ceil_le, Nat.cast_add]
    exact add_le_add_right (Nat.le_ceil count) _
  rw [seconds_eq_sum htempo hdivisions start (Nat.ceil_natCast before).le,
    seconds_eq_sum htempo hdivisions (start + before) (le_refl ⌈count⌉₊),
    seconds_eq_sum htempo hdivisions start hsteps, Finset.sum_range_add]
  congr 1
  · exact Finset.sum_congr rfl fun step hstep => by rw [hwhole step hstep]
  · simp only [stepShare_add, stepSeconds_add]

end Sum

namespace WellFormed

variable (hmap : map.WellFormed)

include hmap

theorem stepSeconds_pos {tempo divisions : ℚ} (htempo : 0 < tempo) (hdivisions : 0 < divisions)
    (start : ℚ) (step : ℕ) : 0 < map.stepSeconds start tempo divisions step :=
  div_pos (by norm_num) (mul_pos (hmap.localTempo_pos _ htempo) hdivisions)

theorem seconds_mono (start : ℚ) {count longer tempo divisions : ℚ} (h : count ≤ longer) :
    map.seconds start count tempo divisions ≤ map.seconds start longer tempo divisions := by
  by_cases hpositive : 0 < tempo ∧ 0 < divisions
  · obtain ⟨htempo, hdivisions⟩ := hpositive
    rw [seconds_eq_sum htempo hdivisions start (Nat.ceil_mono h),
      seconds_eq_sum htempo hdivisions start (le_refl ⌈longer⌉₊)]
    apply Finset.sum_le_sum
    intro step _
    exact mul_le_mul_of_nonneg_right (stepShare_mono h step)
      (hmap.stepSeconds_pos htempo hdivisions start step).le
  · rw [not_and_or, not_lt, not_lt] at hpositive
    unfold seconds
    rw [if_pos (.inr hpositive), if_pos (.inr hpositive)]

end WellFormed

/-- Whatever its ramps are like, a map gives a stretch the sum over the divisions that it begins,
each at the tempo found at its start and the last one with what is left for it. The loop over
them ends after as many steps, with this sum, and its limit does not cut it. -/
theorem seconds_in_steps (map : TempoMap ℚ) (start count : ℚ) {tempo divisions : ℚ}
    (htempo : 0 < tempo) (hdivisions : 0 < divisions) :
    map.seconds start count tempo divisions =
        ∑ step ∈ Finset.range ⌈count⌉₊,
          min 1 (count - step) * 60 / (map.localTempo (start + step) tempo * divisions) ∧
      (∀ steps total, map.Stepping (start + count) tempo divisions steps start 0 total ↔
        steps = ⌈count⌉₊ ∧ total = map.seconds start count tempo divisions) ∧
      ⌈count⌉₊ ≤ stepLimit count ∧
      ∀ limit ≥ ⌈count⌉₊, map.steppedSeconds (start + count) tempo divisions limit start 0 =
        map.seconds start count tempo divisions := by
  have hsum := map.seconds_eq_sum htempo hdivisions start (le_refl ⌈count⌉₊)
  have hloop := map.stepping_stretch start count tempo divisions 0
  rw [zero_add, ← hsum] at hloop
  refine ⟨?_, fun steps total => ⟨fun h => h.unique hloop, ?_⟩, ceil_le_stepLimit count,
    fun limit => hloop.steppedSeconds_eq⟩
  · rw [hsum]
    apply Finset.sum_congr rfl
    intro step hstep
    rw [stepShare_of_lt (Nat.lt_ceil.mp (Finset.mem_range.mp hstep)), stepSeconds, mul_div_assoc]
  · rintro ⟨rfl, rfl⟩
    exact hloop

end TempoMap

def overlappingRamps : TempoMap ℚ :=
  ⟨[], [⟨.ritardando, 3, 1, 120, 60⟩, ⟨.ritardando, 1, 4, 120, 60⟩,
    ⟨.accelerando, 0, 6, 60, 90⟩]⟩

theorem seconds_in_steps_overlappingRamps :
    overlappingRamps.isSteady 0 (0 + 5 / 2) = false ∧
      overlappingRamps.seconds 0 (5 / 2) 120 1 = 60 / 60 + 60 / 120 + 1 / 2 * (60 / 100) ∧
      overlappingRamps.Stepping (0 + 5 / 2) 120 1 3 0 0 (9 / 5) := by
  have hthree : ⌈(5 / 2 : ℚ)⌉₊ = 3 := by norm_num [Nat.ceil_eq_iff]
  obtain ⟨hsum, hloop, _⟩ :=
    overlappingRamps.seconds_in_steps 0 (5 / 2) (show (0 : ℚ) < 120 by norm_num) one_pos
  have hseconds : overlappingRamps.seconds 0 (5 / 2) 120 1 = 9 / 5 := by
    rw [hsum, hthree]
    decide +kernel
  refine ⟨by decide +kernel, hseconds.trans (by norm_num), (hloop 3 (9 / 5)).mpr ⟨hthree.symm, ?_⟩⟩
  exact hseconds.symm

end Rubato
