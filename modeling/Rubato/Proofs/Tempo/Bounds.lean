import Rubato.Proofs.Tempo.Stepping

namespace Rubato

namespace TempoMap

variable {map : TempoMap ℚ} {low high tempo divisions : ℚ} (hlow : 0 < low)
  (hramps : ∀ ramp ∈ map.ramps,
    ramp.startTempo ∈ Set.Icc low high ∧ ramp.endTempo ∈ Set.Icc low high)
  (htempo : tempo ∈ Set.Icc low high) (hdivisions : 0 < divisions)

include hlow hramps htempo hdivisions

theorem stepSeconds_mem (start : ℚ) (step : ℕ) :
    map.stepSeconds start tempo divisions step ∈
      Set.Icc (60 / (high * divisions)) (60 / (low * divisions)) := by
  obtain ⟨hbehind, hbefore⟩ :=
    map.localTempo_mem (convex_Icc low high) hramps (start + step) htempo
  have hpos := hlow.trans_le hbehind
  unfold stepSeconds
  constructor <;> gcongr

theorem seconds_sub_mem (start : ℚ) {count longer : ℚ} (hcount : 0 ≤ count)
    (hlonger : count ≤ longer) :
    map.seconds start longer tempo divisions - map.seconds start count tempo divisions ∈
      Set.Icc ((longer - count) * (60 / (high * divisions)))
        ((longer - count) * (60 / (low * divisions))) := by
  have hpos : 0 < tempo := hlow.trans_le htempo.1
  have hshares : ∑ step ∈ Finset.range ⌈longer⌉₊,
      (stepShare longer step - stepShare count step) = longer - count := by
    rw [Finset.sum_sub_distrib, sum_stepShare (hcount.trans hlonger) (Nat.le_ceil longer),
      sum_stepShare hcount (hlonger.trans (Nat.le_ceil longer))]
  have hmore : ∀ step, 0 ≤ stepShare longer step - stepShare count step :=
    fun step => sub_nonneg.mpr (stepShare_mono hlonger step)
  rw [seconds_eq_sum hpos hdivisions start (le_refl ⌈longer⌉₊),
    seconds_eq_sum hpos hdivisions start (Nat.ceil_mono hlonger), ← Finset.sum_sub_distrib,
    ← hshares, Finset.sum_mul, Finset.sum_mul]
  simp only [← sub_mul]
  have hstep := stepSeconds_mem hlow hramps htempo hdivisions start
  exact ⟨Finset.sum_le_sum fun step _ => mul_le_mul_of_nonneg_left (hstep step).1 (hmore step),
    Finset.sum_le_sum fun step _ => mul_le_mul_of_nonneg_left (hstep step).2 (hmore step)⟩

/-- A stretch takes no less than at the highest tempo and no more than at the lowest one, and a
longer stretch takes more time. -/
theorem seconds_bounded_strictMono (start : ℚ) :
    (∀ count, 0 ≤ count →
      count * 60 / (high * divisions) ≤ map.seconds start count tempo divisions ∧
        map.seconds start count tempo divisions ≤ count * 60 / (low * divisions)) ∧
      StrictMonoOn (fun count => map.seconds start count tempo divisions) (Set.Ici 0) := by
  refine ⟨fun count hcount => ?_, fun count hcount longer _ hlonger => ?_⟩
  · have hbounds := seconds_sub_mem hlow hramps htempo hdivisions start le_rfl hcount
    rwa [seconds_of_nonpos le_rfl, sub_zero, sub_zero, ← mul_div_assoc, ← mul_div_assoc]
      at hbounds
  · have hbounds := seconds_sub_mem hlow hramps htempo hdivisions start hcount hlonger.le
    have hhigh : 0 < high := hlow.trans_le (htempo.1.trans htempo.2)
    have hmore : 0 < (longer - count) * (60 / (high * divisions)) :=
      mul_pos (sub_pos.mpr hlonger) (by positivity)
    exact sub_pos.mp (hmore.trans_le hbounds.1)

end TempoMap

def slowingDown : TempoMap ℚ := ⟨[⟨4, 60⟩], [⟨.ritardando, 0, 4, 120, 60⟩]⟩

theorem seconds_bounded_strictMono_slowingDown :
    2 ≤ slowingDown.seconds 0 4 120 1 ∧ slowingDown.seconds 0 4 120 1 ≤ 4 ∧
      slowingDown.seconds 0 4 120 1 < slowingDown.seconds 0 (9 / 2) 120 1 := by
  have hramps : ∀ ramp ∈ slowingDown.ramps,
      ramp.startTempo ∈ Set.Icc (60 : ℚ) 120 ∧ ramp.endTempo ∈ Set.Icc (60 : ℚ) 120 := by
    norm_num [slowingDown]
  have htempo : (120 : ℚ) ∈ Set.Icc 60 120 := by norm_num
  obtain ⟨hbounds, hmono⟩ :=
    TempoMap.seconds_bounded_strictMono (by norm_num) hramps htempo one_pos 0
  obtain ⟨hlow, hhigh⟩ := hbounds 4 (by norm_num)
  norm_num at hlow hhigh
  exact ⟨hlow, hhigh, hmono (by norm_num) (by norm_num) (by norm_num)⟩

end Rubato
