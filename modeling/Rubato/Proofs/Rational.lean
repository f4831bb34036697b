import Mathlib
import Rubato.Performance.Clock
import Rubato.Score

namespace Rubato

/-! The rational numbers as quantities: every operation is the ordinary one. -/

namespace Quantity

@[simp] theorem lesser_eq_min (a b : ℚ) : lesser a b = min a b := by
  unfold lesser isDefined
  simp only [beq_self_eq_true, if_true]
  split
  · next h => exact (min_eq_right h.le).symm
  · next h => exact (min_eq_left (not_lt.mp h)).symm

@[simp] theorem greater_eq_max (a b : ℚ) : greater a b = max a b := by
  unfold greater isDefined
  simp only [beq_self_eq_true, if_true]
  split
  · next h => exact (max_eq_left h.le).symm
  · next h => exact (max_eq_right (not_lt.mp h)).symm

@[simp] theorem distance_eq_abs (a b : ℚ) : distance a b = |a - b| := by
  unfold distance
  split
  · next h =>
      rw [abs_sub_comm]
      exact (abs_of_pos (sub_pos.mpr h)).symm
  · next h => exact (abs_of_nonneg (sub_nonneg.mpr (not_lt.mp h))).symm

@[simp] theorem total_eq_sum (quantities : List ℚ) : total quantities = quantities.sum := by
  unfold total
  rw [List.sum_eq_foldl]

@[simp] theorem isLE_order (a b : ℚ) : (order a b).isLE = decide (a ≤ b) := by
  simp only [order]
  split
  · next h => simp [h.le]
  · next h =>
      split
      · next heq => simp [heq]
      · next hne => simp [lt_of_le_of_ne (not_lt.mp h) (Ne.symm hne)]

end Quantity

theorem defaultTempo_eq : (defaultTempo : ℚ) = 120 := rfl

theorem offsetTolerance_eq : (offsetTolerance : ℚ) = 1 / 1000000000 := rfl

theorem offsetTolerance_pos : 0 < (offsetTolerance : ℚ) := by
  norm_num [offsetTolerance_eq]

theorem Meter.span_eq (meter : Meter) :
    (meter.span : ℚ) =
      meter.time.beats * (4 / meter.time.beatType) * meter.divisions := rfl

end Rubato
