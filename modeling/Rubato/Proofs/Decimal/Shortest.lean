import Rubato.Decimal.Shortest
import Rubato.Proofs.Decimal.Double

namespace Rubato.Decimal

theorem ten_pow_toNat (power : Int) :
    (10 : ℚ) ^ power.toNat = 10 ^ power * 10 ^ (-power).toNat := by
  rw [← zpow_natCast, ← zpow_natCast, ← zpow_add₀ (by norm_num)]
  congr 1
  omega

namespace Rounding

variable {significand : Nat} {exponent : Int}

theorem denominator_pos : 0 < (ofBinary significand exponent).denominator := by
  show 0 < 1 <<< (2 - exponent).toNat
  rw [Nat.shiftLeft_eq, one_mul]
  positivity

theorem shiftLeft_div (units : Nat) :
    ((units <<< (exponent - 2).toNat : Nat) : ℚ) / (ofBinary significand exponent).denominator =
      units * 2 ^ (exponent - 2) := by
  show ((units <<< (exponent - 2).toNat : Nat) : ℚ) / (1 <<< (2 - exponent).toNat : Nat) = _
  rw [Nat.shiftLeft_eq, Nat.shiftLeft_eq, one_mul]
  push_cast
  rw [mul_div_assoc]
  congr 1
  rw [← zpow_natCast, ← zpow_natCast, ← zpow_sub₀ (by norm_num)]
  congr 1
  omega

theorem compareTo_eq (rounding : Rounding) (hpos : 0 < rounding.denominator) (digits : Nat)
    (power : Int) (numerator : Nat) :
    rounding.compareTo digits power numerator =
      compare (decimalValue digits power) ((numerator : ℚ) / rounding.denominator) := by
  have hscale : (0 : ℚ) < rounding.denominator * tenTo (-power).toNat := by
    rw [cast_tenTo]
    have : (0 : ℚ) < rounding.denominator := by exact_mod_cast hpos
    positivity
  have hleft : ((digits * rounding.denominator * tenTo power.toNat : Nat) : ℚ) =
      decimalValue digits power * (rounding.denominator * tenTo (-power).toNat) := by
    push_cast [cast_tenTo, decimalValue]
    rw [ten_pow_toNat power]
    ring
  have hright : ((numerator * tenTo (-power).toNat : Nat) : ℚ) =
      (numerator : ℚ) / rounding.denominator *
        (rounding.denominator * tenTo (-power).toNat) := by
    push_cast
    field_simp
  have hlt : ∀ a b : ℚ, a * (rounding.denominator * tenTo (-power).toNat) <
      b * (rounding.denominator * tenTo (-power).toNat) ↔ a < b := fun a b =>
    mul_lt_mul_iff_left₀ hscale
  unfold compareTo
  rcases lt_trichotomy (decimalValue digits power) (numerator / rounding.denominator) with
    h | h | h
  · rw [compare_lt_iff_lt.mpr h, compare_lt_iff_lt, ← Nat.cast_lt (α := ℚ), hleft, hright, hlt]
    exact h
  · rw [compare_eq_iff_eq.mpr h, compare_eq_iff_eq, ← Nat.cast_inj (R := ℚ), hleft, hright, h]
  · rw [compare_gt_iff_gt.mpr h, compare_gt_iff_gt, ← Nat.cast_lt (α := ℚ), hleft,
      hright, hlt]
    exact h

theorem of_holds {rounding : Rounding} (hpos : 0 < rounding.denominator) {digits : Nat}
    {power : Int} (h : rounding.holds digits power = true) :
    (rounding.low : ℚ) / rounding.denominator ≤ decimalValue digits power ∧
      (rounding.closed = false →
        (rounding.low : ℚ) / rounding.denominator < decimalValue digits power) ∧
      decimalValue digits power ≤ (rounding.high : ℚ) / rounding.denominator := by
  unfold holds at h
  dsimp only at h
  rw [compareTo_eq rounding hpos, compareTo_eq rounding hpos] at h
  split at h
  · next hclosed =>
      rw [Bool.and_eq_true, Ordering.isGE_iff_ne_lt, Ordering.isLE_iff_ne_gt,
        compare_lt_iff_lt, compare_gt_iff_gt, not_lt, not_lt] at h
      exact ⟨h.1, fun hopen => absurd hclosed (by simp [hopen]), h.2⟩
  · rw [Bool.and_eq_true, Ordering.isGT_iff_eq_gt, Ordering.isLT_iff_eq_lt,
      compare_gt_iff_gt, compare_lt_iff_lt] at h
    exact ⟨h.1.le, fun _ => h.1, h.2.le⟩

theorem holds_of_onGrid? {rounding : Rounding} {power : Int} {digits : Nat}
    (h : rounding.onGrid? power = some digits) : rounding.holds digits power = true := by
  unfold onGrid? at h
  dsimp only at h
  split at h
  · cases h
  · next hlower _ => cases h; exact hlower
  · next _ hupper => cases h; exact hupper
  · next hlower hupper =>
      split at h
      · cases h; exact hlower
      · cases h; exact hupper

theorem decimalValue_below (rounding : Rounding) (hpos : 0 < rounding.denominator)
    (power : Int) :
    decimalValue (rounding.below power) power ≤ (rounding.value : ℚ) / rounding.denominator ∧
      (rounding.value : ℚ) / rounding.denominator <
        decimalValue (rounding.below power) power + 10 ^ power := by
  have hdenominator : (0 : ℚ) < rounding.denominator := by exact_mod_cast hpos
  have hsteps : ((rounding.value * tenTo (-power).toNat : Nat) : ℚ) /
      (rounding.denominator * tenTo power.toNat : Nat) =
        (rounding.value : ℚ) / rounding.denominator / 10 ^ power := by
    push_cast [cast_tenTo]
    rw [ten_pow_toNat power]
    field_simp
  have hfloor : rounding.below power =
      ⌊(rounding.value : ℚ) / rounding.denominator / 10 ^ power⌋₊ := by
    rw [← hsteps, Nat.floor_div_eq_div]
    rfl
  have hpower : (0 : ℚ) < 10 ^ power := by positivity
  unfold decimalValue
  constructor
  · rw [← le_div_iff₀ hpower, hfloor]
    exact Nat.floor_le (by positivity)
  · rw [← add_one_mul, ← div_lt_iff₀ hpower, hfloor]
    exact Nat.lt_floor_add_one _

theorem search_induction {rounding : Rounding} {power : Int} {P : Nat → Int → Prop}
    (hholds : ∀ digits exponent, rounding.holds digits exponent = true → P digits exponent)
    (hbelow : P (rounding.below (power - 17)) (power - 17)) (tries count : Nat)
    (hcount : tries + count = 18) :
    P (rounding.search power tries count).1 (rounding.search power tries count).2 := by
  induction tries generalizing count with
  | zero =>
      rw [search]
      have : power + 1 - (count : Int) = power - 17 := by omega
      rw [this]
      exact hbelow
  | succ tries ih =>
      rw [search]
      split
      · next digits hdigits => exact hholds _ _ (holds_of_onGrid? hdigits)
      · exact ih (count + 1) (by omega)

end Rounding

theorem digitCount_eq {value : Nat} (hpos : 0 < value) :
    digitCount value = (Nat.toDigits 10 value).length :=
  if_neg hpos.ne'

theorem lt_pow_digitCount {value : Nat} (hpos : 0 < value) : value < 10 ^ digitCount value := by
  rw [digitCount_eq hpos]
  exact (Nat.length_toDigits_le_iff (by norm_num) Nat.length_toDigits_pos).mp le_rfl

theorem pow_digitCount_le {value : Nat} (hpos : 0 < value) :
    10 ^ (digitCount value - 1) ≤ value := by
  rw [digitCount_eq hpos]
  rcases Nat.eq_zero_or_pos ((Nat.toDigits 10 value).length - 1) with hzero | hlength
  · rw [hzero]
    exact hpos
  · refine Nat.le_of_not_lt fun hlt => ?_
    have := (Nat.length_toDigits_le_iff (by norm_num) hlength).mpr hlt
    omega

theorem le_pow_digitCount_mul {numerator denominator : Nat} (hnumerator : 0 < numerator)
    (hlt : numerator < denominator) :
    denominator ≤
      10 ^ digitCount ((denominator + numerator - 1) / numerator - 1) * numerator := by
  generalize hceiling : (denominator + numerator - 1) / numerator = ceiling
  have hupper : denominator ≤ ceiling * numerator := by
    have hdivided := Nat.div_add_mod (denominator + numerator - 1) numerator
    have := Nat.mod_lt (denominator + numerator - 1) hnumerator
    rw [hceiling, Nat.mul_comm] at hdivided
    omega
  have hlarge : 0 < ceiling - 1 := by
    rcases Nat.lt_or_ge 1 ceiling with h | h
    · omega
    · have : ceiling * numerator ≤ 1 * numerator := Nat.mul_le_mul_right _ h
      omega
  have hcount : ceiling ≤ 10 ^ digitCount (ceiling - 1) := by
    have := lt_pow_digitCount hlarge
    omega
  exact hupper.trans (Nat.mul_le_mul_right _ hcount)

theorem decimalPower_le {numerator denominator : Nat} (hnumerator : 0 < numerator)
    (hdenominator : 0 < denominator) :
    (10 : ℚ) ^ decimalPower numerator denominator ≤ (numerator : ℚ) / denominator := by
  have hcast : (0 : ℚ) < denominator := by exact_mod_cast hdenominator
  unfold decimalPower
  split
  · next hge =>
      have hpos : 0 < numerator / denominator := Nat.div_pos hge hdenominator
      have hcount : 0 < digitCount (numerator / denominator) := by
        rw [digitCount_eq hpos]
        exact Nat.length_toDigits_pos
      calc (10 : ℚ) ^ ((digitCount (numerator / denominator) : Int) - 1)
          = ((10 ^ (digitCount (numerator / denominator) - 1) : Nat) : ℚ) := by
            push_cast
            rw [← zpow_natCast]
            congr 1
            omega
        _ ≤ ((numerator / denominator : Nat) : ℚ) := by
            exact_mod_cast pow_digitCount_le hpos
        _ ≤ (numerator : ℚ) / denominator := Nat.cast_div_le
  · next hlt =>
      rw [le_div_iff₀ hcast, zpow_neg, zpow_natCast, inv_mul_le_iff₀ (by positivity)]
      exact_mod_cast le_pow_digitCount_mul hnumerator (Nat.lt_of_not_le hlt)

theorem decimalValue_dropZeros (tries : Nat) (number : Nat × Int) :
    decimalValue (dropZeros tries number).1 (dropZeros tries number).2 =
      decimalValue number.1 number.2 := by
  induction tries generalizing number with
  | zero => rfl
  | succ tries ih =>
      obtain ⟨digits, exponent⟩ := number
      rw [dropZeros]
      split
      · next hzero =>
          rw [ih]
          obtain ⟨tens, rfl⟩ : ∃ tens, digits = 10 * tens := ⟨digits / 10, by omega⟩
          rw [Nat.mul_div_cancel_left _ (by norm_num)]
          unfold decimalValue
          rw [zpow_add_one₀ (by norm_num)]
          push_cast
          ring
      · rfl

theorem two_pow_le_greatestDouble : (2 : ℚ) ^ (53 : Int) ≤ greatestDouble := by
  calc (2 : ℚ) ^ (53 : Int) ≤ 2 ^ (971 : Int) :=
        zpow_le_zpow_right₀ (by norm_num) (by norm_num)
    _ ≤ (2 ^ 53 - 1) * 2 ^ (971 : Int) := le_mul_of_one_le_left (by positivity) (by norm_num)

theorem leastHalf_le_units (units : Nat) {exponent : Int} (hunits : 2 ≤ units)
    (hleast : -1074 ≤ exponent) : leastHalf ≤ (units : ℚ) * 2 ^ (exponent - 2) := by
  calc (2 : ℚ) ^ (-1075 : Int) = 2 * 2 ^ (-1076 : Int) := by
        rw [← zpow_one_add₀ (by norm_num)]
        norm_num
    _ ≤ (units : ℚ) * 2 ^ (exponent - 2) := by
        gcongr
        · exact_mod_cast hunits
        · norm_num
        · omega

theorem units_le_greatestDouble {units : Nat} {exponent : Int} (hunits : units ≤ 2 ^ 55)
    (hexponent : exponent < 0) : (units : ℚ) * 2 ^ (exponent - 2) ≤ greatestDouble := by
  calc (units : ℚ) * 2 ^ (exponent - 2) ≤ 2 ^ (55 : Int) * 2 ^ (-2 : Int) := by
        gcongr
        · exact_mod_cast hunits
        · norm_num
        · omega
    _ = 2 ^ (53 : Int) := by rw [← zpow_add₀ (by norm_num)]; norm_num
    _ ≤ greatestDouble := two_pow_le_greatestDouble

section Shortest

variable {significand : Nat} {exponent : Int} (hpos : 0 < significand)
  (hsignificand : significand < 2 ^ 53) (hleast : -1074 ≤ exponent) (hexponent : exponent < 0)

include hpos hsignificand hleast hexponent

theorem bounds_of_holds {digits : Nat} {power : Int}
    (h : (Rounding.ofBinary significand exponent).holds digits power = true) :
    leastHalf < decimalValue digits power ∧ decimalValue digits power ≤ greatestDouble := by
  obtain ⟨hlow, hopen, hhigh⟩ := Rounding.of_holds Rounding.denominator_pos h
  have hlowest : ((Rounding.ofBinary significand exponent).low : ℚ) /
      (Rounding.ofBinary significand exponent).denominator =
        ((4 * significand -
          if significand = leadingBit ∧ -1074 < exponent then 1 else 2 : Nat) : ℚ) *
            2 ^ (exponent - 2) := Rounding.shiftLeft_div _
  have hhighest : ((Rounding.ofBinary significand exponent).high : ℚ) /
      (Rounding.ofBinary significand exponent).denominator =
        ((4 * significand + 2 : Nat) : ℚ) * 2 ^ (exponent - 2) := Rounding.shiftLeft_div _
  have hunits : 4 * significand - 2 ≤
      4 * significand - if significand = leadingBit ∧ -1074 < exponent then 1 else 2 := by
    split <;> omega
  rw [hlowest] at hlow hopen
  rw [hhighest] at hhigh
  refine ⟨?_, hhigh.trans (units_le_greatestDouble (by omega) hexponent)⟩
  rcases Nat.lt_or_ge 1 significand with hlarge | hone
  · refine lt_of_lt_of_le ((leastHalf_le_units 2 le_rfl hleast).trans_lt ?_) hlow
    gcongr
    omega
  · have hodd : (Rounding.ofBinary significand exponent).closed = false := by
      obtain rfl : significand = 1 := by omega
      rfl
    exact (leastHalf_le_units _ (by omega) hleast).trans_lt (hopen hodd)

theorem bounds_of_below {power : Int}
    (hpower : (10 : ℚ) ^ power ≤ ((Rounding.ofBinary significand exponent).value : ℚ) /
      (Rounding.ofBinary significand exponent).denominator) :
    leastHalf < decimalValue ((Rounding.ofBinary significand exponent).below (power - 17))
        (power - 17) ∧
      decimalValue ((Rounding.ofBinary significand exponent).below (power - 17))
        (power - 17) ≤ greatestDouble := by
  obtain ⟨hbelow, hnext⟩ := Rounding.decimalValue_below
    (Rounding.ofBinary significand exponent) Rounding.denominator_pos (power - 17)
  have hvalue : ((Rounding.ofBinary significand exponent).value : ℚ) /
      (Rounding.ofBinary significand exponent).denominator =
        ((4 * significand : Nat) : ℚ) * 2 ^ (exponent - 2) := Rounding.shiftLeft_div _
  have hleastValue : 2 * leastHalf ≤ ((4 * significand : Nat) : ℚ) * 2 ^ (exponent - 2) := by
    have := leastHalf_le_units (2 * significand) (by omega) hleast
    push_cast at this ⊢
    linarith
  have hgrid : (10 : ℚ) ^ (power - 17) = 10 ^ power / 10 ^ 17 := zpow_sub₀ (by norm_num) _ _
  rw [hvalue] at hbelow hnext hpower
  rw [hgrid] at hnext
  refine ⟨?_, hbelow.trans (units_le_greatestDouble (by omega) hexponent)⟩
  have : (0 : ℚ) < leastHalf := by unfold leastHalf; positivity
  linarith

theorem shortest_bounds :
    leastHalf < decimalValue (shortest significand exponent).1 (shortest significand exponent).2 ∧
      decimalValue (shortest significand exponent).1 (shortest significand exponent).2 ≤
        greatestDouble := by
  unfold shortest
  rw [decimalValue_dropZeros]
  have hvalue : 0 < (Rounding.ofBinary significand exponent).value := by
    show 0 < (4 * significand) <<< (exponent - 2).toNat
    rw [Nat.shiftLeft_eq]
    positivity
  exact Rounding.search_induction
    (P := fun digits power => leastHalf < decimalValue digits power ∧
      decimalValue digits power ≤ greatestDouble)
    (fun digits power => bounds_of_holds hpos hsignificand hleast hexponent)
    (bounds_of_below hpos hsignificand hleast hexponent
      (decimalPower_le hvalue Rounding.denominator_pos)) 17 1 rfl

end Shortest

end Rubato.Decimal
