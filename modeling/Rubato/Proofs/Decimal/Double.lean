import Mathlib
import Rubato.Quantity

namespace Rubato.Decimal

/-! Which decimal numbers are read as a positive and finite double: those above half the
least double, up to the greatest one. -/

section Bits

open Float.Model Float.Model.UnpackedFloat

theorem toNat_unpackExponent (bits : BitVec 64) :
    (@unpackExponent .binary64 bits).toNat = bits.toNat / 2 ^ 52 % 2 ^ 11 := by
  simp [unpackExponent, BitVec.extractLsb, Nat.shiftRight_eq_div_pow]

theorem toNat_unpackMantissa (bits : BitVec 64) :
    (@unpackMantissa .binary64 bits).toNat = bits.toNat % 2 ^ 52 := by
  simp [unpackMantissa, BitVec.extractLsb]

theorem unpackSign_eq_zero_iff (bits : BitVec 64) :
    @unpackSign .binary64 bits = 0#1 ↔ bits.toNat < 2 ^ 63 := by
  have hbits := bits.isLt
  simp [BitVec.toNat_eq, unpackSign, BitVec.extractLsb, Nat.shiftRight_eq_div_pow]
  omega

theorem unpack_isPositive_iff (bits : BitVec 64) :
    (UnpackedFloat.unpack .binary64 bits).isFinite = true ∧
        UnpackedFloat.lt (.zero .positive) (UnpackedFloat.unpack .binary64 bits) = true ↔
      0 < bits.toNat ∧ bits.toNat < infinityBits := by
  have hsign : Sign.ofBitVec (@unpackSign .binary64 bits) =
      if bits.toNat < 2 ^ 63 then .positive else .negative := by
    simp only [Sign.ofBitVec, unpackSign_eq_zero_iff]
  have hexponent (power : BitVec 11) : @unpackExponent .binary64 bits = power ↔
      bits.toNat / 2 ^ 52 % 2 ^ 11 = power.toNat := by
    rw [BitVec.toNat_eq, toNat_unpackExponent]
  have hmantissa : @unpackMantissa .binary64 bits = 0#52 ↔
      bits.toNat % 2 ^ 52 = 0 := by
    simp [BitVec.toNat_eq, toNat_unpackMantissa]
  have hbits := bits.isLt
  simp only [UnpackedFloat.unpack, hsign, hexponent, hmantissa, infinityBits]
  -- The cases of the format: infinity, no number, zero, then the numbers of either sign.
  split
  · next hinfinite =>
      have : bits.toNat / 2 ^ 52 % 2 ^ 11 = 2047 := hinfinite
      split <;> simp [UnpackedFloat.isFinite] <;> omega
  · next hfinite =>
      have : bits.toNat / 2 ^ 52 % 2 ^ 11 ≠ 2047 := hfinite
      split
      · next hsmall =>
          have : bits.toNat / 2 ^ 52 % 2 ^ 11 = 0 := hsmall
          split <;> split <;>
            simp [UnpackedFloat.isFinite, UnpackedFloat.lt, UnpackedFloat.compare] <;> omega
      · next hlarge =>
          have : bits.toNat / 2 ^ 52 % 2 ^ 11 ≠ 0 := hlarge
          split <;>
            simp [UnpackedFloat.isFinite, UnpackedFloat.lt, UnpackedFloat.compare] <;> omega

theorem isPositive_iff (value : Float) :
    value.isFinite = true ∧ 0 < value ↔
      0 < value.toBits.toNat ∧ value.toBits.toNat < infinityBits := by
  rw [← UInt64.toNat_toBitVec, ← unpack_isPositive_iff]
  exact and_congr Iff.rfl (decide_eq_true_iff (p := (0 : Float).toModel < value.toModel))

theorem toBits_ofBits {bits : UInt64} (hlt : bits.toNat < infinityBits) :
    (Float.ofBits bits).toBits = bits := by
  have hvalid : Float.Model.Format.Valid .binary64 bits.toBitVec := by
    refine ⟨fun hexponent _ => ?_⟩
    have hpower := congrArg BitVec.toNat hexponent
    rw [toNat_unpackExponent] at hpower
    unfold infinityBits at hlt
    simp at hpower
    omega
  exact congrArg UInt64.ofBitVec (pack_unpack_of_valid hvalid)

theorem isPositive_ofBits {bits : Nat} (hpos : 0 < bits) (hlt : bits < infinityBits) :
    (Float.ofBits bits.toUInt64).isFinite = true ∧ 0 < Float.ofBits bits.toUInt64 := by
  have hword : bits.toUInt64.toNat = bits := by
    have hsize : bits < UInt64.size := hlt.trans (by decide)
    exact UInt64.toNat_ofNat_of_lt' hsize
  have hbits : (Float.ofBits bits.toUInt64).toBits = bits.toUInt64 :=
    toBits_ofBits (hword.symm ▸ hlt)
  rw [isPositive_iff, hbits, hword]
  exact ⟨hpos, hlt⟩

end Bits

theorem exists_scaleDown_eq (numerator : Nat) {denominator : Nat} (hpos : 0 < denominator)
    (exponent : Int) :
    ∃ unit : ℚ, 0 < unit ∧
      ((scaleDown numerator denominator exponent).1 : ℚ) =
        (numerator : ℚ) / denominator * unit ∧
      ((scaleDown numerator denominator exponent).2 : ℚ) = 2 ^ exponent * unit := by
  have hcast : (0 : ℚ) < denominator := Nat.cast_pos.mpr hpos
  unfold scaleDown
  split
  · next h =>
      lift exponent to Nat using h
      refine ⟨denominator, hcast, (div_mul_cancel₀ _ hcast.ne').symm, ?_⟩
      simp [Nat.shiftLeft_eq, mul_comm]
  · next h =>
      obtain ⟨count, rfl⟩ : ∃ count : Nat, exponent = -count := ⟨(-exponent).toNat, by omega⟩
      refine ⟨denominator * 2 ^ count, by positivity, ?_, ?_⟩
      · rw [← mul_assoc, div_mul_cancel₀ _ hcast.ne']
        simp [Nat.shiftLeft_eq]
      · rw [zpow_neg, zpow_natCast, mul_comm, mul_assoc, mul_inv_cancel₀ (by positivity), mul_one]

theorem scaleDown_le_iff (numerator : Nat) {denominator : Nat} (hpos : 0 < denominator)
    (exponent : Int) :
    (scaleDown numerator denominator exponent).2 ≤ (scaleDown numerator denominator exponent).1 ↔
      (2 : ℚ) ^ exponent ≤ (numerator : ℚ) / denominator := by
  obtain ⟨unit, hunit, hvalue, hpower⟩ := exists_scaleDown_eq numerator hpos exponent
  rw [← Nat.cast_le (α := ℚ), hvalue, hpower, mul_le_mul_iff_left₀ hunit]

theorem roundDiv_le_of_le_mul {numerator denominator limit : Nat}
    (h : numerator ≤ limit * denominator) (hpos : 0 < denominator) :
    roundDiv numerator denominator ≤ limit := by
  have hquotient : numerator / denominator ≤ limit :=
    Nat.div_le_of_le_mul (by rwa [Nat.mul_comm])
  have hdivided := Nat.div_add_mod numerator denominator
  rcases Nat.lt_or_ge (numerator / denominator) limit with hlt | hge
  · exact (roundDiv_le numerator denominator).trans hlt
  · have hquotient : numerator / denominator = limit := by omega
    have hexact : numerator = limit * denominator := by
      rw [hquotient, Nat.mul_comm] at hdivided
      omega
    rw [hexact, roundDiv_exact _ _ hpos]

theorem roundDiv_pos {numerator denominator : Nat} (hpos : 0 < denominator)
    (h : denominator < 2 * numerator) : 0 < roundDiv numerator denominator := by
  rcases Nat.lt_or_ge numerator denominator with hlt | hge
  · unfold roundDiv
    rw [Nat.mod_eq_of_lt hlt, Nat.div_eq_of_lt hlt]
    dsimp only
    rw [if_neg (by omega), if_pos h]
    exact Nat.one_pos
  · exact (Nat.div_pos hge hpos).trans_le (le_roundDiv _ _)

section Rounded

variable {numerator denominator : Nat} (hdenominator : 0 < denominator) {exponent : Int}

include hdenominator

theorem roundDiv_scaleDown_le {limit : Nat}
    (h : (numerator : ℚ) / denominator ≤ limit * 2 ^ exponent) :
    roundDiv (scaleDown numerator denominator exponent).1
      (scaleDown numerator denominator exponent).2 ≤ limit := by
  obtain ⟨unit, hunit, hvalue, hpower⟩ := exists_scaleDown_eq numerator hdenominator exponent
  apply roundDiv_le_of_le_mul
  · rw [← Nat.cast_le (α := ℚ), Nat.cast_mul, hvalue, hpower, ← mul_assoc]
    exact mul_le_mul_of_nonneg_right h hunit.le
  · rw [← Nat.cast_pos (α := ℚ), hpower]
    positivity

theorem roundDiv_scaleDown_pos (h : (2 : ℚ) ^ exponent < 2 * (numerator / denominator)) :
    0 < roundDiv (scaleDown numerator denominator exponent).1
      (scaleDown numerator denominator exponent).2 := by
  obtain ⟨unit, hunit, hvalue, hpower⟩ := exists_scaleDown_eq numerator hdenominator exponent
  apply roundDiv_pos
  · rw [← Nat.cast_pos (α := ℚ), hpower]
    positivity
  · rw [← Nat.cast_lt (α := ℚ), Nat.cast_mul, hvalue, hpower, ← mul_assoc]
    exact mul_lt_mul_of_pos_right h hunit

end Rounded

def quotientPower (numerator denominator : Nat) : Int :=
  let guess : Int := (numerator.log2 : Int) - denominator.log2
  let atGuess := scaleDown numerator denominator guess
  if atGuess.2 ≤ atGuess.1 then guess else guess - 1

theorem cast_lt_two_pow_log2 (number : Nat) :
    (number : ℚ) < (2 : ℚ) ^ ((number.log2 : Int) + 1) := by
  exact_mod_cast Nat.lt_log2_self

theorem two_pow_log2_le_cast {number : Nat} (hpos : 0 < number) :
    (2 : ℚ) ^ (number.log2 : Int) ≤ number := by
  exact_mod_cast Nat.log2_self_le hpos.ne'

theorem quotient_log2_bounds {numerator denominator : Nat} (hnumerator : 0 < numerator)
    (hdenominator : 0 < denominator) :
    (2 : ℚ) ^ ((numerator.log2 : Int) - denominator.log2 - 1) ≤
        (numerator : ℚ) / denominator ∧
      (numerator : ℚ) / denominator <
        (2 : ℚ) ^ ((numerator.log2 : Int) - denominator.log2 + 1) := by
  have hcast : (0 : ℚ) < denominator := Nat.cast_pos.mpr hdenominator
  constructor
  · rw [le_div_iff₀ hcast]
    calc (2 : ℚ) ^ ((numerator.log2 : Int) - denominator.log2 - 1) * denominator
        ≤ 2 ^ ((numerator.log2 : Int) - denominator.log2 - 1) *
            2 ^ ((denominator.log2 : Int) + 1) := by
          gcongr
          exact (cast_lt_two_pow_log2 _).le
      _ = 2 ^ (numerator.log2 : Int) := by
          rw [← zpow_add₀ (by norm_num)]
          congr 1
          ring
      _ ≤ numerator := two_pow_log2_le_cast hnumerator
  · rw [div_lt_iff₀ hcast]
    calc (numerator : ℚ) < 2 ^ ((numerator.log2 : Int) + 1) := cast_lt_two_pow_log2 numerator
      _ = 2 ^ ((numerator.log2 : Int) - denominator.log2 + 1) *
            2 ^ (denominator.log2 : Int) := by
          rw [← zpow_add₀ (by norm_num)]
          congr 1
          ring
      _ ≤ _ := by
          gcongr
          exact two_pow_log2_le_cast hdenominator

theorem quotientPower_spec {numerator denominator : Nat} (hnumerator : 0 < numerator)
    (hdenominator : 0 < denominator) :
    (2 : ℚ) ^ quotientPower numerator denominator ≤ (numerator : ℚ) / denominator ∧
      (numerator : ℚ) / denominator < (2 : ℚ) ^ (quotientPower numerator denominator + 1) := by
  obtain ⟨hlow, hhigh⟩ := quotient_log2_bounds hnumerator hdenominator
  have hiff := scaleDown_le_iff numerator hdenominator
    ((numerator.log2 : Int) - denominator.log2)
  unfold quotientPower
  dsimp only
  split
  · next hguess => exact ⟨hiff.mp hguess, hhigh⟩
  · next hguess =>
      rw [sub_add_cancel]
      exact ⟨hlow, not_le.mp (mt hiff.mpr hguess)⟩

/-- Half the least double, which is rounded to zero. -/
def leastHalf : ℚ := 2 ^ (-1075 : Int)

def greatestDouble : ℚ := (2 ^ 53 - 1) * 2 ^ (971 : Int)

theorem leastHalf_pos : 0 < leastHalf := zpow_pos two_pos _

theorem greatestDouble_lt : greatestDouble < 2 ^ (1024 : Int) := by
  calc ((2 : ℚ) ^ 53 - 1) * 2 ^ (971 : Int) < 2 ^ (53 : Int) * 2 ^ (971 : Int) := by
        gcongr
        norm_num
    _ = 2 ^ (1024 : Int) := by
        rw [← zpow_add₀ (by norm_num)]
        norm_num

theorem nearestBits_bounds {numerator denominator : Nat} (hdenominator : 0 < denominator)
    (hlow : leastHalf < (numerator : ℚ) / denominator)
    (hhigh : (numerator : ℚ) / denominator ≤ greatestDouble) :
    0 < nearestBits numerator denominator ∧
      nearestBits numerator denominator < infinityBits := by
  have hnumerator : 0 < numerator := by
    refine Nat.pos_of_ne_zero fun hzero => ?_
    rw [hzero, Nat.cast_zero, zero_div] at hlow
    exact hlow.not_gt leastHalf_pos
  obtain ⟨hpower, hnext⟩ := quotientPower_spec hnumerator hdenominator
  have hbits : nearestBits numerator denominator =
      let exponent := max (quotientPower numerator denominator - 52) (-1074)
      let scaled := scaleDown numerator denominator exponent
      let bits := (exponent + 1074).toNat * leadingBit + roundDiv scaled.1 scaled.2
      if infinityBits ≤ bits then infinityBits else bits := rfl
  generalize quotientPower numerator denominator = power at hpower hnext hbits
  have hle : power < 1024 := by
    have hlt := hpower.trans_lt (hhigh.trans_lt greatestDouble_lt)
    exact (zpow_lt_zpow_iff_right₀ (by norm_num : (1 : ℚ) < 2)).mp hlt
  generalize hexponent : max (power - 52) (-1074) = exponent at hbits
  -- The significand is rounded to one of at most fifty-three bits, or to the power behind them.
  have hround := @roundDiv_scaleDown_le numerator _ hdenominator exponent (2 ^ 53) <| by
    calc (numerator : ℚ) / denominator ≤ 2 ^ (power + 1) := hnext.le
      _ ≤ 2 ^ (53 + exponent) := zpow_le_zpow_right₀ (by norm_num) (by omega)
      _ = (2 ^ 53 : Nat) * 2 ^ exponent := by
          rw [zpow_add₀ (by norm_num)]
          norm_num
  have htop : exponent = 971 → _ ≤ 2 ^ 53 - 1 := fun h =>
    @roundDiv_scaleDown_le numerator _ hdenominator exponent (2 ^ 53 - 1) <| by
      rw [h]
      exact hhigh.trans_eq (by norm_num [greatestDouble])
  have hbottom : exponent = -1074 → _ := fun h =>
    @roundDiv_scaleDown_pos numerator _ hdenominator exponent <| by
      calc (2 : ℚ) ^ exponent = 2 * leastHalf := by
            rw [h, leastHalf, ← zpow_one_add₀ (by norm_num)]
            norm_num
        _ < 2 * (numerator / denominator) := by gcongr
  dsimp only at hbits
  generalize roundDiv _ _ = rounded at hbits hround htop hbottom
  unfold leadingBit infinityBits at *
  rw [hbits]
  split
  · omega
  · next hfinite =>
      refine ⟨?_, by omega⟩
      rcases eq_or_ne exponent (-1074) with heq | hne
      · have := hbottom heq
        omega
      · omega

def decimalValue (digits : Nat) (exponent : Int) : ℚ :=
  digits * 10 ^ exponent

theorem cast_tenTo (exponent : Nat) : ((tenTo exponent : Nat) : ℚ) = 10 ^ exponent :=
  Nat.cast_pow 10 exponent

theorem digits_pos_of_leastHalf_lt {digits : Nat} {exponent : Int}
    (hlow : leastHalf < decimalValue digits exponent) : 0 < digits := by
  refine Nat.pos_of_ne_zero fun hzero => ?_
  rw [decimalValue, hzero, Nat.cast_zero, zero_mul] at hlow
  exact hlow.not_gt leastHalf_pos

theorem exponent_le_of_le_greatest {digits : Nat} {exponent : Int} (hpos : 0 < digits)
    (hhigh : decimalValue digits exponent ≤ greatestDouble) : exponent ≤ 400 := by
  by_contra hlarge
  have hone : (1 : ℚ) ≤ digits := by exact_mod_cast hpos
  have : (2 : ℚ) ^ (1024 : Int) < 2 ^ (1024 : Int) := by
    calc (2 : ℚ) ^ (1024 : Int) ≤ 8 ^ (400 : Int) := by
          rw [show (8 : ℚ) = 2 ^ (3 : Int) by norm_num, ← zpow_mul]
          exact zpow_le_zpow_right₀ (by norm_num) (by norm_num)
      _ ≤ 10 ^ (400 : Int) := by
          exact zpow_le_zpow_left₀ (by norm_num) (by norm_num) (by norm_num)
      _ ≤ 10 ^ exponent := zpow_le_zpow_right₀ (by norm_num) (by omega)
      _ ≤ digits * 10 ^ exponent := le_mul_of_one_le_left (by positivity) hone
      _ ≤ greatestDouble := hhigh
      _ < 2 ^ (1024 : Int) := greatestDouble_lt
  exact absurd this (lt_irrefl _)

theorem log_of_leastHalf_lt {digits : Nat} {exponent : Int}
    (hlow : leastHalf < decimalValue digits exponent) : -400 ≤ exponent + digits.log2 := by
  by_contra hsmall
  have hdigits : (digits : ℚ) < 2 ^ ((digits.log2 : Int) + 1) := by
    exact_mod_cast Nat.lt_log2_self
  obtain ⟨places, hplaces⟩ : ∃ places : Nat, (digits.log2 : Int) + 401 = places :=
    ⟨digits.log2 + 401, by push_cast; rfl⟩
  have : decimalValue digits exponent < leastHalf := by
    calc (digits : ℚ) * 10 ^ exponent
        ≤ 2 ^ ((digits.log2 : Int) + 1) * 10 ^ (-(places : Int)) := by
          gcongr
          · norm_num
          · omega
      _ ≤ 2 ^ ((digits.log2 : Int) + 1) * 8 ^ (-(places : Int)) := by
          rw [zpow_neg, zpow_neg, zpow_natCast, zpow_natCast]
          gcongr
          norm_num
      _ < 2 ^ (-1075 : Int) := by
          rw [show (8 : ℚ) = 2 ^ (3 : Int) by norm_num, ← zpow_mul, ← zpow_add₀ (by norm_num)]
          exact zpow_lt_zpow_right₀ (by norm_num) (by omega)
  exact absurd hlow (not_lt_of_gt this)

theorem decimalBits_bounds {digits : Nat} {exponent : Int}
    (hlow : leastHalf < decimalValue digits exponent)
    (hhigh : decimalValue digits exponent ≤ greatestDouble) :
    0 < decimalBits digits exponent ∧ decimalBits digits exponent < infinityBits := by
  have hpos := digits_pos_of_leastHalf_lt hlow
  have hexponent := exponent_le_of_le_greatest hpos hhigh
  have hlog := log_of_leastHalf_lt hlow
  unfold decimalBits
  rw [if_neg hpos.ne', if_neg (by omega), if_neg (by omega)]
  split
  · next h =>
      lift exponent to Nat using h
      have hvalue : decimalValue digits exponent =
          ((digits * tenTo (exponent : Int).toNat : Nat) : ℚ) / (1 : Nat) := by
        simp [decimalValue, cast_tenTo]
      rw [hvalue] at hlow hhigh
      exact nearestBits_bounds Nat.one_pos hlow hhigh
  · next h =>
      obtain ⟨places, rfl⟩ : ∃ places : Nat, exponent = -places := ⟨(-exponent).toNat, by omega⟩
      have hvalue : decimalValue digits (-places) =
          (digits : ℚ) / (tenTo (-(-(places : Int))).toNat : Nat) := by
        simp [decimalValue, cast_tenTo, div_eq_mul_inv]
      rw [hvalue] at hlow hhigh
      exact nearestBits_bounds (Nat.pos_of_ne_zero (by simp [tenTo])) hlow hhigh

theorem isPositive_toFloat {digits : Nat} {exponent : Int}
    (hlow : leastHalf < decimalValue digits exponent)
    (hhigh : decimalValue digits exponent ≤ greatestDouble) :
    (toFloat false digits exponent).isFinite = true ∧ 0 < toFloat false digits exponent := by
  obtain ⟨hpos, hlt⟩ := decimalBits_bounds hlow hhigh
  simpa only [toFloat, Bool.false_eq_true, if_false] using isPositive_ofBits hpos hlt

end Rubato.Decimal
