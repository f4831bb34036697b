import Rubato.Proofs.Decimal.Shortest
import Rubato.Score.Reading
import Rubato.Tempo.Attribute

namespace Rubato.Decimal

theorem isDigit_iff (c : Char) : isDigit c = true ↔ '0' ≤ c ∧ c ≤ '9' := by
  unfold isDigit digitValue?
  split <;> simp_all

theorem isDigit_of_isDigit {c : Char} (h : c.isDigit = true) : isDigit c = true := by
  rw [isDigit_iff]
  simp only [Char.isDigit, Bool.and_eq_true, decide_eq_true_eq] at h
  exact h

theorem digitsValue_eq {digits : List Char} (hdigits : ∀ c ∈ digits, isDigit c = true) :
    digitsValue digits = Nat.ofDigitChars 10 digits 0 := by
  rw [Nat.ofDigitChars_eq_foldl]
  refine List.foldl_ext _ _ _ fun value c hc => ?_
  rw [digitValue?, if_pos ((isDigit_iff c).mp (hdigits c hc))]
  rfl

theorem toLower_of_isDigit {c : Char} (hdigit : isDigit c = true) : c.toLower = c := by
  obtain ⟨hlow, hhigh⟩ := (isDigit_iff c).mp hdigit
  unfold Char.toLower
  rw [dif_neg]
  intro hupper
  have hA : 'A'.toNat ≤ c.toNat := hupper.1
  have h9 : c.toNat ≤ '9'.toNat := hhigh
  simp at hA h9
  omega

theorem numeral?_of_isDigit {c : Char} (hdigit : isDigit c = true) (rest : List Char) :
    numeral? (c :: rest) = decimal? false (c :: rest) := by
  have hne : ∀ other : Char, isDigit other = false → c ≠ other := fun other hother heq => by
    rw [heq, hother] at hdigit
    cases hdigit
  have hsign : splitSign (c :: rest) = (false, c :: rest) := by
    unfold splitSign
    split
    · next heq => exact absurd (List.cons.inj heq).1 (hne '-' (by decide))
    · next heq => exact absurd (List.cons.inj heq).1 (hne '+' (by decide))
    · rfl
  have hword : ∀ (first : Char) (word : List Char), isDigit first = false →
      String.ofList ((c :: rest).map Char.toLower) ≠ String.ofList (first :: word) := by
    intro first word hfirst heq
    rw [String.ofList_inj, List.map_cons, toLower_of_isDigit hdigit] at heq
    exact hne first hfirst (List.cons.inj heq).1
  unfold numeral?
  rw [hsign]
  dsimp only
  rw [if_neg, if_neg]
  · exact hword 'n' ['a', 'n'] (by decide)
  · rintro (h | h)
    · exact hword 'i' ['n', 'f'] (by decide) h
    · exact hword 'i' ['n', 'f', 'i', 'n', 'i', 't', 'y'] (by decide) h

theorem splitDigits_append {digits : List Char} (hdigits : ∀ c ∈ digits, isDigit c = true)
    (rest : List Char) (hrest : ∀ c ∈ rest.head?, isDigit c = false) :
    splitDigits (digits ++ rest) = (digits, rest) := by
  unfold splitDigits
  rw [List.takeWhile_append_of_pos hdigits, List.dropWhile_append_of_pos hdigits]
  cases rest with
  | nil => simp
  | cons c rest => simp [hrest c rfl]

theorem decimal?_whole {digits : List Char} (hne : digits ≠ [])
    (hdigits : ∀ c ∈ digits, isDigit c = true) :
    decimal? false digits = some (.decimal false (digitsValue digits) 0) := by
  have hsplit := splitDigits_append hdigits [] (by simp)
  rw [List.append_nil] at hsplit
  simp [decimal?, hsplit, hne, exponent?]

theorem decimal?_fraction {whole fraction : List Char} (hne : whole ≠ [])
    (hwhole : ∀ c ∈ whole, isDigit c = true) (hfraction : ∀ c ∈ fraction, isDigit c = true) :
    decimal? false (whole ++ '.' :: fraction) =
      some (.decimal false (digitsValue (whole ++ fraction)) (-fraction.length)) := by
  have hsplit := splitDigits_append hwhole ('.' :: fraction) (by simp; decide)
  have hrest := splitDigits_append hfraction [] (by simp)
  rw [List.append_nil] at hrest
  simp [decimal?, hsplit, hrest, hne, exponent?]

theorem isDigit_of_mem_toDigits {c : Char} {value : Nat} (hc : c ∈ Nat.toDigits 10 value) :
    isDigit c = true :=
  isDigit_of_isDigit (Nat.isDigit_of_mem_toDigits (by norm_num) le_rfl hc)

theorem isDigit_of_mem_zeros {c : Char} {count : Nat} (hc : c ∈ zeros count) :
    isDigit c = true := by
  rw [List.eq_of_mem_replicate hc]
  decide

theorem isDigit_of_mem_padded {c : Char} {value after : Nat} (before : Nat)
    (hc : c ∈ zeros before ++ (Nat.toDigits 10 value ++ zeros after)) : isDigit c = true := by
  rw [List.mem_append, List.mem_append] at hc
  exact hc.elim isDigit_of_mem_zeros fun hc =>
    hc.elim isDigit_of_mem_toDigits isDigit_of_mem_zeros

theorem digitsValue_padded (value before after : Nat) :
    digitsValue (zeros before ++ (Nat.toDigits 10 value ++ zeros after)) =
      value * 10 ^ after := by
  rw [digitsValue_eq fun c hc => isDigit_of_mem_padded before hc, Nat.ofDigitChars_append,
    Nat.ofDigitChars_append]
  unfold zeros
  rw [Nat.ofDigitChars_replicate_zero, Nat.ofDigitChars_replicate_zero, Nat.mul_zero,
    Nat.ofDigitChars_ten_toDigits, Nat.mul_comm]

theorem isBlank_of_isNumberChar {c : Char} (hc : Reading.isNumberChar c = true) :
    Text.isBlank c = false := by
  have hcode : (48 ≤ c.toNat ∧ c.toNat ≤ 57) ∨ c.toNat = 46 := by
    rw [Reading.isNumberChar, Bool.or_eq_true, isDigit_iff, beq_iff_eq] at hc
    rcases hc with hdigit | rfl
    · exact .inl hdigit
    · exact .inr rfl
  unfold Text.isBlank
  simp
  omega

theorem padded_spec {padded : List Char} {digits places : Nat}
    (hpadded : padded =
      zeros (places + 1 - (Nat.toDigits 10 digits).length) ++ Nat.toDigits 10 digits) :
    (∀ c ∈ padded, isDigit c = true) ∧ digitsValue padded = digits ∧
      places + 1 ≤ padded.length := by
  rw [hpadded]
  refine ⟨fun c hc => ?_, ?_, ?_⟩
  · exact (List.mem_append.mp hc).elim isDigit_of_mem_zeros isDigit_of_mem_toDigits
  · simpa [zeros] using
      digitsValue_padded digits (places + 1 - (Nat.toDigits 10 digits).length) 0
  · rw [List.length_append, zeros, List.length_replicate]
    omega

theorem positional_eq (digits : Nat) (exponent : Int) :
    (∃ whole : List Char, whole ≠ [] ∧ (∀ c ∈ whole, isDigit c = true) ∧
        positional digits exponent = whole ∧
        decimalValue (digitsValue whole) 0 = decimalValue digits exponent) ∨
      ∃ whole fraction : List Char, whole ≠ [] ∧ (∀ c ∈ whole, isDigit c = true) ∧
        (∀ c ∈ fraction, isDigit c = true) ∧
        positional digits exponent = whole ++ '.' :: fraction ∧
        decimalValue (digitsValue (whole ++ fraction)) (-fraction.length) =
          decimalValue digits exponent := by
  unfold positional
  dsimp only
  split
  · next hwhole =>
      lift exponent to Nat using hwhole
      refine .inl ⟨_, by simp [Nat.toDigits_ne_nil], fun c hc => ?_, rfl, ?_⟩
      · exact isDigit_of_mem_padded 0 hc
      · have hvalue : digitsValue (Nat.toDigits 10 digits ++ zeros exponent) =
            digits * 10 ^ exponent := digitsValue_padded digits 0 exponent
        simp [decimalValue, hvalue]
  · next hfraction =>
      obtain ⟨places, rfl⟩ : ∃ places : Nat, exponent = -places := ⟨(-exponent).toNat, by omega⟩
      rw [Int.neg_neg, Int.toNat_natCast]
      generalize hpadded : zeros (places + 1 - (Nat.toDigits 10 digits).length) ++
        Nat.toDigits 10 digits = padded
      obtain ⟨hdigits, hvalue, hlength⟩ := padded_spec hpadded.symm
      refine .inr ⟨padded.take (padded.length - places), padded.drop (padded.length - places),
        ?_, fun c hc => hdigits c (List.mem_of_mem_take hc),
        fun c hc => hdigits c (List.mem_of_mem_drop hc), rfl, ?_⟩
      · refine List.ne_nil_of_length_pos ?_
        rw [List.length_take]
        omega
      · rw [List.take_append_drop, hvalue, List.length_drop]
        congr 2
        omega

theorem numeral?_positional (digits : Nat) (exponent : Int) :
    ∃ digits' exponent', numeral? (positional digits exponent) =
        some (.decimal false digits' exponent') ∧
      decimalValue digits' exponent' = decimalValue digits exponent := by
  rcases positional_eq digits exponent with
    ⟨whole, hne, hwhole, heq, hvalue⟩ | ⟨whole, fraction, hne, hwhole, hfraction, heq, hvalue⟩
  · refine ⟨_, _, ?_, hvalue⟩
    obtain ⟨c, rest, rfl⟩ := List.exists_cons_of_ne_nil hne
    rw [heq, numeral?_of_isDigit (hwhole c List.mem_cons_self), decimal?_whole hne hwhole]
  · refine ⟨_, _, ?_, hvalue⟩
    obtain ⟨c, rest, rfl⟩ := List.exists_cons_of_ne_nil hne
    rw [heq, List.cons_append, numeral?_of_isDigit (hwhole c List.mem_cons_self),
      ← List.cons_append, decimal?_fraction hne hwhole hfraction]

theorem isNumberChar_of_mem_positional {digits : Nat} {exponent : Int} {c : Char}
    (hc : c ∈ positional digits exponent) : Reading.isNumberChar c = true := by
  rw [Reading.isNumberChar, Bool.or_eq_true]
  rcases positional_eq digits exponent with
    ⟨whole, -, hwhole, heq, -⟩ | ⟨whole, fraction, -, hwhole, hfraction, heq, -⟩
  · exact .inl (hwhole c (heq ▸ hc))
  · rw [heq, List.mem_append, List.mem_cons] at hc
    rcases hc with hc | rfl | hc
    · exact .inl (hwhole c hc)
    · exact .inr rfl
    · exact .inl (hfraction c hc)

/-- A character of a sign, an infinity or an undefined result, which are the texts of numbers
without digits. -/
def isWordChar (c : Char) : Bool := ['-', 'i', 'n', 'f', 'N', 'a'].contains c

theorem mem_signed {negative : Bool} {digits : List Char} {c : Char}
    (hc : c ∈ signed negative digits) : c = '-' ∨ c ∈ digits := by
  unfold signed at hc
  split at hc
  · exact List.mem_cons.mp hc
  · exact .inr hc

theorem mem_plainDigits {significand : Nat} {exponent : Int} {c : Char}
    (hc : c ∈ plainDigits significand exponent) : Reading.isNumberChar c = true := by
  unfold plainDigits at hc
  split at hc
  · rw [List.mem_singleton.mp hc]
    rfl
  · exact isNumberChar_of_mem_positional hc

/-- Any double as a tempo is written in digits and a point, a sign, or the letters of infinity
and of an undefined result. -/
theorem mem_tempoText {value : Float} {c : Char} (hc : c ∈ tempoText value) :
    Reading.isNumberChar c = true ∨ isWordChar c = true := by
  have hsigned : ∀ (negative : Bool) (digits : List Char),
      (∀ c ∈ digits, Reading.isNumberChar c = true ∨ isWordChar c = true) →
      c ∈ signed negative digits → Reading.isNumberChar c = true ∨ isWordChar c = true := by
    intro negative digits hdigits hmem
    rcases mem_signed hmem with rfl | hmem
    · exact .inr rfl
    · exact hdigits c hmem
  have hword : (['i', 'n', 'f'] ++ ['N', 'a', 'N']).all isWordChar = true := rfl
  rw [List.all_eq_true] at hword
  unfold tempoText at hc
  dsimp only at hc
  cases hvalue : Binary.ofFloat value with
  | finite negative significand exponent =>
      rw [hvalue] at hc
      split at hc
      · exact hsigned _ _ (fun c hc => .inl (isNumberChar_of_mem_positional hc)) hc
      · exact hsigned _ _ (fun c hc => .inl (mem_plainDigits hc)) hc
  | infinite negative =>
      rw [hvalue] at hc
      exact hsigned _ _ (fun c hc => .inr (hword c (List.mem_append_left _ hc))) hc
  | undefined =>
      rw [hvalue] at hc
      exact .inr (hword c (List.mem_append_right _ hc))

theorem Binary.ofBits_of_lt {bits : Nat} (hpos : 0 < bits) (hlt : bits < infinityBits) :
    ∃ significand exponent, Binary.ofBits bits = .finite false significand exponent ∧
      0 < significand ∧ significand < 2 ^ 53 ∧ -1074 ≤ exponent ∧ exponent ≤ 971 := by
  have hsign : ¬ signBit ≤ bits := by unfold signBit infinityBits at *; omega
  have hmod : bits % signBit = bits := Nat.mod_eq_of_lt (Nat.lt_of_not_le hsign)
  have hpower : bits / leadingBit ≠ 0x7FF := by unfold leadingBit infinityBits at *; omega
  unfold Binary.ofBits
  simp only [hmod, hsign, decide_false, hpower, if_false]
  unfold leadingBit infinityBits at *
  split
  · exact ⟨_, _, rfl, by omega, by omega, by omega, by omega⟩
  · exact ⟨_, _, rfl, by omega, by omega, by omega, by omega⟩

theorem fixed_bounds {significand : Nat} {exponent : Int} (hpos : 0 < significand)
    (hsignificand : significand < 2 ^ 53) (hexponent : exponent ≤ 971)
    (hwhole : (Binary.finite false significand exponent).isWhole = true) :
    ∃ digits, (Binary.finite false significand exponent).fixed 0 = positional digits 0 ∧
      leastHalf < decimalValue digits 0 ∧ decimalValue digits 0 ≤ greatestDouble := by
  have hbounds : ∀ digits : Nat, 1 ≤ digits → (digits : ℚ) ≤ greatestDouble →
      leastHalf < decimalValue digits 0 ∧ decimalValue digits 0 ≤ greatestDouble := by
    intro digits hone hle
    rw [decimalValue, zpow_zero, mul_one]
    refine ⟨lt_of_lt_of_le ?_ (Nat.one_le_cast.mpr hone), hle⟩
    exact zpow_lt_one_of_neg₀ (by norm_num) (by norm_num)
  have hscaled : significand * tenTo 0 = significand := Nat.mul_one significand
  refine ⟨_, rfl, ?_⟩
  rw [hscaled]
  split
  · next hexact =>
      lift exponent to Nat using hexact
      refine hbounds _ ?_ ?_ <;> rw [Int.toNat_natCast, Nat.shiftLeft_eq]
      · exact Nat.mul_pos hpos (Nat.two_pow_pos exponent)
      · push_cast
        rw [← zpow_natCast 2 exponent]
        unfold greatestDouble
        gcongr
        · have : (significand : ℚ) + 1 ≤ 2 ^ 53 := by exact_mod_cast hsignificand
          linarith
        · norm_num
  · next hbelow =>
      have hdivides : 1 <<< (-exponent).toNat ∣ significand := by
        simpa [Binary.isWhole, hbelow, Nat.dvd_iff_mod_eq_zero] using hwhole
      obtain ⟨quotient, hquotient⟩ := hdivides
      have hstep : 0 < 1 <<< (-exponent).toNat := by
        rw [Nat.shiftLeft_eq, one_mul]
        exact Nat.two_pow_pos _
      rw [hquotient, Nat.mul_comm, roundDiv_exact _ _ hstep]
      have hone : 1 ≤ quotient := Nat.pos_of_mul_pos_left (hquotient ▸ hpos)
      have hle : quotient ≤ significand := hquotient ▸ Nat.le_mul_of_pos_left _ hstep
      refine hbounds quotient hone (le_trans ?_ two_pow_le_greatestDouble)
      exact_mod_cast (hle.trans hsignificand.le)

theorem tempoText_eq {value : Float} (hvalue : value.isFinite = true ∧ 0 < value) :
    ∃ digits exponent, tempoText value = positional digits exponent ∧
      leastHalf < decimalValue digits exponent ∧
      decimalValue digits exponent ≤ greatestDouble := by
  obtain ⟨hpos, hlt⟩ := (isPositive_iff value).mp hvalue
  obtain ⟨significand, exponent, hbinary, hsignificand, hsmall, hleast, hgreatest⟩ :=
    Binary.ofBits_of_lt hpos hlt
  have hvalue : Binary.ofFloat value = .finite false significand exponent := hbinary
  unfold tempoText
  rw [hvalue]
  dsimp only
  split
  · next hwhole =>
      obtain ⟨digits, htext, hbounds⟩ := fixed_bounds hsignificand hsmall hgreatest hwhole
      exact ⟨digits, 0, htext, hbounds⟩
  · next hwhole =>
      have hexponent : exponent < 0 := by
        by_contra hge
        exact hwhole (by simp [Binary.isWhole, Int.not_lt.mp hge])
      refine ⟨_, _, ?_, shortest_bounds hsignificand hsmall hleast hexponent⟩
      show plainDigits significand exponent = _
      rw [plainDigits, if_neg hsignificand.ne']

theorem isNumberChar_of_mem_tempoText {value : Float}
    (hvalue : value.isFinite = true ∧ 0 < value) {c : Char} (hc : c ∈ tempoText value) :
    Reading.isNumberChar c = true := by
  obtain ⟨digits, exponent, htext, -⟩ := tempoText_eq hvalue
  exact isNumberChar_of_mem_positional (htext ▸ hc)

theorem trim_of_isNumberChar {text : List Char}
    (htext : ∀ c ∈ text, Reading.isNumberChar c = true) : Text.trim text = text := by
  have hblank : ∀ c ∈ text, Text.isBlank c = false :=
    fun c hc => isBlank_of_isNumberChar (htext c hc)
  have hdrop : ∀ text : List Char, (∀ c ∈ text, Text.isBlank c = false) →
      text.dropWhile Text.isBlank = text := by
    intro text htext
    cases text with
    | nil => rfl
    | cons c rest => exact List.dropWhile_cons_of_neg (by simp [htext c])
  unfold Text.trim Text.trimEnd Text.trimStart
  rw [hdrop text hblank, hdrop _ fun c hc => hblank c (List.mem_reverse.mp hc),
    List.reverse_reverse]

theorem tempo?_tempoText {value : Float} (hvalue : value.isFinite = true ∧ 0 < value) :
    ∃ tempo : Float,
      (numeral? (Text.trim (tempoText value))).bind Reading.tempo? = some tempo := by
  obtain ⟨digits, exponent, htext, hlow, hhigh⟩ := tempoText_eq hvalue
  obtain ⟨digits', exponent', hnumeral, heq⟩ := numeral?_positional digits exponent
  rw [← heq] at hlow hhigh
  obtain ⟨hfinite, hpos⟩ := isPositive_toFloat hlow hhigh
  refine ⟨toFloat false digits' exponent', ?_⟩
  rw [trim_of_isNumberChar fun c => isNumberChar_of_mem_tempoText hvalue, htext, hnumeral]
  show (if (toFloat false digits' exponent').isFinite &&
    decide (0 < toFloat false digits' exponent') then _ else none) = _
  rw [if_pos (by rw [hfinite, Bool.true_and, decide_eq_true_eq]; exact hpos)]
  rfl

end Rubato.Decimal
