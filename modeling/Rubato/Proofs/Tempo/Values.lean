import Rubato.Proofs.Decimal.Written
import Rubato.Proofs.Tempo.Rewriting

namespace Rubato

/-! A value without quotes that is put in place of the values neither makes nor breaks an
attribute, not even where a quote stays open or stands in another one's value. -/

namespace TempoAttribute

def QuotedValue.valueIn (found : QuotedValue) (text : List Char) : List Char :=
  (text.drop (name.length + found.lead.length + 1)).takeWhile (· ≠ found.quote)

/-- The values of the tempo attributes of a text, in order. `blank` tells whether a blank
stands before the text. -/
def values (blank : Bool) (text : List Char) : List (List Char) :=
  match text with
  | [] => []
  | c :: rest =>
    match h : valueAt? blank (c :: rest) with
    | some found =>
      have : found.rest.length ≤ rest.length := Nat.le_of_lt_succ (length_valueAt? h)
      found.valueIn (c :: rest) :: values false found.rest
    | none => values (Text.isBlank c) rest
termination_by text.length
decreasing_by
  · simp only [List.length_cons]
    omega
  · simp

theorem values_cons {blank : Bool} {c : Char} {rest : List Char}
    (h : valueAt? blank (c :: rest) = none) :
    values blank (c :: rest) = values (Text.isBlank c) rest := by
  rw [values]
  split
  · next hsome => rw [h] at hsome; cases hsome
  · rfl

theorem values_of_valueAt? {blank : Bool} {text : List Char} {found : QuotedValue}
    (h : valueAt? blank text = some found) :
    values blank text = found.valueIn text :: values false found.rest := by
  cases text with
  | nil => simp [valueAt?, name] at h
  | cons c rest =>
      rw [values]
      split
      · next hsome => rw [h] at hsome; cases hsome; rfl
      · next hnone => rw [h] at hnone; cases hnone

theorem valueIn_eq (found : QuotedValue) {old : List Char} (hold : found.quote ∉ old) :
    found.valueIn (name ++ found.lead ++ found.quote :: old ++ found.quote :: found.rest) =
      old := by
  have hfront : (name ++ found.lead ++ [found.quote]).length =
      name.length + found.lead.length + 1 := by
    rw [List.length_append, List.length_append, List.length_singleton]
  have htext : name ++ found.lead ++ found.quote :: old ++ found.quote :: found.rest =
      (name ++ found.lead ++ [found.quote]) ++ (old ++ found.quote :: found.rest) := by
    simp only [List.append_assoc, List.cons_append, List.nil_append]
  unfold QuotedValue.valueIn
  rw [htext, ← hfront, List.drop_left]
  exact takeWhile_stop (fun c hc => by simpa using fun heq : c = found.quote => hold (heq ▸ hc))
    (by simp) _

variable {value : List Char}

theorem replaced_cons_of_ne {c : Char} (hc : c ≠ 't') (blank : Bool) (rest : List Char) :
    replaced value blank (c :: rest) = c :: replaced value (Text.isBlank c) rest := by
  refine replaced_cons (valueAt?_of_not_name fun hname => hc ?_)
  obtain ⟨after, hafter⟩ := List.isPrefixOf_iff_prefix.mp hname
  exact (List.cons.inj hafter).1.symm

theorem exists_replaced_cons (value : List Char) (blank : Bool) (c : Char) (rest : List Char) :
    ∃ rest', replaced value blank (c :: rest) = c :: rest' := by
  by_cases hc : c = 't'
  · cases hfound : valueAt? blank (c :: rest) with
    | none => exact ⟨_, replaced_cons hfound⟩
    | some found =>
        rw [replaced_of_valueAt? hfound, hc]
        exact ⟨_, rfl⟩
  · exact ⟨_, replaced_cons_of_ne hc blank rest⟩

theorem dropWhile_replaced (value : List Char) (blank : Bool) (text : List Char) :
    ∃ blank', (replaced value blank text).dropWhile Text.isBlank =
      replaced value blank' (text.dropWhile Text.isBlank) := by
  induction text generalizing blank with
  | nil => exact ⟨false, by rw [replaced_nil, List.dropWhile_nil, replaced_nil]⟩
  | cons c rest ih =>
      cases hc : Text.isBlank c with
      | true =>
          have hne : c ≠ 't' := by
            rintro rfl
            revert hc
            decide
          rw [replaced_cons_of_ne hne, List.dropWhile_cons_of_pos hc,
            List.dropWhile_cons_of_pos hc]
          exact ih _
      | false =>
          obtain ⟨rest', hrest⟩ := exists_replaced_cons value blank c rest
          refine ⟨blank, ?_⟩
          rw [hrest, List.dropWhile_cons_of_neg (by simp [hc]),
            List.dropWhile_cons_of_neg (by simp [hc]), hrest]

theorem not_mem_of_isQuote (hvalue : ∀ c ∈ value, isQuote c = false) {quote : Char}
    (hquote : isQuote quote = true) : quote ∉ value := by
  intro hmem
  rw [hvalue quote hmem] at hquote
  cases hquote

theorem mem_of_mem_replaced {c : Char} {blank : Bool} {text : List Char}
    (h : c ∈ replaced value blank text) : c ∈ text ∨ c ∈ value := by
  fun_induction replaced value blank text with
  | case1 => cases h
  | case2 blank c' rest found hfound hlength ih =>
      obtain ⟨-, old, htext, -⟩ := of_valueAt? hfound
      rw [htext]
      simp only [List.mem_append, List.mem_cons] at h ⊢
      tauto
  | case3 blank c' rest hnone ih =>
      rw [List.mem_cons] at h ⊢
      tauto

theorem quotedValue?_eq_none_iff {text : List Char} :
    quotedValue? text = none ↔
      ∀ after, text.dropWhile Text.isBlank = '=' :: after →
        ∀ quote body, after.dropWhile Text.isBlank = quote :: body →
          isQuote quote = true → quote ∉ body := by
  have hclose : ∀ (quote : Char) (body : List Char),
      body.dropWhile (fun c => decide (c ≠ quote)) = [] ↔ quote ∉ body := by
    intro quote body
    rw [List.dropWhile_eq_nil_iff]
    exact ⟨fun h hmem => by simpa using h quote hmem,
      fun h c hc => decide_eq_true fun heq => h (heq ▸ hc)⟩
  unfold quotedValue? splitBlanks
  dsimp only
  constructor
  · intro h after hafter quote body hbody hquote
    rw [hafter] at h
    simp only [hbody, if_pos hquote] at h
    rw [← hclose]
    split at h
    · cases h
    · assumption
  · intro h
    split
    · next after hafter =>
        split
        · next quote body hbody =>
            split
            · next hquote => rw [(hclose quote body).mpr (h after hafter quote body hbody hquote)]
            · rfl
        · rfl
    · rfl

theorem quotedValue?_replaced (hvalue : ∀ c ∈ value, isQuote c = false) {blank : Bool}
    {text : List Char} (h : quotedValue? text = none) :
    quotedValue? (replaced value blank text) = none := by
  rw [quotedValue?_eq_none_iff] at h ⊢
  intro after' hafter' quote body' hbody' hquote hmem
  obtain ⟨blank₁, hfirst⟩ := dropWhile_replaced value blank text
  rw [hfirst] at hafter'
  -- The text goes on with the same `=` and the same quote.
  cases hafter : text.dropWhile Text.isBlank with
  | nil =>
      rw [hafter, replaced_nil] at hafter'
      cases hafter'
  | cons c after =>
      obtain ⟨_, hcons⟩ := exists_replaced_cons value blank₁ c after
      obtain rfl : c = '=' := (List.cons.inj (hcons.symm.trans (hafter ▸ hafter'))).1
      rw [hafter, replaced_cons_of_ne (by decide)] at hafter'
      cases hafter'
      obtain ⟨blank₂, hsecond⟩ := dropWhile_replaced value (Text.isBlank '=') after
      rw [hsecond] at hbody'
      cases hbody : after.dropWhile Text.isBlank with
      | nil =>
          rw [hbody, replaced_nil] at hbody'
          cases hbody'
      | cons c body =>
          obtain ⟨_, hcons⟩ := exists_replaced_cons value blank₂ c body
          obtain rfl : c = quote := (List.cons.inj (hcons.symm.trans (hbody ▸ hbody'))).1
          have hne : c ≠ 't' := by
            rintro rfl
            revert hquote
            decide
          rw [hbody, replaced_cons_of_ne hne] at hbody'
          cases hbody'
          -- Neither the rest of the text nor a value closes it.
          exact (mem_of_mem_replaced hmem).elim (h after hafter c body hbody hquote)
            (not_mem_of_isQuote hvalue hquote)

theorem isQuote_of_mem_name {c : Char} (hc : c ∈ name) : isQuote c = false := by
  have hname : name.all (fun c => !isQuote c) = true := rfl
  simpa using List.all_eq_true.mp hname c hc

/-- At every place the replacement keeps the attribute that begins there, and begins none. -/
theorem valueAt?_replaced (hvalue : ∀ c ∈ value, isQuote c = false) (blank : Bool)
    (text : List Char) :
    valueAt? blank (replaced value blank text) =
      (valueAt? blank text).map fun found =>
        { found with rest := replaced value false found.rest } := by
  cases hfound : valueAt? blank text with
  | some found =>
      obtain ⟨rfl, old, -, -, hquote, hlead, hopens⟩ := of_valueAt? hfound
      rw [replaced_of_valueAt? hfound, Option.map_some]
      simpa only [List.append_assoc, List.cons_append] using
        valueAt?_name hlead hquote hopens (not_mem_of_isQuote hvalue hquote)
          (replaced value false found.rest)
  | none =>
      rw [Option.map_none]
      by_cases hname : name.isPrefixOf text = true
      · obtain ⟨after, rfl⟩ := List.isPrefixOf_iff_prefix.mp hname
        rw [replaced_name_append hfound]
        rw [valueAt?_name_append] at hfound ⊢
        cases blank with
        | false => rfl
        | true => exact quotedValue?_replaced hvalue hfound
      · refine valueAt?_of_not_name fun hnew => hname ?_
        have hsame : name.isPrefixOf (replaced value blank text ++ []) =
            name.isPrefixOf (text ++ []) :=
          isPrefixOf_replaced (fun _ => isQuote_of_mem_name) blank text []
        rw [List.append_nil, List.append_nil] at hsame
        exact hsame.symm.trans hnew

theorem replaced_replaced (hvalue : ∀ c ∈ value, isQuote c = false) (second : List Char)
    (blank : Bool) (text : List Char) :
    replaced second blank (replaced value blank text) = replaced second blank text := by
  have hplace := valueAt?_replaced hvalue
  fun_induction replaced value blank text with
  | case1 blank => rfl
  | case2 blank c rest found hfound hlength ih =>
      have hkept := hplace blank (c :: rest)
      rw [hfound, replaced_of_valueAt? hfound] at hkept
      rw [replaced_of_valueAt? hkept, replaced_of_valueAt? hfound, ih]
  | case3 blank c rest hnone ih =>
      have hkept := hplace blank (c :: rest)
      rw [hnone, replaced_cons hnone] at hkept
      rw [replaced_cons hkept, replaced_cons hnone, ih]

theorem values_replaced (hvalue : ∀ c ∈ value, isQuote c = false) (blank : Bool)
    (text : List Char) :
    values blank (replaced value blank text) = (values blank text).map fun _ => value := by
  have hplace := valueAt?_replaced hvalue
  fun_induction values blank text with
  | case1 blank => rw [replaced_nil, values, List.map_nil]
  | case2 blank c rest found hfound hlength ih =>
      obtain ⟨-, old, -, -, hquote, -⟩ := of_valueAt? hfound
      have hkept := hplace blank (c :: rest)
      have hnew := valueIn_eq { found with rest := replaced value false found.rest }
        (not_mem_of_isQuote hvalue hquote)
      rw [hfound] at hkept
      rw [values_of_valueAt? hkept, List.map_cons, ih, replaced_of_valueAt? hfound]
      exact congrArg (· :: _) hnew
  | case3 blank c rest hnone ih =>
      have hkept := hplace blank (c :: rest)
      rw [hnone, replaced_cons hnone] at hkept
      rw [replaced_cons hnone, values_cons hkept, ih]

end TempoAttribute

theorem Decimal.isQuote_of_mem_tempoText {bpm : Float} {c : Char} (hc : c ∈ tempoText bpm) :
    TempoAttribute.isQuote c = false := by
  rw [← Bool.not_eq_true, TempoAttribute.isQuote, Bool.or_eq_true, beq_iff_eq, beq_iff_eq]
  rintro (rfl | rfl)
  all_goals exact absurd (mem_tempoText hc) (by decide)

/-- Of two tempos that are forced on a text the last one wins, and forcing a tempo again
changes nothing. The tempo attributes of the text stay, each with the forced tempo. -/
theorem forceTempoText_last (text : String) (first second : Float) :
    forceTempoText (forceTempoText text first) second = forceTempoText text second ∧
      forceTempoText (forceTempoText text first) first = forceTempoText text first ∧
      TempoAttribute.values false (forceTempoText text first).toList =
        (TempoAttribute.values false text.toList).map fun _ => Decimal.tempoText first := by
  have hlast : ∀ second, forceTempoText (forceTempoText text first) second =
      forceTempoText text second := by
    intro second
    unfold forceTempoText
    simp only [String.toList_ofList, TempoAttribute.replaceAll_eq]
    rw [TempoAttribute.replaced_replaced fun _ => Decimal.isQuote_of_mem_tempoText]
  refine ⟨hlast second, hlast first, ?_⟩
  unfold forceTempoText
  rw [String.toList_ofList, TempoAttribute.replaceAll_eq]
  exact TempoAttribute.values_replaced (fun _ => Decimal.isQuote_of_mem_tempoText) false _

end Rubato
