import Mathlib
import Rubato.Tempo.Attribute

namespace Rubato

/-! The text is gone through character by character; where no tempo attribute begins, it is
copied. A quote with the name and the `=` before it decides whether one begins, so a piece
that ends in a quote or a bracket is rewritten by itself. -/

theorem dropWhile_append_stop {p : Char → Bool} {x : Char} (hx : p x = false)
    (before after : List Char) :
    (before ++ x :: after).dropWhile p = before.dropWhile p ++ x :: after := by
  induction before with
  | nil => exact List.dropWhile_cons_of_neg (by simp [hx])
  | cons c before ih =>
      rw [List.cons_append, List.dropWhile_cons, List.dropWhile_cons]
      split
      · exact ih
      · rfl

theorem takeWhile_append_stop {p : Char → Bool} {x : Char} (hx : p x = false)
    (before after : List Char) :
    (before ++ x :: after).takeWhile p = before.takeWhile p := by
  induction before with
  | nil => exact List.takeWhile_cons_of_neg (by simp [hx])
  | cons c before ih =>
      rw [List.cons_append, List.takeWhile_cons, List.takeWhile_cons, ih]

theorem dropWhile_stop {p : Char → Bool} {before : List Char} (hbefore : ∀ c ∈ before, p c = true)
    {x : Char} (hx : p x = false) (after : List Char) :
    (before ++ x :: after).dropWhile p = x :: after := by
  rw [dropWhile_append_stop hx, List.dropWhile_eq_nil_iff.mpr hbefore, List.nil_append]

theorem takeWhile_stop {p : Char → Bool} {before : List Char} (hbefore : ∀ c ∈ before, p c = true)
    {x : Char} (hx : p x = false) (after : List Char) :
    (before ++ x :: after).takeWhile p = before := by
  rw [takeWhile_append_stop hx, List.takeWhile_eq_self_iff.mpr hbefore]

theorem dropWhile_eq_cons_iff {p : Char → Bool} {text after : List Char} {x : Char} :
    text.dropWhile p = x :: after ↔
      ∃ before, text = before ++ x :: after ∧ (∀ c ∈ before, p c = true) ∧ p x = false := by
  constructor
  · intro h
    refine ⟨text.takeWhile p, ?_, fun c hc => List.mem_takeWhile_imp hc, ?_⟩
    · rw [← h, List.takeWhile_append_dropWhile]
    · have hx := List.head?_dropWhile_not p text
      rw [h] at hx
      exact hx
  · rintro ⟨before, rfl, hbefore, hx⟩
    exact dropWhile_stop hbefore hx after

theorem isPrefixOf_append_stop {mark : List Char} {x : Char} (hx : x ∉ mark)
    (before after : List Char) :
    mark.isPrefixOf (before ++ x :: after) = mark.isPrefixOf before := by
  induction mark generalizing before with
  | nil => rfl
  | cons m mark ih =>
      rw [List.mem_cons, not_or] at hx
      obtain ⟨hne, hrest⟩ := hx
      cases before with
      | nil => simp [List.isPrefixOf, Ne.symm hne]
      | cons c before =>
          rw [List.cons_append, List.isPrefixOf_cons_cons, List.isPrefixOf_cons_cons, ih hrest]

namespace TempoAttribute

def opensValue (text : List Char) : Bool :=
  match text.dropWhile Text.isBlank with
  | '=' :: rest => (rest.dropWhile Text.isBlank).head?.any isQuote
  | _ => false

def begins (text : List Char) : Bool :=
  name.isPrefixOf text && opensValue (text.drop name.length)

/-- Whether a tempo attribute begins somewhere in a text. `blank` tells whether a blank
stands before the text. -/
def opens (blank : Bool) : List Char → Bool
  | [] => false
  | c :: rest => (blank && begins (c :: rest)) || opens (Text.isBlank c) rest

theorem opens_cons (blank : Bool) (c : Char) (rest : List Char) :
    opens blank (c :: rest) =
      ((blank && begins (c :: rest)) || opens (Text.isBlank c) rest) := rfl

/-- A character that can stand between the beginning of a tempo attribute and its quote. -/
def isInner (c : Char) : Bool := name.contains c || Text.isBlank c || c == '='

theorem opensValue_append_stop {x : Char} (hx : isInner x = false)
    (before after : List Char) :
    opensValue (before ++ x :: after) = opensValue (before ++ [x]) := by
  simp only [isInner, Bool.or_eq_false_iff, beq_eq_false_iff_ne] at hx
  obtain ⟨⟨-, hblank⟩, hequals⟩ := hx
  unfold opensValue
  rw [dropWhile_append_stop hblank, dropWhile_append_stop hblank]
  cases before.dropWhile Text.isBlank with
  | nil => simp [hequals]
  | cons c rest =>
      by_cases hc : c = '='
      · subst hc
        simp only [List.cons_append]
        rw [dropWhile_append_stop hblank, dropWhile_append_stop hblank]
        cases rest.dropWhile Text.isBlank <;> rfl
      · simp [hc]

theorem begins_append_stop {x : Char} (hx : isInner x = false) (before after : List Char) :
    begins (before ++ x :: after) = begins (before ++ [x]) := by
  have hname : x ∉ name := by
    simp only [isInner, Bool.or_eq_false_iff] at hx
    simpa using hx.1.1
  unfold begins
  rw [isPrefixOf_append_stop hname, isPrefixOf_append_stop hname]
  by_cases hmatch : name.isPrefixOf before = true
  · have hlength := (List.isPrefixOf_iff_prefix.mp hmatch).length_le
    rw [List.drop_append_of_le_length hlength, List.drop_append_of_le_length hlength,
      opensValue_append_stop hx]
  · rw [Bool.eq_false_of_not_eq_true hmatch]
    rfl

theorem of_begins {x : Char} (hx : isInner x = false) (before : List Char)
    (h : begins (before ++ [x]) = true) :
    ∃ lead, before = name ++ lead ∧ opensValue (lead ++ [x]) = true := by
  have hname : x ∉ name := by
    simp only [isInner, Bool.or_eq_false_iff] at hx
    simpa using hx.1.1
  rw [begins, isPrefixOf_append_stop hname, Bool.and_eq_true] at h
  obtain ⟨lead, rfl⟩ := List.isPrefixOf_iff_prefix.mp h.1
  exact ⟨lead, rfl, by simpa [List.append_assoc] using h.2⟩

theorem quotedValue?_of_not_opensValue {text : List Char} (h : opensValue text = false) :
    quotedValue? text = none := by
  unfold opensValue at h
  unfold quotedValue? splitBlanks
  dsimp only
  split
  · next rest hequals =>
      rw [hequals] at h
      split
      · next quote body hbody =>
          simp only [hbody, List.head?_cons, Option.any_some] at h
          rw [if_neg (by simp [h])]
      · rfl
  · rfl

theorem of_opensValue {text : List Char} (h : opensValue text = true) :
    ∃ first second quote body, text = first ++ '=' :: (second ++ quote :: body) ∧
      (∀ c ∈ first, Text.isBlank c = true) ∧ (∀ c ∈ second, Text.isBlank c = true) ∧
      isQuote quote = true := by
  unfold opensValue at h
  split at h
  · next rest hequals =>
      obtain ⟨quote, hhead, hquote⟩ := (Option.any_eq_true _ _).mp h
      obtain ⟨body, hbody⟩ := List.head?_eq_some_iff.mp hhead
      refine ⟨text.takeWhile Text.isBlank, rest.takeWhile Text.isBlank, quote, body, ?_,
        fun c hc => List.mem_takeWhile_imp hc, fun c hc => List.mem_takeWhile_imp hc, hquote⟩
      rw [← hbody, List.takeWhile_append_dropWhile, ← hequals,
        List.takeWhile_append_dropWhile]
  · cases h

theorem isQuote_eq_false_of_isBlank {c : Char} (h : Text.isBlank c = true) :
    isQuote c = false := by
  rw [isQuote, Bool.or_eq_false_iff, beq_eq_false_iff_ne, beq_eq_false_iff_ne]
  constructor <;> rintro rfl <;> revert h <;> decide

theorem isBlank_of_isQuote {c : Char} (h : isQuote c = true) : Text.isBlank c = false := by
  by_contra hblank
  rw [isQuote_eq_false_of_isBlank (by simpa using hblank)] at h
  cases h

theorem isQuote_of_mem_lead {first second : List Char}
    (hfirst : ∀ c ∈ first, Text.isBlank c = true) (hsecond : ∀ c ∈ second, Text.isBlank c = true)
    {c : Char} (hc : c ∈ first ++ '=' :: second) : isQuote c = false := by
  rw [List.mem_append, List.mem_cons] at hc
  rcases hc with hc | rfl | hc
  · exact isQuote_eq_false_of_isBlank (hfirst c hc)
  · rfl
  · exact isQuote_eq_false_of_isBlank (hsecond c hc)

theorem opensValue_lead {first second : List Char} {quote : Char}
    (hfirst : ∀ c ∈ first, Text.isBlank c = true) (hsecond : ∀ c ∈ second, Text.isBlank c = true)
    (hquote : isQuote quote = true) : opensValue (first ++ '=' :: second ++ [quote]) = true := by
  unfold opensValue
  rw [List.append_assoc, List.cons_append, dropWhile_stop hfirst (by decide)]
  show ((second ++ [quote]).dropWhile Text.isBlank).head?.any isQuote = true
  rw [dropWhile_stop hsecond (isBlank_of_isQuote hquote)]
  exact hquote

theorem lead_of_opensValue {lead : List Char} {quote : Char}
    (hlead : ∀ c ∈ lead, isQuote c = false) (hquote : isQuote quote = true)
    (h : opensValue (lead ++ [quote]) = true) :
    ∃ first second, lead = first ++ '=' :: second ∧
      (∀ c ∈ first, Text.isBlank c = true) ∧ ∀ c ∈ second, Text.isBlank c = true := by
  obtain ⟨first, second, quote', body, htext, hfirst, hsecond, hquote'⟩ := of_opensValue h
  refine ⟨first, second, ?_, hfirst, hsecond⟩
  have hplain : ∀ c ∈ first ++ '=' :: second, (!isQuote c) = true := fun c hc => by
    simp [isQuote_of_mem_lead hfirst hsecond hc]
  have hfront := congrArg (List.takeWhile fun c => !isQuote c) htext
  rw [takeWhile_stop (fun c hc => by simp [hlead c hc]) (by simp [hquote]),
    ← List.cons_append, ← List.append_assoc, takeWhile_stop hplain (by simp [hquote'])] at hfront
  exact hfront

theorem quotedValue?_of_opensValue {lead : List Char} {quote : Char}
    (hlead : ∀ c ∈ lead, isQuote c = false) (hquote : isQuote quote = true)
    (h : opensValue (lead ++ [quote]) = true) {value : List Char} (hvalue : quote ∉ value)
    (rest : List Char) :
    quotedValue? (lead ++ quote :: (value ++ quote :: rest)) = some ⟨lead, quote, rest⟩ := by
  obtain ⟨first, second, rfl, hfirst, hsecond⟩ := lead_of_opensValue hlead hquote h
  have hnotBlank := isBlank_of_isQuote hquote
  have hbody : (value ++ quote :: rest).dropWhile (fun c => decide (c ≠ quote)) = quote :: rest :=
    dropWhile_stop (fun c hc => by simpa using fun heq : c = quote => hvalue (heq ▸ hc))
      (by simp) rest
  unfold quotedValue? splitBlanks
  rw [List.append_assoc, List.cons_append, dropWhile_stop hfirst (by decide),
    takeWhile_stop hfirst (by decide)]
  simp only [dropWhile_stop hsecond hnotBlank, takeWhile_stop hsecond hnotBlank, if_pos hquote,
    hbody]

theorem of_quotedValue? {text : List Char} {found : QuotedValue}
    (h : quotedValue? text = some found) :
    ∃ old, text = found.lead ++ found.quote :: (old ++ found.quote :: found.rest) ∧
      found.quote ∉ old ∧ isQuote found.quote = true ∧ (∀ c ∈ found.lead, isQuote c = false) ∧
        opensValue (found.lead ++ [found.quote]) = true := by
  unfold quotedValue? splitBlanks at h
  dsimp only at h
  split at h
  · next afterEquals hequals =>
      obtain ⟨first, rfl, hfirst, -⟩ := dropWhile_eq_cons_iff.mp hequals
      split at h
      · next quote body hbody =>
          obtain ⟨second, rfl, hsecond, hblank⟩ := dropWhile_eq_cons_iff.mp hbody
          split at h
          · next hquote =>
              split at h
              · next closing rest hrest =>
                  obtain ⟨old, rfl, hold, hclosing⟩ := dropWhile_eq_cons_iff.mp hrest
                  obtain rfl : closing = quote := by simpa using hclosing
                  cases h
                  rw [takeWhile_stop hfirst (by decide), takeWhile_stop hsecond hblank]
                  exact ⟨old, by simp, fun hmem => by simpa using hold _ hmem, hquote,
                    fun c => isQuote_of_mem_lead hfirst hsecond,
                    opensValue_lead hfirst hsecond hquote⟩
              · cases h
          · cases h
      · cases h
  · cases h

def valueAt? (blank : Bool) (text : List Char) : Option QuotedValue :=
  if blank && name.isPrefixOf text then quotedValue? (text.drop name.length) else none

theorem length_valueAt? {blank : Bool} {text : List Char} {found : QuotedValue}
    (h : valueAt? blank text = some found) : found.rest.length < text.length := by
  unfold valueAt? at h
  split at h
  · next hname =>
      rw [Bool.and_eq_true] at hname
      have hlength := (List.isPrefixOf_iff_prefix.mp hname.2).length_le
      have hle := length_quotedValue?_le h
      have hpos := length_name_pos
      rw [List.length_drop] at hle
      omega
  · cases h

theorem of_valueAt? {blank : Bool} {text : List Char} {found : QuotedValue}
    (h : valueAt? blank text = some found) :
    blank = true ∧
      ∃ old, text = name ++ (found.lead ++ found.quote :: (old ++ found.quote :: found.rest)) ∧
        found.quote ∉ old ∧ isQuote found.quote = true ∧
          (∀ c ∈ found.lead, isQuote c = false) ∧
            opensValue (found.lead ++ [found.quote]) = true := by
  unfold valueAt? at h
  split at h
  · next hname =>
      rw [Bool.and_eq_true] at hname
      obtain ⟨after, rfl⟩ := List.isPrefixOf_iff_prefix.mp hname.2
      rw [List.drop_left] at h
      obtain ⟨old, rfl, hfound⟩ := of_quotedValue? h
      exact ⟨hname.1, old, rfl, hfound⟩
  · cases h

theorem valueAt?_name {lead : List Char} {quote : Char} (hlead : ∀ c ∈ lead, isQuote c = false)
    (hquote : isQuote quote = true) (h : opensValue (lead ++ [quote]) = true) {old : List Char}
    (hold : quote ∉ old) (rest : List Char) :
    valueAt? true (name ++ (lead ++ quote :: (old ++ quote :: rest))) =
      some ⟨lead, quote, rest⟩ := by
  unfold valueAt?
  rw [Bool.true_and, if_pos (List.isPrefixOf_iff_prefix.mpr (List.prefix_append _ _)),
    List.drop_left]
  exact quotedValue?_of_opensValue hlead hquote h hold rest

theorem valueAt?_append {blank : Bool} {text : List Char} {found : QuotedValue}
    (h : valueAt? blank text = some found) (after : List Char) :
    valueAt? blank (text ++ after) = some { found with rest := found.rest ++ after } := by
  obtain ⟨rfl, old, rfl, hold, hquote, hlead, hopens⟩ := of_valueAt? h
  simpa only [List.append_assoc, List.cons_append] using
    valueAt?_name hlead hquote hopens hold (found.rest ++ after)

/-- The replacement, character by character. -/
def replaced (value : List Char) (blank : Bool) (text : List Char) : List Char :=
  match text with
  | [] => []
  | c :: rest =>
    match h : valueAt? blank (c :: rest) with
    | some found =>
      have : found.rest.length ≤ rest.length := Nat.le_of_lt_succ (length_valueAt? h)
      name ++ found.lead ++ found.quote :: value ++ found.quote ::
        replaced value false found.rest
    | none => c :: replaced value (Text.isBlank c) rest
termination_by text.length
decreasing_by
  · simp only [List.length_cons]
    omega
  · simp

variable {value : List Char}

@[simp] theorem replaced_nil (blank : Bool) : replaced value blank [] = [] := by
  rw [replaced]

theorem replaced_cons {blank : Bool} {c : Char} {rest : List Char}
    (h : valueAt? blank (c :: rest) = none) :
    replaced value blank (c :: rest) = c :: replaced value (Text.isBlank c) rest := by
  rw [replaced]
  split
  · next hsome => rw [h] at hsome; cases hsome
  · rfl

theorem replaced_of_valueAt? {blank : Bool} {text : List Char} {found : QuotedValue}
    (h : valueAt? blank text = some found) :
    replaced value blank text = name ++ found.lead ++ found.quote :: value ++
      found.quote :: replaced value false found.rest := by
  cases text with
  | nil => simp [valueAt?, name] at h
  | cons c rest =>
      rw [replaced]
      split
      · next hsome => rw [h] at hsome; cases hsome; rfl
      · next hnone => rw [h] at hnone; cases hnone

theorem replaced_cons_false (c : Char) (rest : List Char) :
    replaced value false (c :: rest) = c :: replaced value (Text.isBlank c) rest :=
  replaced_cons rfl

theorem head?_replaced (text : List Char) : (replaced value false text).head? = text.head? := by
  cases text with
  | nil => rw [replaced_nil]
  | cons c rest => rw [replaced_cons_false, List.head?_cons, List.head?_cons]

theorem valueAt?_of_not_begins {blank : Bool} {text : List Char}
    (h : (blank && begins text) = false) : valueAt? blank text = none := by
  unfold valueAt?
  split
  · next hname =>
      rw [Bool.and_eq_true] at hname
      rw [hname.1, begins, hname.2, Bool.true_and, Bool.true_and] at h
      exact quotedValue?_of_not_opensValue h
  · rfl

theorem isBlank_of_not_isInner {c : Char} (h : isInner c = false) : Text.isBlank c = false := by
  simp only [isInner, Bool.or_eq_false_iff] at h
  exact h.1.2

theorem isInner_of_isQuote {c : Char} (h : isQuote c = true) : isInner c = false := by
  rw [isQuote, Bool.or_eq_true, beq_iff_eq, beq_iff_eq] at h
  rcases h with rfl | rfl <;> decide

theorem not_begins_quote {quote : Char} (hquote : isQuote quote = true) :
    begins [quote] = false := by
  rw [isQuote, Bool.or_eq_true, beq_iff_eq, beq_iff_eq] at hquote
  rcases hquote with rfl | rfl <;> rfl

theorem opens_of_no_quote {text : List Char} (htext : ∀ c ∈ text, isQuote c = false)
    (blank : Bool) : opens blank text = false := by
  induction text generalizing blank with
  | nil => rfl
  | cons c text ih =>
      rw [opens_cons, ih fun c hc => htext c (List.mem_cons_of_mem _ hc), Bool.or_false,
        Bool.and_eq_false_iff]
      refine .inr ?_
      by_contra hbegins
      rw [Bool.not_eq_false, begins, Bool.and_eq_true] at hbegins
      obtain ⟨first, second, quote, body, hdrop, -, -, hquote⟩ := of_opensValue hbegins.2
      have hmem : quote ∈ (c :: text).drop name.length := by
        rw [hdrop]
        simp
      rw [htext quote (List.mem_of_mem_drop hmem)] at hquote
      cases hquote

theorem replaced_copy {x : Char} (hx : isInner x = false) (rest : List Char) {blank : Bool}
    {text : List Char} (h : opens blank (text ++ [x]) = false) :
    replaced value blank (text ++ x :: rest) = text ++ x :: replaced value false rest := by
  induction text generalizing blank with
  | nil =>
      rw [List.nil_append, replaced_cons, isBlank_of_not_isInner hx, List.nil_append]
      refine valueAt?_of_not_begins ?_
      rw [List.nil_append, opens_cons, Bool.or_eq_false_iff] at h
      rw [← List.nil_append (x :: rest), begins_append_stop hx]
      exact h.1
  | cons c text ih =>
      rw [List.cons_append, opens_cons, Bool.or_eq_false_iff, ← List.cons_append,
        ← begins_append_stop hx _ rest] at h
      have hnone : valueAt? blank (c :: (text ++ x :: rest)) = none :=
        valueAt?_of_not_begins h.1
      rw [List.cons_append, replaced_cons hnone, ih h.2, List.cons_append]

theorem replaced_all {blank : Bool} {text : List Char} (h : opens blank text = false) :
    replaced value blank text = text := by
  induction text generalizing blank with
  | nil => exact replaced_nil blank
  | cons c text ih =>
      rw [opens_cons, Bool.or_eq_false_iff] at h
      rw [replaced_cons (valueAt?_of_not_begins h.1), ih h.2]

theorem replaced_value {quote : Char} (hquote : isQuote quote = true) {old : List Char}
    (hold : quote ∉ old) (rest : List Char) {blank : Bool} {text : List Char}
    (htext : ∀ c ∈ text, isQuote c = false) (h : opens blank (text ++ [quote]) = true) :
    replaced value blank (text ++ quote :: (old ++ quote :: rest)) =
      text ++ quote :: (value ++ quote :: replaced value false rest) := by
  have hinner := isInner_of_isQuote hquote
  induction text generalizing blank with
  | nil =>
      rw [List.nil_append, opens_cons, not_begins_quote hquote] at h
      simp [opens] at h
  | cons c text ih =>
      rw [List.cons_append, opens_cons] at h
      rcases Bool.eq_false_or_eq_true (blank && begins (c :: (text ++ [quote]))) with hhere | hhere
      · obtain ⟨rfl, hbegins⟩ := Bool.and_eq_true_iff.mp hhere
        obtain ⟨lead, hlead, hopens⟩ := of_begins hinner (c :: text) hbegins
        have hplain : ∀ c ∈ lead, isQuote c = false := fun c hc =>
          htext c (hlead ▸ List.mem_append_right _ hc)
        rw [hlead, List.append_assoc]
        have hvalue := valueAt?_name hplain hquote hopens hold rest
        rw [replaced_of_valueAt? hvalue]
        simp only [List.append_assoc, List.cons_append]
      · rw [hhere, Bool.false_or] at h
        have hnone :
            (blank && begins (c :: (text ++ quote :: (old ++ quote :: rest)))) = false := by
          rw [← List.cons_append, begins_append_stop hinner]
          exact hhere
        rw [List.cons_append, replaced_cons (valueAt?_of_not_begins hnone),
          ih (fun c hc => htext c (List.mem_cons_of_mem _ hc)) h, List.cons_append]

theorem of_opens {quote : Char} (hquote : isQuote quote = true) {blank : Bool}
    {text : List Char} (htext : ∀ c ∈ text, isQuote c = false)
    (h : opens blank (text ++ [quote]) = true) :
    ∃ before first second, text = before ++ (name ++ (first ++ '=' :: second)) ∧
      (∀ c ∈ first, Text.isBlank c = true) ∧ ∀ c ∈ second, Text.isBlank c = true := by
  induction text generalizing blank with
  | nil =>
      rw [List.nil_append, opens_cons, not_begins_quote hquote] at h
      simp [opens] at h
  | cons c text ih =>
      have hrest : ∀ c ∈ text, isQuote c = false := fun c hc => htext c (List.mem_cons_of_mem _ hc)
      rw [List.cons_append, opens_cons, Bool.or_eq_true, Bool.and_eq_true] at h
      rcases h with ⟨-, hbegins⟩ | h
      · obtain ⟨lead, hlead, hopens⟩ :=
          of_begins (isInner_of_isQuote hquote) (c :: text) hbegins
        have hplain : ∀ c ∈ lead, isQuote c = false := fun c hc =>
          htext c (hlead ▸ List.mem_append_right _ hc)
        obtain ⟨first, second, rfl, hblanks⟩ := lead_of_opensValue hplain hquote hopens
        exact ⟨[], first, second, hlead, hblanks⟩
      · obtain ⟨before, first, second, rfl, hblanks⟩ := ih hrest h
        exact ⟨c :: before, first, second, rfl, hblanks⟩

/-- A value that can stand in every pair of quotes, and stands for itself there. -/
structure Plain (value : List Char) : Prop where
  quote : ∀ c ∈ value, isQuote c = false
  reference : '&' ∉ value
  dash : '-' ∉ value

/-- Whether every tempo attribute that begins in a text ends in it. -/
def complete (blank : Bool) (text : List Char) : Bool :=
  match text with
  | [] => true
  | c :: rest =>
    match h : valueAt? blank (c :: rest) with
    | some found =>
      have : found.rest.length ≤ rest.length := Nat.le_of_lt_succ (length_valueAt? h)
      complete false found.rest
    | none => !(blank && begins (c :: rest)) && complete (Text.isBlank c) rest
termination_by text.length
decreasing_by
  · simp only [List.length_cons]
    omega
  · simp

theorem opensValue_append_plain {x : Char} (hx : isInner x = false) (hquote : isQuote x = false)
    (text : List Char) : opensValue (text ++ [x]) = opensValue text := by
  simp only [isInner, Bool.or_eq_false_iff, beq_eq_false_iff_ne] at hx
  obtain ⟨⟨-, hblank⟩, hequals⟩ := hx
  unfold opensValue
  rw [dropWhile_append_stop hblank]
  cases text.dropWhile Text.isBlank with
  | nil => simp [hequals]
  | cons c rest =>
      by_cases hc : c = '='
      · subst hc
        simp only [List.cons_append]
        rw [dropWhile_append_stop hblank]
        cases rest.dropWhile Text.isBlank with
        | nil => simpa using hquote
        | cons d others => rfl
      · simp [hc]

theorem begins_append_plain {x : Char} (hx : isInner x = false) (hquote : isQuote x = false)
    (text after : List Char) : begins (text ++ x :: after) = begins text := by
  have hname : x ∉ name := by
    simp only [isInner, Bool.or_eq_false_iff] at hx
    simpa using hx.1.1
  rw [begins_append_stop hx]
  unfold begins
  rw [isPrefixOf_append_stop hname]
  by_cases hmatch : name.isPrefixOf text = true
  · have hlength := (List.isPrefixOf_iff_prefix.mp hmatch).length_le
    rw [List.drop_append_of_le_length hlength, opensValue_append_plain hx hquote]
  · rw [Bool.eq_false_of_not_eq_true hmatch]
    rfl

theorem replaced_complete {x : Char} (hx : isInner x = false) (hquote : isQuote x = false)
    (after : List Char) {blank : Bool} {text : List Char} (h : complete blank text = true) :
    replaced value blank (text ++ x :: after) =
      replaced value blank text ++ x :: replaced value false after := by
  fun_induction complete blank text with
  | case1 blank =>
      rw [List.nil_append, replaced_nil, List.nil_append, replaced_cons,
        isBlank_of_not_isInner hx]
      refine valueAt?_of_not_begins ?_
      rw [← List.nil_append (x :: after), begins_append_plain hx hquote]
      exact Bool.and_false blank
  | case2 blank c rest found hfound hlength ih =>
      rw [replaced_of_valueAt? hfound, replaced_of_valueAt? (valueAt?_append hfound _), ih h]
      simp only [List.append_assoc, List.cons_append]
  | case3 blank c rest hnone ih =>
      rw [Bool.and_eq_true, Bool.not_eq_true'] at h
      have hplain : (blank && begins (c :: (rest ++ x :: after))) = false := by
        rw [← List.cons_append, begins_append_plain hx hquote]
        exact h.1
      rw [List.cons_append, replaced_cons (valueAt?_of_not_begins hplain), ih h.2,
        replaced_cons hnone, List.cons_append]

theorem isPrefixOf_replaced {mark : List Char} (hmark : ∀ c ∈ mark, isQuote c = false)
    (blank : Bool) (text after : List Char) :
    mark.isPrefixOf (replaced value blank text ++ after) = mark.isPrefixOf (text ++ after) := by
  fun_induction replaced value blank text generalizing mark with
  | case1 => rfl
  | case2 blank c rest found hfound hlength ih =>
      obtain ⟨-, old, htext, -, hquote, -, -⟩ := of_valueAt? hfound
      have hnot : found.quote ∉ mark := fun hmem => by
        rw [hmark _ hmem] at hquote
        cases hquote
      rw [htext]
      simp only [List.append_assoc, List.cons_append]
      rw [← List.append_assoc name, isPrefixOf_append_stop hnot, ← List.append_assoc name,
        isPrefixOf_append_stop hnot]
  | case3 blank c rest hnone ih =>
      cases mark with
      | nil => rfl
      | cons m mark =>
          rw [List.cons_append, List.cons_append, List.isPrefixOf_cons_cons,
            List.isPrefixOf_cons_cons, ih fun c hc => hmark c (List.mem_cons_of_mem m hc)]

def blankAfter (blank : Bool) (text : List Char) : Bool :=
  (text.getLast?.map Text.isBlank).getD blank

theorem blankAfter_cons (blank : Bool) (c : Char) (text : List Char) :
    blankAfter blank (c :: text) = blankAfter (Text.isBlank c) text := by
  unfold blankAfter
  rw [List.getLast?_cons]
  cases text.getLast? <;> rfl

theorem blankAfter_false (text : List Char) : blankAfter false text = endsInBlank text := by
  unfold blankAfter endsInBlank
  cases text.getLast? <;> rfl

theorem valueAt?_of_not_name {blank : Bool} {text : List Char}
    (h : ¬ name.isPrefixOf text = true) : valueAt? blank text = none := by
  unfold valueAt?
  rw [if_neg (by simp [h])]

theorem replaced_of_splitAtText?_none {text : List Char}
    (h : Text.splitAtText? name text = none) (blank : Bool) :
    replaced value blank text = text := by
  induction text generalizing blank with
  | nil => exact replaced_nil blank
  | cons c text ih =>
      rw [Text.splitAtText?_cons] at h
      split at h
      · cases h
      · next hname =>
          rw [replaced_cons (valueAt?_of_not_name hname), ih (Option.map_eq_none_iff.mp h)]

theorem replaced_of_splitAtText? {before after text : List Char}
    (h : Text.splitAtText? name text = some (before, after)) (blank : Bool) :
    replaced value blank text =
      before ++ replaced value (blankAfter blank before) (name ++ after) := by
  induction text generalizing before blank with
  | nil => cases h
  | cons c text ih =>
      have htext := Text.splitAtText?_eq h
      rw [Text.splitAtText?_cons] at h
      split at h
      · cases h
        rw [htext]
        rfl
      · next hname =>
          obtain ⟨⟨first, last⟩, hfound, hpair⟩ := Option.map_eq_some_iff.mp h
          cases hpair
          rw [replaced_cons (valueAt?_of_not_name hname), ih hfound, blankAfter_cons,
            List.cons_append]

theorem replaced_name_append {blank : Bool} {after : List Char}
    (h : valueAt? blank (name ++ after) = none) :
    replaced value blank (name ++ after) = name ++ replaced value false after := by
  have hcopy : ∀ (c : Char) (rest : List Char), Text.isBlank c = false →
      replaced value false (c :: rest) = c :: replaced value false rest := by
    intro c rest hc
    rw [replaced_cons_false, hc]
  have hname : name = ['t', 'e', 'm', 'p', 'o'] := rfl
  rw [hname] at h ⊢
  simp only [List.cons_append, List.nil_append] at h ⊢
  rw [replaced_cons h, show Text.isBlank 't' = false from rfl, hcopy 'e' _ rfl,
    hcopy 'm' _ rfl, hcopy 'p' _ rfl, hcopy 'o' _ rfl]

theorem valueAt?_name_append (blank : Bool) (after : List Char) :
    valueAt? blank (name ++ after) = if blank then quotedValue? after else none := by
  unfold valueAt?
  rw [List.isPrefixOf_iff_prefix.mpr (List.prefix_append _ _), Bool.and_true, List.drop_left]

theorem replaceAll_eq (value text : List Char) :
    replaceAll value text = replaced value false text := by
  fun_induction replaceAll value text with
  | case1 text hname => rw [replaced_of_splitAtText?_none hname]
  | case2 text before after hname hafter hvalue ih =>
      have hnone : valueAt? (endsInBlank before) (name ++ after) = none :=
        (valueAt?_name_append _ _).trans hvalue
      rw [replaced_of_splitAtText? hname, blankAfter_false, replaced_name_append hnone, ih,
        List.append_assoc]
  | case3 text before after hname hafter found hvalue hlength ih =>
      have hsome : valueAt? (endsInBlank before) (name ++ after) = some found :=
        (valueAt?_name_append _ _).trans hvalue
      rw [replaced_of_splitAtText? hname, blankAfter_false, replaced_of_valueAt? hsome, ih]
      simp only [List.append_assoc, List.cons_append]

end TempoAttribute
end Rubato
