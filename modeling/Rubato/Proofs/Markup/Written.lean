import Rubato.Markup.Event
import Rubato.Proofs.Tempo.Rewriting

namespace Rubato.Markup

theorem bind_eq_ok_iff {ε β γ : Type} {first : Except ε β} {next : β → Except ε γ} {c : γ} :
    first >>= next = .ok c ↔ ∃ b, first = .ok b ∧ next b = .ok c := by
  cases first with
  | error fault =>
      constructor
      · intro h
        cases h
      · rintro ⟨_, hb, -⟩
        cases hb
  | ok b =>
      constructor
      · exact fun h => ⟨b, rfl, h⟩
      · rintro ⟨_, hb, h⟩
        cases hb
        exact h

theorem mapError_eq_ok_iff {ε δ β : Type} {f : ε → δ} {result : Except ε β} {b : β} :
    result.mapError f = .ok b ↔ result = .ok b := by
  cases result <;> simp [Except.mapError]

theorem cut_eq_cons_iff {stop : Char → Bool} {text before after : List Char} {x : Char} :
    cut stop text = (before, x :: after) ↔
      text = before ++ x :: after ∧ (∀ c ∈ before, stop c = false) ∧ stop x = true := by
  constructor
  · intro h
    have htext := cut_append stop text
    rw [h] at htext
    refine ⟨htext.symm, fun c hc => ?_, ?_⟩
    · have hmem : c ∈ (cut stop text).1 := by rw [h]; exact hc
      simpa using List.mem_takeWhile_imp hmem
    · have hx := List.head?_dropWhile_not (fun c => !stop c) text
      rw [show text.dropWhile (fun c => !stop c) = x :: after from congrArg Prod.snd h] at hx
      simpa using hx
  · rintro ⟨rfl, hbefore, hx⟩
    unfold cut
    rw [takeWhile_stop (by simpa using hbefore) (by simp [hx]),
      dropWhile_stop (by simpa using hbefore) (by simp [hx])]

theorem cut_eq_nil_iff {stop : Char → Bool} {text before : List Char} :
    cut stop text = (before, []) ↔ before = text ∧ ∀ c ∈ text, stop c = false := by
  constructor
  · intro h
    have htext := cut_append stop text
    rw [h, List.append_nil] at htext
    refine ⟨htext, fun c hc => ?_⟩
    have hnil : text.dropWhile (fun c => !stop c) = [] := congrArg Prod.snd h
    simpa using List.dropWhile_eq_nil_iff.mp hnil c hc
  · rintro ⟨rfl, hbefore⟩
    unfold cut
    rw [List.takeWhile_eq_self_iff.mpr (by simpa using hbefore),
      List.dropWhile_eq_nil_iff.mpr (by simpa using hbefore)]

def endsName (c : Char) : Bool := c == '=' || isSpace c

/-- An attribute with the white space before it, around its `=`, and its quote. -/
structure WrittenAttribute where
  space : List Char
  first : Char
  others : List Char
  gap : List Char
  lead : List Char
  quote : Char
  value : List Char
  isSpace_of_mem_space : ∀ c ∈ space, isSpace c = true
  first_not_space : isSpace first = false
  not_endsName : ∀ c ∈ others, endsName c = false
  isSpace_of_mem_gap : ∀ c ∈ gap, isSpace c = true
  isSpace_of_mem_lead : ∀ c ∈ lead, isSpace c = true
  isQuote_quote : isQuote quote = true
  quote_not_mem : quote ∉ value

namespace WrittenAttribute

def name (written : WrittenAttribute) : List Char := written.first :: written.others

def head (written : WrittenAttribute) : List Char :=
  written.space ++ (written.name ++ (written.gap ++ '=' :: written.lead))

def before (written : WrittenAttribute) (rest : List Char) : List Char :=
  written.head ++ written.quote :: (written.value ++ written.quote :: rest)

/-- The attribute when `length` is the length of its tag and `rest` stands behind it. -/
def raw (written : WrittenAttribute) (length : Nat) (rest : List Char) : RawAttribute :=
  ⟨written.name, length - bytes ((written.before rest).dropWhile isSpace), written.value⟩

end WrittenAttribute

theorem isSpace_of_isQuote {c : Char} (h : isQuote c = true) : isSpace c = false := by
  rw [isQuote, Bool.or_eq_true, beq_iff_eq, beq_iff_eq] at h
  rcases h with rfl | rfl <;> decide

theorem quotedValue_eq_ok_iff {length : Nat} {text value rest : List Char} :
    quotedValue length text = .ok (value, rest) ↔
      ∃ lead quote, text = lead ++ quote :: (value ++ quote :: rest) ∧
        (∀ c ∈ lead, isSpace c = true) ∧ isQuote quote = true ∧ quote ∉ value := by
  constructor
  · intro h
    unfold quotedValue at h
    split at h
    · cases h
    · next quote body hbody =>
        obtain ⟨lead, rfl, hlead, -⟩ := dropWhile_eq_cons_iff.mp hbody
        split at h
        · next hquote =>
            split at h
            · next value' close rest' hcut =>
                cases h
                obtain ⟨rfl, hvalue, hclose⟩ := cut_eq_cons_iff.mp hcut
                obtain rfl : close = quote := by simpa using hclose
                exact ⟨lead, close, rfl, hlead, hquote, fun hmem => by simpa using hvalue _ hmem⟩
            · cases h
        · cases h
  · rintro ⟨lead, quote, rfl, hlead, hquote, hvalue⟩
    have hcut : cut (· == quote) (value ++ quote :: rest) = (value, quote :: rest) :=
      cut_eq_cons_iff.mpr ⟨rfl, fun c hc => by
        simpa using fun heq : c = quote => hvalue (heq ▸ hc), by simp⟩
    unfold quotedValue
    rw [dropWhile_stop hlead (isSpace_of_isQuote hquote)]
    simp only [if_pos hquote, hcut]

theorem lookup_eq_none_iff_not_mem {earlier : List (List Char × Nat)} {name : List Char} :
    earlier.lookup name = none ↔ name ∉ earlier.map Prod.fst := by
  rw [List.lookup_eq_none_iff]
  simp only [List.mem_map, not_exists, not_and, bne_iff_ne]
  exact ⟨fun h entry hentry heq => h entry hentry heq.symm,
    fun h entry hentry heq => h entry hentry heq.symm⟩

theorem of_rawAttribute {length : Nat} {earlier : List (List Char × Nat)} {first : Char}
    {text rest : List Char} {raw : RawAttribute}
    (h : rawAttribute length earlier first text = .ok (raw, rest)) {space : List Char}
    (hspace : ∀ c ∈ space, isSpace c = true) (hfirst : isSpace first = false) :
    ∃ written : WrittenAttribute, space ++ first :: text = written.before rest ∧
      raw.name = written.name ∧ raw.value = written.value ∧
      raw.name ∉ earlier.map Prod.fst := by
  unfold rawAttribute at h
  dsimp only at h
  split at h
  · next afterEquals hequals =>
      obtain ⟨gap, hgapText, hgap, -⟩ := dropWhile_eq_cons_iff.mp hequals
      have hname : text = (cut endsName text).1 ++ (gap ++ '=' :: afterEquals) :=
        (cut_append endsName text).symm.trans (congrArg _ hgapText)
      have hothers : ∀ c ∈ (cut endsName text).1, endsName c = false := fun c hc => by
        simpa using List.mem_takeWhile_imp hc
      split at h
      · cases h
      · next hlookup =>
          split at h
          · next value rest' hvalue =>
              cases h
              obtain ⟨lead, quote, rfl, hlead, hquote, hnot⟩ := quotedValue_eq_ok_iff.mp hvalue
              refine ⟨⟨space, first, _, gap, lead, quote, value, hspace, hfirst, hothers, hgap,
                hlead, hquote, hnot⟩, ?_, rfl, rfl, lookup_eq_none_iff_not_mem.mp hlookup⟩
              simp only [WrittenAttribute.before, WrittenAttribute.head, WrittenAttribute.name,
                List.append_assoc, List.cons_append]
              rw [← hname]
          · cases h
  · cases h

namespace WrittenAttribute

variable (written : WrittenAttribute)

theorem dropWhile_before (rest : List Char) :
    (written.before rest).dropWhile isSpace =
      written.first :: (written.others ++ (written.gap ++ '=' :: (written.lead ++
        written.quote :: (written.value ++ written.quote :: rest)))) := by
  simp only [before, head, name, List.append_assoc, List.cons_append]
  exact dropWhile_stop written.isSpace_of_mem_space written.first_not_space _

theorem cut_others (rest : List Char) :
    cut endsName (written.others ++ (written.gap ++ '=' :: rest)) =
      (written.others, written.gap ++ '=' :: rest) := by
  cases hgap : written.gap with
  | nil => exact cut_eq_cons_iff.mpr ⟨rfl, written.not_endsName, rfl⟩
  | cons c gap =>
      refine cut_eq_cons_iff.mpr ⟨rfl, written.not_endsName, ?_⟩
      rw [endsName, written.isSpace_of_mem_gap c (hgap ▸ List.mem_cons_self), Bool.or_true]

theorem rawAttribute_before {length : Nat} {earlier : List (List Char × Nat)}
    {rest text : List Char} (hname : written.name ∉ earlier.map Prod.fst) {first : Char}
    (htext : (written.before rest).dropWhile isSpace = first :: text) :
    ∃ place, rawAttribute length earlier first text =
      .ok (⟨written.name, place, written.value⟩, rest) := by
  rw [dropWhile_before] at htext
  obtain ⟨rfl, rfl⟩ := List.cons.inj htext
  have hcut := written.cut_others (written.lead ++
    written.quote :: (written.value ++ written.quote :: rest))
  have hvalue : ∀ length, quotedValue length (written.lead ++
      written.quote :: (written.value ++ written.quote :: rest)) = .ok (written.value, rest) :=
    fun length => quotedValue_eq_ok_iff.mpr ⟨_, _, rfl, written.isSpace_of_mem_lead,
      written.isQuote_quote, written.quote_not_mem⟩
  have hlookup : earlier.lookup (written.first :: written.others) = none :=
    lookup_eq_none_iff_not_mem.mpr hname
  unfold rawAttribute
  unfold endsName at hcut
  simp only [hcut, dropWhile_stop written.isSpace_of_mem_gap (show isSpace '=' = false from rfl),
    hlookup, hvalue]
  exact ⟨_, rfl⟩

end WrittenAttribute

def attributesText (attributes : List WrittenAttribute) (rest : List Char) : List Char :=
  attributes.foldr WrittenAttribute.before rest

@[simp] theorem attributesText_nil (rest : List Char) : attributesText [] rest = rest := rfl

@[simp] theorem attributesText_cons (written : WrittenAttribute)
    (attributes : List WrittenAttribute) (rest : List Char) :
    attributesText (written :: attributes) rest =
      written.before (attributesText attributes rest) := rfl

def WrittenAttribute.Means (written : WrittenAttribute) (meant : Attribute) : Prop :=
  resolvedAttribute ⟨written.name, 0, written.value⟩ = .ok meant

def FreshNames (earlier : List (List Char)) : List WrittenAttribute → Prop
  | [] => True
  | written :: rest => written.name ∉ earlier ∧ FreshNames (written.name :: earlier) rest

theorem of_attributesFrom {length : Nat} {earlier : List (List Char × Nat)}
    {text : List Char} {attributes : List Attribute}
    (h : attributesFrom length earlier text = .ok attributes) :
    ∃ (written : List WrittenAttribute) (tail : List Char),
      text = attributesText written tail ∧ (∀ c ∈ tail, isSpace c = true) ∧
      FreshNames (earlier.map Prod.fst) written ∧
      List.Forall₂ WrittenAttribute.Means written attributes := by
  fun_induction attributesFrom length earlier text generalizing attributes with
  | case1 earlier text hspace =>
      cases h
      exact ⟨[], text, rfl, List.dropWhile_eq_nil_iff.mp hspace, trivial, .nil⟩
  | case2 earlier text initial body hspace fault hraw => cases h
  | case3 earlier text initial body hspace raw rest hraw hlength ih =>
      obtain ⟨space, rfl, hbefore, hfirst⟩ := dropWhile_eq_cons_iff.mp hspace
      obtain ⟨one, htext, hname, hvalue, hnew⟩ := of_rawAttribute hraw hbefore hfirst
      obtain ⟨meant, hmeant, h⟩ := bind_eq_ok_iff.mp h
      obtain ⟨others, hothers, h⟩ := bind_eq_ok_iff.mp h
      cases h
      obtain ⟨written, tail, rfl, htail, hfresh, hmeans⟩ := ih hothers
      refine ⟨one :: written, tail, htext, htail, ⟨?_, ?_⟩, .cons ?_ hmeans⟩
      · rwa [← hname]
      · rwa [← hname]
      · unfold WrittenAttribute.Means
        rw [← hname, ← hvalue]
        exact hmeant

theorem attributesFrom_text {length : Nat} {earlier : List (List Char × Nat)}
    {written : List WrittenAttribute} {tail : List Char} (htail : ∀ c ∈ tail, isSpace c = true)
    (hnames : FreshNames (earlier.map Prod.fst) written) {attributes : List Attribute}
    (hmeans : List.Forall₂ WrittenAttribute.Means written attributes) :
    attributesFrom length earlier (attributesText written tail) = .ok attributes := by
  induction hmeans generalizing earlier with
  | nil =>
      rw [attributesFrom]
      split
      · rfl
      · next hspace =>
          rw [attributesText_nil, List.dropWhile_eq_nil_iff.mpr htail] at hspace
          cases hspace
  | @cons one meant written others hone _ ih =>
      have hspace := one.dropWhile_before (attributesText written tail)
      rw [attributesFrom, attributesText_cons]
      split
      · next hnil =>
          rw [hspace] at hnil
          cases hnil
      · next initial body hcons =>
          obtain ⟨place, hraw⟩ : ∃ place, rawAttribute length earlier initial body =
              .ok (⟨one.name, place, one.value⟩, attributesText written tail) :=
            one.rawAttribute_before hnames.1 hcons
          split
          · next fault hfault =>
              rw [hraw] at hfault
              cases hfault
          · next raw rest hok =>
              rw [hraw] at hok
              cases hok
              have hfirst : resolvedAttribute ⟨one.name, place, one.value⟩ = .ok meant := hone
              have hrest := @ih ((one.name, place) :: earlier) hnames.2
              exact bind_eq_ok_iff.mpr ⟨meant, hfirst, bind_eq_ok_iff.mpr ⟨others, hrest, rfl⟩⟩

end Rubato.Markup
