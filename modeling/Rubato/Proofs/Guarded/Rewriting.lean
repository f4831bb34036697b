import Rubato.Markup.Bytes
import Rubato.Proofs.Tempo.Rewriting

namespace Rubato

/-! Checked runs of the replacement of tempo attributes. Places are bytes of the UTF-8 form;
a cut fails inside a character, and the loop when its turns do not suffice. -/

namespace Text

open Markup (bytes)

def cutAt? : Nat → List Char → Option (List Char × List Char)
  | 0, text => some ([], text)
  | _ + 1, [] => none
  | place + 1, c :: rest =>
    if c.utf8Size ≤ place + 1 then
      (cutAt? (place + 1 - c.utf8Size) rest).map fun (before, after) => (c :: before, after)
    else none

example : cutAt? 1 ['é', 'x'] = none ∧ cutAt? 2 ['é', 'x'] = some (['é'], ['x']) := by decide

theorem of_cutAt? {place : Nat} {text before after : List Char}
    (h : cutAt? place text = some (before, after)) :
    text = before ++ after ∧ bytes before = place := by
  induction text generalizing place before with
  | nil =>
      cases place with
      | zero =>
          cases h
          exact ⟨rfl, rfl⟩
      | succ place => cases h
  | cons c rest ih =>
      cases place with
      | zero =>
          cases h
          exact ⟨rfl, rfl⟩
      | succ place =>
          rw [cutAt?] at h
          split at h
          · obtain ⟨⟨first, last⟩, hfound, hpair⟩ := Option.map_eq_some_iff.mp h
            cases hpair
            obtain ⟨rfl, hbytes⟩ := ih hfound
            refine ⟨rfl, ?_⟩
            rw [Markup.bytes_cons, hbytes]
            omega
          · cases h

theorem cutAt?_bytes (before after : List Char) :
    cutAt? (bytes before) (before ++ after) = some (before, after) := by
  induction before with
  | nil => cases after <;> rfl
  | cons c before ih =>
      have hsize := c.utf8Size_pos
      obtain ⟨place, hplace⟩ : ∃ place, bytes (c :: before) = place + 1 :=
        Nat.exists_eq_add_one.mpr (Nat.lt_of_lt_of_le hsize (Nat.le_add_right _ _))
      have hrest : place + 1 - c.utf8Size = bytes before := by
        rw [← hplace, Markup.bytes_cons]
        omega
      rw [hplace, List.cons_append, cutAt?, hrest, ih, if_pos]
      · rfl
      · rw [← hplace, Markup.bytes_cons]
        exact Nat.le_add_right _ _

theorem cutAt?_eq_some_iff {place : Nat} {text before after : List Char} :
    cutAt? place text = some (before, after) ↔ text = before ++ after ∧ bytes before = place := by
  refine ⟨of_cutAt?, ?_⟩
  rintro ⟨rfl, rfl⟩
  exact cutAt?_bytes before after

def place? (mark text : List Char) : Option Nat :=
  (splitAtText? mark text).map fun found => bytes found.1

theorem splitAtText?_singleton (c : Char) (text : List Char) :
    splitAtText? [c] text =
      match text.dropWhile (· ≠ c) with
      | _ :: rest => some (text.takeWhile (· ≠ c), rest)
      | [] => none := by
  induction text with
  | nil => rfl
  | cons d text ih =>
      rw [splitAtText?_cons]
      by_cases hd : d = c
      · subst hd
        simp
      · have hmark : ¬ [c].isPrefixOf (d :: text) = true := by simpa using Ne.symm hd
        rw [if_neg hmark, ih, List.dropWhile_cons_of_pos (by simpa using hd),
          List.takeWhile_cons_of_pos (by simpa using hd)]
        cases text.dropWhile (· ≠ c) <;> rfl

end Text

namespace TempoAttribute

open Markup (bytes)
open Text (cutAt? place?)

def distance? (place earlier : Nat) : Option Nat :=
  if earlier ≤ place then some (place - earlier) else none

/-- The value of a text that goes on with `opened`, its opening quote and what follows. The
text up to the quote is as long as the text without that. -/
def checkedClosed? (text opened : List Char) (quote : Char) : Option (Option QuotedValue) := do
  let (_, body) ← cutAt? 1 opened
  match place? [quote] body with
  | some close => do
    let stop ← distance? (bytes text) (bytes opened)
    let (lead, _) ← cutAt? stop text
    let (_, rest) ← cutAt? (close + 2) opened
    some (some ⟨lead, quote, rest⟩)
  | none => some none

def checkedQuotedValue? (text : List Char) : Option (Option QuotedValue) :=
  match text.dropWhile Text.isBlank with
  | '=' :: afterEquals =>
    match afterEquals.dropWhile Text.isBlank with
    | quote :: body =>
      if isQuote quote then checkedClosed? text (quote :: body) quote else some none
    | [] => some none
  | _ => some none

def checkedReplaceAll (value : List Char) : Nat → List Char → List Char → Option (List Char)
  | 0, _, _ => none
  | turns + 1, written, text =>
    match place? name text with
    | none => some (written ++ text)
    | some place => do
      let (before, named) ← cutAt? place text
      let (_, after) ← cutAt? (bytes name) named
      match ← checkedQuotedValue? after with
      | some found =>
        if endsInBlank before then
          checkedReplaceAll value turns
            (written ++ before ++ name ++ found.lead ++ found.quote :: value ++ [found.quote])
            found.rest
        else checkedReplaceAll value turns (written ++ before ++ name) after
      | none => checkedReplaceAll value turns (written ++ before ++ name) after

theorem utf8Size_of_isQuote {quote : Char} (hquote : isQuote quote = true) :
    quote.utf8Size = 1 := by
  rw [isQuote, Bool.or_eq_true, beq_iff_eq, beq_iff_eq] at hquote
  rcases hquote with rfl | rfl <;> rfl

theorem checkedClosed?_eq {quote : Char} (hquote : isQuote quote = true)
    (lead body : List Char) :
    checkedClosed? (lead ++ quote :: body) (quote :: body) quote =
      some (match body.dropWhile (· ≠ quote) with
        | _ :: rest => some ⟨lead, quote, rest⟩
        | [] => none) := by
  have hsize := utf8Size_of_isQuote hquote
  have hopened : cutAt? 1 (quote :: body) = some ([quote], body) :=
    Text.cutAt?_eq_some_iff.mpr ⟨rfl, hsize⟩
  have hstop : distance? (bytes (lead ++ quote :: body)) (bytes (quote :: body)) =
      some (bytes lead) := by
    rw [Markup.bytes_append, distance?, if_pos (Nat.le_add_left _ _), Nat.add_sub_cancel]
  unfold checkedClosed?
  rw [hopened, Option.bind_eq_bind, Option.bind_some]
  dsimp only
  rw [place?, Text.splitAtText?_singleton]
  cases hclose : body.dropWhile (· ≠ quote) with
  | nil => rfl
  | cons close rest =>
      obtain ⟨old, rfl, hold, hstops⟩ := dropWhile_eq_cons_iff.mp hclose
      obtain rfl : close = quote := by simpa using hstops
      have hrest : cutAt? (bytes old + 2) (close :: (old ++ close :: rest)) =
          some (close :: old ++ [close], rest) := by
        refine Text.cutAt?_eq_some_iff.mpr ⟨by simp, ?_⟩
        simp only [List.cons_append, Markup.bytes_cons, Markup.bytes_append, Markup.bytes_nil,
          hsize]
        omega
      rw [takeWhile_stop hold hstops]
      simp only [Option.map_some, hstop, Text.cutAt?_bytes, hrest, Option.bind_eq_bind,
        Option.bind_some]

theorem checkedQuotedValue?_eq (text : List Char) :
    checkedQuotedValue? text = some (quotedValue? text) := by
  unfold checkedQuotedValue? quotedValue? splitBlanks
  cases hequals : text.dropWhile Text.isBlank with
  | nil => rfl
  | cons equals afterEquals =>
      by_cases hsign : equals = '='
      · subst hsign
        cases hbody : afterEquals.dropWhile Text.isBlank with
        | nil => simp only [hbody]
        | cons quote body =>
            cases hquote : isQuote quote with
            | false => simp only [hbody, hquote, Bool.false_eq_true, if_false]
            | true =>
                have htext : text = (text.takeWhile Text.isBlank ++
                    '=' :: afterEquals.takeWhile Text.isBlank) ++ quote :: body := by
                  rw [List.append_assoc, List.cons_append, ← hbody,
                    List.takeWhile_append_dropWhile, ← hequals, List.takeWhile_append_dropWhile]
                have hclosed := checkedClosed?_eq hquote (text.takeWhile Text.isBlank ++
                  '=' :: afterEquals.takeWhile Text.isBlank) body
                rw [← htext] at hclosed
                simp only [hbody, hquote, if_true]
                exact hclosed
      · simp [hsign]

theorem checkedReplaceAll_succ (value : List Char) (turns : Nat) (written : List Char)
    {text before after : List Char} (hname : Text.splitAtText? name text = some (before, after)) :
    checkedReplaceAll value (turns + 1) written text =
      match attributeValue? before after with
      | some found =>
        checkedReplaceAll value turns
          (written ++ before ++ name ++ found.lead ++ found.quote :: value ++ [found.quote])
          found.rest
      | none => checkedReplaceAll value turns (written ++ before ++ name) after := by
  have htext : text = before ++ (name ++ after) :=
    (Text.splitAtText?_eq hname).trans (List.append_assoc ..)
  have hplace : place? name text = some (bytes before) := by
    rw [place?, hname, Option.map_some]
  rw [checkedReplaceAll, hplace]
  dsimp only
  rw [htext, Text.cutAt?_bytes, Option.bind_eq_bind, Option.bind_some]
  dsimp only
  rw [Text.cutAt?_bytes, Option.bind_some]
  dsimp only
  rw [checkedQuotedValue?_eq, Option.bind_eq_bind, Option.bind_some, attributeValue?]
  cases quotedValue? after with
  | none => rw [ite_self]
  | some found =>
      dsimp only
      split <;> rfl

theorem checkedReplaceAll_eq (value : List Char) {turns : Nat} (written : List Char)
    {text : List Char} (hturns : text.length < turns) :
    checkedReplaceAll value turns written text = some (written ++ replaceAll value text) := by
  fun_induction replaceAll value text generalizing turns written with
  | case1 text hname =>
      obtain ⟨turns, rfl⟩ := Nat.exists_eq_add_one_of_ne_zero (Nat.ne_zero_of_lt hturns)
      rw [checkedReplaceAll, place?, hname]
      rfl
  | case2 text before after hname hafter hvalue ih =>
      obtain ⟨turns, rfl⟩ := Nat.exists_eq_add_one_of_ne_zero (Nat.ne_zero_of_lt hturns)
      rw [checkedReplaceAll_succ value turns written hname, hvalue]
      dsimp only
      rw [ih _ (by omega)]
      simp only [List.append_assoc]
  | case3 text before after hname hafter found hvalue hlength ih =>
      obtain ⟨turns, rfl⟩ := Nat.exists_eq_add_one_of_ne_zero (Nat.ne_zero_of_lt hturns)
      rw [checkedReplaceAll_succ value turns written hname, hvalue]
      dsimp only
      rw [ih _ (by omega)]
      simp only [List.append_assoc, List.cons_append, List.nil_append]

end TempoAttribute
end Rubato
