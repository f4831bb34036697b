import Rubato.Decimal.Written
import Rubato.Text.Blank
import Rubato.Text.Search

namespace Rubato

/-! Tempos forced in the text of a score: the value of everything that reads as an
attribute `tempo="..."` is replaced, before the text is parsed and whatever it
stands in. The name must follow a blank; blanks may stand around the `=`. -/

namespace TempoAttribute

def name : List Char := "tempo".toList

theorem length_name_pos : 0 < name.length := by decide

/-- The value that follows an attribute name: the text up to its opening quote, the
quote, and what follows the closing quote. -/
structure QuotedValue where
  lead : List Char
  quote : Char
  rest : List Char
  deriving DecidableEq, Repr

def isQuote (c : Char) : Bool := c == '"' || c == '\''

def splitBlanks (text : List Char) : List Char × List Char :=
  (text.takeWhile Text.isBlank, text.dropWhile Text.isBlank)

def quotedValue? (text : List Char) : Option QuotedValue :=
  let (firstBlanks, afterName) := splitBlanks text
  match afterName with
  | '=' :: afterEquals =>
    let (secondBlanks, value) := splitBlanks afterEquals
    match value with
    | quote :: body =>
      if isQuote quote then
        match body.dropWhile (· ≠ quote) with
        | _ :: rest => some ⟨firstBlanks ++ '=' :: secondBlanks, quote, rest⟩
        | [] => none
      else none
    | [] => none
  | _ => none

theorem length_quotedValue?_le {text : List Char} {value : QuotedValue}
    (h : quotedValue? text = some value) : value.rest.length ≤ text.length := by
  unfold quotedValue? splitBlanks at h
  dsimp only at h
  have hname : (text.dropWhile Text.isBlank).length ≤ text.length :=
    (List.dropWhile_suffix _).length_le
  split at h
  · next afterEquals hequals =>
      rw [hequals] at hname
      have hspace : (afterEquals.dropWhile Text.isBlank).length ≤ afterEquals.length :=
        (List.dropWhile_suffix _).length_le
      split at h
      · next quote body hbody =>
          rw [hbody] at hspace
          split at h
          · have hclose : (body.dropWhile (· ≠ quote)).length ≤ body.length :=
              (List.dropWhile_suffix _).length_le
            split at h
            · next rest hrest =>
                rw [hrest] at hclose
                injection h with h
                subst h
                simp only [List.length_cons] at hname hspace hclose ⊢
                omega
            · cases h
          · cases h
      · cases h
  · cases h

def endsInBlank (text : List Char) : Bool :=
  text.getLast?.any Text.isBlank

def attributeValue? (before after : List Char) : Option QuotedValue :=
  if endsInBlank before then quotedValue? after else none

/-- The text with another value for every tempo attribute. After an attribute the
search goes on behind its closing quote, otherwise right behind the name. -/
def replaceAll (value : List Char) (text : List Char) : List Char :=
  match hname : Text.splitAtText? name text with
  | none => text
  | some (before, after) =>
    have hafter := Text.length_splitAtText? length_name_pos hname
    match hvalue : attributeValue? before after with
    | none => before ++ name ++ replaceAll value after
    | some found =>
      have : found.rest.length < text.length := by
        unfold attributeValue? at hvalue
        split at hvalue
        · exact Nat.lt_of_le_of_lt (length_quotedValue?_le hvalue) hafter
        · cases hvalue
      before ++ name ++ found.lead ++ found.quote :: value ++
        found.quote :: replaceAll value found.rest
termination_by text.length

end TempoAttribute

def forceTempoText (text : String) (bpm : Float) : String :=
  String.ofList (TempoAttribute.replaceAll (Decimal.tempoText bpm) text.toList)

end Rubato
