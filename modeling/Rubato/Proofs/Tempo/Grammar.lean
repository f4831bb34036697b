import Rubato.Proofs.Guarded.Rewriting

namespace Rubato

/-! An attribute is, after a blank, the name, blanks, `=`, blanks, and a value in quotes
that does not hold them. The text is scanned for attributes from left to right. -/

namespace TempoAttribute

/-- An attribute that begins right behind a text: what stands between its name and its value,
the value, and what follows the closing quote. -/
structure IsAttribute (before text lead : List Char) (quote : Char) (value after : List Char) :
    Prop where
  preceded : ∃ c ∈ before.getLast?, Text.isBlank c = true
  text_eq : text = name ++ (lead ++ quote :: (value ++ quote :: after))
  lead_eq : ∃ first second, lead = first ++ '=' :: second ∧
    (∀ c ∈ first, Text.isBlank c = true) ∧ ∀ c ∈ second, Text.isBlank c = true
  quote_eq : quote = '"' ∨ quote = '\''
  quote_not_mem : quote ∉ value

/-- A piece of a text: the value of a tempo attribute, or some of what is kept. -/
inductive Piece
  | kept (text : List Char)
  | value (text : List Char)

namespace Piece

def written : Piece → List Char
  | kept text => text
  | value text => text

def forced (tempo : List Char) : Piece → List Char
  | kept text => text
  | value _ => tempo

end Piece

/-- The scan of what follows a text, with the pieces it finds. -/
inductive Scans : List Char → List Char → List Piece → Prop
  | done (before : List Char) : Scans before [] []
  | value {before text lead : List Char} {quote : Char} {value after : List Char}
      {pieces : List Piece} (h : IsAttribute before text lead quote value after)
      (hafter : Scans (before ++ (name ++ lead ++ quote :: value ++ [quote])) after pieces) :
      Scans before text
        (.kept (name ++ lead ++ [quote]) :: .value value :: .kept [quote] :: pieces)
  | skip {before text after : List Char} {pieces : List Piece} (htext : text = name ++ after)
      (h : ∀ lead quote value rest, ¬IsAttribute before text lead quote value rest)
      (hafter : Scans (before ++ name) after pieces) :
      Scans before text (.kept name :: pieces)
  | pass {before : List Char} {c : Char} {after : List Char} {pieces : List Piece}
      (h : ¬name <+: c :: after) (hafter : Scans (before ++ [c]) after pieces) :
      Scans before (c :: after) (.kept [c] :: pieces)

theorem endsInBlank_iff {text : List Char} :
    endsInBlank text = true ↔ ∃ c ∈ text.getLast?, Text.isBlank c = true := by
  simp [endsInBlank, Option.any_eq_true]

/-- The attribute that begins at a place is the one that the replacement finds there. -/
theorem isAttribute_iff {before text lead value after : List Char} {quote : Char} :
    IsAttribute before text lead quote value after ↔
      valueAt? (endsInBlank before) text = some ⟨lead, quote, after⟩ ∧
        text = name ++ (lead ++ quote :: (value ++ quote :: after)) := by
  constructor
  · rintro ⟨hpreceded, rfl, ⟨first, second, rfl, hfirst, hsecond⟩, hquote, hvalue⟩
    have hquote : isQuote quote = true := by simpa [isQuote] using hquote
    refine ⟨?_, rfl⟩
    rw [endsInBlank_iff.mpr hpreceded]
    exact valueAt?_name (fun c => isQuote_of_mem_lead hfirst hsecond) hquote
      (opensValue_lead hfirst hsecond hquote) hvalue after
  · rintro ⟨hfound, rfl⟩
    obtain ⟨hblank, old, htext, hold, hquote, hlead, hopens⟩ := of_valueAt? hfound
    obtain rfl : value = old := by simpa using htext
    refine ⟨endsInBlank_iff.mp hblank, rfl, lead_of_opensValue hlead hquote hopens, ?_, hold⟩
    simpa [isQuote] using hquote

theorem IsAttribute.unique {before text lead lead' value value' after after' : List Char}
    {quote quote' : Char} (h : IsAttribute before text lead quote value after)
    (h' : IsAttribute before text lead' quote' value' after') :
    lead = lead' ∧ quote = quote' ∧ value = value' ∧ after = after' := by
  obtain ⟨hfound, htext⟩ := isAttribute_iff.mp h
  obtain ⟨hfound', htext'⟩ := isAttribute_iff.mp h'
  cases hfound.symm.trans hfound'
  refine ⟨rfl, rfl, ?_, rfl⟩
  simpa using htext.symm.trans htext'

theorem IsAttribute.ne_nil {before text lead value after : List Char} {quote : Char}
    (h : IsAttribute before text lead quote value after) : text ≠ [] := by
  rw [h.text_eq]
  simp [name]

theorem Scans.unique {before text : List Char} {pieces others : List Piece}
    (h : Scans before text pieces) (hothers : Scans before text others) : others = pieces := by
  induction h generalizing others with
  | done before =>
      cases hothers with
      | done => rfl
      | value hother _ => exact absurd rfl hother.ne_nil
      | skip htext _ _ => simp [name] at htext
  | @value before text lead quote value after pieces h _ ih =>
      cases hothers with
      | done => exact absurd rfl h.ne_nil
      | value hother hafter =>
          obtain ⟨rfl, rfl, rfl, rfl⟩ := h.unique hother
          rw [ih hafter]
      | skip _ hother _ => exact absurd h (hother lead quote value after)
      | pass hother _ => exact absurd ⟨_, h.text_eq.symm⟩ hother
  | @skip before text after pieces htext h _ ih =>
      cases hothers with
      | done => simp [name] at htext
      | value hother _ => exact absurd hother (h _ _ _ _)
      | skip htext' _ hafter =>
          obtain rfl := List.append_cancel_left (htext.symm.trans htext')
          rw [ih hafter]
      | pass hother _ => exact absurd ⟨after, htext.symm⟩ hother
  | pass h _ ih =>
      cases hothers with
      | value hother _ => exact absurd ⟨_, hother.text_eq.symm⟩ h
      | skip htext _ _ => exact absurd ⟨_, htext.symm⟩ h
      | pass _ hafter => rw [ih hafter]

theorem endsInBlank_append_singleton (before : List Char) (c : Char) :
    endsInBlank (before ++ [c]) = Text.isBlank c := by
  simp [endsInBlank]

theorem endsInBlank_append_name (before : List Char) :
    endsInBlank (before ++ name) = false := by
  have hname : before ++ name = before ++ ['t', 'e', 'm', 'p'] ++ ['o'] := by
    rw [List.append_assoc]
    rfl
  rw [hname, endsInBlank_append_singleton]
  rfl

theorem valueAt?_eq_none_iff {before text : List Char} :
    valueAt? (endsInBlank before) text = none ↔
      ∀ lead quote value rest, ¬IsAttribute before text lead quote value rest := by
  constructor
  · intro hnone lead quote value rest h
    have hsome := (isAttribute_iff.mp h).1
    rw [hnone] at hsome
    cases hsome
  · intro hnone
    cases hfound : valueAt? (endsInBlank before) text with
    | none => rfl
    | some found =>
        obtain ⟨-, value, htext, -⟩ := of_valueAt? hfound
        exact absurd (isAttribute_iff.mpr ⟨hfound, htext⟩) (hnone _ _ _ _)

theorem exists_scans (before text : List Char) : ∃ pieces, Scans before text pieces := by
  induction hlength : text.length using Nat.strongRecOn generalizing before text with
  | _ length ih =>
      cases hfound : valueAt? (endsInBlank before) text with
      | some found =>
          obtain ⟨-, value, htext, -⟩ := of_valueAt? hfound
          obtain ⟨pieces, hafter⟩ := ih _ (hlength ▸ length_valueAt? hfound) _ _ rfl
          exact ⟨_, .value (isAttribute_iff.mpr ⟨hfound, htext⟩) hafter⟩
      | none =>
          by_cases hname : name <+: text
          · obtain ⟨after, rfl⟩ := hname
            have hshorter : after.length < length := by
              rw [← hlength, List.length_append]
              exact Nat.lt_add_of_pos_left length_name_pos
            obtain ⟨pieces, hafter⟩ := ih _ hshorter _ _ rfl
            exact ⟨_, .skip rfl (valueAt?_eq_none_iff.mp hfound) hafter⟩
          · cases text with
            | nil => exact ⟨[], .done before⟩
            | cons c rest =>
                obtain ⟨pieces, hafter⟩ := ih _ (hlength ▸ Nat.lt_succ_self _) _ rest rfl
                exact ⟨_, .pass hname hafter⟩

namespace Scans

variable {before text : List Char} {pieces : List Piece}

theorem written (h : Scans before text pieces) : pieces.flatMap Piece.written = text := by
  induction h with
  | done before => rfl
  | value h _ ih =>
      rw [h.text_eq]
      simp [Piece.written, ih]
  | skip htext _ _ ih =>
      rw [htext, List.flatMap_cons, ih]
      rfl
  | pass _ _ ih =>
      rw [List.flatMap_cons, ih]
      rfl

theorem forced (h : Scans before text pieces) (tempo : List Char) :
    pieces.flatMap (Piece.forced tempo) = replaced tempo (endsInBlank before) text := by
  induction h with
  | done before => exact (replaced_nil _).symm
  | value h _ ih =>
      have hquote := isBlank_of_isQuote (by simpa [isQuote] using h.quote_eq)
      rw [← List.append_assoc, endsInBlank_append_singleton, hquote] at ih
      rw [replaced_of_valueAt? (isAttribute_iff.mp h).1]
      simp [Piece.forced, ih]
  | skip htext h _ ih =>
      rw [htext] at h ⊢
      rw [List.flatMap_cons, ih, endsInBlank_append_name,
        replaced_name_append (valueAt?_eq_none_iff.mpr h)]
      rfl
  | @pass before c after _ h _ ih =>
      have hnone : valueAt? (endsInBlank before) (c :: after) = none :=
        valueAt?_eq_none_iff.mpr fun _ _ _ _ hattribute => h ⟨_, hattribute.text_eq.symm⟩
      rw [List.flatMap_cons, ih, endsInBlank_append_singleton, replaced_cons hnone]
      rfl

end Scans

end TempoAttribute

/-- A tempo is forced on a text by putting it in place of the values that the scan finds, and
keeping all else. No cut on the way is out of range or inside a character, and the replacement
ends. -/
theorem forceTempoText_scans (text : String) (bpm : Float) :
    ∃ pieces, TempoAttribute.Scans [] text.toList pieces ∧
      (∀ others, TempoAttribute.Scans [] text.toList others → others = pieces) ∧
      pieces.flatMap TempoAttribute.Piece.written = text.toList ∧
      (forceTempoText text bpm).toList =
        pieces.flatMap (TempoAttribute.Piece.forced (Decimal.tempoText bpm)) ∧
      ∀ turns > text.length,
        TempoAttribute.checkedReplaceAll (Decimal.tempoText bpm) turns [] text.toList =
          some (forceTempoText text bpm).toList := by
  obtain ⟨pieces, hscans⟩ := TempoAttribute.exists_scans [] text.toList
  have htext : (forceTempoText text bpm).toList =
      TempoAttribute.replaceAll (Decimal.tempoText bpm) text.toList := String.toList_ofList
  refine ⟨pieces, hscans, fun others => hscans.unique, hscans.written, ?_, fun turns hturns => ?_⟩
  · rw [hscans.forced, htext, TempoAttribute.replaceAll_eq]
    rfl
  · rw [htext, TempoAttribute.checkedReplaceAll_eq _ _ (by rwa [String.length_toList])]
    rfl

end Rubato
