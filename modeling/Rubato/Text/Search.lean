namespace Rubato.Text

/-! Looking for a text in another one: the first occurrence, and whether there is
one. -/

/-- The search for a mark; `passed` holds what has been passed over, last character
first. -/
def splitAfter? (mark passed : List Char) : List Char → Option (List Char × List Char)
  | [] => none
  | c :: rest =>
    if mark.isPrefixOf (c :: rest) then some (passed.reverse, (c :: rest).drop mark.length)
    else splitAfter? mark (c :: passed) rest

def splitAtText? (mark text : List Char) : Option (List Char × List Char) :=
  splitAfter? mark [] text

theorem splitAfter?_eq_map (mark passed text : List Char) :
    splitAfter? mark passed text =
      (splitAtText? mark text).map fun (before, after) => (passed.reverse ++ before, after) := by
  suffices h : ∀ first second : List Char,
      splitAfter? mark (first ++ second) text =
        (splitAfter? mark first text).map fun (before, after) =>
          (second.reverse ++ before, after) by
    simpa [splitAtText?] using h [] passed
  induction text with
  | nil => intro first second; rfl
  | cons c rest ih =>
      intro first second
      rw [splitAfter?, splitAfter?]
      split
      · simp
      · exact ih (c :: first) second

@[simp] theorem splitAtText?_nil (mark : List Char) : splitAtText? mark [] = none := rfl

theorem splitAtText?_cons (mark : List Char) (c : Char) (rest : List Char) :
    splitAtText? mark (c :: rest) =
      if mark.isPrefixOf (c :: rest) then some ([], (c :: rest).drop mark.length)
      else (splitAtText? mark rest).map fun (before, after) => (c :: before, after) := by
  rw [splitAtText?, splitAfter?]
  split
  · rfl
  · rw [splitAfter?_eq_map]
    rfl

theorem splitAtText?_eq {mark text before after : List Char}
    (h : splitAtText? mark text = some (before, after)) :
    text = before ++ mark ++ after := by
  induction text generalizing before with
  | nil => cases h
  | cons c rest ih =>
      rw [splitAtText?_cons] at h
      split at h
      · next hstart =>
          obtain ⟨tail, htail⟩ := List.isPrefixOf_iff_prefix.mp hstart
          simp only [Option.some.injEq, Prod.mk.injEq] at h
          obtain ⟨rfl, rfl⟩ := h
          simp [← htail]
      · obtain ⟨⟨first, last⟩, hfound, hpair⟩ := Option.map_eq_some_iff.mp h
        simp only [Prod.mk.injEq] at hpair
        obtain ⟨rfl, rfl⟩ := hpair
        simp [ih hfound]

theorem length_splitAtText? {mark text before after : List Char}
    (hmark : 0 < mark.length) (h : splitAtText? mark text = some (before, after)) :
    after.length < text.length := by
  rw [splitAtText?_eq h]
  simp only [List.length_append]
  omega

def occursIn (mark : List Char) : List Char → Bool
  | [] => mark.isEmpty
  | c :: rest => mark.isPrefixOf (c :: rest) || occursIn mark rest

theorem occursIn_iff_infix (mark text : List Char) :
    occursIn mark text = true ↔ mark <:+: text := by
  induction text with
  | nil => simp [occursIn]
  | cons c rest ih => simp [occursIn, ih, List.infix_cons_iff]

end Rubato.Text
