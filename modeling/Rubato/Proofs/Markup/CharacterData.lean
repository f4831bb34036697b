import Rubato.Proofs.Markup.SpelledMarkup
import Rubato.Proofs.Markup.Telling

namespace Rubato.Markup

/-- A text with the characters its references mean. -/
inductive Resolves : List Char → List Char → Prop
  | nil : Resolves [] []
  | plain {c : Char} {text resolved : List Char} (hc : c ≠ '&') (h : Resolves text resolved) :
      Resolves (c :: text) (c :: resolved)
  | reference {name text resolved : List Char} {meant : Char}
      (hname : ∀ c ∈ name, c ≠ '&' ∧ c ≠ ';')
      (hmeant : ∀ start stop, referenced start stop name = .ok meant)
      (h : Resolves text resolved) :
      Resolves ('&' :: (name ++ ';' :: text)) (meant :: resolved)

theorem referenced_anywhere {start stop : Nat} {name : List Char} {meant : Char}
    (h : referenced start stop name = .ok meant) (start' stop' : Nat) :
    referenced start' stop' name = .ok meant := by
  unfold referenced at h ⊢
  split at h
  · obtain ⟨code, hcode, hmeant⟩ := bind_eq_ok_iff.mp h
    refine bind_eq_ok_iff.mpr ⟨code, hcode, ?_⟩
    split at hmeant
    · cases hmeant
    · next hnull => rwa [if_neg hnull]
  · split at h
    · exact h
    · cases h

theorem referenceName?_eq_some_iff {text name rest : List Char} :
    referenceName? text = some (name, rest) ↔
      text = name ++ ';' :: rest ∧ ∀ c ∈ name, c ≠ '&' ∧ c ≠ ';' := by
  have hcut : referenceName? text = some (name, rest) ↔
      cut (fun c => c == '&' || c == ';') text = (name, ';' :: rest) := by
    unfold referenceName?
    split
    · next hcut => rw [hcut]; simp
    · next hne =>
        refine ⟨nofun, fun h => absurd h (hne name rest)⟩
  rw [hcut, cut_eq_cons_iff]
  simp

theorem resolveFrom_eq_ok_iff {length place : Nat} {text resolved : List Char} :
    resolveFrom length place text = .ok resolved ↔ Resolves text resolved := by
  constructor
  · intro h
    fun_induction resolveFrom length place text generalizing resolved
    case case1 =>
      cases h
      exact .nil
    case case2 => cases h
    case case3 rest name after hname _ _ ih =>
      obtain ⟨meant, hmeant, h⟩ := bind_eq_ok_iff.mp h
      obtain ⟨others, hothers, h⟩ := bind_eq_ok_iff.mp h
      cases h
      obtain ⟨rfl, hchars⟩ := referenceName?_eq_some_iff.mp hname
      exact .reference hchars (referenced_anywhere hmeant) (ih hothers)
    case case4 c rest hc ih =>
      obtain ⟨others, hothers, h⟩ := bind_eq_ok_iff.mp h
      cases h
      exact .plain hc (ih hothers)
  · intro h
    induction h generalizing place with
    | nil => rw [resolveFrom]
    | plain hc _ ih =>
        rw [resolveFrom, if_neg hc]
        exact bind_eq_ok_iff.mpr ⟨_, ih, rfl⟩
    | @reference name text resolved meant hname hmeant _ ih =>
        have hfound : referenceName? (name ++ ';' :: text) = some (name, text) :=
          referenceName?_eq_some_iff.mpr ⟨rfl, hname⟩
        rw [resolveFrom, if_pos rfl]
        split
        · next hnone =>
            rw [hfound] at hnone
            cases hnone
        · next found after hsome =>
            rw [hfound] at hsome
            cases hsome
            exact bind_eq_ok_iff.mpr ⟨meant, hmeant _ _, bind_eq_ok_iff.mpr ⟨resolved, ih, rfl⟩⟩

theorem resolve_eq_ok_iff {text resolved : List Char} :
    resolve text = .ok resolved ↔ Resolves text resolved :=
  resolveFrom_eq_ok_iff

/-- A reference has begun in a text and does not end in it. -/
def EndsInReference (text : List Char) : Prop :=
  ∃ front name, text = front ++ '&' :: name ∧ ';' ∉ name

theorem EndsInReference.append {text : List Char} (h : EndsInReference text)
    (before : List Char) : EndsInReference (before ++ text) := by
  obtain ⟨front, name, rfl, hname⟩ := h
  exact ⟨before ++ front, name, by rw [List.append_assoc], hname⟩

namespace Resolves

variable {text first second resolved other : List Char}

theorem unique (h : Resolves text resolved) (hother : Resolves text other) : resolved = other :=
  Except.ok.inj ((resolve_eq_ok_iff.mpr h).symm.trans (resolve_eq_ok_iff.mpr hother))

theorem append (h : Resolves first resolved) (hother : Resolves second other) :
    Resolves (first ++ second) (resolved ++ other) := by
  induction h with
  | nil => exact hother
  | plain hc _ ih => exact .plain hc ih
  | reference hname hmeant _ ih =>
      rw [List.cons_append, List.append_assoc]
      exact .reference hname hmeant ih

theorem of_append (h : Resolves (first ++ second) resolved) (hfirst : ¬EndsInReference first) :
    ∃ left right, Resolves first left ∧ Resolves second right ∧ resolved = left ++ right := by
  generalize hwhole : first ++ second = text at h
  induction h generalizing first with
  | nil =>
      obtain ⟨rfl, rfl⟩ := List.append_eq_nil_iff.mp hwhole
      exact ⟨[], [], .nil, .nil, rfl⟩
  | @plain c text resolved hc h ih =>
      cases first with
      | nil =>
          obtain rfl : second = c :: text := hwhole
          exact ⟨[], _, .nil, .plain hc h, rfl⟩
      | cons d first =>
          obtain ⟨rfl, hrest⟩ := List.cons.inj hwhole
          obtain ⟨left, right, hleft, hright, rfl⟩ :=
            ih (fun hends => hfirst (hends.append [d])) hrest
          exact ⟨d :: left, right, .plain hc hleft, hright, rfl⟩
  | @reference name text resolved meant hname hmeant h ih =>
      cases first with
      | nil =>
          obtain rfl : second = '&' :: (name ++ ';' :: text) := hwhole
          exact ⟨[], _, .nil, .reference hname hmeant h, rfl⟩
      | cons d first =>
          obtain ⟨rfl, hrest⟩ := List.cons.inj hwhole
          have hnot : ∀ tail, name ≠ first ++ tail := by
            rintro tail rfl
            exact hfirst ⟨[], first, rfl, fun hmem =>
              (hname _ (List.mem_append_left _ hmem)).2 rfl⟩
          rcases List.append_eq_append_iff.mp hrest with ⟨tail, htail, -⟩ | ⟨tail, rfl, htail⟩
          · exact absurd htail (hnot tail)
          · cases tail with
            | nil => exact absurd (by simp) (hnot [])
            | cons e tail =>
                obtain ⟨rfl, rfl⟩ := List.cons.inj htail
                obtain ⟨left, right, hleft, hright, rfl⟩ := ih
                  (fun hends => hfirst (by
                    simpa using hends.append ('&' :: (name ++ [';'])))) rfl
                exact ⟨meant :: left, right, .reference hname hmeant hleft, hright, rfl⟩

theorem eq_nil_iff (h : Resolves text resolved) : resolved = [] ↔ text = [] := by
  cases h <;> simp

theorem of_spaces {space : List Char} (hspace : ∀ c ∈ space, isSpace c = true) :
    Resolves space space := by
  have hplain : '&' ∉ space := fun hmem => by cases hspace _ hmem
  exact resolve_eq_ok_iff.mp (resolve_of_no_reference hplain)

end Resolves

def trimSpace (text : List Char) : List Char :=
  trimSpaceEnd (text.dropWhile isSpace)

/-- White space stands at the place where a text is cut in two, and other characters before
and behind it. -/
def losesSpace (first second : List Char) : Bool :=
  first.any (fun c => !isSpace c) && second.any (fun c => !isSpace c) &&
    (first.getLast?.any isSpace || second.head?.any isSpace)

theorem mem_of_mem_trimSpaceEnd {text : List Char} {c : Char} (h : c ∈ trimSpaceEnd text) :
    c ∈ text :=
  List.mem_reverse.mp ((List.dropWhile_suffix _).mem (List.mem_reverse.mp h))

theorem trimSpaceEnd_eq_nil {space : List Char} (hspace : ∀ c ∈ space, isSpace c = true) :
    trimSpaceEnd space = [] := by
  rw [trimSpaceEnd, List.dropWhile_eq_nil_iff.mpr (by simpa using hspace)]
  rfl

theorem trimSpace_eq {lead core tail : List Char} (hlead : ∀ c ∈ lead, isSpace c = true)
    (htail : ∀ c ∈ tail, isSpace c = true) (hcore : isTrimmed core = true) :
    trimSpace (lead ++ (core ++ tail)) = core := by
  rw [isTrimmed, Bool.and_eq_true, Option.all_eq_true, Option.all_eq_true] at hcore
  unfold trimSpace
  rw [List.dropWhile_append_of_pos hlead]
  cases core with
  | nil =>
      rw [List.nil_append, List.dropWhile_eq_nil_iff.mpr htail]
      rfl
  | cons c core =>
      have hc : ¬isSpace c = true := by simpa using hcore.1 c rfl
      rw [List.cons_append, List.dropWhile_cons_of_neg hc, ← List.cons_append]
      exact trimSpaceEnd_append htail fun c hc => by simpa using hcore.2 c hc

theorem exists_core {text : List Char} (h : text.any (fun c => !isSpace c) = true) :
    ∃ lead core tail, text = lead ++ (core ++ tail) ∧ (∀ c ∈ lead, isSpace c = true) ∧
      (∀ c ∈ tail, isSpace c = true) ∧ isTrimmed core = true ∧ core ≠ [] := by
  have hreverse : ∃ tail core, text = core ++ tail ∧ (∀ c ∈ tail, isSpace c = true) ∧
      ∃ c, core.getLast? = some c ∧ isSpace c = false := by
    rcases Reader.spaces_or text.reverse with hspace | ⟨space, c, rest, htext, hspace, hc⟩
    · obtain ⟨c, hmem, hc⟩ := List.any_eq_true.mp h
      rw [hspace c (List.mem_reverse.mpr hmem)] at hc
      cases hc
    · refine ⟨space.reverse, rest.reverse ++ [c], ?_,
        fun c hc => hspace c (List.mem_reverse.mp hc), c, List.getLast?_concat, hc⟩
      rw [← List.reverse_reverse text, htext]
      simp
  obtain ⟨tail, core, rfl, htail, last, hlast, hlastSpace⟩ := hreverse
  rcases Reader.spaces_or core with hspace | ⟨lead, c, rest, rfl, hlead, hc⟩
  · rw [hspace last (List.mem_of_getLast? hlast)] at hlastSpace
    cases hlastSpace
  · refine ⟨lead, c :: rest, tail, by rw [List.append_assoc], hlead, htail, ?_,
      List.cons_ne_nil _ _⟩
    rw [List.getLast?_append_of_ne_nil _ (List.cons_ne_nil _ _)] at hlast
    rw [isTrimmed, hlast]
    simp [hc, hlastSpace]

theorem isTrimmed_append {left right : List Char} (hleft : isTrimmed left = true)
    (hright : isTrimmed right = true) (hleftNe : left ≠ []) (hrightNe : right ≠ [])
    (between : List Char) : isTrimmed (left ++ (between ++ right)) = true := by
  rw [isTrimmed, Bool.and_eq_true] at hleft hright ⊢
  rw [List.head?_append_of_ne_nil _ hleftNe,
    List.getLast?_append_of_ne_nil _ (List.append_ne_nil_of_right_ne_nil _ hrightNe),
    List.getLast?_append_of_ne_nil _ hrightNe]
  exact ⟨hleft.1, hright.2⟩

theorem any_head?_append {space rest : List Char} (hspace : ∀ c ∈ space, isSpace c = true)
    (hrest : rest.head?.all (fun c => !isSpace c) = true) :
    (space ++ rest).head?.any isSpace = !space.isEmpty := by
  cases space with
  | nil => cases hhead : rest.head? <;> simp_all
  | cons c space => simpa using hspace c List.mem_cons_self

theorem any_getLast?_append {front space : List Char} (hspace : ∀ c ∈ space, isSpace c = true)
    (hfront : front.getLast?.all (fun c => !isSpace c) = true) :
    (front ++ space).getLast?.any isSpace = !space.isEmpty := by
  rw [← List.head?_reverse, List.reverse_append, ← List.isEmpty_reverse]
  exact any_head?_append (fun c hc => hspace c (List.mem_reverse.mp hc)) (by simpa using hfront)

section Trimming

variable {first second : List Char}

theorem trimSpace_of_spaces (hfirst : ∀ c ∈ first, isSpace c = true) : trimSpace first = [] := by
  rw [trimSpace, List.dropWhile_eq_nil_iff.mpr hfirst]
  rfl

theorem trimSpace_ne_nil (h : first.any (fun c => !isSpace c) = true) : trimSpace first ≠ [] := by
  obtain ⟨lead, core, tail, rfl, hlead, htail, hcore, hne⟩ := exists_core h
  rwa [trimSpace_eq hlead htail hcore]

theorem isSpace_of_not_any (h : ¬first.any (fun c => !isSpace c) = true) :
    ∀ c ∈ first, isSpace c = true := by
  simpa using h

theorem EndsInReference.of_trimSpace (h : EndsInReference (trimSpace first)) :
    EndsInReference first := by
  by_cases hfirst : first.any (fun c => !isSpace c) = true
  · obtain ⟨lead, core, tail, rfl, hlead, htail, hcore, -⟩ := exists_core hfirst
    rw [trimSpace_eq hlead htail hcore] at h
    obtain ⟨front, name, rfl, hname⟩ := h
    refine ⟨lead ++ front, name ++ tail, by simp, fun hmem => ?_⟩
    rcases List.mem_append.mp hmem with hmem | hmem
    · exact hname hmem
    · cases htail _ hmem
  · rw [trimSpace_of_spaces (isSpace_of_not_any hfirst)] at h
    obtain ⟨front, name, hnil, -⟩ := h
    cases front <;> cases hnil

theorem losesSpace_cores {lead left gap lead' right tail : List Char}
    (hgap : ∀ c ∈ gap, isSpace c = true) (hlead' : ∀ c ∈ lead', isSpace c = true)
    (hleft : isTrimmed left = true) (hleftNe : left ≠ []) (hright : isTrimmed right = true)
    (hrightNe : right ≠ [])
    (hfirst : (lead ++ (left ++ gap)).any (fun c => !isSpace c) = true)
    (hsecond : (lead' ++ (right ++ tail)).any (fun c => !isSpace c) = true) :
    gap ++ lead' = [] ↔
      losesSpace (lead ++ (left ++ gap)) (lead' ++ (right ++ tail)) = false := by
  rw [isTrimmed, Bool.and_eq_true] at hleft hright
  have hend : (lead ++ (left ++ gap)).getLast?.any isSpace = !gap.isEmpty := by
    rw [← List.append_assoc]
    refine any_getLast?_append hgap ?_
    rw [List.getLast?_append_of_ne_nil _ hleftNe]
    exact hleft.2
  have hstart : (lead' ++ (right ++ tail)).head?.any isSpace = !lead'.isEmpty := by
    refine any_head?_append hlead' ?_
    rw [List.head?_append_of_ne_nil _ hrightNe]
    exact hright.1
  rw [losesSpace, hfirst, hsecond, hend, hstart]
  cases gap <;> cases lead' <;> simp

theorem trimSpace_append (first second : List Char) :
    ∃ lost, (∀ c ∈ lost, isSpace c = true) ∧
      trimSpace (first ++ second) = trimSpace first ++ (lost ++ trimSpace second) ∧
        (lost = [] ↔ losesSpace first second = false) := by
  by_cases hfirst : first.any (fun c => !isSpace c) = true
  · by_cases hsecond : second.any (fun c => !isSpace c) = true
    · obtain ⟨lead, left, gap, rfl, hlead, hgap, hleft, hleftNe⟩ := exists_core hfirst
      obtain ⟨lead', right, tail, rfl, hlead', htail, hright, hrightNe⟩ := exists_core hsecond
      refine ⟨gap ++ lead', fun c hc => (List.mem_append.mp hc).elim (hgap c) (hlead' c), ?_, ?_⟩
      · have hwhole : lead ++ (left ++ gap) ++ (lead' ++ (right ++ tail)) =
            lead ++ ((left ++ ((gap ++ lead') ++ right)) ++ tail) := by simp
        rw [hwhole, trimSpace_eq hlead htail (isTrimmed_append hleft hright hleftNe hrightNe _),
          trimSpace_eq hlead hgap hleft, trimSpace_eq hlead' htail hright]
      · exact losesSpace_cores hgap hlead' hleft hleftNe hright hrightNe hfirst hsecond
    · have hspace := isSpace_of_not_any hsecond
      obtain ⟨lead, left, gap, rfl, hlead, hgap, hleft, -⟩ := exists_core hfirst
      refine ⟨[], by simp, ?_, by simp [losesSpace, hsecond]⟩
      have htail : ∀ c ∈ gap ++ second, isSpace c = true :=
        fun c hc => (List.mem_append.mp hc).elim (hgap c) (hspace c)
      rw [List.append_assoc, List.append_assoc, trimSpace_eq hlead htail hleft,
        trimSpace_eq hlead hgap hleft, trimSpace_of_spaces hspace]
      simp
  · have hspace := isSpace_of_not_any hfirst
    refine ⟨[], by simp, ?_, by simp [losesSpace, hfirst]⟩
    rw [trimSpace_of_spaces hspace, trimSpace, List.dropWhile_append_of_pos hspace]
    rfl

theorem Resolves.halves {said : List Char} (h : Resolves (trimSpace (first ++ second)) said)
    (hfirst : ¬EndsInReference first) :
    ∃ left lost right, said = left ++ (lost ++ right) ∧ Resolves (trimSpace first) left ∧
      Resolves (trimSpace second) right ∧ (lost = [] ↔ losesSpace first second = false) := by
  obtain ⟨lost, hlost, htrim, hloses⟩ := trimSpace_append first second
  rw [htrim] at h
  obtain ⟨left, behind, hleft, hbehind, rfl⟩ := h.of_append fun hends => hfirst hends.of_trimSpace
  obtain ⟨space, right, hspace, hright, rfl⟩ := hbehind.of_append fun hends => by
    obtain ⟨front, name, rfl, -⟩ := hends
    cases hlost '&' (by simp)
  rw [hspace.unique (.of_spaces hlost)]
  exact ⟨left, lost, right, rfl, hleft, hright, hloses⟩

theorem trimSpace_trimSpaceEnd (text : List Char) :
    trimSpace (trimSpaceEnd text) = trimSpace text := by
  by_cases h : text.any (fun c => !isSpace c) = true
  · obtain ⟨lead, core, tail, rfl, hlead, htail, hcore, hne⟩ := exists_core h
    have hend : trimSpaceEnd (lead ++ core ++ tail) = lead ++ core := by
      refine trimSpaceEnd_append htail fun c hc => ?_
      rw [isTrimmed, Bool.and_eq_true, Option.all_eq_true, Option.all_eq_true] at hcore
      rw [List.getLast?_append_of_ne_nil _ hne] at hc
      simpa using hcore.2 c hc
    have hnone : ∀ c ∈ ([] : List Char), isSpace c = true := by simp
    have hcoreOnly := trimSpace_eq hlead hnone hcore
    rw [List.append_nil] at hcoreOnly
    rw [trimSpace_eq hlead htail hcore, ← List.append_assoc, hend, hcoreOnly]
  · have hspace := isSpace_of_not_any h
    rw [trimSpaceEnd_eq_nil hspace, trimSpace_of_spaces hspace]
    rfl

theorem trimSpace_squeezed (first second : List Char) :
    trimSpace (trimSpaceEnd first ++ second.dropWhile isSpace) =
      trimSpace first ++ trimSpace second := by
  have hend : (trimSpaceEnd first).getLast?.any isSpace = false := by
    have hhead := List.head?_dropWhile_not isSpace first.reverse
    rw [trimSpaceEnd, List.getLast?_reverse]
    cases hlast : (first.reverse.dropWhile isSpace).head? <;> simp_all
  have hstart : (second.dropWhile isSpace).head?.any isSpace = false := by
    have hhead := List.head?_dropWhile_not isSpace second
    cases hfirst : (second.dropWhile isSpace).head? <;> simp_all
  obtain ⟨lost, -, htrim, hlost⟩ := trimSpace_append (trimSpaceEnd first) (second.dropWhile isSpace)
  have hnone : lost = [] := hlost.mpr (by rw [losesSpace, hend, hstart]; simp)
  have hsecond : trimSpace (second.dropWhile isSpace) = trimSpace second := by
    rw [trimSpace, List.dropWhile_idempotent]
    rfl
  rw [htrim, hnone, trimSpace_trimSpaceEnd, hsecond, List.nil_append]

end Trimming

/-- Character data that says nothing is white space, of which no event is read. -/
def dataEvents (said : List Char) : List Event :=
  if said = [] then [] else [.text (String.ofList said)]

theorem content_dataEvents (said : List Char) :
    Content (dataEvents said) [] (String.ofList said) := by
  unfold dataEvents
  split
  · next hnil =>
      rw [hnil]
      exact .nil
  · have htext := Content.nil.text (String.ofList said)
    rwa [String.empty_append] at htext

theorem cut_data {data : List Char} (hdata : '<' ∉ data) (after : List Char) :
    cut (· == '<') (data ++ '<' :: after) = (data, '<' :: after) := by
  refine cut_eq_cons_iff.mpr ⟨rfl, fun c hc => ?_, rfl⟩
  rw [beq_eq_false_iff_ne]
  rintro rfl
  exact hdata hc

theorem says_data {data said after : List Char} {opened : List (List Char)} {later : List Event}
    (hdata : '<' ∉ data) (hsaid : Resolves (trimSpace data) said)
    (hlater : Tells opened ('<' :: after) later) :
    Tells opened (data ++ '<' :: after) (dataEvents said ++ later) := by
  rcases Reader.spaces_or data with hspace | ⟨space, c, rest, rfl, hspace, hc⟩
  · rw [trimSpace_of_spaces hspace] at hsaid
    obtain rfl := hsaid.unique .nil
    exact hlater.of_spaces hspace
  · have hne : said ≠ [] := by
      rw [Ne, hsaid.eq_nil_iff]
      exact trimSpace_ne_nil (by simp [hc])
    have hstart : (space ++ c :: rest).dropWhile isSpace = c :: rest := dropWhile_stop hspace hc _
    rw [trimSpace, hstart] at hsaid
    have hless : '<' ∉ c :: rest := fun hmem => hdata (List.mem_append_right _ hmem)
    rw [dataEvents, if_neg hne, List.append_assoc]
    exact (Tells.of_data hc (fun heq => hless (heq ▸ List.mem_cons_self)) rfl
      (cut_data hless after) (resolve_eq_ok_iff.mpr hsaid) hlater).of_spaces hspace

theorem Reader.data_of_finished {offset place : Nat} {opened : List (List Char)}
    {data after : List Char} (hdata : '<' ∉ data)
    (h : (Reader.trace ⟨data ++ '<' :: after, offset, false, opened⟩).ending = .finished place) :
    ∃ said later, Resolves (trimSpace data) said ∧ Tells opened ('<' :: after) later := by
  rcases spaces_or data with hspace | ⟨space, c, rest, rfl, hspace, hc⟩
  · rw [trimSpace_of_spaces hspace]
    exact ⟨[], _, .nil, (tells_trace h).behind_spaces hspace⟩
  · have hless : '<' ∉ c :: rest := fun hmem => hdata (List.mem_append_right _ hmem)
    have hc' : c ≠ '<' := fun heq => hless (heq ▸ List.mem_cons_self)
    have hrest : space ++ c :: rest ++ '<' :: after = space ++ c :: (rest ++ '<' :: after) := by
      simp
    have hcut : cut (· == '<') (c :: (rest ++ '<' :: after)) = (c :: rest, '<' :: after) :=
      cut_data hless after
    have hnext : Reader.next ⟨space ++ c :: rest ++ '<' :: after, offset, false, opened⟩ = _ :=
      next_of_space rfl hspace hc hrest
    rw [if_neg hc', readText, hcut] at hnext
    have hstart : (space ++ c :: rest).dropWhile isSpace = c :: rest := dropWhile_stop hspace hc _
    dsimp only at hnext
    rw [trimSpace, hstart]
    split at hnext
    · rw [trace_of_failed hnext] at h
      cases h
    · next said hsaid =>
        rw [trace_of_event hnext] at h
        exact ⟨said, _, resolve_eq_ok_iff.mp hsaid, tells_trace h⟩

end Rubato.Markup
