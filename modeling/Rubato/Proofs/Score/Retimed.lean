import Rubato.Proofs.Score.Likeness

namespace Rubato

/-! A `sound` that stands directly in a measure is a direction only if its tempo can be
read, so that elements of a measure can come or go with a tempo; all of them are directions.
-/

open Markup (Element)

def Remark.invalidTempo? {α : Type} : Remark α → Option String
  | .invalidTempo text => some text
  | _ => none

namespace Noted

variable {α β γ : Type}

/-- No remark is on a tempo that cannot be read. -/
def TemposValid (noted : Noted α β) : Prop :=
  ∀ text, .invalidTempo text ∉ noted.remarks

instance (noted : Noted α β) : Decidable noted.TemposValid :=
  decidable_of_iff (∀ r ∈ noted.remarks, r.invalidTempo? = none)
    ⟨fun h text htext => Option.some_ne_none text (h _ htext), fun h r hr => by
      cases r <;> first | rfl | exact absurd hr (h _)⟩

theorem TemposValid.of_remarks {noted : Noted α β} (h : noted.TemposValid) {other : Noted α γ}
    (hremarks : ∀ r ∈ other.remarks, r ∈ noted.remarks) : other.TemposValid :=
  fun text htext => h text (hremarks _ htext)

theorem mem_remarks_mapList {f : β → Noted α γ} {list : List β} {b : β} (hb : b ∈ list)
    {r : Remark α} (hr : r ∈ (f b).remarks) : r ∈ (mapList f list).remarks := by
  induction list with
  | nil => cases hb
  | cons head rest ih =>
      simp only [mapList, remarks_bind, List.mem_append]
      rcases List.mem_cons.mp hb with rfl | hrest
      · exact .inl hr
      · exact .inr (.inl (ih hrest))

theorem mem_remarks_foldList {step : γ → β → Noted α γ} {list : List β} {b : β} (hb : b ∈ list)
    {r : Remark α} (hr : ∀ reached, r ∈ (step reached b).remarks) (start : γ) :
    r ∈ (foldList step start list).remarks := by
  induction list generalizing start with
  | nil => cases hb
  | cons head rest ih =>
      simp only [foldList, remarks_bind, List.mem_append]
      rcases List.mem_cons.mp hb with rfl | hrest
      · exact .inl (hr start)
      · exact .inr (ih hrest _)

end Noted

namespace Reading

variable {α : Type} [Quantity α] {value : List Char} {first second : Element}

theorem not_tempo_of_mem_attributeNames : ∀ name ∈ attributeNames,
    name.toList.getLast?.all Markup.endsTempo = false := by
  decide

theorem likeness_retimed (value : List Char) : Likeness (Element.Retimed value) where
  name_eq h := h.name_eq
  trimmedText_eq h := h.trimmedText_eq
  attr?_eq h hname := h.attr?_eq _ (not_tempo_of_mem_attributeNames _ hname)
  children h := List.rel_filter (fun _ _ hchild => by simp only [isLookedUp, hchild.name_eq])
    h.children

theorem isSome_soundTempo_retimed (h : first.Retimed value second)
    (htempo : ∃ tempo : α, (Decimal.numeral? (Text.trim value)).bind tempo? = some tempo)
    (hvalid : (soundTempo first : Noted α _).TemposValid) :
    (soundTempo second : Noted α _).value.isSome = (soundTempo first : Noted α _).value.isSome := by
  rcases h.attr?_eq_or "tempo" with hsame | ⟨-, hfirst, hsecond⟩
  · unfold soundTempo
    rw [hsame]
  · obtain ⟨raw, hraw⟩ := Option.isSome_iff_exists.mp hfirst
    obtain ⟨tempo, htempo⟩ := htempo
    have hforced : (soundTempo second : Noted α _) = pure (some tempo) := by
      unfold soundTempo
      rw [hsecond]
      dsimp only
      rw [String.toList_ofList, htempo]
    have hread : (soundTempo first : Noted α _).value.isSome := by
      unfold soundTempo at hvalid ⊢
      rw [hraw] at hvalid ⊢
      dsimp only at hvalid ⊢
      split
      · rfl
      · next hnone =>
          rw [hnone] at hvalid
          exact absurd (List.mem_singleton.mpr rfl) (hvalid raw)
    rw [hforced, hread]
    rfl

end Reading

section Directions

variable {α : Type}

def MeasureElement.isDirection : MeasureElement α → Bool
  | .direction _ => true
  | _ => false

theorem MeasureElement.map_muted_directions {elements : List (MeasureElement α)}
    (h : ∀ element ∈ elements, element.isDirection = true) :
    elements.map MeasureElement.muted = List.replicate elements.length (.direction ⟨[], none⟩) := by
  rw [List.map_eq_replicate_iff]
  intro element helement
  have hdirection := h element helement
  cases element <;> first | rfl | cases hdirection

def Measure.undirected (measure : Measure α) : Measure α :=
  { measure with elements := measure.elements.filter fun element => !element.isDirection }

def Part.undirected (part : Part α) : Part α :=
  { part with measures := part.measures.map Measure.undirected }

/-- A score without what its directions say. -/
def Score.undirected (score : Score α) : Score α :=
  ⟨score.parts.map Part.undirected⟩

end Directions

namespace Reading

variable {α : Type} [Quantity α] {value : List Char} {first second : Element}

theorem isDirection_of_mem_added {child : Element}
    (hname : child.name = "direction" ∨ child.name = "sound") :
    ∀ element ∈ added (α := α) child, element.isDirection = true := by
  intro element helement
  rcases hname with hname | hname
  · rw [added, hname] at helement
    rw [List.mem_singleton.mp helement]
    rfl
  · rw [added, hname] at helement
    obtain ⟨tempo, _, rfl⟩ := List.mem_map.mp helement
    rfl

theorem filter_added_retimed (h : first.Retimed value second) :
    ((added second : List (MeasureElement α)).filter fun element => !element.isDirection) =
      (added first).filter fun element => !element.isDirection := by
  rcases (likeness_retimed value).added_eq_or (α := α) h with hsame | hname
  · rw [hsame]
  · have hnone : ∀ child : Element, child.name = "direction" ∨ child.name = "sound" →
        ((added child : List (MeasureElement α)).filter fun element => !element.isDirection) = [] :=
      fun child hname => List.filter_eq_nil_iff.mpr fun element helement => by
        rw [isDirection_of_mem_added hname element helement]
        decide
    rw [hnone first hname, hnone second (h.name_eq ▸ hname)]

/-- The tempo of a sound of a measure, if it states one, can be read. -/
def SoundRead (α : Type) [Quantity α] (child : Element) : Prop :=
  child.name = "sound" → (soundTempo child : Noted α _).TemposValid

theorem muted_added_retimed (h : first.Retimed value second)
    (htempo : ∃ tempo : α, (Decimal.numeral? (Text.trim value)).bind tempo? = some tempo)
    (hread : SoundRead α first) :
    (added second : List (MeasureElement α)).map MeasureElement.muted =
      (added first).map MeasureElement.muted := by
  rcases (likeness_retimed value).added_eq_or (α := α) h with hsame | hname
  · rw [hsame]
  · have hlength : (added second : List (MeasureElement α)).length =
        (added first : List (MeasureElement α)).length := by
      unfold added
      rw [h.name_eq]
      rcases hname with hname | hname
      · rw [hname]
        rfl
      · have hsome := isSome_soundTempo_retimed h htempo (hread hname)
        rw [hname]
        show (List.map _ _).length = (List.map _ _).length
        rw [List.length_map, List.length_map, Option.length_toList, Option.length_toList, hsome]
    rw [MeasureElement.map_muted_directions (isDirection_of_mem_added hname),
      MeasureElement.map_muted_directions (isDirection_of_mem_added (h.name_eq ▸ hname)), hlength]

theorem measure_undirected_retimed (h : first.Retimed value second) :
    (measure second : Noted α (Measure α)).value.undirected =
      (measure first : Noted α (Measure α)).value.undirected := by
  have hadded := map_eq_map_iff.mpr
    (h.children.imp fun _ _ hchild => (filter_added_retimed (α := α) hchild).symm)
  rw [value_measure, value_measure, (likeness_retimed value).declared_children_eq h,
    h.attr?_eq "number" (by decide)]
  unfold Measure.undirected
  dsimp only
  rw [List.filter_flatMap, List.filter_flatMap]
  simp only [List.flatMap, hadded]

theorem soundRead_of_measure {element child : Element} (hchild : child ∈ element.children)
    (hvalid : (measure element : Noted α (Measure α)).TemposValid) :
    SoundRead α child := by
  intro hname text htext
  have hstep : ∀ reached : Measure α,
      .invalidTempo text ∈ (measureChild reached child).remarks := by
    intro reached
    unfold measureChild
    rw [hname]
    exact List.mem_append_left _ htext
  refine hvalid text ?_
  simp only [measure, Noted.remarks_bind, List.mem_append]
  exact .inl (Noted.mem_remarks_foldList hchild hstep _)

theorem measure_sameMusic_retimed (h : first.Retimed value second)
    (htempo : ∃ tempo : α, (Decimal.numeral? (Text.trim value)).bind tempo? = some tempo)
    (hvalid : (measure first : Noted α (Measure α)).TemposValid) :
    (measure second : Noted α (Measure α)).value.SameMusic
      (measure first : Noted α (Measure α)).value := by
  have hchildren := (List.forall₂_and_left (p := SoundRead α) _ _).mpr
    ⟨fun child hchild => soundRead_of_measure hchild hvalid, h.children⟩
  have hmuted := hchildren.imp fun _ _ hchild =>
    muted_added_retimed hchild.2 htempo hchild.1
  have hadded := map_eq_map_iff.mpr (List.Forall₂.flip hmuted)
  rw [value_measure, value_measure]
  refine ⟨(likeness_retimed value).declared_children_eq h, .same ?_⟩
  dsimp only
  rw [List.map_flatMap, List.map_flatMap]
  simp only [List.flatMap, hadded]

theorem part_undirected_retimed (h : first.Retimed value second) :
    (part second : Noted α (Part α)).value.undirected =
      (part first : Noted α (Part α)).value.undirected := by
  have hmeasures := map_eq_map_iff.mpr ((h.childrenNamed "measure").imp fun _ _ hmeasure =>
    (measure_undirected_retimed (α := α) hmeasure).symm)
  simp only [part, Noted.value_bind, Noted.value_mapList, Noted.value_pure, Part.undirected,
    List.map_map, h.attr?_eq "id" (by decide)]
  exact congrArg _ hmeasures.symm

theorem part_sameMusic_retimed (h : first.Retimed value second)
    (htempo : ∃ tempo : α, (Decimal.numeral? (Text.trim value)).bind tempo? = some tempo)
    (hvalid : (part first : Noted α (Part α)).TemposValid) :
    (part second : Noted α (Part α)).value.SameMusic (part first : Noted α (Part α)).value := by
  have hmeasures : ∀ child ∈ first.childrenNamed "measure",
      (measure child : Noted α (Measure α)).TemposValid := fun child hchild =>
    hvalid.of_remarks fun r hr =>
      List.mem_append_left _ (Noted.mem_remarks_mapList hchild hr)
  have hrelated := (List.forall₂_and_left (p := fun child =>
    (measure child : Noted α (Measure α)).TemposValid) _ _).mpr
      ⟨hmeasures, h.childrenNamed "measure"⟩
  simp only [Part.SameMusic, part, Noted.value_bind, Noted.value_mapList, Noted.value_pure]
  rw [List.forall₂_map_left_iff, List.forall₂_map_right_iff]
  exact List.Forall₂.flip (hrelated.imp fun _ _ hmeasure =>
    measure_sameMusic_retimed hmeasure.2 htempo hmeasure.1)

end Reading

section Scores

variable {α : Type} [Quantity α] {value : List Char} {root root' : Element}

/-- Elements that differ in tempos are scores that differ in what directions say, and
without a remark on a tempo the same music. -/
theorem Score.ofElement_retimed (h : root.Retimed value root')
    (htempo : ∃ tempo : α, (Decimal.numeral? (Text.trim value)).bind Reading.tempo? = some tempo)
    {read : Noted α (Score α)} (hread : Score.ofElement root = .ok read) :
    ∃ read' : Noted α (Score α), Score.ofElement root' = .ok read' ∧
      read'.value.undirected = read.value.undirected ∧
        (read.TemposValid → read'.value.SameMusic read.value) := by
  have hparts := h.childrenNamed "part"
  unfold Score.ofElement at hread ⊢
  rw [h.name_eq]
  split at hread
  case isFalse => split at hread <;> cases hread
  case isTrue hname =>
      rw [if_pos hname]
      dsimp only at hread ⊢
      generalize root.childrenNamed "part" = parts at hparts hread
      generalize root'.childrenNamed "part" = parts' at hparts ⊢
      cases hparts with
      | nil => cases hread
      | @cons part part' rest rest' hpart hrest =>
          cases hread
          have hparts : List.Forall₂ (Element.Retimed value) (part :: rest) (part' :: rest') :=
            .cons hpart hrest
          refine ⟨_, rfl, ?_, fun hvalid => ?_⟩
          · have hread := map_eq_map_iff.mpr (hparts.imp fun _ _ hpart =>
              (Reading.part_undirected_retimed (α := α) hpart).symm)
            simp only [Score.undirected, Noted.value_map, Noted.value_mapList, List.map_map]
            exact congrArg Score.mk hread.symm
          · have hread : ∀ child ∈ part :: rest,
                (Reading.part child : Noted α (Part α)).TemposValid := fun _ hmem =>
              hvalid.of_remarks fun r hr =>
                List.mem_append_left _ (Noted.mem_remarks_mapList hmem hr)
            have hrelated := (List.forall₂_and_left (p := fun child =>
              (Reading.part child : Noted α (Part α)).TemposValid) _ _).mpr ⟨hread, hparts⟩
            simp only [Score.SameMusic, Noted.value_map, Noted.value_mapList]
            rw [List.forall₂_map_left_iff, List.forall₂_map_right_iff]
            exact List.Forall₂.flip (hrelated.imp fun _ _ hpart =>
              Reading.part_sameMusic_retimed hpart.2 htempo hpart.1)

end Scores

end Rubato
