import Rubato.Proofs.Score.Likeness

namespace Rubato

open Markup (Element Attribute)

namespace Markup

/-- The second tree is the first one with one more element among the children of a node. -/
inductive Element.Inserted (extra : Element) : Element → Element → Prop
  | here (name : String) (attributes : List Attribute) (before after : List Element)
      (text : String) :
      Inserted extra ⟨name, attributes, before ++ after, text⟩
        ⟨name, attributes, before ++ extra :: after, text⟩
  | inside (name : String) (attributes : List Attribute) (before after : List Element)
      (text : String) {child other : Element} (h : Inserted extra child other) :
      Inserted extra ⟨name, attributes, before ++ child :: after, text⟩
        ⟨name, attributes, before ++ other :: after, text⟩

end Markup

namespace Reading

/-- Trees that differ only in elements that are looked up nowhere. -/
inductive SameLookedUp : Element → Element → Prop
  | mk (name : String) (attributes : List Attribute) {children others : List Element}
      (text : String)
      (h : List.Forall₂ SameLookedUp (children.filter isLookedUp) (others.filter isLookedUp)) :
      SameLookedUp ⟨name, attributes, children, text⟩ ⟨name, attributes, others, text⟩

namespace SameLookedUp

theorem refl (element : Element) : SameLookedUp element element := by
  match element with
  | ⟨name, attributes, children, text⟩ =>
      refine .mk name attributes text (List.forall₂_same.mpr fun child hchild => ?_)
      have hmem : child ∈ children := (List.mem_filter.mp hchild).1
      exact refl child
termination_by sizeOf element

theorem refl_list (elements : List Element) :
    List.Forall₂ SameLookedUp elements elements :=
  List.forall₂_same.mpr fun element _ => refl element

theorem of_inserted {extra first second : Element} (hextra : extra.name ∉ elementNames)
    (h : extra.Inserted first second) : SameLookedUp first second := by
  have hpassed : isLookedUp extra = false := by simpa [isLookedUp] using hextra
  induction h with
  | here name attributes before after text =>
      refine .mk name attributes text ?_
      rw [List.filter_append, List.filter_append,
        List.filter_cons_of_neg (Bool.eq_false_iff.mp hpassed)]
      exact refl_list _
  | @inside name attributes before after text child other _ ih =>
      refine .mk name attributes text ?_
      have hname : isLookedUp other = isLookedUp child := by
        cases ih
        rfl
      rw [List.filter_append, List.filter_append]
      refine List.rel_append (refl_list _) ?_
      rw [List.filter_cons, List.filter_cons, hname]
      split
      · exact .cons ih (refl_list _)
      · exact refl_list _

theorem attr?_eq {first second : Element} (h : SameLookedUp first second) (name : String) :
    second.attr? name = first.attr? name := by
  cases h
  rfl

end SameLookedUp

theorem likeness_sameLookedUp : Likeness SameLookedUp where
  name_eq h := by cases h; rfl
  trimmedText_eq h := by cases h; rfl
  attr?_eq h _ := h.attr?_eq _
  children h := by
    cases h with
    | mk _ _ _ hchildren => exact hchildren

section SameLookedUp

variable {α : Type} [Quantity α] {first second : Element} (h : SameLookedUp first second)

include h

theorem soundTempo_sameLookedUp : soundTempo second = (soundTempo first : Noted α _) := by
  unfold soundTempo
  rw [h.attr?_eq]

theorem direction_sameLookedUp : direction second = (direction first : Noted α _) := by
  have hsound : ifPresent soundTempo (second.child? "sound") =
      (ifPresent soundTempo (first.child? "sound") : Noted α _) :=
    ifPresent_eq_of_rel (fun _ _ hsound => soundTempo_sameLookedUp hsound)
      (likeness_sameLookedUp.child? h (by decide))
  have hmetronomes : List.Forall₂ SameLookedUp
      ((directionTypes first).flatMap fun group => group.childrenNamed "metronome")
      ((directionTypes second).flatMap fun group => group.childrenNamed "metronome") :=
    List.rel_flatMap (likeness_sameLookedUp.childrenNamed h (by decide)) fun _ _ hgroup =>
      likeness_sameLookedUp.childrenNamed hgroup (by decide)
  have htempo := findSome?_eq_of_forall₂ (R := SameLookedUp)
    (fun _ _ hmetronome => likeness_sameLookedUp.metronomeTempo?_eq (α := α) hmetronome) hmetronomes
  unfold direction
  rw [hsound, likeness_sameLookedUp.words_eq h]
  dsimp only
  rw [htempo]

theorem added_sameLookedUp : (added second : List (MeasureElement α)) = added first := by
  rcases likeness_sameLookedUp.added_eq_or (α := α) h with hsame | hname | hname
  · exact hsame
  · simp only [added, likeness_sameLookedUp.name_eq h, hname, direction_sameLookedUp h]
  · simp only [added, likeness_sameLookedUp.name_eq h, hname, soundTempo_sameLookedUp h]

theorem value_measure_sameLookedUp :
    (measure second : Noted α (Measure α)).value = (measure first : Noted α (Measure α)).value := by
  have hadded := map_eq_map_iff.mpr ((likeness_sameLookedUp.children h).imp fun _ _ hchild =>
    (added_sameLookedUp (α := α) hchild).symm)
  have hpassed : ∀ child, isLookedUp child = false → added child = ([] : List (MeasureElement α)) :=
    fun _ hchild => added_of_passed hchild
  rw [value_measure, value_measure, likeness_sameLookedUp.declared_children_eq h, h.attr?_eq,
    ← flatMap_filter_of_passed hpassed, ← flatMap_filter_of_passed hpassed first.children]
  exact congrArg (fun elements => Measure.mk _ _ (List.flatten elements)) hadded.symm

theorem value_part_sameLookedUp :
    (part second : Noted α (Part α)).value = (part first : Noted α (Part α)).value := by
  have hmeasures := map_eq_map_iff.mpr
    ((likeness_sameLookedUp.childrenNamed h (show "measure" ∈ elementNames by decide)).imp
      fun _ _ hmeasure => (value_measure_sameLookedUp (α := α) hmeasure).symm)
  simp only [part, Noted.value_bind, Noted.value_mapList, Noted.value_pure, h.attr?_eq, hmeasures]

end SameLookedUp

end Reading

section Scores

variable {α : Type} [Quantity α]

theorem Score.ofElement_sameLookedUp {first second : Element}
    (h : Reading.SameLookedUp first second) :
    (Score.ofElement second : Except Failure (Noted α (Score α))).map (·.value) =
      (Score.ofElement first : Except Failure (Noted α (Score α))).map (·.value) := by
  have hparts := Reading.likeness_sameLookedUp.childrenNamed h
    (show "part" ∈ Reading.elementNames by decide)
  have hread := map_eq_map_iff.mpr (hparts.imp fun _ _ hpart =>
    (Reading.value_part_sameLookedUp (α := α) hpart).symm)
  unfold Score.ofElement
  rw [Reading.likeness_sameLookedUp.name_eq h]
  split
  · generalize first.childrenNamed "part" = parts at hparts hread ⊢
    generalize second.childrenNamed "part" = parts' at hparts hread ⊢
    cases hparts with
    | nil => rfl
    | cons _ _ =>
        refine congrArg Except.ok ?_
        simp only [Noted.value_map, Noted.value_mapList, hread]
  · split <;> rfl

/-- An element whose name is looked up nowhere changes neither the score that is read from a
tree nor the fault that is found in it, wherever below the root it is put in. -/
theorem Score.ofElement_inserted {extra first second : Element}
    (hextra : extra.name ∉ Reading.elementNames) (h : extra.Inserted first second) :
    (Score.ofElement second : Except Failure (Noted α (Score α))).map (·.value) =
      (Score.ofElement first : Except Failure (Noted α (Score α))).map (·.value) :=
  Score.ofElement_sameLookedUp (.of_inserted hextra h)

end Scores

def ornamentedScore (ornaments : List Element) : Element :=
  ⟨"score-partwise", [], [⟨"part", [⟨"id", "P1"⟩], [⟨"measure", [], [⟨"note", [],
    [⟨"pitch", [], [⟨"step", [], [], "C"⟩], ""⟩,
      ⟨"notations", [], [⟨"ornaments", [], ornaments, ""⟩], ""⟩], ""⟩], ""⟩], ""⟩], ""⟩

/-- An ornament that is not known, with a turn in it. -/
def schleifer : Element := ⟨"schleifer", [], [⟨"turn", [], [], ""⟩], ""⟩

def trill : Element := ⟨"trill-mark", [], [], ""⟩

theorem Score.ofElement_inserted_schleifer :
    schleifer.name ∉ Reading.elementNames ∧
      schleifer.Inserted (ornamentedScore [trill]) (ornamentedScore [schleifer, trill]) ∧
      ∃ score : Score ℚ,
        (Score.ofElement (ornamentedScore [trill])).map (·.value) = .ok score ∧
          (Score.ofElement (ornamentedScore [schleifer, trill])).map (·.value) = .ok score := by
  have hname : schleifer.name ∉ Reading.elementNames := by decide
  have hinserted :
      schleifer.Inserted (ornamentedScore [trill]) (ornamentedScore [schleifer, trill]) :=
    .inside "score-partwise" [] [] [] "" <| .inside "part" _ [] [] "" <|
      .inside "measure" [] [] [] "" <| .inside "note" [] [_] [] "" <|
        .inside "notations" [] [] [] "" <| .here "ornaments" [] [] [trill] ""
  exact ⟨hname, hinserted, _, rfl, Score.ofElement_inserted hname hinserted⟩

end Rubato
