import Rubato.Proofs.Markup.Element
import Rubato.Proofs.Performance.Music
import Rubato.Score.Reading

namespace Rubato

/-! What the reading of a score looks at: it looks elements and attributes up by their
names, takes the name and the trimmed text of some of them, and passes over the rest. -/

open Markup (Element)

namespace Reading

/-- The names of the elements that are looked up somewhere. -/
def elementNames : List String := [
  "part", "measure", "attributes", "divisions", "time", "beats", "beat-type", "key", "fifths",
  "note", "pitch", "step", "alter", "octave", "duration", "chord", "grace", "voice", "staff",
  "dot", "tie", "notations", "tied", "ornaments", "mordent", "inverted-mordent", "trill-mark",
  "turn", "delayed-turn", "shake", "wavy-line", "accidental-mark", "lyric", "text", "backup",
  "forward", "direction", "direction-type", "words", "metronome", "per-minute", "beat-unit",
  "beat-unit-dot", "sound", "harmony", "root", "root-step", "root-alter", "bass", "bass-step",
  "bass-alter", "kind"]

/-- The names of the attributes that are looked up somewhere, but for the tempo of a sound. -/
def attributeNames : List String :=
  ["id", "number", "slash", "type", "placement", "long", "text"]

def isLookedUp (element : Element) : Bool := elementNames.contains element.name

def lookedUp (element : Element) : List Element := element.children.filter isLookedUp

/-- Elements that are alike in what is looked up, with children that are. -/
structure Likeness (R : Element → Element → Prop) : Prop where
  name_eq {first second : Element} : R first second → second.name = first.name
  trimmedText_eq {first second : Element} : R first second →
    second.trimmedText = first.trimmedText
  attr?_eq {first second : Element} {name : String} : R first second →
    name ∈ attributeNames → second.attr? name = first.attr? name
  children {first second : Element} : R first second →
    List.Forall₂ R (lookedUp first) (lookedUp second)

theorem child?_eq_find? {name : String} (hname : name ∈ elementNames) (element : Element) :
    element.child? name = (lookedUp element).find? fun child => child.name == name := by
  unfold Element.child? lookedUp
  rw [List.find?_filter]
  congr 1
  funext child
  cases hchild : child.name == name with
  | false => simp
  | true => simp [isLookedUp, eq_of_beq hchild, hname]

theorem childrenNamed_eq_filter {name : String} (hname : name ∈ elementNames)
    (element : Element) :
    element.childrenNamed name = (lookedUp element).filter fun child => child.name == name := by
  unfold Element.childrenNamed lookedUp
  rw [List.filter_filter]
  refine List.filter_congr fun child _ => ?_
  cases hchild : child.name == name with
  | false => simp
  | true => simp [isLookedUp, eq_of_beq hchild, hname]

theorem foldl_filter_of_passed {β γ : Type} {step : γ → β → γ} {keep : β → Bool}
    (hpassed : ∀ start b, keep b = false → step start b = start) (list : List β) (start : γ) :
    (list.filter keep).foldl step start = list.foldl step start := by
  rw [List.foldl_filter]
  congr 1
  funext reached b
  split
  · rfl
  · next hb => rw [hpassed reached b (Bool.eq_false_iff.mpr hb)]

theorem flatMap_filter_of_passed {β γ : Type} {f : β → List γ} {keep : β → Bool}
    (hpassed : ∀ b, keep b = false → f b = []) (list : List β) :
    (list.filter keep).flatMap f = list.flatMap f := by
  induction list with
  | nil => rfl
  | cons b rest ih =>
      rw [List.flatMap_cons, List.filter_cons]
      split
      · rw [List.flatMap_cons, ih]
      · next hb => rw [ih, hpassed b (Bool.eq_false_iff.mpr hb), List.nil_append]

theorem findSome?_eq_of_forall₂ {β γ : Type} {R : β → β → Prop} {f : β → Option γ}
    (hf : ∀ b c, R b c → f c = f b) {list other : List β} (h : List.Forall₂ R list other) :
    other.findSome? f = list.findSome? f := by
  induction h with
  | nil => rfl
  | cons hhead _ ih => rw [List.findSome?_cons, List.findSome?_cons, hf _ _ hhead, ih]

variable {α : Type}

theorem ifPresent_eq_of_rel {β γ : Type} {R : β → β → Prop} {read : β → Noted α (Option γ)}
    (hread : ∀ b c, R b c → read c = read b) {found other : Option β}
    (h : Option.Rel R found other) : ifPresent read other = ifPresent read found := by
  cases h with
  | none => rfl
  | some hrel => exact hread _ _ hrel

namespace Likeness

variable {R : Element → Element → Prop} (hR : Likeness R) {first second : Element}
  (h : R first second)

include hR h

theorem child? {name : String} (hname : name ∈ elementNames) :
    Option.Rel R (first.child? name) (second.child? name) := by
  rw [child?_eq_find? hname, child?_eq_find? hname]
  exact Markup.rel_find? (fun _ _ hchild => by rw [hR.name_eq hchild]) (hR.children h)

theorem childrenNamed {name : String} (hname : name ∈ elementNames) :
    List.Forall₂ R (first.childrenNamed name) (second.childrenNamed name) := by
  rw [childrenNamed_eq_filter hname, childrenNamed_eq_filter hname]
  exact List.rel_filter (fun _ _ hchild => by simp only [hR.name_eq hchild]) (hR.children h)

theorem childText?_eq {name : String} (hname : name ∈ elementNames) :
    second.childText? name = first.childText? name :=
  (Markup.map_eq_of_rel (R := R) (fun _ _ hchild => (hR.trimmedText_eq hchild).symm)
    (hR.child? h hname)).symm

theorem hasChild_eq {name : String} (hname : name ∈ elementNames) :
    second.hasChild name = first.hasChild name := by
  have hchild := hR.child? h hname
  unfold Element.hasChild
  generalize first.child? name = found at hchild ⊢
  generalize second.child? name = found' at hchild ⊢
  cases hchild <;> rfl

theorem timeSignature_eq : timeSignature second = (timeSignature first : Noted α _) := by
  unfold timeSignature
  rw [hR.childText?_eq h (by decide), hR.childText?_eq h (by decide)]

theorem attributes_eq [Quantity α] (earlier : Attributes) :
    attributes earlier second = (attributes earlier first : Noted α _) := by
  unfold attributes
  rw [hR.childText?_eq h (by decide),
    ifPresent_eq_of_rel (fun _ _ htime => hR.timeSignature_eq htime) (hR.child? h (by decide)),
    ifPresent_eq_of_rel (fun _ _ hkey => by rw [hR.childText?_eq hkey (by decide)])
      (hR.child? h (by decide))]

theorem pitch_eq [Quantity α] : pitch second = (pitch first : Noted α _) := by
  unfold pitch
  rw [hR.childText?_eq h (by decide), hR.childText?_eq h (by decide),
    hR.childText?_eq h (by decide)]

theorem graceMark_eq : graceMark second = graceMark first := by
  unfold graceMark
  rw [hR.attr?_eq h (by decide)]

theorem tieMark_eq (marks : TieMarks) : tieMark marks second = tieMark marks first := by
  unfold tieMark
  rw [hR.attr?_eq h (by decide)]

theorem tieMarks_eq : tieMarks second = tieMarks first := by
  have htied : List.Forall₂ R
      ((notations first).flatMap fun group => group.childrenNamed "tied")
      ((notations second).flatMap fun group => group.childrenNamed "tied") :=
    List.rel_flatMap (hR.childrenNamed h (by decide)) fun _ _ hgroup =>
      hR.childrenNamed hgroup (by decide)
  have hmarks := List.rel_append (hR.childrenNamed h (show "tie" ∈ elementNames by decide)) htied
  unfold tieMarks
  dsimp only
  refine List.rel_foldl (P := Eq) (R := flip R) ?_ rfl (List.Forall₂.flip hmarks)
  rintro marks _ rfl mark mark' hmark
  exact hR.tieMark_eq hmark marks

theorem placement?_eq : placement? second = placement? first := by
  unfold placement?
  rw [hR.attr?_eq h (by decide)]

theorem ornamentMark_eq (marks : OrnamentMarks) :
    ornamentMark marks second = (ornamentMark marks first : Noted α _) := by
  unfold ornamentMark accidentalMark
  rw [hR.attr?_eq h (by decide), hR.attr?_eq h (by decide), hR.name_eq h, hR.trimmedText_eq h,
    hR.placement?_eq h]

end Likeness

theorem value_ornamentMark_of_passed {element : Element} (h : isLookedUp element = false)
    (marks : OrnamentMarks) :
    (ornamentMark marks element : Noted α OrnamentMarks).value = marks := by
  have hname : element.name ∉ elementNames := by simpa [isLookedUp] using h
  unfold ornamentMark
  dsimp only
  split
  case h_9 => rfl
  all_goals
    next heq => exact absurd (by rw [heq]; decide) hname

theorem value_ornamentMarks (element : Element) :
    (ornamentMarks element : Noted α OrnamentMarks).value =
      ((notations element).flatMap fun group =>
          (group.childrenNamed "ornaments").flatMap lookedUp).foldl
        (fun marks mark => (ornamentMark marks mark : Noted α OrnamentMarks).value) ⟨[], []⟩ := by
  unfold ornamentMarks
  have hpassed : ∀ marks mark, isLookedUp mark = false →
      (ornamentMark marks mark : Noted α OrnamentMarks).value = marks :=
    fun marks _ hmark => value_ornamentMark_of_passed hmark marks
  rw [Noted.value_foldList, ← foldl_filter_of_passed hpassed]
  simp only [List.filter_flatMap]
  rfl

namespace Likeness

variable {R : Element → Element → Prop} (hR : Likeness R) {first second : Element}
  (h : R first second)

include hR h

theorem value_ornamentMarks_eq :
    (ornamentMarks second : Noted α OrnamentMarks).value =
      (ornamentMarks first : Noted α OrnamentMarks).value := by
  have hchildren : ∀ group group', R group group' →
      List.Forall₂ R (lookedUp group) (lookedUp group') := fun _ _ hgroup => hR.children hgroup
  have hgroup : ∀ group group', R group group' → List.Forall₂ R
      ((group.childrenNamed "ornaments").flatMap lookedUp)
      ((group'.childrenNamed "ornaments").flatMap lookedUp) := fun _ _ hgroup =>
    List.rel_flatMap (hR.childrenNamed hgroup (by decide)) hchildren
  have hnotations := hR.childrenNamed h (show "notations" ∈ elementNames by decide)
  have hmarks := List.rel_flatMap hnotations hgroup
  rw [value_ornamentMarks, value_ornamentMarks]
  refine List.rel_foldl (P := Eq) (R := flip R) ?_ rfl (List.Forall₂.flip hmarks)
  rintro marks _ rfl mark mark' hmark
  exact congrArg Noted.value (hR.ornamentMark_eq hmark marks)

theorem lyricText_eq : lyricText second = lyricText first := by
  have htexts := map_eq_map_iff.mpr
    ((hR.childrenNamed h (show "text" ∈ elementNames by decide)).imp fun _ _ htext =>
      (hR.trimmedText_eq htext).symm)
  unfold lyricText
  rw [htexts]

theorem value_note_eq [Quantity α] :
    (note second : Noted α Note).value = (note first : Noted α Note).value := by
  have hgrace := Markup.map_eq_of_rel (R := R) (fun _ _ hgrace => (hR.graceMark_eq hgrace).symm)
    (hR.child? h (show "grace" ∈ elementNames by decide))
  have hlyric := Markup.map_eq_of_rel (R := R) (fun _ _ hlyric => (hR.lyricText_eq hlyric).symm)
    (hR.child? h (show "lyric" ∈ elementNames by decide))
  have hdots := (hR.childrenNamed h (show "dot" ∈ elementNames by decide)).length_eq
  have hpitch : ifPresent pitch (second.child? "pitch") =
      (ifPresent pitch (first.child? "pitch") : Noted α _) :=
    ifPresent_eq_of_rel (R := R) (fun _ _ hpitch => hR.pitch_eq hpitch) (hR.child? h (by decide))
  simp only [note, Noted.value_bind, Noted.value_pure]
  rw [hpitch, hR.value_ornamentMarks_eq h, hR.childText?_eq h (by decide),
    hR.childText?_eq h (by decide), hR.childText?_eq h (by decide), hR.hasChild_eq h (by decide),
    hR.tieMarks_eq h, hdots, hgrace, hlyric]

theorem chordTone_eq [Quantity α] {step alter : String} (hstep : step ∈ elementNames)
    (halter : alter ∈ elementNames) :
    chordTone step alter second = (chordTone step alter first : Noted α _) := by
  unfold chordTone
  rw [hR.childText?_eq h hstep, hR.childText?_eq h halter]

theorem harmony_eq [Quantity α] : harmony second = (harmony first : Noted α _) := by
  have hkind := hR.child? h (show "kind" ∈ elementNames by decide)
  have hname := Markup.map_eq_of_rel (R := R)
    (fun _ _ hkind => (hR.trimmedText_eq hkind).symm) hkind
  have htext : (second.child? "kind").bind (fun kind => kind.attr? "text") =
      (first.child? "kind").bind fun kind => kind.attr? "text" := by
    generalize first.child? "kind" = kind at hkind ⊢
    generalize second.child? "kind" = kind' at hkind ⊢
    cases hkind with
    | none => rfl
    | some hkind => exact hR.attr?_eq hkind (by decide)
  have htone : ∀ step alter name, step ∈ elementNames → alter ∈ elementNames →
      name ∈ elementNames → ifPresent (chordTone step alter) (second.child? name) =
        (ifPresent (chordTone step alter) (first.child? name) : Noted α _) :=
    fun step alter name hstep halter hname => ifPresent_eq_of_rel (R := R)
      (fun _ _ htone => hR.chordTone_eq htone hstep halter) (hR.child? h hname)
  unfold harmony
  rw [htone _ _ _ (by decide) (by decide) (by decide),
    htone _ _ _ (by decide) (by decide) (by decide)]
  dsimp only
  rw [hname, htext]

theorem words_eq : words second = words first := by
  have hwords : List.Forall₂ R
      ((directionTypes first).flatMap fun group => group.childrenNamed "words")
      ((directionTypes second).flatMap fun group => group.childrenNamed "words") :=
    List.rel_flatMap (hR.childrenNamed h (by decide)) fun _ _ hgroup =>
      hR.childrenNamed hgroup (by decide)
  have htexts := map_eq_map_iff.mpr
    (hwords.imp fun _ _ hword => (hR.trimmedText_eq hword).symm)
  unfold words
  rw [htexts]

theorem metronomeTempo?_eq [Quantity α] :
    metronomeTempo? second = (metronomeTempo? first : Option α) := by
  unfold metronomeTempo?
  rw [hR.childText?_eq h (by decide), hR.childText?_eq h (by decide),
    hR.hasChild_eq h (by decide)]

end Likeness

section Measures

variable [Quantity α]

def declared (α : Type) [Quantity α] (earlier : Attributes) (child : Element) : Attributes :=
  match child.name with
  | "attributes" => (attributes earlier child : Noted α Attributes).value
  | _ => earlier

def added (child : Element) : List (MeasureElement α) :=
  match child.name with
  | "note" => [.note (note child : Noted α Note).value]
  | "backup" =>
    [.backup (divisionCount "duration" (child.childText? "duration") : Noted α Nat).value]
  | "forward" =>
    [.forward (divisionCount "duration" (child.childText? "duration") : Noted α Nat).value]
  | "direction" => [.direction (direction child).value]
  | "sound" => (soundTempo child).value.toList.map fun tempo => .direction ⟨[], some tempo⟩
  | "harmony" => [.harmony (harmony child : Noted α Harmony).value]
  | _ => []

theorem value_measureChild (measure : Measure α) (child : Element) :
    (measureChild measure child).value =
      ⟨measure.number, declared α measure.attributes child, measure.elements ++ added child⟩ := by
  unfold measureChild
  dsimp only
  split
  case h_6 hname =>
      simp only [declared, added, hname, Noted.value_bind]
      cases (soundTempo child : Noted α _).value with
      | none => simp
      | some tempo => rfl
  all_goals simp_all [declared, added]

theorem value_measure (element : Element) :
    (measure element : Noted α (Measure α)).value = ⟨(element.attr? "number").getD "",
      element.children.foldl (declared α) .none, element.children.flatMap added⟩ := by
  have hchildren : ∀ (children : List Element) (start : Measure α),
      children.foldl (fun reached child => (measureChild reached child).value) start =
        ⟨start.number, children.foldl (declared α) start.attributes,
          start.elements ++ children.flatMap added⟩ := by
    intro children
    induction children with
    | nil => intro start; simp
    | cons child rest ih =>
        intro start
        rw [List.foldl_cons, ih, value_measureChild]
        simp
  simp only [measure, Noted.value_bind, Noted.value_foldList, Noted.value_pure]
  rw [hchildren, List.nil_append]

theorem declared_of_passed {child : Element} (h : isLookedUp child = false)
    (earlier : Attributes) : declared α earlier child = earlier := by
  have hname : child.name ∉ elementNames := by simpa [isLookedUp] using h
  unfold declared
  split
  · next heq => exact absurd (by rw [heq]; decide) hname
  · rfl

theorem added_of_passed {child : Element} (h : isLookedUp child = false) :
    (added child : List (MeasureElement α)) = [] := by
  have hname : child.name ∉ elementNames := by simpa [isLookedUp] using h
  unfold added
  split
  case h_7 => rfl
  all_goals
    next heq => exact absurd (by rw [heq]; decide) hname

namespace Likeness

variable {R : Element → Element → Prop} (hR : Likeness R) {first second : Element}
  (h : R first second)

include hR h

theorem declared_eq (earlier : Attributes) :
    declared α earlier second = declared α earlier first := by
  unfold declared
  rw [hR.name_eq h, hR.attributes_eq h]

theorem declared_children_eq :
    second.children.foldl (declared α) .none = first.children.foldl (declared α) .none := by
  have hpassed : ∀ earlier child, isLookedUp child = false →
      declared α earlier child = earlier := fun earlier _ hchild =>
    declared_of_passed hchild earlier
  rw [← foldl_filter_of_passed hpassed, ← foldl_filter_of_passed hpassed first.children]
  refine List.rel_foldl (P := Eq) (R := flip R) ?_ rfl (List.Forall₂.flip (hR.children h))
  rintro earlier _ rfl child child' hchild
  exact hR.declared_eq hchild earlier

theorem added_eq_or :
    (added second : List (MeasureElement α)) = added first ∨
      first.name = "direction" ∨ first.name = "sound" := by
  unfold added
  rw [hR.name_eq h, hR.value_note_eq h, hR.harmony_eq h, hR.childText?_eq h (by decide)]
  split
  case h_4 hname => exact .inr (.inl hname)
  case h_5 hname => exact .inr (.inr hname)
  all_goals exact .inl rfl

end Likeness

end Measures

end Reading

end Rubato
