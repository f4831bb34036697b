import Rubato.Score.Reading

namespace Rubato

structure TimeSignature.WellFormed (time : TimeSignature) : Prop where
  beats_pos : 0 < time.beats
  beatType_pos : 0 < time.beatType

structure Attributes.WellFormed (attributes : Attributes) : Prop where
  divisions_pos : ∀ divisions ∈ attributes.divisions, 0 < divisions
  time_wellFormed : ∀ time ∈ attributes.time, time.WellFormed

structure Meter.WellFormed (meter : Meter) : Prop where
  divisions_pos : 0 < meter.divisions
  time_wellFormed : meter.time.WellFormed

instance (time : TimeSignature) : Decidable time.WellFormed :=
  decidable_of_iff (0 < time.beats ∧ 0 < time.beatType)
    ⟨fun h => ⟨h.1, h.2⟩, fun h => ⟨h.1, h.2⟩⟩

instance (attributes : Attributes) : Decidable attributes.WellFormed :=
  decidable_of_iff
    ((∀ divisions ∈ attributes.divisions, 0 < divisions) ∧
      ∀ time ∈ attributes.time, time.WellFormed)
    ⟨fun h => ⟨h.1, h.2⟩, fun h => ⟨h.1, h.2⟩⟩

theorem Attributes.wellFormed_none : Attributes.none.WellFormed := by decide

theorem Meter.wellFormed_initial : Meter.initial.WellFormed :=
  ⟨by decide, by decide⟩

theorem Meter.WellFormed.update {meter : Meter} {attributes : Attributes}
    (hmeter : meter.WellFormed) (hattributes : attributes.WellFormed) :
    (meter.update attributes).WellFormed := by
  constructor
  · unfold Meter.update
    cases hdivisions : attributes.divisions with
    | none => exact hmeter.divisions_pos
    | some divisions => exact hattributes.divisions_pos divisions hdivisions
  · unfold Meter.update
    cases htime : attributes.time with
    | none => exact hmeter.time_wellFormed
    | some time => exact hattributes.time_wellFormed time htime

def MeasureElement.tempo? {α : Type} : MeasureElement α → Option α
  | .direction mark => mark.tempo
  | _ => none

variable {α : Type} [Quantity α]

structure Measure.WellFormed (measure : Measure α) : Prop where
  attributes_wellFormed : measure.attributes.WellFormed
  tempo_pos : ∀ element ∈ measure.elements, ∀ bpm ∈ element.tempo?, 0 < bpm

def Part.WellFormed (part : Part α) : Prop :=
  ∀ measure ∈ part.measures, measure.WellFormed

def Score.WellFormed (score : Score α) : Prop :=
  ∀ part ∈ score.parts, part.WellFormed

instance (measure : Measure α) : Decidable measure.WellFormed :=
  decidable_of_iff
    (measure.attributes.WellFormed ∧
      ∀ element ∈ measure.elements, ∀ bpm ∈ element.tempo?, 0 < bpm)
    ⟨fun h => ⟨h.1, h.2⟩, fun h => ⟨h.1, h.2⟩⟩

instance (part : Part α) : Decidable part.WellFormed :=
  inferInstanceAs (Decidable (∀ measure ∈ part.measures, measure.WellFormed))

/-- A score that is read from a text. -/
def Score.IsRead (score : Score α) : Prop :=
  ∃ text remarks, Score.ofText text = .ok ⟨score, remarks⟩

def Note.plain (pitch : Option Pitch) (duration : Nat) : Note where
  pitch := pitch
  duration := duration
  chord := false
  grace := none
  voice := 1
  staff := 1
  tie := ⟨false, false⟩
  dots := 0
  ornaments := []
  accidentals := []
  lyric := none

/-- The characters of an element: what stands in its tag, and what stands in it. -/
def Markup.tagged (name : String) (attributes : List String) (content : List (List Char)) :
    List Char :=
  '<' :: name.toList ++ attributes.flatMap String.toList ++
    '>' :: content.flatten ++ '<' :: '/' :: name.toList ++ ['>']

theorem Score.ofText_ofList (characters : List Char) :
    (Score.ofText (String.ofList characters) : Except Failure (Noted α (Score α))) =
      (Markup.Reader.ofText characters).trace.element >>= Score.ofElement := by
  unfold Score.ofText Markup.readElement Markup.trace
  rw [String.toList_ofList]

theorem Score.exists_ofText {β : Type} {b : β} (characters : List Char)
    (f : Noted α (Score α) → β)
    (h : ((Markup.Reader.ofText characters).trace.element >>= Score.ofElement).toOption.map f =
      some b) :
    ∃ read, Score.ofText (String.ofList characters) = .ok read ∧ f read = b := by
  rw [Score.ofText_ofList]
  cases hread : ((Markup.Reader.ofText characters).trace.element >>= Score.ofElement :
      Except Failure (Noted α (Score α))) with
  | error failure =>
      rw [hread] at h
      cases h
  | ok read =>
      rw [hread] at h
      exact ⟨read, rfl, Option.some.inj h⟩

theorem Score.isRead_of_characters {score : Score α} (characters : List Char)
    (h : ((Markup.Reader.ofText characters).trace.element >>= Score.ofElement).toOption.map
      (·.value) = some score) : score.IsRead := by
  obtain ⟨read, hread, rfl⟩ := Score.exists_ofText characters (·.value) h
  exact ⟨String.ofList characters, read.remarks, hread⟩

namespace Reading

theorem divisions_pos {text : String} {count : Nat}
    (h : count ∈ (divisions (α := α) text).value) : 0 < count := by
  simp only [divisions, Noted.value_bind] at h
  split at h
  · next hpos =>
      cases h
      exact hpos
  · cases h

omit [Quantity α] in
theorem timeSignature_wellFormed {element : Markup.Element} {time : TimeSignature}
    (h : time ∈ (timeSignature (α := α) element).value) : time.WellFormed := by
  simp only [timeSignature, Noted.value_bind] at h
  split at h
  · next hpos =>
      cases h
      exact ⟨hpos.1, hpos.2⟩
  · cases h

omit [Quantity α] in
theorem mem_ifPresent {β γ : Type} {read : β → Noted α (Option γ)} {there : Option β}
    {result : γ} (h : result ∈ (ifPresent read there).value) :
    ∃ value ∈ there, result ∈ (read value).value := by
  cases there with
  | none => cases h
  | some value => exact ⟨value, rfl, h⟩

theorem attributes_wellFormed {earlier : Attributes} (hearlier : earlier.WellFormed)
    (element : Markup.Element) :
    (attributes (α := α) earlier element).value.WellFormed := by
  constructor
  · intro count hcount
    simp only [attributes, Noted.value_bind, Noted.value_pure] at hcount
    rcases Option.or_eq_some_iff.mp hcount with hread | ⟨_, hkept⟩
    · obtain ⟨text, _, htext⟩ := mem_ifPresent hread
      exact divisions_pos htext
    · exact hearlier.divisions_pos count hkept
  · intro time htime
    simp only [attributes, Noted.value_bind, Noted.value_pure] at htime
    rcases Option.or_eq_some_iff.mp htime with hread | ⟨_, hkept⟩
    · obtain ⟨child, _, hchild⟩ := mem_ifPresent hread
      exact timeSignature_wellFormed hchild
    · exact hearlier.time_wellFormed time hkept

theorem soundTempo_pos {element : Markup.Element} {bpm : α}
    (h : bpm ∈ (soundTempo element).value) : 0 < bpm := by
  unfold soundTempo at h
  split at h
  · cases h
  · next raw _ =>
      split at h
      · next tempo htempo =>
          cases h
          obtain ⟨numeral, _, hnumeral⟩ := Option.bind_eq_some_iff.mp htempo
          exact tempo?_pos hnumeral
      · cases h

private theorem positive_of_ite {tempo bpm : α}
    (h : (if 0 < tempo then some tempo else none) = some bpm) : 0 < bpm := by
  split at h
  · next hpos =>
      cases h
      exact hpos
  · cases h

theorem metronomeTempo?_pos {element : Markup.Element} {bpm : α}
    (h : metronomeTempo? element = some bpm) : 0 < bpm := by
  simp only [metronomeTempo?, Option.bind_eq_bind, Option.bind_eq_some_iff] at h
  obtain ⟨written, _, perMinute, _, unit, _, quarters, _, htempo⟩ := h
  exact positive_of_ite htempo

theorem direction_tempo_pos {element : Markup.Element} {bpm : α}
    (h : bpm ∈ (direction element).value.tempo) : 0 < bpm := by
  simp only [direction, Noted.value_bind, Noted.value_pure] at h
  rcases Option.or_eq_some_iff.mp h with hsounded | ⟨_, hmarked⟩
  · obtain ⟨child, _, hchild⟩ := mem_ifPresent hsounded
    exact soundTempo_pos hchild
  · obtain ⟨mark, _, hmark⟩ := List.exists_of_findSome?_eq_some hmarked
    exact metronomeTempo?_pos hmark

end Reading

theorem Measure.WellFormed.add {measure : Measure α} (hmeasure : measure.WellFormed)
    {element : MeasureElement α} (helement : ∀ bpm ∈ element.tempo?, 0 < bpm) :
    Measure.WellFormed { measure with elements := measure.elements ++ [element] } := by
  constructor
  · exact hmeasure.attributes_wellFormed
  · intro other hother bpm hbpm
    rcases List.mem_append.mp hother with hold | hnew
    · exact hmeasure.tempo_pos other hold bpm hbpm
    · rw [List.mem_singleton.mp hnew] at hbpm
      exact helement bpm hbpm

namespace Reading

private theorem tempo_pos_of_none {element : MeasureElement α}
    (h : element.tempo? = none) : ∀ bpm ∈ element.tempo?, 0 < bpm := by
  intro bpm hbpm
  rw [h] at hbpm
  cases hbpm

theorem measureChild_wellFormed {measure : Measure α} (hmeasure : measure.WellFormed)
    (element : Markup.Element) : (measureChild measure element).value.WellFormed := by
  unfold measureChild
  dsimp only
  split
  · exact ⟨attributes_wellFormed hmeasure.attributes_wellFormed element, hmeasure.tempo_pos⟩
  · exact hmeasure.add (tempo_pos_of_none rfl)
  · exact hmeasure.add (tempo_pos_of_none rfl)
  · exact hmeasure.add (tempo_pos_of_none rfl)
  · exact hmeasure.add fun bpm hbpm => direction_tempo_pos hbpm
  · simp only [Noted.value_bind]
    split
    · next tempo htempo =>
        refine hmeasure.add fun bpm hbpm => ?_
        cases hbpm
        exact soundTempo_pos htempo
    · exact hmeasure
  · exact hmeasure.add (tempo_pos_of_none rfl)
  · exact hmeasure

theorem measure_wellFormed (element : Markup.Element) :
    (measure (α := α) element).value.WellFormed := by
  suffices h : ∀ (children : List Markup.Element) (start : Measure α), start.WellFormed →
      (children.foldl (fun result child => (measureChild result child).value)
        start).WellFormed by
    simp only [measure, Noted.value_bind, Noted.value_foldList, Noted.value_pure]
    refine h _ _ ⟨Attributes.wellFormed_none, ?_⟩
    intro child hchild
    cases hchild
  intro children
  induction children with
  | nil => exact fun start hstart => hstart
  | cons child rest ih =>
      exact fun start hstart => ih _ (measureChild_wellFormed hstart child)

theorem part_wellFormed (element : Markup.Element) :
    (part (α := α) element).value.WellFormed := by
  intro result hresult
  simp only [part, Noted.value_bind, Noted.value_mapList, Noted.value_pure] at hresult
  obtain ⟨child, _, rfl⟩ := List.mem_map.mp hresult
  exact measure_wellFormed child

end Reading

theorem Score.wellFormed_ofElement {root : Markup.Element} {read : Noted α (Score α)}
    (h : Score.ofElement root = .ok read) : read.value.WellFormed := by
  unfold Score.ofElement at h
  split at h
  · dsimp only at h
    split at h
    · cases h
    · cases h
      intro part hpart
      simp only [Noted.value_map, Noted.value_mapList] at hpart
      obtain ⟨child, _, rfl⟩ := List.mem_map.mp hpart
      exact Reading.part_wellFormed child
  · split at h <;> cases h

theorem Score.IsRead.wellFormed {score : Score α} (h : score.IsRead) :
    score.WellFormed := by
  obtain ⟨text, remarks, hread⟩ := h
  unfold Score.ofText at hread
  cases helement : Markup.readElement text with
  | error failure =>
      rw [helement] at hread
      cases hread
  | ok root =>
      rw [helement] at hread
      exact Score.wellFormed_ofElement hread

omit [Quantity α] in
theorem MeasureElement.tempo_forced {tempo stated : α} (element : MeasureElement α)
    (h : stated ∈ (element.forced tempo).tempo?) : stated = tempo := by
  cases element with
  | direction mark =>
      obtain ⟨_, _, rfl⟩ := Option.map_eq_some_iff.mp h
      rfl
  | note note => cases h
  | harmony harmony => cases h
  | backup duration => cases h
  | forward duration => cases h

omit [Quantity α] in
theorem Measure.tempo_forced {tempo stated : α} {measure : Measure α} {element : MeasureElement α}
    (helement : element ∈ (measure.forced tempo).elements) (h : stated ∈ element.tempo?) :
    stated = tempo := by
  obtain ⟨written, _, rfl⟩ := List.mem_map.mp helement
  exact written.tempo_forced h

omit [Quantity α] in
theorem Part.mem_measures_forced {part : Part α} {tempo : α} {measure : Measure α}
    (h : measure ∈ (part.forced tempo).measures) :
    ∃ written ∈ part.measures, measure.attributes = written.attributes ∧
      ∀ element ∈ measure.elements, ∀ stated ∈ element.tempo?, stated = tempo := by
  unfold Part.forced at h
  cases hmeasures : part.measures with
  | nil =>
      rw [hmeasures] at h
      cases h
  | cons first rest =>
      rw [hmeasures] at h
      rcases List.mem_cons.mp h with rfl | hrest
      · refine ⟨first, List.mem_cons_self, rfl, fun element helement stated hstated => ?_⟩
        rcases List.mem_cons.mp helement with rfl | hfirst
        · exact (Option.some.inj hstated).symm
        · exact Measure.tempo_forced hfirst hstated
      · obtain ⟨written, hwritten, rfl⟩ := List.mem_map.mp hrest
        exact ⟨written, List.mem_cons_of_mem first hwritten, rfl,
          fun _ helement _ => Measure.tempo_forced helement⟩

theorem Part.WellFormed.forced {part : Part α} (h : part.WellFormed) {tempo : α}
    (htempo : 0 < tempo) : (part.forced tempo).WellFormed := by
  intro measure hmeasure
  obtain ⟨written, hwritten, hattributes, hstated⟩ := Part.mem_measures_forced hmeasure
  constructor
  · rw [hattributes]
    exact (h written hwritten).attributes_wellFormed
  · intro element helement bpm hbpm
    rw [hstated element helement bpm hbpm]
    exact htempo

theorem Score.WellFormed.forced {score : Score α} (h : score.WellFormed) {tempo : α}
    (htempo : 0 < tempo) : (score.forced tempo).WellFormed := by
  intro part hpart
  obtain ⟨written, hwritten, rfl⟩ := List.mem_map.mp hpart
  exact (h written hwritten).forced htempo

end Rubato
