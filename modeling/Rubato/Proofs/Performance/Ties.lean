import Rubato.Proofs.Performance.Reached
import Rubato.Proofs.Share

namespace Rubato

namespace OpenTies

/-- Open ties that point into what keys own, and for each key the same tie pointing into
the share of that key. -/
structure Split {β : Type} (owned : List (TieKey × β)) (whole : OpenTies)
    (one : TieKey → OpenTies) : Prop where
  owner : ∀ key index, whole.find? key = some index →
    ∃ value, owned[index]? = some (key, value)
  shared : ∀ key, (one key).find? key =
    (whole.find? key).map fun index => (share key (owned.take index)).length

namespace Split

variable {β : Type} {owned : List (TieKey × β)} {whole : OpenTies} {one other : TieKey → OpenTies}

theorem append (h : Split owned whole one) (added : List (TieKey × β)) :
    Split (owned ++ added) whole one := by
  have hlt : ∀ key index, whole.find? key = some index → index < owned.length := by
    intro key index hindex
    obtain ⟨value, hvalue⟩ := h.owner key index hindex
    exact (List.getElem?_eq_some_iff.mp hvalue).1
  refine ⟨fun key index hindex => ?_, fun key => ?_⟩
  · rw [List.getElem?_append_left (hlt key index hindex)]
    exact h.owner key index hindex
  · rw [h.shared key]
    refine Option.map_congr fun index hindex => ?_
    rw [List.take_append_of_le_length (hlt key index hindex).le]

theorem modify (h : Split owned whole one) (index : Nat) (f : β → β) :
    Split (owned.modify index (Prod.map id f)) whole one := by
  refine ⟨fun key target htarget => ?_, fun key => ?_⟩
  · obtain ⟨value, hvalue⟩ := h.owner key target htarget
    rw [List.getElem?_modify, hvalue]
    by_cases hindex : index = target
    · exact ⟨f value, by simp [hindex]⟩
    · exact ⟨value, by simp [hindex]⟩
  · rw [h.shared key]
    refine Option.map_congr fun target _ => ?_
    rw [length_share, length_share, List.map_take, List.map_take, map_fst_modify]

theorem insert (h : Split owned whole one) {key : TieKey} {index : Nat}
    (howner : ∃ value, owned[index]? = some (key, value))
    (hself : other key = (one key).insert key (share key (owned.take index)).length)
    (hothers : ∀ third ≠ key, other third = one third) :
    Split owned (whole.insert key index) other := by
  refine ⟨fun third target htarget => ?_, fun third => ?_⟩
  · by_cases hthird : third = key
    · rw [hthird, find?_insert_self] at htarget
      cases htarget
      exact hthird ▸ howner
    · rw [find?_insert_of_ne _ _ _ hthird] at htarget
      exact h.owner third target htarget
  · by_cases hthird : third = key
    · rw [hthird, hself, find?_insert_self, find?_insert_self]
      rfl
    · rw [hothers third hthird, find?_insert_of_ne _ _ _ hthird]
      exact h.shared third

theorem remove (h : Split owned whole one) {key : TieKey}
    (hself : other key = (one key).remove key)
    (hothers : ∀ third ≠ key, other third = one third) :
    Split owned (whole.remove key) other := by
  refine ⟨fun third target htarget => ?_, fun third => ?_⟩
  · by_cases hthird : third = key
    · rw [hthird, find?_remove_self] at htarget
      cases htarget
    · rw [find?_remove_of_ne _ _ hthird] at htarget
      exact h.owner third target htarget
  · by_cases hthird : third = key
    · rw [hthird, hself, find?_remove_self, find?_remove_self]
      rfl
    · rw [hothers third hthird, find?_remove_of_ne _ _ hthird]
      exact h.shared third

end Split

end OpenTies

/-- The key that a note is played under; rests and grace notes have none. -/
def Note.tieKey? (note : Note) : Option TieKey :=
  if note.isGrace then none else note.pitch.map (TieKey.ofNote note)

/-- A note that falls silent unless it has the key, or none. -/
def Note.restricted (key : TieKey) (note : Note) : Note :=
  if note.tieKey?.any (· ≠ key) then { note with pitch := none } else note

section Restricted

variable {α : Type}

def MeasureElement.tieKey? : MeasureElement α → Option TieKey
  | .note written => written.tieKey?
  | _ => none

def MeasureElement.restricted (key : TieKey) : MeasureElement α → MeasureElement α
  | .note written => .note (written.restricted key)
  | element => element

def Measure.restricted (key : TieKey) (measure : Measure α) : Measure α :=
  { measure with elements := measure.elements.map (MeasureElement.restricted key) }

def Part.restricted (key : TieKey) (part : Part α) : Part α :=
  { part with measures := part.measures.map (Measure.restricted key) }

def Part.tieKeys (part : Part α) : List TieKey :=
  (part.measures.flatMap fun measure =>
    measure.elements.filterMap MeasureElement.tieKey?).dedup

end Restricted

namespace Note

theorem restricted_of_isGrace {note : Note} (h : note.isGrace = true) (key : TieKey) :
    note.restricted key = note := by
  unfold restricted tieKey?
  rw [if_pos h]
  rfl

theorem tieKey?_of_pitch {note : Note} {pitch : Pitch} (hgrace : note.isGrace = false)
    (hpitch : note.pitch = some pitch) : note.tieKey? = some (TieKey.ofNote note pitch) := by
  unfold tieKey?
  rw [hgrace, hpitch]
  rfl

theorem restricted_of_pitch {note : Note} {pitch : Pitch} (hgrace : note.isGrace = false)
    (hpitch : note.pitch = some pitch) (key : TieKey) :
    note.restricted key =
      if TieKey.ofNote note pitch = key then note else { note with pitch := none } := by
  unfold restricted
  rw [tieKey?_of_pitch hgrace hpitch]
  by_cases h : TieKey.ofNote note pitch = key <;> simp [h]

theorem restricted_of_rest {note : Note} (hpitch : note.pitch = none) (key : TieKey) :
    note.restricted key = note := by
  unfold restricted tieKey?
  rw [hpitch]
  split <;> simp_all

theorem restricted_eq (key : TieKey) (note : Note) :
    (note.restricted key).duration = note.duration ∧
      (note.restricted key).chord = note.chord ∧
        (note.restricted key).isGrace = note.isGrace := by
  unfold restricted
  split <;> exact ⟨rfl, rfl, rfl⟩

end Note

variable {α : Type} [Quantity α]

omit [Quantity α] in
theorem MeasureWalk.gracesAfter_restricted (graces : List GraceNote) (key : TieKey)
    (element : MeasureElement α) :
    gracesAfter graces (element.restricted key) = gracesAfter graces element := by
  cases element with
  | note note =>
      cases hgrace : note.isGrace with
      | true =>
          show gracesAfter graces (.note (note.restricted key) : MeasureElement α) = _
          rw [Note.restricted_of_isGrace hgrace]
      | false =>
          show (if (note.restricted key).isGrace then _ else []) = if note.isGrace then _ else []
          rw [(note.restricted_eq key).2.2, hgrace]
          rfl
  | harmony harmony => rfl
  | direction mark => rfl
  | backup duration => rfl
  | forward duration => rfl

theorem Place.after_restricted (place : Place α) (key : TieKey) (element : MeasureElement α) :
    place.after (element.restricted key) = place.after element := by
  cases element with
  | note note =>
      obtain ⟨hduration, hchord, hgrace⟩ := note.restricted_eq key
      show (if (note.restricted key).isGrace || (note.restricted key).chord then _ else _) = _
      rw [hduration, hchord, hgrace]
      rfl
  | harmony harmony => rfl
  | direction mark => rfl
  | backup duration => rfl
  | forward duration => rfl

/-- What a walk has played belongs to keys, and the walk for a key has played the share of
that key. -/
structure Walker.Split (keys : List TieKey) (owned : List (TieKey × PlayedNote α))
    (whole : Walker α) (one : TieKey → Walker α) : Prop where
  clock : ∀ key, (one key).clock = whole.clock
  meter : ∀ key, (one key).meter = whole.meter
  keys : ∀ entry ∈ owned, entry.1 ∈ keys
  notes : whole.notes = owned.map (·.2)
  shares : ∀ key, (one key).notes = share key owned
  ties : OpenTies.Split owned whole.ties fun key => (one key).ties

namespace Walker.Split

variable {keys : List TieKey} {owned : List (TieKey × PlayedNote α)} {whole : Walker α}
  {one other : TieKey → Walker α} {key : TieKey}

omit [Quantity α] in
theorem aspect_eq {β : Type} (aspect : Walker α → β)
    (hothers : ∀ third ≠ key, other third = one third)
    (hself : aspect (other key) = aspect (one key)) (third : TieKey) :
    aspect (other third) = aspect (one third) := by
  by_cases hthird : third = key
  · exact hthird ▸ hself
  · rw [hothers third hthird]

section Begin

variable (note : Note) (pitch : Pitch) (position : α) (graces : List GraceNote)

theorem notes_begin (h : Split keys owned whole one) :
    ((one key).begin note pitch key position graces).notes = share key owned ++
      whole.clock.playNote whole.meter.fifths note pitch position graces := by
  rw [Walker.notes_begin, h.shares, h.clock, h.meter]

theorem ties_begin (h : Split keys owned whole one)
    (hself : other key = (one key).begin note pitch key position graces)
    (hothers : ∀ third ≠ key, other third = one third) :
    OpenTies.Split (owned ++
        (whole.clock.playNote whole.meter.fifths note pitch position graces).map (key, ·))
      (whole.begin note pitch key position graces).ties fun third => (other third).ties := by
  have hties := congrArg Walker.ties hself
  rw [Walker.ties_begin] at hties ⊢
  cases hstart : note.tie.start with
  | true =>
      obtain ⟨hlast, hplace⟩ := share_take_last key owned
        (whole.clock.playNote_ne_nil whole.meter.fifths note pitch position graces)
      have hlength : (whole.begin note pitch key position graces).notes.length - 1 =
          owned.length + (whole.clock.playNote whole.meter.fifths note pitch position
            graces).length - 1 := by
        rw [Walker.notes_begin, h.notes, List.length_append, List.length_map]
      rw [if_pos rfl, hlength]
      refine (h.ties.append _).insert hlast ?_ fun third hthird => ?_
      · rw [hties, hstart, if_pos rfl, h.notes_begin, hplace]
      · rw [hothers third hthird]
  | false =>
      rw [hstart, if_neg Bool.false_ne_true] at hties
      rw [if_neg Bool.false_ne_true, funext (aspect_eq Walker.ties hothers hties)]
      exact h.ties.append _

theorem begin (h : Split keys owned whole one) (hkey : key ∈ keys)
    (hself : other key = (one key).begin note pitch key position graces)
    (hothers : ∀ third ≠ key, other third = one third) :
    Split keys (owned ++ (whole.clock.playNote whole.meter.fifths note pitch position graces).map
      (key, ·)) (whole.begin note pitch key position graces) other where
  clock third := (aspect_eq Walker.clock hothers (by rw [hself]; rfl) third).trans (h.clock third)
  meter third := (aspect_eq Walker.meter hothers (by rw [hself]; rfl) third).trans (h.meter third)
  keys := by
    intro entry hentry
    rcases List.mem_append.mp hentry with hold | hnew
    · exact h.keys entry hold
    · obtain ⟨played, _, rfl⟩ := List.mem_map.mp hnew
      exact hkey
  notes := by
    rw [Walker.notes_begin, List.map_append, List.map_map, ← h.notes]
    exact congrArg _ (List.map_id _).symm
  shares := by
    intro third
    rw [share_append]
    by_cases hthird : third = key
    · rw [hthird, hself, h.notes_begin, share_map_self]
    · rw [hothers third hthird, h.shares, share_map_of_ne (Ne.symm hthird), List.append_nil]
  ties := h.ties_begin note pitch position graces hself hothers

end Begin

section Extend

variable {index : Nat} (note : Note) (position : α)

theorem ties_extend (h : Split keys owned whole one)
    (hself : other key =
      (one key).extend note key position (share key (owned.take index)).length)
    (hothers : ∀ third ≠ key, other third = one third) :
    OpenTies.Split (owned.modify index (Prod.map id (PlayedNote.lengthen
        (whole.clock.spanSeconds position (note.duration : α)))))
      (whole.extend note key position index).ties fun third => (other third).ties := by
  have hkept := h.ties.modify index
    (PlayedNote.lengthen (whole.clock.spanSeconds position (note.duration : α)))
  have hties := congrArg Walker.ties hself
  rw [Walker.ties_extend] at hties ⊢
  cases hstart : note.tie.start with
  | true =>
      rw [hstart, if_pos rfl] at hties
      rw [if_pos rfl, funext (aspect_eq Walker.ties hothers hties)]
      exact hkept
  | false =>
      rw [hstart, if_neg Bool.false_ne_true] at hties
      rw [if_neg Bool.false_ne_true]
      exact hkept.remove hties fun third hthird => congrArg Walker.ties (hothers third hthird)

theorem extend (h : Split keys owned whole one) (hindex : whole.ties.find? key = some index)
    (hself : other key =
      (one key).extend note key position (share key (owned.take index)).length)
    (hothers : ∀ third ≠ key, other third = one third) :
    Split keys (owned.modify index (Prod.map id (PlayedNote.lengthen
        (whole.clock.spanSeconds position (note.duration : α)))))
      (whole.extend note key position index) other where
  clock third := (aspect_eq Walker.clock hothers (by rw [hself]; rfl) third).trans (h.clock third)
  meter third := (aspect_eq Walker.meter hothers (by rw [hself]; rfl) third).trans (h.meter third)
  keys := by
    intro entry hentry
    have hfirst : entry.1 ∈ owned.map (·.1) := by
      rw [← map_fst_modify owned index]
      exact List.mem_map_of_mem hentry
    obtain ⟨before, hbefore, hsame⟩ := List.mem_map.mp hfirst
    exact hsame ▸ h.keys before hbefore
  notes := by rw [Walker.notes_extend, map_snd_modify, h.notes]
  shares := by
    intro third
    obtain ⟨value, hvalue⟩ := h.ties.owner key index hindex
    by_cases hthird : third = key
    · rw [hthird, hself, Walker.notes_extend, h.shares, h.clock, share_modify_self hvalue]
    · rw [hothers third hthird, h.shares, share_modify_of_ne (Ne.symm hthird) hvalue]
  ties := h.ties_extend note position hself hothers

end Extend

/-- Whatever the tie marks of a note make of it in the whole, they make of it in the walk
for its key. -/
theorem place (h : Split keys owned whole one) (note : Note) (pitch : Pitch)
    (hkey : TieKey.ofNote note pitch ∈ keys) (position : α) (graces : List GraceNote)
    (hself : other (TieKey.ofNote note pitch) =
      ((one (TieKey.ofNote note pitch)).place note pitch position graces).value)
    (hothers : ∀ third ≠ TieKey.ofNote note pitch, other third = one third) :
    ∃ owned, Split keys owned (whole.place note pitch position graces).value other := by
  rw [Walker.value_place, OpenTies.action_map (h.ties.shared (TieKey.ofNote note pitch))] at hself
  rw [Walker.value_place]
  cases haction : whole.ties.action note.tie (TieKey.ofNote note pitch) with
  | begin =>
      rw [haction] at hself
      exact ⟨_, h.begin note pitch position graces hkey hself hothers⟩
  | restart =>
      rw [haction] at hself
      exact ⟨_, h.begin note pitch position graces hkey hself hothers⟩
  | extend index =>
      rw [haction] at hself
      have hopen := (OpenTies.action_eq_extend_iff.mp haction).2
      exact ⟨_, h.extend note position hopen hself hothers⟩
  | drop =>
      rw [haction] at hself
      have hone : other = one := funext (aspect_eq id hothers hself)
      exact ⟨owned, hone ▸ h⟩

omit [Quantity α] in
theorem timed (h : Split keys owned whole one) (change : Walker α → Walker α)
    (hkept : ∀ walker, (change walker).ties = walker.ties ∧ (change walker).notes = walker.notes)
    (hclock : ∀ first second : Walker α, first.clock = second.clock →
      first.meter = second.meter → (change first).clock = (change second).clock ∧
        (change first).meter = (change second).meter) :
    Split keys owned (change whole) fun key => change (one key) where
  clock key := (hclock (one key) whole (h.clock key) (h.meter key)).1
  meter key := (hclock (one key) whole (h.clock key) (h.meter key)).2
  keys := h.keys
  notes := (hkept whole).2.trans h.notes
  shares key := (hkept (one key)).2.trans (h.shares key)
  ties := by
    have hties : (fun key => (change (one key)).ties) = fun key => (one key).ties :=
      funext fun key => (hkept (one key)).1
    rw [hties, (hkept whole).1]
    exact h.ties

end Walker.Split

structure MeasureWalk.Split (keys : List TieKey) (whole : MeasureWalk α)
    (one : TieKey → MeasureWalk α) : Prop where
  walker : ∃ owned, Walker.Split keys owned whole.walker fun key => (one key).walker
  place : ∀ key, (one key).place = whole.place
  graces : ∀ key, (one key).graces = whole.graces

namespace MeasureWalk

variable {keys : List TieKey} {whole : MeasureWalk α} {one : TieKey → MeasureWalk α}

theorem Split.silent (h : Split keys whole one) {element : MeasureElement α}
    (hwhole : whole.walkerAfter element = pure whole.walker)
    (hone : ∀ key, (one key).walkerAfter (element.restricted key) = pure (one key).walker) :
    ∃ owned, Walker.Split keys owned (whole.walkerAfter element).value
      fun key => ((one key).walkerAfter (element.restricted key)).value := by
  rw [hwhole, funext fun key => congrArg Noted.value (hone key)]
  exact h.walker

theorem Split.pitched (h : Split keys whole one) {note : Note} {pitch : Pitch}
    (hgrace : note.isGrace = false) (hpitch : note.pitch = some pitch)
    (hkey : TieKey.ofNote note pitch ∈ keys) :
    ∃ owned, Walker.Split keys owned (whole.walkerAfter (.note note)).value
      fun key => ((one key).walkerAfter (.note (note.restricted key))).value := by
  obtain ⟨owned, hwalker⟩ := h.walker
  rw [walkerAfter_of_pitch _ hgrace hpitch]
  refine hwalker.place note pitch hkey (whole.place.onset note) whole.graces ?_ ?_
  · rw [Note.restricted_of_pitch hgrace hpitch, if_pos rfl, walkerAfter_of_pitch _ hgrace hpitch,
      h.place, h.graces]
  · intro third hthird
    rw [Note.restricted_of_pitch hgrace hpitch, if_neg hthird.symm]
    exact congrArg Noted.value (walkerAfter_of_rest _ rfl)

theorem Split.direction (h : Split keys whole one) (mark : Direction α) :
    ∃ owned, Walker.Split keys owned (whole.walkerAfter (.direction mark)).value
      fun key => ((one key).walkerAfter (.direction mark)).value := by
  obtain ⟨owned, hwalker⟩ := h.walker
  have hone : (fun key => ((one key).walkerAfter (.direction mark)).value) =
      fun key => MeasureWalk.direction (one key).walker whole.place.cursor mark := by
    funext key
    rw [← h.place key]
    rfl
  rw [hone]
  refine ⟨owned, hwalker.timed (MeasureWalk.direction · whole.place.cursor mark) ?_ ?_⟩
  · intro walker
    unfold MeasureWalk.direction
    split <;> exact ⟨rfl, rfl⟩
  · intro first second hclock hmeter
    unfold MeasureWalk.direction
    split
    · exact ⟨congrArg (Clock.setTempo · whole.place.cursor _) hclock, hmeter⟩
    · exact ⟨hclock, hmeter⟩

theorem Split.walkerAfter (h : Split keys whole one) {element : MeasureElement α}
    (hkeys : ∀ key, element.tieKey? = some key → key ∈ keys) :
    ∃ owned, Walker.Split keys owned (whole.walkerAfter element).value
      fun key => ((one key).walkerAfter (element.restricted key)).value := by
  cases element with
  | note note =>
      cases hgrace : note.isGrace with
      | true =>
          refine h.silent (walkerAfter_of_isGrace _ hgrace) fun key => ?_
          show (one key).walkerAfter (.note (note.restricted key)) = _
          rw [Note.restricted_of_isGrace hgrace, walkerAfter_of_isGrace _ hgrace]
      | false =>
          cases hpitch : note.pitch with
          | none =>
              refine h.silent (walkerAfter_of_rest _ hpitch) fun key => ?_
              show (one key).walkerAfter (.note (note.restricted key)) = _
              rw [Note.restricted_of_rest hpitch, walkerAfter_of_rest _ hpitch]
          | some pitch =>
              exact h.pitched hgrace hpitch (hkeys _ (Note.tieKey?_of_pitch hgrace hpitch))
  | direction mark => exact h.direction mark
  | harmony harmony => exact h.silent rfl fun key => rfl
  | backup duration => exact h.silent rfl fun key => rfl
  | forward duration => exact h.silent rfl fun key => rfl

theorem Split.step (h : Split keys whole one) {element : MeasureElement α}
    (hkeys : ∀ key, element.tieKey? = some key → key ∈ keys) :
    Split keys (whole.step element).value
      fun key => ((one key).step (element.restricted key)).value where
  walker := h.walkerAfter hkeys
  place key := by
    rw [place_step, place_step, h.place key, Place.after_restricted]
  graces key := by
    show gracesAfter (one key).graces (element.restricted key) = gracesAfter whole.graces element
    rw [gracesAfter_restricted, h.graces key]

theorem Split.after (h : Split keys whole one) {elements : List (MeasureElement α)}
    (hkeys : ∀ element ∈ elements, ∀ key, element.tieKey? = some key → key ∈ keys) :
    Split keys (whole.after elements)
      fun key => (one key).after (elements.map (MeasureElement.restricted key)) := by
  induction elements generalizing whole one with
  | nil => exact h
  | cons element rest ih =>
      exact ih (h.step (hkeys element List.mem_cons_self))
        fun other hother => hkeys other (List.mem_cons_of_mem _ hother)

end MeasureWalk

theorem Walker.Split.through {keys : List TieKey} {owned : List (TieKey × PlayedNote α)}
    {whole : Walker α} {one : TieKey → Walker α} (h : Split keys owned whole one)
    {measure : Measure α}
    (hkeys : ∀ element ∈ measure.elements, ∀ key, element.tieKey? = some key → key ∈ keys) :
    ∃ owned, Split keys owned (whole.through measure).leave
      fun key => ((one key).through (measure.restricted key)).leave := by
  have hentered := h.timed (fun walker => walker.enter measure.attributes)
    (fun walker => ⟨rfl, rfl⟩) fun first second hclock hmeter => by
      unfold enter
      rw [hclock, hmeter]
      exact ⟨rfl, rfl⟩
  have hstart : MeasureWalk.Split keys ⟨whole.enter measure.attributes, Place.start, []⟩
      fun key => ⟨(one key).enter measure.attributes, Place.start, []⟩ :=
    ⟨⟨owned, hentered⟩, fun _ => rfl, fun _ => rfl⟩
  obtain ⟨played, hplayed⟩ := (hstart.after hkeys).walker
  refine ⟨played, ?_⟩
  unfold Walker.through
  simp only [Walker.value_elements]
  exact hplayed.timed leave (fun walker => ⟨rfl, rfl⟩) fun first second hclock hmeter => by
    unfold leave
    rw [hclock, hmeter]
    exact ⟨rfl, rfl⟩

namespace Part

omit [Quantity α] in
theorem mem_tieKeys {part : Part α} {measure : Measure α} (hmeasure : measure ∈ part.measures)
    {element : MeasureElement α} (helement : element ∈ measure.elements) {key : TieKey}
    (hkey : element.tieKey? = some key) : key ∈ part.tieKeys :=
  List.mem_dedup.mpr (List.mem_flatMap.mpr
    ⟨measure, hmeasure, List.mem_filterMap.mpr ⟨element, helement, hkey⟩⟩)

theorem split_walkerAt (part : Part α) (map : TempoMap α) (number : Nat) :
    ∃ owned, Walker.Split part.tieKeys owned (part.walkerAt map number)
      fun key => (part.restricted key).walkerAt map number := by
  induction number with
  | zero =>
      exact ⟨[], fun _ => rfl, fun _ => rfl, fun _ h => absurd h List.not_mem_nil, rfl,
        fun _ => rfl, fun _ _ h => (Option.some_ne_none _ h.symm).elim, fun _ => rfl⟩
  | succ number ih =>
      obtain ⟨owned, howned⟩ := ih
      have hrestricted : ∀ key, (part.restricted key).measures[number]? =
          (part.measures[number]?).map (Measure.restricted key) := fun key => List.getElem?_map
      cases hmeasure : part.measures[number]? with
      | none =>
          have hone : (fun key => (part.restricted key).walkerAt map (number + 1)) =
              fun key => (part.restricted key).walkerAt map number := by
            funext key
            refine walkerAt_of_none ?_
            rw [hrestricted, hmeasure]
            rfl
          rw [walkerAt_of_none hmeasure, hone]
          exact ⟨owned, howned⟩
      | some measure =>
          have hone : (fun key => (part.restricted key).walkerAt map (number + 1)) =
              fun key => (((part.restricted key).walkerAt map number).through
                (measure.restricted key)).leave := by
            funext key
            refine walkerAt_succ ?_
            rw [hrestricted, hmeasure]
            rfl
          rw [walkerAt_succ hmeasure, hone]
          exact howned.through fun element helement key hkey =>
            mem_tieKeys (List.mem_of_getElem? hmeasure) helement hkey

/-- The notes of a part are those played for its keys one by one, all other notes silent. -/
theorem played_perm_restricted (part : Part α) (map : TempoMap α) :
    (part.played map).value.Perm
      (part.tieKeys.flatMap fun key => ((part.restricted key).played map).value) := by
  obtain ⟨owned, howned⟩ := part.split_walkerAt map part.measures.length
  have hone : ∀ key, ((part.restricted key).played map).value = share key owned := by
    intro key
    rw [value_played, ← howned.shares key]
    show (walkerAt _ map ((part.measures.map _).length)).notes = _
    rw [List.length_map]
  rw [value_played, howned.notes, List.flatMap_congr fun key _ => hone key]
  exact perm_flatMap_share (List.nodup_dedup _) howned.keys

end Part

end Rubato
