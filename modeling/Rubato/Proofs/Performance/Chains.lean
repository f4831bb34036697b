import Rubato.Proofs.Guarded.Run
import Rubato.Proofs.Performance.Moments

namespace Rubato

/-! What a chain plays stands as one block among the notes of a part: the walk through the
part is the walk in which the chain is silent, with the block put in. -/

def shifted (start length index : Nat) : Nat :=
  if index < start then index else index + length

section Block

variable {α : Type} [Quantity α]

/-- A walker that has played a block of notes at a place of what another one has played.
The open ties of some keys point at the same notes. -/
structure Walker.Spliced (keys : TieKey → Prop) (start : Nat) (block : List (PlayedNote α))
    (whole cut : Walker α) : Prop where
  notes : ∃ before behind, before.length = start ∧ cut.notes = before ++ behind ∧
    whole.notes = before ++ block ++ behind
  ties : ∀ key, keys key →
    whole.ties.find? key = (cut.ties.find? key).map (shifted start block.length)

namespace Walker.Spliced

variable {keys : TieKey → Prop} {start : Nat} {block : List (PlayedNote α)}
  {whole cut : Walker α}

theorem begin (h : Spliced keys start block whole cut) (hclock : whole.clock = cut.clock)
    (hmeter : whole.meter = cut.meter) (note : Note) (pitch : Pitch) (key : TieKey)
    (position : α) (graces : List GraceNote) :
    Spliced keys start block (whole.begin note pitch key position graces)
      (cut.begin note pitch key position graces) := by
  obtain ⟨before, behind, hbefore, hcut, hwhole⟩ := h.notes
  have hcutNotes := cut.notes_begin note pitch key position graces
  have hwholeNotes := whole.notes_begin note pitch key position graces
  rw [hcut] at hcutNotes
  rw [hwhole, hclock, hmeter] at hwholeNotes
  constructor
  · exact ⟨before, behind ++ _, hbefore, by rw [hcutNotes, List.append_assoc],
      by rw [hwholeNotes, List.append_assoc]⟩
  · have hbegun := cut.length_lt_begin note pitch key position graces
    have hlast : (whole.begin note pitch key position graces).notes.length - 1 =
        shifted start block.length
          ((cut.begin note pitch key position graces).notes.length - 1) := by
      rw [hcutNotes, hcut] at hbegun
      rw [hcutNotes, hwholeNotes]
      simp only [shifted, List.length_append] at hbegun ⊢
      rw [if_neg (by omega)]
      omega
    intro other hother
    rw [find?_ties_begin, find?_ties_begin, hlast]
    split
    · rfl
    · exact h.ties other hother

theorem extend (h : Spliced keys start block whole cut) (hclock : whole.clock = cut.clock)
    (note : Note) (key : TieKey) (position : α) (index : Nat) :
    Spliced keys start block
      (whole.extend note key position (shifted start block.length index))
      (cut.extend note key position index) := by
  obtain ⟨before, behind, hbefore, hcut, hwhole⟩ := h.notes
  constructor
  · rw [notes_extend, notes_extend, hclock, hcut, hwhole]
    generalize PlayedNote.lengthen (cut.clock.spanSeconds position (note.duration : α)) = f
    by_cases hindex : index < start
    · refine ⟨before.modify index f, behind, by simp [hbefore], ?_, ?_⟩
      · simp [modify_append, hbefore, hindex]
      · simp [modify_append, shifted, hbefore, hindex]
    · refine ⟨before, behind.modify (index - start) f, hbefore, ?_, ?_⟩
      · simp [modify_append, hbefore, hindex]
      · have hshifted : ¬ index + block.length < start := by omega
        have hsub : index + block.length - start - block.length = index - start := by omega
        simp [modify_append, shifted, hbefore, hindex, hshifted, hsub]
        omega
  · intro other hother
    rw [find?_ties_extend, find?_ties_extend]
    split
    · rfl
    · exact h.ties other hother

theorem place (h : Spliced keys start block whole cut) (hclock : whole.clock = cut.clock)
    (hmeter : whole.meter = cut.meter) (pitched : PitchedNote) (hkey : keys pitched.key)
    (position : α) (graces : List GraceNote) :
    Spliced keys start block
      (whole.place pitched.note pitched.pitch position graces).value
      (cut.place pitched.note pitched.pitch position graces).value := by
  have hofNote : TieKey.ofNote pitched.note pitched.pitch = pitched.key := rfl
  rw [Walker.value_place, Walker.value_place, hofNote, OpenTies.action_map (h.ties _ hkey)]
  cases cut.ties.action pitched.note.tie pitched.key with
  | begin => exact h.begin hclock hmeter ..
  | restart => exact h.begin hclock hmeter ..
  | extend index => exact h.extend hclock ..
  | drop => exact h

end Walker.Spliced

namespace MeasureWalk

structure Spliced (keys : TieKey → Prop) (start : Nat) (block : List (PlayedNote α))
    (whole cut : MeasureWalk α) : Prop where
  inStep : whole.InStep cut
  walker : whole.walker.Spliced keys start block cut.walker

namespace Spliced

variable {keys : TieKey → Prop} {start : Nat} {block : List (PlayedNote α)}
  {whole cut : MeasureWalk α}

theorem live (h : Spliced keys start block whole cut) {moment : Moment α}
    (hkeys : ∀ pitched ∈ moment.pitched?, keys pitched.key) :
    Spliced keys start block (whole.live moment) (cut.live moment) := by
  refine ⟨h.inStep.live moment, ?_⟩
  cases hpitched : moment.pitched? with
  | some pitched =>
      rw [walker_live_of_pitched hpitched, walker_live_of_pitched hpitched, h.inStep.place,
        h.inStep.graces]
      exact h.walker.place h.inStep.clock h.inStep.meter pitched (hkeys pitched hpitched) _ _
  | none =>
      obtain ⟨hties, hnotes⟩ := whole.walker_live_of_unpitched hpitched
      obtain ⟨hcutTies, hcutNotes⟩ := cut.walker_live_of_unpitched hpitched
      constructor
      · rw [hnotes, hcutNotes]
        exact h.walker.notes
      · rw [hties, hcutTies]
        exact h.walker.ties

theorem past {moments : List (Moment α)}
    (hkeys : ∀ moment ∈ moments, ∀ pitched ∈ moment.pitched?, keys pitched.key)
    (h : Spliced keys start block whole cut) :
    Spliced keys start block (whole.past moments) (cut.past moments) := by
  induction moments generalizing whole cut with
  | nil => exact h
  | cons moment rest ih =>
      exact ih (fun other hother => hkeys other (List.mem_cons_of_mem moment hother))
        (h.live (hkeys moment List.mem_cons_self))

end Spliced

end MeasureWalk

end Block

section Links

variable {α : Type}

def PitchedNote.moment (pitched : PitchedNote) : Moment α :=
  .element (.note pitched.note)

def PitchedNote.silenced (pitched : PitchedNote) : Moment α :=
  .element (.note { pitched.note with pitch := none })

/-- A tied note, with what is written between it and the note before it of its key. -/
structure TieLink (α : Type) where
  between : List (Moment α)
  member : PitchedNote
  deriving Repr

namespace TieLink

def moments (link : TieLink α) : List (Moment α) :=
  link.between ++ [link.member.moment]

def silenced (link : TieLink α) : List (Moment α) :=
  link.between ++ [link.member.silenced]

structure Joins (key : TieKey) (link : TieLink α) : Prop where
  pitched : link.member.note.pitched? = some link.member
  sameKey : link.member.key = key
  stop : link.member.note.tie.stop = true
  others : ∀ moment ∈ link.between, ∀ pitched ∈ moment.pitched?, pitched.key ≠ key

/-- The tied notes that follow the first note of a chain: each but the last one starts the
tie to the next. -/
inductive Chain (key : TieKey) : List (TieLink α) → Prop
  | last {link : TieLink α} (hjoins : link.Joins key)
      (hstart : link.member.note.tie.start = false) : Chain key [link]
  | inner {link : TieLink α} {rest : List (TieLink α)} (hjoins : link.Joins key)
      (hstart : link.member.note.tie.start = true) (hrest : Chain key rest) :
      Chain key (link :: rest)

end TieLink

end Links

namespace MeasureWalk

section Links

variable {α : Type} [Quantity α]

/-- What each tied note takes, by the clock that it is reached with. -/
def tiedSeconds (walk : MeasureWalk α) : List (TieLink α) → List α
  | [] => []
  | link :: rest =>
    let reached := walk.past link.between
    reached.walker.clock.spanSeconds (reached.place.onset link.member.note)
        (link.member.note.duration : α) ::
      (reached.live link.member.moment).tiedSeconds rest

def closed (walk : MeasureWalk α) (key : TieKey) : MeasureWalk α :=
  { walk with walker := { walk.walker with ties := walk.walker.ties.remove key } }

theorem InStep.silenced {whole cut : MeasureWalk α} (h : whole.InStep cut)
    {pitched : PitchedNote} (hgrace : pitched.note.isGrace = false) :
    (whole.live pitched.moment).InStep (cut.live pitched.silenced) := by
  refine h.step rfl (fun _ => rfl) fun graces => ?_
  have hsilenced : ({ pitched.note with pitch := none } : Note).isGrace = false := hgrace
  simp only [gracesAfter, hgrace, hsilenced]
  rfl

theorem walker_live_silenced (walk : MeasureWalk α) (pitched : PitchedNote) :
    (walk.live pitched.silenced).walker = walk.walker :=
  congrArg Noted.value (walk.walkerAfter_of_rest rfl)

namespace Spliced

variable {key : TieKey} {start : Nat} {block : List (PlayedNote α)}
  {whole cut : MeasureWalk α} {member : PitchedNote}

theorem extended (h : Spliced (· ≠ key) start block whole cut) (hblock : block ≠ [])
    (hopen : whole.walker.ties.find? key = some (start + (block.length - 1)))
    (hpitched : member.note.pitched? = some member) (hkey : member.key = key)
    (hstop : member.note.tie.stop = true) :
    let seconds := whole.walker.clock.spanSeconds (whole.place.onset member.note)
      (member.note.duration : α)
    Spliced (· ≠ key) start (block.modify (block.length - 1) (PlayedNote.lengthen seconds))
        (whole.live member.moment) (cut.live member.silenced) ∧
      (whole.live member.moment).walker.ties.find? key =
        if member.note.tie.start then some (start + (block.length - 1)) else none := by
  intro seconds
  have hpos := List.length_pos_of_ne_nil hblock
  have hmoment : (member.moment : Moment α).pitched? = some member := hpitched
  have hwhole : (whole.live member.moment).walker =
      whole.walker.extend member.note key (whole.place.onset member.note)
        (start + (block.length - 1)) := by
    have hofNote : TieKey.ofNote member.note member.pitch = key := hkey
    rw [walker_live_of_pitched hmoment, Walker.value_place, hofNote,
      OpenTies.action_eq_extend_iff.mpr ⟨hstop, hopen⟩]
  refine ⟨⟨h.inStep.silenced (Note.isGrace_of_pitched? hpitched), ?_⟩, ?_⟩
  · rw [hwhole, cut.walker_live_silenced]
    constructor
    · obtain ⟨before, behind, hbefore, hcut, hnotes⟩ := h.walker.notes
      refine ⟨before, behind, hbefore, hcut, ?_⟩
      have hlast : block.length - 1 < block.length := by omega
      rw [Walker.notes_extend, hnotes]
      simp [modify_append, hbefore, hlast, seconds]
    · intro other hother
      rw [Walker.find?_ties_extend, if_neg fun h => hother h.2, List.length_modify,
        h.walker.ties other hother]
  · rw [hwhole, Walker.find?_ties_extend, hopen]
    cases member.note.tie.start <;> simp

omit [Quantity α] in
theorem closed (h : Spliced (· ≠ key) start block whole cut)
    (hclosed : whole.walker.ties.find? key = none) :
    Spliced (fun _ => True) start block whole (cut.closed key) := by
  refine ⟨⟨h.inStep.clock, h.inStep.meter, h.inStep.place, h.inStep.graces⟩,
    h.walker.notes, fun other _ => ?_⟩
  show _ = ((cut.walker.ties.remove key).find? other).map _
  rw [OpenTies.find?_remove]
  split
  · next hother => rw [hother, hclosed, Option.map_none]
  · next hother => exact h.walker.ties other hother

end Spliced

end Links

end MeasureWalk

theorem PlayedNote.lengthen_comp (first second : ℚ) :
    lengthen second ∘ lengthen first = lengthen (first + second) := by
  funext played
  simp [lengthen, add_assoc]

namespace MeasureWalk

theorem spliced_first {walk : MeasureWalk ℚ} (hties : walk.walker.TiesWithin)
    {first : PitchedNote} (hpitched : first.note.pitched? = some first)
    (hstart : first.note.tie.start = true)
    (hopen : first.note.tie.stop = true → walk.walker.ties.find? first.key = none) :
    let block := walk.play first walk.graces
    Spliced (· ≠ first.key) walk.walker.notes.length block (walk.live first.moment)
        (walk.live first.silenced) ∧
      (walk.live first.moment).walker.ties.find? first.key =
        some (walk.walker.notes.length + (block.length - 1)) := by
  intro block
  have hblock : 0 < block.length := List.length_pos_of_ne_nil (walk.play_ne_nil first _)
  have hmoment : (first.moment : Moment ℚ).pitched? = some first := hpitched
  have hwhole : (walk.live first.moment).walker =
      walk.walker.begin first.note first.pitch first.key (walk.place.onset first.note)
        walk.graces := by
    have hbegins : walk.walker.Begins first := by
      cases hstop : first.note.tie.stop with
      | false => exact Walker.begins_of_not_stop _ hstop
      | true =>
          unfold Walker.Begins
          rw [OpenTies.action_eq_restart_iff.mpr ⟨hstop, hopen hstop, hstart⟩]
          rfl
    rw [walker_live_of_pitched hmoment, hbegins.value_place]
  refine ⟨⟨(InStep.refl walk).silenced (Note.isGrace_of_pitched? hpitched), ?_⟩, ?_⟩
  · rw [hwhole, walk.walker_live_silenced]
    constructor
    · exact ⟨walk.walker.notes, [], rfl, (List.append_nil _).symm, (List.append_nil _).symm⟩
    · intro other hother
      rw [Walker.find?_ties_begin, if_neg fun h => hother h.2]
      cases hfind : walk.walker.ties.find? other with
      | none => rfl
      | some index => simp [shifted, hties other index hfind]
  · rw [hwhole, Walker.find?_ties_begin, if_pos ⟨hstart, rfl⟩, Walker.notes_begin,
      List.length_append]
    exact congrArg some (Nat.add_sub_assoc hblock walk.walker.notes.length)

theorem tiesWithin_past {walk : MeasureWalk ℚ} (h : walk.walker.TiesWithin)
    (moments : List (Moment ℚ)) : (walk.past moments).walker.TiesWithin :=
  past_induction (P := fun ties notes => ∀ key index, ties.find? key = some index →
      index < notes.length)
    (fun _ _ pitched _ _ position graces hwithin =>
      Walker.TiesWithin.place hwithin pitched.note pitched.pitch position graces) h

/-- A chain lengthens the last note of the block by what its notes take together, and
closes its key. -/
theorem Spliced.chained {key : TieKey} {links : List (TieLink ℚ)}
    (hchain : TieLink.Chain key links) {start : Nat} {block : List (PlayedNote ℚ)}
    {whole cut : MeasureWalk ℚ} (h : Spliced (· ≠ key) start block whole cut)
    (hblock : block ≠ [])
    (hopen : whole.walker.ties.find? key = some (start + (block.length - 1))) :
    Spliced (· ≠ key) start
        (block.modify (block.length - 1) (PlayedNote.lengthen (whole.tiedSeconds links).sum))
        (whole.past (links.flatMap TieLink.moments))
        (cut.past (links.flatMap TieLink.silenced)) ∧
      (whole.past (links.flatMap TieLink.moments)).walker.ties.find? key = none := by
  induction hchain generalizing block whole cut with
  | @last link hjoins hstart =>
      have hreached := h.past hjoins.others
      have hstill := (find?_past hjoins.others whole).trans hopen
      obtain ⟨hextended, hties⟩ :=
        hreached.extended hblock hstill hjoins.pitched hjoins.sameKey hjoins.stop
      rw [hstart, if_neg Bool.false_ne_true] at hties
      simpa [TieLink.moments, TieLink.silenced, tiedSeconds] using ⟨hextended, hties⟩
  | @inner link rest hjoins hstart _ ih =>
      have hreached := h.past hjoins.others
      have hstill := (find?_past hjoins.others whole).trans hopen
      obtain ⟨hextended, hties⟩ :=
        hreached.extended hblock hstill hjoins.pitched hjoins.sameKey hjoins.stop
      rw [hstart, if_pos rfl] at hties
      have hrest := ih hextended (by simpa using hblock) (by rw [List.length_modify, hties])
      rw [List.length_modify, List.modify_modify_eq, PlayedNote.lengthen_comp] at hrest
      simpa [TieLink.moments, TieLink.silenced, tiedSeconds] using hrest

end MeasureWalk

/-- A chain of tied notes sounds as its first note does, the last part of which also lasts
for all the others. Everything else is played as if the chain were silent, and nothing
behind the chain changes its notes any more. -/
theorem Part.chain_merges (part : Part ℚ) (map : TempoMap ℚ) {front rest : List (Moment ℚ)}
    {first : PitchedNote} {links : List (TieLink ℚ)}
    (hmoments : part.moments =
      front ++ first.moment :: (links.flatMap TieLink.moments ++ rest))
    (hpitched : first.note.pitched? = some first) (hstart : first.note.tie.start = true)
    (hopen : first.note.tie.stop = true →
      ((MeasureWalk.initial map).past front).walker.ties.find? first.key = none)
    (hchain : TieLink.Chain first.key links) :
    let walk := (MeasureWalk.initial map).past front
    let own := walk.play first walk.graces
    let merged := own.modify (own.length - 1)
      (PlayedNote.lengthen ((walk.live first.moment).tiedSeconds links).sum)
    let chained := walk.past (first.moment :: links.flatMap TieLink.moments)
    let silenced := walk.past (first.silenced :: links.flatMap TieLink.silenced)
    chained.walker.ties.find? first.key = none ∧
      (∃ before behind, before.length = walk.walker.notes.length ∧
        silenced.walker.notes = before ++ behind ∧
        chained.walker.notes = before ++ merged ++ behind) ∧
      ∃ before behind, before.length = walk.walker.notes.length ∧
        ((silenced.closed first.key).past rest).walker.notes = before ++ behind ∧
        (part.played map).value = before ++ merged ++ behind := by
  intro walk own merged chained silenced
  have hties : walk.walker.TiesWithin :=
    MeasureWalk.tiesWithin_past (fun key index hindex => by cases hindex) front
  have hown : own ≠ [] := walk.play_ne_nil first walk.graces
  obtain ⟨hfirst, hfirstOpen⟩ := MeasureWalk.spliced_first hties hpitched hstart hopen
  obtain ⟨hchained, hclosed⟩ := hfirst.chained hchain hown hfirstOpen
  have hrest : (chained.past rest).Spliced (fun _ => True) walk.walker.notes.length merged
      ((silenced.closed first.key).past rest) :=
    (hchained.closed hclosed).past fun _ _ _ _ => trivial
  have hplayed : (part.played map).value = (chained.past rest).walker.notes := by
    rw [Part.value_played_eq_past, hmoments, MeasureWalk.past_append, MeasureWalk.past_cons,
      MeasureWalk.past_append]
    rfl
  exact ⟨hclosed, hchained.walker.notes, hplayed ▸ hrest.walker.notes⟩

def tiedNote (duration : Nat) (start stop : Bool) : PitchedNote :=
  ⟨{ Note.plain (some ⟨.c, 0, 4⟩) duration with tie := ⟨start, stop⟩ }, ⟨.c, 0, 4⟩⟩

def tiedLinks : List (TieLink ℚ) :=
  [⟨[.element (.backup 4),
      .element (.note { Note.plain (some ⟨.e, 0, 4⟩) 4 with voice := 2 }),
      .leave, .enter ⟨some 2, none, none⟩, .element (.direction ⟨[], some 60⟩)],
    tiedNote 2 true true⟩,
   ⟨[], tiedNote 4 false true⟩]

def tiedOverBar : Part ℚ :=
  ⟨"P1", [
    { number := "1"
      attributes := .none
      elements := [
        .note (tiedNote 4 true false).note,
        .backup 4,
        .note { Note.plain (some ⟨.e, 0, 4⟩) 4 with voice := 2 }] },
    { number := "2"
      attributes := ⟨some 2, none, none⟩
      elements := [
        .direction ⟨[], some 60⟩,
        .note (tiedNote 2 true true).note,
        .note (tiedNote 4 false true).note,
        .note (.plain (some ⟨.c, 0, 4⟩) 2)] }]⟩

theorem chain_merges_tiedOverBar :
    tiedOverBar.moments = [.enter .none] ++ (tiedNote 4 true false).moment ::
        (tiedLinks.flatMap TieLink.moments ++
          [.element (.note (.plain (some ⟨.c, 0, 4⟩) 2)), .leave]) ∧
      TieLink.Chain (tiedNote 4 true false).key tiedLinks ∧
      ∃ behind, (tiedOverBar.played .empty).value =
        ⟨0, 60, "C4", 5, 1, false⟩ :: behind := by
  have hmoments : tiedOverBar.moments = [.enter .none] ++ (tiedNote 4 true false).moment ::
      (tiedLinks.flatMap TieLink.moments ++
        [.element (.note (.plain (some ⟨.c, 0, 4⟩) 2)), .leave]) := rfl
  have hchain : TieLink.Chain (tiedNote 4 true false).key tiedLinks :=
    .inner ⟨rfl, rfl, rfl, by decide⟩ rfl (.last ⟨rfl, rfl, rfl, by decide⟩ rfl)
  obtain ⟨-, -, before, behind, hbefore, -, hplayed⟩ :=
    tiedOverBar.chain_merges .empty hmoments rfl rfl (by decide) hchain
  refine ⟨hmoments, hchain, behind, ?_⟩
  obtain rfl := List.length_eq_zero_iff.mp hbefore
  rw [hplayed, List.nil_append, ← List.singleton_append (l := behind), List.append_left_inj]
  decide +kernel

end Rubato
