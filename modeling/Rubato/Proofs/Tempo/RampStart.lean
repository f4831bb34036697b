import Rubato.Proofs.Tempo.Openings

namespace Rubato

/-- No ramp begins with a jump of the tempo. -/
def TempoMap.StartsInForce (map : TempoMap ℚ) : Prop :=
  ∀ ramp ∈ map.ramps, ramp.startTempo = map.tempoAt ramp.start

namespace Opening

variable {opening : Opening} {finish : ℚ} {ramp : Ramp ℚ}

theorem start_of_ramp? (h : opening.ramp? finish = some ramp) :
    ramp.start = opening.position ∧ ramp.startTempo = opening.before.lastTempo := by
  unfold ramp? at h
  split at h
  · obtain ⟨-, rfl⟩ := OpenRamp.eq_of_closed? h
    exact ⟨rfl, rfl⟩
  · obtain ⟨-, rfl⟩ := OpenRamp.eq_of_closed? h
    exact ⟨rfl, rfl⟩

theorem lt_ending? (h : opening.ramp? finish = some ramp) :
    ∀ sign ∈ opening.ending?, opening.position < sign.position := by
  intro sign hsign
  rw [ramp?, Option.mem_def.mp hsign] at h
  exact (OpenRamp.eq_of_closed? h).1

end Opening

theorem TempoSign.of_event? {sign : TempoSign} {event : TempoEvent ℚ}
    (h : sign.event? = some event) : sign.ends = true ∧ event.position = sign.position := by
  cases sign with
  | tempo position bpm =>
      cases h
      exact ⟨rfl, rfl⟩
  | ramp position kind => cases h
  | resume position => cases h

def TempoSigns.Ordered (signs : TempoSigns) : Prop :=
  signs.Pairwise fun first second => first.position ≤ second.position

namespace TempoSigns.Ordered

variable {signs : TempoSigns}

theorem events (hsigns : signs.Ordered) : (signs.filterMap TempoSign.event?).Pairwise
    fun first second => first.position ≤ second.position := by
  refine hsigns.filterMap _ fun first second hle one hone two htwo => ?_
  rw [(TempoSign.of_event? hone).2, (TempoSign.of_event? htwo).2]
  exact hle

theorem le_of_ends (hsigns : signs.Ordered) {first : TempoSign}
    (hfirst : signs.find? TempoSign.ends = some first) :
    ∀ sign ∈ signs, sign.ends = true → first.position ≤ sign.position := by
  obtain ⟨-, front, back, rfl, hfront⟩ := List.find?_eq_some_iff_append.mp hfirst
  intro sign hsign hends
  rcases List.mem_append.mp hsign with hbefore | hbehind
  · exact absurd hends (by simpa using hfront sign hbefore)
  · rcases List.mem_cons.mp hbehind with rfl | hback
    · exact le_rfl
    · exact (List.pairwise_cons.mp (List.pairwise_append.mp hsigns).2.1).1 sign hback

end TempoSigns.Ordered

namespace Opening

variable {opening : Opening} {finish : ℚ} {ramp : Ramp ℚ}

theorem lt_of_mem_after (hordered : opening.after.Ordered)
    (hramp : opening.ramp? finish = some ramp) :
    ∀ event ∈ opening.after.filterMap TempoSign.event?, opening.position < event.position := by
  intro event hevent
  obtain ⟨sign, hsign, htempo⟩ := List.mem_filterMap.mp hevent
  obtain ⟨hends, hposition⟩ := TempoSign.of_event? htempo
  rw [hposition]
  cases hending : opening.ending? with
  | none => exact absurd hends (List.find?_eq_none.mp hending sign hsign)
  | some first =>
      exact (lt_ending? hramp first hending).trans_le
        (hordered.le_of_ends hending sign hsign hends)

theorem tempoAt_position {part : Part ℚ} (hin : opening.In part.signs)
    (hordered : part.signs.Ordered) (hramp : opening.ramp? finish = some ramp) :
    (TempoMap.ofPart part).value.tempoAt opening.position = opening.before.lastTempo := by
  have hsplit := hordered
  rw [hin.split, TempoSigns.Ordered, List.pairwise_append, List.pairwise_cons] at hsplit
  obtain ⟨-, ⟨-, hafter⟩, hbefore⟩ := hsplit
  have hevents : (TempoMap.ofPart part).value.events =
      opening.before.filterMap TempoSign.event? ++ opening.after.filterMap TempoSign.event? := by
    rw [TempoMap.events_ofPart, List.mergeSort_of_pairwise, part.events_eq_signs, hin.split,
      List.filterMap_append]
    · rfl
    · rw [part.events_eq_signs]
      exact hordered.events.imp fun hle => decide_eq_true hle
  have hearlier : ∀ event ∈ opening.before.filterMap TempoSign.event?,
      event.position ≤ opening.position := by
    intro event hevent
    obtain ⟨sign, hsign, htempo⟩ := List.mem_filterMap.mp hevent
    rw [(TempoSign.of_event? htempo).2]
    exact hbefore sign hsign _ List.mem_cons_self
  have hlater := lt_of_mem_after hafter hramp
  rw [(TempoMap.sorted_ofPart part).tempoAt_eq, hevents, lastUpTo?, List.filter_append,
    List.filter_eq_self.mpr fun event hevent => decide_eq_true (hearlier event hevent),
    List.filter_eq_nil_iff.mpr fun event hevent => by simpa using hlater event hevent,
    List.append_nil]
  rfl

end Opening

namespace TempoMap

/-- Each ramp of a part begins at the position of its words and the tempo last written before
them. It begins at the tempo in force exactly where that is the tempo of the position, and so it
does in every part whose tempos and tempo words stand in the order of their positions. -/
theorem startsInForce_iff (part : Part ℚ) :
    let map := (ofPart part).value
    let finish := part.barStart part.measures.length
    (∀ ramp ∈ map.ramps, ∃ opening : Opening, opening.In part.signs ∧
        ramp.start = opening.position ∧ ramp.startTempo = opening.before.lastTempo) ∧
      (map.StartsInForce ↔ ∀ (opening : Opening) (ramp : Ramp ℚ), opening.In part.signs →
        opening.ramp? finish = some ramp →
        opening.before.lastTempo = map.tempoAt opening.position) ∧
      (part.signs.Ordered → map.StartsInForce) := by
  intro map finish
  have hiff : map.StartsInForce ↔ ∀ (opening : Opening) (ramp : Ramp ℚ),
      opening.In part.signs → opening.ramp? finish = some ramp →
      opening.before.lastTempo = map.tempoAt opening.position := by
    constructor
    · intro hstarts opening ramp hin hramp
      obtain ⟨hstart, htempo⟩ := opening.start_of_ramp? hramp
      rw [← htempo, ← hstart]
      exact hstarts ramp (mem_ramps_ofPart.mpr ⟨opening, hin, hramp⟩)
    · intro hopenings ramp hmem
      obtain ⟨opening, hin, hramp⟩ := mem_ramps_ofPart.mp hmem
      obtain ⟨hstart, htempo⟩ := opening.start_of_ramp? hramp
      rw [htempo, hstart]
      exact hopenings opening ramp hin hramp
  refine ⟨fun ramp hmem => ?_, hiff, fun hordered => hiff.mpr fun opening ramp hin hramp => ?_⟩
  · obtain ⟨opening, hin, hramp⟩ := mem_ramps_ofPart.mp hmem
    exact ⟨opening, hin, opening.start_of_ramp? hramp⟩
  · exact (opening.tempoAt_position hin hordered hramp).symm

end TempoMap

def rampBehindTempo : Part ℚ where
  id := "P1"
  measures := [
    { number := "1"
      attributes := .none
      elements := [
        .note (.plain (some ⟨.c, 0, 4⟩) 4),
        .direction ⟨[], some 60⟩,
        .backup 2,
        .direction ⟨["rit."], none⟩,
        .note (.plain (some ⟨.e, 0, 4⟩) 2),
        .direction ⟨[], some 50⟩] }]

def rampBetweenTempos : Part ℚ where
  id := "P1"
  measures := [
    { number := "1"
      attributes := .none
      elements := [
        .direction ⟨[], some 60⟩,
        .direction ⟨["rit."], none⟩,
        .note (.plain (some ⟨.e, 0, 4⟩) 2),
        .direction ⟨[], some 50⟩] }]

section Text

open Markup (tagged)

private def shortNoteText (step duration : Char) : List Char :=
  tagged "note" [] [
    tagged "pitch" [] [tagged "step" [] [[step]], tagged "octave" [] [['4']]],
    tagged "duration" [] [[duration]]]

private def bpmText (tempo : String) : List Char :=
  tagged "sound" [" tempo=", "\"", tempo, "\""] []

private def ritText : List (List Char) := [
  tagged "direction" [] [tagged "direction-type" [] [tagged "words" [] ["rit.".toList]]],
  shortNoteText 'E' '2',
  bpmText "50"]

private def oneMeasureText (elements : List (List Char)) : List Char :=
  tagged "score-partwise" [] [
    tagged "part" [" id=", "\"P1\""] [tagged "measure" [" number=", "\"1\""] elements]]

private def rampBehindTempoText : List Char :=
  oneMeasureText ([shortNoteText 'C' '4', bpmText "60",
    tagged "backup" [] [tagged "duration" [] [['2']]]] ++ ritText)

private def rampBetweenTemposText : List Char :=
  oneMeasureText (bpmText "60" :: ritText)

end Text

/-- The ramp begins at the tempo that is in force two divisions later. -/
theorem not_startsInForce_rampBehindTempo :
    let map := (TempoMap.ofPart rampBehindTempo).value
    Score.IsRead ⟨[rampBehindTempo]⟩ ∧ map.ramps = [⟨.ritardando, 2, 4, 60, 50⟩] ∧
      map.tempoAt 2 = 120 ∧ ¬map.StartsInForce := by
  intro map
  have hread : Score.IsRead ⟨[rampBehindTempo]⟩ :=
    Score.isRead_of_characters rampBehindTempoText (by decide +kernel)
  have hramps : map.ramps = [⟨.ritardando, 2, 4, 60, 50⟩] := by decide +kernel
  have hlater : ∀ event ∈ rampBehindTempo.events, 2 < event.position := by decide +kernel
  have htempo : map.tempoAt 2 = 120 := by
    rw [(TempoMap.sorted_ofPart rampBehindTempo).tempoAt_eq, lastUpTo?_eq_none_iff.mpr
      fun event hevent => hlater event (TempoMap.mem_events_ofPart.mp hevent)]
    rfl
  refine ⟨hread, hramps, htempo, fun hstarts => ?_⟩
  have hsame := hstarts ⟨.ritardando, 2, 4, 60, 50⟩ (hramps ▸ List.mem_singleton_self _)
  rw [htempo] at hsame
  norm_num at hsame

theorem startsInForce_rampBetweenTempos :
    let map := (TempoMap.ofPart rampBetweenTempos).value
    Score.IsRead ⟨[rampBetweenTempos]⟩ ∧ rampBetweenTempos.signs.Ordered ∧
      map.ramps = [⟨.ritardando, 0, 2, 60, 50⟩] ∧ map.StartsInForce := by
  intro map
  have hread : Score.IsRead ⟨[rampBetweenTempos]⟩ :=
    Score.isRead_of_characters rampBetweenTemposText (by decide +kernel)
  have hordered : rampBetweenTempos.signs.Ordered := by
    unfold TempoSigns.Ordered
    decide +kernel
  have hramps : map.ramps = [⟨.ritardando, 0, 2, 60, 50⟩] := by decide +kernel
  exact ⟨hread, hordered, hramps, (TempoMap.startsInForce_iff rampBetweenTempos).2.2 hordered⟩

end Rubato
