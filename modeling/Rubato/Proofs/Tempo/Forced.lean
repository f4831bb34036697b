import Rubato.Proofs.Decimal.Written
import Rubato.Proofs.Performance.Numbering
import Rubato.Proofs.Progression
import Rubato.Proofs.Score.Retimed
import Rubato.Timeline

namespace Rubato

section Directions

variable {α : Type} [Quantity α]

theorem Contribution.ofElements_undirected (skipHarmony : Bool) (meter : Meter) (place : Place α)
    (elements : List (MeasureElement α)) :
    ofElements skipHarmony meter place (elements.filter fun element => !element.isDirection) =
      ofElements skipHarmony meter place elements := by
  induction elements generalizing place with
  | nil => rfl
  | cons element rest ih =>
      cases element
      case direction mark => exact ih place
      all_goals rw [List.filter_cons_of_pos rfl, ofElements, ofElements, ih]

omit [Quantity α] in
theorem Part.meteredFrom_undirected (meter : Meter) (measures : List (Measure α)) :
    meteredFrom meter (measures.map Measure.undirected) =
      (meteredFrom meter measures).map fun entry => (entry.1, entry.2.undirected) := by
  induction measures generalizing meter with
  | nil => rfl
  | cons measure rest ih => exact congrArg _ (ih _)

theorem Part.contributions_undirected (skipHarmony : Bool) (part : Part α) :
    part.undirected.contributions skipHarmony = part.contributions skipHarmony := by
  unfold contributions undirected
  dsimp only
  rw [meteredFrom_undirected, List.map_map]
  refine List.map_congr_left fun entry _ => ?_
  exact Contribution.ofElements_undirected skipHarmony entry.1 Place.start entry.2.elements

theorem Score.progression_undirected (score : Score α) (options : Options) :
    score.undirected.progression options = score.progression options := by
  apply Progression.ofScore_congr
  unfold Score.undirected
  rw [List.map_map]
  exact List.map_congr_left fun part _ => part.contributions_undirected options.skipHarmony

end Directions

theorem Decimal.plain_tempoText {bpm : Float} (hbpm : bpm.isFinite = true ∧ 0 < bpm) :
    TempoAttribute.Plain (tempoText bpm) := by
  have hnot : ∀ c : Char, Reading.isNumberChar c = false → c ∉ tempoText bpm :=
    fun c hc hmem => by
      rw [isNumberChar_of_mem_tempoText hbpm hmem] at hc
      cases hc
  refine ⟨fun c hc => Bool.eq_false_iff.mpr fun hquote => ?_, hnot '&' (by decide),
    hnot '-' (by decide)⟩
  rw [TempoAttribute.isQuote, Bool.or_eq_true, beq_iff_eq, beq_iff_eq] at hquote
  rcases hquote with rfl | rfl
  · exact hnot '"' (by decide) hc
  · exact hnot '\'' (by decide) hc

theorem Score.ofText_forced {bpm : Float} (hbpm : bpm.isFinite = true ∧ 0 < bpm) {text : String}
    (htempos : Markup.temposInMarkup text = true) {read : Noted Float (Score Float)}
    (hread : Score.ofText text = .ok read) :
    ∃ read' : Noted Float (Score Float), Score.ofText (forceTempoText text bpm) = .ok read' ∧
      read'.value.undirected = read.value.undirected ∧
        (read.TemposValid → read'.value.SameMusic read.value) := by
  obtain ⟨root, hroot, hread⟩ := Markup.bind_eq_ok_iff.mp hread
  obtain ⟨root', hroot', hretimed⟩ :=
    Markup.readElement_replaced (Decimal.plain_tempoText hbpm) htempos hroot
  obtain ⟨read', hread', hsame⟩ := Score.ofElement_retimed hretimed
    (Decimal.tempo?_tempoText hbpm) hread
  exact ⟨read', Markup.bind_eq_ok_iff.mpr ⟨root', hroot', hread'⟩, hsame⟩

theorem readScore_of_noOverride {text : String} {options : Options}
    (hoptions : options.tempoOverride = none) : readScore text options = Score.ofText text := by
  unfold readScore Options.validate
  rw [hoptions]
  rfl

theorem readScore_of_override {bpm : Float} (hbpm : bpm.isFinite = true ∧ 0 < bpm) (text : String)
    {options : Options} (hoptions : options.tempoOverride = some bpm) :
    readScore text options =
      (Score.ofText (forceTempoText text bpm)).map (Score.forced bpm <$> ·) := by
  unfold readScore Options.validate
  rw [hoptions]
  dsimp only
  rw [if_pos (by rw [hbpm.1, decide_eq_true hbpm.2]; rfl)]
  cases Score.ofText (α := Float) (forceTempoText text bpm) <;> rfl

theorem convert_of_readScore {text : String} {options : Options} {read : Noted Float (Score Float)}
    (hread : readScore text options = .ok read) :
    convert text options = .ok (read >>= fun score => score.timeline options) := by
  unfold convert
  rw [hread]
  rfl

section Text

open Markup (tagged)

def pitchedNoteText (content : List (List Char)) : List Char :=
  tagged "note" [] (content ++ [tagged "pitch" [] [tagged "step" [] [['C']]]])

def soundText (tempo : String) : List Char :=
  tagged "sound" [" tempo=", "\"", tempo, "\""] []

def lyricText (lyric : String) : List Char :=
  tagged "lyric" [] [tagged "text" [] [lyric.toList]]

def measureText (content : List (List Char)) : List Char :=
  tagged "score-partwise" [] [tagged "part" [" id=", "\"P1\""] [
    tagged "measure" [" number=", "\"1\""] content]]

end Text

section Readings

variable {β : Type} {b : β}

theorem readScore_of_toOption (characters : List Char) (f : Noted Float (Score Float) → β)
    (h : ((Markup.Reader.ofText characters).trace.element >>= Score.ofElement).toOption.map f =
      some b) :
    ∃ read, readScore (String.ofList characters) .default = .ok read ∧ f read = b := by
  rw [readScore_of_noOverride rfl]
  exact Score.exists_ofText characters f h

theorem readScore_forced_of_toOption (characters : List Char)
    (f : Noted Float (Score Float) → β) (bpm : Float) (hbpm : bpm.isFinite = true ∧ 0 < bpm)
    (h : ((Markup.Reader.ofText
        (TempoAttribute.replaceAll (Decimal.tempoText bpm) characters)).trace.element >>=
          Score.ofElement).toOption.map f = some b) :
    ∃ read, readScore (String.ofList characters)
        { Options.default with tempoOverride := some bpm } = .ok (Score.forced bpm <$> read) ∧
      f read = b := by
  obtain ⟨read, hread, hvalue⟩ := readScore_of_toOption _ f h
  rw [readScore_of_noOverride rfl] at hread
  refine ⟨read, ?_, hvalue⟩
  rw [readScore_of_override hbpm _ rfl, forceTempoText, String.toList_ofList, hread]
  rfl

end Readings

section Lyrics

variable {α : Type} [Quantity α]

def MeasureElement.sungTo? : MeasureElement α → Option (Option String)
  | .note written => written.sounds?.map fun _ => written.lyric
  | _ => none

omit [Quantity α] in
theorem Onset.ofBar_singleton (found : Contribution α) :
    Onset.ofBar [found] = [Onset.ofContributions found []] := by
  simp [Onset.ofBar, List.eraseDups, List.eraseDupsBy, List.eraseDupsBy.loop]

theorem Contribution.ofElements_singleton (skipHarmony : Bool) (meter : Meter) (place : Place α)
    {element : MeasureElement α} {lyric : Option String} (h : element.sungTo? = some lyric) :
    ∃ (found : Contribution α) (note : OnsetNote),
      ofElements skipHarmony meter place [element] = [found] ∧
        found.finding = .note note (lyric.filter (· ≠ "")) := by
  cases element with
  | note note =>
      obtain ⟨pitch, hpitch, rfl⟩ := Option.map_eq_some_iff.mp h
      refine ⟨.of meter (place.onset note) (.note (.ofPitch pitch) (note.lyric.filter (· ≠ ""))),
        .ofPitch pitch, ?_, rfl⟩
      rw [ofElements, ofElement?, hpitch]
      rfl
  | harmony harmony => cases h
  | direction mark => cases h
  | backup duration => cases h
  | forward duration => cases h

theorem Score.lyrics_oneNote {score : Score α} {lyric : Option String}
    (h : (score.parts.map fun part => part.measures.map fun measure =>
      measure.elements.map MeasureElement.sungTo?) = [[[some lyric]]]) (options : Options) :
    (score.progression options).map (·.lyric) = [lyric.filter (· ≠ "")] := by
  obtain ⟨part, hparts, h⟩ := List.map_eq_singleton_iff.mp h
  obtain ⟨measure, hmeasures, h⟩ := List.map_eq_singleton_iff.mp h
  obtain ⟨element, helements, h⟩ := List.map_eq_singleton_iff.mp h
  obtain ⟨found, note, hfound, hfinding⟩ := Contribution.ofElements_singleton
    options.skipHarmony (Meter.initial.update measure.attributes) Place.start h
  have hcontributions : part.contributions options.skipHarmony = [[found]] := by
    unfold Part.contributions
    rw [hmeasures, Part.meteredFrom, Part.meteredFrom, List.map_singleton]
    dsimp only
    rw [helements, hfound]
  unfold Score.progression Progression.ofScore Progression.onsets
  rw [hparts, List.map_singleton, hcontributions]
  cases options.groupSimultaneous <;>
    simp [Onset.ofBar_singleton, Progression.entriesFrom, Onset.entries, Onset.contents,
      Onset.ofContributions, hfinding, Finding.note?, Finding.lyric?, Onset.sortedNotes]

end Lyrics

/-- A text that is converted is converted at every tempo, provided that whatever reads as a
tempo attribute in it is an attribute of a tag or ends in the comment it begins in. The
progression stays as it is and, if every tempo in the text can be read, so do the notes
but for their times. -/
theorem convert_tempoOverride {text : String} (htempos : Markup.temposInMarkup text = true)
    {options : Options} (hoptions : options.tempoOverride = none) (bpm : Float)
    (hfinite : bpm.isFinite = true) (hpos : 0 < bpm) {run : Noted Float (Timeline Float)}
    (hrun : convert text options = .ok run) :
    ∃ forced : Noted Float (Timeline Float),
      convert text { options with tempoOverride := some bpm } = .ok forced ∧
        forced.value.progression = run.value.progression ∧
          (run.TemposValid →
            (forced.value.notes.map NoteEvent.sound).Perm
              (run.value.notes.map NoteEvent.sound)) := by
  obtain ⟨read, hread, hrun⟩ := Markup.bind_eq_ok_iff.mp hrun
  cases hrun
  rw [readScore_of_noOverride hoptions] at hread
  obtain ⟨read', hread', hundirected, hsame⟩ := Score.ofText_forced ⟨hfinite, hpos⟩ htempos hread
  have hforced : readScore text { options with tempoOverride := some bpm } =
      .ok (Score.forced bpm <$> read') := by
    rw [readScore_of_override ⟨hfinite, hpos⟩ text rfl, hread']
    rfl
  refine ⟨_, convert_of_readScore hforced, ?_, fun hvalid => ?_⟩
  · show (read'.value.forced bpm).progression _ = read.value.progression options
    rw [(Score.sameMusic_forced bpm read'.value).progression_eq, ← Score.progression_undirected,
      hundirected, Score.progression_undirected]
    rfl
  · have hvalidRead : read.TemposValid :=
      hvalid.of_remarks fun r hr => List.mem_append_left _ hr
    have hmusic := (Score.sameMusic_forced bpm read'.value).sound_noteEvents options.idPrefix
      options.idPrefix
    exact hmusic.trans ((hsame hvalidRead).sound_noteEvents _ _)

/-- A note with a tempo, and with another one in a comment. -/
def statedText : List Char :=
  measureText ["<!-- ".toList, soundText "60", " -->".toList, soundText "100", pitchedNoteText []]

theorem convert_tempoOverride_statedText :
    ∃ run forced : Noted Float (Timeline Float),
      Markup.temposInMarkup (String.ofList statedText) = true ∧
        convert (String.ofList statedText) .default = .ok run ∧
        run.TemposValid ∧
        convert (String.ofList statedText) { Options.default with tempoOverride := some 96 } =
          .ok forced ∧
        forced.value.progression = run.value.progression ∧
        (forced.value.notes.map NoteEvent.sound).Perm (run.value.notes.map NoteEvent.sound) := by
  obtain ⟨read, hread, hvalid⟩ := readScore_of_toOption statedText
    (fun read => decide (read >>= fun score => score.timeline .default).TemposValid)
    (show _ = some true by decide +kernel)
  have hvalid := of_decide_eq_true hvalid
  have hrun := convert_of_readScore hread
  have htempos : Markup.temposInMarkup (String.ofList statedText) = true := by
    rw [Markup.temposInMarkup, String.toList_ofList]
    decide +kernel
  obtain ⟨forced, hforced, hprogression, hnotes⟩ :=
    convert_tempoOverride htempos rfl 96 (by decide +kernel) (by decide +kernel) hrun
  exact ⟨_, forced, htempos, hrun, hvalid, hforced, hprogression, hnotes hvalid⟩

/-- A single note with something in its lyric that reads as a tempo attribute. -/
def sungText : List Char :=
  measureText [pitchedNoteText [lyricText "in tempo='slow'"]]

/-- What the lyric says is replaced, though it is no attribute of anything. -/
theorem not_convert_tempoOverride_sungText :
    ∃ run forced : Noted Float (Timeline Float),
      convert (String.ofList sungText) .default = .ok run ∧
        convert (String.ofList sungText) { Options.default with tempoOverride := some 96 } =
          .ok forced ∧
        run.value.progression.map (·.lyric) = [some "in tempo='slow'"] ∧
        forced.value.progression.map (·.lyric) = [some "in tempo='96'"] ∧
        forced.value.progression ≠ run.value.progression := by
  let lyrics (read : Noted Float (Score Float)) := read.value.parts.map fun part =>
    part.measures.map fun measure => measure.elements.map MeasureElement.sungTo?
  obtain ⟨read, hread, hlyric⟩ := readScore_of_toOption sungText lyrics
    (show _ = some [[[some (some "in tempo='slow'")]]] by decide +kernel)
  obtain ⟨read', hforced, hlyric'⟩ := readScore_forced_of_toOption sungText lyrics 96
    (by decide +kernel) (show _ = some [[[some (some "in tempo='96'")]]] by decide +kernel)
  have hshown : (read.value.progression .default).map (·.lyric) = [some "in tempo='slow'"] :=
    Score.lyrics_oneNote hlyric .default
  have hshown' : ((read'.value.forced 96).progression
      { Options.default with tempoOverride := some 96 }).map (·.lyric) =
        [some "in tempo='96'"] := by
    rw [(Score.sameMusic_forced 96 read'.value).progression_eq]
    exact Score.lyrics_oneNote hlyric' _
  refine ⟨_, _, convert_of_readScore hread, convert_of_readScore hforced, hshown, hshown', ?_⟩
  intro hsame
  have hlyrics := hshown'.symm.trans ((congrArg (List.map (·.lyric)) hsame).trans hshown)
  revert hlyrics
  decide

/-- A tempo that cannot be read, between a grace note and its note. -/
def unreadSoundText : List Char :=
  measureText [pitchedNoteText ["<grace/>".toList], soundText "slow", pitchedNoteText []]

/-- The sound is passed over until it has a tempo that can be read. Then it parts the grace
note from its note, and the grace note is not played. -/
theorem not_convert_tempoOverride_unreadSoundText :
    ∃ run forced : Noted Float (Timeline Float),
      Markup.temposInMarkup (String.ofList unreadSoundText) = true ∧
        convert (String.ofList unreadSoundText) .default = .ok run ∧
        convert (String.ofList unreadSoundText) { Options.default with tempoOverride := some 96 } =
          .ok forced ∧
        run.value.notes.length = 2 ∧ forced.value.notes.length = 1 := by
  have htempos : Markup.temposInMarkup (String.ofList unreadSoundText) = true := by
    rw [Markup.temposInMarkup, String.toList_ofList]
    decide +kernel
  obtain ⟨read, hread, hnotes⟩ := readScore_of_toOption unreadSoundText
    (fun read => (read.value.playedParts 0).value.flatten.length)
    (show _ = some 2 by decide +kernel)
  obtain ⟨read', hforced, hnotes'⟩ := readScore_forced_of_toOption unreadSoundText
    (fun read => ((read.value.forced 96).playedParts 0).value.flatten.length) 96
    (by decide +kernel) (show _ = some 1 by decide +kernel)
  exact ⟨_, _, htempos, convert_of_readScore hread, convert_of_readScore hforced,
    (NoteEvent.length_ofNotes _ _).trans hnotes, (NoteEvent.length_ofNotes _ _).trans hnotes'⟩

end Rubato
