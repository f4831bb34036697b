import Mathlib
import Rubato.Proofs.Progression

namespace Rubato

/-! The name of a note splits again into the pitch class and the octave it is made of, so
that a group can be taken apart into its notes. -/

namespace Spelling

/-- The pitch class of a note name ends before the first digit or sign. -/
def isOfClass (c : Char) : Bool := !c.isDigit && c != '-'

/-- The pitch class and the octave that are read off a note name. -/
def ofName (name : String) : Spelling where
  pitchClass := String.ofList (name.toList.takeWhile isOfClass)
  octave := (String.ofList (name.toList.dropWhile isOfClass)).toInt?.getD 0

theorem exists_head_octave (octave : Int) :
    ∃ first rest, (toString octave).toList = first :: rest ∧ ¬isOfClass first = true := by
  have hdigits : ∀ count : Nat, ∃ first rest,
      count.repr.toList = first :: rest ∧ ¬isOfClass first = true := by
    intro count
    rw [Nat.toList_repr]
    obtain ⟨first, rest, hfirst⟩ := List.exists_cons_of_ne_nil
      (Nat.toDigits_ne_nil (n := count) (b := 10))
    refine ⟨first, rest, hfirst, ?_⟩
    have hdigit : first.isDigit = true :=
      Nat.isDigit_of_mem_toDigits (by decide) (by decide) (hfirst ▸ List.mem_cons_self)
    rw [isOfClass, hdigit]
    exact Bool.false_ne_true
  cases octave with
  | ofNat count => exact hdigits count
  | negSucc count => exact ⟨'-', (count + 1).repr.toList, String.toList_append, Bool.false_ne_true⟩

theorem ofName_name {spelling : Spelling}
    (hclass : spelling.pitchClass.toList.all isOfClass = true) :
    ofName spelling.name = spelling := by
  obtain ⟨first, rest, hoctave, hfirst⟩ := exists_head_octave spelling.octave
  have hname : spelling.name.toList = spelling.pitchClass.toList ++ first :: rest := by
    rw [name, String.toList_append, hoctave]
  have hread : (toString spelling.octave).toInt? = some spelling.octave :=
    Int.toInt?_repr spelling.octave
  rw [List.all_eq_true] at hclass
  unfold ofName
  rw [hname, List.takeWhile_append_of_pos hclass, List.dropWhile_append_of_pos hclass,
    List.takeWhile_cons_of_neg hfirst, List.dropWhile_cons_of_neg hfirst, List.append_nil,
    ← hoctave, String.ofList_toList, String.ofList_toList, hread]
  rfl

end Spelling

theorem PitchNumber.all_isOfClass_className (number : PitchNumber) (flats : Bool) :
    (className number flats).toList.all Spelling.isOfClass = true := by
  have hnames : ∀ name ∈ sharpNames ++ flatNames,
      name.toList.all Spelling.isOfClass = true := by decide
  have hbound : number % 12 < 12 := Nat.mod_lt _ (by decide)
  unfold className
  cases flats with
  | true =>
      rw [if_pos rfl, List.getD_eq_getElem flatNames "" hbound]
      exact hnames _ (List.mem_append_right _ (List.getElem_mem hbound))
  | false =>
      rw [if_neg Bool.false_ne_true, List.getD_eq_getElem sharpNames "" hbound]
      exact hnames _ (List.mem_append_left _ (List.getElem_mem hbound))

namespace Pitch

theorem all_isOfClass_accidentalSign (alter : Int) :
    (accidentalSign alter).toList.all Spelling.isOfClass = true := by
  unfold accidentalSign
  split
  · decide
  · split <;> decide

theorem all_isOfClass_spelling (pitch : Pitch) :
    pitch.spelling.pitchClass.toList.all Spelling.isOfClass = true := by
  unfold spelling
  split
  · have hletter : pitch.letter.name.toString.toList.all Spelling.isOfClass = true := by
      cases pitch.letter <;> decide
    rw [String.toList_append, List.all_append, hletter, all_isOfClass_accidentalSign]
    rfl
  · exact PitchNumber.all_isOfClass_className _ _

theorem ofName_name (pitch : Pitch) : Spelling.ofName pitch.name = pitch.spelling :=
  Spelling.ofName_name pitch.all_isOfClass_spelling

end Pitch

def EntryContent.ungrouped : EntryContent → List EntryContent
  | .group _ notes =>
    notes.map fun name => .note (Spelling.ofName name).pitchClass (Spelling.ofName name).octave
  | content => [content]

section Ungrouped

variable {α : Type}

/-- A group as one entry for each of its notes; any other entry is kept. -/
def ProgressionEntry.ungrouped (entry : ProgressionEntry α) : List (ProgressionEntry α) :=
  entry.content.ungrouped.map fun content => { entry with content }

/-- What is said of an entry where simultaneous notes are grouped: it is a chord symbol, or
a group of notes under the different chords of these notes. -/
def ProgressionEntry.IsGrouped (entry : ProgressionEntry α) : Prop :=
  (∃ symbol, entry.content = .harmony symbol) ∨
    ∃ notes, notes ≠ [] ∧ entry.content =
      .group (String.intercalate "+" (entry.ungrouped.map (·.chord)).eraseDups) notes

namespace Onset

variable {onset : Onset α} {notes : List OnsetNote}

theorem ungrouped_grouped
    (hnotes : ∀ note ∈ notes, Spelling.ofName note.spelling.name = note.spelling) :
    (grouped notes).ungrouped = notes.map single := by
  show (notes.map fun note => note.spelling.name).map _ = notes.map single
  rw [List.map_map]
  apply List.map_congr_left
  intro note hnote
  rw [Function.comp_apply, hnotes note hnote]
  rfl

def IsSpelled (onset : Onset α) : Prop :=
  ∀ note ∈ onset.notes, Spelling.ofName note.spelling.name = note.spelling

theorem IsSpelled.ungrouped_sortedNotes (honset : onset.IsSpelled) :
    (grouped onset.sortedNotes).ungrouped = onset.sortedNotes.map single :=
  ungrouped_grouped fun note hnote => honset note (List.mem_mergeSort.mp hnote)

theorem IsSpelled.ungrouped_contents (honset : onset.IsSpelled) :
    (onset.contents true).flatMap EntryContent.ungrouped = onset.contents false := by
  unfold contents
  cases hempty : onset.notes.isEmpty with
  | true =>
      cases onset.harmony with
      | none => rfl
      | some symbol => rfl
  | false =>
      show (grouped onset.sortedNotes).ungrouped ++ [] = onset.sortedNotes.map single
      rw [List.append_nil, honset.ungrouped_sortedNotes]

theorem IsSpelled.ungrouped_entries (honset : onset.IsSpelled) (bar : Nat)
    (lyric : Option String) :
    (onset.entries true bar lyric).flatMap ProgressionEntry.ungrouped =
      onset.entries false bar lyric := by
  unfold entries
  rw [← honset.ungrouped_contents, List.flatMap_map, List.map_flatMap]
  rfl

theorem IsSpelled.isGrouped (honset : onset.IsSpelled) {bar : Nat} {lyric : Option String}
    {entry : ProgressionEntry α} (hentry : entry ∈ onset.entries true bar lyric) :
    entry.IsGrouped := by
  obtain ⟨content, hcontent, rfl⟩ := List.mem_map.mp hentry
  unfold contents at hcontent
  cases hempty : onset.notes.isEmpty with
  | true =>
      rw [hempty, if_pos rfl, Option.mem_toList] at hcontent
      obtain ⟨symbol, _, hsymbol⟩ := Option.map_eq_some_iff.mp hcontent
      exact .inl ⟨symbol, hsymbol.symm⟩
  | false =>
      rw [hempty, if_neg Bool.false_ne_true, if_pos rfl] at hcontent
      cases List.mem_singleton.mp hcontent
      right
      refine ⟨onset.sortedNotes.map fun note => note.spelling.name, ?_, ?_⟩
      · rw [ne_eq, List.map_eq_nil_iff, sortedNotes_eq_nil_iff, ← List.isEmpty_iff, hempty]
        exact Bool.false_ne_true
      · unfold ProgressionEntry.ungrouped
        rw [honset.ungrouped_sortedNotes, List.map_map, List.map_map]
        rfl

end Onset

namespace Progression

theorem ungrouped_entriesFrom {onsets : List (Nat × Onset α)}
    (honsets : ∀ item ∈ onsets, item.2.IsSpelled) (lyric : Option String) :
    (entriesFrom true lyric onsets).flatMap ProgressionEntry.ungrouped =
      entriesFrom false lyric onsets := by
  induction onsets generalizing lyric with
  | nil => rfl
  | cons first rest ih =>
      rw [entriesFrom, entriesFrom, List.flatMap_append,
        (honsets first List.mem_cons_self).ungrouped_entries,
        ih fun item hitem => honsets item (List.mem_cons_of_mem first hitem)]

end Progression

end Ungrouped

namespace Progression

variable {α : Type} [Quantity α]

theorem isSpelled_onsets (skipHarmony : Bool) (score : Score α) :
    ∀ item ∈ onsets skipHarmony score, item.2.IsSpelled := by
  intro item hitem note hnote
  have hfound : note ∈ score.soundingPitches.map OnsetNote.ofPitch :=
    (notes_onsets_perm skipHarmony score).mem_iff.mp
      (List.mem_flatMap.mpr ⟨item, hitem, hnote⟩)
  obtain ⟨pitch, _, rfl⟩ := List.mem_map.mp hfound
  exact pitch.ofName_name

/-- The grouped progression has groups and chord symbols only. With every group taken apart
into its notes it is, entry by entry, the progression that is not grouped. -/
theorem ungrouped_ofScore (skipHarmony : Bool) (score : Score α) :
    (ofScore true skipHarmony score).flatMap ProgressionEntry.ungrouped =
        ofScore false skipHarmony score ∧
      ∀ entry ∈ ofScore true skipHarmony score, entry.IsGrouped := by
  have honsets := isSpelled_onsets skipHarmony score
  refine ⟨ungrouped_entriesFrom honsets none, fun entry hentry => ?_⟩
  obtain ⟨item, hitem, current, hmem⟩ := onset_of_mem_entriesFrom hentry
  exact (honsets item hitem).isGrouped hmem

end Progression

end Rubato
