import Rubato.Proofs.Tempo.Written

namespace Rubato

section Entries

variable {β : Type} (place : β → ℚ)

def lastAt? (entries : List β) (position : ℚ) : Option β :=
  (entries.filter fun entry => place entry = position).getLast?

def lastUpTo? (entries : List β) (position : ℚ) : Option β :=
  (entries.filter fun entry => place entry ≤ position).getLast?

variable {place}

theorem lastAt?_append (first second : List β) (position : ℚ) :
    lastAt? place (first ++ second) position =
      (lastAt? place second position).or (lastAt? place first position) := by
  unfold lastAt?
  rw [List.filter_append, List.getLast?_append]

theorem lastAt?_cons (entry : β) (rest : List β) (position : ℚ) :
    lastAt? place (entry :: rest) position =
      (lastAt? place rest position).or (if place entry = position then some entry else none) := by
  rw [← List.singleton_append, lastAt?_append]
  by_cases h : place entry = position
  · simp [lastAt?, h]
  · simp [lastAt?, h]

theorem lastAt?_filter {position : ℚ} {keep : β → Bool}
    (hkeep : ∀ entry, place entry = position → keep entry) (entries : List β) :
    lastAt? place (entries.filter keep) position = lastAt? place entries position := by
  unfold lastAt?
  rw [List.filter_filter]
  congr 2
  funext entry
  by_cases h : place entry = position
  · simp [h, hkeep entry h]
  · simp [h]

theorem lastAt?_eq_none_iff {entries : List β} {position : ℚ} :
    lastAt? place entries position = none ↔ ∀ entry ∈ entries, place entry ≠ position := by
  simp [lastAt?]

theorem isSome_lastAt? {entries : List β} {position : ℚ} :
    (lastAt? place entries position).isSome ↔ position ∈ entries.map place := by
  rw [Option.isSome_iff_ne_none, ne_eq, lastAt?_eq_none_iff]
  simp

theorem lastAt?_mem {entries : List β} {position : ℚ} {entry : β}
    (h : lastAt? place entries position = some entry) :
    entry ∈ entries ∧ place entry = position := by
  have hmem := List.mem_of_getLast? h
  rw [List.mem_filter, decide_eq_true_eq] at hmem
  exact hmem

theorem lastAt?_of_mem {entries : List β}
    (hdistinct : entries.Pairwise fun first second => place first ≠ place second) {entry : β}
    (h : entry ∈ entries) : lastAt? place entries (place entry) = some entry := by
  induction entries with
  | nil => cases h
  | cons head rest ih =>
      rw [List.pairwise_cons] at hdistinct
      rw [lastAt?_cons]
      rcases List.mem_cons.mp h with rfl | hrest
      · have hnone : lastAt? place rest (place entry) = none :=
          lastAt?_eq_none_iff.mpr fun other hother => (hdistinct.1 other hother).symm
        simp [hnone]
      · simp [ih hdistinct.2 hrest]

theorem lastAt?_map {γ : Type} {other : γ → ℚ} {f : β → γ} {position shifted : ℚ}
    (hf : ∀ entry, other (f entry) = shifted ↔ place entry = position) (entries : List β) :
    lastAt? other (entries.map f) shifted = (lastAt? place entries position).map f := by
  unfold lastAt?
  rw [List.filter_map, List.getLast?_map]
  congr 3
  funext entry
  simp only [Function.comp_apply, hf entry]

theorem lastUpTo?_cons (entry : β) (rest : List β) (position : ℚ) :
    lastUpTo? place (entry :: rest) position =
      (lastUpTo? place rest position).or
        (if place entry ≤ position then some entry else none) := by
  unfold lastUpTo?
  by_cases h : place entry ≤ position
  · rw [List.filter_cons_of_pos (by simpa using h), ← List.singleton_append,
      List.getLast?_append]
    simp [h]
  · simp [h]

theorem lastUpTo?_eq_none_iff {entries : List β} {position : ℚ} :
    lastUpTo? place entries position = none ↔ ∀ entry ∈ entries, position < place entry := by
  simp [lastUpTo?]

theorem getLast?_filter_of_pairwise {order : β → β → Prop} {entries : List β}
    (hordered : entries.Pairwise order) {keep : β → Bool} {last : β}
    (h : (entries.filter keep).getLast? = some last) :
    ∀ entry ∈ entries, keep entry = true → entry = last ∨ order entry last := by
  obtain ⟨front, hfront⟩ := List.getLast?_eq_some_iff.mp h
  have hkept := hordered.filter keep
  rw [hfront, List.pairwise_append] at hkept
  intro entry hentry hkeep
  have hmem : entry ∈ entries.filter keep := List.mem_filter.mpr ⟨hentry, hkeep⟩
  rw [hfront, List.mem_append, List.mem_singleton] at hmem
  exact hmem.symm.imp_right fun hbefore =>
    hkept.2.2 entry hbefore last (List.mem_singleton_self last)

theorem lastAt?_of_pairwise {order : β → β → Prop} {entries : List β}
    (hordered : entries.Pairwise order) {position : ℚ} {last : β}
    (h : lastAt? place entries position = some last) :
    ∀ entry ∈ entries, place entry = position → entry = last ∨ order entry last :=
  fun entry hentry hplace =>
    getLast?_filter_of_pairwise hordered h entry hentry (decide_eq_true hplace)

theorem lastUpTo?_greatest {entries : List β}
    (hsorted : entries.Pairwise fun first second => place first ≤ place second)
    {position : ℚ} {last : β} (h : lastUpTo? place entries position = some last) :
    last ∈ entries ∧ place last ≤ position ∧
      ∀ entry ∈ entries, place entry ≤ position → place entry ≤ place last := by
  have hlast := List.mem_of_getLast? h
  rw [List.mem_filter, decide_eq_true_eq] at hlast
  refine ⟨hlast.1, hlast.2, fun entry hentry hle => ?_⟩
  rcases getLast?_filter_of_pairwise hsorted h entry hentry (decide_eq_true hle) with
    rfl | hordered
  · exact le_rfl
  · exact hordered

theorem lastUpTo?_eq_lastAt? {entries : List β}
    (hsorted : entries.Pairwise fun first second => place first ≤ place second)
    {position greatest : ℚ} (hthere : ∃ entry ∈ entries, place entry = greatest)
    (hle : greatest ≤ position)
    (hgap : ∀ entry ∈ entries, place entry ≤ position → place entry ≤ greatest) :
    lastUpTo? place entries position = lastAt? place entries greatest := by
  obtain ⟨entry, hentry, hplace⟩ := hthere
  cases hlast : lastUpTo? place entries position with
  | none =>
      have hbehind := lastUpTo?_eq_none_iff.mp hlast entry hentry
      rw [hplace] at hbehind
      exact absurd hle (not_le.mpr hbehind)
  | some last =>
      obtain ⟨hmem, hupTo, hgreatest⟩ := lastUpTo?_greatest hsorted hlast
      have hsame : place last = greatest :=
        le_antisymm (hgap last hmem hupTo) (hplace ▸ hgreatest entry hentry (hplace ▸ hle))
      obtain ⟨front, hfront⟩ := List.getLast?_eq_some_iff.mp hlast
      have hfilter : (entries.filter fun entry => place entry = greatest) =
          (front ++ [last]).filter fun entry => place entry = greatest := by
        rw [← hfront, List.filter_filter]
        apply List.filter_congr
        intro other _
        by_cases heq : place other = greatest
        · simp [heq, hle]
        · simp [heq]
      rw [lastAt?, hfilter, List.filter_append]
      simp [hsame]

theorem lastAt?_mergeSort (entries : List β) (position : ℚ) :
    lastAt? place (entries.mergeSort fun first second => decide (place first ≤ place second))
        position =
      lastAt? place entries position := by
  let inOrder : β → β → Bool := fun first second => decide (place first ≤ place second)
  have hordered : (entries.filter fun entry => place entry = position).Pairwise
      fun first second => inOrder first second := by
    apply List.pairwise_of_forall_mem_list
    intro first hfirst second hsecond
    simp only [List.mem_filter, decide_eq_true_eq] at hfirst hsecond
    simp [inOrder, hfirst.2, hsecond.2]
  have htrans : ∀ first second third, inOrder first second → inOrder second third →
      inOrder first third :=
    fun first second third => by simpa [inOrder] using le_trans
  have htotal : ∀ first second, inOrder first second || inOrder second first :=
    fun first second => by simpa [inOrder] using le_total (place first) (place second)
  have hsublist := (List.sublist_mergeSort htrans htotal hordered
    List.filter_sublist).filter fun entry => place entry = position
  simp only [List.filter_filter, Bool.and_self] at hsublist
  have hperm := (List.mergeSort_perm entries inOrder).filter fun entry => place entry = position
  unfold lastAt?
  rw [hsublist.eq_of_length hperm.length_eq.symm]

theorem takeWhile_eq_filter {entries : List β}
    (hsorted : entries.Pairwise fun first second => place first ≤ place second)
    (position : ℚ) :
    (entries.takeWhile fun entry => place entry ≤ position) =
      entries.filter fun entry => place entry ≤ position := by
  induction entries with
  | nil => rfl
  | cons entry rest ih =>
      rw [List.pairwise_cons] at hsorted
      by_cases hentry : place entry ≤ position
      · simp [hentry, ih hsorted.2]
      · rw [List.takeWhile_cons_of_neg (by simpa using hentry),
          List.filter_cons_of_neg (by simpa using hentry)]
        symm
        rw [List.filter_eq_nil_iff]
        intro other hother
        have hbehind := hsorted.1 other hother
        simpa using lt_of_lt_of_le (not_le.mp hentry) hbehind

end Entries

def TempoMap.Sorted (map : TempoMap ℚ) : Prop :=
  map.events.Pairwise fun first second => first.position ≤ second.position

theorem TempoScan.byPosition_eq :
    (TempoScan.byPosition : TempoEvent ℚ → TempoEvent ℚ → Bool) =
      fun first second => decide (first.position ≤ second.position) := by
  funext first second
  exact Quantity.isLE_order _ _

theorem TempoMap.events_ofPart (part : Part ℚ) :
    (TempoMap.ofPart part).value.events =
      part.events.mergeSort fun first second => decide (first.position ≤ second.position) := by
  rw [ofPart_eq, TempoScan.finish, ← TempoScan.byPosition_eq]
  split <;> rfl

theorem TempoMap.mem_events_ofPart {part : Part ℚ} {event : TempoEvent ℚ} :
    event ∈ (TempoMap.ofPart part).value.events ↔ event ∈ part.events := by
  rw [events_ofPart]
  exact List.mem_mergeSort

theorem TempoMap.sorted_ofPart (part : Part ℚ) : (TempoMap.ofPart part).value.Sorted := by
  unfold Sorted
  rw [events_ofPart]
  let inOrder : TempoEvent ℚ → TempoEvent ℚ → Bool :=
    fun first second => decide (first.position ≤ second.position)
  have htrans : ∀ first second third, inOrder first second → inOrder second third →
      inOrder first third :=
    fun first second third => by simpa [inOrder] using le_trans
  have htotal : ∀ first second, inOrder first second || inOrder second first :=
    fun first second => by simpa [inOrder] using le_total first.position second.position
  simpa [inOrder] using List.pairwise_mergeSort htrans htotal part.events

theorem TempoMap.lastAt?_ofPart (part : Part ℚ) (position : ℚ) :
    lastAt? TempoEvent.position (TempoMap.ofPart part).value.events position =
      lastAt? TempoEvent.position part.events position := by
  rw [events_ofPart]
  exact lastAt?_mergeSort part.events position

namespace TempoMap.Sorted

variable {map : TempoMap ℚ}

theorem tempoAt_eq (hsorted : map.Sorted) (position : ℚ) :
    map.tempoAt position =
      ((lastUpTo? TempoEvent.position map.events position).map (·.bpm)).getD 120 := by
  unfold TempoMap.tempoAt lastUpTo?
  rw [takeWhile_eq_filter hsorted, defaultTempo_eq]

theorem tempoAt_of_gap (hsorted : map.Sorted) {first second : ℚ} (hle : first ≤ second)
    (hgap : ∀ event ∈ map.events, event.position ≤ second → event.position ≤ first) :
    map.tempoAt second = map.tempoAt first := by
  rw [hsorted.tempoAt_eq, hsorted.tempoAt_eq]
  unfold lastUpTo?
  congr 3
  apply List.filter_congr
  intro event hevent
  simp only [decide_eq_decide]
  exact ⟨hgap event hevent, fun h => h.trans hle⟩

theorem tempoAt_of_lastAt? (hsorted : map.Sorted) {position : ℚ} {event : TempoEvent ℚ}
    (h : lastAt? TempoEvent.position map.events position = some event) :
    map.tempoAt position = event.bpm := by
  have hmem := lastAt?_mem h
  rw [hsorted.tempoAt_eq, lastUpTo?_eq_lastAt? hsorted ⟨event, hmem⟩ le_rfl
    fun other _ hle => hle, h]
  rfl

theorem exists_tempoAt_eq (hsorted : map.Sorted) {event : TempoEvent ℚ} (h : event ∈ map.events)
    {position : ℚ} (hle : event.position ≤ position) :
    ∃ last ∈ map.events, map.tempoAt position = last.bpm := by
  rw [hsorted.tempoAt_eq]
  cases hlast : lastUpTo? TempoEvent.position map.events position with
  | none => exact absurd hle (not_le.mpr (lastUpTo?_eq_none_iff.mp hlast event h))
  | some last => exact ⟨last, (lastUpTo?_greatest hsorted hlast).1, rfl⟩

end TempoMap.Sorted

theorem TempoMap.tempoAt_pos {map : TempoMap ℚ} (hpos : ∀ event ∈ map.events, 0 < event.bpm)
    (position : ℚ) : 0 < map.tempoAt position := by
  unfold TempoMap.tempoAt
  cases hlast : (map.events.takeWhile fun event => decide (event.position ≤ position)).getLast?
    with
  | none => exact (by norm_num : (0 : ℚ) < 120)
  | some event =>
      exact hpos event (List.takeWhile_sublist _ |>.subset (List.mem_of_getLast? hlast))

namespace TempoMap

variable {map : TempoMap ℚ} {start count tempo divisions : ℚ}

theorem seconds_of_pos (hcount : 0 < count) (htempo : 0 < tempo) (hdivisions : 0 < divisions) :
    map.seconds start count tempo divisions =
      if map.isSteady start (start + count) then steadySeconds count tempo divisions
      else map.steppedSeconds (start + count) tempo divisions (stepLimit count) start 0 := by
  have hpositive : ¬(count ≤ 0 ∨ tempo ≤ 0 ∨ divisions ≤ 0) := by
    rw [not_or, not_or]
    exact ⟨not_le.mpr hcount, not_le.mpr htempo, not_le.mpr hdivisions⟩
  unfold seconds
  exact if_neg hpositive

theorem seconds_of_nonpos (hcount : count ≤ 0) : map.seconds start count tempo divisions = 0 :=
  if_pos (.inl hcount)

theorem seconds_of_isSteady (hcount : 0 < count) (htempo : 0 < tempo) (hdivisions : 0 < divisions)
    (hsteady : map.isSteady start (start + count) = true) :
    map.seconds start count tempo divisions = count * 60 / (tempo * divisions) := by
  rw [seconds_of_pos hcount htempo hdivisions, if_pos hsteady]
  rfl

theorem isSteady_of_no_ramps (hramps : map.ramps = []) (start stop : ℚ) :
    map.isSteady start stop = true := by
  simp [isSteady, hramps]

end TempoMap

end Rubato
