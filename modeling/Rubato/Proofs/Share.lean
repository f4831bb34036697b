import Mathlib.Data.List.Dedup
import Mathlib.Data.List.Lemmas
import Mathlib.Data.List.Perm.Basic
import Mathlib.Data.Multiset.Bind

namespace Rubato

/-! Lists taken apart and put together again: by keys, each of which has its share in order,
by a property of the entries, and by rows and columns. -/

section Modify

variable {β γ : Type}

theorem map_modify {f : β → β} {g : γ → γ} {aspect : β → γ}
    (h : ∀ entry, aspect (f entry) = g (aspect entry)) (entries : List β) (index : Nat) :
    (entries.modify index f).map aspect = (entries.map aspect).modify index g := by
  induction entries generalizing index with
  | nil => simp
  | cons entry rest ih =>
      cases index with
      | zero => simp [h]
      | succ index => simp [ih]

theorem map_modify_of_eq {f : β → β} {aspect : β → γ}
    (h : ∀ entry, aspect (f entry) = aspect entry) (entries : List β) (index : Nat) :
    (entries.modify index f).map aspect = entries.map aspect := by
  rw [map_modify (g := id) h, List.modify_id]

theorem modify_append (first second : List β) (index : Nat) (f : β → β) :
    (first ++ second).modify index f =
      if index < first.length then first.modify index f ++ second
      else first ++ second.modify (index - first.length) f := by
  induction first generalizing index with
  | nil => simp
  | cons entry rest ih =>
      cases index with
      | zero => simp
      | succ index =>
          rw [List.cons_append, List.modify_succ_cons, ih]
          simp only [List.length_cons, Nat.add_lt_add_iff_right, Nat.add_sub_add_right]
          split <;> simp

theorem insertIdx_eq {entries : List β} {index : Nat} (h : index ≤ entries.length)
    (entry : β) :
    entries.insertIdx index entry = entries.take index ++ entry :: entries.drop index := by
  induction entries generalizing index with
  | nil =>
      obtain rfl := Nat.le_zero.mp h
      rfl
  | cons first rest ih =>
      cases index with
      | zero => rfl
      | succ index => simp [ih (Nat.succ_le_succ_iff.mp h)]

theorem modify_injective {f : β → β} (hf : Function.Injective f) (index : Nat) :
    Function.Injective fun entries : List β => entries.modify index f := by
  intro first second h
  dsimp only at h
  induction first generalizing second index with
  | nil => simpa [eq_comm] using h
  | cons entry rest ih =>
      cases second with
      | nil => simp at h
      | cons other others =>
          cases index with
          | zero =>
              simp only [List.modify_zero_cons, List.cons.injEq] at h
              rw [hf h.1, h.2]
          | succ index =>
              simp only [List.modify_succ_cons, List.cons.injEq] at h
              rw [h.1, ih index h.2]

end Modify

variable {κ β : Type} [DecidableEq κ]

def share (key : κ) (entries : List (κ × β)) : List β :=
  entries.filterMap fun entry => if entry.1 = key then some entry.2 else none

@[simp] theorem share_nil (key : κ) : share key ([] : List (κ × β)) = [] := rfl

theorem share_cons_self (key : κ) (value : β) (rest : List (κ × β)) :
    share key ((key, value) :: rest) = value :: share key rest :=
  List.filterMap_cons_some (if_pos rfl)

theorem share_cons_of_ne {key : κ} {entry : κ × β} (h : entry.1 ≠ key)
    (rest : List (κ × β)) : share key (entry :: rest) = share key rest :=
  List.filterMap_cons_none (if_neg h)

theorem share_append (key : κ) (first second : List (κ × β)) :
    share key (first ++ second) = share key first ++ share key second :=
  List.filterMap_append

theorem share_flatMap {γ : Type} (key : κ) (f : γ → List (κ × β)) (sources : List γ) :
    share key (sources.flatMap f) = sources.flatMap fun source => share key (f source) :=
  List.filterMap_flatMap

theorem share_rename {ι : Type} [DecidableEq ι] {rename : κ → ι}
    (hrename : Function.Injective rename) (key : κ) (entries : List (κ × β)) :
    share (rename key) (entries.map fun entry => (rename entry.1, entry.2)) =
      share key entries := by
  unfold share
  rw [List.filterMap_map]
  refine List.filterMap_congr fun entry _ => ?_
  simp only [Function.comp_apply, hrename.eq_iff]

theorem share_eq_nil {key : κ} {entries : List (κ × β)} (h : ∀ entry ∈ entries, entry.1 ≠ key) :
    share key entries = [] :=
  List.filterMap_eq_nil_iff.mpr fun entry hentry => if_neg (h entry hentry)

theorem share_map_self (key : κ) (values : List β) :
    share key (values.map (key, ·)) = values := by
  induction values with
  | nil => rfl
  | cons value rest ih => rw [List.map_cons, share_cons_self, ih]

theorem share_map_of_ne {key other : κ} (h : other ≠ key) (values : List β) :
    share key (values.map (other, ·)) = [] := by
  induction values with
  | nil => rfl
  | cons value rest ih => rw [List.map_cons, share_cons_of_ne h, ih]

theorem share_modify_self {key : κ} {entries : List (κ × β)} {index : Nat} {value : β}
    (h : entries[index]? = some (key, value)) (f : β → β) :
    share key (entries.modify index (Prod.map id f)) =
      (share key entries).modify (share key (entries.take index)).length f := by
  induction entries generalizing index with
  | nil => cases h
  | cons entry rest ih =>
      cases index with
      | zero =>
          cases h
          rw [List.modify_zero_cons, List.take_zero, share_cons_self]
          exact share_cons_self key (f value) rest
      | succ index =>
          rw [List.modify_succ_cons, List.take_succ_cons]
          by_cases hkey : entry.1 = key
          · obtain ⟨_, first⟩ := entry
            cases hkey
            rw [share_cons_self, share_cons_self, share_cons_self, List.length_cons,
              List.modify_succ_cons, ih h]
          · rw [share_cons_of_ne hkey, share_cons_of_ne hkey, share_cons_of_ne hkey, ih h]

theorem share_modify_of_ne {key other : κ} (hne : other ≠ key) {entries : List (κ × β)}
    {index : Nat} {value : β} (h : entries[index]? = some (other, value)) (f : β → β) :
    share key (entries.modify index (Prod.map id f)) = share key entries := by
  induction entries generalizing index with
  | nil => cases h
  | cons entry rest ih =>
      cases index with
      | zero =>
          cases h
          rw [List.modify_zero_cons, share_cons_of_ne hne, share_cons_of_ne hne]
      | succ index =>
          rw [List.modify_succ_cons]
          by_cases hkey : entry.1 = key
          · obtain ⟨_, first⟩ := entry
            cases hkey
            rw [share_cons_self, share_cons_self, ih h]
          · rw [share_cons_of_ne hkey, share_cons_of_ne hkey, ih h]

omit [DecidableEq κ] in
theorem map_snd_modify (entries : List (κ × β)) (index : Nat) (f : β → β) :
    (entries.modify index (Prod.map id f)).map (·.2) =
      (entries.map (·.2)).modify index f := by
  apply map_modify
  exact fun entry => rfl

omit [DecidableEq κ] in
theorem map_fst_modify (entries : List (κ × β)) (index : Nat) (f : β → β) :
    (entries.modify index (Prod.map id f)).map (·.1) = entries.map (·.1) := by
  apply map_modify_of_eq
  exact fun entry => rfl

theorem share_take_last (key : κ) (entries : List (κ × β)) {values : List β}
    (hvalues : values ≠ []) :
    (∃ value, (entries ++ values.map (key, ·))[entries.length + values.length - 1]? =
        some (key, value)) ∧
      (share key ((entries ++ values.map (key, ·)).take
        (entries.length + values.length - 1))).length =
          (share key entries ++ values).length - 1 := by
  obtain ⟨front, last, rfl⟩ := (List.eq_nil_or_concat' values).resolve_left hvalues
  have hplace : entries.length + (front ++ [last]).length - 1 =
      (entries ++ front.map (key, ·)).length := by
    rw [List.length_append, List.length_append, List.length_map, List.length_singleton]
    omega
  have hsplit : entries ++ (front ++ [last]).map (key, ·) =
      (entries ++ front.map (key, ·)) ++ [(key, last)] := by
    rw [List.map_append, List.append_assoc]
    rfl
  rw [hplace, hsplit, List.getElem?_concat_length, List.take_left' rfl, share_append,
    share_map_self, ← List.append_assoc]
  exact ⟨⟨last, rfl⟩, by simp⟩

theorem length_share (key : κ) (entries : List (κ × β)) :
    (share key entries).length = (entries.map (·.1)).count key := by
  induction entries with
  | nil => rfl
  | cons entry rest ih =>
      by_cases hkey : entry.1 = key
      · obtain ⟨_, value⟩ := entry
        cases hkey
        rw [share_cons_self, List.map_cons, List.count_cons_self, List.length_cons, ih]
      · rw [share_cons_of_ne hkey, List.map_cons, List.count_cons_of_ne hkey, ih]

theorem perm_flatMap_share {keys : List κ} (hnodup : keys.Nodup) {entries : List (κ × β)}
    (hkeys : ∀ entry ∈ entries, entry.1 ∈ keys) :
    (entries.map (·.2)).Perm (keys.flatMap fun key => share key entries) := by
  induction entries with
  | nil =>
      rw [List.map_nil, List.flatMap_eq_nil_iff.mpr fun key _ => share_nil key]
  | cons entry rest ih =>
      obtain ⟨key, value⟩ := entry
      obtain ⟨front, back, rfl⟩ := List.append_of_mem (hkeys _ List.mem_cons_self)
      have hfront : key ∉ front := fun h =>
        (List.nodup_append.mp hnodup).2.2 key h key List.mem_cons_self rfl
      have hback : key ∉ back := (List.nodup_cons.mp (List.nodup_append.mp hnodup).2.1).1
      have hothers : ∀ others : List κ, key ∉ others →
          (others.flatMap fun other => share other ((key, value) :: rest)) =
            others.flatMap fun other => share other rest := fun others hothers =>
        List.flatMap_congr fun other hother =>
          share_cons_of_ne (fun h : key = other => hothers (h ▸ hother)) rest
      have hrest := ih fun other hother => hkeys other (List.mem_cons_of_mem _ hother)
      rw [List.flatMap_append, List.flatMap_cons] at hrest ⊢
      rw [List.map_cons, hothers front hfront, hothers back hback, share_cons_self]
      exact (hrest.cons value).trans List.perm_middle.symm

omit [DecidableEq κ] in
theorem nodup_eraseDups [BEq κ] [LawfulBEq κ] (keys : List κ) : keys.eraseDups.Nodup := by
  induction hlength : keys.length using Nat.strongRecOn generalizing keys with
  | ind length ih =>
      cases keys with
      | nil => exact List.nodup_nil
      | cons key rest =>
          have hshorter : (rest.filter fun other => !other == key).length < length := by
            rw [← hlength, List.length_cons]
            exact Nat.lt_succ_of_le (List.length_filter_le _ _)
          rw [List.eraseDups_cons, List.nodup_cons, List.mem_eraseDups]
          exact ⟨fun h => by simp at h, ih _ hshorter _ rfl⟩

theorem share_map_key (key : κ) (keyOf : β → κ) (values : List β) :
    share key (values.map fun value => (keyOf value, value)) =
      values.filter fun value => keyOf value = key := by
  induction values with
  | nil => rfl
  | cons value rest ih =>
      by_cases hkey : keyOf value = key
      · rw [List.map_cons, List.filter_cons_of_pos (by simpa using hkey), hkey, share_cons_self,
          ih]
      · rw [List.map_cons, List.filter_cons_of_neg (by simpa using hkey), share_cons_of_ne hkey,
          ih]

theorem perm_flatMap_filter {keys : List κ} (hnodup : keys.Nodup) (keyOf : β → κ)
    {values : List β} (hkeys : ∀ value ∈ values, keyOf value ∈ keys) :
    values.Perm (keys.flatMap fun key => values.filter fun value => keyOf value = key) := by
  have hentries : ∀ entry ∈ values.map (fun value => (keyOf value, value)), entry.1 ∈ keys := by
    intro entry hentry
    obtain ⟨value, hvalue, rfl⟩ := List.mem_map.mp hentry
    exact hkeys value hvalue
  have hperm := perm_flatMap_share hnodup hentries
  rw [List.map_map, List.flatMap_congr fun key _ => share_map_key key keyOf values] at hperm
  have hvalues : values.map ((·.2) ∘ fun value => (keyOf value, value)) = values :=
    List.map_id values
  rwa [hvalues] at hperm

omit [DecidableEq κ] in
theorem perm_flatMap_comm {γ : Type} (rows : List κ) (columns : List β) (f : κ → β → List γ) :
    (rows.flatMap fun row => columns.flatMap fun column => f row column).Perm
      (columns.flatMap fun column => rows.flatMap fun row => f row column) := by
  rw [← Multiset.coe_eq_coe]
  simp only [← Multiset.coe_bind]
  exact Multiset.bind_bind _ _

theorem flatMap_range_getD {γ : Type} (columns : List (List γ)) {count : Nat}
    (hcount : columns.length ≤ count) :
    ((List.range count).flatMap fun index => columns.getD index []) = columns.flatten := by
  induction columns generalizing count with
  | nil => simp
  | cons column rest ih =>
      obtain ⟨count, rfl⟩ := Nat.exists_eq_add_one_of_ne_zero
        (Nat.ne_of_gt (Nat.lt_of_lt_of_le (Nat.succ_pos _) hcount))
      rw [List.range_succ_eq_map, List.flatMap_cons, List.flatMap_map, List.flatten_cons,
        ← ih (Nat.le_of_succ_le_succ hcount)]
      rfl

end Rubato
