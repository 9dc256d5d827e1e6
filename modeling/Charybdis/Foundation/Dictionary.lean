import Mathlib

/-! Insertion-ordered dictionaries: association lists whose keys are distinct by
construction. Replacing a value keeps its place, a new key goes to the end. -/

namespace Charybdis.Foundation

universe u v

@[ext]
structure Dict (κ : Type u) (α : Type v) where
  entries : List (κ × α)
  distinct : (entries.map Prod.fst).Nodup

namespace Dict

variable {κ : Type u} {α : Type v}

def empty : Dict κ α := ⟨[], List.nodup_nil⟩

def keys (dict : Dict κ α) : List κ := dict.entries.map Prod.fst

def values (dict : Dict κ α) : List α := dict.entries.map Prod.snd

/-- The entries whose key passes a test. -/
def filterKeys (keep : κ → Bool) (dict : Dict κ α) : Dict κ α where
  entries := dict.entries.filter fun entry => keep entry.1
  distinct := dict.distinct.sublist (List.filter_sublist.map Prod.fst)

def mapValues (change : α → α) (dict : Dict κ α) : Dict κ α where
  entries := dict.entries.map fun entry => (entry.1, change entry.2)
  distinct := by
    rw [List.map_map]
    exact dict.distinct

section Access

variable [DecidableEq κ]

def get? (dict : Dict κ α) (key : κ) : Option α :=
  (dict.entries.find? fun entry => entry.1 = key).map Prod.snd

def contains (dict : Dict κ α) (key : κ) : Bool := (dict.get? key).isSome

def erase (dict : Dict κ α) (key : κ) : Dict κ α := dict.filterKeys fun other => other ≠ key

theorem mem_entries_iff (dict : Dict κ α) : (key, value) ∈ dict.entries ↔ dict.get? key = some value := by
  obtain ⟨entries, distinct⟩ := dict
  simp only [get?]
  induction entries with
  | nil => simp
  | cons entry rest ih =>
    obtain ⟨other, old⟩ := entry
    rw [List.map_cons, List.nodup_cons] at distinct
    by_cases same : other = key
    · subst same
      have absent : (other, value) ∉ rest := fun member =>
        distinct.1 (List.mem_map.mpr ⟨_, member, rfl⟩)
      simp [absent, eq_comm]
    · have different : ¬ key = other := fun equal => same equal.symm
      simp [same, different, ih distinct.2]

theorem get?_eq_none_iff (dict : Dict κ α) : dict.get? key = none ↔ key ∉ dict.keys := by
  simp only [get?, keys, Option.map_eq_none_iff, List.find?_eq_none, decide_eq_true_eq, List.mem_map,
    not_exists, not_and]

@[simp] theorem get?_empty (key : κ) : (empty : Dict κ α).get? key = none := rfl

theorem get?_filterKeys (keep : κ → Bool) (dict : Dict κ α) (key : κ) :
    (dict.filterKeys keep).get? key = if keep key then dict.get? key else none := by
  apply Option.ext
  intro value
  rw [← mem_entries_iff]
  by_cases kept : keep key = true <;> simp [filterKeys, kept, mem_entries_iff]

theorem get?_erase (dict : Dict κ α) (key wanted : κ) :
    (dict.erase key).get? wanted = if wanted = key then none else dict.get? wanted := by
  rw [erase, get?_filterKeys]
  by_cases same : wanted = key <;> simp [same]

theorem erase_comm (dict : Dict κ α) (first second : κ) :
    (dict.erase first).erase second = (dict.erase second).erase first := by
  ext1
  simp only [erase, filterKeys, List.filter_filter]
  exact List.filter_congr fun entry _ => Bool.and_comm _ _

theorem erase_of_absent (dict : Dict κ α) (absent : dict.get? key = none) : dict.erase key = dict := by
  ext1
  refine List.filter_eq_self.mpr fun entry member => ?_
  have present : entry.1 ∈ dict.keys := List.mem_map_of_mem member
  have different : entry.1 ≠ key := fun same => dict.get?_eq_none_iff.mp absent (same ▸ present)
  simpa using different

theorem erase_entries (dict : Dict κ α) (found : dict.get? key = some value) :
    ∃ first last, dict.entries = first ++ (key, value) :: last ∧
      (dict.erase key).entries = first ++ last := by
  obtain ⟨first, last, split⟩ := List.append_of_mem (dict.mem_entries_iff.mpr found)
  have distinct := dict.distinct
  rw [split, List.map_append, List.map_cons, List.nodup_middle, List.nodup_cons,
    ← List.map_append] at distinct
  have kept : (first ++ last).filter (fun entry => decide (entry.1 ≠ key)) = first ++ last := by
    refine List.filter_eq_self.mpr fun entry member => ?_
    have present : entry.1 ∈ (first ++ last).map Prod.fst := List.mem_map_of_mem member
    have different : entry.1 ≠ key := fun same => distinct.1 (same ▸ present)
    simpa using different
  refine ⟨first, last, split, ?_⟩
  change dict.entries.filter (fun entry => decide (entry.1 ≠ key)) = first ++ last
  rw [split, List.filter_append, List.filter_cons_of_neg (by simp), ← List.filter_append]
  exact kept

/-- Assignment `dict[key] = value`. -/
def set (dict : Dict κ α) (key : κ) (value : α) : Dict κ α :=
  if absent : dict.get? key = none then
    { entries := dict.entries ++ [(key, value)]
      distinct := by
        rw [List.map_append, List.nodup_append_comm]
        exact List.nodup_cons.mpr ⟨dict.get?_eq_none_iff.mp absent, dict.distinct⟩ }
  else
    { entries := dict.entries.map fun entry => if entry.1 = key then (key, value) else entry
      distinct := by
        have same : (dict.entries.map fun entry => if entry.1 = key then (key, value) else entry).map
            Prod.fst = dict.entries.map Prod.fst := by
          rw [List.map_map]
          refine List.map_congr_left fun entry _ => ?_
          by_cases found : entry.1 = key <;> simp [found]
        rw [same]
        exact dict.distinct }

theorem entries_set_of_absent (dict : Dict κ α) (value : α) (absent : dict.get? key = none) :
    (dict.set key value).entries = dict.entries ++ [(key, value)] := by
  simp [set, absent]

private theorem map_replace_absent {entries : List (κ × α)} (value : α)
    (absent : ∀ entry ∈ entries, entry.1 ≠ key) :
    (entries.map fun entry => if entry.1 = key then (key, value) else entry) = entries := by
  rw [List.map_congr_left (g := id), List.map_id]
  intro entry member
  exact if_neg (absent entry member)

/-- An assignment leaves one entry of its key, among entries that were there before. -/
theorem set_entries (dict : Dict κ α) (key : κ) (value : α) :
    ∃ first last, (dict.set key value).entries = first ++ (key, value) :: last ∧
      ∀ entry ∈ first ++ last, entry ∈ dict.entries := by
  cases found : dict.get? key with
  | none => exact ⟨dict.entries, [], entries_set_of_absent dict value found, by simp⟩
  | some old =>
    obtain ⟨first, last, split, rest⟩ := dict.erase_entries found
    have other : ∀ entry ∈ first ++ last, entry.1 ≠ key := by
      intro entry member
      rw [← rest] at member
      simpa using (List.mem_filter.mp member).2
    refine ⟨first, last, ?_, ?_⟩
    · simp only [set, found, reduceCtorEq, ↓reduceDIte, split, List.map_append, List.map_cons, ↓reduceIte]
      rw [map_replace_absent value fun entry member => other entry (List.mem_append_left _ member),
        map_replace_absent value fun entry member => other entry (List.mem_append_right _ member)]
    · intro entry member
      rw [← rest] at member
      exact (List.mem_filter.mp member).1

theorem mem_values_set {dict : Dict κ α} (member : found ∈ (dict.set key value).values) :
    found = value ∨ found ∈ dict.values := by
  obtain ⟨first, last, split, old⟩ := dict.set_entries key value
  rw [values, split] at member
  obtain ⟨entry, inside, same⟩ := List.mem_map.mp member
  rcases List.mem_append.mp inside with early | inside
  · exact .inr (List.mem_map.mpr ⟨entry, old entry (List.mem_append_left _ early), same⟩)
  rcases List.mem_cons.mp inside with mine | late
  · exact .inl (by rw [← same, mine])
  · exact .inr (List.mem_map.mpr ⟨entry, old entry (List.mem_append_right _ late), same⟩)

theorem mem_values_erase {dict : Dict κ α} (member : found ∈ (dict.erase key).values) : found ∈ dict.values := by
  obtain ⟨entry, inside, same⟩ := List.mem_map.mp member
  exact List.mem_map.mpr ⟨entry, (List.mem_filter.mp inside).1, same⟩

theorem get?_set (dict : Dict κ α) (key wanted : κ) (value : α) :
    (dict.set key value).get? wanted = if wanted = key then some value else dict.get? wanted := by
  apply Option.ext
  intro found
  rw [← mem_entries_iff]
  by_cases absent : dict.get? key = none
  · rw [entries_set_of_absent dict value absent, List.mem_append, mem_entries_iff]
    by_cases same : wanted = key
    · subst same
      simp [absent, eq_comm]
    · simp [same]
  · by_cases same : wanted = key
    · subst same
      obtain ⟨old, present⟩ := Option.ne_none_iff_exists'.mp absent
      have member := (mem_entries_iff dict).mpr present
      simp only [set, absent, ↓reduceDIte, List.mem_map, ↓reduceIte, Option.some.injEq]
      constructor
      · rintro ⟨entry, _, replaced⟩
        split at replaced
        · exact (Prod.ext_iff.mp replaced).2
        · rename_i other
          exact absurd (congrArg Prod.fst replaced) other
      · intro equal
        exact ⟨_, member, by simp [equal]⟩
    · simp only [set, absent, ↓reduceDIte, List.mem_map, same, ↓reduceIte]
      rw [← mem_entries_iff]
      constructor
      · rintro ⟨entry, member, replaced⟩
        split at replaced
        · exact absurd (congrArg Prod.fst replaced).symm same
        · exact replaced ▸ member
      · intro member
        exact ⟨_, member, by simp [same]⟩

theorem set_of_get? (dict : Dict κ α) (found : dict.get? key = some value) : dict.set key value = dict := by
  ext1
  simp only [set, found, reduceCtorEq, ↓reduceDIte]
  rw [List.map_congr_left (g := id), List.map_id]
  intro entry member
  by_cases same : entry.1 = key
  · have present : dict.get? key = some entry.2 := (dict.mem_entries_iff).mp (by rw [← same]; exact member)
    rw [if_pos same, ← Option.some.inj (present.symm.trans found), ← same]
    rfl
  · exact if_neg same

theorem set_set (dict : Dict κ α) (key : κ) (first second : α) :
    (dict.set key first).set key second = dict.set key second := by
  have present : (dict.set key first).get? key ≠ none := by simp [get?_set]
  ext1
  cases found : dict.get? key with
  | none =>
    have others : ∀ entry ∈ dict.entries, entry.1 ≠ key := fun entry member same =>
      dict.get?_eq_none_iff.mp found (same ▸ List.mem_map_of_mem member)
    rw [set, dif_neg present, entries_set_of_absent dict second found]
    simp only [entries_set_of_absent dict first found, List.map_append, List.map_cons, List.map_nil, ↓reduceIte]
    rw [map_replace_absent second others]
  | some old =>
    rw [set, dif_neg present]
    simp only [set, found, reduceCtorEq, ↓reduceDIte, List.map_map]
    refine List.map_congr_left fun entry _ => ?_
    by_cases same : entry.1 = key <;> simp [same]

theorem get?_mapValues (change : α → α) (dict : Dict κ α) (key : κ) :
    (dict.mapValues change).get? key = (dict.get? key).map change := by
  simp only [get?, mapValues, List.find?_map, Option.map_map]
  rfl

/-- `dict.update(other)`: assignments in the order of `other`. -/
def update (dict other : Dict κ α) : Dict κ α :=
  other.entries.foldl (fun dict entry => dict.set entry.1 entry.2) dict

private theorem get?_foldl_set (entries : List (κ × α)) (dict : Dict κ α) (key : κ)
    (distinct : (entries.map Prod.fst).Nodup) :
    (entries.foldl (fun dict entry => dict.set entry.1 entry.2) dict).get? key =
      ((entries.find? fun entry => entry.1 = key).map Prod.snd).or (dict.get? key) := by
  induction entries generalizing dict with
  | nil => simp
  | cons entry rest ih =>
    rw [List.map_cons, List.nodup_cons] at distinct
    rw [List.foldl_cons, ih _ distinct.2, get?_set]
    by_cases same : key = entry.1
    · subst same
      have absent : (rest.find? fun other => other.1 = entry.1) = none := by
        simp only [List.find?_eq_none, decide_eq_true_eq]
        exact fun other member equal => distinct.1 (equal ▸ List.mem_map_of_mem member)
      simp [absent]
    · have different : ¬ entry.1 = key := fun equal => same equal.symm
      simp [same, different]

theorem get?_update (dict other : Dict κ α) (key : κ) :
    (dict.update other).get? key = (other.get? key).or (dict.get? key) :=
  get?_foldl_set other.entries dict key other.distinct

/-- A dictionary display; a repeated key keeps its place and takes the last value. -/
def ofList (pairs : List (κ × α)) : Dict κ α :=
  pairs.foldl (fun dict pair => dict.set pair.1 pair.2) empty

private theorem foldl_set_entries (pairs : List (κ × α)) (dict : Dict κ α)
    (distinct : ((dict.entries ++ pairs).map Prod.fst).Nodup) :
    (pairs.foldl (fun dict pair => dict.set pair.1 pair.2) dict).entries = dict.entries ++ pairs := by
  induction pairs generalizing dict with
  | nil => simp
  | cons pair rest ih =>
    have absent : dict.get? pair.1 = none := by
      apply dict.get?_eq_none_iff.mpr
      rw [List.map_append, List.map_cons] at distinct
      exact fun member => List.disjoint_of_nodup_append distinct member (List.mem_cons_self ..)
    have entries := dict.entries_set_of_absent pair.2 absent
    rw [List.foldl_cons, ih _ (by rw [entries, List.append_assoc]; exact distinct), entries,
      List.append_assoc]
    rfl

theorem entries_ofList {pairs : List (κ × α)} (distinct : (pairs.map Prod.fst).Nodup) : (ofList pairs).entries = pairs :=
  foldl_set_entries pairs empty distinct

theorem ofList_entries (dict : Dict κ α) : ofList dict.entries = dict := by
  ext1
  exact entries_ofList dict.distinct

end Access

@[simp] theorem values_mapValues (change : α → α) (dict : Dict κ α) :
    (dict.mapValues change).values = dict.values.map change := by
  simp only [values, mapValues, List.map_map]
  rfl

end Dict

end Charybdis.Foundation
