import Charybdis.Foundation.Utf8

/-! JSON values over an arbitrary type of strings and of numbers. Objects are member
lists; a reader of the list sees the first member of a name. -/

namespace Charybdis.Foundation

universe u v

inductive Json (κ : Type u) (ν : Type v) where
  | null
  | boolean (value : Bool)
  | number (value : ν)
  | string (value : κ)
  | array (items : List (Json κ ν))
  | object (members : List (κ × Json κ ν))

namespace Json

variable {κ : Type u} {ν : Type v}

/-- Every string, number and member-name list of a value has its property. -/
inductive All (text : κ → Prop) (number : ν → Prop) (names : List κ → Prop) : Json κ ν → Prop where
  | null : All text number names .null
  | boolean : All text number names (.boolean value)
  | number (good : number value) : All text number names (.number value)
  | string (good : text value) : All text number names (.string value)
  | array (each : ∀ item ∈ items, All text number names item) : All text number names (.array items)
  | object (named : names (members.map Prod.fst))
      (each : ∀ member ∈ members, All text number names member.2) :
      All text number names (.object members)

@[simp] theorem all_string {text : κ → Prop} {number : ν → Prop} {names : List κ → Prop} :
    All text number names (.string value) ↔ text value := by
  constructor
  · intro all
    cases all with
    | string good => exact good
  · exact .string

@[simp] theorem all_number {text : κ → Prop} {number : ν → Prop} {names : List κ → Prop} :
    All text number names (.number value) ↔ number value := by
  constructor
  · intro all
    cases all with
    | number good => exact good
  · exact .number

theorem all_object {text : κ → Prop} {number : ν → Prop} {names : List κ → Prop} :
    All text number names (.object members) ↔
      names (members.map Prod.fst) ∧ ∀ member ∈ members, All text number names member.2 := by
  constructor
  · intro all
    cases all with
    | object named each => exact ⟨named, each⟩
  · intro ⟨named, each⟩
    exact .object named each

theorem All.and {text text' : κ → Prop} {number number' : ν → Prop} {names names' : List κ → Prop}
    {value : Json κ ν} (first : All text number names value) (second : All text' number' names' value) :
    All (fun string => text string ∧ text' string) (fun value => number value ∧ number' value)
      (fun list => names list ∧ names' list) value := by
  induction first with
  | null => exact .null
  | boolean => exact .boolean
  | number good =>
    cases second with
    | number good' => exact .number ⟨good, good'⟩
  | string good =>
    cases second with
    | string good' => exact .string ⟨good, good'⟩
  | array _ ih =>
    cases second with
    | array each => exact .array fun item member => ih item member (each item member)
  | object named _ ih =>
    cases second with
    | object named' each =>
      exact .object ⟨named, named'⟩ fun member present => ih member present (each member present)

theorem All.mono {text text' : κ → Prop} {number number' : ν → Prop} {names names' : List κ → Prop}
    {value : Json κ ν} (all : All text number names value) (texts : ∀ string, text string → text' string)
    (numbers : ∀ value, number value → number' value) (lists : ∀ list, names list → names' list) :
    All text' number' names' value := by
  induction all with
  | null => exact .null
  | boolean => exact .boolean
  | number good => exact .number (numbers _ good)
  | string good => exact .string (texts _ good)
  | array _ ih => exact .array ih
  | object named _ ih => exact .object (lists _ named) ih

mutual

/-- Every string and every member name passes the check. -/
def allStrings (check : κ → Bool) : Json κ ν → Bool
  | .null | .boolean _ | .number _ => true
  | .string value => check value
  | .array items => allItems check items
  | .object members => allMembers check members

def allItems (check : κ → Bool) : List (Json κ ν) → Bool
  | [] => true
  | item :: rest => allStrings check item && allItems check rest

def allMembers (check : κ → Bool) : List (κ × Json κ ν) → Bool
  | [] => true
  | (name, value) :: rest => check name && (allStrings check value && allMembers check rest)

end

/-- The strings and names of a value all have a property. -/
abbrev Strings (text : κ → Prop) (value : Json κ ν) : Prop :=
  All text (fun _ => True) (fun names => ∀ name ∈ names, text name) value

mutual

theorem allStrings_iff (check : κ → Bool) :
    (value : Json κ ν) → (allStrings check value = true ↔ value.Strings fun text => check text = true)
  | .null => by simpa [allStrings] using All.null
  | .boolean _ => by simpa [allStrings] using All.boolean
  | .number _ => by simp [allStrings]
  | .string value => by simp [allStrings]
  | .array items => by
    rw [allStrings, allItems_iff check items]
    refine ⟨.array, fun all => ?_⟩
    cases all with
    | array each => exact each
  | .object members => by
    rw [allStrings, allMembers_iff check members, Strings, all_object]
    simp [forall_and]

private theorem allItems_iff (check : κ → Bool) : (items : List (Json κ ν)) →
    (allItems check items = true ↔ ∀ item ∈ items, item.Strings fun text => check text = true)
  | [] => by simp [allItems]
  | item :: rest => by
    simp [allItems, allStrings_iff check item, allItems_iff check rest]

private theorem allMembers_iff (check : κ → Bool) : (members : List (κ × Json κ ν)) →
    (allMembers check members = true ↔ ∀ member ∈ members,
      check member.1 = true ∧ member.2.Strings fun text => check text = true)
  | [] => by simp [allMembers]
  | (name, value) :: rest => by
    simp [allMembers, allStrings_iff check value, allMembers_iff check rest, and_assoc]

end

mutual

/-- Every number passes the check. -/
def allNumbers (check : ν → Bool) : Json κ ν → Bool
  | .null | .boolean _ | .string _ => true
  | .number value => check value
  | .array items => allItemNumbers check items
  | .object members => allMemberNumbers check members

def allItemNumbers (check : ν → Bool) : List (Json κ ν) → Bool
  | [] => true
  | item :: rest => allNumbers check item && allItemNumbers check rest

def allMemberNumbers (check : ν → Bool) : List (κ × Json κ ν) → Bool
  | [] => true
  | (_, value) :: rest => allNumbers check value && allMemberNumbers check rest

end

/-- The numbers of a value all have a property. -/
abbrev Numbers (number : ν → Prop) (value : Json κ ν) : Prop :=
  All (fun _ => True) number (fun _ => True) value

mutual

theorem allNumbers_iff (check : ν → Bool) :
    (value : Json κ ν) → (allNumbers check value = true ↔ value.Numbers fun number => check number = true)
  | .null => by simpa [allNumbers] using All.null
  | .boolean _ => by simpa [allNumbers] using All.boolean
  | .number _ => by simp [allNumbers]
  | .string _ => by simp [allNumbers]
  | .array items => by
    rw [allNumbers, allItemNumbers_iff check items]
    refine ⟨.array, fun all => ?_⟩
    cases all with
    | array each => exact each
  | .object members => by
    rw [allNumbers, allMemberNumbers_iff check members, Numbers, all_object]
    simp

private theorem allItemNumbers_iff (check : ν → Bool) : (items : List (Json κ ν)) →
    (allItemNumbers check items = true ↔ ∀ item ∈ items, item.Numbers fun number => check number = true)
  | [] => by simp [allItemNumbers]
  | item :: rest => by
    simp [allItemNumbers, allNumbers_iff check item, allItemNumbers_iff check rest]

private theorem allMemberNumbers_iff (check : ν → Bool) : (members : List (κ × Json κ ν)) →
    (allMemberNumbers check members = true ↔
      ∀ member ∈ members, member.2.Numbers fun number => check number = true)
  | [] => by simp [allMemberNumbers]
  | (_, value) :: rest => by
    simp [allMemberNumbers, allNumbers_iff check value, allMemberNumbers_iff check rest]

end

mutual

/-- How many arrays and objects lie inside one another. -/
def depth : Json κ ν → Nat
  | .null | .boolean _ | .number _ | .string _ => 0
  | .array items => depthOfItems items + 1
  | .object members => depthOfMembers members + 1

def depthOfItems : List (Json κ ν) → Nat
  | [] => 0
  | item :: rest => max (depth item) (depthOfItems rest)

def depthOfMembers : List (κ × Json κ ν) → Nat
  | [] => 0
  | (_, value) :: rest => max (depth value) (depthOfMembers rest)

end

theorem depth_array_le {items : List (Json κ ν)} :
    (Json.array items).depth ≤ limit + 1 ↔ ∀ item ∈ items, item.depth ≤ limit := by
  rw [depth, Nat.add_le_add_iff_right]
  induction items with
  | nil => simp [depthOfItems]
  | cons item rest ih => simp [depthOfItems, ih]

theorem depth_object_le {members : List (κ × Json κ ν)} :
    (Json.object members).depth ≤ limit + 1 ↔ ∀ member ∈ members, member.2.depth ≤ limit := by
  rw [depth, Nat.add_le_add_iff_right]
  induction members with
  | nil => simp [depthOfMembers]
  | cons member rest ih => simp [depthOfMembers, ih]

section Members

theorem lookup_cons_ite [DecidableEq κ] [BEq κ] [LawfulBEq κ] (wanted name : κ) (value : α) (rest : List (κ × α)) :
    ((name, value) :: rest).lookup wanted = if wanted = name then some value else rest.lookup wanted := by
  by_cases same : wanted = name
  · simp [same]
  · simp [List.lookup_cons, same, beq_false_of_ne same]

variable [LinearOrder κ]

/-- The names of an object in increasing order, each once, as an ordered map keeps them. -/
def Sorted (names : List κ) : Prop := names.Pairwise (· < ·)

/-- Insertion into a member list kept in increasing order of names; an existing
member of the name is replaced. -/
def insertMember (name : κ) (value : Json κ ν) : List (κ × Json κ ν) → List (κ × Json κ ν)
  | [] => [(name, value)]
  | (other, old) :: rest =>
    if name < other then (name, value) :: (other, old) :: rest
    else if name = other then (name, value) :: rest
    else (other, old) :: insertMember name value rest

theorem mem_insertMember {members : List (κ × Json κ ν)}
    (member : item ∈ insertMember name value members) :
    item = (name, value) ∨ item ∈ members := by
  induction members with
  | nil => simpa [insertMember] using member
  | cons head rest ih =>
    obtain ⟨other, old⟩ := head
    simp only [insertMember] at member
    split at member
    · simpa using member
    · split at member
      · rcases List.mem_cons.mp member with same | member
        · exact .inl same
        · exact .inr (List.mem_cons_of_mem _ member)
      · rcases List.mem_cons.mp member with same | member
        · exact .inr (same ▸ List.mem_cons_self ..)
        · exact (ih member).imp id (List.mem_cons_of_mem _)

theorem sorted_insertMember {members : List (κ × Json κ ν)} (value : Json κ ν)
    (sorted : Sorted (members.map Prod.fst)) :
    Sorted ((insertMember name value members).map Prod.fst) := by
  induction members with
  | nil => simp [insertMember, Sorted]
  | cons head rest ih =>
    obtain ⟨other, old⟩ := head
    have parts := List.pairwise_cons.mp sorted
    simp only [insertMember]
    split
    · rename_i before
      refine List.pairwise_cons.mpr ⟨?_, sorted⟩
      intro later member
      rcases List.mem_cons.mp member with same | member
      · exact same ▸ before
      · exact before.trans (parts.1 later member)
    · rename_i notBefore
      split
      · rename_i same
        subst same
        exact sorted
      · rename_i different
        refine List.pairwise_cons.mpr ⟨?_, ih parts.2⟩
        intro later member
        obtain ⟨item, present, named⟩ := List.mem_map.mp member
        rcases mem_insertMember present with same | present
        · subst same
          subst named
          exact lt_of_le_of_ne (not_lt.mp notBefore) (Ne.symm different)
        · exact named ▸ parts.1 item.1 (List.mem_map.mpr ⟨item, present, rfl⟩)

theorem lookup_insertMember [BEq κ] [LawfulBEq κ] (name : κ) (value : Json κ ν) (members : List (κ × Json κ ν))
    (wanted : κ) :
    (insertMember name value members).lookup wanted =
      if wanted = name then some value else members.lookup wanted := by
  induction members with
  | nil => simp [insertMember, lookup_cons_ite]
  | cons head rest ih =>
    obtain ⟨other, old⟩ := head
    simp only [insertMember]
    split
    · simp [lookup_cons_ite]
    · split
      · rename_i replaced
        subst replaced
        by_cases same : wanted = name <;> simp [lookup_cons_ite, same]
      · rename_i different
        by_cases found : wanted = other
        · subst found
          simp [Ne.symm different]
        · simp [lookup_cons_ite, found, ih]

/-- A member whose name follows all names of a sorted list lands at its end. -/
theorem insertMember_last {members : List (κ × Json κ ν)} (value : Json κ ν)
    (last : ∀ other ∈ members.map Prod.fst, other < name) :
    insertMember name value members = members ++ [(name, value)] := by
  induction members with
  | nil => rfl
  | cons head rest ih =>
    obtain ⟨other, old⟩ := head
    have before : other < name := last other (by simp)
    have later : ∀ next ∈ rest.map Prod.fst, next < name :=
      fun next member => last next (List.mem_cons_of_mem _ member)
    simp [insertMember, before.not_gt, before.ne', ih later]

/-- An object built member by member, as from a brace-enclosed list of pairs. -/
def objectOf (pairs : List (κ × Json κ ν)) : Json κ ν :=
  .object (pairs.foldl (fun members pair => insertMember pair.1 pair.2 members) [])

theorem sorted_foldl_insertMember (pairs : List (κ × Json κ ν)) {members : List (κ × Json κ ν)}
    (sorted : Sorted (members.map Prod.fst)) :
    Sorted ((pairs.foldl (fun members pair => insertMember pair.1 pair.2 members) members).map
      Prod.fst) := by
  induction pairs generalizing members with
  | nil => exact sorted
  | cons pair rest ih => exact ih (sorted_insertMember pair.2 sorted)

theorem mem_foldl_insertMember (pairs : List (κ × Json κ ν)) {members : List (κ × Json κ ν)}
    (member : item ∈ pairs.foldl (fun members pair => insertMember pair.1 pair.2 members) members) :
    item ∈ pairs ∨ item ∈ members := by
  induction pairs generalizing members with
  | nil => exact .inr member
  | cons pair rest ih =>
    rcases ih member with late | early
    · exact .inl (List.mem_cons_of_mem _ late)
    · rcases mem_insertMember early with same | old
      · exact .inl (same ▸ List.mem_cons_self ..)
      · exact .inr old

theorem all_objectOf {text : κ → Prop} {number : ν → Prop} {names : List κ → Prop}
    (sorted : ∀ others : List κ, Sorted others → (∀ name ∈ others, name ∈ pairs.map Prod.fst) →
      names others)
    (each : ∀ pair ∈ pairs, All text number names pair.2) :
    All text number names (objectOf pairs) := by
  refine .object (sorted _ (sorted_foldl_insertMember pairs (by simp [Sorted])) ?_) ?_
  · intro name member
    obtain ⟨item, present, named⟩ := List.mem_map.mp member
    have original := (mem_foldl_insertMember pairs present).resolve_right (by simp)
    exact List.mem_map.mpr ⟨item, original, named⟩
  · intro member present
    exact each member ((mem_foldl_insertMember pairs present).resolve_right (by simp))

private theorem lookup_foldl_insertMember [BEq κ] [LawfulBEq κ] (pairs members : List (κ × Json κ ν)) (wanted : κ) :
    (pairs.foldl (fun members pair => insertMember pair.1 pair.2 members) members).lookup wanted =
      (pairs.reverse.lookup wanted).or (members.lookup wanted) := by
  induction pairs generalizing members with
  | nil => simp
  | cons pair rest ih =>
    obtain ⟨name, value⟩ := pair
    rw [List.foldl_cons, ih, lookup_insertMember, List.reverse_cons, List.lookup_append,
      lookup_cons_ite, List.lookup_nil, Option.or_assoc]
    by_cases same : wanted = name <;> simp [same]

/-- Built from distinct names, an object holds every pair it was built from. -/
theorem mem_objectOf [BEq κ] [LawfulBEq κ] {pairs : List (κ × Json κ ν)}
    (distinct : (pairs.map Prod.fst).Nodup) (name : κ) (value : Json κ ν) (member : (name, value) ∈ pairs) :
    ∃ members, objectOf pairs = .object members ∧ members.lookup name = some value := by
  refine ⟨_, rfl, ?_⟩
  rw [lookup_foldl_insertMember]
  obtain ⟨before, after, found⟩ := List.append_of_mem (List.mem_reverse.mpr member)
  have unique : (pairs.reverse.map Prod.fst).Nodup := by
    rw [List.map_reverse]
    exact List.nodup_reverse.mpr distinct
  rw [found, List.map_append, List.map_cons, List.nodup_middle, List.nodup_cons] at unique
  have first : before.lookup name = none := by
    rw [List.lookup_eq_none_iff]
    intro other inside
    have present : other.1 ∈ before.map Prod.fst := List.mem_map_of_mem inside
    have different : name ≠ other.1 := fun same => unique.1 (List.mem_append_left _ (same ▸ present))
    simpa using different
  rw [found, List.lookup_append, first]
  simp

end Members

end Json

end Charybdis.Foundation
