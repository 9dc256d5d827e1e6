import Charybdis.Foundation.Dictionary

/-! Directory trees with symbolic links, and how a path is walked through one: name by name,
with the target of a link in place of its name, and only so many links on one way. -/

namespace Charybdis.Foundation

universe u

/-- What a segment of a path does. -/
inductive Segment where
  | stays
  | climbs
  | names
  deriving DecidableEq

inductive Node (σ : Type u) where
  | directory
  | file
  | link (absolute : Bool) (target : List σ)
  deriving DecidableEq

/-- A tree by the physical paths of its nodes; the root is not listed. What a node stands
in is a directory. -/
structure FileTree {σ : Type u} [DecidableEq σ] (kind : σ → Segment) where
  nodes : Dict (List σ) (Node σ)
  named : ∀ entry ∈ nodes.entries, entry.1 ≠ [] ∧ ∀ segment ∈ entry.1, kind segment = .names
  parents : ∀ entry ∈ nodes.entries, entry.1.dropLast ≠ [] → nodes.get? entry.1.dropLast = some .directory

/-- Where one segment leads: to a place, or to a link that is to be followed from a place. -/
inductive Move (σ : Type u) where
  | reach (place : List σ)
  | follow (start target : List σ)

/-- Where a segment leads from a place. -/
abbrev Look (σ : Type u) := List σ → σ → Option (Move σ)

/-- The walks that arrive, from the place and with the number of links they begin with. -/
inductive Walked {σ : Type u} (look : Look σ) (final : List σ) (left : Nat) : Nat → List σ → List σ → Prop
  | done : Walked look final left left final []
  | reach (move : look place first = some (.reach next)) (onward : Walked look final left links next rest) :
      Walked look final left links place (first :: rest)
  | follow (move : look place first = some (.follow start target))
      (onward : Walked look final left links start (target ++ rest)) :
      Walked look final left (links + 1) place (first :: rest)

section Walk

variable {σ : Type u} {look other : Look σ} {place final middle start target segments rest : List σ} {segment : σ}
  {links left : Nat}

/-- The walk up to its first link. -/
def walkWith (jump : List σ → List σ → Option (List σ × Nat)) (look : Look σ) (links : Nat) (place : List σ) :
    List σ → Option (List σ × Nat)
  | [] => some (place, links)
  | segment :: rest =>
    match look place segment with
    | none => none
    | some (.reach next) => walkWith jump look links next rest
    | some (.follow start target) => jump start (target ++ rest)

/-- A walk that may follow so many links: where it ends, and how many it may still follow. -/
def walk (look : Look σ) : Nat → List σ → List σ → Option (List σ × Nat)
  | 0 => walkWith (fun _ _ => none) look 0
  | links + 1 => walkWith (walk look links) look (links + 1)

@[simp] theorem walk_nil : walk look links place [] = some (place, links) := by
  cases links <;> rfl

theorem walk_reach {next : List σ} (move : look place segment = some (.reach next)) :
    walk look links place (segment :: rest) = walk look links next rest := by
  cases links <;> simp only [walk, walkWith, move]

theorem walk_follow (move : look place segment = some (.follow start target)) :
    walk look (links + 1) place (segment :: rest) = walk look links start (target ++ rest) := by
  simp only [walk, walkWith, move]

theorem Walked.walk (walked : Walked look final left links place segments) :
    walk look links place segments = some (final, left) := by
  induction walked with
  | done => exact walk_nil
  | reach move _ ih => rwa [walk_reach move]
  | follow move _ ih => rwa [walk_follow move]

private theorem walked_first (jump : List σ → List σ → Option (List σ × Nat))
    (jumped : ∀ {place segments}, jump place segments = some (final, left) →
      ∃ fewer, links = fewer + 1 ∧ Walked look final left fewer place segments)
    (arrives : walkWith jump look links place segments = some (final, left)) :
    Walked look final left links place segments := by
  induction segments generalizing place with
  | nil =>
    cases arrives
    exact .done
  | cons segment rest ih =>
    unfold walkWith at arrives
    cases move : look place segment with
    | none => simp [move] at arrives
    | some step =>
      simp only [move] at arrives
      cases step with
      | reach next => exact .reach move (ih arrives)
      | follow start target =>
        obtain ⟨fewer, same, onward⟩ := jumped arrives
        subst same
        exact .follow move onward

theorem walk_iff : walk look links place segments = some (final, left) ↔
    Walked look final left links place segments := by
  refine ⟨fun arrives => ?_, Walked.walk⟩
  induction links generalizing place segments with
  | zero => exact walked_first (fun _ _ => none) (fun impossible => by cases impossible) arrives
  | succ fewer ih => exact walked_first (Foundation.walk look fewer) (fun went => ⟨fewer, rfl, ih went⟩) arrives

theorem walk_append (first second : List σ) : walk look links place (first ++ second) =
    (walk look links place first).bind fun reached => walk look reached.2 reached.1 second := by
  induction links generalizing place first with
  | zero =>
    induction first generalizing place with
    | nil => simp
    | cons segment rest ih =>
      cases move : look place segment with
      | none => simp [walk, walkWith, move]
      | some step =>
        cases step with
        | reach next => rw [List.cons_append, walk_reach move, walk_reach move, ih]
        | follow start target => simp [walk, walkWith, move]
  | succ fewer more =>
    induction first generalizing place with
    | nil => simp
    | cons segment rest ih =>
      cases move : look place segment with
      | none => simp [walk, walkWith, move]
      | some step =>
        cases step with
        | reach next => rw [List.cons_append, walk_reach move, walk_reach move, ih]
        | follow start target =>
          rw [List.cons_append, walk_follow move, walk_follow move, ← List.append_assoc, more]

theorem walk_append_of (first : walk look links place segments = some (middle, left)) (second : List σ) :
    walk look links place (segments ++ second) = walk look left middle second := by
  rw [walk_append, first]
  rfl

theorem Walked.more (walked : Walked look final left links place segments) (extra : Nat) :
    Walked look final (left + extra) (links + extra) place segments := by
  induction walked with
  | done => exact .done
  | reach move _ ih => exact .reach move ih
  | follow move _ ih =>
    rw [Nat.add_right_comm]
    exact .follow move ih

theorem Walked.left_le (walked : Walked look final left links place segments) : left ≤ links := by
  induction walked with
  | done => exact le_rfl
  | reach _ _ ih => exact ih
  | follow _ _ ih => exact ih.trans (Nat.le_succ _)

/-- What one way of looking finds, another finds that refuses less. -/
theorem Walked.refines (refines : ∀ place segment move, look place segment = some move →
    other place segment = some move) (walked : Walked look final left links place segments) :
    Walked other final left links place segments := by
  induction walked with
  | done => exact .done
  | reach move _ ih => exact .reach (refines _ _ _ move) ih
  | follow move _ ih => exact .follow (refines _ _ _ move) ih

end Walk

namespace FileTree

variable {σ : Type u} [DecidableEq σ] {kind : σ → Segment} (tree : FileTree kind)

def node (path : List σ) : Option (Node σ) := if path = [] then some .directory else tree.nodes.get? path

/-- A node that exists is gone to, a link is followed from its directory or from the root. -/
def moveTo (place : List σ) (segment : σ) : Node σ → Move σ
  | .link absolute target => .follow (if absolute then [] else place) target
  | _ => .reach (place ++ [segment])

/-- How the kernel looks a segment up: in a directory, and only what exists. -/
def look (place : List σ) (segment : σ) : Option (Move σ) :=
  if tree.node place = some .directory then
    match kind segment with
    | .stays => some (.reach place)
    | .climbs => some (.reach place.dropLast)
    | .names => (tree.node (place ++ [segment])).map (moveTo place segment)
  else none

/-- How a segment is looked up where nothing needs to exist. -/
def lookMissing (place : List σ) (segment : σ) : Option (Move σ) :=
  match kind segment with
  | .stays => some (.reach place)
  | .climbs => some (.reach place.dropLast)
  | .names => some (((tree.node (place ++ [segment])).map (moveTo place segment)).getD (.reach (place ++ [segment])))

variable {tree} {place path names segments final : List σ} {segment name : σ} {links left : Nat}

theorem look_refines (place : List σ) (segment : σ) (move : Move σ) (found : tree.look place segment = some move) :
    tree.lookMissing place segment = some move := by
  unfold look at found
  split at found
  · unfold lookMissing
    cases step : kind segment with
    | stays => simpa only [step] using found
    | climbs => simpa only [step] using found
    | names =>
      simp only [step] at found
      simp only [found, Option.getD_some]
  · cases found

private theorem lookMissing_cases {move : Move σ} (found : tree.lookMissing place segment = some move) :
    (∃ next, move = .reach next ∧ ∀ name ∈ next, name ∈ place ∨ name = segment) ∨
    (∃ start target path absolute, move = .follow start target ∧ tree.node path = some (.link absolute target) ∧
      ∀ name ∈ start, name ∈ place) := by
  have further : ∀ name ∈ place ++ [segment], name ∈ place ∨ name = segment := by simp
  unfold lookMissing at found
  cases step : kind segment with
  | stays =>
    simp only [step, Option.some.injEq] at found
    exact .inl ⟨place, found.symm, fun name member => .inl member⟩
  | climbs =>
    simp only [step, Option.some.injEq] at found
    exact .inl ⟨place.dropLast, found.symm, fun name member => .inl (List.mem_of_mem_dropLast member)⟩
  | names =>
    simp only [step, Option.some.injEq] at found
    cases kept : tree.node (place ++ [segment]) with
    | none => exact .inl ⟨_, by simpa [kept] using found.symm, further⟩
    | some node =>
      cases node with
      | directory | file => exact .inl ⟨_, by simpa [kept, moveTo] using found.symm, further⟩
      | link absolute target =>
        refine .inr ⟨_, target, _, absolute, by simpa [kept, moveTo] using found.symm, kept, ?_⟩
        cases absolute <;> simp

/-- A property of all names and of all segments of links is one of every place a walk leads to. -/
theorem walked_forall {good : σ → Prop} (targets : ∀ path absolute target, tree.node path = some (.link absolute target) →
      ∀ segment ∈ target, good segment)
    (walked : Walked tree.lookMissing final left links place segments) (here : ∀ name ∈ place, good name)
    (ahead : ∀ segment ∈ segments, good segment) : ∀ name ∈ final, good name := by
  induction walked with
  | done => exact here
  | reach move _ ih =>
    obtain ⟨own, rest⟩ := List.forall_mem_cons.mp ahead
    obtain ⟨next, same, known⟩ | ⟨_, _, _, _, other, _⟩ := lookMissing_cases move
    · cases same
      exact ih (fun name member => (known name member).elim (here name) fun same => same ▸ own) rest
    · cases other
  | follow move _ ih =>
    obtain ⟨_, rest⟩ := List.forall_mem_cons.mp ahead
    obtain ⟨_, other, _⟩ | ⟨start, target, path, absolute, same, link, known⟩ := lookMissing_cases move
    · cases other
    · cases same
      exact ih (fun name member => here name (known name member)) fun segment member =>
        (List.mem_append.mp member).elim (targets _ _ _ link segment) (rest segment)

theorem named_of_node (found : tree.node path = some kept) : ∀ segment ∈ path, kind segment = .names := by
  unfold node at found
  split at found
  · subst path
    exact fun segment member => by cases member
  · exact (tree.named _ (tree.nodes.mem_entries_iff.mpr found)).2

private theorem directory_above (found : tree.node (path ++ [name]) = some kept) : tree.node path = some .directory := by
  rw [node, if_neg (by simp)] at found
  have above := tree.parents _ (tree.nodes.mem_entries_iff.mpr found)
  rw [List.dropLast_concat] at above
  unfold node
  split
  · rfl
  · rename_i nonempty
    exact above nonempty

/-- Everything on the way to a node is a directory. -/
theorem physical (found : tree.node (path ++ names) = some kept) (further : names ≠ []) :
    tree.node path = some .directory := by
  induction names using List.reverseRecOn generalizing kept with
  | nil => exact absurd rfl further
  | append_singleton front name ih =>
    rw [← List.append_assoc] at found
    have above := directory_above found
    cases front with
    | nil => rwa [List.append_nil] at above
    | cons first rest => exact ih above (by simp)

theorem look_name (directory : tree.node place = some .directory) (named : kind name = .names) :
    tree.look place name = (tree.node (place ++ [name])).map (moveTo place name) := by
  unfold look
  rw [if_pos directory, named]

theorem walk_physical (directory : tree.node (place ++ path) = some .directory) :
    walk tree.look links place path = some (place ++ path, links) := by
  induction path generalizing place with
  | nil => rw [walk_nil, List.append_nil]
  | cons name rest ih =>
    have here : tree.node place = some .directory := physical directory (by simp)
    have named : kind name = .names := named_of_node directory name (by simp)
    rw [List.append_cons] at directory ⊢
    have next : tree.node (place ++ [name]) = some .directory := by
      cases rest with
      | nil => rwa [List.append_nil] at directory
      | cons second later => exact physical directory (by simp)
    have move : tree.look place name = some (.reach (place ++ [name])) := by
      rw [look_name here named, next]
      rfl
    rw [walk_reach move]
    exact ih directory

/-- The last name of a walk: it was looked up in the directory the others led to. -/
theorem walk_concat (arrives : walk tree.look links place (names ++ [name]) = some (final, left)) :
    ∃ middle between, walk tree.look links place names = some (middle, between) ∧
      walk tree.look between middle [name] = some (final, left) := by
  rw [walk_append] at arrives
  obtain ⟨⟨middle, between⟩, first, second⟩ := Option.bind_eq_some_iff.mp arrives
  exact ⟨middle, between, first, second⟩

/-- A name leads to the node itself, or along the link that it is. -/
theorem walked_name (named : kind name = .names) (walked : Walked tree.look final left links place [name]) :
    tree.node place = some .directory ∧
      ((∀ absolute target, tree.node (place ++ [name]) ≠ some (.link absolute target)) ∧ final = place ++ [name] ∨
      ∃ absolute target fewer, tree.node (place ++ [name]) = some (.link absolute target) ∧ links = fewer + 1 ∧
        Walked tree.look final left fewer (if absolute then [] else place) target) := by
  have directory : tree.node place = some .directory := by
    by_contra missing
    have refused : tree.look place name = none := if_neg missing
    cases walked with
    | reach move _ => cases refused.symm.trans move
    | follow move _ => cases refused.symm.trans move
  refine ⟨directory, ?_⟩
  cases walked with
  | reach move onward =>
    left
    rw [look_name directory named] at move
    obtain ⟨kept, found, went⟩ := Option.map_eq_some_iff.mp move
    cases onward
    cases kept with
    | link absolute target => cases went
    | directory | file =>
      cases went
      refine ⟨fun absolute target link => ?_, rfl⟩
      cases found.symm.trans link
  | follow move onward =>
    right
    rw [look_name directory named] at move
    obtain ⟨kept, found, went⟩ := Option.map_eq_some_iff.mp move
    cases kept with
    | link absolute goal =>
      cases went
      rw [List.append_nil] at onward
      exact ⟨absolute, _, _, found, rfl, onward⟩
    | directory => cases went
    | file => cases went

end FileTree

end Charybdis.Foundation
