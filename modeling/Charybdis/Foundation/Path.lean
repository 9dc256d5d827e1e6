import Mathlib

/-! Paths as lists of segments: what remains of a path once the segments that stay and the
segments that climb are resolved. -/

namespace Charybdis.Foundation.Path

variable {α : Type} [DecidableEq α] (here up : List α)

/-- One segment further: an empty one and the one for `here` stay, the one for `up` climbs, but
not above the root. -/
def enter (dir : List (List α)) (segment : List α) : List (List α) :=
  if segment = [] ∨ segment = here then dir else if segment = up then dir.dropLast else dir ++ [segment]

def descend (dir segments : List (List α)) : List (List α) := segments.foldl (enter here up) dir

variable {here up}

theorem descend_append (dir first second : List (List α)) :
    descend here up dir (first ++ second) = descend here up (descend here up dir first) second :=
  List.foldl_append

theorem descend_cons (dir segments : List (List α)) (segment : List α) :
    descend here up dir (segment :: segments) = descend here up (enter here up dir segment) segments := rfl

theorem descend_nil_cons (dir segments : List (List α)) :
    descend here up dir ([] :: segments) = descend here up dir segments := by
  simp [descend, enter]

/-- Without a segment that climbs, a path stays below where it starts. -/
theorem prefix_descend {segments : List (List α)} (level : up ∉ segments) (dir : List (List α)) :
    dir <+: descend here up dir segments := by
  induction segments generalizing dir with
  | nil => exact List.prefix_refl dir
  | cons segment segments ih =>
    rw [List.mem_cons, not_or] at level
    refine List.IsPrefix.trans ?_ (ih level.2 (enter here up dir segment))
    by_cases stays : segment = [] ∨ segment = here
    · simp [enter, stays]
    · simp [enter, stays, Ne.symm level.1]

theorem descend_ne_nil {segments : List (List α)} (level : up ∉ segments)
    (proper : ∃ segment ∈ segments, segment ≠ [] ∧ segment ≠ here) (dir : List (List α)) :
    descend here up dir segments ≠ [] := by
  obtain ⟨segment, member, full, moves⟩ := proper
  obtain ⟨first, rest, rfl⟩ := List.append_of_mem member
  rw [List.mem_append, List.mem_cons, not_or, not_or] at level
  have entered : enter here up (descend here up dir first) segment = descend here up dir first ++ [segment] := by
    simp [enter, full, moves, Ne.symm level.2.1]
  have kept : descend here up dir first ++ [segment] <+: descend here up (descend here up dir first ++ [segment]) rest :=
    prefix_descend level.2.2 _
  rw [descend_append, descend_cons, entered]
  intro root
  rw [root, List.prefix_nil] at kept
  simp at kept

end Charybdis.Foundation.Path
