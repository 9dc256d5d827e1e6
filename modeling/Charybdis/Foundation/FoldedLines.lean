import Mathlib

/-! Texts put together from lines. A line break between two lines with content may fold to a
space; the folded text is the plain one, trailing newlines apart, exactly when nothing folds. -/

namespace Charybdis.Foundation

/-- A point outside of the class keeps everything before it. -/
theorem rdropWhile_append_solid {α : Type} {inClass : α → Bool} {point : α} (solid : inClass point = false)
    (front rest : List α) :
    (front ++ point :: rest).rdropWhile inClass = front ++ point :: rest.rdropWhile inClass := by
  induction rest using List.reverseRecOn with
  | nil => rw [List.rdropWhile_concat_neg _ _ _ (by simp [solid]), List.rdropWhile_nil]
  | append_singleton rest last ih =>
    by_cases inside : inClass last = true
    · rw [← List.cons_append, ← List.append_assoc, List.rdropWhile_concat_pos _ _ _ inside, ih,
        List.rdropWhile_concat_pos _ _ _ inside]
    · rw [← List.cons_append, ← List.append_assoc, List.rdropWhile_concat_neg _ _ _ inside,
        List.rdropWhile_concat_neg _ _ _ inside, List.append_assoc, List.cons_append]

section FoldedLines

variable {α : Type} [DecidableEq α] (newline space : α) (folds : List α → List α → Bool)

/-- A text without its trailing newlines. -/
def chomp (text : List α) : List α := text.rdropWhile (· = newline)

/-- What stands between two lines with content and the empty lines between them. A break that
folds gives its place to a space, or to the empty lines. -/
def lineBreak (folding : Bool) (empties : Nat) : List α :=
  if folding then
    if empties = 0 then [space] else List.replicate empties newline
  else List.replicate (empties + 1) newline

/-- What stands before a line with content; leading empty lines are newlines. -/
def openingBreak (line : List α) (empties : Nat) : Option (List α) → List α
  | none => List.replicate empties newline
  | some last => lineBreak newline space (folds last line) empties

/-- The text of lines behind the last line with content, if there is one, and the empty lines
since. -/
def foldedFrom : Option (List α) → Nat → List (List α) → List α
  | _, empties, [] => List.replicate empties newline
  | before, empties, line :: rest =>
    if line = [] then foldedFrom before (empties + 1) rest
    else openingBreak newline space folds line empties before ++ line ++ foldedFrom (some line) 0 rest

def foldedLines (lines : List (List α)) : List α := foldedFrom newline space folds none 0 lines

variable {newline space folds}

omit [DecidableEq α] in
private theorem last_solid {line : List α} (full : line ≠ []) (clean : newline ∉ line) :
    ∃ front point, line = front ++ [point] ∧ point ≠ newline := by
  obtain ⟨front, point, rfl⟩ := (List.eq_nil_or_concat' line).resolve_left full
  refine ⟨front, point, rfl, ?_⟩
  rintro rfl
  simp at clean

theorem chomp_append_line {line : List α} (full : line ≠ []) (clean : newline ∉ line) (front rest : List α) :
    chomp newline (front ++ line ++ rest) = front ++ line ++ chomp newline rest := by
  obtain ⟨start, point, rfl, solid⟩ := last_solid full clean
  have kept : chomp newline (front ++ start ++ point :: rest) = front ++ start ++ point :: chomp newline rest := by
    unfold chomp
    rw [rdropWhile_append_solid]
    exact decide_eq_false solid
  simpa using kept

@[simp] theorem chomp_replicate (count : Nat) : chomp newline (List.replicate count newline) = [] := by
  refine List.rdropWhile_eq_nil_iff.mpr fun point member => ?_
  rw [List.eq_of_mem_replicate member]
  simp

theorem chomp_foldedFrom_nil {lines : List (List α)} (clean : ∀ line ∈ lines, newline ∉ line)
    (before : Option (List α)) (empties : Nat) :
    chomp newline (foldedFrom newline space folds before empties lines) = [] ↔ ∀ line ∈ lines, line = [] := by
  induction lines generalizing empties with
  | nil => simp [foldedFrom]
  | cons line rest ih =>
    obtain ⟨own, others⟩ := List.forall_mem_cons.mp clean
    rw [foldedFrom, List.forall_mem_cons]
    by_cases empty : line = []
    · rw [if_pos empty, ih others]
      simp [empty]
    · rw [if_neg empty, chomp_append_line empty own]
      simp [empty]

omit [DecidableEq α] in
private theorem lineBreak_ne {line : List α} (distinct : space ≠ newline) (full : line ≠ []) (clean : newline ∉ line)
    (empties : Nat) (rest tail : List α) :
    lineBreak newline space false empties ++ line ++ rest ≠ lineBreak newline space true empties ++ line ++ tail := by
  intro same
  simp only [lineBreak, Bool.false_eq_true, ↓reduceIte] at same
  split at same
  · rename_i none
    subst none
    exact distinct (List.cons.inj same).1.symm
  · rw [List.replicate_succ', List.append_assoc, List.append_assoc, List.append_assoc,
      List.append_cancel_left_eq] at same
    obtain ⟨point, later, rfl⟩ := List.exists_cons_of_ne_nil full
    exact clean ((List.cons.inj same).1 ▸ List.mem_cons_self)

/-- The plain text of the first lines is the folded text of all of them, trailing newlines apart,
exactly when the others are empty and no two neighbours among the first fold. -/
theorem chomp_foldedFrom_iff (distinct : space ≠ newline) {front back : List (List α)}
    (clean : ∀ line ∈ front, newline ∉ line) (cleanToo : ∀ line ∈ back, newline ∉ line)
    (before : Option (List α)) (empties : Nat) :
    chomp newline (foldedFrom newline space (fun _ _ => false) before empties front) =
        chomp newline (foldedFrom newline space folds before empties (front ++ back)) ↔
      (∀ line ∈ back, line = []) ∧
        (before.toList ++ front.filter (· ≠ [])).IsChain fun last line => folds last line = false := by
  induction front generalizing before empties with
  | nil =>
    have alone : before.toList.IsChain fun last line => folds last line = false := by cases before <;> simp
    rw [foldedFrom, chomp_replicate, List.nil_append, eq_comm, chomp_foldedFrom_nil cleanToo]
    simp [alone]
  | cons line rest ih =>
    obtain ⟨own, others⟩ := List.forall_mem_cons.mp clean
    rw [List.cons_append, foldedFrom, foldedFrom]
    by_cases empty : line = []
    · rw [if_pos empty, if_pos empty, ih others]
      simp [empty]
    · rw [if_neg empty, if_neg empty, chomp_append_line empty own, chomp_append_line empty own]
      cases before with
      | none =>
        rw [openingBreak, openingBreak, List.append_cancel_left_eq, ih others]
        simp [empty]
      | some last =>
        rw [openingBreak, openingBreak]
        cases folding : folds last line with
        | true =>
          refine iff_of_false (lineBreak_ne distinct empty own empties _ _) ?_
          simp [empty, folding]
        | false =>
          rw [List.append_cancel_left_eq, ih others]
          simp [empty, folding]

/-! ### Lines joined by newlines -/

omit [DecidableEq α] in
theorem intercalate_cons (line : List α) (rest : List (List α)) :
    [newline].intercalate (line :: rest) = line ++ rest.flatMap (newline :: ·) := by
  induction rest generalizing line with
  | nil => simp
  | cons next rest ih =>
    rw [List.intercalate_cons_cons, ih, List.flatMap_cons]
    simp

omit [DecidableEq α] in
private theorem foldedFrom_some (last : List α) (empties : Nat) (lines : List (List α)) :
    foldedFrom newline space (fun _ _ => false) (some last) empties lines =
      List.replicate empties newline ++ lines.flatMap (newline :: ·) := by
  induction lines generalizing last empties with
  | nil => simp [foldedFrom]
  | cons line rest ih =>
    rw [foldedFrom, List.flatMap_cons]
    by_cases empty : line = []
    · rw [if_pos empty, ih, empty, List.replicate_succ']
      simp
    · rw [if_neg empty, ih, openingBreak, lineBreak, List.replicate_succ']
      simp

private theorem chomp_foldedFrom_plain (newline space : α) (empties : Nat) (lines : List (List α)) :
    chomp newline (foldedFrom newline space (fun _ _ => false) none empties lines) =
      chomp newline (List.replicate empties newline ++ [newline].intercalate lines) := by
  induction lines generalizing empties with
  | nil => simp [foldedFrom]
  | cons line rest ih =>
    rw [foldedFrom]
    by_cases empty : line = []
    · rw [if_pos empty, ih, empty]
      cases rest with
      | nil => simp
      | cons next rest =>
        rw [List.intercalate_cons_cons, List.replicate_succ']
        simp
    · rw [if_neg empty, foldedFrom_some, intercalate_cons, openingBreak]
      simp

theorem chomp_foldedLines_plain (newline space : α) (lines : List (List α)) :
    chomp newline (foldedLines newline space (fun _ _ => false) lines) =
      chomp newline ([newline].intercalate lines) := by
  rw [foldedLines, chomp_foldedFrom_plain, List.replicate_zero, List.nil_append]

theorem chomp_intercalate_nil {lines : List (List α)} (clean : ∀ line ∈ lines, newline ∉ line) :
    chomp newline ([newline].intercalate lines) = [] ↔ ∀ line ∈ lines, line = [] := by
  rw [← chomp_foldedLines_plain newline newline, foldedLines, chomp_foldedFrom_nil clean]

section Joined

variable {front back : List (List α)} (distinct : space ≠ newline) (clean : ∀ line ∈ front, newline ∉ line)
  (cleanToo : ∀ line ∈ back, newline ∉ line)
include distinct clean cleanToo

theorem chomp_foldedLines_iff :
    chomp newline ([newline].intercalate front) = chomp newline (foldedLines newline space folds (front ++ back)) ↔
      (∀ line ∈ back, line = []) ∧
        (front.filter (· ≠ [])).IsChain fun last line => folds last line = false := by
  rw [← chomp_foldedLines_plain newline space, foldedLines, foldedLines, chomp_foldedFrom_iff distinct clean cleanToo]
  rfl

/-- The first lines make the whole text, trailing newlines apart, when the others are empty. -/
theorem chomp_intercalate_iff :
    chomp newline ([newline].intercalate front) = chomp newline ([newline].intercalate (front ++ back)) ↔
      ∀ line ∈ back, line = [] := by
  rw [← chomp_foldedLines_plain newline space (front ++ back), chomp_foldedLines_iff distinct clean cleanToo]
  exact and_iff_left (List.Pairwise.isChain (List.pairwise_of_forall fun _ _ => rfl))

end Joined

end FoldedLines

end Charybdis.Foundation
