import Charybdis.Foundation.FoldedLines
import Charybdis.Stub.Python

/-! The text functions of Python that the merge-queue policy test reads workflows with. -/

namespace Charybdis.Policy

open Foundation (rdropWhile_append_solid)
open Stub (PyStr py)

/-- The exceptions a reader of a workflow can end in. -/
inductive PolicyError where
  | valueError
  | stopIteration
  | assertionError
  deriving DecidableEq

theorem ok_of_bind {α β : Type} {first : Except PolicyError α} {next : α → Except PolicyError β} {last : β}
    (done : (first >>= next) = .ok last) : ∃ value, first = .ok value ∧ next value = .ok last := by
  cases first with
  | error error => cases done
  | ok value => exact ⟨value, rfl, done⟩

/-- `str.isspace` of one code point, which is also the `\s` of a pattern. -/
def isSpace (point : Nat) : Bool :=
  (0x09 ≤ point && point ≤ 0x0d) || (0x1c ≤ point && point ≤ 0x20) || point == 0x85 || point == 0xa0 ||
    point == 0x1680 || (0x2000 ≤ point && point ≤ 0x200a) || point == 0x2028 || point == 0x2029 ||
    point == 0x202f || point == 0x205f || point == 0x3000

def lstrip (text : PyStr) : PyStr := text.dropWhile isSpace

def rstrip (text : PyStr) : PyStr := text.rdropWhile isSpace

def strip (text : PyStr) : PyStr := rstrip (lstrip text)

theorem mem_dropWhile {α : Type} {inClass : α → Bool} {items : List α} {item : α} (member : item ∈ items)
    (outside : inClass item = false) : item ∈ items.dropWhile inClass := by
  have whole := List.takeWhile_append_dropWhile (p := inClass) (l := items)
  rw [← whole] at member
  rcases List.mem_append.mp member with inside | later
  · rw [List.mem_takeWhile_imp inside] at outside
    cases outside
  · exact later

theorem lstrip_append {front : PyStr} (blank : ∀ point ∈ front, isSpace point = true) (rest : PyStr) :
    lstrip (front ++ rest) = lstrip rest :=
  List.dropWhile_append_of_pos blank

theorem lstrip_solid (solid : isSpace point = false) (rest : PyStr) : lstrip (point :: rest) = point :: rest := by
  simp [lstrip, solid]

/-- Stripping leaves nothing of a text without a solid point, and otherwise starts at the first. -/
theorem strip_cases (text : PyStr) :
    (lstrip text = [] ∧ strip text = []) ∨
      ∃ point rest, isSpace point = false ∧ lstrip text = point :: rest ∧ strip text = point :: rstrip rest := by
  cases found : lstrip text with
  | nil => exact .inl ⟨rfl, by simp [strip, found, rstrip]⟩
  | cons point rest =>
    have solid : isSpace point = false := by
      have first := List.head?_dropWhile_not isSpace text
      rw [show text.dropWhile isSpace = point :: rest from found] at first
      simpa using first
    exact .inr ⟨point, rest, solid, rfl, by rw [strip, found]; exact rdropWhile_append_solid solid [] rest⟩

theorem rstrip_strip (text : PyStr) : rstrip (strip text) = strip text := List.rdropWhile_idempotent ..

theorem strip_concat_solid (solid : isSpace point = false) (text : PyStr) :
    strip (text ++ [point]) = lstrip text ++ [point] := by
  have kept : lstrip (text ++ [point]) = lstrip text ++ [point] := by
    unfold lstrip
    rw [List.dropWhile_append]
    split
    · rename_i empty
      rw [List.isEmpty_iff.mp empty]
      simp [solid]
    · rfl
  rw [strip, kept]
  exact List.rdropWhile_concat_neg _ _ _ (by simp [solid])

theorem strip_getLast (last : (strip text).getLast? = some point) : isSpace point = false := by
  have full : (lstrip text).rdropWhile isSpace ≠ [] := by
    intro empty
    rw [strip, rstrip, empty] at last
    cases last
  have solid := List.rdropWhile_last_not isSpace (lstrip text) full
  rw [strip, rstrip, List.getLast?_eq_getLast_of_ne_nil full] at last
  simpa [Option.some.inj last] using solid

theorem strip_between {lead text behind : PyStr} (before : ∀ point ∈ lead, isSpace point = true)
    (after : ∀ point ∈ behind, isSpace point = true) (full : text ≠ []) (stripped : strip text = text) :
    strip (lead ++ (text ++ behind)) = text := by
  obtain ⟨front, last, ends⟩ := (List.eq_nil_or_concat' text).resolve_left full
  have solid : isSpace last = false := by
    have final : (strip text).getLast? = some last := by rw [stripped, ends, List.getLast?_concat]
    exact strip_getLast final
  have opened : lstrip (text ++ behind) = text ++ behind := by
    rcases strip_cases text with ⟨-, empty⟩ | ⟨point, rest, dark, -, same⟩
    · exact absurd (stripped.symm.trans empty) full
    · rw [← stripped, same]
      exact lstrip_solid dark _
  have gone : behind.rdropWhile isSpace = [] := List.rdropWhile_eq_nil_iff.mpr after
  calc strip (lead ++ (text ++ behind)) = rstrip (text ++ behind) := by rw [strip, lstrip_append before, opened]
    _ = rstrip (front ++ last :: behind) := by rw [ends, List.append_assoc]; rfl
    _ = text := by rw [rstrip, rdropWhile_append_solid solid, gone, ends]

/-- `text.strip("'\"")`. -/
def stripQuotes (text : PyStr) : PyStr :=
  let quote (point : Nat) : Bool := point == 0x27 || point == 0x22
  (text.dropWhile quote).rdropWhile quote

def startsWith (start text : PyStr) : Bool := start.isPrefixOf text

def endsWith (ending text : PyStr) : Bool := ending.isSuffixOf text

theorem endsWith_point {point : Nat} {text : PyStr} :
    endsWith [point] text = true ↔ text.getLast? = some point := by
  rw [endsWith, List.isSuffixOf_iff_suffix, List.singleton_suffix_iff_getLast?_eq_some]

/-- `part in text`. -/
def contains (part : PyStr) : PyStr → Bool
  | [] => part.isEmpty
  | point :: rest => part.isPrefixOf (point :: rest) || contains part rest

theorem contains_iff {part text : PyStr} : contains part text = true ↔ part <:+: text := by
  induction text with
  | nil => simp [contains]
  | cons point rest ih => simp [contains, ih, List.infix_cons_iff]

/-- `text.split(separator)` for a separator of one point. -/
def split (separator : Nat) (text : PyStr) : List PyStr :=
  text.splitOnP (· == separator)

/-- A blank inside of a line of YAML or of the shell. -/
def isBlank (point : Nat) : Bool := point == 0x20 || point == 0x09

theorem isSpace_of_isBlank {point : Nat} (blank : isBlank point = true) : isSpace point = true := by
  simp only [isBlank, Bool.or_eq_true, beq_iff_eq] at blank
  rcases blank with rfl | rfl <;> rfl

/-- The end of a line of YAML: blanks and, apart from what stands before them, a comment. -/
def IsTrailer (piece : PyStr) : Prop :=
  piece.all isBlank = true ∨ ∃ gap comment, piece = gap ++ 0x23 :: comment ∧ gap ≠ [] ∧ gap.all isBlank = true

def indentation (line : PyStr) : Nat := (line.takeWhile (· == 0x20)).length

/-! ### Lines -/

/-- The line boundaries of `str.splitlines`, `\r\n` apart. -/
def isLineBreak (point : Nat) : Bool :=
  (0x0a ≤ point && point ≤ 0x0d) || (0x1c ≤ point && point ≤ 0x1e) || point == 0x85 || point == 0x2028 ||
    point == 0x2029

/-- The lines of a text behind the part of a line that is already read, last point first. -/
def splitlinesFrom (line : PyStr) : PyStr → List PyStr
  | [] => if line.isEmpty then [] else [line.reverse]
  | point :: rest =>
    -- `\r\n` is one boundary: the line ends at the `\n`
    if point = 0x0d ∧ rest.head? = some 0x0a then splitlinesFrom line rest
    else if isLineBreak point then line.reverse :: splitlinesFrom [] rest
    else splitlinesFrom (point :: line) rest

def splitlines (text : PyStr) : List PyStr := splitlinesFrom [] text

example : splitlines (py "a\r\n\nb") = [py "a", [], py "b"] := by decide

theorem splitlines_unbroken {text line : PyStr} (member : line ∈ splitlines text) :
    ∀ point ∈ line, isLineBreak point = false := by
  suffices general : ∀ (text seen : PyStr), (∀ point ∈ seen, isLineBreak point = false) →
      ∀ line ∈ splitlinesFrom seen text, ∀ point ∈ line, isLineBreak point = false from
    general text [] (by simp) line member
  intro text
  induction text with
  | nil =>
    intro seen clean line member
    simp only [splitlinesFrom] at member
    split at member
    · cases member
    · rw [List.mem_singleton.mp member]
      simpa using clean
  | cons point rest ih =>
    intro seen clean line member
    simp only [splitlinesFrom] at member
    split at member
    · exact ih seen clean line member
    · split at member
      · rcases List.mem_cons.mp member with same | later
        · rw [same]
          simpa using clean
        · exact ih [] (by simp) line later
      · rename_i _ plain
        refine ih (point :: seen) ?_ line member
        simpa [plain] using clean

theorem newline_not_mem {text line : PyStr} (member : line ∈ splitlines text) : 0x0a ∉ line := by
  intro inside
  cases splitlines_unbroken member _ inside

/-- `separator.join(parts)`. -/
def join (separator : PyStr) : List PyStr → PyStr
  | [] => []
  | [part] => part
  | part :: next :: rest => part ++ separator ++ join separator (next :: rest)

theorem join_append (separator : PyStr) (front : List PyStr) {parts : List PyStr} (full : parts ≠ []) :
    join separator (front ++ parts) = front.flatMap (· ++ separator) ++ join separator parts := by
  induction front with
  | nil => rfl
  | cons part rest ih =>
    obtain ⟨next, later, same⟩ := List.exists_cons_of_ne_nil (show rest ++ parts ≠ [] by simp [full])
    rw [List.cons_append, same, join, ← same, ih]
    simp

/-- `"\n".join(lines)`. -/
def joinLines (lines : List PyStr) : PyStr := join [0x0a] lines

theorem joinLines_eq_intercalate (lines : List PyStr) : joinLines lines = [0x0a].intercalate lines := by
  unfold joinLines
  induction lines with
  | nil => rfl
  | cons line rest ih =>
    cases rest with
    | nil => rw [join, List.intercalate_singleton]
    | cons next rest => rw [join, ih, List.intercalate_cons_cons]

theorem joinLines_cons_cons (line next : PyStr) (rest : List PyStr) :
    joinLines (line :: next :: rest) = line ++ 0x0a :: joinLines (next :: rest) := by
  simp [joinLines, join]

theorem split_joinLines {lines : List PyStr} (clean : ∀ line ∈ lines, 0x0a ∉ line) (full : lines ≠ []) :
    split 0x0a (joinLines lines) = lines := by
  rw [joinLines_eq_intercalate, split, ← List.splitOn_eq_splitOnP]
  exact List.splitOn_intercalate 0x0a clean full

theorem joinLines_inj {lines others : List PyStr} (clean : ∀ line ∈ lines, 0x0a ∉ line)
    (cleanToo : ∀ line ∈ others, 0x0a ∉ line) (full : lines ≠ []) (fullToo : others ≠ []) :
    joinLines lines = joinLines others ↔ lines = others := by
  refine ⟨fun same => ?_, fun same => by rw [same]⟩
  calc lines = split 0x0a (joinLines lines) := (split_joinLines clean full).symm
    _ = split 0x0a (joinLines others) := by rw [same]
    _ = others := split_joinLines cleanToo fullToo

/-- What reading back joined lines gives: an empty last line is no line. -/
def trimmed : List PyStr → List PyStr
  | [] => []
  | [line] => if line.isEmpty then [] else [line]
  | line :: next :: rest => line :: trimmed (next :: rest)

theorem trimmed_append_cons {line : PyStr} (full : line ≠ []) (before after : List PyStr) :
    trimmed (before ++ line :: after) = before ++ line :: trimmed after := by
  induction before with
  | nil =>
    cases after with
    | nil => simp [trimmed, full]
    | cons next rest => rfl
  | cons first rest ih =>
    cases rest with
    | nil => exact congrArg (first :: ·) ih
    | cons next rest => exact congrArg (first :: ·) ih

private theorem splitlinesFrom_plain (plain : isLineBreak point = false) (seen rest : PyStr) :
    splitlinesFrom seen (point :: rest) = splitlinesFrom (point :: seen) rest := by
  have solid : point ≠ 0x0d := by
    intro same
    rw [same] at plain
    cases plain
  rw [splitlinesFrom, if_neg (fun both => solid both.1), if_neg (by simp [plain])]

private theorem splitlinesFrom_line {line : PyStr} (clean : ∀ point ∈ line, isLineBreak point = false)
    (seen rest : PyStr) :
    splitlinesFrom seen (line ++ 0x0a :: rest) = (seen.reverse ++ line) :: splitlines rest := by
  induction line generalizing seen with
  | nil => simp [splitlinesFrom, isLineBreak, splitlines]
  | cons point line ih =>
    rw [List.cons_append, splitlinesFrom_plain (clean point List.mem_cons_self),
      ih (fun other member => clean other (List.mem_cons_of_mem _ member))]
    simp

private theorem splitlinesFrom_last {line : PyStr} (clean : ∀ point ∈ line, isLineBreak point = false)
    (seen : PyStr) :
    splitlinesFrom seen line = if (seen.reverse ++ line).isEmpty then [] else [seen.reverse ++ line] := by
  induction line generalizing seen with
  | nil => simp [splitlinesFrom]
  | cons point line ih =>
    rw [splitlinesFrom_plain (clean point List.mem_cons_self),
      ih (fun other member => clean other (List.mem_cons_of_mem _ member))]
    simp

theorem splitlines_joinLines {lines : List PyStr}
    (clean : ∀ line ∈ lines, ∀ point ∈ line, isLineBreak point = false) :
    splitlines (joinLines lines) = trimmed lines := by
  induction lines with
  | nil => rfl
  | cons line rest ih =>
    have own := clean line List.mem_cons_self
    cases rest with
    | nil => exact splitlinesFrom_last own []
    | cons next rest =>
      rw [joinLines_cons_cons, splitlines, splitlinesFrom_line own,
        ih fun other member => clean other (List.mem_cons_of_mem _ member)]
      rfl

/-- Every text is made of the lines between its newlines. -/
theorem exists_lines (text : PyStr) :
    ∃ lines, lines ≠ [] ∧ (∀ line ∈ lines, 0x0a ∉ line) ∧ joinLines lines = text := by
  induction text with
  | nil => exact ⟨[[]], by simp, by simp, rfl⟩
  | cons point rest ih =>
    obtain ⟨lines, full, clean, whole⟩ := ih
    obtain ⟨line, others, rfl⟩ := List.exists_cons_of_ne_nil full
    obtain ⟨own, later⟩ := List.forall_mem_cons.mp clean
    by_cases newline : point = 0x0a
    · refine ⟨[] :: line :: others, by simp, List.forall_mem_cons.mpr ⟨by simp, clean⟩, ?_⟩
      rw [joinLines_cons_cons, whole, newline]
      rfl
    · refine ⟨(point :: line) :: others, by simp, List.forall_mem_cons.mpr ⟨?_, later⟩, ?_⟩
      · simpa using ⟨Ne.symm newline, own⟩
      · rw [← whole]
        cases others <;> rfl

theorem mem_joinLines {lines : List PyStr} (member : line ∈ lines) (inside : point ∈ line) :
    point ∈ joinLines lines := by
  induction lines with
  | nil => cases member
  | cons first rest ih =>
    cases rest with
    | nil => exact List.mem_singleton.mp member ▸ inside
    | cons next rest =>
      rw [joinLines_cons_cons]
      rcases List.mem_cons.mp member with rfl | later
      · exact List.mem_append_left _ inside
      · exact List.mem_append_right _ (List.mem_cons_of_mem _ (ih later))

theorem joinLines_mem {lines : List PyStr} (member : point ∈ joinLines lines) :
    point = 0x0a ∨ ∃ line ∈ lines, point ∈ line := by
  induction lines with
  | nil => cases member
  | cons first rest ih =>
    cases rest with
    | nil => exact .inr ⟨first, List.mem_cons_self, member⟩
    | cons next rest =>
      rw [joinLines_cons_cons] at member
      rcases List.mem_append.mp member with inside | later
      · exact .inr ⟨first, List.mem_cons_self, inside⟩
      · rcases List.mem_cons.mp later with newline | later
        · exact .inl newline
        · rcases ih later with newline | ⟨line, present, inside⟩
          · exact .inl newline
          · exact .inr ⟨line, List.mem_cons_of_mem _ present, inside⟩

/-- A text without newlines is part of joined lines only within one of them. -/
theorem infix_joinLines {text : PyStr} {lines : List PyStr} (full : text ≠ []) (clean : 0x0a ∉ text)
    (inside : text <:+: joinLines lines) : ∃ line ∈ lines, text <:+: line := by
  induction lines with
  | nil => exact absurd (List.infix_nil.mp inside) full
  | cons first rest ih =>
    cases rest with
    | nil => exact ⟨first, List.mem_cons_self, inside⟩
    | cons next rest =>
      rw [joinLines_cons_cons] at inside
      rcases List.infix_append_iff_ne_nil.mp inside with own | later | ⟨front, back, -, broken, rfl, -, start⟩
      · exact ⟨first, List.mem_cons_self, own⟩
      · rcases List.infix_cons_iff.mp later with start | later
        · obtain ⟨point, others, rfl⟩ := List.exists_cons_of_ne_nil full
          rw [List.cons_prefix_cons] at start
          simp [start.1] at clean
        · obtain ⟨line, member, own⟩ := ih later
          exact ⟨line, List.mem_cons_of_mem _ member, own⟩
      · obtain ⟨point, others, rfl⟩ := List.exists_cons_of_ne_nil broken
        rw [List.cons_prefix_cons] at start
        simp [start.1] at clean

/-- The texts that the newline alone breaks into lines. -/
def NewlinesOnly (text : PyStr) : Prop := ∀ point ∈ text, isLineBreak point = true → point = 0x0a

instance (text : PyStr) : Decidable (NewlinesOnly text) := inferInstanceAs (Decidable (∀ point ∈ text, _))

/-- Their lines are the pieces between newlines. -/
theorem splitlines_eq_split (plain : NewlinesOnly text) :
    splitlines text = trimmed (split 0x0a text) := by
  obtain ⟨lines, full, clean, rfl⟩ := exists_lines text
  rw [split_joinLines clean full]
  refine splitlines_joinLines fun line member point inside => ?_
  by_contra broken
  have newline := plain point (mem_joinLines member inside) (by simpa using broken)
  exact clean line member (newline ▸ inside)

/-! ### Patterns

The patterns of the reader run on single lines, so `.` matches every point and `$` only the
end. A class is followed by a point outside it, so a greedy repetition cannot give back. -/

/-- What a pattern `^<indent>(<class>+):` leaves of a line: the name and what follows the
colon. -/
def keyMatch (indent : PyStr) (inName : Nat → Bool) (line : PyStr) : Option (PyStr × PyStr) := do
  let rest ← line.dropPrefix? indent
  let tail ← (rest.dropWhile inName).dropPrefix? [0x3a]
  if (rest.takeWhile inName).isEmpty then none else some (rest.takeWhile inName, tail)

theorem dropPrefix?_iff {text front rest : PyStr} :
    text.dropPrefix? front = some rest ↔ text = front ++ rest := by
  simp [List.dropPrefix?_eq_some_iff]

theorem keyMatch_iff {indent line name tail : PyStr} {inName : Nat → Bool} (colon : inName 0x3a = false) :
    keyMatch indent inName line = some (name, tail) ↔
      name ≠ [] ∧ (∀ point ∈ name, inName point = true) ∧ line = indent ++ name ++ 0x3a :: tail := by
  constructor
  · intro matched
    simp only [keyMatch, Option.bind_eq_bind, Option.bind_eq_some_iff] at matched
    obtain ⟨rest, indented, _, named, picked⟩ := matched
    split at picked
    · cases picked
    · rename_i full
      cases picked
      rw [List.isEmpty_iff] at full
      refine ⟨full, fun point member => List.mem_takeWhile_imp member, ?_⟩
      rw [dropPrefix?_iff.mp indented, List.append_assoc, List.append_cancel_left_eq]
      calc rest = rest.takeWhile inName ++ rest.dropWhile inName := List.takeWhile_append_dropWhile.symm
        _ = rest.takeWhile inName ++ 0x3a :: tail := by rw [dropPrefix?_iff.mp named]; rfl
  · intro ⟨full, named, same⟩
    have stops : (0x3a :: tail).dropWhile inName = 0x3a :: tail := by simp [colon]
    have taken : (0x3a :: tail).takeWhile inName = [] := by simp [colon]
    have front : line.dropPrefix? indent = some (name ++ 0x3a :: tail) := by
      rw [dropPrefix?_iff, same, List.append_assoc]
    simp only [keyMatch, front, Option.bind_eq_bind, Option.bind_some, List.dropWhile_append_of_pos named, stops,
      List.takeWhile_append_of_pos named, taken, List.append_nil]
    have colonFront : (0x3a :: tail).dropPrefix? [0x3a] = some tail := dropPrefix?_iff.mpr rfl
    simp [colonFront, full]

/-- Nothing but optional blanks and an optional comment. -/
def isBare (tail : PyStr) : Bool := (lstrip tail).isEmpty || startsWith (py "#") (lstrip tail)

/-- The value a pattern `\s*(.+?)\s*$` picks from the rest of a line: blanks alone leave the
last of them. -/
def lazyValue (rest : PyStr) : Option PyStr :=
  if (strip rest).isEmpty then rest.getLast?.map fun point => [point] else some (strip rest)

end Charybdis.Policy
