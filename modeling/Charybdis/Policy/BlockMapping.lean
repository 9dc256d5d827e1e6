import Charybdis.Policy.Workflow

/-! Block mappings of YAML: the scalar that a key has in one, and the mappings whose entries
stand on a line each. -/

namespace Charybdis.Policy

open Foundation
open Stub (PyStr py)

/-- A plain line up to its comment; `spaced` says whether a comment can start here. -/
def uncommented (spaced : Bool) : PyStr → PyStr
  | [] => []
  | point :: rest => if spaced && point == 0x23 then [] else point :: uncommented (isBlank point) rest

/-- A quoted scalar from behind its opening mark, up to and with the closing one. -/
def quotedScalar (mark : Nat) : PyStr → PyStr
  | [] => []
  | [point] => [point]
  | point :: next :: rest =>
    if (mark = 0x22 ∧ point = 0x5c) ∨ (mark = 0x27 ∧ point = mark ∧ next = mark) then
      point :: next :: quotedScalar mark rest
    else if point = mark then [point]
    else point :: quotedScalar mark (next :: rest)

/-- A scalar as it is written, without comments: the lines of a block scalar, a quoted scalar
with its quotes, or a plain one. -/
def scalarOf (lines : List PyStr) : PyStr :=
  match lines.dropWhile isBare with
  | [] => []
  | first :: later =>
    match first.dropWhile isBlank with
    | 0x7c :: _ | 0x3e :: _ => joinLines later
    | 0x22 :: rest => 0x22 :: quotedScalar 0x22 (joinLines (rest :: later))
    | 0x27 :: rest => 0x27 :: quotedScalar 0x27 (joinLines (rest :: later))
    | _ => strip (joinLines ((first :: later).map (uncommented true)))

/-- What follows a key at the given indentation. -/
def entryTail (indent : Nat) (key line : PyStr) : Option PyStr :=
  (line.dropPrefix? (List.replicate indent 0x20 ++ key ++ [0x3a])).filter fun tail => tail.head?.all isBlank

/-- The scalar a key has in the mapping written on the lines of a block. -/
def mappingValue (key : PyStr) (block : List PyStr) : Option PyStr :=
  let body := block.dropWhile isBare
  let indent := indentation (body.headD [])
  match body.dropWhile fun line => (entryTail indent key line).isNone with
  | [] => none
  | line :: later => (entryTail indent key line).map fun tail =>
    scalarOf (tail :: later.takeWhile fun line => (lstrip line).isEmpty || indent < indentation line)

example : mappingValue (py "group") [py "  # group: a", py "  group: 'b' # c", py "  cancel: d"] =
    some (py "'b'") := by decide

/-! ### Entries on a line of their own -/

/-- The points a plain scalar does not start with. -/
def scalarMarks : PyStr := py "-?:,[]\x7b\x7d#&*!|>'\"%@`"

/-- `<key>: <scalar>`, with a comment or none behind a plain scalar. Within the scalar no comment
starts and no other value. -/
structure MappingEntry where
  key : PyStr
  gap : PyStr
  value : PyStr
  trailer : PyStr
  named : ∀ point ∈ key, isIdPoint point = true
  spaced : gap ≠ [] ∧ gap.all isBlank = true
  stripped : strip value = value
  first : ∀ mark ∈ scalarMarks, value.head? ≠ some mark
  full : key ≠ [] ∧ value ≠ []
  uncut : uncommented true value = value
  colons : ∀ blank ∈ [0x20, 0x09], contains [0x3a, blank] (value ++ [blank]) = false
  behind : IsTrailer trailer

namespace MappingEntry

variable (entry : MappingEntry)

/-- What stands behind the colon. -/
def tail : PyStr := entry.gap ++ (entry.value ++ entry.trailer)

def line (indent : Nat) : PyStr := List.replicate indent 0x20 ++ entry.key ++ 0x3a :: entry.tail

end MappingEntry

/-- Blank, or a comment. -/
def isVoidLine (line : PyStr) : Bool := (line.dropWhile isBlank).head?.all (· == 0x23)

/-- The lines of a mapping: its entries at one indentation, and nothing else but comments. -/
structure PlainMapping (lines : List PyStr) where
  indent : Nat
  entries : List MappingEntry
  written : lines.filter (!isVoidLine ·) = entries.map (·.line indent)
  distinct : (entries.map MappingEntry.key).Nodup

/-! ### The scalar of an entry -/

private theorem uncommented_append {spaced : Bool} {text : PyStr} (kept : uncommented spaced text = text)
    (ends : text.getLast? = some last) (rest : PyStr) :
    uncommented spaced (text ++ rest) = text ++ uncommented (isBlank last) rest := by
  induction text generalizing spaced with
  | nil => cases ends
  | cons point text ih =>
    rw [uncommented] at kept
    split at kept
    · cases kept
    · rename_i inside
      obtain ⟨-, later⟩ := List.cons.inj kept
      rw [List.cons_append, uncommented, if_neg inside, List.cons_append]
      cases text with
      | nil =>
        obtain rfl := Option.some.inj ends
        rfl
      | cons next text =>
        rw [List.getLast?_cons_cons] at ends
        rw [ih later ends]

private theorem uncommented_blank {text : PyStr} (blank : ∀ point ∈ text, isBlank point = true) (spaced : Bool) :
    uncommented spaced text = text := by
  induction text generalizing spaced with
  | nil => rfl
  | cons point text ih =>
    obtain ⟨own, later⟩ := List.forall_mem_cons.mp blank
    have other : ¬ (spaced && point == 0x23) = true := by
      rintro mark
      rw [Bool.and_eq_true, beq_iff_eq] at mark
      rw [mark.2] at own
      cases own
    rw [uncommented, if_neg other, ih later]

private theorem uncommented_comment {gap : PyStr} (blank : ∀ point ∈ gap, isBlank point = true) {spaced : Bool}
    (apart : gap ≠ [] ∨ spaced = true) (comment : PyStr) : uncommented spaced (gap ++ 0x23 :: comment) = gap := by
  obtain rfl | ⟨front, last, rfl⟩ := List.eq_nil_or_concat' gap
  · rw [List.nil_append, uncommented, apart.resolve_left (not_not.mpr rfl)]
    rfl
  · rw [uncommented_append (uncommented_blank blank spaced) List.getLast?_concat, blank last (by simp)]
    simp [uncommented]

private theorem uncommented_trailer {trailer : PyStr} (behind : IsTrailer trailer) :
    ∀ point ∈ uncommented false trailer, isSpace point = true := by
  intro point member
  rcases behind with blank | ⟨gap, comment, rfl, full, blank⟩
  · rw [uncommented_blank (List.all_eq_true.mp blank)] at member
    exact isSpace_of_isBlank (List.all_eq_true.mp blank point member)
  · rw [uncommented_comment (List.all_eq_true.mp blank) (.inl full)] at member
    exact isSpace_of_isBlank (List.all_eq_true.mp blank point member)

private theorem isVoidLine_cases {line : PyStr} (void : isVoidLine line = true) :
    ∃ gap, (∀ point ∈ gap, isBlank point = true) ∧ (line = gap ∨ ∃ comment, line = gap ++ 0x23 :: comment) := by
  have whole := List.takeWhile_append_dropWhile (p := isBlank) (l := line)
  refine ⟨line.takeWhile isBlank, fun point member => List.mem_takeWhile_imp member, ?_⟩
  unfold isVoidLine at void
  cases rest : line.dropWhile isBlank with
  | nil =>
    rw [rest, List.append_nil] at whole
    exact .inl whole.symm
  | cons point comment =>
    rw [rest, List.head?_cons, Option.all_some, beq_iff_eq] at void
    rw [rest, void] at whole
    exact .inr ⟨comment, whole.symm⟩

private theorem uncommented_void {line : PyStr} (void : isVoidLine line = true) :
    ∀ point ∈ uncommented true line, isSpace point = true := by
  obtain ⟨gap, blank, rfl | ⟨comment, rfl⟩⟩ := isVoidLine_cases void
  · rw [uncommented_blank blank]
    exact fun point member => isSpace_of_isBlank (blank point member)
  · rw [uncommented_comment blank (.inr rfl)]
    exact fun point member => isSpace_of_isBlank (blank point member)

private theorem isBare_of_void {line : PyStr} (void : isVoidLine line = true) : isBare line = true := by
  obtain ⟨gap, blank, rfl | ⟨comment, rfl⟩⟩ := isVoidLine_cases void
  · have empty : lstrip line = [] :=
      List.dropWhile_eq_nil_iff.mpr fun point member => isSpace_of_isBlank (blank point member)
    simp [isBare, empty]
  · have rest : lstrip (gap ++ 0x23 :: comment) = 0x23 :: comment :=
      (lstrip_append (fun point member => isSpace_of_isBlank (blank point member)) _).trans (lstrip_solid rfl comment)
    simp [isBare, rest, startsWith, py]

private theorem joinLines_blank {others : List PyStr} (blank : ∀ line ∈ others, ∀ point ∈ line, isSpace point = true)
    (line : PyStr) : ∃ behind, joinLines (line :: others) = line ++ behind ∧ ∀ point ∈ behind, isSpace point = true := by
  cases others with
  | nil => exact ⟨[], (List.append_nil line).symm, by simp⟩
  | cons next others =>
    refine ⟨0x0a :: joinLines (next :: others), joinLines_cons_cons line next others, ?_⟩
    intro point member
    rcases List.mem_cons.mp member with rfl | later
    · rfl
    · rcases joinLines_mem later with rfl | ⟨line, present, inside⟩
      · rfl
      · exact blank line present point inside

namespace MappingEntry

variable (entry : MappingEntry)

private theorem gap_blank : ∀ point ∈ entry.gap, isBlank point = true := List.all_eq_true.mp entry.spaced.2

private theorem value_first : ∃ point rest, entry.value = point :: rest ∧ isSpace point = false ∧ isBlank point = false ∧
    point ∉ scalarMarks := by
  obtain ⟨point, rest, same⟩ := List.exists_cons_of_ne_nil entry.full.2
  have dark : isSpace point = false := by
    rcases strip_cases entry.value with ⟨-, empty⟩ | ⟨head, others, dark, -, whole⟩
    · exact absurd (entry.stripped.symm.trans empty) entry.full.2
    · rw [entry.stripped, same] at whole
      rw [(List.cons.inj whole).1]
      exact dark
  refine ⟨point, rest, same, dark, ?_, fun marked => entry.first point marked (by rw [same]; rfl)⟩
  by_contra blank
  rw [isSpace_of_isBlank (by simpa using blank)] at dark
  cases dark

private theorem uncommented_tail :
    ∃ behind, uncommented true entry.tail = entry.gap ++ (entry.value ++ behind) ∧ ∀ point ∈ behind, isSpace point = true := by
  obtain ⟨start, final, gapped⟩ := (List.eq_nil_or_concat' entry.gap).resolve_left entry.spaced.1
  obtain ⟨front, last, ends⟩ := (List.eq_nil_or_concat' entry.value).resolve_left entry.full.2
  have gapEnds : entry.gap.getLast? = some final := by rw [gapped, List.getLast?_concat]
  have valueEnds : entry.value.getLast? = some last := by rw [ends, List.getLast?_concat]
  have blank : isBlank final = true := entry.gap_blank final (by simp [gapped])
  have dark : isBlank last = false := by
    have final : (strip entry.value).getLast? = some last := by rw [entry.stripped, valueEnds]
    have solid : isSpace last = false := strip_getLast final
    by_contra blank
    rw [isSpace_of_isBlank (by simpa using blank)] at solid
    cases solid
  refine ⟨uncommented false entry.trailer, ?_, uncommented_trailer entry.behind⟩
  rw [tail, uncommented_append (uncommented_blank entry.gap_blank true) gapEnds, blank,
    uncommented_append entry.uncut valueEnds, dark]

private theorem scalarOf_tail {others : List PyStr} (void : ∀ line ∈ others, isVoidLine line = true) :
    scalarOf (entry.tail :: others) = entry.value := by
  obtain ⟨point, rest, value, dark, solid, plain⟩ := entry.value_first
  have opened : entry.tail.dropWhile isBlank = point :: (rest ++ entry.trailer) := by
    rw [tail, List.dropWhile_append_of_pos entry.gap_blank, value, List.cons_append,
      List.dropWhile_cons_of_neg (by simp [solid])]
  have stripped : lstrip entry.tail = point :: (rest ++ entry.trailer) := by
    rw [tail, lstrip_append fun point member => isSpace_of_isBlank (entry.gap_blank point member), value]
    exact lstrip_solid dark _
  have words : isBare entry.tail = false := by
    have other : point ≠ 0x23 := fun mark => plain (mark ▸ by decide)
    simp [isBare, stripped, startsWith, py, List.isPrefixOf, Ne.symm other]
  obtain ⟨behind, cut, spaces⟩ := entry.uncommented_tail
  have blank : ∀ line ∈ others.map (uncommented true), ∀ point ∈ line, isSpace point = true := by
    intro line member
    obtain ⟨other, present, rfl⟩ := List.mem_map.mp member
    exact uncommented_void (void other present)
  obtain ⟨more, joined, spacesToo⟩ := joinLines_blank blank (uncommented true entry.tail)
  have read : strip (joinLines ((entry.tail :: others).map (uncommented true))) = entry.value := by
    rw [List.map_cons, joined, cut, List.append_assoc, List.append_assoc]
    refine strip_between (fun point member => isSpace_of_isBlank (entry.gap_blank point member)) ?_ entry.full.2 entry.stripped
    exact List.forall_mem_append.mpr ⟨spaces, spacesToo⟩
  rw [scalarOf, List.dropWhile_cons_of_neg (by simp [words])]
  dsimp only
  rw [opened]
  split
  · rename_i same
    exact absurd (by rw [(List.cons.inj same).1]; decide) plain
  · rename_i same
    exact absurd (by rw [(List.cons.inj same).1]; decide) plain
  · rename_i same
    exact absurd (by rw [(List.cons.inj same).1]; decide) plain
  · rename_i same
    exact absurd (by rw [(List.cons.inj same).1]; decide) plain
  · exact read

/-! ### The lines of a mapping -/

private theorem isIdPoint_dark {point : Nat} (letter : isIdPoint point = true) :
    isSpace point = false ∧ isBlank point = false ∧ point ≠ 0x23 ∧ point ≠ 0x20 := by
  simp only [isIdPoint, Bool.or_eq_true, Bool.and_eq_true, decide_eq_true_eq, beq_iff_eq] at letter
  simp only [isSpace, isBlank, Bool.or_eq_false_iff, Bool.and_eq_false_iff, decide_eq_false_iff_not,
    beq_eq_false_iff_ne]
  omega

private theorem key_first : ∃ point rest, entry.key = point :: rest ∧ isIdPoint point = true := by
  obtain ⟨point, rest, same⟩ := List.exists_cons_of_ne_nil entry.full.1
  exact ⟨point, rest, same, entry.named point (by simp [same])⟩

private theorem line_words (indent : Nat) (rest : PyStr) :
    let line := List.replicate indent 0x20 ++ entry.key ++ 0x3a :: rest
    isVoidLine line = false ∧ isBare line = false ∧ lstrip line ≠ [] ∧ indentation line = indent := by
  obtain ⟨point, others, same, letter⟩ := entry.key_first
  obtain ⟨dark, solid, mark, space⟩ := isIdPoint_dark letter
  have blanks : ∀ point ∈ List.replicate indent 0x20, isBlank point = true := by
    intro point member
    rw [List.eq_of_mem_replicate member]
    rfl
  have spaces : ∀ point ∈ List.replicate indent 0x20, isSpace point = true :=
    fun point member => isSpace_of_isBlank (blanks point member)
  intro line
  have shape : line = List.replicate indent 0x20 ++ point :: (others ++ 0x3a :: rest) := by
    simp [line, same]
  have opened : line.dropWhile isBlank = point :: (others ++ 0x3a :: rest) := by
    rw [shape, List.dropWhile_append_of_pos blanks, List.dropWhile_cons_of_neg (by simp [solid])]
  have stripped : lstrip line = point :: (others ++ 0x3a :: rest) := by
    rw [shape, lstrip_append spaces, lstrip_solid dark]
  refine ⟨by simp [isVoidLine, opened, mark], ?_, by simp [stripped], ?_⟩
  · simp [isBare, stripped, startsWith, py, List.isPrefixOf, Ne.symm mark]
  · rw [indentation, shape, List.takeWhile_append_of_pos (by simp), List.takeWhile_cons_of_neg (by simp [space])]
    simp

private theorem entryTail_line (indent : Nat) : entryTail indent entry.key (entry.line indent) = some entry.tail := by
  obtain ⟨point, gap, same⟩ := List.exists_cons_of_ne_nil entry.spaced.1
  have blank : isBlank point = true := entry.gap_blank point (by simp [same])
  have front : (entry.line indent).dropPrefix? (List.replicate indent 0x20 ++ entry.key ++ [0x3a]) = some entry.tail :=
    dropPrefix?_iff.mpr (by simp [line])
  rw [entryTail, front, Option.filter_some, if_pos (by simp [tail, same, blank])]

private theorem shape_of_entryTail {indent : Nat} {line rest : PyStr} (found : entryTail indent entry.key line = some rest) :
    line = List.replicate indent 0x20 ++ entry.key ++ 0x3a :: rest := by
  obtain ⟨matched, -⟩ := Option.filter_eq_some_iff.mp found
  simpa using dropPrefix?_iff.mp matched

private theorem key_of_line {indent : Nat} {other : MappingEntry} {rest : PyStr}
    (found : entryTail indent entry.key (other.line indent) = some rest) : other.key = entry.key := by
  have shape := entry.shape_of_entryTail found
  rw [line, List.append_assoc, List.append_assoc, List.append_cancel_left_eq] at shape
  have cut (entry : MappingEntry) (rest : PyStr) : (entry.key ++ 0x3a :: rest).takeWhile isIdPoint = entry.key := by
    rw [List.takeWhile_append_of_pos entry.named, List.takeWhile_cons_of_neg (by decide), List.append_nil]
  rw [← cut other other.tail, shape, cut]

end MappingEntry

namespace PlainMapping

variable {lines : List PyStr} (mapping : PlainMapping lines)

theorem line_mem {entry : MappingEntry} (member : entry ∈ mapping.entries) : entry.line mapping.indent ∈ lines := by
  have kept : entry.line mapping.indent ∈ lines.filter (!isVoidLine ·) := by
    rw [mapping.written]
    exact List.mem_map_of_mem member
  exact (List.mem_filter.mp kept).1

theorem line_cases {line : PyStr} (member : line ∈ lines) :
    isVoidLine line = true ∨ ∃ entry ∈ mapping.entries, line = entry.line mapping.indent := by
  by_cases void : isVoidLine line = true
  · exact .inl void
  · have kept : line ∈ lines.filter (!isVoidLine ·) := List.mem_filter.mpr ⟨member, by simp [void]⟩
    rw [mapping.written] at kept
    obtain ⟨entry, present, same⟩ := List.mem_map.mp kept
    exact .inr ⟨entry, present, same.symm⟩

theorem entry_eq {entry other : MappingEntry} (member : entry ∈ mapping.entries) (present : other ∈ mapping.entries)
    (same : other.key = entry.key) : other = entry :=
  List.inj_on_of_nodup_map mapping.distinct present member same

/-- Each key has the scalar on its line. -/
theorem mappingValue_eq {entry : MappingEntry} (member : entry ∈ mapping.entries) :
    mappingValue entry.key lines = some entry.value := by
  have words := entry.line_words mapping.indent entry.tail
  have present := mem_dropWhile (mapping.line_mem member) words.2.1
  have known : ∀ line ∈ lines.dropWhile isBare, line ∈ lines := fun line later => (List.dropWhile_suffix _).subset later
  have indent : indentation ((lines.dropWhile isBare).headD []) = mapping.indent := by
    cases body : lines.dropWhile isBare with
    | nil =>
      rw [body] at present
      cases present
    | cons line rest =>
      have solid : isBare line = false := by
        have stop := List.head?_dropWhile_not isBare lines
        rw [body] at stop
        exact stop
      rcases mapping.line_cases (known line (by simp [body])) with void | ⟨other, _, rfl⟩
      · rw [isBare_of_void void] at solid
        cases solid
      · exact (other.line_words mapping.indent other.tail).2.2.2
  have place : entry.line mapping.indent ∈
      (lines.dropWhile isBare).dropWhile fun line => (entryTail mapping.indent entry.key line).isNone :=
    mem_dropWhile present (by rw [entry.entryTail_line]; rfl)
  rw [mappingValue, indent]
  have stop := List.head?_dropWhile_not (fun line => (entryTail mapping.indent entry.key line).isNone)
    (lines.dropWhile isBare)
  have inside : ∀ line ∈ (lines.dropWhile isBare).dropWhile fun line => (entryTail mapping.indent entry.key line).isNone,
      line ∈ lines :=
    fun line later => known line ((List.dropWhile_suffix _).subset later)
  generalize (lines.dropWhile isBare).dropWhile
    (fun line => (entryTail mapping.indent entry.key line).isNone) = found at place stop inside
  cases found with
  | nil => cases place
  | cons line later =>
    obtain ⟨rest, tail⟩ : ∃ rest, entryTail mapping.indent entry.key line = some rest := by
      refine Option.isSome_iff_exists.mp ?_
      simpa using stop
    obtain ⟨other, known, rfl⟩ : ∃ other ∈ mapping.entries, line = other.line mapping.indent := by
      refine (mapping.line_cases (inside line List.mem_cons_self)).resolve_left fun void => ?_
      rw [entry.shape_of_entryTail tail, (entry.line_words mapping.indent rest).1] at void
      cases void
    obtain rfl := mapping.entry_eq member known (entry.key_of_line tail)
    dsimp only
    rw [other.entryTail_line, Option.map_some, other.scalarOf_tail]
    intro line taken
    have far := List.mem_takeWhile_imp taken
    rcases mapping.line_cases (inside line (List.mem_cons_of_mem _ ((List.takeWhile_prefix _).subset taken))) with
      void | ⟨next, _, rfl⟩
    · exact void
    · obtain ⟨-, -, full, indented⟩ := next.line_words mapping.indent next.tail
      rw [MappingEntry.line, indented, Bool.or_eq_true, List.isEmpty_iff] at far
      rcases far with empty | deeper
      · exact absurd empty full
      · simp at deeper

end PlainMapping

/-! ### Texts in a line -/

/-- A text that ends in no blank and has no mark of a comment does not start what ends a line. -/
theorem not_prefix_trailer {trailer text : PyStr} (behind : IsTrailer trailer) (solid : isBlank last = false)
    (unmarked : 0x23 ∉ text) (ends : text.getLast? = some last) : ¬ text <+: trailer := by
  rintro ⟨more, same⟩
  have member : last ∈ text := List.mem_of_getLast? ends
  have outside : ∀ gap : PyStr, gap.all isBlank = true → ¬ text ⊆ gap := by
    intro gap blank inside
    rw [List.all_eq_true.mp blank last (inside member)] at solid
    cases solid
  rcases behind with blank | ⟨gap, comment, rfl, -, blank⟩
  · exact outside trailer blank (same ▸ List.subset_append_left _ _)
  · rcases List.append_eq_append_iff.mp same with ⟨rest, whole, -⟩ | ⟨rest, whole, start⟩
    · exact outside gap blank (whole ▸ List.subset_append_left _ _)
    · cases rest with
      | nil => exact outside gap blank (by simp [whole])
      | cons point rest =>
        rw [List.cons_append, List.cons.injEq] at start
        exact unmarked (by simp [whole, start.1])

/-- Such a text stands before the end of a line or in it. -/
theorem infix_append_trailer {front trailer text : PyStr} (behind : IsTrailer trailer) (solid : isBlank last = false)
    (unmarked : 0x23 ∉ text) (ends : text.getLast? = some last) (inside : text <:+: front ++ trailer) :
    text <:+: front ∨ text <:+: trailer := by
  rcases List.infix_append_iff_ne_nil.mp inside with own | later | ⟨first, second, -, full, rfl, -, start⟩
  · exact .inl own
  · exact .inr later
  · rw [List.getLast?_append_of_ne_nil _ full] at ends
    rw [List.mem_append, not_or] at unmarked
    exact absurd start (not_prefix_trailer behind solid unmarked.2 ends)

/-- A text is not started by points that it does not start with. -/
theorem infix_of_infix_append {point : Nat} {front text rest : PyStr} (absent : point ∉ front)
    (inside : point :: text <:+: front ++ rest) : point :: text <:+: rest := by
  induction front with
  | nil => exact inside
  | cons other front ih =>
    rw [List.mem_cons, not_or] at absent
    rcases List.infix_cons_iff.mp inside with start | later
    · exact absurd (List.cons_prefix_cons.mp start).1 absent.1
    · exact ih absent.2 later

end Charybdis.Policy
