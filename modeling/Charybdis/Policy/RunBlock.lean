import Charybdis.Policy.Workflow

/-! The script that YAML makes of a step's block scalar, and the blocks of which the policy test
reads the same script. -/

namespace Charybdis.Policy

open Foundation
open Stub (PyStr py)

/-! ### The lines of a block -/

def isSpaces (line : PyStr) : Bool := line.all (· == 0x20)

/-- Where the content of a block begins, whose fields stand at the column: at the indentation of its
first line with words, which no empty line before it exceeds, and without any such line behind the
longest empty one. -/
def contentIndent (column : Nat) (lines : List PyStr) : Option Nat :=
  let longest := ((lines.takeWhile isSpaces).map List.length).foldr max 0
  match (lines.dropWhile isSpaces).head? with
  | some first =>
    if indentation first ≤ column then some (max (column + 1) longest)
    else if longest ≤ indentation first then some (indentation first)
    else none
  | none => some (max (column + 1) longest)

def inBlock (indent : Nat) (line : PyStr) : Bool := isSpaces line || indent ≤ indentation line

/-- The lines up to the first one with words that is indented less. -/
def blockBody (indent : Nat) (lines : List PyStr) : List PyStr := lines.takeWhile (inBlock indent)

/-! ### The string of a block -/

/-- A line with content of its own at the start: no space and no tab. -/
def isFlush (content : PyStr) : Bool := !content.head?.any isBlank

/-- A break folds between two lines neither of which is indented further. -/
def foldsBetween (last line : PyStr) : Bool := isFlush last && isFlush line

def isFolded (style : PyStr) : Bool := startsWith (py ">") style

/-- The string of a block's contents, up to trailing newlines. -/
def scalarText (style : PyStr) (contents : List PyStr) : PyStr :=
  if isFolded style then foldedLines 0x0a 0x20 foldsBetween contents else joinLines contents

example : scalarText (py ">-") [py "make", py "all", [], py "ls", py "  -l", py "x"] =
    py "make all\nls\n  -l\nx" := by decide

/-! ### The header of a block -/

/-- What a field's line starts with; the step's first line carries its dash. -/
def lineOpening (index column : Nat) : PyStr :=
  if index = 0 then py "      -" ++ List.replicate (column - 7) 0x20 else List.replicate column 0x20

/-- The first point of a key that is quoted, tagged, anchored or an alias. -/
def keyMarks : PyStr := py "\"'!&*"

/-- The `run` key before its colon: plain, with blanks behind it, or marked. Where the key has a
line of its own (`? run`), nothing stands before the colon. -/
def SpellsRun (label : PyStr) : Prop :=
  (∃ gap, label = py "run" ++ gap ∧ gap.all isBlank = true) ∨ label = [] ∨ ∃ mark ∈ keyMarks, label.head? = some mark

/-- Blanks alone, or a text that a mark introduces. -/
def IsLead (marks piece : PyStr) : Prop := (piece.dropWhile isBlank).head?.all (· ∈ marks) = true

/-- What YAML allows from the field's colon to the end of the indicator's line. A tag or an anchor can
stand before the indicator, a comment behind it, and the indicator on a later line. -/
inductive BlockHeader (style : PyStr) : List PyStr → Prop
  | indicator (lead trailer : PyStr) (before : IsLead (py "!&") lead) (apart : lead.getLast?.all isBlank = true)
      (behind : IsTrailer trailer) : BlockHeader style [lead ++ style ++ trailer]
  | line (lead : PyStr) (rest : List PyStr) (before : IsLead (py "!&#") lead) (more : BlockHeader style rest) :
      BlockHeader style (lead :: rest)

/-- A step whose `run` field is a block scalar that YAML accepts, with every line blank or indented
by ten spaces. -/
structure RunBlock (step : PyStr) where
  index : Nat
  column : Nat
  label : PyStr
  tail : PyStr
  others : List PyStr
  below : List PyStr
  style : PyStr
  indent : Nat
  lines : (splitlines step).drop index = (lineOpening index column ++ label ++ 0x3a :: tail) :: (others ++ below)
  inside : if index = 0 then 8 ≤ column else 7 ≤ column
  spelled : SpellsRun label
  apart : tail.head?.all isBlank = true
  header : BlockHeader style (tail :: others)
  indicator : style ∈ blockIndicators
  detected : contentIndent column below = some indent
  ten : ∀ line ∈ blockBody indent below, isSpaces line = true ∨ indentation line = 10

/-- What a line at an index starts with where the policy test takes it for the field. -/
def fieldOpening (index : Nat) (field : PyStr) : PyStr :=
  (if index = 0 then py "      - " else py "        ") ++ field ++ [0x3a]

namespace RunBlock

variable {step : PyStr} (run : RunBlock step)

def body : List PyStr := blockBody run.indent run.below

/-- What the runner gets. -/
def script : PyStr := scalarText run.style (run.body.map (·.drop run.indent))

/-- Empty, or indented by ten spaces: what the policy test takes for a line of the block. -/
def isTaken (line : PyStr) : Bool := line.isEmpty || startsWith (py "          ") line

def taken : List PyStr := run.body.takeWhile isTaken

/-- The block from the first line of one to nine spaces on. -/
def left : List PyStr := run.body.dropWhile isTaken

/-- The blocks of which the policy test reads YAML's script. Nothing stands behind a line of one to nine
spaces, and no break folds; in a block without words no line is longer than ten. -/
def ReadAlike : Prop :=
  if run.body.all isSpaces = true then ∀ line ∈ run.taken, line.drop 10 = []
  else
    (∀ line ∈ run.left, line.drop 10 = []) ∧
      (isFolded run.style = true →
        ((run.taken.map (·.drop 10)).filter (· ≠ [])).IsChain fun last line => foldsBetween last line = false)

/-- The field's line is the first one that the policy test takes for a `run` field. -/
def Plain : Prop :=
  run.column = 8 ∧ run.label = py "run" ∧
    ∀ before < run.index, ∀ other, (splitlines step)[before]? = some other → ¬ fieldOpening before (py "run") <+: other

/-- Only blanks stand around the indicator. -/
def Bare : Prop := run.others = [] ∧ strip run.tail = run.style

/-- A plain field with a bare header and such a block; behind any other header the policy test
takes what stands on the field's line for the script. -/
def ReadRight : Prop :=
  run.Plain ∧ (run.Bare ∧ run.ReadAlike ∨ ¬ run.Bare ∧ chomp 0x0a run.script = strip run.tail)

/-- The policy test takes no other line for a `run` field. -/
def Alone : Prop :=
  ∀ place other, (splitlines step)[place]? = some other → fieldOpening place (py "run") <+: other → place = run.index

end RunBlock

/-! ### The line of the field -/

private def fieldAt (field : PyStr) (entry : PyStr × Nat) : Option (Nat × PyStr) :=
  (entry.1.dropPrefix? (fieldOpening entry.2 field)).map fun tail => (entry.2, strip tail)

private theorem findSome?_fieldAt (field : PyStr) (rest : List PyStr) (count : Nat) :
    ((rest.zipIdx (count + 1)).findSome? fun entry =>
        ((entry.1.dropPrefix? (py "        " ++ field ++ [0x3a])).map strip).map fun found => (entry.2, found)) =
      (rest.zipIdx (count + 1)).findSome? (fieldAt field) := by
  induction rest generalizing count with
  | nil => rfl
  | cons line rest ih =>
    rw [List.zipIdx_cons, List.findSome?_cons, List.findSome?_cons, ih, Option.map_map]
    rfl

private theorem stepField_eq (step field : PyStr) :
    stepField step field = (splitlines step).zipIdx.findSome? (fieldAt field) := by
  unfold stepField
  cases splitlines step with
  | nil => rfl
  | cons first rest =>
    dsimp only [List.head?_cons, Option.bind_some]
    rw [List.zipIdx_cons, List.drop_succ_cons, List.drop_zero, findSome?_fieldAt field rest 0, List.findSome?_cons]
    simp only [fieldAt, fieldOpening, if_true]
    cases first.dropPrefix? (py "      - " ++ field ++ [0x3a]) <;> rfl

private theorem fieldAt_eq_none {field line : PyStr} {index : Nat}
    (other : ¬ fieldOpening index field <+: line) : fieldAt field (line, index) = none := by
  rw [fieldAt, Option.map_eq_none_iff, Option.eq_none_iff_forall_ne_some]
  intro tail found
  exact other ⟨tail, (dropPrefix?_iff.mp found).symm⟩

private theorem stepField_first {step field tail : PyStr} {index : Nat}
    (line : (splitlines step)[index]? = some (fieldOpening index field ++ tail))
    (first : ∀ before < index, ∀ other, (splitlines step)[before]? = some other → ¬ fieldOpening before field <+: other) :
    stepField step field = some (index, strip tail) := by
  rw [stepField_eq, List.findSome?_eq_some_iff]
  obtain ⟨short, own⟩ := List.getElem?_eq_some_iff.mp line
  have whole := List.take_append_drop index (splitlines step).zipIdx
  have below : index < (splitlines step).zipIdx.length := by simpa using short
  rw [List.drop_eq_getElem_cons below, List.getElem_zipIdx, own] at whole
  refine ⟨_, _, _, whole.symm, ?_, ?_⟩
  · have front := dropPrefix?_iff.mpr (rfl : fieldOpening index field ++ tail = fieldOpening index field ++ tail)
    simp [fieldAt, front]
  · intro ⟨other, before⟩ member
    obtain ⟨place, inside, here⟩ := List.mem_take_iff_getElem.mp member
    rw [List.getElem_zipIdx, Prod.mk.injEq, Nat.zero_add] at here
    obtain ⟨content, rfl⟩ := here
    refine fieldAt_eq_none (first place (by omega) other ?_)
    rw [← content]
    exact List.getElem?_eq_getElem _

private theorem stepField_none {step field : PyStr}
    (absent : ∀ index line, (splitlines step)[index]? = some line → ¬ fieldOpening index field <+: line) :
    stepField step field = none := by
  rw [stepField_eq, List.findSome?_eq_none_iff]
  intro ⟨line, index⟩ member
  exact fieldAt_eq_none (absent index line (List.mk_mem_zipIdx_iff_getElem?.mp member))

private theorem replicate_append_inj {count others : Nat} {text rest : PyStr} (solid : text.head? ≠ some 0x20)
    (solidToo : rest.head? ≠ some 0x20)
    (same : List.replicate count 0x20 ++ text = List.replicate others 0x20 ++ rest) : count = others ∧ text = rest := by
  induction count generalizing others with
  | zero =>
    cases others with
    | zero => exact ⟨rfl, same⟩
    | succ others =>
      rw [List.replicate_zero, List.nil_append] at same
      rw [same] at solid
      exact absurd rfl solid
  | succ count ih =>
    cases others with
    | zero =>
      rw [List.replicate_zero, List.nil_append] at same
      rw [← same] at solidToo
      exact absurd rfl solidToo
    | succ others =>
      rw [List.replicate_succ, List.replicate_succ, List.cons_append, List.cons_append] at same
      obtain ⟨equal, both⟩ := ih (List.cons.inj same).2
      exact ⟨by rw [equal], both⟩

private theorem label_eq_run {label tail rest : PyStr} (spelled : SpellsRun label)
    (same : label ++ 0x3a :: tail = py "run" ++ 0x3a :: rest) : label = py "run" := by
  rcases spelled with ⟨gap, rfl, blank⟩ | rfl | ⟨mark, marked, first⟩
  · rw [List.append_assoc, List.append_cancel_left_eq] at same
    cases gap with
    | nil => rw [List.append_nil]
    | cons point gap =>
      obtain ⟨rfl, -⟩ := List.cons.inj same
      cases (List.all_eq_true.mp blank) _ List.mem_cons_self
  · cases (List.cons.inj same).1
  · cases label with
    | nil => cases first
    | cons point label =>
      have plain : py "run" = 0x72 :: py "un" := rfl
      rw [plain, List.cons_append, List.cons_append] at same
      rw [← Option.some.inj first, (List.cons.inj same).1] at marked
      cases (by decide : 0x72 ∉ keyMarks) marked

namespace RunBlock

variable {step : PyStr} (run : RunBlock step)

private theorem line_at : (splitlines step)[run.index]? =
    some (lineOpening run.index run.column ++ run.label ++ 0x3a :: run.tail) := by
  rw [← List.head?_drop, run.lines, List.head?_cons]

private theorem fieldOpening_eq (index : Nat) : fieldOpening index (py "run") = lineOpening index 8 ++ py "run" ++ [0x3a] := by
  unfold fieldOpening lineOpening
  split <;> rfl

private theorem starts_iff :
    fieldOpening run.index (py "run") <+: lineOpening run.index run.column ++ run.label ++ 0x3a :: run.tail ↔
      run.column = 8 ∧ run.label = py "run" := by
  rw [fieldOpening_eq]
  constructor
  · intro ⟨rest, same⟩
    have solid : (run.label ++ 0x3a :: run.tail).head? ≠ some 0x20 := by
      rcases run.spelled with ⟨gap, label, -⟩ | label | ⟨mark, marked, first⟩
      · rw [label]
        exact fun space => by cases Option.some.inj space
      · rw [label]
        exact fun space => by cases Option.some.inj space
      · rw [List.head?_append, first]
        intro space
        rw [Option.some.inj space] at marked
        cases (by decide : 0x20 ∉ keyMarks) marked
    have plain : (py "run" ++ 0x3a :: rest).head? ≠ some 0x20 := fun space => by cases Option.some.inj space
    have both : run.column = 8 ∧ run.label ++ 0x3a :: run.tail = py "run" ++ 0x3a :: rest := by
      have inside := run.inside
      unfold lineOpening at same
      split at same
      · rename_i first
        rw [if_pos first] at inside
        simp only [List.append_assoc, List.append_cancel_left_eq] at same
        obtain ⟨count, text⟩ := replicate_append_inj plain solid same
        exact ⟨by omega, text.symm⟩
      · simp only [List.append_assoc] at same
        obtain ⟨count, text⟩ := replicate_append_inj plain solid same
        exact ⟨count.symm, text.symm⟩
    exact ⟨both.1, label_eq_run run.spelled both.2⟩
  · intro ⟨column, label⟩
    rw [column, label]
    exact ⟨run.tail, by simp⟩

end RunBlock

/-! ### The block and its indentation -/

private theorem startsWith_spaces (count : Nat) (line : PyStr) :
    startsWith (List.replicate count 0x20) line = true ↔ count ≤ indentation line := by
  induction count generalizing line with
  | zero => simp [startsWith]
  | succ count ih =>
    cases line with
    | nil => simp [startsWith, indentation, List.replicate_succ]
    | cons point line =>
      rw [List.replicate_succ, startsWith, List.isPrefixOf_cons_cons, Bool.and_eq_true, ← startsWith, ih]
      by_cases space : point = 0x20
      · simp [space, indentation]
      · simp [indentation, space, Ne.symm space]

private theorem isTaken_iff (line : PyStr) : RunBlock.isTaken line = true ↔ line = [] ∨ 10 ≤ indentation line := by
  have ten : py "          " = List.replicate 10 0x20 := rfl
  rw [RunBlock.isTaken, Bool.or_eq_true, List.isEmpty_iff, ten, startsWith_spaces]

private theorem length_le_longest {lines : List PyStr} (member : line ∈ lines) :
    line.length ≤ (lines.map List.length).foldr max 0 := by
  induction lines with
  | nil => cases member
  | cons first rest ih =>
    rw [List.map_cons, List.foldr_cons]
    rcases List.mem_cons.mp member with rfl | later
    · exact le_max_left _ _
    · exact (ih later).trans (le_max_right _ _)

private theorem contentIndent_cases (detected : contentIndent column lines = some indent) :
    ((∀ line ∈ blockBody indent lines, isSpaces line = true ∧ line.length ≤ indent) ∧
      ∃ below, lines = blockBody indent lines ++ below ∧
        ∀ line, below.head? = some line → isSpaces line = false ∧ indentation line ≤ column) ∨
      ∃ line ∈ blockBody indent lines, isSpaces line = false ∧ indentation line = indent := by
  have whole : lines.takeWhile isSpaces ++ lines.dropWhile isSpaces = lines := List.takeWhile_append_dropWhile
  have blank : ∀ line ∈ lines.takeWhile isSpaces, isSpaces line = true :=
    fun line member => List.mem_takeWhile_imp member
  have words : ∀ line, (lines.dropWhile isSpaces).head? = some line → isSpaces line = false := by
    intro line first
    have stop := List.head?_dropWhile_not isSpaces lines
    rw [first] at stop
    simpa using stop
  unfold contentIndent at detected
  generalize lines.takeWhile isSpaces = leading at *
  generalize lines.dropWhile isSpaces = below at *
  subst whole
  have within : ∀ line ∈ leading, inBlock indent line = true := by
    intro line member
    rw [inBlock, blank line member, Bool.true_or]
  rw [blockBody, List.takeWhile_append_of_pos within]
  cases below with
  | nil =>
    rw [List.head?_nil] at detected
    obtain rfl := Option.some.inj detected
    refine .inl ⟨?_, [], by simp, nofun⟩
    intro line member
    rw [List.takeWhile_nil, List.append_nil] at member
    exact ⟨blank line member, (length_le_longest member).trans (le_max_right _ _)⟩
  | cons first rest =>
    have own := words first rfl
    rw [List.head?_cons] at detected
    dsimp only at detected
    split at detected
    · rename_i field
      obtain rfl := Option.some.inj detected
      have outside : inBlock (max (column + 1) ((leading.map List.length).foldr max 0)) first = false := by
        rw [inBlock, own, Bool.false_or, decide_eq_false_iff_not]
        omega
      rw [List.takeWhile_cons_of_neg (Bool.eq_false_iff.mp outside), List.append_nil]
      refine .inl ⟨?_, first :: rest, rfl, ?_⟩
      · intro line member
        exact ⟨blank line member, (length_le_longest member).trans (le_max_right _ _)⟩
      · intro line found
        obtain rfl := Option.some.inj found
        exact ⟨own, field⟩
    · split at detected
      · obtain rfl := Option.some.inj detected
        refine .inr ⟨first, ?_, own, rfl⟩
        rw [List.takeWhile_cons_of_pos (by simp [inBlock])]
        exact List.mem_append_right _ List.mem_cons_self
      · cases detected

private theorem takeWhile_stop {inClass : PyStr → Bool} {below : List PyStr}
    (stop : ∀ line, below.head? = some line → inClass line = false) (lines : List PyStr) :
    (lines ++ below).takeWhile inClass = lines.takeWhile inClass := by
  induction lines with
  | nil =>
    cases below with
    | nil => rfl
    | cons first rest => exact List.takeWhile_cons_of_neg (by simp [stop first rfl])
  | cons line rest ih =>
    rw [List.cons_append, List.takeWhile_cons, List.takeWhile_cons, ih]

/-! ### The header -/

private theorem mem_strip {text : PyStr} (member : point ∈ text) (solid : isSpace point = false) :
    point ∈ strip text := by
  have left := mem_dropWhile member solid
  exact List.mem_reverse.mpr (mem_dropWhile (List.mem_reverse.mpr left) solid)

private theorem strip_indicator {lead style trailer : PyStr} (indicator : style ∈ blockIndicators)
    (spaces : ∀ point ∈ lead, isSpace point = true) (behind : trailer.all isBlank = true) :
    strip (lead ++ style ++ trailer) = style := by
  have words : ∀ style ∈ blockIndicators, style ≠ [] ∧ strip style = style := by decide
  rw [List.append_assoc]
  exact strip_between spaces (fun point member => isSpace_of_isBlank (List.all_eq_true.mp behind point member))
    (words style indicator).1 (words style indicator).2

private theorem not_indicator {text : PyStr} (marked : point ∈ py "!&#") (member : point ∈ text) :
    strip text ∉ blockIndicators := by
  intro indicator
  have solid : ∀ mark ∈ py "!&#", isSpace mark = false := by decide
  have kept := mem_strip member (solid point marked)
  have unmarked : ∀ style ∈ blockIndicators, ∀ mark ∈ py "!&#", mark ∉ style := by decide
  exact unmarked _ indicator _ marked kept

private theorem lead_cases {marks lead : PyStr} (before : IsLead marks lead) :
    (∀ point ∈ lead, isSpace point = true) ∨ ∃ mark ∈ marks, mark ∈ lead := by
  unfold IsLead at before
  cases found : lead.dropWhile isBlank with
  | nil => exact .inl fun point member => isSpace_of_isBlank (List.dropWhile_eq_nil_iff.mp found point member)
  | cons point rest =>
    rw [found, List.head?_cons, Option.all_some, decide_eq_true_iff] at before
    have member : point ∈ lead.dropWhile isBlank := found ▸ List.mem_cons_self
    exact .inr ⟨point, before, (List.dropWhile_suffix isBlank).subset member⟩

private theorem header_cases {style tail : PyStr} {others : List PyStr} (indicator : style ∈ blockIndicators)
    (header : BlockHeader style (tail :: others)) : (others = [] ∧ strip tail = style) ∨ strip tail ∉ blockIndicators := by
  cases header with
  | indicator lead trailer before apart behind =>
    rcases lead_cases before with blank | ⟨point, marked, member⟩
    · rcases behind with spaces | ⟨gap, comment, rfl, -, -⟩
      · exact .inl ⟨rfl, strip_indicator indicator blank spaces⟩
      · exact .inr (not_indicator (by decide : 0x23 ∈ py "!&#") (by simp))
    · have more : ∀ mark ∈ py "!&", mark ∈ py "!&#" := by decide
      exact .inr (not_indicator (more point marked) (by simp [member]))
  | line lead rest before more =>
    rcases lead_cases before with blank | ⟨point, marked, member⟩
    · have empty : strip tail = [] := by rw [strip, lstrip, List.dropWhile_eq_nil_iff.mpr blank]; rfl
      rw [empty]
      exact .inr (by decide)
    · exact .inr (not_indicator marked member)

/-! ### Both strings -/

namespace RunBlock

variable {step : PyStr} (run : RunBlock step)

private theorem body_cases (eight : run.column = 8) :
    run.below.takeWhile isTaken = run.taken ∧
      ((run.body.all isSpaces = true ∧ ∀ line ∈ run.body, line.drop run.indent = []) ∨
        (run.body.all isSpaces = false ∧ run.indent = 10)) := by
  rcases contentIndent_cases run.detected with ⟨blank, behind, whole, field⟩ | ⟨line, member, words, first⟩
  · refine ⟨?_, .inl ⟨List.all_eq_true.mpr fun line member => (blank line member).1, ?_⟩⟩
    · conv_lhs => rw [whole]
      refine takeWhile_stop (fun line found => ?_) _
      obtain ⟨own, column⟩ := field line found
      by_contra took
      rcases (isTaken_iff line).mp (by simpa using took) with rfl | far
      · cases own
      · omega
    · exact fun line member => List.drop_eq_nil_of_le (blank line member).2
  · have ten : run.indent = 10 := by
      rcases run.ten line member with blank | ten
      · rw [words] at blank
        cases blank
      · omega
    refine ⟨?_, .inr ⟨?_, ten⟩⟩
    · conv_lhs => rw [← List.takeWhile_append_dropWhile (p := inBlock run.indent) (l := run.below)]
      refine takeWhile_stop (fun line found => ?_) _
      have outside := List.head?_dropWhile_not (inBlock run.indent) run.below
      rw [found] at outside
      by_contra took
      rcases (isTaken_iff line).mp (by simpa using took) with rfl | far
      · simp [inBlock, isSpaces] at outside
      · simp [inBlock, ten, far] at outside
    · by_contra blank
      have all : run.body.all isSpaces = true := by simpa using blank
      rw [List.all_eq_true.mp all line member] at words
      cases words

private theorem line_mem {line : PyStr} (member : line ∈ run.tail :: (run.others ++ run.below)) :
    0x0a ∉ line := by
  have known : ∀ own ∈ (splitlines step).drop run.index, 0x0a ∉ own :=
    fun own present => newline_not_mem (List.mem_of_mem_drop present)
  rw [run.lines] at known
  rcases List.mem_cons.mp member with rfl | later
  · intro inside
    exact known _ List.mem_cons_self (by simp [inside])
  · exact known line (List.mem_cons_of_mem _ later)

private theorem clean {lines : List PyStr} (some : ∀ line ∈ lines, line ∈ run.body) :
    ∀ content ∈ lines.map (·.drop 10), 0x0a ∉ content := by
  intro content member inside
  obtain ⟨line, present, rfl⟩ := List.mem_map.mp member
  have known := (List.takeWhile_prefix _).subset (some line present)
  exact run.line_mem (by simp [known]) (List.mem_of_mem_drop inside)

private theorem stepField_plain (plain : run.Plain) : stepField step (py "run") = some (run.index, strip run.tail) := by
  obtain ⟨column, label, first⟩ := plain
  refine stepField_first ?_ first
  rw [run.line_at, fieldOpening_eq, column, label]
  simp

private theorem stepRunCommand_bare (plain : run.Plain) (bare : run.Bare) :
    stepRunCommand step = some (joinLines (run.taken.map (·.drop 10))) := by
  have behind : (splitlines step).drop (run.index + 1) = run.below := by
    rw [← List.drop_drop, run.lines, bare.1]
    rfl
  rw [stepRunCommand, run.stepField_plain plain, bare.2]
  simp only [run.indicator, ↓reduceIte, behind]
  rw [← (run.body_cases plain.1).1]
  rfl

private theorem stepRunCommand_other (plain : run.Plain) (other : ¬ run.Bare) :
    stepRunCommand step = some (strip run.tail) := by
  rw [stepRunCommand, run.stepField_plain plain]
  simp [(header_cases run.indicator run.header).resolve_left other]

private theorem stepRunCommand_none (alone : run.Alone) (other : ¬ run.Plain) : stepRunCommand step = none := by
  have unread : ∀ place line, (splitlines step)[place]? = some line → ¬ fieldOpening place (py "run") <+: line := by
    intro place line found starts
    have own := alone place line found starts
    rw [own, run.line_at] at found
    rw [own, ← Option.some.inj found] at starts
    obtain ⟨column, label⟩ := run.starts_iff.mp starts
    refine other ⟨column, label, fun before earlier line found starts => ?_⟩
    have same := alone before line found starts
    omega
  rw [stepRunCommand, stepField_none unread]

private theorem script_iff (eight : run.column = 8) :
    chomp 0x0a (joinLines (run.taken.map (·.drop 10))) = chomp 0x0a run.script ↔ run.ReadAlike := by
  have split : run.taken ++ run.left = run.body := List.takeWhile_append_dropWhile
  have first : ∀ content ∈ run.taken.map (·.drop 10), 0x0a ∉ content :=
    run.clean fun line member => split ▸ List.mem_append_left _ member
  have others : ∀ content ∈ run.left.map (·.drop 10), 0x0a ∉ content :=
    run.clean fun line member => split ▸ List.mem_append_right _ member
  have distinct : (0x20 : Nat) ≠ 0x0a := by decide
  rw [ReadAlike, script, scalarText, joinLines_eq_intercalate, joinLines_eq_intercalate]
  rcases (run.body_cases eight).2 with ⟨blank, empty⟩ | ⟨words, ten⟩
  · have contents : ∀ content ∈ run.body.map (·.drop run.indent), content = [] := List.forall_mem_map.mpr empty
    have unbroken : ∀ content ∈ run.body.map (·.drop run.indent), 0x0a ∉ content := by
      intro content member
      rw [contents content member]
      exact List.not_mem_nil
    rw [blank, if_pos rfl]
    cases isFolded run.style with
    | true =>
      rw [if_pos rfl, foldedLines, (chomp_foldedFrom_nil unbroken none 0).mpr contents, chomp_intercalate_nil first,
        List.forall_mem_map]
    | false =>
      rw [if_neg Bool.false_ne_true, (chomp_intercalate_nil unbroken).mpr contents, chomp_intercalate_nil first,
        List.forall_mem_map]
  · rw [words, if_neg Bool.false_ne_true, ten, ← split, List.map_append]
    cases isFolded run.style with
    | true =>
      rw [if_pos rfl, chomp_foldedLines_iff distinct first others, List.forall_mem_map]
      simp
    | false =>
      rw [if_neg Bool.false_ne_true, chomp_intercalate_iff distinct first others, List.forall_mem_map]
      simp

private theorem plain_iff (plain : run.Plain) :
    (stepRunCommand step).map (chomp 0x0a) = some (chomp 0x0a run.script) ↔ run.ReadRight := by
  by_cases bare : run.Bare
  · rw [run.stepRunCommand_bare plain bare, Option.map_some, Option.some_inj, run.script_iff plain.1]
    simp [ReadRight, plain, bare]
  · have unbroken : 0x0a ∉ strip run.tail := fun inside => run.line_mem List.mem_cons_self
      ((List.dropWhile_suffix _).subset ((List.rdropWhile_prefix isSpace _).subset inside))
    have kept : chomp 0x0a (strip run.tail) = strip run.tail := by
      by_cases empty : strip run.tail = []
      · rw [empty]
        rfl
      · simpa [chomp] using chomp_append_line empty unbroken [] []
    rw [run.stepRunCommand_other plain bare, Option.map_some, Option.some_inj, kept, eq_comm]
    simp [ReadRight, plain, bare]

end RunBlock

/-- The policy test reads the script that the runner gets of such fields, and of no others, unless
it takes another line for the field. -/
theorem stepRunCommand_iff (step : PyStr) (run : RunBlock step) :
    (run.ReadRight → (stepRunCommand step).map (chomp 0x0a) = some (chomp 0x0a run.script)) ∧
      (run.Alone → (stepRunCommand step).map (chomp 0x0a) = some (chomp 0x0a run.script) → run.ReadRight) := by
  refine ⟨fun right => (run.plain_iff right.1).mpr right, fun alone same => ?_⟩
  by_cases plain : run.Plain
  · exact (run.plain_iff plain).mp same
  · rw [run.stepRunCommand_none alone plain] at same
    cases same

def literalStep : PyStr :=
  py "      - name: Build\n        run: |\n          make\n\n          make test\n        env: x"

/-- A literal block with an empty line, and a field behind it. -/
def literalBlock : RunBlock literalStep where
  index := 1
  column := 8
  label := py "run"
  tail := py " |"
  others := []
  below := (splitlines literalStep).drop 2
  style := py "|"
  indent := 10
  lines := by decide
  inside := by decide
  spelled := .inl ⟨[], rfl, rfl⟩
  apart := rfl
  header := .indicator (py " ") [] rfl rfl (.inl rfl)
  indicator := by decide
  detected := by decide
  ten := by decide

theorem literal_block_is_read :
    (stepRunCommand literalStep).map (chomp 0x0a) = some (chomp 0x0a literalBlock.script) := by
  have words : literalBlock.body.all isSpaces = false := by decide
  have alike : literalBlock.ReadAlike := by
    rw [RunBlock.ReadAlike, words, if_neg Bool.false_ne_true]
    exact ⟨by decide, fun folded => by cases folded⟩
  have name : ∀ other, (splitlines literalStep)[0]? = some other → ¬ fieldOpening 0 (py "run") <+: other := by
    decide
  refine (stepRunCommand_iff literalStep literalBlock).1 ⟨⟨rfl, rfl, ?_⟩, .inl ⟨⟨rfl, rfl⟩, alike⟩⟩
  intro before earlier
  obtain rfl : before = 0 := Nat.lt_one_iff.mp earlier
  exact name

def foldedStep : PyStr := py "      - run: >-\n          make\n          all"

/-- Two lines of a folded block are one line of the script. -/
def foldedBlock : RunBlock foldedStep where
  index := 0
  column := 8
  label := py "run"
  tail := py " >-"
  others := []
  below := (splitlines foldedStep).drop 1
  style := py ">-"
  indent := 10
  lines := by decide
  inside := by decide
  spelled := .inl ⟨[], rfl, rfl⟩
  apart := rfl
  header := .indicator (py " ") [] rfl rfl (.inl rfl)
  indicator := by decide
  detected := by decide
  ten := by decide

/-- The policy test reads two commands, where the runner gets one with an argument. -/
theorem folded_block_is_not_folded :
    stepRunCommand foldedStep = some (py "make\nall") ∧ foldedBlock.script = py "make all" ∧
      (stepRunCommand foldedStep).map (chomp 0x0a) ≠ some (chomp 0x0a foldedBlock.script) := by
  decide

end Charybdis.Policy
