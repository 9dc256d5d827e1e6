import Charybdis.Policy.ShellText
import Charybdis.Policy.Workflow

/-! The command lines the shell makes of a script, and the scripts of which the policy test
reads the same lines. -/

namespace Charybdis.Policy

open Foundation (rdropWhile_append_solid)
open Stub (PyStr py)

/-! ### The lines of the shell -/

def isCommentLine (text : PyStr) : Bool := startsWith (py "#") (text.dropWhile isBlank)

/-- Nothing to run: blanks, and a comment behind them. -/
def isQuiet (text : PyStr) : Bool := (text.dropWhile isBlank).isEmpty || isCommentLine text

/-- Whether a line read so far ends inside of a comment, where a backslash is text like any
other. Which `#` further on in a line starts one is left to the rule. -/
structure CommentRule where
  inside : PyStr → Bool
  ofLine : ∀ text, isCommentLine text = true → inside text = true
  marked : ∀ text, inside text = true → 0x23 ∈ text

private theorem mem_of_isCommentLine (comment : isCommentLine text = true) : 0x23 ∈ text := by
  obtain ⟨rest, found⟩ := List.isPrefixOf_iff_prefix.mp comment
  refine (List.dropWhile_suffix isBlank).subset ?_
  rw [← found]
  exact List.mem_cons_self

/-- Whole lines are the only comments. -/
def CommentRule.wholeLine : CommentRule where
  inside := isCommentLine
  ofLine _ comment := comment
  marked _ := mem_of_isCommentLine

/-- A word starts behind a blank or an operator. -/
def startsWord (before : Nat) : Bool := isBlank before || before ∈ py ";&|()<>"

private theorem comment_startsWord {blanks : PyStr} (blank : ∀ point ∈ blanks, isBlank point = true)
    (word : startsWord before = true) (rest : PyStr) :
    ((before :: (blanks ++ 0x23 :: rest)).zip (blanks ++ 0x23 :: rest)).any
      (fun pair => startsWord pair.1 && pair.2 == 0x23) = true := by
  induction blanks generalizing before with
  | nil => simp [word]
  | cons point blanks ih =>
    obtain ⟨own, others⟩ := List.forall_mem_cons.mp blank
    rw [List.cons_append, List.zip_cons_cons, List.any_cons, ih others (by simp [startsWord, own]), Bool.or_true]

/-- A comment begins at a `#` that starts a word. -/
def CommentRule.wordStart : CommentRule where
  inside text := ((0x20 :: text).zip text).any fun pair => startsWord pair.1 && pair.2 == 0x23
  ofLine text comment := by
    obtain ⟨rest, found⟩ := List.isPrefixOf_iff_prefix.mp comment
    have split : text = text.takeWhile isBlank ++ 0x23 :: rest := by
      conv_lhs => rw [← List.takeWhile_append_dropWhile (p := isBlank) (l := text), ← found]
      rfl
    rw [split]
    exact comment_startsWord (fun point member => List.mem_takeWhile_imp member) rfl rest
  marked text inside := by
    obtain ⟨pair, member, marks⟩ := List.any_eq_true.mp inside
    simp only [Bool.and_eq_true, beq_iff_eq] at marks
    rw [← marks.2]
    exact (List.of_mem_zip member).2

variable (comments : CommentRule)

/-- A backslash immediately before the newline, outside of a comment, joins the next line. -/
def joinsNext (pending : List PyStr) (line : PyStr) : Bool :=
  line.getLast? == some 0x5c && !comments.inside (pending.flatten ++ line)

/-- The lines a shell reads, as the physical pieces they are joined from, without the joining
backslashes. The last physical line is the one that no newline ends. -/
def logicalLines (last : PyStr) : List PyStr → List PyStr → List (List PyStr)
  | pending, [] => [pending ++ [last]]
  | pending, line :: rest =>
    if joinsNext comments pending line then logicalLines last (pending ++ [line.dropLast]) rest
    else (pending ++ [line]) :: logicalLines last [] rest

/-- What the shell runs of lines behind pending pieces: each piece stripped, one space between
two of them. -/
def commandLinesFrom (last : PyStr) (pending lines : List PyStr) : List PyStr :=
  ((logicalLines comments last pending lines).filter fun pieces => !isQuiet pieces.flatten).map fun pieces =>
    join (py " ") (pieces.map strip)

/-- The non-empty command lines of a script without quotes and here-documents, comments apart. -/
def commandLines (text : PyStr) : List PyStr :=
  let lines := split 0x0a text
  commandLinesFrom comments (lines.getLastD []) [] lines.dropLast

example : commandLines .wholeLine (py "# build\nmake \\\n  all\nmake \\\n\nmake test \\") =
    [py "make all", py "make ", py "make test \\"] := by decide

/-! ### The scripts read alike -/

/-- Nothing but blanks, comments and backslashes that join blanks. -/
def staysSilent (last : PyStr) (lines : List PyStr) : Bool :=
  lines.all (fun line => isQuiet line || (line.getLast? == some 0x5c && line.dropLast.all isBlank)) && isQuiet last

/-- The lines behind pending pieces of which the policy test reads what the shell runs. A line
that it skips ends no pending words, a backslash that it joins at stands before the newline, and
the script does not end in one. -/
def continuesPlainly (last : PyStr) : List PyStr → List PyStr → Bool
  | pending, [] =>
    if isBare last then pending.flatten.all isBlank && isQuiet last
    else !endsWith [0x5c] (strip last)
  | pending, line :: rest =>
    if isBare line then
      pending.flatten.all isBlank && isQuiet line &&
        (if pending.isEmpty then continuesPlainly last [] rest else staysSilent last rest)
    else if endsWith [0x5c] (strip line) then
      joinsNext comments pending line && continuesPlainly last (pending ++ [line.dropLast]) rest
    else continuesPlainly last [] rest

/-! ### Blank and bare lines -/

private theorem startsWith_mark (point : Nat) (rest : PyStr) :
    startsWith (py "#") (point :: rest) = (point == 0x23) := by
  have mark : py "#" = [0x23] := rfl
  rw [mark, startsWith, List.isPrefixOf_cons_cons, List.isPrefixOf_nil_left, Bool.and_true, Bool.beq_comm]

private theorem lstrip_dropWhile_blank (text : PyStr) : lstrip (text.dropWhile isBlank) = lstrip text := by
  conv_rhs => rw [← List.takeWhile_append_dropWhile (p := isBlank) (l := text)]
  exact (lstrip_append (fun point member => isSpace_of_isBlank (List.mem_takeWhile_imp member)) _).symm

private theorem lstrip_of_comment (comment : isCommentLine line = true) : ∃ rest, lstrip line = 0x23 :: rest := by
  obtain ⟨rest, found⟩ := List.isPrefixOf_iff_prefix.mp comment
  refine ⟨rest, ?_⟩
  rw [← lstrip_dropWhile_blank, ← found]
  exact lstrip_solid rfl rest

private theorem strip_of_blank (blank : text.all isBlank = true) : strip text = [] := by
  have empty : lstrip text = [] :=
    List.dropWhile_eq_nil_iff.mpr fun point member => isSpace_of_isBlank (List.all_eq_true.mp blank point member)
  rw [strip, empty]
  rfl

theorem isBare_of_quiet (quiet : isQuiet line = true) : isBare line = true := by
  rcases Bool.or_eq_true_iff.mp quiet with empty | comment
  · have stripped : lstrip line = [] := by
      rw [← lstrip_dropWhile_blank, List.isEmpty_iff.mp empty]
      rfl
    simp [isBare, stripped]
  · obtain ⟨rest, stripped⟩ := lstrip_of_comment comment
    simp [isBare, stripped, startsWith_mark]

theorem isBare_eq (line : PyStr) : ((strip line).isEmpty || startsWith (py "#") (strip line)) = isBare line := by
  rcases strip_cases line with ⟨front, whole⟩ | ⟨point, rest, _, front, whole⟩
  · rw [isBare, front, whole]
  · simp [isBare, front, whole, startsWith_mark]

/-- A piece that the code keeps does not start with a mark. -/
def isFree (fragment : PyStr) : Bool := !startsWith (py "#") fragment

private theorem isCommentLine_append (front rest : PyStr) :
    isCommentLine (front ++ rest) = if front.all isBlank then isCommentLine rest else isCommentLine front := by
  unfold isCommentLine
  rw [List.dropWhile_append]
  by_cases blank : front.all isBlank = true
  · have empty : front.dropWhile isBlank = [] := List.dropWhile_eq_nil_iff.mpr (by simpa using blank)
    simp [blank, empty]
  · obtain ⟨point, later, found⟩ := List.exists_cons_of_ne_nil
      (show front.dropWhile isBlank ≠ [] from fun empty => blank (by simpa using empty))
    simp [blank, found, startsWith_mark]

private theorem isQuiet_append (front rest : PyStr) :
    isQuiet (front ++ rest) = if front.all isBlank then isQuiet rest else isCommentLine front := by
  unfold isQuiet
  rw [isCommentLine_append, List.dropWhile_append]
  by_cases blank : front.all isBlank = true
  · have empty : front.dropWhile isBlank = [] := List.dropWhile_eq_nil_iff.mpr (by simpa using blank)
    simp [blank, empty]
  · obtain ⟨point, later, found⟩ := List.exists_cons_of_ne_nil
      (show front.dropWhile isBlank ≠ [] from fun empty => blank (by simpa using empty))
    simp [blank, found]

private theorem not_quiet_of_full (full : isBare line = false) : isQuiet line = false := by
  by_contra quiet
  rw [isBare_of_quiet (by simpa using quiet)] at full
  cases full

private theorem isFree_of_not_bare (full : isBare line = false) : isFree (strip line) = true := by
  rw [← isBare_eq, Bool.or_eq_false_iff] at full
  simp [isFree, full.2]

private theorem not_comment_of_free (free : isFree (strip line) = true) : isCommentLine line = false := by
  by_contra comment
  obtain ⟨rest, stripped⟩ := lstrip_of_comment (by simpa using comment)
  rcases strip_cases line with ⟨front, _⟩ | ⟨point, later, _, front, whole⟩
  · rw [stripped] at front
    cases front
  · rw [stripped] at front
    cases front
    simp [isFree, whole, startsWith_mark] at free

private theorem not_comment_flatten {pending : List PyStr} (free : ∀ piece ∈ pending, isFree (strip piece) = true) :
    isCommentLine pending.flatten = false := by
  induction pending with
  | nil => rfl
  | cons piece rest ih =>
    obtain ⟨own, others⟩ := List.forall_mem_cons.mp free
    rw [List.flatten_cons, isCommentLine_append]
    split
    · exact ih others
    · exact not_comment_of_free own

private theorem quiet_behind {pending : List PyStr} (free : ∀ piece ∈ pending, isFree (strip piece) = true)
    (line : PyStr) : isQuiet (pending.flatten ++ line) = (pending.flatten.all isBlank && isQuiet line) := by
  rw [isQuiet_append, not_comment_flatten free]
  cases pending.flatten.all isBlank <;> rfl

private theorem noisy_behind {pending : List PyStr} (free : ∀ piece ∈ pending, isFree (strip piece) = true)
    (full : isBare line = false) : isQuiet (pending.flatten ++ line) = false := by
  rw [quiet_behind free, not_quiet_of_full full, Bool.and_false]

/-! ### The loop of the policy test -/

/-- The commands of lines behind fragments. -/
def commandsFrom : List PyStr → List PyStr → List PyStr
  | _, [] => []
  | fragments, line :: rest =>
    if isBare line then commandsFrom fragments rest
    else if endsWith [0x5c] (strip line) then commandsFrom (fragments ++ [rstrip (strip line).dropLast]) rest
    else join (py " ") (fragments ++ [strip line]) :: commandsFrom [] rest

private theorem foldl_step (scan : ShellScan) (lines : List PyStr) :
    (lines.foldl ShellScan.step scan).commands = scan.commands ++ commandsFrom scan.fragments lines := by
  induction lines generalizing scan with
  | nil => simp [commandsFrom]
  | cons line rest ih =>
    rw [List.foldl_cons, ih, commandsFrom, ShellScan.step]
    simp only [isBare_eq]
    split
    · rfl
    · split
      · rfl
      · simp [rstrip_strip]

private theorem commandsFrom_trimmed (fragments lines : List PyStr) :
    commandsFrom fragments (trimmed lines) = commandsFrom fragments lines := by
  induction lines generalizing fragments with
  | nil => rfl
  | cons line rest ih =>
    cases rest with
    | nil =>
      cases line with
      | nil => rfl
      | cons point line => rfl
    | cons next rest =>
      simp only [trimmed, commandsFrom, ih]

private theorem isFree_continued (full : isBare line = false) : isFree (rstrip (strip line).dropLast) = true := by
  rcases strip_cases line with ⟨front, _⟩ | ⟨point, rest, solid, front, whole⟩
  · simp [isBare, front] at full
  · simp only [isBare, front, startsWith_mark, List.isEmpty_cons, Bool.false_or] at full
    rw [whole]
    cases rstrip rest with
    | nil => rfl
    | cons next later =>
      rw [List.dropLast_cons_cons]
      have kept : rstrip (point :: (next :: later).dropLast) = point :: rstrip (next :: later).dropLast :=
        rdropWhile_append_solid solid [] _
      rw [kept, isFree, startsWith_mark, full]
      rfl

theorem strip_joined (ended : line.getLast? = some 0x5c) : strip line = lstrip line.dropLast ++ [0x5c] := by
  obtain ⟨body, rfl⟩ := List.getLast?_eq_some_iff.mp ended
  rw [strip_concat_solid rfl, List.dropLast_concat]

theorem fragment_joined (ended : line.getLast? = some 0x5c) :
    rstrip (strip line).dropLast = strip line.dropLast := by
  rw [strip_joined ended, List.dropLast_concat]
  rfl

private theorem commandsFrom_head {fragments lines : List PyStr}
    (found : commandsFrom fragments lines = command :: later) :
    ∃ more, more ≠ [] ∧ (∀ piece ∈ more, isFree piece = true) ∧ command = join (py " ") (fragments ++ more) ∧
      ∃ point, command.getLast? = some point ∧ isSpace point = false ∧ point ≠ 0x5c := by
  induction lines generalizing fragments with
  | nil => cases found
  | cons line rest ih =>
    rw [commandsFrom] at found
    split at found
    · exact ih found
    · rename_i full
      have full : isBare line = false := by simpa using full
      split at found
      · obtain ⟨more, some, free, same, solid⟩ := ih found
        refine ⟨_ :: more, List.cons_ne_nil _ _, List.forall_mem_cons.mpr ⟨isFree_continued full, free⟩, ?_, solid⟩
        rw [same, List.append_assoc]
        rfl
      · rename_i plain
        obtain ⟨rfl, -⟩ := List.cons.inj found
        refine ⟨[strip line], by simp, ?_, rfl, ?_⟩
        · simpa using isFree_of_not_bare full
        · obtain ⟨point, final⟩ : ∃ point, (strip line).getLast? = some point := by
            rcases strip_cases line with ⟨front, _⟩ | ⟨point, rest, _, _, whole⟩
            · simp [isBare, front] at full
            · rw [whole]
              exact ⟨_, List.getLast?_cons⟩
          refine ⟨point, ?_, strip_getLast final, ?_⟩
          · rw [join_append _ _ (List.cons_ne_nil _ _), List.getLast?_append, join, final]
            rfl
          · rintro rfl
            exact plain (endsWith_point.mpr final)

/-! ### Commands of one side only -/

/-- The commands start with one that completes the fragments, but not as the policy test does. -/
inductive Foreign (fragments : List PyStr) : List PyStr → Prop where
  | marked (mark : isFree piece = false) (same : command = join (py " ") (fragments ++ piece :: more)) :
      Foreign fragments (command :: rest)
  | ended (final : ∀ point, command.getLast? = some point → isSpace point = true ∨ point = 0x5c) :
      Foreign fragments (command :: rest)

private theorem join_head {pieces : List PyStr} (free : ∀ piece ∈ pieces, isFree piece = true) :
    (join (py " ") pieces).head? ≠ some 0x23 := by
  cases pieces with
  | nil => exact nofun
  | cons piece rest =>
    have own := free piece List.mem_cons_self
    cases piece with
    | nil => cases rest <;> simp [join, py]
    | cons point piece =>
      have other : point ≠ 0x23 := by
        rintro rfl
        simp [isFree, startsWith_mark] at own
      cases rest <;> simpa [join] using other

private theorem join_head_marked (mark : isFree piece = false) (more : List PyStr) :
    (join (py " ") (piece :: more)).head? = some 0x23 := by
  cases piece with
  | nil => cases mark
  | cons point piece =>
    have same : point = 0x23 := by simpa [isFree, startsWith_mark] using mark
    cases more <;> simp [join, same]

theorem Foreign.empty (fragments rest : List PyStr) :
    Foreign fragments (join (py " ") (fragments ++ [[]]) :: rest) := by
  refine .ended fun point final => .inl ?_
  rw [join_append _ _ (List.cons_ne_nil _ _)] at final
  rcases List.eq_nil_or_concat' fragments with rfl | ⟨front, piece, rfl⟩
  · cases final
  · rw [List.flatMap_append] at final
    simp only [join, List.flatMap_singleton, List.append_nil, py, ← List.append_assoc] at final
    have space : point = 0x20 := (Option.some.inj (List.getLast?_concat.symm.trans final)).symm
    rw [space]
    rfl

theorem Foreign.ne (foreign : Foreign fragments commands) {more : List PyStr}
    (free : ∀ piece ∈ more, isFree piece = true) (lines : List PyStr) :
    commandsFrom (fragments ++ more) lines ≠ commands := by
  intro same
  cases foreign with
  | marked mark other =>
    obtain ⟨middle, some, freeToo, whole, _⟩ := commandsFrom_head same
    rw [other, List.append_assoc, join_append _ _ (List.cons_ne_nil _ _),
      join_append _ _ (List.append_ne_nil_of_right_ne_nil more some), List.append_cancel_left_eq] at whole
    have unmarked : ∀ piece ∈ more ++ middle, isFree piece = true := by
      intro piece member
      exact (List.mem_append.mp member).elim (free piece) (freeToo piece)
    exact join_head unmarked (whole ▸ join_head_marked mark _)
  | ended final =>
    obtain ⟨_, _, _, _, point, last, solid, plain⟩ := commandsFrom_head same
    rcases final point last with blank | backslash
    · rw [solid] at blank
      cases blank
    · exact plain backslash

theorem Foreign.ne_self (foreign : Foreign fragments commands) (lines : List PyStr) :
    commandsFrom fragments lines ≠ commands := by
  have none : ∀ piece ∈ ([] : List PyStr), isFree piece = true := nofun
  have differs := foreign.ne none lines
  rwa [List.append_nil] at differs

/-! ### The loop of the shell -/

section Shell

variable {comments : CommentRule} {last : PyStr} {pending rest : List PyStr}

private theorem commandLinesFrom_nil : commandLinesFrom comments last pending [] =
    if isQuiet (pending.flatten ++ last) then [] else [join (py " ") (pending.map strip ++ [strip last])] := by
  cases quiet : isQuiet (pending.flatten ++ last) <;> simp [commandLinesFrom, logicalLines, quiet]

private theorem commandLinesFrom_joined (joins : joinsNext comments pending line = true) :
    commandLinesFrom comments last pending (line :: rest) =
      commandLinesFrom comments last (pending ++ [line.dropLast]) rest := by
  simp [commandLinesFrom, logicalLines, joins]

private theorem commandLinesFrom_ended (ends : joinsNext comments pending line = false) :
    commandLinesFrom comments last pending (line :: rest) =
      if isQuiet (pending.flatten ++ line) then commandLinesFrom comments last [] rest
      else join (py " ") (pending.map strip ++ [strip line]) :: commandLinesFrom comments last [] rest := by
  cases quiet : isQuiet (pending.flatten ++ line) <;> simp [commandLinesFrom, logicalLines, ends, quiet]

private theorem full_append (full : isQuiet front = false) (rest : PyStr) : isQuiet (front ++ rest) = false := by
  rw [isQuiet_append]
  split
  · rename_i blank
    have empty : front.dropWhile isBlank = [] := List.dropWhile_eq_nil_iff.mpr (by simpa using blank)
    simp [isQuiet, empty] at full
  · exact (Bool.or_eq_false_iff.mp full).2

private theorem commandLinesFrom_full (comments : CommentRule) (last : PyStr)
    (full : isQuiet pending.flatten = false) (lines : List PyStr) :
    ∃ more later, more ≠ [] ∧
      commandLinesFrom comments last pending lines = join (py " ") (pending.map strip ++ more) :: later := by
  induction lines generalizing pending with
  | nil => exact ⟨[strip last], [], by simp, by rw [commandLinesFrom_nil, full_append full]; rfl⟩
  | cons line rest ih =>
    cases joins : joinsNext comments pending line with
    | true =>
      have longer : isQuiet (pending ++ [line.dropLast]).flatten = false := by
        rw [List.flatten_append]
        exact full_append full _
      obtain ⟨more, later, _, same⟩ := ih longer
      refine ⟨strip line.dropLast :: more, later, List.cons_ne_nil _ _, ?_⟩
      rw [commandLinesFrom_joined joins, same, List.map_append, List.append_assoc]
      rfl
    | false =>
      exact ⟨[strip line], commandLinesFrom comments last [] rest, by simp,
        by rw [commandLinesFrom_ended joins, full_append full]; rfl⟩

/-! ### One physical line -/

private theorem mark_joined (bare : isBare line = true) (ended : line.getLast? = some 0x5c) :
    isFree (strip line.dropLast) = false := by
  rw [← isBare_eq, strip_joined ended] at bare
  rcases strip_cases line.dropLast with ⟨front, _⟩ | ⟨point, rest, _, front, whole⟩
  · rw [front] at bare
    cases bare
  · rw [whole, isFree, startsWith_mark]
    simpa [front, startsWith_mark] using bare

private theorem noisy_dropLast (ended : line.getLast? = some 0x5c) (mark : isFree (strip line.dropLast) = false)
    (noisy : isQuiet line = false) : isQuiet line.dropLast = false := by
  obtain ⟨body, rfl⟩ := List.getLast?_eq_some_iff.mp ended
  rw [List.dropLast_concat] at mark ⊢
  rw [isQuiet_append] at noisy
  split at noisy
  · rename_i blank
    rw [strip_of_blank blank] at mark
    cases mark
  · rename_i some
    rw [← List.append_nil body, isQuiet_append, if_neg some, noisy]

private theorem joinsNext_ended (joins : joinsNext comments pending line = true) : line.getLast? = some 0x5c := by
  simp only [joinsNext, Bool.and_eq_true, beq_iff_eq] at joins
  exact joins.1

private theorem quiet_ends (blank : pending.flatten.all isBlank = true) (quiet : isQuiet line = true) :
    joinsNext comments pending line = false := by
  by_contra joins
  have joins : joinsNext comments pending line = true := by simpa using joins
  rcases Bool.or_eq_true_iff.mp quiet with empty | comment
  · obtain ⟨body, rfl⟩ := List.getLast?_eq_some_iff.mp (joinsNext_ended joins)
    have all := List.dropWhile_eq_nil_iff.mp (List.isEmpty_iff.mp empty) 0x5c (by simp)
    cases all
  · have inside := comments.ofLine (pending.flatten ++ line) (by rw [isCommentLine_append, if_pos blank, comment])
    simp [joinsNext, inside] at joins

private theorem commandLinesFrom_words (last : PyStr) (joins : joinsNext comments pending line = true)
    (words : isQuiet (pending ++ [line.dropLast]).flatten = false) (rest : List PyStr) :
    ∃ more later, commandLinesFrom comments last pending (line :: rest) =
      join (py " ") (pending.map strip ++ strip line.dropLast :: more) :: later := by
  obtain ⟨more, later, _, same⟩ := commandLinesFrom_full comments last words rest
  refine ⟨more, later, ?_⟩
  rw [commandLinesFrom_joined joins, same, List.map_append, List.append_assoc]
  rfl

private theorem shell_quiet (blank : pending.flatten.all isBlank = true) (quiet : isQuiet line = true) :
    commandLinesFrom comments last pending (line :: rest) = commandLinesFrom comments last [] rest := by
  rw [commandLinesFrom_ended (quiet_ends blank quiet), isQuiet_append, if_pos blank, if_pos quiet]

variable (free : ∀ piece ∈ pending, isFree (strip piece) = true)
include free

private theorem shell_bare (bare : isBare line = true)
    (full : (pending.flatten.all isBlank && isQuiet line) = false) :
    Foreign (pending.map strip) (commandLinesFrom comments last pending (line :: rest)) := by
  cases joins : joinsNext comments pending line with
  | true =>
    have ended := joinsNext_ended joins
    have mark := mark_joined bare ended
    have words : isQuiet (pending ++ [line.dropLast]).flatten = false := by
      rw [List.flatten_append, List.flatten_singleton, quiet_behind free]
      cases blank : pending.flatten.all isBlank with
      | true =>
        rw [blank, Bool.true_and] at full
        exact noisy_dropLast ended mark full
      | false => rfl
    obtain ⟨more, later, same⟩ := commandLinesFrom_words last joins words rest
    rw [same]
    exact .marked mark rfl
  | false =>
    rw [commandLinesFrom_ended joins, quiet_behind free, full, if_neg Bool.false_ne_true]
    rw [← isBare_eq, Bool.or_eq_true] at bare
    rcases bare with empty | mark
    · rw [List.isEmpty_iff.mp empty]
      exact .empty _ _
    · exact .marked (by simp [isFree, mark]) rfl

private theorem shell_unjoined (full : isBare line = false) (continued : endsWith [0x5c] (strip line) = true)
    (ends : joinsNext comments pending line = false) :
    Foreign (pending.map strip) (commandLinesFrom comments last pending (line :: rest)) := by
  rw [commandLinesFrom_ended ends, noisy_behind free full, if_neg Bool.false_ne_true]
  refine .ended fun point final => .inr ?_
  rw [join_append _ _ (List.cons_ne_nil _ _), List.getLast?_append, join, endsWith_point.mp continued] at final
  exact (Option.some.inj final).symm

private theorem shell_plain (full : isBare line = false) (plain : endsWith [0x5c] (strip line) = false) :
    commandLinesFrom comments last pending (line :: rest) =
      join (py " ") (pending.map strip ++ [strip line]) :: commandLinesFrom comments last [] rest := by
  have ends : joinsNext comments pending line = false := by
    by_contra joins
    have ended := joinsNext_ended (by simpa using joins)
    rw [endsWith_point.mpr (by rw [strip_joined ended, List.getLast?_concat])] at plain
    cases plain
  rw [commandLinesFrom_ended ends, noisy_behind free full, if_neg Bool.false_ne_true]

private theorem shell_last : commandLinesFrom comments last pending [] =
    if pending.flatten.all isBlank && isQuiet last then []
    else [join (py " ") (pending.map strip ++ [strip last])] := by
  rw [commandLinesFrom_nil, quiet_behind free]

omit free

theorem commandsFrom_bare (bare : isBare line = true) (fragments : List PyStr) :
    commandsFrom fragments (line :: rest) = commandsFrom fragments rest := by
  rw [commandsFrom, if_pos bare]

theorem commandsFrom_continued (full : isBare line = false)
    (continued : endsWith [0x5c] (strip line) = true) (fragments : List PyStr) :
    commandsFrom fragments (line :: rest) = commandsFrom (fragments ++ [rstrip (strip line).dropLast]) rest := by
  rw [commandsFrom, if_neg (by simp [full]), if_pos continued]

theorem commandsFrom_plain (full : isBare line = false) (plain : endsWith [0x5c] (strip line) = false)
    (fragments : List PyStr) :
    commandsFrom fragments (line :: rest) = join (py " ") (fragments ++ [strip line]) :: commandsFrom [] rest := by
  rw [commandsFrom, if_neg (by simp [full]), if_neg (by simp [plain])]

/-! ### Pending blanks -/

private theorem commandsFrom_blank_ne {fragments behind : List PyStr} {piece : PyStr} (solid : isSpace point = false)
    (first : piece.head? = some point) (lines more : List PyStr) (later : List PyStr) :
    commandsFrom (fragments ++ [] :: behind) lines ≠ join (py " ") (fragments ++ piece :: more) :: later := by
  intro same
  obtain ⟨middle, full, _, whole, _⟩ := commandsFrom_head same
  rw [List.append_assoc, join_append _ _ (List.cons_ne_nil _ _), List.cons_append,
    join_append _ _ (List.cons_ne_nil _ _), List.append_cancel_left_eq] at whole
  obtain ⟨next, tail, found⟩ := List.exists_cons_of_ne_nil (List.append_ne_nil_of_right_ne_nil behind full)
  have heads : (join (py " ") (piece :: more)).head? = some point := by
    cases more with
    | nil => exact first
    | cons next more => simp [join, first]
  rw [whole, found] at heads
  have space : point = 0x20 := by simpa [join, py] using heads.symm
  rw [space] at solid
  cases solid

private theorem strip_head (full : isBare line = false) :
    ∃ point, (strip line).head? = some point ∧ isSpace point = false := by
  rcases strip_cases line with ⟨front, _⟩ | ⟨point, rest, solid, _, whole⟩
  · simp [isBare, front] at full
  · exact ⟨point, by rw [whole, List.head?_cons], solid⟩

private theorem strip_backslash (ended : line.getLast? = some 0x5c) (blank : line.dropLast.all isBlank = true) :
    strip line = [0x5c] := by
  have empty : lstrip line.dropLast = [] :=
    List.dropWhile_eq_nil_iff.mpr fun point member => isSpace_of_isBlank (List.all_eq_true.mp blank point member)
  rw [strip_joined ended, empty]
  rfl

private theorem backslash_joins (blank : pending.flatten.all isBlank = true) (ended : line.getLast? = some 0x5c)
    (alone : line.dropLast.all isBlank = true) : joinsNext comments pending line = true := by
  have outside : comments.inside (pending.flatten ++ line) = false := by
    by_contra inside
    have mark := comments.marked _ (by simpa using inside)
    obtain ⟨body, rfl⟩ := List.getLast?_eq_some_iff.mp ended
    rw [List.dropLast_concat] at alone
    rcases List.mem_append.mp mark with before | member
    · cases List.all_eq_true.mp blank _ before
    · rcases List.mem_append.mp member with within | last
      · cases List.all_eq_true.mp alone _ within
      · simp at last
  simp [joinsNext, ended, outside]

private theorem staysSilent_cons (line : PyStr) : staysSilent last (line :: rest) =
    ((isQuiet line || (line.getLast? == some 0x5c && line.dropLast.all isBlank)) && staysSilent last rest) := by
  simp [staysSilent, Bool.and_assoc]

private theorem free_of_empties (empties : pending.map strip = List.replicate count []) :
    ∀ piece ∈ pending, isFree (strip piece) = true := by
  intro piece member
  have empty := List.eq_of_mem_replicate (empties ▸ List.mem_map_of_mem member)
  rw [empty]
  rfl

private theorem surplus_split (empties : pending.map strip = List.replicate count []) (more : count < many) :
    ∃ behind, List.replicate many ([] : PyStr) = pending.map strip ++ [] :: behind ∧
      ∀ piece ∈ [] :: behind, isFree piece = true := by
  refine ⟨List.replicate (many - count - 1) [], ?_, ?_⟩
  · rw [empties, ← List.replicate_succ, List.replicate_append_replicate]
    congr 1
    omega
  · rw [← List.replicate_succ]
    intro piece member
    rw [List.eq_of_mem_replicate member]
    rfl

private theorem surplus_words (free : ∀ piece ∈ pending, isFree (strip piece) = true) (full : isBare line = false)
    (joins : joinsNext comments pending line = true) (some : strip line.dropLast ≠ [])
    (behind lines rest : List PyStr) :
    commandsFrom (pending.map strip ++ [] :: behind) lines ≠ commandLinesFrom comments last pending (line :: rest) := by
  have own := isFree_continued full
  rw [fragment_joined (joinsNext_ended joins)] at own
  have fullToo : isBare line.dropLast = false := by
    rw [← isBare_eq]
    simpa [isFree, some] using own
  have words : isQuiet (pending ++ [line.dropLast]).flatten = false := by
    rw [List.flatten_append, List.flatten_singleton, noisy_behind free fullToo]
  obtain ⟨tail, later, same⟩ := commandLinesFrom_words last joins words rest
  obtain ⟨point, first, solid⟩ := strip_head fullToo
  rw [same]
  exact commandsFrom_blank_ne solid first _ _ _

private theorem silent_iff (empties : pending.map strip = List.replicate count []) (more : count < many)
    (lines : List PyStr) :
    commandsFrom (List.replicate many []) (lines ++ [last]) = commandLinesFrom comments last pending lines ↔
      (pending.flatten.all isBlank && staysSilent last lines) = true := by
  induction lines generalizing pending count many with
  | nil =>
    have free := free_of_empties empties
    have only : staysSilent last [] = isQuiet last := rfl
    rw [List.nil_append, shell_last free, only]
    cases bare : isBare last with
    | true =>
      rw [commandsFrom_bare bare, commandsFrom]
      cases pending.flatten.all isBlank && isQuiet last <;> simp
    | false =>
      rw [not_quiet_of_full bare, Bool.and_false, if_neg Bool.false_ne_true]
      refine iff_of_false ?_ Bool.false_ne_true
      obtain ⟨behind, surplus, _⟩ := surplus_split empties more
      obtain ⟨point, first, solid⟩ := strip_head bare
      rw [surplus]
      exact commandsFrom_blank_ne solid first _ _ _
  | cons line rest ih =>
    have free := free_of_empties empties
    obtain ⟨behind, surplus, others⟩ := surplus_split empties more
    rw [List.cons_append, staysSilent_cons]
    cases bare : isBare line with
    | true =>
      cases quiet : pending.flatten.all isBlank && isQuiet line with
      | true =>
        rw [Bool.and_eq_true] at quiet
        have none : ([] : List PyStr).map strip = List.replicate 0 [] := rfl
        rw [commandsFrom_bare bare, shell_quiet quiet.1 quiet.2, ih none (by omega), quiet.1, quiet.2]
        rfl
      | false =>
        refine iff_of_false ?_ ?_
        · rw [surplus]
          exact (shell_bare free bare quiet).ne others _
        · intro agrees
          simp only [Bool.and_eq_true, Bool.or_eq_true, beq_iff_eq] at agrees
          obtain ⟨blank, quietToo | ⟨ended, alone⟩, _⟩ := agrees
          · rw [blank, quietToo] at quiet
            cases quiet
          · rw [← isBare_eq, strip_backslash ended alone] at bare
            cases bare
    | false =>
      rw [not_quiet_of_full bare, Bool.false_or]
      cases continued : endsWith [0x5c] (strip line) with
      | true =>
        cases joins : joinsNext comments pending line with
        | true =>
          have ended := joinsNext_ended joins
          by_cases empty : strip line.dropLast = []
          · have longer : (pending ++ [line.dropLast]).map strip = List.replicate (count + 1) [] := by
              rw [List.map_append, empties, List.map_singleton, empty, List.replicate_succ']
            rw [commandsFrom_continued bare continued, fragment_joined ended, commandLinesFrom_joined joins, empty,
              ← List.replicate_succ', ih longer (by omega)]
            simp [ended, Bool.and_assoc]
          · refine iff_of_false ?_ ?_
            · rw [surplus]
              exact surplus_words free bare joins empty _ _ _
            · intro agrees
              simp only [Bool.and_eq_true, beq_iff_eq] at agrees
              exact empty (strip_of_blank agrees.2.1.2)
        | false =>
          refine iff_of_false ?_ ?_
          · rw [surplus]
            exact (shell_unjoined free bare continued joins).ne others _
          · intro agrees
            simp only [Bool.and_eq_true, beq_iff_eq] at agrees
            rw [backslash_joins agrees.1 agrees.2.1.1 agrees.2.1.2] at joins
            cases joins
      | false =>
        refine iff_of_false ?_ ?_
        · obtain ⟨point, first, solid⟩ := strip_head bare
          rw [surplus, shell_plain free bare continued]
          exact commandsFrom_blank_ne solid first _ _ _
        · intro agrees
          simp only [Bool.and_eq_true, beq_iff_eq] at agrees
          rw [strip_backslash agrees.2.1.1 agrees.2.1.2] at continued
          cases continued

/-! ### Agreement -/

private theorem blank_fragments (blank : pending.flatten.all isBlank = true) :
    pending.map strip = List.replicate pending.length [] := by
  refine List.eq_replicate_iff.mpr ⟨List.length_map _, ?_⟩
  intro fragment member
  obtain ⟨piece, present, rfl⟩ := List.mem_map.mp member
  refine strip_of_blank (List.all_eq_true.mpr fun point inside => ?_)
  exact List.all_eq_true.mp blank point (List.mem_flatten.mpr ⟨piece, present, inside⟩)

private theorem reads_alike_from (free : ∀ piece ∈ pending, isFree (strip piece) = true) (lines : List PyStr) :
    commandsFrom (pending.map strip) (lines ++ [last]) = commandLinesFrom comments last pending lines ↔
      continuesPlainly comments last pending lines = true := by
  induction lines generalizing pending with
  | nil =>
    rw [List.nil_append, shell_last free, continuesPlainly]
    cases bare : isBare last with
    | true =>
      rw [commandsFrom_bare bare, commandsFrom]
      cases pending.flatten.all isBlank && isQuiet last <;> simp
    | false =>
      rw [not_quiet_of_full bare, Bool.and_false, if_neg Bool.false_ne_true, if_neg Bool.false_ne_true]
      cases continued : endsWith [0x5c] (strip last) with
      | true =>
        rw [commandsFrom_continued bare continued, commandsFrom]
        simp
      | false =>
        rw [commandsFrom_plain bare continued, commandsFrom]
        simp
  | cons line rest ih =>
    have none : ∀ piece ∈ ([] : List PyStr), isFree (strip piece) = true := nofun
    rw [List.cons_append, continuesPlainly]
    cases bare : isBare line with
    | true =>
      rw [if_pos rfl]
      cases quiet : pending.flatten.all isBlank && isQuiet line with
      | true =>
        rw [Bool.true_and]
        rw [Bool.and_eq_true] at quiet
        rw [commandsFrom_bare bare, shell_quiet quiet.1 quiet.2]
        cases pending with
        | nil => exact ih none
        | cons piece others =>
          have empty : ([] : List PyStr).map strip = List.replicate 0 [] := rfl
          rw [blank_fragments quiet.1, silent_iff empty (by simp)]
          rfl
      | false =>
        rw [Bool.false_and]
        exact iff_of_false ((shell_bare free bare quiet).ne_self _) Bool.false_ne_true
    | false =>
      rw [if_neg Bool.false_ne_true]
      cases continued : endsWith [0x5c] (strip line) with
      | true =>
        rw [if_pos rfl]
        cases joins : joinsNext comments pending line with
        | true =>
          have same := fragment_joined (joinsNext_ended joins)
          have own := isFree_continued bare
          rw [same] at own
          have longer : ∀ piece ∈ pending ++ [line.dropLast], isFree (strip piece) = true := by
            simpa [or_imp, forall_and] using ⟨free, own⟩
          rw [commandsFrom_continued bare continued, same, commandLinesFrom_joined joins, Bool.true_and, ← ih longer,
            List.map_append]
          rfl
        | false =>
          rw [Bool.false_and]
          exact iff_of_false ((shell_unjoined free bare continued joins).ne_self _) Bool.false_ne_true
      | false =>
        rw [if_neg Bool.false_ne_true, commandsFrom_plain bare continued, shell_plain free bare continued,
          ← ih none]
        simp

end Shell

theorem logicalShellCommands_eq (plain : NewlinesOnly text) :
    logicalShellCommands text = commandsFrom [] (split 0x0a text) := by
  rw [logicalShellCommands, foldl_step, splitlines_eq_split plain, commandsFrom_trimmed]
  rfl

/-- Every command of a step that the test reads lines of has no other line breaks: it comes
from lines of the step. -/
theorem stepRunCommand_newlinesOnly (found : stepRunCommand step = some script) : NewlinesOnly script := by
  unfold stepRunCommand at found
  split at found
  · cases found
  · rename_i index value field
    split at found
    · obtain rfl := Option.some.inj found
      intro point member broken
      rcases joinLines_mem member with newline | ⟨line, present, inside⟩
      · exact newline
      · obtain ⟨whole, taken, rfl⟩ := List.mem_map.mp present
        have own := splitlines_unbroken (List.mem_of_mem_drop ((List.takeWhile_prefix _).subset taken)) point
          (List.mem_of_mem_drop inside)
        rw [own] at broken
        cases broken
    · obtain rfl := Option.some.inj found
      obtain ⟨front, tail, line, rfl⟩ := stepField_line field
      intro point member broken
      have inside : point ∈ front ++ tail :=
        List.mem_append_right _ ((List.dropWhile_suffix _).subset ((List.rdropWhile_prefix _ _).subset member))
      rw [splitlines_unbroken (List.mem_of_getElem? line) point inside] at broken
      cases broken

/-- The policy test reads the commands that the shell runs of exactly those scripts that
continue their lines plainly, whichever `#` inside of a line starts a comment. A line is joined
at its last backslash, also where an even number of them ends it; `shellCommands` keeps a
backslash that is itself escaped. -/
theorem logicalShellCommands_iff (comments : CommentRule) (text : PyStr) (plain : NewlinesOnly text) :
    logicalShellCommands text = commandLines comments text ↔
      continuesPlainly comments ((split 0x0a text).getLastD []) [] (split 0x0a text).dropLast = true := by
  have full : split 0x0a text ≠ [] := List.splitOnP_ne_nil _ _
  have whole : (split 0x0a text).dropLast ++ [(split 0x0a text).getLastD []] = split 0x0a text := by
    rw [List.getLastD_eq_getLast?, List.getLast?_eq_getLast_of_ne_nil full]
    exact List.dropLast_append_getLast full
  have none : ∀ piece ∈ ([] : List PyStr), isFree (strip piece) = true := nofun
  rw [logicalShellCommands_eq plain, commandLines, ← reads_alike_from none, List.map_nil, whole]

/-- Comments between commands, and continued commands without any. -/
theorem continued_build_is_read :
    let text := py "# build\nmake \\\n  all \\\n  -j\n\nmake test # twice\n"
    logicalShellCommands text = commandLines .wordStart text := by
  intro text
  exact (logicalShellCommands_iff .wordStart text (by decide)).mpr (by decide)

/-- A blank line ends a continued command: the shell runs two commands, and the test reads one. -/
theorem blank_line_is_skipped :
    let text := py "make \\\n\nall\n"
    NewlinesOnly text ∧ logicalShellCommands text = [py "make all"] ∧
      ∀ comments ∈ [CommentRule.wholeLine, CommentRule.wordStart],
        commandLines comments text = [py "make ", py "all"] ∧
          logicalShellCommands text ≠ commandLines comments text := by
  decide

end Charybdis.Policy
