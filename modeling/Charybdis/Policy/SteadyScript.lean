import Charybdis.Policy.WrittenScript

/-! The run scripts of which an accepted one does the work of its validators: commands, options
that leave errexit on, exits with a failure, and branches beside the validators. -/

namespace Charybdis.Policy

open Foundation
open Stub (PyStr py)

/-! ### Single commands -/

/-- The words of the shell, and its commands that end it, go elsewhere in it or change what
others mean. -/
def keyWords : List PyStr :=
  [py "if", py "then", py "elif", py "else", py "fi", py "for", py "while", py "until", py "do", py "done", py "case",
    py "esac", py "select", py "function", py "time", py "coproc", py "exit", py "set", py "return", py "break",
    py "continue", py "exec", py "eval", py "source", py ".", py "trap", py "builtin", py "command", py "enable",
    py "alias", py "unalias", py "hash", py "shopt", py "logout", py "suspend", py "kill", py "jobs", py "fc",
    py "mapfile", py "readarray"]

/-- A word that means itself. -/
def isLiteral (word : PyStr) : Bool :=
  word == py "[" || (!word.isEmpty && word.all fun point => isNamePart point || point ∈ py "-./+")

/-- One command: its name and its words, or a variable and its value. -/
inductive IsCommand : PyStr → Prop where
  | named (literal : isLiteral word = true) (free : word ∉ keyWords) (apart : tail.head?.all isBlank = true)
      (shut : isClosed (py " \t") tail = true) : IsCommand (word ++ tail)
  | assigned (literal : isLiteral name = true) (shut : isClosed [] value = true) : IsCommand (name ++ 0x3d :: value)
  | substituted (literal : isLiteral name = true) (shut : isClosed (py " \t|") pipeline = true) :
      IsCommand (name ++ 0x3d :: (py "$(" ++ pipeline ++ py ")"))

/-- A line outside of the branches: a command, options that leave errexit on, or an exit with a
failure. -/
inductive IsPlainStep : PyStr → Prop where
  | command (own : IsCommand line) : IsPlainStep line
  | setting (letters : PyStr) (only : ∀ letter ∈ letters, letter ∈ py "eux")
      (named : behind = [] ∨ behind = py "o pipefail") : IsPlainStep (py "set -" ++ letters ++ behind)
  | failing (number : decimal digits = some status) (small : 0 < status ∧ status < 256) :
      IsPlainStep (py "exit " ++ digits)

def opening (condition : PyStr) : PyStr := py "if " ++ condition ++ py "; then"

/-- The lines of a script that keeps on, and those of them that belong to its branches. -/
inductive Course : List PyStr → List PyStr → Prop where
  | done : Course [] []
  | step (own : IsPlainStep line) (next : Course rest guarded) : Course (line :: rest) guarded
  | branch (own : IsCommand condition) (yes : Course body nested) (full : body ≠ []) (next : Course rest guarded) :
      Course (opening condition :: (body ++ py "fi" :: rest)) (opening condition :: py "fi" :: (body ++ guarded))
  | fork (own : IsCommand condition) (yes : Course body nested) (full : body ≠ []) (no : Course other nestedToo)
      (fullToo : other ≠ []) (next : Course rest guarded) :
      Course (opening condition :: (body ++ py "else" :: (other ++ py "fi" :: rest)))
        (opening condition :: py "else" :: py "fi" :: (body ++ other ++ guarded))

/-! ### The reading of a command -/

/-- The marks of single commands. -/
def commandMarks : PyStr := py " \t|()"

private theorem next_grows {taken : Taken} {point : Nat}
    (within : point ≠ 0x3b ∨ taken.mode = .single ∨ taken.mode = .double) :
    ∃ mode more, taken.next point = { taken with mode, command := taken.command ++ more } ∧
      (taken.mode = .blank → taken.command ≠ [] → more = [] ∧ mode = .blank ∨ more.head? = some 0x20) := by
  by_cases single : taken.mode = .single
  · exact ⟨_, [point], by rw [Taken.next, single], by simp [single]⟩
  by_cases double : taken.mode = .double
  · exact ⟨_, [point], by rw [Taken.next, double], by simp [double]⟩
  have semicolon : point ≠ 0x3b := by simpa [single, double] using within
  by_cases blank : isBlank point = true
  · exact ⟨.blank, [], by cases mode : taken.mode <;> simp_all [Taken.next], fun _ _ => .inl ⟨rfl, rfl⟩⟩
  · refine ⟨if point = 0x27 then .single else if point = 0x22 then .double else .word,
      if taken.mode = .blank ∧ taken.command ≠ [] then [0x20, point] else [point], ?_, ?_⟩
    · have spaced : opened taken.mode taken.command ++ [point] =
          taken.command ++ if taken.mode = .blank ∧ taken.command ≠ [] then [0x20, point] else [point] := by
        rw [opened]
        split <;> simp
      cases mode : taken.mode <;> simp_all [Taken.next]
    · intro rested some
      simp [rested, some]

private theorem within_command {spot next : Spot} {taken : Taken} {point : Nat} (fits : spot.Fits taken.mode)
    (steps : spot.next commandMarks point = some next) :
    point ≠ 0x3b ∨ taken.mode = .single ∨ taken.mode = .double := by
  cases spot with
  | free =>
    have ends : Spot.free.next commandMarks 0x3b = none := by decide
    refine .inl ?_
    rintro rfl
    rw [ends] at steps
    cases steps
  | single => exact .inr (.inl fits)
  | double => exact .inr (.inr fits)
  | dollar quoted | braces quoted =>
    refine .inl ?_
    rintro rfl
    revert steps
    simp [Spot.next, isNamePart]

private theorem taken_closed {taken : Taken} {text : PyStr} (between : Spot.free.Fits taken.mode)
    (shut : isClosed commandMarks text = true) :
    ∃ mode more, text.foldl Taken.next taken = { taken with mode, command := taken.command ++ more } ∧
      (taken.mode = .blank → taken.command ≠ [] → more = [] ∨ more.head? = some 0x20) := by
  rw [isClosed_iff] at shut
  suffices general : ∀ (text : PyStr) (spot : Spot) (taken : Taken), spot.Fits taken.mode →
      text.foldlM (Spot.next commandMarks) spot = some .free →
      ∃ mode more, text.foldl Taken.next taken = { taken with mode, command := taken.command ++ more } ∧
        (taken.mode = .blank → taken.command ≠ [] → more = [] ∨ more.head? = some 0x20) from
    general text .free taken between shut
  intro text
  induction text with
  | nil => exact fun _ taken _ _ => ⟨taken.mode, [], by simp, fun _ _ => .inl rfl⟩
  | cons point text ih =>
    intro spot taken fits done
    obtain ⟨next, steps, later⟩ := Option.bind_eq_some_iff.mp done
    have wider : commandMarks ⊆ lineMarks := by decide
    have fitsNext := (onward_point fits (next_mono wider steps) []).2
    obtain ⟨mode, more, same, spaced⟩ := next_grows (within_command fits steps)
    obtain ⟨final, others, sameToo, spacedToo⟩ := ih next _ fitsNext later
    refine ⟨final, more ++ others, by rw [List.foldl_cons, sameToo, same]; simp, fun rested some => ?_⟩
    rw [same] at spacedToo
    rcases spaced rested some with ⟨rfl, still⟩ | first
    · simpa using spacedToo still (by simpa using some)
    · refine .inr ?_
      cases more with
      | nil => cases first
      | cons point more => exact first

private theorem taken_word {taken : Taken} {word : PyStr} (between : Spot.free.Fits taken.mode) (full : word ≠ [])
    (points : ∀ point ∈ word, isWordPoint point = true) :
    word.foldl Taken.next taken =
      { taken with mode := .word, command := opened taken.mode taken.command ++ word } := by
  induction word generalizing taken with
  | nil => exact absurd rfl full
  | cons point word ih =>
    obtain ⟨own, others⟩ := List.forall_mem_cons.mp points
    have first : taken.next point =
        { taken with mode := .word, command := opened taken.mode taken.command ++ [point] } := by
      have plain : point ≠ 0x3b ∧ point ≠ 0x27 ∧ point ≠ 0x22 ∧ isBlank point = false := by
        refine ⟨?_, ?_, ?_, ?_⟩
        · rintro rfl; cases own
        · rintro rfl; cases own
        · rintro rfl; cases own
        · by_contra blank
          simp only [isBlank, Bool.not_eq_false, Bool.or_eq_true, beq_iff_eq] at blank
          rcases blank with rfl | rfl <;> cases own
      rcases between with mode | mode <;> simp [Taken.next, mode, plain]
    rw [List.foldl_cons, first]
    cases word with
    | nil => rfl
    | cons next word =>
      rw [ih (.inr rfl) (List.cons_ne_nil _ _) others]
      simp [opened]

private theorem taken_tail {word tail : PyStr} (full : word ≠ []) (shut : isClosed commandMarks tail = true) :
    ∃ mode more, tail.foldl Taken.next { mode := .word, command := word } = { mode, command := word ++ more } ∧
      (tail.head?.all isBlank = true → more = [] ∨ more.head? = some 0x20) := by
  obtain ⟨mode, more, same, -⟩ := @taken_closed { mode := .word, command := word } _ (.inr rfl) shut
  cases tail with
  | nil => exact ⟨.word, [], by simp, fun _ => .inl rfl⟩
  | cons gap tail =>
    by_cases blank : isBlank gap = true
    · have free : Spot.free.next commandMarks gap = some .free := by
        simp only [isBlank, Bool.or_eq_true, beq_iff_eq] at blank
        rcases blank with rfl | rfl <;> decide
      have later : isClosed commandMarks tail = true := by
        rw [isClosed_iff, List.foldlM_cons, free] at shut
        exact isClosed_iff.mpr shut
      have rested : ({ mode := .word, command := word } : Taken).next gap = { command := word } :=
        next_blank (.inr rfl) blank
      obtain ⟨mode, more, same, spaced⟩ := @taken_closed { command := word } _ (.inl rfl) later
      exact ⟨mode, more, by rw [List.foldl_cons, rested, same], fun _ => spaced rfl full⟩
    · exact ⟨mode, more, same, fun apart => absurd (by simpa using apart) blank⟩

private theorem shellCommands_word {word tail : PyStr} (full : word ≠ [])
    (points : ∀ point ∈ word, isWordPoint point = true) (shut : isClosed commandMarks tail = true) :
    ∃ more, shellCommands (word ++ tail) = [word ++ more] ∧
      (tail.head?.all isBlank = true → more = [] ∨ more.head? = some 0x20) := by
  have wider : commandMarks ⊆ lineMarks := by decide
  have closed : isClosed lineMarks (word ++ tail) = true :=
    isClosed_append (isClosed_words points) (isClosed_mono wider shut)
  have front : word.foldl Taken.next {} = { mode := .word, command := word } := taken_word (.inl rfl) full points
  obtain ⟨mode, more, same, spaced⟩ := taken_tail full shut
  refine ⟨more, ?_, spaced⟩
  rw [shellCommands_closed closed, List.foldl_append, front, same]
  simp [Taken.commands, full]

/-! ### Plain commands -/

theorem keyword_first {word command rest : PyStr} (found : keyword word command = some rest) (solid : 0x20 ∉ word) :
    command.takeWhile (· != 0x20) = word := by
  have own : ∀ point ∈ word, (point != 0x20) = true := by
    intro point member
    simpa using fun same : point = 0x20 => solid (same ▸ member)
  rw [keyword] at found
  split at found
  · rename_i same
    rw [same]
    exact List.takeWhile_eq_self_iff.mpr own
  · rw [dropPrefix?_iff.mp found, List.append_assoc, List.takeWhile_append_of_pos own]
    simp

theorem keyword_spaced (word rest : PyStr) : keyword word (word ++ 0x20 :: rest) = some rest := by
  rw [keyword, if_neg (by simp), dropPrefix?_iff]
  simp

/-- A command that no word of the shell begins. -/
def IsOrdinary (command : PyStr) : Prop := ∀ word ∈ keyWords, keyword word command = none

private theorem ordinary_of_first {command : PyStr} (free : command.takeWhile (· != 0x20) ∉ keyWords) :
    IsOrdinary command := by
  intro word member
  by_contra found
  obtain ⟨rest, found⟩ := Option.ne_none_iff_exists'.mp found
  have solid : ∀ word ∈ keyWords, 0x20 ∉ word := by decide
  exact free (keyword_first found (solid word member) ▸ member)

private theorem literal_points {word : PyStr} (literal : isLiteral word = true) :
    word ≠ [] ∧ ∀ point ∈ word, isWordPoint point = true := by
  rw [isLiteral, Bool.or_eq_true, beq_iff_eq, Bool.and_eq_true, Bool.not_eq_true', List.all_eq_true] at literal
  rcases literal with rfl | ⟨full, points⟩
  · decide
  · refine ⟨by simpa using full, fun point member => ?_⟩
    have marks : ∀ mark ∈ py "-./+", isWordPoint mark = true := by decide
    rcases Bool.or_eq_true_iff.mp (points point member) with part | mark
    · rw [isNamePart, Bool.or_eq_true, beq_iff_eq] at part
      rcases part with sign | rfl
      · rw [isWordPoint, sign, Bool.true_or]
      · decide
    · exact marks point (by simpa using mark)

private theorem solid_of_word {point : Nat} (own : isWordPoint point = true) : (point != 0x20) = true := by
  by_contra same
  rw [show point = 0x20 by simpa using same] at own
  cases own

private theorem variable_points {name : PyStr} (literal : isLiteral name = true) :
    ∀ point ∈ name ++ [0x3d], isWordPoint point = true := by
  have sign : isWordPoint 0x3d = true := by decide
  simpa [or_imp, forall_and, sign] using (literal_points literal).2

/-- A command line has two parts: a word, and what belongs to it. -/
theorem IsCommand.parts (own : IsCommand line) : ∃ word tail, line = word ++ tail ∧ word ≠ [] ∧
    (∀ point ∈ word, isWordPoint point = true) ∧ isClosed commandMarks tail = true ∧
      (tail.head?.all isBlank = true ∧ word ∉ keyWords ∨ 0x3d ∈ word) := by
  have blanks : py " \t" ⊆ commandMarks := by decide
  have pipes : py " \t|" ⊆ commandMarks := by decide
  cases own with
  | named literal free apart shut =>
    obtain ⟨full, points⟩ := literal_points literal
    exact ⟨_, _, rfl, full, points, isClosed_mono blanks shut, .inl ⟨apart, free⟩⟩
  | assigned literal shut =>
    rename_i name value
    refine ⟨name ++ [0x3d], value, by simp, by simp, variable_points literal, ?_, .inr (by simp)⟩
    exact isClosed_mono (List.nil_subset _) shut
  | substituted literal shut =>
    rename_i name pipeline
    refine ⟨name ++ [0x3d], py "$(" ++ pipeline ++ py ")", by simp, by simp, variable_points literal, ?_,
      .inr (by simp)⟩
    have front : isClosed commandMarks (py "$(") = true := by decide
    have behind : isClosed commandMarks (py ")") = true := by decide
    exact isClosed_append (isClosed_append front (isClosed_mono pipes shut)) behind

theorem IsCommand.single (own : IsCommand line) : ∃ command, shellCommands line = [command] ∧ IsOrdinary command := by
  obtain ⟨word, tail, rfl, full, points, shut, kind⟩ := own.parts
  obtain ⟨more, same, spaced⟩ := shellCommands_word full points shut
  have solid : ∀ point ∈ word, (point != 0x20) = true := fun point member => solid_of_word (points point member)
  refine ⟨word ++ more, same, ordinary_of_first ?_⟩
  rw [List.takeWhile_append_of_pos solid]
  rcases kind with ⟨apart, free⟩ | sign
  · have ends : more.takeWhile (· != 0x20) = [] := by
      rcases spaced apart with rfl | first
      · rfl
      · cases more with
        | nil => cases first
        | cons point more => simp [Option.some.inj first]
    rwa [ends, List.append_nil]
  · intro member
    have unsigned : ∀ word ∈ keyWords, 0x3d ∉ word := by decide
    exact unsigned _ member (List.mem_append_left _ sign)

/-! ### What a line does -/

def lineTokens (line : PyStr) : List Token := (shellCommands line).flatMap tokensOf

def branchWords : List PyStr := [py "then", py "else", py "if", py "elif", py "fi"]

private theorem tokensOf_single {command : PyStr} (apart : ∀ word ∈ branchWords, keyword word command = none) :
    tokensOf command = [.single command] := by
  simp only [branchWords, List.forall_mem_cons] at apart
  obtain ⟨noThen, noElse, noIf, noElif, noFi, -⟩ := apart
  simp only [tokensOf, tokenOf, noThen, noElse, noIf, noElif, noFi]

private theorem branch_free {command : PyStr} (first : command.takeWhile (· != 0x20) ∉ branchWords) :
    ∀ word ∈ branchWords, keyword word command = none := by
  intro word member
  by_contra found
  obtain ⟨rest, found⟩ := Option.ne_none_iff_exists'.mp found
  have solid : ∀ word ∈ branchWords, 0x20 ∉ word := by decide
  exact first (keyword_first found (solid word member) ▸ member)

/-- Behind a line, a script goes on as before it: it keeps errexit, what it passes it still
passes, and it passes these commands. -/
structure Extends (commands : List PyStr) (before after : Script PyStr) : Prop where
  steady : before.Steady → after.Steady
  passes : ∀ name, before.Passes name → after.Passes name
  own : ∀ command ∈ commands, after.Passes command

theorem Extends.append (last : Extends others before middle) (first : Extends commands middle after) :
    Extends (commands ++ others) before after where
  steady := first.steady ∘ last.steady
  passes name := first.passes name ∘ last.passes name
  own command member := by
    rcases List.mem_append.mp member with inside | later
    · exact first.own command inside
    · exact first.passes command (last.own command later)

private theorem setErrexit_kept {words : List PyStr} {naming mode : Option Bool}
    (signs : ∀ word ∈ words, word.head? ≠ some 0x2b) (on : naming ≠ some false) (kept : mode ≠ some false) :
    setErrexit naming mode words ≠ some false := by
  induction words generalizing naming mode with
  | nil => exact kept
  | cons word words ih =>
    obtain ⟨own, others⟩ := List.forall_mem_cons.mp signs
    cases naming with
    | some named =>
      have same : named = true := by simpa using on
      rw [setErrexit]
      refine ih others nofun ?_
      split
      · simp [same]
      · exact kept
    | none =>
      cases word with
      | nil => exact kept
      | cons sign letters =>
        rw [setErrexit]
        split
        · rename_i option
          have minus : sign = 0x2d := option.1.resolve_right fun plus => own (by simp [plus])
          refine ih others ?_ ?_
          · split <;> simp [minus]
          · split
            · simp [minus]
            · exact kept
        · exact kept

private theorem IsOrdinary.extends (ordinary : IsOrdinary command) (before : Script PyStr) :
    Extends [command] before (oneCommand command before) := by
  have noExit := ordinary (py "exit") (by decide)
  have noSet := ordinary (py "set") (by decide)
  have same : oneCommand command before = .command command before := by
    simp only [oneCommand, noExit, noSet]
  rw [same]
  exact ⟨fun steady => steady, fun _ passes => .inr passes, by simp [Script.Passes]⟩

private theorem spaced_words {front : PyStr} {words : List PyStr} (some : front ≠ [])
    (each : ∀ word ∈ words, word ≠ [] ∧ ∀ point ∈ word, isWordPoint point = true) :
    isClosed lineMarks (words.flatMap (0x20 :: ·)) = true ∧
      (words.flatMap (0x20 :: ·)).foldl Taken.next { mode := .word, command := front } =
        { mode := .word, command := front ++ words.flatMap (0x20 :: ·) } := by
  induction words generalizing front with
  | nil => simp [isClosed]
  | cons word words ih =>
    obtain ⟨⟨full, points⟩, others⟩ := List.forall_mem_cons.mp each
    have gap : isClosed lineMarks [0x20] = true := by decide
    have rested : ({ mode := .word, command := front } : Taken).next 0x20 = { command := front } :=
      next_blank (.inr rfl) rfl
    have spaced : (0x20 :: word).foldl Taken.next { mode := .word, command := front } =
        { mode := .word, command := front ++ 0x20 :: word } := by
      rw [List.foldl_cons, rested, taken_word (.inl rfl) full points]
      simp [opened, some]
    obtain ⟨closed, same⟩ := @ih (front ++ 0x20 :: word) (by simp) others
    refine ⟨isClosed_append (isClosed_append gap (isClosed_words points)) closed, ?_⟩
    rw [List.flatMap_cons, List.foldl_append, spaced, same, List.append_assoc]

private theorem shellCommands_words {first : PyStr} {words : List PyStr} (full : first ≠ [])
    (points : ∀ point ∈ first, isWordPoint point = true)
    (each : ∀ word ∈ words, word ≠ [] ∧ ∀ point ∈ word, isWordPoint point = true) :
    shellCommands (first ++ words.flatMap (0x20 :: ·)) = [first ++ words.flatMap (0x20 :: ·)] := by
  obtain ⟨closed, same⟩ := spaced_words full each
  have front : first.foldl Taken.next {} = { mode := .word, command := first } := taken_word (.inl rfl) full points
  rw [shellCommands_closed (isClosed_append (isClosed_words points) closed), List.foldl_append, front, same]
  simp [Taken.commands, full]

/-- A line is read as one command that is no part of a branch. -/
structure ReadsAs (line command : PyStr) : Prop where
  commands : shellCommands line = [command]
  apart : ∀ word ∈ branchWords, keyword word command = none

theorem ReadsAs.tokens (reads : ReadsAs line command) : lineTokens line = [.single command] := by
  rw [lineTokens, reads.commands, List.flatMap_singleton, tokensOf_single reads.apart]

private theorem setting_words {letters behind : PyStr} (only : ∀ letter ∈ letters, letter ∈ py "eux")
    (named : behind = [] ∨ behind = py "o pipefail") :
    ∃ words, 0x20 :: (0x2d :: letters ++ behind) = words.flatMap (0x20 :: ·) ∧
      split 0x20 (0x2d :: letters ++ behind) = words ∧
      ∀ word ∈ words, word.head? ≠ some 0x2b ∧ word ≠ [] ∧ ∀ point ∈ word, isWordPoint point = true := by
  have marks : ∀ letter ∈ py "eux", isWordPoint letter = true ∧ letter ≠ 0x20 := by decide
  have points : ∀ point ∈ 0x2d :: letters, isWordPoint point = true ∧ (point == 0x20) = false := by
    refine List.forall_mem_cons.mpr ⟨by decide, fun point member => ?_⟩
    simpa using marks point (only point member)
  rcases named with rfl | rfl
  · refine ⟨[0x2d :: letters], by simp, ?_, ?_⟩
    · rw [List.append_nil, split]
      exact List.splitOnP_eq_singleton fun point member => by simp [(points point member).2]
    · simpa using (points · · |>.1)
  · have whole : 0x2d :: letters ++ py "o pipefail" = (0x2d :: letters ++ py "o") ++ 0x20 :: py "pipefail" := by
      simp [py]
    have front : ∀ point ∈ 0x2d :: letters ++ py "o", isWordPoint point = true ∧ (point == 0x20) = false := by
      intro point member
      rcases List.mem_append.mp member with own | last
      · exact points point own
      · rw [List.mem_singleton.mp last]
        decide
    refine ⟨[0x2d :: letters ++ py "o", py "pipefail"], by simp [py], ?_, ?_⟩
    · rw [whole, split, List.splitOnP_append_cons_of_forall_mem (fun point member => by simp [(front point member).2]) _ rfl]
      rfl
    · refine List.forall_mem_cons.mpr ⟨⟨by simp, by simp, fun point member => (front point member).1⟩, ?_⟩
      decide

private theorem setting_extends {letters behind : PyStr} (only : ∀ letter ∈ letters, letter ∈ py "eux")
    (named : behind = [] ∨ behind = py "o pipefail") (before : Script PyStr) :
    ReadsAs (py "set -" ++ letters ++ behind) (py "set -" ++ letters ++ behind) ∧
      Extends [py "set -" ++ letters ++ behind] before (oneCommand (py "set -" ++ letters ++ behind) before) := by
  obtain ⟨words, flat, options, each⟩ := setting_words only named
  have opened : py "set -" ++ letters ++ behind = py "set" ++ 0x20 :: (0x2d :: letters ++ behind) := by simp [py]
  have spelled := opened.trans (congrArg (py "set" ++ ·) flat)
  have first : (py "set -" ++ letters ++ behind).takeWhile (· != 0x20) = py "set" := by simp [py]
  refine ⟨⟨?_, branch_free (by rw [first]; decide)⟩, ?_⟩
  · rw [spelled]
    exact shellCommands_words (by decide) (by decide) fun word member => (each word member).2
  · have noExit : keyword (py "exit") (py "set -" ++ letters ++ behind) = none := by
      by_contra found
      obtain ⟨rest, found⟩ := Option.ne_none_iff_exists'.mp found
      have same := keyword_first found (by decide)
      rw [first] at same
      revert same
      decide
    have found : keyword (py "set") (py "set -" ++ letters ++ behind) = some (0x2d :: letters ++ behind) := by
      rw [opened]
      exact keyword_spaced _ _
    have same : oneCommand (py "set -" ++ letters ++ behind) before =
        .quiet (some (py "set -" ++ letters ++ behind)) (setErrexit none none words) before := by
      simp only [oneCommand, noExit, found, options]
    have kept : setErrexit none none words ≠ some false :=
      setErrexit_kept (fun word member => (each word member).1) (by decide) (by decide)
    rw [same]
    exact ⟨fun steady => ⟨kept, steady⟩, fun _ passes => .inr passes, by simp [Script.Passes]⟩

private theorem decimal_points {digits : PyStr} {number : Nat} (found : decimal digits = some number) :
    digits ≠ [] ∧ ∀ point ∈ digits, isWordPoint point = true := by
  rw [decimal] at found
  split at found
  · rename_i plain
    rw [Bool.and_eq_true, Bool.not_eq_true', List.all_eq_true] at plain
    refine ⟨by simpa using plain.1, fun point member => ?_⟩
    rw [isWordPoint, plain.2 point member, Bool.true_or, Bool.true_or, Bool.true_or]
  · cases found

private theorem failing_extends {digits : PyStr} {status : Nat} (number : decimal digits = some status)
    (small : 0 < status ∧ status < 256) (before : Script PyStr) :
    ReadsAs (py "exit " ++ digits) (py "exit " ++ digits) ∧
      Extends [py "exit " ++ digits] before (oneCommand (py "exit " ++ digits) before) := by
  obtain ⟨full, points⟩ := decimal_points number
  have opened : py "exit " ++ digits = py "exit" ++ 0x20 :: digits := by simp [py]
  have spelled : py "exit " ++ digits = py "exit" ++ [digits].flatMap (0x20 :: ·) := by simp [py]
  have first : (py "exit " ++ digits).takeWhile (· != 0x20) = py "exit" := by simp [py]
  refine ⟨⟨?_, branch_free (by rw [first]; decide)⟩, ?_⟩
  · rw [spelled]
    exact shellCommands_words (by decide) (by decide) (by simpa using ⟨full, points⟩)
  · have found : keyword (py "exit") (py "exit " ++ digits) = some digits := by
      rw [opened]
      exact keyword_spaced _ _
    have same : oneCommand (py "exit " ++ digits) before = .exit (py "exit " ++ digits) (some status) := by
      obtain ⟨point, rest, rfl⟩ := List.exists_cons_of_ne_nil full
      simp only [oneCommand, found, number]
      rw [if_pos (by omega)]
    rw [same]
    have fails : status % 256 ≠ 0 := by omega
    exact ⟨fun _ => ⟨status, rfl, fails⟩, fun _ _ => trivial, fun _ _ => trivial⟩

private theorem IsPlainStep.reads (own : IsPlainStep line) (before : Script PyStr) :
    ∃ command, ReadsAs line command ∧ Extends [command] before (oneCommand command before) := by
  cases own with
  | command own =>
    obtain ⟨command, same, ordinary⟩ := own.single
    have among : branchWords ⊆ keyWords := by decide
    exact ⟨command, ⟨same, fun word member => ordinary word (among member)⟩, ordinary.extends before⟩
  | setting letters only named => exact ⟨_, setting_extends only named before⟩
  | failing number small => exact ⟨_, failing_extends number small before⟩

/-! ### What the lines do -/

/-- The reader is not among the conditions of a branch. -/
def Reader.Clear (reader : Reader) : Prop := ∀ frame ∈ reader.frames.head?, frame.yes = none

theorem Reader.read_single (clear : reader.Clear) (command : PyStr) :
    readToken (.single command) reader = { reader with current := oneCommand command reader.current } := by
  obtain ⟨current, frames⟩ := reader
  cases frames with
  | nil => rfl
  | cons frame outer =>
    have none : frame.yes = none := clear frame rfl
    simp [readToken, none]

private theorem opening_commands (own : IsCommand condition) :
    ∃ test, test ≠ [] ∧ shellCommands (opening condition) = [py "if" ++ 0x20 :: test, py "then"] := by
  obtain ⟨word, tail, rfl, full, points, shut, -⟩ := own.parts
  have wider : commandMarks ⊆ lineMarks := by decide
  have front : isClosed lineMarks (py "if ") = true := by decide
  have behind : isClosed lineMarks (py "; then") = true := by decide
  have closed : isClosed lineMarks (opening (word ++ tail)) = true :=
    isClosed_append (isClosed_append front (isClosed_append (isClosed_words points) (isClosed_mono wider shut))) behind
  have first : (py "if ").foldl Taken.next {} = { command := py "if" } := rfl
  have second : word.foldl Taken.next { command := py "if" } =
      { mode := .word, command := py "if" ++ 0x20 :: word } := by
    rw [taken_word (.inl rfl) full points]
    simp [opened, py]
  obtain ⟨mode, more, third, -⟩ := @taken_tail (py "if" ++ 0x20 :: word) _ (by simp) shut
  have between := (@onward_closed { mode := .word, command := py "if" ++ 0x20 :: word } _ (.inr rfl)
    (isClosed_mono wider shut) []).2
  rw [third] at between
  have last : (py "; then").foldl Taken.next { mode, command := py "if" ++ 0x20 :: word ++ more } =
      { mode := .word, command := py "then", finished := [py "if" ++ 0x20 :: word ++ more] } := by
    rcases between with rfl | rfl <;> rfl
  refine ⟨word ++ more, by simp [full], ?_⟩
  rw [shellCommands_closed closed, opening, List.foldl_append, List.foldl_append, List.foldl_append, first, second,
    third, last]
  simp [Taken.commands, py]

private theorem opening_tokens (own : IsCommand condition) :
    ∃ test, test ≠ [] ∧ lineTokens (opening condition) = [.ifThe test, .thenDo] := by
  obtain ⟨test, full, same⟩ := opening_commands own
  refine ⟨test, full, ?_⟩
  have found : keyword (py "if") (py "if" ++ 0x20 :: test) = some test := keyword_spaced _ _
  have first : (py "if" ++ 0x20 :: test).takeWhile (· != 0x20) = py "if" := by simp [py]
  have other (word : PyStr) (solid : 0x20 ∉ word) (differs : py "if" ≠ word) :
      keyword word (py "if" ++ 0x20 :: test) = none := by
    by_contra found
    obtain ⟨rest, found⟩ := Option.ne_none_iff_exists'.mp found
    exact differs (first.symm.trans (keyword_first found solid))
  have test : tokensOf (py "if" ++ 0x20 :: test) = [.ifThe test] := by
    rw [tokensOf, other (py "then") (by decide) (by decide), other (py "else") (by decide) (by decide)]
    simp [tokenOf, found]
  have last : tokensOf (py "then") = [.thenDo] := rfl
  rw [lineTokens, same, List.flatMap_cons, test, List.flatMap_cons, last, List.flatMap_nil]
  rfl

private theorem fi_tokens : lineTokens (py "fi") = [.fi] := rfl

private theorem else_tokens : lineTokens (py "else") = [.elseDo] := rfl

-- A script is read from its end, so `fi` opens the frame that its `if` closes.
private theorem fi_reads (reader : Reader) (after : Script PyStr) :
    [Token.fi].foldr readToken { reader with current := after } = { frames := { after } :: reader.frames } := rfl

private theorem not_done_of_passes {script : Script PyStr} (passes : script.Passes name) : isDone script = false := by
  cases script with
  | done => cases passes
  | _ => rfl

private theorem opening_reads (own : IsCommand condition) (after no : Script PyStr) (closed : Bool)
    (outer : List Frame) {body : Script PyStr} (full : isDone body = false) :
    ∃ test, (lineTokens (opening condition)).foldr readToken
        { current := body, frames := { after, no, closed } :: outer } =
      { current := .branch test body no after, frames := outer } := by
  obtain ⟨test, some, opens⟩ := opening_tokens own
  refine ⟨test, ?_⟩
  rw [opens]
  simp [readToken, full, conditionsOf, some, branchOn]

/-- The script of the lines before the rest of a script goes on, and passes the commands of
those lines that belong to no branch. -/
theorem Course.reads (course : Course lines guarded) {reader : Reader} (clear : reader.Clear) :
    ∃ after commands, (lines.flatMap lineTokens).foldr readToken reader = { reader with current := after } ∧
      Extends commands reader.current after ∧ (lines ≠ [] → isDone after = false) ∧
      ∀ line ∈ lines, line ∉ guarded → ∀ command ∈ shellCommands line, command ∈ commands := by
  induction course generalizing reader with
  | done => exact ⟨reader.current, [], rfl, ⟨id, fun _ => id, by simp⟩, by simp, by simp⟩
  | step own _ ih =>
    obtain ⟨after, commands, same, extended, -, passed⟩ := ih clear
    obtain ⟨command, reads, more⟩ := own.reads after
    have clearToo : Reader.Clear { reader with current := after } := clear
    have full := not_done_of_passes (more.own command (by simp))
    refine ⟨oneCommand command after, [command] ++ commands, ?_, extended.append more, fun _ => full, ?_⟩
    · rw [List.flatMap_cons, List.foldr_append, same, reads.tokens]
      exact Reader.read_single clearToo command
    · refine List.forall_mem_cons.mpr ⟨fun _ part within => ?_, fun line member apart part within => ?_⟩
      · rw [reads.commands] at within
        exact List.mem_append_left _ within
      · exact List.mem_append_right _ (passed line member apart part within)
  | branch own _ full _ yesIh nextIh =>
    obtain ⟨after, commands, same, extended, -, passed⟩ := nextIh clear
    obtain ⟨yes, _, body, extendedYes, done, -⟩ := @yesIh { frames := { after } :: reader.frames }
      (by simp [Reader.Clear])
    obtain ⟨test, opens⟩ := opening_reads own after _ false reader.frames (done full)
    refine ⟨.branch test yes (.quiet none none .done) after, commands, ?_, ⟨fun steady => ?_, extended.passes,
      extended.own⟩, fun _ => rfl, fun line member apart => ?_⟩
    · simp only [List.flatMap_cons, List.flatMap_append, List.foldr_append, same, fi_tokens]
      rw [fi_reads, body]
      exact opens
    · exact ⟨extendedYes.steady trivial, ⟨nofun, trivial⟩, extended.steady steady⟩
    · simp only [List.mem_cons, List.mem_append, not_or] at member apart
      obtain ⟨noOpening, noFi, noBody, free⟩ := apart
      exact passed line (((member.resolve_left noOpening).resolve_left noBody).resolve_left noFi) free
  | fork own _ full _ fullToo _ yesIh noIh nextIh =>
    obtain ⟨after, commands, same, extended, -, passed⟩ := nextIh clear
    obtain ⟨no, _, otherwise, extendedNo, doneNo, -⟩ := @noIh { frames := { after } :: reader.frames }
      (by simp [Reader.Clear])
    obtain ⟨yes, _, body, extendedYes, done, -⟩ :=
      @yesIh { frames := { after, no, closed := true } :: reader.frames } (by simp [Reader.Clear])
    obtain ⟨test, opens⟩ := opening_reads own after no true reader.frames (done full)
    refine ⟨.branch test yes no after, commands, ?_, ⟨fun steady => ?_, extended.passes, extended.own⟩,
      fun _ => rfl, fun line member apart => ?_⟩
    · have turns : [Token.elseDo].foldr readToken { current := no, frames := { after } :: reader.frames } =
          { frames := { after, no, closed := true } :: reader.frames } := by
        simp [readToken, doneNo fullToo]
      simp only [List.flatMap_cons, List.flatMap_append, List.foldr_append, same, fi_tokens, else_tokens]
      rw [fi_reads, otherwise, turns, body]
      exact opens
    · exact ⟨extendedYes.steady trivial, extendedNo.steady trivial, extended.steady steady⟩
    · simp only [List.mem_cons, List.mem_append, not_or] at member apart
      obtain ⟨noOpening, noElse, noFi, ⟨noBody, noOther⟩, free⟩ := apart
      exact passed line (((((member.resolve_left noOpening).resolve_left noBody).resolve_left noElse).resolve_left
        noOther).resolve_left noFi) free

/-! ### The validators of a plain step -/

/-- A step is plain beside some commands: its script is written on lines that keep on, and none
of the commands is a line of a branch. -/
structure PlainStep (runCommand : PyStr) (expectedCommands : List PyStr) where
  commands : List PyStr
  guarded : List PyStr
  newlines : NewlinesOnly runCommand
  written : Written [] (split 0x0a runCommand) commands
  course : Course commands guarded
  beside : ∀ expected ∈ expectedCommands, expected ∉ guarded

/-- An accepted step that is plain beside its validators cannot pass without them. -/
theorem plain_step_validates (step : PlainStep runCommand expectedCommands)
    (accepted : hasAllExecutableShellCommands (some runCommand) expectedCommands = true) :
    ZeroMeansValidated runCommand expectedCommands := by
  obtain ⟨read, run⟩ := written_alike step.newlines step.written
  have clear : Reader.Clear {} := by simp [Reader.Clear]
  obtain ⟨after, passed, same, extended, -, own⟩ := step.course.reads clear
  have script : scriptOf runCommand = after := by
    rw [scriptOf, run, List.flatMap_assoc]
    exact congrArg (fun reader : Reader => if reader.frames.isEmpty then reader.current else unfinished reader.current) same
  intro trace flow ran zero expected member command part
  have line : expected ∈ step.commands := by
    have found : expected ∈ logicalShellCommands runCommand := by
      simpa using List.all_eq_true.mp accepted expected member
    rwa [read] at found
  have passes := extended.own command (own expected line (step.beside expected member) command part)
  rw [script] at ran
  exact (extended.steady trivial).ensures passes trace flow ran zero

/-- A step with options, a continued command, a branch and a comment before its validator. -/
def releaseLines : List PyStr :=
  [py "set -euo pipefail", py "PREV_TAG=$(git tag --sort=-creatordate \\", py "  | awk '$0 != 1 \x7b print; exit \x7d')",
    py "if [ -z \"${PREV_TAG}\" ]; then", py "  PREV_TAG=$(git rev-list HEAD)", py "fi", py "# from the last tag on",
    py "FRAGMENT=$(bash scripts/generate-changelog.sh \"${PREV_TAG}\" \"HEAD\")", py "echo \"${FRAGMENT}\"", []]

def fallbackTag : PyStr := py "PREV_TAG" ++ 0x3d :: (py "$(" ++ py "git rev-list HEAD" ++ py ")")

def emptyTag : PyStr := py "[" ++ py " -z \"${PREV_TAG}\" ]"

/-- The lines of commands of that step behind its branch. -/
def fragmentLines : List PyStr :=
  [py "FRAGMENT" ++ 0x3d :: (py "$(" ++ py "bash scripts/generate-changelog.sh \"${PREV_TAG}\" \"HEAD\"" ++ py ")"),
    py "echo" ++ py " \"${FRAGMENT}\""]

def releaseCommands : List PyStr :=
  [py "set -" ++ py "eu" ++ py "o pipefail",
    py "PREV_TAG" ++ 0x3d :: (py "$(" ++ py "git tag --sort=-creatordate | awk '$0 != 1 \x7b print; exit \x7d'" ++ py ")"),
    opening emptyTag, fallbackTag, py "fi"] ++ fragmentLines

def releaseStep : PlainStep (joinLines releaseLines)
    [py "FRAGMENT=$(bash scripts/generate-changelog.sh \"${PREV_TAG}\" \"HEAD\")"] where
  commands := releaseCommands
  guarded := [opening emptyTag, py "fi", fallbackTag]
  newlines := by
    intro point member broken
    rcases joinLines_mem member with newline | ⟨line, present, within⟩
    · exact newline
    · have unbroken : ∀ line ∈ releaseLines, ∀ point ∈ line, isLineBreak point = false := by decide
      rw [unbroken line present point within] at broken
      cases broken
  written := by
    rw [split_joinLines (by decide) (by decide)]
    refine .ended (by decide) (by decide) (by decide) ?_
    refine .continued (by decide) (by decide) (by decide) (by decide) (.ended (by decide) (by decide) (by decide) ?_)
    refine .ended (by decide) (by decide) (by decide) (.ended (by decide) (by decide) (by decide) ?_)
    refine .ended (by decide) (by decide) (by decide) (.skipped (by decide) ?_)
    refine .ended (by decide) (by decide) (by decide) (.ended (by decide) (by decide) (by decide) ?_)
    exact .skipped (by decide) .done
  course := by
    have behind : Course fragmentLines [] :=
      .step (.command (.substituted (by decide) (by decide)))
        (.step (.command (.named (by decide) (by decide) (by decide) (by decide))) .done)
    have condition : IsCommand emptyTag := .named (by decide) (by decide) (by decide) (by decide)
    have body : Course [fallbackTag] [] := .step (.command (.substituted (by decide) (by decide))) .done
    have branch : Course (opening emptyTag :: ([fallbackTag] ++ py "fi" :: fragmentLines))
        (opening emptyTag :: py "fi" :: ([fallbackTag] ++ [])) := .branch condition body (by decide) behind
    exact .step (.setting (py "eu") (by decide) (.inr rfl))
      (.step (.command (.substituted (by decide) (by decide))) branch)
  beside := by decide

/-- The fragment of the release is made whenever its step passes. -/
theorem release_step_validates :
    let command := py "FRAGMENT=$(bash scripts/generate-changelog.sh \"${PREV_TAG}\" \"HEAD\")"
    hasAllExecutableShellCommands (some (joinLines releaseLines)) [command] = true ∧
      ZeroMeansValidated (joinLines releaseLines) [command] := by
  intro command
  have accepted : hasAllExecutableShellCommands (some (joinLines releaseLines)) [command] = true := by decide
  exact ⟨accepted, plain_step_validates releaseStep accepted⟩

/-- An exit before the validator ends the step with status zero. -/
theorem skipped_validator_is_accepted :
    hasAllExecutableShellCommands (some (py "exit 0\nbash scripts/run_ci_local.sh typecheck"))
        [py "bash scripts/run_ci_local.sh typecheck"] = true ∧
      ¬ ZeroMeansValidated (py "exit 0\nbash scripts/run_ci_local.sh typecheck")
        [py "bash scripts/run_ci_local.sh typecheck"] := by
  simp only [zeroMeansValidated_iff, EveryRouteValidates]
  decide +kernel

end Charybdis.Policy
