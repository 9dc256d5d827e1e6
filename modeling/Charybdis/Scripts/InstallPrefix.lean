import Charybdis.Foundation.Path
import Charybdis.Foundation.Pattern
import Charybdis.Scripts.BashText

/-! The check on the install prefix of a Dockerfile: the stages it extracts, the lines it picks
from them and what it compares, against the directories the instructions name. -/

namespace Charybdis.Scripts

open Foundation
open Policy (contains isBlank split)
open Stub (PyStr py)

/-! ### Stages -/

/-- `toupper` on ASCII letters. -/
def upper (text : PyStr) : PyStr := text.map fun point => if 0x61 ≤ point ∧ point ≤ 0x7a then point - 0x20 else point

/-- The records of `awk`. -/
def records (text : PyStr) : List PyStr :=
  let lines := split 0x0a text
  if lines.getLast? = some [] then lines.dropLast else lines

/-- The words between the blanks of a class. -/
def wordsBy (blank : Nat → Bool) (line : PyStr) : List PyStr := (line.splitOnP blank).filter (· ≠ [])

/-- `$<number>`, counted from 0. -/
def field (number : Nat) (line : PyStr) : PyStr := ((wordsBy isBlank line)[number]?).getD []

section Check

variable (locale : Locale)

/-- `split($0, parts, /[[:space:]]+/)`: blanks at an end leave an empty part there. -/
def partsOf (line : PyStr) : List PyStr :=
  let ends (point : Option Nat) : List PyStr := if point.any locale.blank then [[]] else []
  ends line.head? ++ wordsBy locale.blank line ++ ends line.getLast?

/-- The loop over the parts of a `FROM` line: the last `AS` decides. -/
def selects (target : PyStr) : Bool → List PyStr → Bool
  | on, part :: next :: rest =>
    selects target (if upper part = py "AS" then upper next == target else on) (next :: rest)
  | on, _ => on

/-- The rules of the `awk` program on the lines behind those that left `on`. -/
def extractFrom (target : PyStr) : Bool → List PyStr → List PyStr
  | _, [] => []
  | on, line :: rest =>
    if upper (field 0 line) = py "FROM" then extractFrom target (selects target false (partsOf locale line)) rest
    else if on then line :: extractFrom target on rest
    else extractFrom target on rest

/-- `$(extract_stage <file> <stage>)`; the substitution drops newlines at the end. -/
def extractStage (stage text : PyStr) : List PyStr :=
  (extractFrom locale (upper stage) false (records text)).rdropWhile (· = [])

def builderStage (text : PyStr) : List PyStr := extractStage locale (py "builder") text

def runtimeStage (text : PyStr) : List PyStr := extractStage locale (py "runtime") text

/-! ### What is picked -/

/-- The part a `sed` command keeps that has `.*<key>` in front of it: the last occurrence of
the key that something can be read behind. -/
def lastArgument (key : PyStr) (argument : PyStr → Option PyStr) : PyStr → Option PyStr
  | [] => none
  | point :: rest =>
    match lastArgument key argument rest with
    | some found => some found
    | none => ((point :: rest).dropPrefix? key).bind argument

def leadingWord (text : PyStr) : PyStr := text.takeWhile fun point => !locale.blank point

/-- `=?[[:space:]=]*([^[:space:]]+)` behind `--prefix`; only equals signs and blanks leave the
last sign to the group. -/
def prefixArgument (text : PyStr) : Option PyStr :=
  let rest := text.dropWhile fun point => locale.blank point || point == 0x3d
  if rest ≠ [] then some (leadingWord locale rest)
  else if 0x3d ∈ text then some (py "=")
  else none

/-- `$prefix` of a line. -/
def prefixOf (line : PyStr) : PyStr := (lastArgument (py "--prefix") (prefixArgument locale) line).getD []

/-- `[[:space:]]+([^[:space:]]+)` behind `--from=builder`. -/
def copyArgument (text : PyStr) : Option PyStr :=
  let word := leadingWord locale (text.dropWhile locale.blank)
  if text.head?.any locale.blank ∧ word ≠ [] then some word else none

def copySrcOf (line : PyStr) : PyStr := (lastArgument (py "--from=builder") (copyArgument locale) line).getD []

/-- `^[[:space:]]*WORKDIR[[:space:]]+[^[:space:]]+`. -/
def workdirPattern : Pattern Nat :=
  .chain [.many (.one locale.blank), .text (py "WORKDIR"), .plus (.one locale.blank),
    .plus (.one fun point => !locale.blank point), .anything]

/-- `cmake[[:space:]].*--install`. -/
def isInstall (line : PyStr) : Bool :=
  (Pattern.within (.chain [.text (py "cmake"), .one locale.blank, .anything, .text (py "--install")])).accepts line

/-- `chown.*[[:space:]]/install([[:space:]]|$)`. -/
def isChown (line : PyStr) : Bool :=
  Pattern.accepts (.chain [.anything, .text (py "chown"), .anything, .one locale.blank, .text (py "/install"),
    .optional (.seq (.one locale.blank) .anything)]) line

def fromBuilder (line : PyStr) : Bool := contains (py "--from=builder") line

/-- `$workdir`. -/
def workdirOf (builder : List PyStr) : PyStr :=
  ((builder.filter (workdirPattern locale).accepts).getLast?.map (field 1)).getD []

/-- `$install_line`; no line that matches is empty. -/
def installLine (builder : List PyStr) : Option PyStr := builder.find? (isInstall locale)

/-- `$copy_src`. -/
def copySrc (runtime : List PyStr) : PyStr := ((runtime.find? fromBuilder).map (copySrcOf locale)).getD []

/-! ### The check -/

/-- Rule 1a. -/
def workdirReports (builder : List PyStr) : List PyStr :=
  if workdirOf locale builder = [] then [py "builder stage does not declare a WORKDIR"] else []

/-- Rule 1b on the line that is picked. -/
def prefixReports (builder : List PyStr) (line : PyStr) : List PyStr :=
  let target := prefixOf locale line
  let workdir := workdirOf locale builder
  if target = [] then [py "`cmake --install` step declares no --prefix: " ++ line]
  else if ¬ (workdir ++ py "/") <+: target ∧ target ≠ workdir then
    [py "install prefix `" ++ target ++ py "` is not under builder WORKDIR `" ++ workdir ++
      py "` (root-owned absolute paths break non-root installs — issue #248)"]
  else []

/-- Rule 3 on the line that is picked in the builder. -/
def copyReports (runtime : List PyStr) (line : PyStr) : List PyStr :=
  let expected := prefixOf locale line ++ py "/bin/Charybdis"
  let source := copySrc locale runtime
  if source = [] then [py "runtime stage has no `COPY --from=builder ...` step"]
  else if source ≠ expected then
    [py "runtime copies `" ++ source ++ py "` but builder installs to `" ++ expected ++
      py "` (stages out of lockstep)"]
  else []

/-- Rules 1b and 3. -/
def installReports (builder runtime : List PyStr) : List PyStr :=
  match installLine locale builder with
  | none => [py "builder stage has no `cmake --install` step"]
  | some line => prefixReports locale builder line ++ copyReports locale runtime line

/-- Rule 2. -/
def chownReports (builder : List PyStr) : List PyStr :=
  (builder.filter (isChown locale)).map fun line =>
    py "builder-stage permission workaround for a root install prefix: " ++ line

/-- The violations the script reports on a Dockerfile. -/
def violations (text : PyStr) : List PyStr :=
  let builder := builderStage locale text
  let runtime := runtimeStage locale text
  if builder = [] then [py "no builder stage found (`FROM ... AS builder`)"]
  else if runtime = [] then [py "no runtime stage found (`FROM ... AS runtime`)"]
  else workdirReports locale builder ++ installReports locale builder runtime ++ chownReports locale builder

/-- Whether the script exits with 0. -/
def passesPrefixCheck (text : PyStr) : Bool := (violations locale text).isEmpty

/-! ### What the instructions mean -/

/-- A directory, from the root down. -/
abbrev Directory := List PyStr

def descendPath (dir : Directory) (path : PyStr) : Directory := Path.descend (py ".") (py "..") dir (split 0x2f path)

/-- The directory a path names from another one. -/
def resolve (dir : Directory) (path : PyStr) : Directory :=
  if path.head? = some 0x2f then descendPath [] path else descendPath dir path

/-- Empty lines and comments are part of no instruction. -/
def isVoid (line : PyStr) : Bool := (line.dropWhile locale.blank).head?.all (· == 0x23)

/-- A backslash at the end of a line, one behind another apart. -/
def continues (line : PyStr) : Bool :=
  match line.reverse.dropWhile isBlank with
  | 0x5c :: before => before.head? ≠ some 0x5c
  | _ => false

/-- The first lines of the instructions, behind a line that continues or not. The text of a
here-document is not told from instructions. -/
def instructionsFrom : Bool → List PyStr → List PyStr
  | _, [] => []
  | continued, line :: rest =>
    if isVoid locale line then instructionsFrom continued rest
    else if continued then instructionsFrom (continues line) rest
    else line :: instructionsFrom (continues line) rest

def instructions (lines : List PyStr) : List PyStr := instructionsFrom locale false lines

/-- The path of a `WORKDIR` instruction: all that follows the keyword, as it is written. -/
def workdirArgument (line : PyStr) : Option PyStr :=
  let text := locale.trim line
  if upper (leadingWord locale text) = py "WORKDIR" then
    some ((text.drop (leadingWord locale text).length).dropWhile locale.blank)
  else none

/-- The working directory behind some lines of a stage that starts in `base`. -/
def workdirAt (base : Directory) (lines : List PyStr) : Directory :=
  (instructions locale lines).foldl (fun dir line => ((workdirArgument locale line).map (resolve dir)).getD dir) base

def isFlag (word : PyStr) : Bool := (py "--").isPrefixOf word

/-- The source of a `COPY --from=builder` instruction: the first word behind its flags. -/
def copySource (line : PyStr) : Option PyStr :=
  match wordsBy locale.blank line with
  | [] => none
  | keyword :: rest =>
    if upper keyword = py "COPY" ∧ py "--from=builder" ∈ rest.takeWhile isFlag then (rest.dropWhile isFlag).head?
    else none

/-- A path that, from a directory, stays in it or below, and is not the root. -/
def Inside (dir : Directory) (path : PyStr) : Prop :=
  path ≠ [] ∧ dir <+: resolve dir path ∧ resolve dir path ≠ []

/-- A line that is a `cmake --install` step. -/
def IsStep (line : PyStr) : Prop := isInstall locale line = true ∧ locale.isComment line = false

/-- Every step of the builder stage installs inside of the directory it runs in, and the runtime
stage copies the binary from the prefix of one. -/
structure KeepsPrefix (base : Directory) (text : PyStr) : Prop where
  installs : ∀ index line, (builderStage locale text)[index]? = some line → IsStep locale line →
    Inside (workdirAt locale base ((builderStage locale text).take index)) (prefixOf locale line)
  copies : ∃ line ∈ builderStage locale text, IsStep locale line ∧
    ∃ copy ∈ instructions locale (runtimeStage locale text),
      copySource locale copy = some (prefixOf locale line ++ py "/bin/Charybdis")

/-! ### One step and one copy -/

/-- Points that the shell, the builder or the check do not take for part of a word. -/
def specials : PyStr := py "=$\"'`\\;&|<>()[]*?~\x7b\x7d"

/-- A word without variables, quotes and the like. -/
def IsPlainWord (word : PyStr) : Prop :=
  word ≠ [] ∧ ∀ point ∈ word, locale.blank point = false ∧ point ∉ specials

def IsGap (text : PyStr) : Prop := text ≠ [] ∧ ∀ point ∈ text, isBlank point = true

instance : Decidable (IsStep locale line) := inferInstanceAs (Decidable (_ ∧ _))

instance : Decidable (IsPlainWord locale word) := inferInstanceAs (Decidable (_ ∧ _))

instance : Decidable (IsGap text) := inferInstanceAs (Decidable (_ ∧ _))

/-- What follows a word. -/
def IsBehind (text : PyStr) : Prop := text = [] ∨ text.head?.any locale.blank = true

/-- Lines behind which a line starts an instruction: no here-document is opened, and the last line with
words does not continue. -/
structure IsFinished (lines : List PyStr) : Prop where
  documents : ∀ line ∈ lines, contains (py "<<") line = false
  ended : ((lines.filter (!isVoid locale ·)).getLast?).any continues = false

/-- A builder stage with one `WORKDIR` and below it one step, whose prefix does not climb. -/
structure OneStep where
  above : List PyStr
  declaration : PyStr
  between : List PyStr
  step : PyStr
  below : List PyStr
  workdir : PyStr
  target : PyStr
  finished : IsFinished locale above
  declares : ∃ lead gap trail, declaration = lead ++ (py "WORKDIR" ++ (gap ++ (workdir ++ trail))) ∧
    IsGap gap ∧ ∀ point ∈ lead ++ trail, isBlank point = true
  undeclared : ∀ line ∈ above ++ (between ++ step :: below), workdirArgument locale line = none
  first : ∀ line ∈ above ++ declaration :: between, isInstall locale line = false
  installs : IsStep locale step
  others : ∀ line ∈ below, ¬ IsStep locale line
  names : ∃ front gap rest, step = front ++ (py "--prefix" ++ (gap ++ (target ++ rest))) ∧
    front.getLast?.any isBlank = true ∧ (gap = py "=" ∨ IsGap gap) ∧ IsBehind locale rest ∧
    contains (py "--prefix") (target ++ rest) = false
  plain : IsPlainWord locale workdir ∧ IsPlainWord locale target
  level : py ".." ∉ split 0x2f target
  named : ∃ segment ∈ split 0x2f workdir, segment ≠ [] ∧ segment ≠ py "."

def OneStep.lines {locale : Locale} (own : OneStep locale) : List PyStr :=
  own.above ++ own.declaration :: (own.between ++ own.step :: own.below)

/-- A runtime stage whose first line with `--from=builder` is a `COPY` that names the flag before its
source. -/
structure OneCopy where
  above : List PyStr
  copy : PyStr
  below : List PyStr
  keyword : PyStr
  flags : PyStr
  source : PyStr
  finished : IsFinished locale above
  first : ∀ line ∈ above, fromBuilder line = false
  copies : ∃ lead gap rest, copy = lead ++ (keyword ++ (flags ++ (py "--from=builder" ++ (gap ++ (source ++ rest))))) ∧
    (∀ point ∈ lead, isBlank point = true) ∧ IsGap gap ∧ IsBehind locale rest ∧
    contains (py "--from=builder") (source ++ rest) = false
  upperKeyword : upper keyword = py "COPY"
  apart : flags.head?.any isBlank = true ∧ flags.getLast?.any isBlank = true
  flagged : ∀ word ∈ wordsBy locale.blank flags, isFlag word = true
  plain : IsPlainWord locale source ∧ isFlag source = false

def OneCopy.lines {locale : Locale} (own : OneCopy locale) : List PyStr := own.above ++ own.copy :: own.below

end Check

/-! ### Paths -/

theorem descendPath_slash (dir : Directory) (path : PyStr) : descendPath dir (0x2f :: path) = descendPath dir path := by
  have parted : split 0x2f (0x2f :: path) = [] :: split 0x2f path :=
    List.splitOnP_append_cons [] path rfl
  rw [descendPath, parted, Path.descend_nil_cons, descendPath]

theorem resolve_append {path : PyStr} (full : path ≠ []) {rest : PyStr} (apart : rest = [] ∨ rest.head? = some 0x2f)
    (dir : Directory) : resolve dir (path ++ rest) = descendPath (resolve dir path) rest := by
  have pieces (dir : Directory) : descendPath dir (path ++ rest) = descendPath (descendPath dir path) rest := by
    cases rest with
    | nil => rw [List.append_nil]; rfl
    | cons point rest =>
      have slash : point = 0x2f := by simpa using apart
      have parted : split 0x2f (path ++ 0x2f :: rest) = split 0x2f path ++ split 0x2f rest :=
        List.splitOnP_append_cons path rest rfl
      rw [slash, descendPath_slash, descendPath, parted, Path.descend_append]
      rfl
  have head : (path ++ rest).head? = path.head? := by
    cases path with
    | nil => exact absurd rfl full
    | cons point path => rfl
  rw [resolve, resolve, head]
  split
  · exact pieces []
  · exact pieces dir

/-! ### Words -/

theorem wordsBy_append {blank : Nat → Bool} {point : Nat} (separates : blank point = true) (front rest : PyStr) :
    wordsBy blank (front ++ point :: rest) = wordsBy blank front ++ wordsBy blank rest := by
  rw [wordsBy, List.splitOnP_append_cons front rest separates, List.filter_append]
  rfl

theorem wordsBy_lead {blank : Nat → Bool} {lead : PyStr} (spaces : ∀ point ∈ lead, blank point = true) (rest : PyStr) :
    wordsBy blank (lead ++ rest) = wordsBy blank rest := by
  induction lead with
  | nil => rfl
  | cons point lead ih =>
    obtain ⟨separates, others⟩ := List.forall_mem_cons.mp spaces
    rw [List.cons_append, ← ih others]
    exact wordsBy_append separates [] (lead ++ rest)

theorem wordsBy_word {blank : Nat → Bool} {word rest : PyStr} (full : word ≠ [])
    (solid : ∀ point ∈ word, blank point = false) (behind : rest = [] ∨ rest.head?.any blank = true) :
    wordsBy blank (word ++ rest) = word :: wordsBy blank rest := by
  have own : wordsBy blank word = [word] := by
    simp [wordsBy, List.splitOnP_eq_singleton solid, full]
  cases rest with
  | nil => rw [List.append_nil, own]; rfl
  | cons point rest =>
    have separates : blank point = true := by simpa using behind
    rw [wordsBy_append separates, own, List.singleton_append]
    exact congrArg (word :: ·) (wordsBy_append separates [] rest).symm

theorem wordsBy_closed {blank : Nat → Bool} {front : PyStr} (closed : front.getLast?.any blank = true) (rest : PyStr) :
    wordsBy blank (front ++ rest) = wordsBy blank front ++ wordsBy blank rest := by
  obtain rfl | ⟨front, point, rfl⟩ := List.eq_nil_or_concat' front
  · cases closed
  · have separates : blank point = true := by simpa using closed
    rw [List.append_assoc, List.singleton_append, wordsBy_append separates, wordsBy_append separates]
    simp [wordsBy]

/-! ### The last occurrence of a key -/

private theorem lastArgument_none {key : PyStr} {argument : PyStr → Option PyStr} {text : PyStr}
    (absent : contains key text = false) : lastArgument key argument text = none := by
  induction text with
  | nil => rfl
  | cons point rest ih =>
    rw [contains, Bool.or_eq_false_iff] at absent
    have other : (point :: rest).dropPrefix? key = none := by
      rw [Option.eq_none_iff_forall_ne_some]
      intro found same
      have front : key <+: point :: rest := ⟨found, (Policy.dropPrefix?_iff.mp same).symm⟩
      rw [List.isPrefixOf_iff_prefix.mpr front] at absent
      cases absent.1
    rw [lastArgument, ih absent.2, other]
    rfl

private theorem lastArgument_append {key : PyStr} {argument : PyStr → Option PyStr} {text found : PyStr}
    (here : lastArgument key argument text = some found) (front : PyStr) :
    lastArgument key argument (front ++ text) = some found := by
  induction front with
  | nil => exact here
  | cons point front ih => rw [List.cons_append, lastArgument, ih]

private theorem contains_lead {point : Nat} {key lead : PyStr} (absent : point ∉ lead) (text : PyStr) :
    contains (point :: key) (lead ++ text) = contains (point :: key) text := by
  induction lead with
  | nil => rfl
  | cons other lead ih =>
    rw [List.mem_cons, not_or] at absent
    have differs : (point == other) = false := beq_eq_false_iff_ne.mpr absent.1
    rw [List.cons_append, contains, List.isPrefixOf_cons_cons, differs, Bool.false_and, Bool.false_or, ih absent.2]

private theorem lastArgument_option (name : PyStr) (full : name ≠ []) (absent : 0x2d ∉ name) {text found : PyStr}
    {argument : PyStr → Option PyStr} (last : contains (0x2d :: 0x2d :: name) text = false)
    (read : argument text = some found) (front : PyStr) :
    lastArgument (0x2d :: 0x2d :: name) argument (front ++ (0x2d :: 0x2d :: name ++ text)) = some found := by
  have later : contains (0x2d :: 0x2d :: name) (0x2d :: (name ++ text)) = false := by
    obtain ⟨point, rest, rfl⟩ := List.exists_cons_of_ne_nil full
    have differs : ((0x2d : Nat) == point) = false := by
      rw [List.mem_cons, not_or] at absent
      exact beq_eq_false_iff_ne.mpr absent.1
    rw [contains, contains_lead absent, last, List.cons_append, List.isPrefixOf_cons_cons,
      List.isPrefixOf_cons_cons, differs, Bool.false_and, Bool.and_false, Bool.or_false]
  have own : (0x2d :: 0x2d :: name ++ text).dropPrefix? (0x2d :: 0x2d :: name) = some text :=
    Policy.dropPrefix?_iff.mpr rfl
  refine lastArgument_append ?_ front
  rw [List.cons_append, List.cons_append, lastArgument, lastArgument_none later, ← List.cons_append,
    ← List.cons_append, own, Option.bind_some, read]

/-! ### What passes -/

section Passing

variable {locale : Locale}

/-- The facts the check establishes about the lines it picks. -/
structure Passed (locale : Locale) (text line : PyStr) : Prop where
  picked : installLine locale (builderStage locale text) = some line
  workdir : workdirOf locale (builderStage locale text) ≠ []
  spelled : ∃ rest, prefixOf locale line = workdirOf locale (builderStage locale text) ++ rest ∧
    (rest = [] ∨ rest.head? = some 0x2f)
  copied : copySrc locale (runtimeStage locale text) = prefixOf locale line ++ py "/bin/Charybdis"
  unowned : ∀ other ∈ builderStage locale text, isChown locale other = false

private theorem prefixReports_iff (workdir : workdirOf locale builder ≠ []) {line : PyStr} :
    prefixReports locale builder line = [] ↔
      ∃ rest, prefixOf locale line = workdirOf locale builder ++ rest ∧ (rest = [] ∨ rest.head? = some 0x2f) := by
  simp only [prefixReports]
  generalize prefixOf locale line = target
  generalize workdirOf locale builder = dir at workdir
  constructor
  · intro quiet
    split at quiet
    · cases quiet
    · split at quiet
      · cases quiet
      · rename_i spelled
        rw [not_and_or, not_not, not_not] at spelled
        rcases spelled with ⟨rest, rfl⟩ | rfl
        · exact ⟨py "/" ++ rest, by simp only [List.append_assoc], .inr rfl⟩
        · exact ⟨[], (List.append_nil _).symm, .inl rfl⟩
  · rintro ⟨rest, rfl, apart⟩
    rw [if_neg (by simp [workdir]), if_neg]
    rintro ⟨outside, other⟩
    rcases apart with rfl | slash
    · exact other (List.append_nil dir)
    · obtain ⟨rest, rfl⟩ := List.head?_eq_some_iff.mp slash
      exact outside ⟨rest, by simp [py]⟩

private theorem copyReports_iff {line : PyStr} :
    copyReports locale runtime line = [] ↔ copySrc locale runtime = prefixOf locale line ++ py "/bin/Charybdis" := by
  have named : prefixOf locale line ++ py "/bin/Charybdis" ≠ [] := by simp [py]
  simp only [copyReports]
  generalize prefixOf locale line ++ py "/bin/Charybdis" = expected at named
  by_cases empty : copySrc locale runtime = []
  · rw [if_pos empty, empty]
    simp [Ne.symm named]
  · rw [if_neg empty]
    simp

private theorem chownReports_iff :
    chownReports locale builder = [] ↔ ∀ other ∈ builder, isChown locale other = false := by
  simp [chownReports]

/-- The check passes exactly when the lines it picks fit together. -/
theorem passesPrefixCheck_iff {text : PyStr} :
    passesPrefixCheck locale text = true ↔ ∃ line, Passed locale text line := by
  rw [passesPrefixCheck, List.isEmpty_iff]
  constructor
  · intro quiet
    simp only [violations] at quiet
    split at quiet
    · cases quiet
    · split at quiet
      · cases quiet
      · rw [List.append_eq_nil_iff, List.append_eq_nil_iff, workdirReports, installReports, chownReports_iff] at quiet
        obtain ⟨⟨declared, installs⟩, unowned⟩ := quiet
        have workdir : workdirOf locale (builderStage locale text) ≠ [] := by
          intro undeclared
          rw [if_pos undeclared] at declared
          cases declared
        cases picked : installLine locale (builderStage locale text) with
        | none =>
          rw [picked] at installs
          cases installs
        | some line =>
          rw [picked] at installs
          obtain ⟨spelled, copied⟩ := List.append_eq_nil_iff.mp installs
          exact ⟨line, picked, workdir, (prefixReports_iff workdir).mp spelled, copyReports_iff.mp copied, unowned⟩
  · rintro ⟨line, picked, workdir, spelled, copied, unowned⟩
    have builder : builderStage locale text ≠ [] := by
      intro empty
      rw [empty] at picked
      cases picked
    have runtime : runtimeStage locale text ≠ [] := by
      intro empty
      rw [empty] at copied
      have short := congrArg List.length copied
      simp [copySrc, py] at short
    rw [violations, if_neg builder, if_neg runtime, workdirReports, if_neg workdir, installReports, picked]
    simp only [(prefixReports_iff workdir).mpr spelled, copyReports_iff.mpr copied, chownReports_iff.mpr unowned,
      List.append_nil]

/-! ### The lines that are picked -/

private theorem blank_of_isBlank {point : Nat} (blank : isBlank point = true) : locale.blank point = true := by
  simp only [isBlank, Bool.or_eq_true, beq_iff_eq] at blank
  rcases blank with rfl | rfl <;> exact locale.ascii _ (by decide)

private theorem blanks {text : PyStr} (gap : ∀ point ∈ text, isBlank point = true) :
    ∀ point ∈ text, locale.blank point = true :=
  fun point member => blank_of_isBlank (gap point member)

private theorem solid_of_locale {text : PyStr} (solid : ∀ point ∈ text, locale.blank point = false) :
    ∀ point ∈ text, isBlank point = false := by
  intro point member
  by_contra blank
  have own := solid point member
  rw [blank_of_isBlank (by simpa using blank)] at own
  cases own

private theorem dropWhile_lead {inClass : Nat → Bool} {lead rest : PyStr} (inside : ∀ point ∈ lead, inClass point = true)
    (boundary : ∀ point, rest.head? = some point → inClass point = false) : (lead ++ rest).dropWhile inClass = rest := by
  rw [List.dropWhile_append_of_pos inside]
  cases rest with
  | nil => rfl
  | cons point rest => simp [boundary point rfl]

private theorem leadingWord_eq {word rest : PyStr} (solid : ∀ point ∈ word, locale.blank point = false)
    (behind : IsBehind locale rest) : leadingWord locale (word ++ rest) = word := by
  have inside : ∀ point ∈ word, (!locale.blank point) = true := fun point member => by rw [solid point member]; rfl
  rw [leadingWord, List.takeWhile_append_of_pos inside]
  cases rest with
  | nil => simp
  | cons point rest =>
    have stop : locale.blank point = true := by simpa [IsBehind] using behind
    simp [stop]

private theorem solid_head {word : PyStr} (full : word ≠ []) (solid : ∀ point ∈ word, locale.blank point = false)
    (rest : PyStr) : ∀ point, (word ++ rest).head? = some point → locale.blank point = false := by
  intro point first
  cases word with
  | nil => exact absurd rfl full
  | cons head word =>
    obtain rfl := Option.some.inj first
    exact solid head List.mem_cons_self

private theorem solid_workdir : ∀ point ∈ py "WORKDIR", locale.blank point = false := by
  have ascii : ∀ point ∈ py "WORKDIR",
      point < 0x80 ∧ ((0x09 ≤ point && point ≤ 0x0d) || point == 0x20) = false := by decide
  exact fun point member => locale.solid_ascii (ascii point member).1 (ascii point member).2

private theorem workdirArgument_eq {lead gap word : PyStr} (spaces : ∀ point ∈ lead, locale.blank point = true)
    (apart : gap ≠ []) (gaps : ∀ point ∈ gap, locale.blank point = true) (full : word ≠ [])
    (solid : ∀ point ∈ word, locale.blank point = false) (rest : PyStr) :
    workdirArgument locale (lead ++ (py "WORKDIR" ++ (gap ++ (word ++ rest)))) =
      some (word ++ rest.rdropWhile locale.blank) := by
  have trimmed : locale.trim (lead ++ (py "WORKDIR" ++ (gap ++ (word ++ rest)))) =
      py "WORKDIR" ++ (gap ++ (word ++ rest.rdropWhile locale.blank)) := by
    obtain ⟨front, last, same⟩ := (List.eq_nil_or_concat' word).resolve_left full
    have ends : locale.blank last = false := solid last (by simp [same])
    rw [Locale.trim, dropWhile_lead spaces (solid_head (by decide) solid_workdir _), same]
    simpa using rdropWhile_append_solid ends (py "WORKDIR" ++ (gap ++ front)) rest
  have behind : IsBehind locale (gap ++ (word ++ rest.rdropWhile locale.blank)) := by
    cases gap with
    | nil => exact absurd rfl apart
    | cons point gap => exact .inr (gaps point List.mem_cons_self)
  rw [workdirArgument, trimmed]
  simp only [leadingWord_eq solid_workdir behind]
  rw [if_pos (by decide), List.drop_left, dropWhile_lead gaps (solid_head full solid _)]

private theorem accepts_workdir {line : PyStr} : (workdirPattern locale).accepts line = true ↔
    ∃ lead gap word rest, line = lead ++ (py "WORKDIR" ++ (gap ++ (word ++ rest))) ∧
      (∀ point ∈ lead, locale.blank point = true) ∧ (gap ≠ [] ∧ ∀ point ∈ gap, locale.blank point = true) ∧
      word ≠ [] ∧ ∀ point ∈ word, locale.blank point = false := by
  simp only [Pattern.accepts_iff, workdirPattern, Pattern.mem_chain, Pattern.mem_text, Pattern.mem_many_one,
    Pattern.mem_plus_one, Bool.not_eq_true']
  constructor
  · rintro ⟨lead, _, rfl, spaces, _, _, rfl, rfl, gap, _, rfl, gaps, word, rest, rfl, solid, -⟩
    exact ⟨lead, gap, word, rest, rfl, spaces, gaps, solid⟩
  · rintro ⟨lead, gap, word, rest, rfl, spaces, gaps, solid⟩
    exact ⟨lead, _, rfl, spaces, _, _, rfl, rfl, gap, _, rfl, gaps, word, rest, rfl, solid, Pattern.mem_anything rest⟩

private theorem accepts_declares {line : PyStr} (accepted : (workdirPattern locale).accepts line = true) :
    workdirArgument locale line ≠ none := by
  obtain ⟨lead, gap, word, rest, rfl, spaces, gaps, full, solid⟩ := accepts_workdir.mp accepted
  rw [workdirArgument_eq spaces gaps.1 gaps.2 full solid rest]
  exact Option.some_ne_none _

/-! ### The instructions of a stage -/

private theorem instructionsFrom_append (continued : Bool) (lines rest : List PyStr) :
    instructionsFrom locale continued (lines ++ rest) =
      instructionsFrom locale continued lines ++
        instructionsFrom locale ((((lines.filter (!isVoid locale ·)).getLast?).map continues).getD continued) rest := by
  induction lines generalizing continued with
  | nil => rfl
  | cons line lines ih =>
    by_cases void : isVoid locale line = true
    · simp [instructionsFrom, void, ih]
    · have kept : (line :: lines).filter (!isVoid locale ·) = line :: lines.filter (!isVoid locale ·) :=
        List.filter_cons_of_pos (by simp [void])
      have state : ((((line :: lines).filter (!isVoid locale ·)).getLast?).map continues).getD continued =
          (((lines.filter (!isVoid locale ·)).getLast?).map continues).getD (continues line) := by
        rw [kept, List.getLast?_cons]
        cases (lines.filter (!isVoid locale ·)).getLast? <;> rfl
      rw [state, List.cons_append, instructionsFrom, if_neg void, instructionsFrom, if_neg void]
      cases continued <;> simp [ih]

private theorem instructionsFrom_sub {continued : Bool} {lines : List PyStr}
    (member : line ∈ instructionsFrom locale continued lines) : line ∈ lines := by
  induction lines generalizing continued with
  | nil => cases member
  | cons first lines ih =>
    rw [instructionsFrom] at member
    split at member
    · exact List.mem_cons_of_mem _ (ih member)
    · split at member
      · exact List.mem_cons_of_mem _ (ih member)
      · rcases List.mem_cons.mp member with rfl | later
        · exact List.mem_cons_self
        · exact List.mem_cons_of_mem _ (ih later)

private theorem instructions_cons {lines : List PyStr} (finished : IsFinished locale lines) {line : PyStr}
    (words : isVoid locale line = false) (rest : List PyStr) :
    instructions locale (lines ++ line :: rest) =
      instructions locale lines ++ line :: instructionsFrom locale (continues line) rest := by
  have ended : (((lines.filter (!isVoid locale ·)).getLast?).map continues).getD false = false := by
    have last := finished.ended
    cases found : (lines.filter (!isVoid locale ·)).getLast? with
    | none => rfl
    | some line =>
      rw [found] at last
      exact last
  rw [instructions, instructions, instructionsFrom_append, ended, instructionsFrom, if_neg (by simp [words]),
    if_neg Bool.false_ne_true]

private theorem Passed.copySrcOf_eq (passed : Passed locale text line) :
    ∃ copy, (runtimeStage locale text).find? fromBuilder = some copy ∧
      copySrcOf locale copy = prefixOf locale line ++ py "/bin/Charybdis" := by
  have copied := passed.copied
  unfold copySrc at copied
  cases found : (runtimeStage locale text).find? fromBuilder with
  | none =>
    rw [found] at copied
    have short := congrArg List.length copied
    simp [py] at short
  | some copy =>
    rw [found] at copied
    exact ⟨copy, rfl, copied⟩

namespace OneStep

variable (own : OneStep locale)

private theorem picked : installLine locale own.lines = some own.step := by
  have above : ∀ line ∈ own.above ++ own.declaration :: own.between, ¬ isInstall locale line = true :=
    fun line member => by simp [own.first line member]
  have whole : own.lines = (own.above ++ own.declaration :: own.between) ++ own.step :: own.below := by
    rw [lines, List.append_assoc, List.cons_append]
  rw [installLine, whole, List.find?_append, List.find?_eq_none.mpr above, Option.none_or,
    List.find?_cons_of_pos own.installs.1]

private theorem undeclaring {lines : List PyStr} (undeclared : ∀ line ∈ lines, workdirArgument locale line = none) :
    lines.filter (workdirPattern locale).accepts = [] := by
  refine List.filter_eq_nil_iff.mpr fun line member accepted => ?_
  exact accepts_declares accepted (undeclared line member)

private theorem workdirOf_eq : workdirOf locale own.lines = own.workdir := by
  obtain ⟨lead, gap, trail, same, gaps, spaces⟩ := own.declares
  obtain ⟨leads, trails⟩ := List.forall_mem_append.mp spaces
  obtain ⟨full, plain⟩ := own.plain.1
  obtain ⟨before, behind⟩ := List.forall_mem_append.mp own.undeclared
  have solid : ∀ point ∈ own.workdir, locale.blank point = false := fun point member => (plain point member).1
  have accepted : (workdirPattern locale).accepts own.declaration = true :=
    accepts_workdir.mpr ⟨lead, gap, own.workdir, trail, same, blanks leads, ⟨gaps.1, blanks gaps.2⟩, full, solid⟩
  have apart : gap ++ (own.workdir ++ trail) = [] ∨ (gap ++ (own.workdir ++ trail)).head?.any isBlank = true := by
    cases gap with
    | nil => exact absurd rfl gaps.1
    | cons point gap => exact .inr (gaps.2 point List.mem_cons_self)
  have ends : trail = [] ∨ trail.head?.any isBlank = true := by
    cases trail with
    | nil => exact .inl rfl
    | cons point trail => exact .inr (trails point List.mem_cons_self)
  have words : wordsBy isBlank own.declaration = [py "WORKDIR", own.workdir] := by
    rw [same, wordsBy_lead leads, wordsBy_word (by decide) (by decide) apart, wordsBy_lead gaps.2,
      wordsBy_word full (solid_of_locale solid) ends]
    simpa [wordsBy] using wordsBy_lead trails []
  rw [workdirOf, lines, List.filter_append, undeclaring before, List.nil_append,
    List.filter_cons_of_pos accepted, undeclaring behind]
  simp [field, words]

private theorem unmoved {lines : List PyStr} (undeclared : ∀ line ∈ lines, workdirArgument locale line = none)
    (dir : Directory) :
    lines.foldl (fun dir line => ((workdirArgument locale line).map (resolve dir)).getD dir) dir = dir := by
  induction lines with
  | nil => rfl
  | cons line lines ih =>
    obtain ⟨path, others⟩ := List.forall_mem_cons.mp undeclared
    rw [List.foldl_cons, path]
    exact ih others

private theorem workdirAt_eq (base : Directory) :
    workdirAt locale base (own.above ++ own.declaration :: own.between) = resolve base own.workdir := by
  obtain ⟨lead, gap, trail, same, gaps, spaces⟩ := own.declares
  obtain ⟨leads, trails⟩ := List.forall_mem_append.mp spaces
  obtain ⟨full, plain⟩ := own.plain.1
  obtain ⟨before, behind⟩ := List.forall_mem_append.mp own.undeclared
  have path : workdirArgument locale own.declaration = some own.workdir := by
    rw [same, workdirArgument_eq (blanks leads) gaps.1 (blanks gaps.2) full (fun point member => (plain point member).1),
      List.rdropWhile_eq_nil_iff.mpr (blanks trails), List.append_nil]
  have words : isVoid locale own.declaration = false := by
    rw [isVoid, same, dropWhile_lead (blanks leads) (solid_head (by decide) solid_workdir _)]
    rfl
  rw [workdirAt, instructions_cons own.finished words, List.foldl_append, List.foldl_cons, path, instructions,
    unmoved (fun line member => before line (instructionsFrom_sub member)) base]
  exact unmoved (fun line member => behind line (List.mem_append_left _ (instructionsFrom_sub member))) _

private theorem prefixOf_eq : prefixOf locale own.step = own.target := by
  obtain ⟨front, gap, rest, same, -, apart, behind, last⟩ := own.names
  obtain ⟨full, plain⟩ := own.plain.2
  have passed : ∀ point ∈ gap, (locale.blank point || point == 0x3d) = true := by
    rcases apart with rfl | gaps
    · intro point member
      rw [List.mem_singleton.mp member]
      exact Bool.or_true _
    · exact fun point member => by rw [blanks gaps.2 point member, Bool.true_or]
  have stop : ∀ point, (own.target ++ rest).head? = some point → (locale.blank point || point == 0x3d) = false := by
    intro point first
    obtain ⟨head, target, same⟩ := List.exists_cons_of_ne_nil full
    rw [same] at first
    obtain rfl := Option.some.inj first
    obtain ⟨solid, other⟩ := plain head (by simp [same])
    rw [solid, Bool.false_or, beq_eq_false_iff_ne]
    rintro rfl
    exact other (by decide)
  have read : prefixArgument locale (gap ++ (own.target ++ rest)) = some own.target := by
    rw [prefixArgument, dropWhile_lead passed stop, if_pos (by simp [full]),
      leadingWord_eq (fun point member => (plain point member).1) behind]
  have dashless : 0x2d ∉ gap := by
    intro dash
    rcases apart with rfl | gaps
    · exact absurd dash (by decide)
    · cases gaps.2 _ dash
  have key : py "--prefix" = 0x2d :: 0x2d :: py "prefix" := rfl
  rw [key] at last same
  rw [prefixOf, same, key, lastArgument_option (py "prefix") (by decide) (by decide)
    ((contains_lead dashless _).trans last) read, Option.getD_some]

private theorem inside (base : Directory) (spelled : ∃ rest, own.target = own.workdir ++ rest ∧
    (rest = [] ∨ rest.head? = some 0x2f)) : Inside (resolve base own.workdir) own.target := by
  obtain ⟨rest, same, apart⟩ := spelled
  have full := own.plain.1.1
  have level := own.level
  have levels : py ".." ∉ split 0x2f own.workdir ∧ py ".." ∉ split 0x2f rest := by
    rcases apart with rfl | slash
    · rw [same, List.append_nil] at level
      exact ⟨level, by decide⟩
    · obtain ⟨rest, rfl⟩ := List.head?_eq_some_iff.mp slash
      have parted : split 0x2f (own.workdir ++ 0x2f :: rest) = split 0x2f own.workdir ++ split 0x2f rest :=
        List.splitOnP_append_cons own.workdir rest rfl
      have behind : split 0x2f (0x2f :: rest) = [] :: split 0x2f rest := List.splitOnP_append_cons [] rest rfl
      rw [same, parted, List.mem_append, not_or] at level
      rw [behind, List.mem_cons, not_or]
      exact ⟨level.1, by decide, level.2⟩
  have below : resolve base own.workdir <+: resolve (resolve base own.workdir) own.workdir := by
    rw [resolve]
    split
    · rename_i rooted
      rw [resolve, if_pos rooted]
    · rename_i relative
      rw [resolve, if_neg relative]
      exact Path.prefix_descend levels.1 _
  have proper : resolve base own.workdir ≠ [] := by
    rw [resolve]
    split <;> exact Path.descend_ne_nil levels.1 own.named _
  have stays : resolve base own.workdir <+: resolve (resolve base own.workdir) own.target := by
    rw [same, resolve_append full apart]
    exact below.trans (Path.prefix_descend levels.2 _)
  refine ⟨own.plain.2.1, stays, fun root => proper ?_⟩
  rw [root] at stays
  exact List.prefix_nil.mp stays

private theorem only {index : Nat} {line : PyStr} (place : own.lines[index]? = some line)
    (step : IsStep locale line) : own.lines.take index = own.above ++ own.declaration :: own.between ∧ line = own.step := by
  have whole : own.lines = (own.above ++ own.declaration :: own.between) ++ own.step :: own.below := by
    rw [lines, List.append_assoc, List.cons_append]
  rw [whole] at place ⊢
  rcases Nat.lt_trichotomy index (own.above ++ own.declaration :: own.between).length with earlier | rfl | later
  · rw [List.getElem?_append_left earlier] at place
    have other := own.first line (List.mem_of_getElem? place)
    rw [step.1] at other
    cases other
  · rw [List.getElem?_append_right (le_refl _), Nat.sub_self] at place
    exact ⟨List.take_left, (Option.some.inj place).symm⟩
  · rw [List.getElem?_append_right later.le] at place
    obtain ⟨count, same⟩ := Nat.exists_eq_add_of_lt later
    have beyond : index - (own.above ++ own.declaration :: own.between).length = count + 1 := by omega
    rw [beyond, List.getElem?_cons_succ] at place
    exact absurd step (own.others line (List.mem_of_getElem? place))

end OneStep

namespace OneCopy

variable (own : OneCopy locale)

private theorem found : own.lines.find? fromBuilder = some own.copy := by
  obtain ⟨lead, gap, rest, same, -, -, -, -⟩ := own.copies
  have above : ∀ line ∈ own.above, ¬ fromBuilder line = true := fun line member => by simp [own.first line member]
  have marked : fromBuilder own.copy = true := by
    refine Policy.contains_iff.mpr ⟨lead ++ (own.keyword ++ own.flags), gap ++ (own.source ++ rest), ?_⟩
    rw [same]
    simp
  rw [lines, List.find?_append, List.find?_eq_none.mpr above, Option.none_or, List.find?_cons_of_pos marked]

private theorem copySrcOf_eq : copySrcOf locale own.copy = own.source := by
  obtain ⟨lead, gap, rest, same, -, gaps, behind, last⟩ := own.copies
  obtain ⟨full, plain⟩ := own.plain.1
  have solid : ∀ point ∈ own.source, locale.blank point = false := fun point member => (plain point member).1
  have first : (gap ++ (own.source ++ rest)).head?.any locale.blank = true := by
    cases gap with
    | nil => exact absurd rfl gaps.1
    | cons point gap => exact blanks gaps.2 point List.mem_cons_self
  have word : leadingWord locale ((gap ++ (own.source ++ rest)).dropWhile locale.blank) = own.source := by
    rw [dropWhile_lead (blanks gaps.2) (solid_head full solid rest), leadingWord_eq solid behind]
  have read : copyArgument locale (gap ++ (own.source ++ rest)) = some own.source := by
    rw [copyArgument, word]
    exact if_pos ⟨first, full⟩
  have dashless : 0x2d ∉ gap := fun dash => by cases gaps.2 _ dash
  have key : py "--from=builder" = 0x2d :: 0x2d :: py "from=builder" := rfl
  have whole : own.copy = lead ++ (own.keyword ++ own.flags) ++
      (0x2d :: 0x2d :: py "from=builder" ++ (gap ++ (own.source ++ rest))) := by
    rw [same, key]
    simp
  rw [key] at last
  rw [copySrcOf, whole, key, lastArgument_option (py "from=builder") (by decide) (by decide)
    ((contains_lead dashless _).trans last) read, Option.getD_some]

private theorem letters {point : Nat} (member : point ∈ own.keyword) : 0x41 ≤ point ∧ point < 0x80 := by
  have mapped : (if 0x61 ≤ point ∧ point ≤ 0x7a then point - 0x20 else point) ∈ py "COPY" := by
    rw [← own.upperKeyword]
    exact List.mem_map_of_mem member
  have capital : ∀ letter ∈ py "COPY", 0x41 ≤ letter ∧ letter ≤ 0x5a := by decide
  obtain ⟨least, most⟩ := capital _ mapped
  split at least <;> split at most <;> omega

private theorem keyword_word : own.keyword ≠ [] ∧ ∀ point ∈ own.keyword, locale.blank point = false := by
  constructor
  · intro empty
    have named := own.upperKeyword
    rw [empty] at named
    cases named
  · intro point member
    obtain ⟨least, most⟩ := own.letters member
    refine locale.solid_ascii most ?_
    simp only [Bool.or_eq_false_iff, Bool.and_eq_false_iff, decide_eq_false_iff_not, beq_eq_false_iff_ne]
    omega

private theorem isVoid_eq : isVoid locale own.copy = false := by
  obtain ⟨lead, gap, rest, same, leads, -, -, -⟩ := own.copies
  obtain ⟨full, solid⟩ := own.keyword_word
  rw [isVoid, same, dropWhile_lead (blanks leads) (solid_head full solid _)]
  obtain ⟨point, keyword, whole⟩ := List.exists_cons_of_ne_nil full
  have first : point ∈ own.keyword := by simp [whole]
  obtain ⟨least, -⟩ := own.letters first
  rw [whole, List.cons_append, List.head?_cons, Option.all_some, beq_eq_false_iff_ne]
  omega

private theorem copySource_eq : copySource locale own.copy = some own.source := by
  obtain ⟨lead, gap, rest, same, leads, gaps, behind, -⟩ := own.copies
  obtain ⟨keyword, letters⟩ := own.keyword_word
  obtain ⟨⟨full, plain⟩, bare⟩ := own.plain
  have widen : ∀ {point : Option Nat}, point.any isBlank = true → point.any locale.blank = true := by
    intro point blank
    cases point with
    | none => exact blank
    | some point => exact blank_of_isBlank blank
  have ahead : (own.flags ++ (py "--from=builder" ++ (gap ++ (own.source ++ rest)))).head?.any locale.blank = true := by
    have opened := widen own.apart.1
    cases found : own.flags with
    | nil =>
      rw [found] at opened
      cases opened
    | cons point flags =>
      rw [found] at opened
      exact opened
  have after : (gap ++ (own.source ++ rest)).head?.any locale.blank = true := by
    cases gap with
    | nil => exact absurd rfl gaps.1
    | cons point gap => exact blanks gaps.2 point List.mem_cons_self
  have option : ∀ point ∈ py "--from=builder", locale.blank point = false := by
    have ascii : ∀ point ∈ py "--from=builder",
        point < 0x80 ∧ ((0x09 ≤ point && point ≤ 0x0d) || point == 0x20) = false := by decide
    exact fun point member => locale.solid_ascii (ascii point member).1 (ascii point member).2
  have words : wordsBy locale.blank own.copy =
      own.keyword :: (wordsBy locale.blank own.flags ++ py "--from=builder" :: own.source :: wordsBy locale.blank rest) := by
    rw [same, wordsBy_lead (blanks leads), wordsBy_word keyword letters (.inr ahead),
      wordsBy_closed (widen own.apart.2), wordsBy_word (by decide) option (.inr after),
      wordsBy_lead (blanks gaps.2), wordsBy_word full (fun point member => (plain point member).1) behind]
  have taken : (wordsBy locale.blank own.flags ++
      py "--from=builder" :: own.source :: wordsBy locale.blank rest).takeWhile isFlag =
        wordsBy locale.blank own.flags ++ [py "--from=builder"] := by
    rw [List.takeWhile_append_of_pos own.flagged, List.takeWhile_cons_of_pos (by decide),
      List.takeWhile_cons_of_neg (by simp [bare])]
  have dropped : (wordsBy locale.blank own.flags ++
      py "--from=builder" :: own.source :: wordsBy locale.blank rest).dropWhile isFlag =
        own.source :: wordsBy locale.blank rest := by
    rw [List.dropWhile_append_of_pos own.flagged, List.dropWhile_cons_of_pos (by decide),
      List.dropWhile_cons_of_neg (by simp [bare])]
  rw [copySource, words]
  dsimp only
  rw [if_pos ⟨own.upperKeyword, by simp [taken]⟩, dropped, List.head?_cons]

end OneCopy

/-- `WORKDIR /src` and its step. -/
def sourceStep : OneStep .posix where
  above := []
  declaration := py "WORKDIR /src"
  between := []
  step := py "RUN cmake --install build --prefix /src/install"
  below := []
  workdir := py "/src"
  target := py "/src/install"
  finished := ⟨by decide, by decide⟩
  declares := ⟨[], py " ", [], rfl, by decide, by decide⟩
  undeclared := by decide +kernel
  first := by decide +kernel
  installs := by decide +kernel
  others := fun _ member => by cases member
  names := ⟨py "RUN cmake --install build ", py " ", [], by decide +kernel, rfl, .inr (by decide), .inl rfl,
    by decide +kernel⟩
  plain := by decide +kernel
  level := by decide +kernel
  named := ⟨py "src", by decide +kernel, by decide, by decide⟩

def binaryCopy : OneCopy .posix where
  above := []
  copy := py "COPY --from=builder /src/install/bin/Charybdis /usr/local/bin/"
  below := []
  keyword := py "COPY"
  flags := py " "
  source := py "/src/install/bin/Charybdis"
  finished := ⟨by decide, by decide⟩
  first := by decide
  copies := ⟨[], py " ", py " /usr/local/bin/", by decide +kernel, by decide, by decide, .inr rfl, by decide +kernel⟩
  upperKeyword := rfl
  apart := ⟨rfl, rfl⟩
  flagged := by decide
  plain := by decide +kernel

end Passing

end Charybdis.Scripts
