import Charybdis.Policy.ShellLines
import Charybdis.Policy.ValidatorScript

/-! How a script is written whose commands the policy test and the shell read alike: on lines
with every quote closed, continued behind a blank. -/

namespace Charybdis.Policy

open Foundation
open Stub (PyStr py)

/-! ### Closed texts -/

/-- Letters, digits and the marks that mean nothing to the shell between words. -/
def isWordPoint (point : Nat) : Bool :=
  (0x30 ≤ point && point ≤ 0x39) || (0x41 ≤ point && point ≤ 0x5a) || (0x61 ≤ point && point ≤ 0x7a) ||
    point ∈ py "_-./:=,+@%[]!*?~^>"

def isNamePart (point : Nat) : Bool :=
  (0x30 ≤ point && point ≤ 0x39) || (0x41 ≤ point && point ≤ 0x5a) || (0x61 ≤ point && point ≤ 0x7a) || point == 0x5f

/-- Where a text stands: outside of quotes, inside of them, behind a dollar, or in the braces
that follow one. -/
inductive Spot where
  | free
  | single
  | double
  | dollar (quoted : Bool)
  | braces (quoted : Bool)
  deriving DecidableEq

def Spot.outer (quoted : Bool) : Spot := if quoted then .double else .free

/-- What a point does outside of quotes, where the text may have some more marks than those of
words, and inside of them. A dollar stands before a name, before one in braces, or before a
parenthesis that is such a mark. -/
def Spot.next (marks : PyStr) : Spot → Nat → Option Spot
  | .free, point =>
    if point = 0x27 then some .single
    else if point = 0x22 then some .double
    else if point = 0x24 then some (.dollar false)
    else if isWordPoint point || point ∈ marks then some .free
    else none
  | .single, point => some (if point = 0x27 then .free else .single)
  | .double, point =>
    if point = 0x22 then some .free
    else if point = 0x24 then some (.dollar true)
    else if point = 0x5c ∨ point = 0x60 then none
    else some .double
  | .dollar quoted, point =>
    if isNamePart point then some (.outer quoted)
    else if point = 0x7b then some (.braces quoted)
    else if point = 0x28 ∧ point ∈ marks ∧ quoted = false then some .free
    else none
  | .braces quoted, point =>
    if isNamePart point then some (.braces quoted)
    else if point = 0x7d then some (.outer quoted)
    else none

/-- Every quote and every brace of the text is closed in it. -/
def isClosed (marks text : PyStr) : Bool := text.foldlM (Spot.next marks) .free == some .free

example : isClosed (py " ") (py "echo \"${TAG}: 'a\" $PWD 'b; \"'") = true := by decide

example : isClosed (py " ") (py "echo \"a") = false := by decide

theorem isClosed_iff {marks text : PyStr} :
    isClosed marks text = true ↔ text.foldlM (Spot.next marks) .free = some .free := by
  rw [isClosed, beq_iff_eq]

theorem isClosed_append {marks front text : PyStr} (first : isClosed marks front = true)
    (second : isClosed marks text = true) : isClosed marks (front ++ text) = true := by
  rw [isClosed_iff] at first second ⊢
  rw [List.foldlM_append, first]
  exact second

theorem isClosed_words {marks text : PyStr} (words : ∀ point ∈ text, isWordPoint point = true) :
    isClosed marks text = true := by
  induction text with
  | nil => rfl
  | cons point rest ih =>
    obtain ⟨own, others⟩ := List.forall_mem_cons.mp words
    have front : isClosed marks [point] = true := by
      have other : point ≠ 0x27 ∧ point ≠ 0x22 ∧ point ≠ 0x24 := by
        refine ⟨?_, ?_, ?_⟩ <;> rintro rfl <;> cases own
      simp [isClosed, Spot.next, own, other]
    exact isClosed_append front (ih others)

theorem next_mono {marks more : PyStr} (wider : marks ⊆ more) {spot next : Spot} {point : Nat}
    (steps : spot.next marks point = some next) : spot.next more point = some next := by
  cases spot with
  | free | dollar =>
    simp only [Spot.next] at steps ⊢
    grind
  | single | double | braces => exact steps

theorem isClosed_mono {marks more text : PyStr} (wider : marks ⊆ more) (shut : isClosed marks text = true) :
    isClosed more text = true := by
  rw [isClosed_iff] at shut ⊢
  suffices general : ∀ (text : PyStr) (spot : Spot), text.foldlM (Spot.next marks) spot = some .free →
      text.foldlM (Spot.next more) spot = some .free from general text .free shut
  intro text
  induction text with
  | nil => exact fun _ done => done
  | cons point rest ih =>
    intro spot done
    obtain ⟨next, steps, later⟩ := Option.bind_eq_some_iff.mp done
    exact Option.bind_eq_some_iff.mpr ⟨next, next_mono wider steps, ih next later⟩

/-! ### Reading on -/

/-- What is read of a text so far. -/
structure Taken where
  mode : Lex := .blank
  command : PyStr := []
  finished : List PyStr := []

/-- The commands of a text behind what is read of it. -/
def Taken.onward (taken : Taken) (text : PyStr) : List PyStr :=
  taken.finished ++ readCommands taken.mode taken.command text

/-- The commands so far, when nothing follows. -/
def Taken.commands (taken : Taken) : List PyStr :=
  taken.finished ++ if taken.command.isEmpty then [] else [taken.command]

/-- One point of a text without comments, line breaks and backslashes. -/
def Taken.next (taken : Taken) (point : Nat) : Taken :=
  match taken.mode with
  | .single => { taken with mode := if point = 0x27 then .word else .single, command := taken.command ++ [point] }
  | .double => { taken with mode := if point = 0x22 then .word else .double, command := taken.command ++ [point] }
  | mode =>
    if point = 0x3b then { finished := taken.commands }
    else if isBlank point then { taken with mode := .blank }
    else
      { taken with
        mode := if point = 0x27 then .single else if point = 0x22 then .double else .word
        command := opened mode taken.command ++ [point] }

def Spot.Fits : Spot → Lex → Prop
  | .free, mode => mode = .blank ∨ mode = .word
  | .single, mode => mode = .single
  | .double, mode => mode = .double
  | .dollar quoted, mode | .braces quoted, mode => mode = if quoted then .double else .word

/-- The marks at which the lines of a command are read. -/
def lineMarks : PyStr := py " \t|();"

private theorem free_point {point : Nat} (allowed : (isWordPoint point || point ∈ lineMarks) = true) :
    point ≠ 0x0a ∧ point ≠ 0x5c ∧ point ≠ 0x23 := by
  refine ⟨?_, ?_, ?_⟩ <;> rintro rfl <;> revert allowed <;> decide

private theorem onward_double {taken : Taken} {point : Nat} (inside : taken.mode = .double) (plain : point ≠ 0x5c)
    (rest : PyStr) : taken.onward (point :: rest) = (taken.next point).onward rest := by
  simp [Taken.onward, Taken.next, inside, readCommands, plain]

private theorem onward_free {taken : Taken} {point : Nat} (between : Spot.free.Fits taken.mode)
    (plain : point ≠ 0x0a ∧ point ≠ 0x5c ∧ point ≠ 0x23) (rest : PyStr) :
    taken.onward (point :: rest) = (taken.next point).onward rest := by
  obtain ⟨newline, backslash, mark⟩ := plain
  by_cases semicolon : point = 0x3b
  · rcases between with mode | mode <;>
      simp [Taken.onward, Taken.next, Taken.commands, mode, readCommands, semicolon]
  · by_cases blank : isBlank point = true
    · rcases between with mode | mode <;>
        simp [Taken.onward, Taken.next, mode, readCommands, newline, semicolon, blank]
    · rcases between with mode | mode <;>
        simp [Taken.onward, Taken.next, mode, readCommands, newline, semicolon, blank, backslash, mark]

private theorem next_mode_free {taken : Taken} {point : Nat} (between : Spot.free.Fits taken.mode) :
    (taken.next point).mode =
      if point = 0x3b ∨ isBlank point = true then .blank
      else if point = 0x27 then .single else if point = 0x22 then .double else .word := by
  by_cases semicolon : point = 0x3b
  · rcases between with mode | mode <;> simp [Taken.next, mode, semicolon]
  · by_cases blank : isBlank point = true
    · rcases between with mode | mode <;> simp [Taken.next, mode, semicolon, blank]
    · rcases between with mode | mode <;> simp [Taken.next, mode, semicolon, blank]

private theorem onward_word {quoted : Bool} {taken : Taken} {point : Nat}
    (fits : taken.mode = if quoted then .double else .word)
    (allowed : isNamePart point = true ∨ point = 0x7b ∨ point = 0x7d ∨ point = 0x28) (rest : PyStr) :
    taken.onward (point :: rest) = (taken.next point).onward rest ∧
      (taken.next point).mode = if quoted then .double else .word := by
  have plain : point ≠ 0x0a ∧ point ≠ 0x5c ∧ point ≠ 0x23 ∧ point ≠ 0x3b ∧ point ≠ 0x27 ∧ point ≠ 0x22 ∧
      isBlank point = false := by
    simp only [isNamePart, Bool.or_eq_true, Bool.and_eq_true, decide_eq_true_eq, beq_iff_eq] at allowed
    simp only [isBlank, Bool.or_eq_false_iff, beq_eq_false_iff_ne]
    omega
  obtain ⟨newline, backslash, mark, semicolon, single, double, blank⟩ := plain
  cases quoted with
  | true => exact ⟨onward_double fits backslash rest, by simp [Taken.next, show taken.mode = .double from fits, double]⟩
  | false =>
    have between : Spot.free.Fits taken.mode := .inr fits
    exact ⟨onward_free between ⟨newline, backslash, mark⟩ rest,
      by simp [next_mode_free between, semicolon, blank, single, double]⟩

private theorem fits_outer {quoted : Bool} {mode : Lex} (same : mode = if quoted then .double else .word) :
    (Spot.outer quoted).Fits mode := by
  cases quoted with
  | true => exact same
  | false => exact .inr same

private theorem free_cases {point : Nat} {next : Spot} (steps : Spot.free.next lineMarks point = some next) :
    point = 0x27 ∧ next = .single ∨ point = 0x22 ∧ next = .double ∨ point = 0x24 ∧ next = .dollar false ∨
      (point ≠ 0x27 ∧ point ≠ 0x22 ∧ (isWordPoint point || point ∈ lineMarks) = true ∧ next = .free) := by
  simp only [Spot.next] at steps
  split_ifs at steps with single double dollar allowed
  · exact .inl ⟨single, (Option.some.inj steps).symm⟩
  · exact .inr (.inl ⟨double, (Option.some.inj steps).symm⟩)
  · exact .inr (.inr (.inl ⟨dollar, (Option.some.inj steps).symm⟩))
  · exact .inr (.inr (.inr ⟨single, double, allowed, (Option.some.inj steps).symm⟩))

private theorem onward_point_free {next : Spot} {taken : Taken} {point : Nat} (between : Spot.free.Fits taken.mode)
    (steps : Spot.free.next lineMarks point = some next) (rest : PyStr) :
    taken.onward (point :: rest) = (taken.next point).onward rest ∧ next.Fits (taken.next point).mode := by
  have cases := free_cases steps
  have plain : point ≠ 0x0a ∧ point ≠ 0x5c ∧ point ≠ 0x23 := by
    rcases cases with ⟨rfl, -⟩ | ⟨rfl, -⟩ | ⟨rfl, -⟩ | ⟨-, -, allowed, -⟩
    · decide
    · decide
    · decide
    · exact free_point allowed
  refine ⟨onward_free between plain rest, ?_⟩
  rw [next_mode_free between]
  rcases cases with ⟨rfl, rfl⟩ | ⟨rfl, rfl⟩ | ⟨rfl, rfl⟩ | ⟨single, double, -, rfl⟩
  · rfl
  · rfl
  · rfl
  · rw [if_neg single, if_neg double]
    split
    · exact .inl rfl
    · exact .inr rfl

private theorem onward_point_double {next : Spot} {taken : Taken} {point : Nat} (inside : taken.mode = .double)
    (steps : Spot.double.next lineMarks point = some next) (rest : PyStr) :
    taken.onward (point :: rest) = (taken.next point).onward rest ∧ next.Fits (taken.next point).mode := by
  have plain : point ≠ 0x5c := by
    rintro rfl
    cases steps
  refine ⟨onward_double inside plain rest, ?_⟩
  simp only [Spot.next] at steps
  split at steps
  · rename_i quote
    cases steps
    simp [Taken.next, inside, quote, Spot.Fits]
  · rename_i quote
    have mode : (taken.next point).mode = .double := by simp [Taken.next, inside, quote]
    split at steps
    · cases steps
      exact mode
    · split at steps
      · cases steps
      · cases steps
        exact mode

/-- One point of a closed text is read as `Taken.next` has it. -/
theorem onward_point {spot next : Spot} {taken : Taken} {point : Nat} (fits : spot.Fits taken.mode)
    (steps : spot.next lineMarks point = some next) (rest : PyStr) :
    taken.onward (point :: rest) = (taken.next point).onward rest ∧ next.Fits (taken.next point).mode := by
  cases spot with
  | free => exact onward_point_free fits steps rest
  | single =>
    have inside : taken.mode = .single := fits
    cases steps
    refine ⟨by simp [Taken.onward, Taken.next, inside, readCommands], ?_⟩
    by_cases quote : point = 0x27
    · simp [Taken.next, inside, quote, Spot.Fits]
    · simp [Taken.next, inside, quote, Spot.Fits]
  | double => exact onward_point_double fits steps rest
  | dollar quoted =>
    simp only [Spot.next] at steps
    split at steps
    · rename_i named
      cases steps
      exact (onward_word fits (.inl named) rest).imp_right fits_outer
    · split at steps
      · rename_i brace
        cases steps
        exact onward_word fits (.inr (.inl brace)) rest
      · split at steps
        · rename_i parenthesis
          cases steps
          obtain ⟨same, mode⟩ := onward_word fits (.inr (.inr (.inr parenthesis.1))) rest
          rw [parenthesis.2.2] at mode
          exact ⟨same, .inr mode⟩
        · cases steps
  | braces quoted =>
    simp only [Spot.next] at steps
    split at steps
    · rename_i named
      cases steps
      exact onward_word fits (.inl named) rest
    · split at steps
      · rename_i brace
        cases steps
        exact (onward_word fits (.inr (.inr (.inl brace))) rest).imp_right fits_outer
      · cases steps

theorem onward_closed {taken : Taken} {text : PyStr} (between : Spot.free.Fits taken.mode)
    (shut : isClosed lineMarks text = true) (rest : PyStr) :
    taken.onward (text ++ rest) = (text.foldl Taken.next taken).onward rest ∧
      Spot.free.Fits (text.foldl Taken.next taken).mode := by
  rw [isClosed_iff] at shut
  suffices general : ∀ (text : PyStr) (spot : Spot) (taken : Taken), spot.Fits taken.mode →
      text.foldlM (Spot.next lineMarks) spot = some .free →
      taken.onward (text ++ rest) = (text.foldl Taken.next taken).onward rest ∧
        Spot.free.Fits (text.foldl Taken.next taken).mode from general text .free taken between shut
  intro text
  induction text with
  | nil =>
    intro spot taken fits done
    cases done
    exact ⟨rfl, fits⟩
  | cons point text ih =>
    intro spot taken fits done
    obtain ⟨next, steps, later⟩ := Option.bind_eq_some_iff.mp done
    obtain ⟨same, fitsNext⟩ := onward_point fits steps (text ++ rest)
    rw [List.cons_append, same]
    exact ih next _ fitsNext later

theorem onward_nil (taken : Taken) : taken.onward [] = taken.commands := by
  rw [Taken.onward, Taken.commands, readCommands]

theorem onward_newline {taken : Taken} (between : Spot.free.Fits taken.mode) (rest : PyStr) :
    taken.onward (0x0a :: rest) = taken.commands ++ shellCommands rest := by
  rw [Taken.onward, Taken.commands, shellCommands]
  rcases between with blank | word
  · simp [blank, readCommands]
  · simp [word, readCommands]

theorem onward_joined {taken : Taken} (between : Spot.free.Fits taken.mode) (rest : PyStr) :
    taken.onward (0x5c :: 0x0a :: rest) = taken.onward rest := by
  rw [Taken.onward, Taken.onward]
  rcases between with blank | word
  · simp [blank, readCommands, isBlank]
  · simp [word, readCommands, isBlank]

/-! ### Stripped texts -/

/-- Between two words. -/
def Taken.rested (taken : Taken) : Taken := { taken with mode := .blank }

theorem commands_rested (taken : Taken) : taken.rested.commands = taken.commands := rfl

theorem next_blank {taken : Taken} {point : Nat} (between : Spot.free.Fits taken.mode)
    (blank : isBlank point = true) : taken.next point = taken.rested := by
  have semicolon : point ≠ 0x3b := by
    rintro rfl
    cases blank
  rcases between with mode | mode <;> simp [Taken.next, Taken.rested, mode, semicolon, blank]

private theorem space_blank {point : Nat} (space : isSpace point = true)
    (allowed : (isWordPoint point || point ∈ lineMarks) = true) : isBlank point = true := by
  have marks : lineMarks = [0x20, 0x09, 0x7c, 0x28, 0x29, 0x3b] := rfl
  have words : py "_-./:=,+@%[]!*?~^>" = [0x5f, 0x2d, 0x2e, 0x2f, 0x3a, 0x3d, 0x2c, 0x2b, 0x40, 0x25, 0x5b, 0x5d, 0x21, 0x2a,
    0x3f, 0x7e, 0x5e, 0x3e] := rfl
  simp only [isSpace, Bool.or_eq_true, Bool.and_eq_true, decide_eq_true_eq, beq_iff_eq] at space
  simp only [isWordPoint, words, marks, List.mem_cons, List.not_mem_nil, or_false, Bool.or_eq_true, Bool.and_eq_true,
    decide_eq_true_eq] at allowed
  simp only [isBlank, Bool.or_eq_true, beq_iff_eq]
  omega

private theorem not_space_of_part {point : Nat} (part : isNamePart point = true) : isSpace point = false := by
  by_contra space
  simp only [isSpace, Bool.not_eq_false, Bool.or_eq_true, Bool.and_eq_true, decide_eq_true_eq, beq_iff_eq] at space
  simp only [isNamePart, Bool.or_eq_true, Bool.and_eq_true, decide_eq_true_eq, beq_iff_eq] at part
  omega

private theorem free_of_space {spot : Spot} {point : Nat} (space : isSpace point = true)
    (steps : Spot.free.next lineMarks point = some spot) : spot = .free ∧ isBlank point = true := by
  have other (solid : Nat) (dark : isSpace solid = false) : point ≠ solid := by
    rintro rfl
    rw [space] at dark
    cases dark
  rw [Spot.next, if_neg (other 0x27 rfl), if_neg (other 0x22 rfl), if_neg (other 0x24 rfl)] at steps
  split at steps
  · rename_i allowed
    exact ⟨(Option.some.inj steps).symm, space_blank space allowed⟩
  · cases steps

private theorem free_before_space {spot : Spot} {point : Nat} (space : isSpace point = true)
    (steps : spot.next lineMarks point = some .free) : spot = .free := by
  have other (solid : Nat) (dark : isSpace solid = false) : point ≠ solid := by
    rintro rfl
    rw [space] at dark
    cases dark
  have part : ¬ isNamePart point = true := by
    intro part
    rw [not_space_of_part part] at space
    cases space
  cases spot with
  | free => rfl
  | single => simp [Spot.next, other 0x27 rfl] at steps
  | double =>
    rw [Spot.next, if_neg (other 0x22 rfl), if_neg (other 0x24 rfl)] at steps
    split at steps <;> cases steps
  | dollar quoted => simp [Spot.next, part, other 0x7b rfl, other 0x28 rfl] at steps
  | braces quoted => simp [Spot.next, part, other 0x7d rfl] at steps

private theorem isClosed_front {text : PyStr} {point : Nat} (space : isSpace point = true)
    (shut : isClosed lineMarks (text ++ [point]) = true) : isClosed lineMarks text = true ∧ isBlank point = true := by
  rw [isClosed_iff, List.foldlM_append] at shut
  obtain ⟨spot, front, final⟩ := Option.bind_eq_some_iff.mp shut
  have last : spot.next lineMarks point = some .free := by simpa using final
  obtain rfl := free_before_space space last
  exact ⟨isClosed_iff.mpr front, (free_of_space space last).2⟩

private theorem rstrip_closed {taken : Taken} {text : PyStr} (between : Spot.free.Fits taken.mode)
    (shut : isClosed lineMarks text = true) :
    isClosed lineMarks (rstrip text) = true ∧
      ((rstrip text).foldl Taken.next taken).rested = (text.foldl Taken.next taken).rested := by
  induction text using List.reverseRecOn with
  | nil => exact ⟨rfl, rfl⟩
  | append_singleton text point ih =>
    by_cases space : isSpace point = true
    · rw [rstrip, List.rdropWhile_concat_pos _ _ _ space, ← rstrip]
      obtain ⟨own, blank⟩ := isClosed_front space shut
      obtain ⟨closed, same⟩ := ih own
      refine ⟨closed, ?_⟩
      rw [same, List.foldl_append, List.foldl_cons, List.foldl_nil,
        next_blank (onward_closed between own []).2 blank]
      rfl
    · rw [rstrip, List.rdropWhile_concat_neg _ _ _ space]
      exact ⟨shut, rfl⟩

private theorem lstrip_closed {taken : Taken} {text : PyStr} (blank : taken.mode = .blank)
    (shut : isClosed lineMarks text = true) :
    isClosed lineMarks (lstrip text) = true ∧ (lstrip text).foldl Taken.next taken = text.foldl Taken.next taken := by
  induction text with
  | nil => exact ⟨rfl, rfl⟩
  | cons point text ih =>
    by_cases space : isSpace point = true
    · rw [lstrip, List.dropWhile_cons_of_pos space, ← lstrip]
      rw [isClosed_iff, List.foldlM_cons] at shut
      obtain ⟨spot, first, later⟩ := Option.bind_eq_some_iff.mp shut
      obtain ⟨rfl, gap⟩ := free_of_space space first
      have still : taken.next point = taken := by
        rw [next_blank (.inl blank) gap, Taken.rested, ← blank]
      rw [List.foldl_cons, still]
      exact ih (isClosed_iff.mpr later)
    · rw [lstrip, List.dropWhile_cons_of_neg space]
      exact ⟨shut, rfl⟩

/-- A closed text leaves the same commands stripped. -/
theorem strip_closed {taken : Taken} {text : PyStr} (blank : taken.mode = .blank)
    (shut : isClosed lineMarks text = true) :
    isClosed lineMarks (strip text) = true ∧
      ((strip text).foldl Taken.next taken).rested = (text.foldl Taken.next taken).rested := by
  obtain ⟨shutToo, same⟩ := lstrip_closed blank shut
  obtain ⟨closed, sameToo⟩ := rstrip_closed (.inl blank) shutToo
  exact ⟨closed, by rw [strip, sameToo, same]⟩

/-! ### Written commands -/

/-- Behind the pending pieces of a command, the lines are written as these commands: quiet
lines stand between commands only, every line has its own quotes closed, and a line goes on
behind a blank and a backslash. -/
inductive Written : List PyStr → List PyStr → List PyStr → Prop where
  | done : Written [] [] []
  | skipped (quiet : isQuiet line = true) (next : Written [] rest commands) : Written [] (line :: rest) commands
  | continued (goesOn : line.getLast? = some 0x5c) (apart : line.dropLast.getLast?.any isBlank = true)
      (shut : isClosed lineMarks line.dropLast = true) (full : isBare line.dropLast = false)
      (next : Written (pending ++ [strip line.dropLast]) rest commands) : Written pending (line :: rest) commands
  | ended (shut : isClosed lineMarks line = true) (full : isBare line = false)
      (same : join (py " ") (pending ++ [strip line]) = command) (next : Written [] rest commands) :
      Written pending (line :: rest) (command :: commands)

/-- What is read of the pending pieces of a command. -/
def pendingTaken (pending : List PyStr) : Taken :=
  pending.foldl (fun taken piece => (piece.foldl Taken.next taken).rested) {}

private theorem pendingTaken_mode (pending : List PyStr) : (pendingTaken pending).mode = .blank := by
  induction pending using List.reverseRecOn with
  | nil => rfl
  | append_singleton pending piece _ =>
    rw [pendingTaken, List.foldl_append]
    rfl

private theorem joined_taken {pending : List PyStr} (shut : ∀ piece ∈ pending, isClosed lineMarks piece = true)
    (line : PyStr) :
    (join (py " ") (pending ++ [line])).foldl Taken.next {} = line.foldl Taken.next (pendingTaken pending) := by
  rw [join_append _ _ (List.cons_ne_nil _ _), List.foldl_append, join, pendingTaken]
  congr 1
  have start : Spot.free.Fits ({} : Taken).mode := .inl rfl
  generalize ({} : Taken) = taken at start ⊢
  induction pending generalizing taken with
  | nil => rfl
  | cons piece pending ih =>
    obtain ⟨own, others⟩ := List.forall_mem_cons.mp shut
    have between := (onward_closed start own []).2
    rw [List.flatMap_cons, List.foldl_append, List.foldl_append, List.foldl_cons,
      ← ih others _ (.inl rfl)]
    congr 1
    exact next_blank between rfl

private theorem isClosed_joined {pending : List PyStr} (shut : ∀ piece ∈ pending, isClosed lineMarks piece = true)
    (last : isClosed lineMarks line = true) : isClosed lineMarks (join (py " ") (pending ++ [line])) = true := by
  rw [join_append _ _ (List.cons_ne_nil _ _)]
  refine isClosed_append ?_ last
  induction pending with
  | nil => rfl
  | cons piece pending ih =>
    obtain ⟨own, others⟩ := List.forall_mem_cons.mp shut
    have gap : isClosed lineMarks (py " ") = true := by decide
    exact isClosed_append (isClosed_append own gap) (ih others)

/-- The commands of a closed text are those that reading it leaves. -/
theorem shellCommands_closed (shut : isClosed lineMarks text = true) :
    shellCommands text = (text.foldl Taken.next {}).commands := by
  have start : Spot.free.Fits ({} : Taken).mode := .inl rfl
  have same := (onward_closed start shut []).1
  rw [List.append_nil, onward_nil] at same
  exact same

private theorem onward_joinLines {taken : Taken} (last : taken.onward line = out)
    (within : ∀ rest, taken.onward (line ++ 0x0a :: rest) = out ++ shellCommands rest) (rest : List PyStr) :
    taken.onward (joinLines (line :: rest)) = out ++ shellCommands (joinLines rest) := by
  cases rest with
  | nil => exact last.trans (List.append_nil out).symm
  | cons next rest =>
    rw [joinLines_cons_cons]
    exact within _

private theorem readCommands_comment (clean : 0x0a ∉ line) (command rest : PyStr) :
    readCommands .comment command (line ++ rest) = readCommands .comment command rest := by
  induction line with
  | nil => rfl
  | cons point line ih =>
    have other : point ≠ 0x0a := fun same => clean (same ▸ List.mem_cons_self)
    rw [List.cons_append, readCommands, if_neg other]
    exact ih fun inside => clean (List.mem_cons_of_mem _ inside)

private theorem shellCommands_blanks {blanks : PyStr} (blank : ∀ point ∈ blanks, isBlank point = true)
    (rest : PyStr) : shellCommands (blanks ++ rest) = shellCommands rest := by
  induction blanks with
  | nil => rfl
  | cons point blanks ih =>
    obtain ⟨own, others⟩ := List.forall_mem_cons.mp blank
    have other : ¬ (point = 0x0a ∨ point = 0x3b) := by
      rintro (rfl | rfl) <;> cases own
    rw [← ih others, List.cons_append, shellCommands, readCommands, if_neg other, if_pos own]
    rfl

private theorem shellCommands_quiet (quiet : isQuiet line = true) (clean : 0x0a ∉ line) :
    shellCommands line = [] ∧ ∀ rest, shellCommands (line ++ 0x0a :: rest) = [] ++ shellCommands rest := by
  have whole : line.takeWhile isBlank ++ line.dropWhile isBlank = line := List.takeWhile_append_dropWhile
  have blank : ∀ point ∈ line.takeWhile isBlank, isBlank point = true := fun _ member => List.mem_takeWhile_imp member
  rw [isQuiet, isCommentLine, Bool.or_eq_true] at quiet
  rcases quiet with empty | mark
  · rw [List.isEmpty_iff.mp empty] at whole
    rw [← whole, List.append_nil]
    refine ⟨?_, fun rest => ?_⟩
    · have none := shellCommands_blanks blank []
      rwa [List.append_nil] at none
    · rw [shellCommands_blanks blank]
      simp [shellCommands, readCommands]
  · obtain ⟨comment, found⟩ := List.isPrefixOf_iff_prefix.mp mark
    have cleanToo : 0x0a ∉ comment := by
      intro inside
      exact clean ((List.dropWhile_suffix isBlank).subset (found ▸ List.mem_append_right _ inside))
    rw [← found] at whole
    rw [← whole]
    refine ⟨?_, fun rest => ?_⟩
    · have ended := readCommands_comment cleanToo [] []
      rw [List.append_nil] at ended
      rw [shellCommands_blanks blank]
      simpa [shellCommands, readCommands, py, isBlank] using ended
    · have ended := readCommands_comment cleanToo [] (0x0a :: rest)
      rw [List.append_assoc, shellCommands_blanks blank]
      simpa [shellCommands, readCommands, py, isBlank] using ended

private theorem pendingTaken_continued (pending : List PyStr) (shut : isClosed lineMarks piece = true)
    (apart : piece.getLast?.any isBlank = true) :
    pendingTaken (pending ++ [strip piece]) = piece.foldl Taken.next (pendingTaken pending) := by
  obtain ⟨gap, last, blank⟩ := (Option.any_eq_true _ _).mp apart
  obtain ⟨front, rfl⟩ := List.getLast?_eq_some_iff.mp last
  have closed := (isClosed_front (isSpace_of_isBlank blank) shut).1
  have between := (onward_closed (.inl (pendingTaken_mode pending)) closed []).2
  have rested : (front ++ [gap]).foldl Taken.next (pendingTaken pending) =
      (front.foldl Taken.next (pendingTaken pending)).rested := by
    rw [List.foldl_append]
    exact next_blank between blank
  calc pendingTaken (pending ++ [strip (front ++ [gap])])
      = ((strip (front ++ [gap])).foldl Taken.next (pendingTaken pending)).rested := by
        rw [pendingTaken, List.foldl_append]
        rfl
    _ = ((front ++ [gap]).foldl Taken.next (pendingTaken pending)).rested :=
        (strip_closed (pendingTaken_mode pending) shut).2
    _ = (front ++ [gap]).foldl Taken.next (pendingTaken pending) := by rw [rested]; rfl

private theorem Written.pending_nil (written : Written pending [] commands) : pending = [] := by
  cases written
  rfl

/-- The shell runs the commands of the written lines. -/
theorem Written.runs (written : Written pending lines commands) (clean : ∀ line ∈ lines, 0x0a ∉ line)
    (shut : ∀ piece ∈ pending, isClosed lineMarks piece = true) :
    (pendingTaken pending).onward (joinLines lines) = commands.flatMap shellCommands := by
  induction written with
  | done => rfl
  | skipped quiet _ ih =>
    obtain ⟨own, others⟩ := List.forall_mem_cons.mp clean
    obtain ⟨last, within⟩ := shellCommands_quiet quiet own
    rw [← ih others shut]
    exact @onward_joinLines _ _ {} last within _
  | continued goesOn apart closed full next ih =>
    rename_i pending rest commands line
    obtain ⟨own, others⟩ := List.forall_mem_cons.mp clean
    have mode := pendingTaken_mode pending
    have more : ∀ piece ∈ pending ++ [strip line.dropLast], isClosed lineMarks piece = true := by
      simpa [or_imp, forall_and] using ⟨shut, (strip_closed mode closed).1⟩
    have whole : line = line.dropLast ++ [0x5c] := (List.dropLast_append_getLast? _ goesOn).symm
    rw [← ih others more, pendingTaken_continued pending closed apart]
    cases rest with
    | nil => simpa using next.pending_nil
    | cons second rest =>
      obtain ⟨same, between⟩ := onward_closed (.inl mode) closed (0x5c :: 0x0a :: joinLines (second :: rest))
      rw [joinLines_cons_cons, ← onward_joined between, ← same]
      conv_lhs => rw [whole, List.append_assoc]
      rfl
  | ended closed full joined _ ih =>
    rename_i line pending command rest commands _
    obtain ⟨own, others⟩ := List.forall_mem_cons.mp clean
    have mode := pendingTaken_mode pending
    obtain ⟨stripped, rested⟩ := strip_closed mode closed
    have own : shellCommands command = (line.foldl Taken.next (pendingTaken pending)).commands := by
      rw [← joined, shellCommands_closed (isClosed_joined shut stripped), joined_taken shut, ← commands_rested, rested]
      rfl
    rw [List.flatMap_cons, own, ← ih others (by simp)]
    refine onward_joinLines ?_ (fun behind => ?_) rest
    · obtain ⟨same, between⟩ := onward_closed (.inl mode) closed []
      rw [List.append_nil] at same
      rw [same, onward_nil]
    · obtain ⟨same, between⟩ := onward_closed (.inl mode) closed (0x0a :: behind)
      rw [same, onward_newline between]

private theorem not_bare_append (full : isBare piece = false) (rest : PyStr) : isBare (piece ++ rest) = false := by
  have some : (piece.dropWhile isSpace).isEmpty = false := by
    by_contra empty
    have nothing : lstrip piece = [] := by simpa [lstrip] using empty
    simp [isBare, nothing] at full
  have kept : lstrip (piece ++ rest) = lstrip piece ++ rest := by
    rw [lstrip, List.dropWhile_append, some, if_neg Bool.false_ne_true, lstrip]
  rw [isBare] at full ⊢
  rw [kept]
  cases found : lstrip piece with
  | nil => simp [found] at full
  | cons point later =>
    rw [found] at full
    have mark : py "#" = [0x23] := rfl
    simpa [startsWith, mark, List.isPrefixOf_cons_cons, List.isPrefixOf_nil_left] using full

private theorem last_ne_backslash (shut : isClosed lineMarks text = true) : text.getLast? ≠ some 0x5c := by
  intro last
  obtain ⟨front, rfl⟩ := List.getLast?_eq_some_iff.mp last
  rw [isClosed_iff, List.foldlM_append] at shut
  obtain ⟨spot, -, final⟩ := Option.bind_eq_some_iff.mp shut
  have steps : spot.next lineMarks 0x5c = some .free := by simpa using final
  cases spot with
  | free => revert steps; decide
  | single => cases steps
  | double => cases steps
  | dollar quoted => cases quoted <;> revert steps <;> decide
  | braces quoted => cases quoted <;> revert steps <;> decide

theorem Written.readFrom (written : Written pending lines commands) : commandsFrom pending lines = commands := by
  induction written with
  | done => rfl
  | skipped quiet _ ih => rw [commandsFrom_bare (isBare_of_quiet quiet), ih]
  | continued goesOn apart shut full _ ih =>
    rename_i pending rest commands line _
    have fullToo : isBare line = false := by
      rw [← List.dropLast_append_getLast? _ goesOn]
      exact not_bare_append full [0x5c]
    have continues : endsWith [0x5c] (strip line) = true := by
      rw [endsWith_point, strip_joined goesOn, List.getLast?_concat]
    rw [commandsFrom_continued fullToo continues, fragment_joined goesOn, ih]
  | ended shut full joined _ ih =>
    rename_i line pending command rest commands _
    have stripped := (@strip_closed {} _ rfl shut).1
    have plain : endsWith [0x5c] (strip line) = false := by
      by_contra goesOn
      exact last_ne_backslash stripped (endsWith_point.mp (by simpa using goesOn))
    rw [commandsFrom_plain full plain, joined, ih]

/-- Of a script that is written plainly the policy test reads what the shell runs. -/
theorem written_alike (newlines : NewlinesOnly text) (written : Written [] (split 0x0a text) commands) :
    logicalShellCommands text = commands ∧ shellCommands text = commands.flatMap shellCommands := by
  refine ⟨(logicalShellCommands_eq newlines).trans written.readFrom, ?_⟩
  obtain ⟨lines, full, clean, rfl⟩ := exists_lines text
  rw [split_joinLines clean full] at written
  exact written.runs clean (by simp)

end Charybdis.Policy
