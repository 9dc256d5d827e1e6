import Charybdis.Foundation.Script
import Charybdis.Policy.ShellText

/-! A run script as `bash -e` executes it. The policy test looks for the expected commands
among the lines of the script; the shell goes through them with its control flow. -/

namespace Charybdis.Policy

open Foundation
open Stub (PyStr py)

/-! ### The commands of a text -/

/-- Where the shell stands in a text: between words, in a word, in quotes, in a comment or
behind a backslash. -/
inductive Lex where
  | blank
  | word
  | single
  | double
  | comment
  | escaped (inside : Lex)
  deriving DecidableEq

/-- A command as far as it is read, ready for the next word. -/
def opened (mode : Lex) (command : PyStr) : PyStr :=
  if mode = .blank ∧ command ≠ [] then command ++ [0x20] else command

/-- The commands of a text from inside of one. Blanks between words count as one space, so
that a command has one text however its lines are broken. -/
def readCommands (mode : Lex) (command : PyStr) : PyStr → List PyStr
  | [] => if command.isEmpty then [] else [command]
  | point :: rest =>
    match mode with
    | .comment =>
      if point = 0x0a then
        (if command.isEmpty then [] else [command]) ++ readCommands .blank [] rest
      else readCommands .comment command rest
    | .single => readCommands (if point = 0x27 then .word else .single) (command ++ [point]) rest
    | .double =>
      if point = 0x5c then readCommands (.escaped .double) command rest
      else readCommands (if point = 0x22 then .word else .double) (command ++ [point]) rest
    | .escaped inside =>
      -- a backslash and a line break are nothing
      if point = 0x0a then readCommands inside command rest
      else readCommands (if inside = .double then .double else .word) (opened inside command ++ [0x5c, point]) rest
    | .blank | .word =>
      if point = 0x0a ∨ point = 0x3b then
        (if command.isEmpty then [] else [command]) ++ readCommands .blank [] rest
      else if isBlank point then readCommands .blank command rest
      else if point = 0x5c then readCommands (.escaped mode) command rest
      else if point = 0x23 ∧ mode = .blank then readCommands .comment command rest
      else
        let next : Lex := if point = 0x27 then .single else if point = 0x22 then .double else .word
        readCommands next (opened mode command ++ [point]) rest

/-- The commands of a text; a line break or a semicolon ends one. -/
def shellCommands (text : PyStr) : List PyStr := readCommands .blank [] text

example : shellCommands (py "make \\\n  all # now\n\nif a; then b 'x;  #'; fi") =
    [py "make all", py "if a", py "then b 'x;  #'", py "fi"] := by decide

/-! ### The script of a text -/

/-- What follows a word at the start of a command. -/
def keyword (word command : PyStr) : Option PyStr :=
  if command = word then some [] else command.dropPrefix? (word ++ [0x20])

inductive Token where
  | single (command : PyStr)
  | ifThe (condition : PyStr)
  | elifThe (condition : PyStr)
  | thenDo
  | elseDo
  | fi

def tokenOf (command : PyStr) : Token :=
  match keyword (py "if") command, keyword (py "elif") command, keyword (py "fi") command with
  | some condition, _, _ => .ifThe condition
  | none, some condition, _ => .elifThe condition
  | none, none, some _ => .fi
  | none, none, none => .single command

/-- `then` and `else` may stand before a command on its line. -/
def tokensOf (command : PyStr) : List Token :=
  let follow (rest : PyStr) : List Token := if rest.isEmpty then [] else [tokenOf rest]
  match keyword (py "then") command, keyword (py "else") command with
  | some rest, _ => .thenDo :: follow rest
  | none, some rest => .elseDo :: follow rest
  | none, none => [tokenOf command]

/-- What the options of a `set` do to errexit; `naming` says whether the word before was an
`o`, which takes a name. -/
def setErrexit (naming mode : Option Bool) : List PyStr → Option Bool
  | [] => mode
  | word :: rest =>
    match naming, word with
    | some on, _ => setErrexit none (if word = py "errexit" then some on else mode) rest
    | none, sign :: letters =>
      if (sign = 0x2d ∨ sign = 0x2b) ∧ letters ≠ [] ∧ letters ≠ [0x2d] then
        let on : Bool := sign = 0x2d
        setErrexit (if 0x6f ∈ letters then some on else none) (if 0x65 ∈ letters then some on else mode) rest
      else mode
    | none, [] => mode

example : setErrexit none none [py "-euo", py "pipefail"] = some true := by decide

/-- A number in decimal digits. -/
def decimal (digits : PyStr) : Option Nat :=
  if !digits.isEmpty && digits.all fun point => 0x30 ≤ point && point ≤ 0x39 then
    some (digits.foldl (fun value point => value * 10 + (point - 0x30)) 0)
  else none

/-- One command before the rest of a script. A number out of range is a usage error, and an
`exit` of a word that is not a number ends the script with either status. -/
def oneCommand (command : PyStr) (rest : Script PyStr) : Script PyStr :=
  match keyword (py "exit") command, keyword (py "set") command with
  | some [], _ => .exit command none
  | some status, _ =>
    match decimal status with
    | some number => .exit command (some (if number < 2 ^ 63 then number else 2))
    | none => .branch command (.exit command (some 0)) (.exit command (some 1)) .done
  | none, some options => .quiet (some command) (setErrexit none none (split 0x20 options)) rest
  | none, none => .command command rest

/-- A script is read from its end. A frame is an `if` whose `fi` is read already: what follows
it, its parts so far, and whether it has a syntax error. -/
structure Frame where
  after : Script PyStr
  no : Script PyStr := .quiet none none .done
  closed : Bool := false
  yes : Option (Script PyStr) := none
  conditions : List PyStr := []
  bad : Bool := false

structure Reader where
  current : Script PyStr := .done
  frames : List Frame := []

def isDone : Script PyStr → Bool
  | .done => true
  | _ => false

/-- A branch on the last of several conditions, all of which are run. -/
def branchOn (yes no : Script PyStr) : List PyStr → Script PyStr → Script PyStr
  | [], _ => .broken
  | [condition], after => .branch condition yes no after
  | condition :: more, after =>
    let inner := branchOn yes no more .done
    .branch condition inner inner after

def conditionsOf (condition : PyStr) (frame : Frame) : List PyStr :=
  if condition.isEmpty then frame.conditions else condition :: frame.conditions

/-- An `if` with an error is one for the whole of the `if` around it. -/
def spoil : List Frame → Reader
  | [] => { current := .broken }
  | frame :: outer => { frames := { frame with bad := true } :: outer }

def readToken (token : Token) (reader : Reader) : Reader :=
  match token, reader.frames with
  | .fi, frames => { frames := { after := reader.current } :: frames }
  | .single command, [] => { current := oneCommand command reader.current }
  | .single command, frame :: outer =>
    if frame.yes.isSome then { reader with frames := { frame with conditions := command :: frame.conditions } :: outer }
    else { reader with current := oneCommand command reader.current }
  | .elseDo, frame :: outer =>
    let bad := frame.bad || frame.closed || frame.yes.isSome || isDone reader.current
    { frames := { frame with no := reader.current, closed := true, bad } :: outer }
  | .thenDo, frame :: outer =>
    let bad := frame.bad || frame.yes.isSome || isDone reader.current
    { frames := { frame with yes := some reader.current, bad } :: outer }
  | .elifThe condition, frame :: outer =>
    match frame.yes with
    | some yes =>
      let no := branchOn yes frame.no (conditionsOf condition frame) .done
      { frames := { frame with no, closed := true, yes := none, conditions := [] } :: outer }
    | none => spoil (frame :: outer)
  | .ifThe condition, frame :: outer =>
    match frame.yes, frame.bad with
    | some yes, false =>
      { current := branchOn yes frame.no (conditionsOf condition frame) frame.after, frames := outer }
    | _, _ => spoil outer
  -- a part of an `if` that has no `fi`
  | .elseDo, [] | .thenDo, [] | .elifThe _, [] | .ifThe _, [] => { current := .broken }

/-- A script that ends in a syntax error. -/
def unfinished : Script PyStr → Script PyStr
  | .done => .broken
  | .command name rest => .command name (unfinished rest)
  | .quiet name mode rest => .quiet name mode (unfinished rest)
  | .exit name status => .exit name status
  | .branch condition yes no rest => .branch condition yes no (unfinished rest)
  | .broken => .broken

/-- The script of a text. -/
def scriptOf (text : PyStr) : Script PyStr :=
  let reader := ((shellCommands text).flatMap tokensOf).foldr readToken {}
  if reader.frames.isEmpty then reader.current else unfinished reader.current

/-! ### The validators -/

/-- Whenever the step ends with status zero, every expected command was executed with
success. -/
def ZeroMeansValidated (runCommand : PyStr) (expectedCommands : List PyStr) : Prop :=
  ∀ trace flow, Exec (scriptOf runCommand) true true trace flow → flow.zero = true →
    ∀ expected ∈ expectedCommands, ∀ command ∈ shellCommands expected, (command, true) ∈ trace

/-- Every way through the script that can end with status zero passes every expected command
where its failure would show: checked by errexit, as a condition that holds, or last. -/
def EveryRouteValidates (runCommand : PyStr) (expectedCommands : List PyStr) : Prop :=
  ∀ route ∈ (scriptOf runCommand).routes true,
    ∀ expected ∈ expectedCommands, ∀ command ∈ shellCommands expected, Secured command route = true

theorem zeroMeansValidated_iff (runCommand : PyStr) (expectedCommands : List PyStr) :
    ZeroMeansValidated runCommand expectedCommands ↔ EveryRouteValidates runCommand expectedCommands := by
  constructor
  · intro validated route member expected inside command part
    refine ensures_iff.mp (fun trace flow run zero => ?_) route member
    exact validated trace flow run zero expected inside command part
  · intro secured trace flow run zero expected inside command part
    refine ensures_iff.mpr (fun route member => ?_) trace flow run zero
    exact secured route member expected inside command part

example : EveryRouteValidates (py "set -euo pipefail\nif [ -f env ]; then\n  . ./env\nfi\nmake \\\n  check\necho done")
    [py "make check"] := by
  unfold EveryRouteValidates
  decide +kernel

end Charybdis.Policy
