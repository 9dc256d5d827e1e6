import Charybdis.Policy.PythonText

/-! What the policy test reads of a run script: its logical lines, and whether the expected
commands are among them. -/

namespace Charybdis.Policy

open Stub (PyStr py)

/-- The variables of the loop of `_logical_shell_commands`. -/
structure ShellScan where
  commands : List PyStr := []
  fragments : List PyStr := []

def ShellScan.step (scan : ShellScan) (rawLine : PyStr) : ShellScan :=
  let line := strip rawLine
  if line.isEmpty || startsWith (py "#") line then scan
  else
    let continued := endsWith [0x5c] line
    let fragments := scan.fragments ++ [rstrip (if continued then line.dropLast else line)]
    if continued then { scan with fragments }
    else { commands := scan.commands ++ [join (py " ") fragments], fragments := [] }

/-- `_logical_shell_commands`; fragments left at the end of the text are dropped. -/
def logicalShellCommands (runCommand : PyStr) : List PyStr :=
  ((splitlines runCommand).foldl ShellScan.step {}).commands

example : logicalShellCommands (py "# build\nmake \\\n  all\nmake test \\") = [py "make all"] := by decide

/-- `_has_all_executable_shell_commands`. -/
def hasAllExecutableShellCommands (runCommand : Option PyStr) (expectedCommands : List PyStr) : Bool :=
  match runCommand with
  | none => false
  | some script => expectedCommands.all fun command => command ∈ logicalShellCommands script

/-- `_has_bound_gitleaks_branches`. -/
def hasBoundGitleaksBranches (runCommand : Option PyStr) (expectedCommands : List PyStr) : Bool :=
  match runCommand, expectedCommands with
  | some script, [configured, default] => logicalShellCommands script =
      [py "if [ -f .gitleaks.toml ]; then", configured, py "else", default, py "fi"]
  | _, _ => false

end Charybdis.Policy
