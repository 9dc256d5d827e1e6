import Charybdis.Policy.PythonText

/-! The readers of a workflow's text: its triggers, its jobs and their sections, and the steps
of one section. -/

namespace Charybdis.Policy

open Foundation
open Stub (PyStr py)

/-- `lines[lines.index(heading) + 1:]`. -/
def linesAfter (heading : PyStr) : List PyStr → Except PolicyError (List PyStr)
  | [] => .error .valueError
  | line :: rest => if line = heading then .ok rest else linesAfter heading rest

/-- The lines of a text below the first line that is the heading. -/
def linesBelow (heading text : PyStr) : List PyStr := ((splitlines text).dropWhile (· ≠ heading)).tail

private theorem linesAfter_of_mem {heading : PyStr} {lines : List PyStr} (member : heading ∈ lines) :
    linesAfter heading lines = .ok (lines.dropWhile (· ≠ heading)).tail := by
  induction lines with
  | nil => cases member
  | cons line rest ih =>
    by_cases same : line = heading
    · simp [linesAfter, same]
    · rw [linesAfter, if_neg same, ih ((List.mem_cons.mp member).resolve_left (Ne.symm same))]
      simp [same]

private theorem linesAfter_of_not_mem {heading : PyStr} {lines : List PyStr} (absent : heading ∉ lines) :
    linesAfter heading lines = .error .valueError := by
  induction lines with
  | nil => rfl
  | cons line rest ih =>
    obtain ⟨other, later⟩ := not_or.mp (mt List.mem_cons.mpr absent)
    rw [linesAfter, if_neg (Ne.symm other), ih later]

theorem linesAfter_splitlines {heading text : PyStr} (member : heading ∈ splitlines text) :
    linesAfter heading (splitlines text) = .ok (linesBelow heading text) := linesAfter_of_mem member

theorem linesAfter_ok {heading text : PyStr} {rest : List PyStr}
    (found : linesAfter heading (splitlines text) = .ok rest) :
    heading ∈ splitlines text ∧ rest = linesBelow heading text := by
  by_cases member : heading ∈ splitlines text
  · rw [linesAfter_splitlines member] at found
    exact ⟨member, (Except.ok.inj found).symm⟩
  · rw [linesAfter_of_not_mem member] at found
    cases found

/-- `line and not line.startswith((" ", "#"))`: a line that ends the block it follows. -/
def leavesBlock (line : PyStr) : Bool :=
  !line.isEmpty && !(startsWith (py " ") line || startsWith (py "#") line)

/-- The lines a loop that breaks at the first line outside of the block goes over. -/
def blockLines (lines : List PyStr) : List PyStr := lines.takeWhile fun line => !leavesBlock line

/-! ### Triggers -/

abbrev Settings := Dict PyStr (List PyStr)

abbrev Triggers := Dict PyStr Settings

/-- `_inline_list`. -/
def inlineList (value : PyStr) : Except PolicyError (List PyStr) :=
  match strip value with
  | 0x5b :: inside =>
    if inside.getLast? = some 0x5d then
      let body := strip inside.dropLast
      .ok (if body.isEmpty then [] else (split 0x2c body).map fun item => stripQuotes (strip item))
    else .error .assertionError
  | _ => .error .assertionError

example : inlineList (py "[ main, 'v*' ]") = .ok [py "main", py "v*"] := by decide

/-- `[a-z_]`. -/
def isEventPoint (point : Nat) : Bool := (0x61 ≤ point && point ≤ 0x7a) || point == 0x5f

/-- `^  ([a-z_]+):(?:\s*(.*))?$`; anything may follow the colon. -/
def eventMatch (line : PyStr) : Option PyStr := (keyMatch (py "  ") isEventPoint line).map Prod.fst

def settingNames : List PyStr := [py "branches", py "tags", py "types"]

/-- `^    (branches|tags|types):\s*(\[.*])$`. -/
def settingMatch (line : PyStr) : Option (PyStr × PyStr) :=
  match keyMatch (py "    ") isEventPoint line with
  | some (name, tail) =>
    let value := lstrip tail
    if name ∈ settingNames ∧ value.head? = some 0x5b ∧ 2 ≤ value.length ∧ value.getLast? = some 0x5d then
      some (name, value)
    else none
  | none => none

/-- The variables of the loop of `_triggers_from_text`. -/
structure TriggerScan where
  events : Triggers := .empty
  event : Option PyStr := none

def TriggerScan.step (scan : TriggerScan) (line : PyStr) : Except PolicyError TriggerScan :=
  match eventMatch line with
  | some event => .ok { events := scan.events.set event .empty, event := some event }
  | none =>
    match settingMatch line, scan.event with
    | some (name, value), some event => do
      let items ← inlineList value
      let settings := (scan.events.get? event).getD .empty
      return { scan with events := scan.events.set event (settings.set name items) }
    | _, _ => .ok scan

/-- `_triggers_from_text`. -/
def triggersFromText (text : PyStr) : Except PolicyError Triggers := do
  let rest ← linesAfter (py "on:") (splitlines text)
  let scan ← (blockLines rest).foldlM TriggerScan.step {}
  return scan.events

/-! ### Jobs -/

/-- `[A-Za-z0-9_-]`. -/
def isIdPoint (point : Nat) : Bool :=
  (0x41 ≤ point && point ≤ 0x5a) || (0x61 ≤ point && point ≤ 0x7a) || (0x30 ≤ point && point ≤ 0x39) ||
    point == 0x5f || point == 0x2d

/-- `^  ([A-Za-z0-9_-]+):\s*$`. -/
def jobMatch (line : PyStr) : Option PyStr :=
  match keyMatch (py "  ") isIdPoint line with
  | some (jobId, tail) => if tail.all isSpace then some jobId else none
  | none => none

/-- `^    name:\s*(.+?)\s*$`. -/
def nameMatch (line : PyStr) : Option PyStr := (line.dropPrefix? (py "    name:")).bind lazyValue

/-- The variables of the loop of `_job_contexts_from_text`. -/
structure JobScan where
  contexts : List (PyStr × PyStr) := []
  jobId : Option PyStr := none
  jobName : Option PyStr := none

/-- `job_name or job_id`. -/
def contextOf (jobId : PyStr) : Option PyStr → PyStr
  | some name => if name.isEmpty then jobId else name
  | none => jobId

/-- `if job_id is not None: contexts.append(…)`. -/
def JobScan.emitted (scan : JobScan) : List (PyStr × PyStr) :=
  match scan.jobId with
  | some jobId => scan.contexts ++ [(jobId, contextOf jobId scan.jobName)]
  | none => scan.contexts

def JobScan.step (scan : JobScan) (line : PyStr) : JobScan :=
  match jobMatch line with
  | some jobId => { contexts := scan.emitted, jobId := some jobId, jobName := none }
  | none =>
    match scan.jobId, nameMatch line with
    | some _, some name => { scan with jobName := some (stripQuotes name) }
    | _, _ => scan

/-- `_job_contexts_from_text`. -/
def jobContextsFromText (text : PyStr) : Except PolicyError (List (PyStr × PyStr)) := do
  let rest ← linesAfter (py "jobs:") (splitlines text)
  return ((blockLines rest).foldl JobScan.step {}).emitted

/-- `f"  {job_id}:"`. -/
def jobLine (jobId : PyStr) : PyStr := py "  " ++ jobId ++ [0x3a]

/-- `_job_section_from_text`. -/
def jobSectionFromText (text jobId : PyStr) : Except PolicyError PyStr := do
  let rest ← linesAfter (py "jobs:") (splitlines text)
  match rest.dropWhile (· ≠ jobLine jobId) with
  | [] => .error .stopIteration
  | start :: tail => return joinLines (start :: tail.takeWhile fun line => (jobMatch line).isNone)

/-- `_top_level_block`. -/
def topLevelBlock (text key : PyStr) : Except PolicyError PyStr := do
  let rest ← linesAfter (key ++ [0x3a]) (splitlines text)
  return joinLines ((key ++ [0x3a]) :: blockLines rest)

/-! ### Steps -/

/-- A section is cut at the lines that start a step; what precedes the first is dropped. -/
def stepsOf : List PyStr → List (List PyStr)
  | [] => []
  | line :: rest =>
    if startsWith (py "      - ") line then
      (line :: rest.takeWhile fun line => !startsWith (py "      - ") line) :: stepsOf rest
    else stepsOf rest

/-- `_job_step_sections`. -/
def jobStepSections (jobSection : PyStr) : List PyStr := (stepsOf (splitlines jobSection)).map joinLines

/-- `_step_field`: the index of the field's line, and `\s*(.*?)\s*$` of what follows the
field's colon. The first line carries the step's dash. -/
def stepField (step field : PyStr) : Option (Nat × PyStr) :=
  let value (indent line : PyStr) : Option PyStr := (line.dropPrefix? (indent ++ field ++ [0x3a])).map strip
  let lines := splitlines step
  match lines.head?.bind (value (py "      - ")) with
  | some found => some (0, found)
  | none =>
    (lines.zipIdx.drop 1).findSome? fun entry => (value (py "        ") entry.1).map fun found => (entry.2, found)

theorem stepField_line (found : stepField step field = some (index, value)) :
    ∃ front tail, (splitlines step)[index]? = some (front ++ tail) ∧ value = strip tail := by
  simp only [stepField] at found
  split at found
  · rename_i first present
    cases found
    obtain ⟨line, head, matched⟩ := Option.bind_eq_some_iff.mp present
    obtain ⟨tail, front, same⟩ := Option.map_eq_some_iff.mp matched
    refine ⟨py "      - " ++ field ++ [0x3a], tail, ?_, same.symm⟩
    rw [← dropPrefix?_iff.mp front, ← List.head?_eq_getElem?, head]
  · obtain ⟨entry, member, matched⟩ := List.exists_of_findSome?_eq_some found
    obtain ⟨picked, matched, same⟩ := Option.map_eq_some_iff.mp matched
    cases same
    obtain ⟨tail, front, same⟩ := Option.map_eq_some_iff.mp matched
    refine ⟨py "        " ++ field ++ [0x3a], tail, ?_, same.symm⟩
    rw [← dropPrefix?_iff.mp front]
    exact List.mem_zipIdx_iff_getElem?.mp (List.mem_of_mem_drop member)

/-- `_step_name`. -/
def stepName (step : PyStr) : Option PyStr := (stepField step (py "name")).map fun field => stripQuotes field.2

/-- `_step_identity`. -/
def stepIdentity (step : PyStr) : PyStr :=
  match stepName step with
  | some name => name
  | none =>
    let first := (splitlines step).headD []
    strip ((first.dropPrefix? (py "      - ")).getD first)

/-- `_step_condition`. -/
def stepCondition (step : PyStr) : Option PyStr := (stepField step (py "if")).map Prod.snd

def blockIndicators : List PyStr := [py "|", py "|-", py ">", py ">-"]

/-- `_step_run_command`. -/
def stepRunCommand (step : PyStr) : Option PyStr :=
  match stepField step (py "run") with
  | none => none
  | some (index, value) =>
    if value ∈ blockIndicators then
      let lines := ((splitlines step).drop (index + 1)).takeWhile fun line =>
        line.isEmpty || startsWith (py "          ") line
      some (joinLines (lines.map (·.drop 10)))
    else some value

end Charybdis.Policy
