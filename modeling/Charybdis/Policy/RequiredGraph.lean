import Charybdis.Policy.ShellText
import Charybdis.Policy.Workflow

/-! The contract of the required workflow: the expected jobs with their validators, and the
violations a text is reported with. -/

namespace Charybdis.Policy

open Foundation
open Stub (PyStr py)

/-- `EXPECTED_REQUIRED_JOB_IDS`. -/
def expectedRequiredJobIds : List PyStr :=
  [py "deps-version-sync", py "forbid-suppressions", py "install", py "lockfile-integrity", py "release",
   py "schema-validation", py "security-dependency-scan", py "security-secrets-scan", py "typecheck",
   py "uv-lock-check"]

/-- The validator of a job that runs as a target of the CI container. -/
def containerValidator (target : String) : PyStr × PyStr × List PyStr :=
  (py target, py target ++ py " (in container)", [py "bash scripts/run_ci_local.sh " ++ py target])

/-- The Gitleaks command around its choice of a configuration. -/
def gitleaksCommand (configuration : String) : PyStr :=
  py "podman run --rm --userns=keep-id:uid=1000,gid=1000 " ++
    py "-v \"$PWD:/workspace:Z\" -w /workspace charybdis-ci:local " ++
    py "gitleaks detect --source /workspace " ++ py configuration ++
    py "--report-format sarif --report-path gitleaks.sarif --redact"

/-- `EXPECTED_REQUIRED_VALIDATORS`: the name of the validator's step and its commands. -/
def expectedRequiredValidators : List (PyStr × PyStr × List PyStr) :=
  [containerValidator "deps-version-sync",
   containerValidator "forbid-suppressions",
   (py "install", py "Install to staging prefix",
     [py "uv run cmake --install build/release --prefix \"$\x7bRUNNER_TEMP\x7d/install-prefix\""]),
   (py "lockfile-integrity", py "Regenerate lockfile",
     [py "conan lock create . -s compiler=gcc -s compiler.version=14 " ++
       py "-s compiler.libcxx=libstdc++11 -s compiler.cppstd=20 " ++
       py "-s build_type=Debug -s os=Linux -s arch=x86_64"]),
   (py "release", py "Dry-run changelog generation",
     [py "FRAGMENT=$(bash scripts/generate-changelog.sh \"$\x7bPREV_TAG\x7d\" \"HEAD\")"]),
   containerValidator "schema-validation",
   containerValidator "security-dependency-scan",
   (py "security-secrets-scan", py "Run Gitleaks",
     [gitleaksCommand "--config .gitleaks.toml ", gitleaksCommand ""]),
   containerValidator "typecheck",
   containerValidator "uv-lock-check"]

/-- `ALLOWED_REQUIRED_STEP_CONDITIONS.get((job_id, step_name))`. -/
def allowedStepCondition (jobId stepName : PyStr) : Option PyStr :=
  if jobId = py "security-secrets-scan" ∧ stepName = py "Upload Gitleaks SARIF" then
    some (py "always() && hashFiles('gitleaks.sarif') != '' " ++ py "&& github.event_name != 'merge_group'")
  else none

/-- The events of `EXPECTED_REQUIRED_TRIGGERS` with their settings. -/
def expectedEvents : List (PyStr × List (PyStr × List PyStr)) :=
  [(py "pull_request", [(py "branches", [py "main"])]),
   (py "push", [(py "branches", [py "main"])]),
   (py "merge_group", [(py "types", [py "checks_requested"])])]

/-- The dictionary of dictionaries with the given entries. -/
def triggersOf (events : List (PyStr × List (PyStr × List PyStr))) : Triggers :=
  .ofList (events.map fun event => (event.1, .ofList event.2))

/-- `EXPECTED_REQUIRED_TRIGGERS`. -/
def expectedRequiredTriggers : Triggers := triggersOf expectedEvents

/-- `==` of dictionaries, which does not look at the order. -/
def sameDict {α : Type} (same : α → α → Bool) (first second : Dict PyStr α) : Bool :=
  first.entries.length == second.entries.length && first.entries.all fun entry =>
    (second.get? entry.1).any (same entry.2)

def sameTriggers : Triggers → Triggers → Bool := sameDict (sameDict (· == ·))

/-- `repr` of what the messages quote, taken as given. -/
structure Quoting where
  triggers : Triggers → PyStr
  names : List PyStr → PyStr

/-- `if condition: violations.append(message)`. -/
def violationIf (condition : Bool) (message : PyStr) : List PyStr := if condition then [message] else []

theorem violationIf_nil {condition : Bool} {message : PyStr}
    (none : violationIf condition message = []) : condition = false := by
  cases condition with
  | false => rfl
  | true => cases none

/-- The texts searched for in the concurrency block. -/
def identities : List PyStr := [py "$\x7b\x7b github.event_name \x7d\x7d", py "$\x7b\x7b github.sha \x7d\x7d"]

def cancelText : PyStr := py "cancel-in-progress: false"

def concurrencyViolations (concurrency : PyStr) : List PyStr :=
  identities.flatMap (fun identity =>
    violationIf (!contains identity concurrency) (py "concurrency omits " ++ identity)) ++
  violationIf (!contains cancelText concurrency) (py "concurrency can cancel an authoritative run")

/-- `sorted(names)`. -/
def sorted (names : List PyStr) : List PyStr := names.insertionSort (· ≤ ·)

def inventoryViolations (quoting : Quoting) (jobIds : List PyStr) : List PyStr :=
  let missing := expectedRequiredJobIds.filter (· ∉ jobIds)
  let unexpected := jobIds.filter (· ∉ expectedRequiredJobIds)
  violationIf (!missing.isEmpty) (py "missing validators: " ++ quoting.names (sorted missing)) ++
  violationIf (!unexpected.isEmpty) (py "hollow or duplicate jobs: " ++ quoting.names (sorted unexpected))

/-- `re.search(r"(?m)^<start>", section)`. -/
def hasLine (start jobSection : PyStr) : Bool := (split 0x0a jobSection).any (startsWith start)

/-- `f"{job_id} / {step_name}"`. -/
def stepPlace (jobId step : PyStr) : PyStr := jobId ++ py " / " ++ stepIdentity step

def stepViolations (jobId validatorName step : PyStr) : List PyStr :=
  violationIf (stepField step (py "continue-on-error")).isSome
    (py "step continue-on-error forbidden: " ++ stepPlace jobId step) ++
  match stepCondition step with
  | none => []
  | some condition =>
    let kind := if stepIdentity step = validatorName then py "validator step condition not allowlisted"
      else py "step condition not allowlisted"
    violationIf (some condition ≠ allowedStepCondition jobId (stepIdentity step))
      (kind ++ py ": " ++ stepPlace jobId step)

def validatorViolations (jobId validatorName : PyStr) (expectedCommands : List PyStr) (steps : List PyStr) :
    List PyStr :=
  let validatorSteps := steps.filter fun step => stepName step = some validatorName
  let runCommand := if validatorSteps.length = 1 then validatorSteps.head?.bind stepRunCommand else none
  let commandsValid := hasAllExecutableShellCommands runCommand expectedCommands &&
    (jobId ≠ py "security-secrets-scan" || hasBoundGitleaksBranches runCommand expectedCommands)
  violationIf (validatorSteps.length ≠ 1 || !commandsValid) (py "validator command missing: " ++ jobId)

/-- The violations of one job, whose validator is known. -/
def jobViolations (jobId validatorName : PyStr) (expectedCommands : List PyStr) (jobSection : PyStr) : List PyStr :=
  let steps := jobStepSections jobSection
  violationIf (hasLine (py "    needs:") jobSection) (py "independent validator declares needs: " ++ jobId) ++
  violationIf (hasLine (py "    if:") jobSection) (py "conditional job can mask a result: " ++ jobId) ++
  violationIf (hasLine (py "    continue-on-error:") jobSection)
    (py "job continue-on-error forbidden: " ++ jobId) ++
  violationIf (!hasLine (py "      - uses: actions/checkout@") jobSection)
    (py "validator does not check out source: " ++ jobId) ++
  steps.flatMap (stepViolations jobId validatorName) ++
  validatorViolations jobId validatorName expectedCommands steps

/-- `_required_graph_violations`. -/
def requiredGraphViolations (quoting : Quoting) (text : PyStr) (requiredCheckWorkflows : List PyStr) :
    Except PolicyError (List PyStr) := do
  let triggers ← triggersFromText text
  let concurrency ← topLevelBlock text (py "concurrency")
  let contexts ← jobContextsFromText text
  let jobIds := (contexts.map Prod.fst).dedup
  let validatorJobIds := expectedRequiredValidators.map Prod.fst
  let jobs ← (sorted (expectedRequiredJobIds.filter (· ∈ jobIds))).mapM fun jobId =>
    match expectedRequiredValidators.lookup jobId with
    | none => .ok []
    | some (validatorName, expectedCommands) => do
      return jobViolations jobId validatorName expectedCommands (← jobSectionFromText text jobId)
  return violationIf (!sameTriggers triggers expectedRequiredTriggers)
      (py "direct trigger set differs: " ++ quoting.triggers triggers) ++
    violationIf (contains (py "workflow_run") text) (py "workflow_run creates a duplicate execution path") ++
    concurrencyViolations concurrency ++
    inventoryViolations quoting jobIds ++
    violationIf (!(validatorJobIds ⊆ expectedRequiredJobIds ∧ expectedRequiredJobIds ⊆ validatorJobIds))
      (py "validator-step contract does not match expected jobs") ++
    jobs.flatten ++
    violationIf (requiredCheckWorkflows.count (py "Required Checks") ≠ 1)
      (py "Required Checks has a duplicate workflow entry point")

end Charybdis.Policy
