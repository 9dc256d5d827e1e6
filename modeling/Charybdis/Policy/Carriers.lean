import Charybdis.Foundation.Fallible
import Charybdis.Policy.JobInventory
import Charybdis.Policy.RequiredGraph

/-! The tests that look at all workflows of a directory: who emits a required context, and
which events the emitters run on. -/

namespace Charybdis.Policy

open Foundation
open Stub (PyStr py)

/-- A file of the directory, as `read_text` returns it. -/
structure File where
  name : PyStr
  text : PyStr
  deriving DecidableEq

/-- How a test can fail. -/
inductive Failure where
  | raised (error : PolicyError)
  | keyError (key : PyStr)
  | failed
  deriving DecidableEq

/-- An exception of a reader ends the test. -/
def reading (result : Except PolicyError α) : Except Failure α := result.mapError .raised

/-- `self.assertTrue`. -/
def assertThat (condition : Bool) : Except Failure Unit := if condition then .ok () else .error .failed

/-! ### The directory -/

def isWorkflow (file : File) : Bool := endsWith (py ".yml") file.name || endsWith (py ".yaml") file.name

/-- `_workflow_paths`: the files of either suffix, sorted by name. -/
def workflowPaths (directory : List File) : List File :=
  (directory.filter (fun file => endsWith (py ".yml") file.name) ++
    directory.filter (fun file => endsWith (py ".yaml") file.name)).insertionSort fun first second =>
      first.name ≤ second.name

/-- `_job_names`. -/
def jobNames (text : PyStr) : Except PolicyError (List PyStr) :=
  (jobContextsFromText text).map (List.map Prod.snd)

/-- `f"{workflow.name}:{job_id}"`. -/
def emitterName (workflow : File) (jobId : PyStr) : PyStr := workflow.name ++ py ":" ++ jobId

/-- One turn of the loop of `_context_emitters`. -/
def workflowEmitters (context : PyStr) (workflow : File) : Except PolicyError (List PyStr) := do
  let contexts ← jobContextsFromText workflow.text
  return (contexts.filter (·.2 = context)).map fun job => emitterName workflow job.1

/-- `_context_emitters`. -/
def contextEmitters (directory : List File) (context : PyStr) : Except PolicyError (List PyStr) := do
  let emitters ← (workflowPaths directory).mapM (workflowEmitters context)
  return emitters.flatten

/-! ### The tests -/

/-- `EXPECTED_REQUIRED_WORKFLOWS`. -/
def expectedRequiredWorkflows : List PyStr :=
  ["_required.yml", "build-test.yml", "code-coverage.yml", "container.yml", "integration-tests.yml",
    "static-analysis.yml"].map py

/-- `EXPECTED_MERGE_GROUP_WORKFLOWS`. -/
def expectedMergeGroupWorkflows : List PyStr :=
  ["_required.yml", "build-test.yml", "code-coverage.yml", "codeql.yml", "container.yml", "integration-tests.yml",
    "lock-check.yml", "sanitizers.yml", "static-analysis.yml"].map py

/-- `EXPECTED_TEST_EMITTERS`. -/
def expectedTestEmitters : List PyStr := [py "build-test.yml:test"]

/-- `set(first) == set(second)`. -/
def sameSet (first second : List PyStr) : Bool :=
  first.all (fun item => decide (item ∈ second)) && second.all fun item => decide (item ∈ first)

/-- `self.assertEqual(triggers[event], settings)`. -/
def assertEvent (triggers : Triggers) (event : PyStr × List (PyStr × List PyStr)) : Except Failure Unit :=
  match triggers.get? event.1 with
  | none => .error (.keyError event.1)
  | some settings => assertThat (sameDict (· == ·) settings (.ofList event.2))

def pushMain : PyStr × List (PyStr × List PyStr) := (py "push", [(py "branches", [py "main"])])

def pullRequestMain : PyStr × List (PyStr × List PyStr) := (py "pull_request", [(py "branches", [py "main"])])

def checksRequested : PyStr × List (PyStr × List PyStr) := (py "merge_group", [(py "types", [py "checks_requested"])])

/-- What is asserted of the triggers of a carrier. -/
def assertGuards (triggers : Triggers) : Except Failure Unit := do
  assertEvent triggers pushMain
  assertEvent triggers pullRequestMain
  assertThat (triggers.contains (py "merge_group"))
  assertEvent triggers checksRequested

/-- One turn of the loop: the required contexts of a workflow, whose triggers are looked at
only if there are any. -/
def policyNames (required : List PyStr) (workflow : File) : Except Failure (List PyStr) := do
  let names ← reading (jobNames workflow.text)
  let carried := names.filter (· ∈ required)
  if carried.isEmpty then return []
  else do
    let triggers ← reading (triggersFromText workflow.text)
    assertGuards triggers
    return carried

/-- `test_every_required_context_carrier_runs_on_push_and_pull_request`. -/
def carrierTest (required : List PyStr) (directory : List File) : Except Failure Unit := do
  let carried ← (workflowPaths directory).mapM fun workflow =>
    (policyNames required workflow).map fun names => (workflow.name, names)
  assertThat (sameSet ((carried.filter fun entry => !entry.2.isEmpty).map Prod.fst) expectedRequiredWorkflows)
  assertThat (sameSet (carried.flatMap Prod.snd) required)
  let emitters ← (sorted required.dedup).mapM fun context =>
    (reading (contextEmitters directory context)).map fun emitters => (context, emitters)
  assertThat ((emitters.filter fun entry => 1 < entry.2.length).isEmpty)
  match emitters.lookup (py "test") with
  | none => .error (.keyError (py "test"))
  | some found => assertThat (found = expectedTestEmitters)

/-- The name of a workflow and whether its triggers have the event. -/
def handles (event : PyStr) (workflow : File) : Except Failure (PyStr × Bool) :=
  (reading (triggersFromText workflow.text)).map fun triggers => (workflow.name, triggers.contains event)

/-- `test_expected_workflows_handle_merge_groups`. -/
def mergeGroupTest (directory : List File) : Except Failure Unit := do
  let handled ← (workflowPaths directory).mapM (handles (py "merge_group"))
  assertThat (sameSet ((handled.filter Prod.snd).map Prod.fst) expectedMergeGroupWorkflows)

/-- One turn of the parity loop. -/
def assertParity (workflow : File) : Except Failure Unit := do
  let triggers ← reading (triggersFromText workflow.text)
  if triggers.contains (py "pull_request") ∧ workflow.name ≠ py "release.yml" ∧
      workflow.name ≠ py "ruleset-audit.yml" then
    if workflow.name ∈ expectedMergeGroupWorkflows ∨ workflow.name ∈ expectedRequiredWorkflows then
      assertThat (triggers.contains (py "merge_group"))

/-- `test_merge_queue_parity_no_dedicated_smoke_workflow`. -/
def parityTest (directory : List File) : Except Failure Unit := do
  assertThat (directory.all fun file => file.name ≠ py "merge-queue-smoke.yml")
  forM (workflowPaths directory) assertParity

/-! ### What the carrier test asks for -/

/-- The jobs of a file with their contexts; none if its jobs cannot be read. -/
def jobsOf (file : File) : List (PyStr × PyStr) := ((jobContextsFromText file.text).toOption).getD []

def Readable (file : File) : Prop := jobContextsFromText file.text = .ok (jobsOf file)

/-- The file has a job with a required context. -/
def Carries (required : List PyStr) (file : File) : Prop := ∃ job ∈ jobsOf file, job.2 ∈ required

/-- The file runs on pushes to main, on pull requests to main and in the merge queue. -/
def Guarded (file : File) : Prop :=
  ∃ triggers, triggersFromText file.text = .ok triggers ∧ ∀ event ∈ [pushMain, pullRequestMain, checksRequested],
    ∃ settings, triggers.get? event.1 = some settings ∧ sameDict (· == ·) settings (.ofList event.2) = true

/-- Every workflow of the directory with every job of it. -/
def emissions (directory : List File) : List (File × PyStr × PyStr) :=
  (directory.filter isWorkflow).flatMap fun file => (jobsOf file).map fun job => (file, job)

/-- The documented contract: all workflows can be read, those that carry a required context are
the expected ones and guard every way into main, each required context has exactly one emitter,
and that of `test` is the job of the same id in `build-test.yml`. -/
structure SingleSourced (required : List PyStr) (directory : List File) : Prop where
  readable : ∀ file ∈ directory, isWorkflow file = true → Readable file
  guarded : ∀ file ∈ directory, isWorkflow file = true → Carries required file → Guarded file
  carriers : ∀ name, name ∈ expectedRequiredWorkflows ↔
    ∃ file ∈ directory, isWorkflow file = true ∧ Carries required file ∧ file.name = name
  emitter : ∀ context ∈ required, ((emissions directory).filter fun emission => emission.2.2 = context).length = 1
  test : py "test" ∈ required ∧
    ∃ file, file.name = py "build-test.yml" ∧ (file, py "test", py "test") ∈ emissions directory

section Reading

variable {required : List PyStr} {directory : List File} {file workflow : File}

theorem mem_workflowPaths : workflow ∈ workflowPaths directory ↔ workflow ∈ directory ∧ isWorkflow workflow = true := by
  simp only [workflowPaths, List.mem_insertionSort, List.mem_append, List.mem_filter, isWorkflow, Bool.or_eq_true,
    and_or_left]

private theorem suffixes_exclude (file : File) :
    ¬ (endsWith (py ".yml") file.name = true ∧ endsWith (py ".yaml") file.name = true) := by
  rintro ⟨short, long⟩
  obtain ⟨front, same⟩ := List.isSuffixOf_iff_suffix.mp short
  obtain ⟨other, again⟩ := List.isSuffixOf_iff_suffix.mp long
  have points := congrArg (fun text => text.reverse[2]?) (same.trans again.symm)
  simp [py] at points

theorem workflowPaths_perm (directory : List File) :
    (workflowPaths directory).Perm (directory.filter isWorkflow) := by
  refine (List.perm_insertionSort _ _).trans ?_
  induction directory with
  | nil => exact .nil
  | cons file rest ih =>
    have apart := suffixes_exclude file
    by_cases short : endsWith (py ".yml") file.name = true
    · have other : endsWith (py ".yaml") file.name = false := Bool.eq_false_iff.mpr fun long => apart ⟨short, long⟩
      have found : isWorkflow file = true := by rw [isWorkflow, short, Bool.true_or]
      simp only [List.filter_cons, short, other, found, Bool.false_eq_true, ↓reduceIte, List.cons_append]
      exact ih.cons file
    · by_cases long : endsWith (py ".yaml") file.name = true
      · have found : isWorkflow file = true := by rw [isWorkflow, long, Bool.or_true]
        simp only [List.filter_cons, short, long, found, Bool.false_eq_true, ↓reduceIte]
        exact List.perm_middle.trans (ih.cons file)
      · have none : ¬ isWorkflow file = true := by simp [isWorkflow, short, long]
        simp only [List.filter_cons, short, long, none, Bool.false_eq_true, ↓reduceIte]
        exact ih

theorem readable_of_ok (read : jobContextsFromText file.text = .ok jobs) : jobs = jobsOf file := by
  rw [jobsOf, read]
  rfl

theorem sameSet_iff {first second : List PyStr} :
    sameSet first second = true ↔ ∀ item, item ∈ first ↔ item ∈ second := by
  simp only [sameSet, Bool.and_eq_true, List.all_eq_true, decide_eq_true_eq]
  exact ⟨fun ⟨left, right⟩ item => ⟨left item, right item⟩,
    fun same => ⟨fun item => (same item).mp, fun item => (same item).mpr⟩⟩

theorem assertThat_iff : assertThat condition = .ok () ↔ condition = true := by
  cases condition <;> simp [assertThat]

theorem reading_ok_iff {result : Except PolicyError α} : reading result = .ok value ↔ result = .ok value := by
  cases result <;> simp [reading, Except.mapError]

theorem assertEvent_iff {triggers : Triggers} {event : PyStr × List (PyStr × List PyStr)} :
    assertEvent triggers event = .ok () ↔ ∃ settings, triggers.get? event.1 = some settings ∧
      sameDict (· == ·) settings (.ofList event.2) = true := by
  unfold assertEvent
  cases found : triggers.get? event.1 with
  | none => simp
  | some settings => simp [assertThat_iff]

theorem assertGuards_iff {triggers : Triggers} : assertGuards triggers = .ok () ↔
    ∀ event ∈ [pushMain, pullRequestMain, checksRequested],
      ∃ settings, triggers.get? event.1 = some settings ∧ sameDict (· == ·) settings (.ofList event.2) = true := by
  have listed : (∃ settings, triggers.get? checksRequested.1 = some settings ∧
      sameDict (· == ·) settings (.ofList checksRequested.2) = true) → triggers.contains (py "merge_group") = true := by
    rintro ⟨settings, found, _⟩
    rw [Dict.contains, show triggers.get? (py "merge_group") = _ from found]
    rfl
  simp only [assertGuards, check_ok_iff, assertEvent_iff, assertThat_iff, List.forall_mem_cons, List.not_mem_nil,
    false_implies, implies_true, and_true]
  exact ⟨fun ⟨push, pull, _, queue⟩ => ⟨push, pull, queue⟩, fun ⟨push, pull, queue⟩ => ⟨push, pull, listed queue, queue⟩⟩

/-- The required contexts of a workflow. -/
def carried (required : List PyStr) (file : File) : List PyStr := ((jobsOf file).map Prod.snd).filter (· ∈ required)

theorem carried_ne_nil : carried required file ≠ [] ↔ Carries required file := by
  rw [carried, Ne, List.eq_nil_iff_forall_not_mem, not_forall_not]
  simp only [List.mem_filter, List.mem_map, decide_eq_true_eq, Carries]
  exact ⟨fun ⟨_, ⟨job, member, same⟩, known⟩ => ⟨job, member, same ▸ known⟩,
    fun ⟨job, member, known⟩ => ⟨job.2, ⟨job, member, rfl⟩, known⟩⟩

theorem policyNames_ok_iff : policyNames required file = .ok names ↔
    Readable file ∧ (Carries required file → Guarded file) ∧ names = carried required file := by
  unfold policyNames
  simp only [bind_ok_iff, reading_ok_iff, jobNames, map_ok_iff]
  constructor
  · rintro ⟨_, ⟨jobs, read, rfl⟩, done⟩
    have same := readable_of_ok read
    subst same
    split at done
    · rename_i none
      have nothing : carried required file = [] := List.isEmpty_iff.mp none
      refine ⟨read, fun carries => absurd nothing (carried_ne_nil.mpr carries), ?_⟩
      rw [nothing]
      exact (Except.ok.inj done).symm
    · obtain ⟨triggers, found, done⟩ := bind_ok_iff.mp done
      obtain ⟨guards, done⟩ := check_ok_iff.mp done
      exact ⟨read, fun _ => ⟨triggers, reading_ok_iff.mp found, assertGuards_iff.mp guards⟩, (Except.ok.inj done).symm⟩
  · rintro ⟨read, guarded, rfl⟩
    refine ⟨_, ⟨_, read, rfl⟩, ?_⟩
    split
    · rename_i none
      have nothing : carried required file = [] := List.isEmpty_iff.mp none
      rw [nothing]
      rfl
    · rename_i some
      have carries : Carries required file := carried_ne_nil.mp fun none => some (List.isEmpty_iff.mpr none)
      obtain ⟨triggers, found, guards⟩ := guarded carries
      exact bind_ok_iff.mpr ⟨triggers, reading_ok_iff.mpr found, check_ok_iff.mpr ⟨assertGuards_iff.mpr guards, rfl⟩⟩

/-- The emitters of a context, in the order of the workflows. -/
def emittersOf (directory : List File) (context : PyStr) : List PyStr :=
  (workflowPaths directory).flatMap fun workflow =>
    ((jobsOf workflow).filter (·.2 = context)).map fun job => emitterName workflow job.1

theorem contextEmitters_ok_iff {context : PyStr} : contextEmitters directory context = .ok emitters ↔
    (∀ file ∈ directory, isWorkflow file = true → Readable file) ∧ emitters = emittersOf directory context := by
  have each : ∀ workflow names, workflowEmitters context workflow = .ok names →
      names = ((jobsOf workflow).filter (·.2 = context)).map fun job => emitterName workflow job.1 := by
    intro workflow names read
    obtain ⟨jobs, found, done⟩ := bind_ok_iff.mp read
    rw [← readable_of_ok found]
    exact (Except.ok.inj done).symm
  unfold contextEmitters
  rw [bind_ok_iff]
  constructor
  · rintro ⟨collected, loop, done⟩
    obtain ⟨all, same⟩ := (mapM_ok_iff each).mp loop
    refine ⟨fun file member found => ?_, ?_⟩
    · obtain ⟨jobs, read, _⟩ := bind_ok_iff.mp (all file (mem_workflowPaths.mpr ⟨member, found⟩))
      rw [readable_of_ok read] at read
      exact read
    · rw [← Except.ok.inj done, same, emittersOf, List.flatMap]
  · rintro ⟨readable, rfl⟩
    refine ⟨_, (mapM_ok_iff each).mpr ⟨fun workflow member => ?_, rfl⟩, ?_⟩
    · obtain ⟨inside, found⟩ := mem_workflowPaths.mp member
      exact bind_ok_iff.mpr ⟨_, readable workflow inside found, rfl⟩
    · rw [emittersOf, List.flatMap]
      rfl

theorem emittersOf_perm (directory : List File) (context : PyStr) : (emittersOf directory context).Perm
    (((emissions directory).filter fun emission => emission.2.2 = context).map fun emission =>
      emitterName emission.1 emission.2.1) := by
  refine ((workflowPaths_perm directory).flatMap_right _).trans ?_
  rw [emissions, List.filter_flatMap, List.map_flatMap]
  simp only [List.filter_map, List.map_map, Function.comp_def]
  exact .refl _

theorem mem_emissions {emission : File × PyStr × PyStr} : emission ∈ emissions directory ↔
    (emission.1 ∈ directory ∧ isWorkflow emission.1 = true) ∧ emission.2 ∈ jobsOf emission.1 := by
  simp only [emissions, List.mem_flatMap, List.mem_filter, List.mem_map]
  constructor
  · rintro ⟨file, inside, job, member, rfl⟩
    exact ⟨inside, member⟩
  · rintro ⟨inside, member⟩
    exact ⟨emission.1, inside, emission.2, member, rfl⟩

theorem colon_not_mem_jobId {job : PyStr × PyStr} (member : job ∈ jobsOf file) : 0x3a ∉ job.1 := by
  unfold jobsOf at member
  cases read : jobContextsFromText file.text with
  | error error => simp [read, Except.toOption] at member
  | ok jobs =>
    obtain ⟨rest, found, _⟩ := ok_of_bind read
    obtain ⟨others, again, ids⟩ := contexts_ids (linesAfter_ok found).1
    cases read.symm.trans again
    have listed : job.1 ∈ jobs.map Prod.fst := List.mem_map_of_mem (by simpa [read, Except.toOption] using member)
    rw [ids] at listed
    obtain ⟨line, _, matched⟩ := List.mem_filterMap.mp listed
    obtain ⟨_, key, _⟩ := jobMatch_iff.mp matched
    intro colon
    cases ((keyMatch_iff rfl).mp key).2.1 _ colon

/-- An emitter's name tells its workflow and its job. -/
theorem emitterName_inj {other : File} {jobId otherId : PyStr} (plain : 0x3a ∉ jobId) (plain' : 0x3a ∉ otherId)
    (same : emitterName file jobId = emitterName other otherId) : file.name = other.name ∧ jobId = otherId := by
  have last (front rest : PyStr) (plain : 0x3a ∉ rest) :
      (front ++ py ":" ++ rest).rtakeWhile (· ≠ 0x3a) = rest := by
    induction rest using List.reverseRecOn with
    | nil =>
      rw [List.append_nil]
      exact List.rtakeWhile_concat_neg _ _ _ (by decide)
    | append_singleton rest point ih =>
      simp only [List.mem_append, List.mem_singleton, not_or] at plain
      rw [← List.append_assoc, List.rtakeWhile_concat_pos _ _ _ (by simpa using Ne.symm plain.2), ih plain.1]
  have ids : jobId = otherId := by
    have rests := congrArg (List.rtakeWhile (· ≠ 0x3a)) same
    rwa [emitterName, emitterName, last _ _ plain, last _ _ plain'] at rests
  subst ids
  exact ⟨List.append_cancel_right (List.append_cancel_right same), rfl⟩

theorem lookup_map_self {names : List PyStr} {value : PyStr → α} (member : name ∈ names) :
    (names.map fun name => (name, value name)).lookup name = some (value name) := by
  induction names with
  | nil => cases member
  | cons first rest ih =>
    rw [List.map_cons, List.lookup_cons]
    by_cases same : name = first
    · subst same
      simp
    · rw [beq_eq_false_iff_ne.mpr same]
      exact ih ((List.mem_cons.mp member).resolve_left same)

theorem mem_sorted_dedup : name ∈ sorted required.dedup ↔ name ∈ required := by
  rw [sorted, List.mem_insertionSort, List.mem_dedup]

end Reading

section Test

variable {required : List PyStr} {directory : List File}

/-- What the loop collects. -/
private def entries (required : List PyStr) (directory : List File) : List (PyStr × List PyStr) :=
  (workflowPaths directory).map fun workflow => (workflow.name, carried required workflow)

private theorem loop_iff {collected : List (PyStr × List PyStr)} :
    ((workflowPaths directory).mapM fun workflow =>
      (policyNames required workflow).map fun names => (workflow.name, names)) = .ok collected ↔
    (∀ file ∈ directory, isWorkflow file = true → Readable file ∧ (Carries required file → Guarded file)) ∧
      collected = entries required directory := by
  have each : ∀ workflow entry, (policyNames required workflow).map (fun names => (workflow.name, names)) = .ok entry →
      entry = (workflow.name, carried required workflow) := by
    intro workflow entry done
    obtain ⟨names, read, same⟩ := map_ok_iff.mp done
    rw [← same, (policyNames_ok_iff.mp read).2.2]
  rw [mapM_ok_iff each]
  refine and_congr_left' ⟨fun all file member found => ?_, fun all workflow member => ?_⟩
  · obtain ⟨names, read, _⟩ := map_ok_iff.mp (all file (mem_workflowPaths.mpr ⟨member, found⟩))
    obtain ⟨readable, guarded, _⟩ := policyNames_ok_iff.mp read
    exact ⟨readable, guarded⟩
  · obtain ⟨inside, found⟩ := mem_workflowPaths.mp member
    obtain ⟨readable, guarded⟩ := all workflow inside found
    exact map_ok_iff.mpr ⟨_, policyNames_ok_iff.mpr ⟨readable, guarded, rfl⟩, rfl⟩

private theorem emitters_iff {collected : List (PyStr × List PyStr)}
    (readable : ∀ file ∈ directory, isWorkflow file = true → Readable file) :
    ((sorted required.dedup).mapM fun context =>
      (reading (contextEmitters directory context)).map fun emitters => (context, emitters)) = .ok collected ↔
    collected = (sorted required.dedup).map fun context => (context, emittersOf directory context) := by
  have each : ∀ context entry,
      (reading (contextEmitters directory context)).map (fun emitters => (context, emitters)) = .ok entry →
        entry = (context, emittersOf directory context) := by
    intro context entry done
    obtain ⟨emitters, read, same⟩ := map_ok_iff.mp done
    rw [← same, (contextEmitters_ok_iff.mp (reading_ok_iff.mp read)).2]
  rw [mapM_ok_iff each]
  refine and_iff_right fun context _ => ?_
  exact map_ok_iff.mpr ⟨_, reading_ok_iff.mpr (contextEmitters_ok_iff.mpr ⟨readable, rfl⟩), rfl⟩

private theorem mem_carrierNames {name : PyStr} :
    name ∈ ((entries required directory).filter fun entry => !entry.2.isEmpty).map Prod.fst ↔
      ∃ file ∈ directory, isWorkflow file = true ∧ Carries required file ∧ file.name = name := by
  simp only [entries, List.mem_map, List.mem_filter, Bool.not_eq_true', List.isEmpty_eq_false_iff]
  constructor
  · rintro ⟨_, ⟨⟨file, member, rfl⟩, some⟩, rfl⟩
    obtain ⟨inside, found⟩ := mem_workflowPaths.mp member
    exact ⟨file, inside, found, carried_ne_nil.mp some, rfl⟩
  · rintro ⟨file, inside, found, carries, rfl⟩
    exact ⟨_, ⟨⟨file, mem_workflowPaths.mpr ⟨inside, found⟩, rfl⟩, carried_ne_nil.mpr carries⟩, rfl⟩

private theorem mem_emitted {context : PyStr} : context ∈ (entries required directory).flatMap Prod.snd ↔
    context ∈ required ∧ ∃ emission ∈ emissions directory, emission.2.2 = context := by
  simp only [entries, List.mem_flatMap, List.mem_map]
  constructor
  · rintro ⟨_, ⟨file, member, rfl⟩, inside⟩
    obtain ⟨named, known⟩ := List.mem_filter.mp inside
    obtain ⟨job, listed, rfl⟩ := List.mem_map.mp named
    exact ⟨of_decide_eq_true known, (file, job), mem_emissions.mpr ⟨mem_workflowPaths.mp member, listed⟩, rfl⟩
  · rintro ⟨known, emission, member, rfl⟩
    obtain ⟨inside, listed⟩ := mem_emissions.mp member
    exact ⟨_, ⟨emission.1, mem_workflowPaths.mpr inside, rfl⟩,
      List.mem_filter.mpr ⟨List.mem_map_of_mem listed, decide_eq_true known⟩⟩

/-- The emissions of one context. -/
private def emitting (directory : List File) (context : PyStr) : List (File × PyStr × PyStr) :=
  (emissions directory).filter fun emission => emission.2.2 = context

private theorem emittersOf_length (context : PyStr) :
    (emittersOf directory context).length = (emitting directory context).length :=
  (emittersOf_perm directory context).length_eq.trans (List.length_map _)

private theorem testEmitters_iff (single : (emitting directory (py "test")).length = 1) :
    emittersOf directory (py "test") = expectedTestEmitters ↔
      ∃ file, file.name = py "build-test.yml" ∧ (file, py "test", py "test") ∈ emissions directory := by
  obtain ⟨⟨file, jobId, context⟩, only⟩ := List.length_eq_one_iff.mp single
  have listed : (file, jobId, context) ∈ emitting directory (py "test") := only ▸ List.mem_singleton_self _
  obtain ⟨member, same⟩ := List.mem_filter.mp listed
  have same : context = py "test" := of_decide_eq_true same
  subst same
  have name : emittersOf directory (py "test") = [emitterName file jobId] := by
    have perm := emittersOf_perm directory (py "test")
    rw [show (emissions directory).filter _ = _ from only] at perm
    exact List.perm_singleton.mp perm
  have plain := colon_not_mem_jobId (mem_emissions.mp member).2
  rw [name, expectedTestEmitters, List.singleton_inj]
  constructor
  · intro spelled
    have named : emitterName file jobId = emitterName ⟨py "build-test.yml", []⟩ (py "test") := spelled
    have parts := emitterName_inj plain (by decide) named
    exact ⟨file, parts.1, parts.2 ▸ member⟩
  · rintro ⟨other, named, again⟩
    have second : (other, py "test", py "test") ∈ emitting directory (py "test") :=
      List.mem_filter.mpr ⟨again, decide_eq_true rfl⟩
    rw [only, List.mem_singleton, Prod.mk.injEq, Prod.mk.injEq] at second
    rw [emitterName, ← second.1, ← second.2.1, named]
    rfl

private theorem lookup_test : (match ((sorted required.dedup).map fun context =>
      (context, emittersOf directory context)).lookup (py "test") with
    | none => .error (.keyError (py "test"))
    | some found => assertThat (found = expectedTestEmitters)) = Except.ok () ↔
    py "test" ∈ required ∧ emittersOf directory (py "test") = expectedTestEmitters := by
  by_cases known : py "test" ∈ required
  · rw [lookup_map_self (mem_sorted_dedup.mpr known)]
    simp [assertThat_iff, known]
  · have none : ((sorted required.dedup).map fun context =>
        (context, emittersOf directory context)).lookup (py "test") = none := by
      rw [List.lookup_eq_none_iff]
      intro entry member
      obtain ⟨context, listed, rfl⟩ := List.mem_map.mp member
      have other : py "test" ≠ context := fun same => known (mem_sorted_dedup.mp (same ▸ listed))
      simpa using other
    rw [none]
    simp [known]

/-- The test passes exactly on the directories that keep the contract. Which files can be read,
which jobs emit a context and what triggers them is as the test itself reads it. -/
theorem carrierTest_iff : carrierTest required directory = .ok () ↔ SingleSourced required directory := by
  have duplicates : ((((sorted required.dedup).map fun context => (context, emittersOf directory context)).filter
      fun entry => 1 < entry.2.length).isEmpty = true) ↔
        ∀ context ∈ required, (emitting directory context).length ≤ 1 := by
    simp only [List.isEmpty_iff, List.filter_eq_nil_iff, List.forall_mem_map, decide_eq_true_eq, Nat.not_lt,
      mem_sorted_dedup, emittersOf_length]
  have exists_iff (context : PyStr) : (∃ emission ∈ emissions directory, emission.2.2 = context) ↔
      1 ≤ (emitting directory context).length := by
    rw [Nat.succ_le_iff, List.length_pos_iff_exists_mem]
    simp only [emitting, List.mem_filter, decide_eq_true_eq]
  unfold carrierTest
  rw [bind_ok_iff]
  constructor
  · rintro ⟨collected, loop, rest⟩
    obtain ⟨each, rfl⟩ := loop_iff.mp loop
    obtain ⟨carriers, rest⟩ := check_ok_iff.mp rest
    obtain ⟨emitted, rest⟩ := check_ok_iff.mp rest
    obtain ⟨emitters, found, rest⟩ := bind_ok_iff.mp rest
    have readable : ∀ file ∈ directory, isWorkflow file = true → Readable file :=
      fun file member workflow => (each file member workflow).1
    obtain rfl := (emitters_iff readable).mp found
    obtain ⟨unique, last⟩ := check_ok_iff.mp rest
    obtain ⟨known, test⟩ := lookup_test.mp last
    have single : ∀ context ∈ required, (emitting directory context).length = 1 := by
      intro context inside
      have least := (exists_iff context).mp
        (mem_emitted.mp ((sameSet_iff.mp (assertThat_iff.mp emitted) context).mpr inside)).2
      exact le_antisymm (duplicates.mp (assertThat_iff.mp unique) context inside) least
    exact {
      readable
      guarded := fun file member workflow => (each file member workflow).2
      carriers := fun name => (sameSet_iff.mp (assertThat_iff.mp carriers) name).symm.trans mem_carrierNames
      emitter := single
      test := ⟨known, (testEmitters_iff (single _ known)).mp test⟩ }
  · intro contract
    refine ⟨entries required directory, loop_iff.mpr ⟨fun file member workflow =>
      ⟨contract.readable file member workflow, contract.guarded file member workflow⟩, rfl⟩, ?_⟩
    refine check_ok_iff.mpr ⟨assertThat_iff.mpr (sameSet_iff.mpr fun name =>
      mem_carrierNames.trans (contract.carriers name).symm), ?_⟩
    refine check_ok_iff.mpr ⟨assertThat_iff.mpr (sameSet_iff.mpr fun context => mem_emitted.trans
      ⟨And.left, fun known => ⟨known, (exists_iff context).mpr (contract.emitter context known).ge⟩⟩), ?_⟩
    refine bind_ok_iff.mpr ⟨_, (emitters_iff contract.readable).mpr rfl, ?_⟩
    refine check_ok_iff.mpr ⟨assertThat_iff.mpr (duplicates.mpr fun context known =>
      (contract.emitter context known).le), ?_⟩
    obtain ⟨known, found⟩ := contract.test
    exact lookup_test.mpr ⟨known, (testEmitters_iff (contract.emitter _ known)).mpr found⟩

end Test

end Charybdis.Policy
