import Charybdis.Policy.Carriers

/-! What may be added to a directory that passes. The three tests pin the workflows that carry
a required context and those that run in the merge queue; they pin nothing else. -/

namespace Charybdis.Policy

open Foundation
open Stub (PyStr py)

/-- The triggers of the file can be read, and the event is among them, or is not. -/
def Triggered (event : PyStr) (present : Bool) (file : File) : Prop :=
  ∃ triggers, triggersFromText file.text = .ok triggers ∧ triggers.contains event = present

/-- All tests that look at the whole directory. -/
structure AllPass (required : List PyStr) (directory : List File) : Prop where
  carriers : carrierTest required directory = .ok ()
  mergeGroups : mergeGroupTest directory = .ok ()
  parity : parityTest directory = .ok ()

section Tests

variable {required : List PyStr} {directory : List File} {file : File}

/-- Whether the event is among the triggers, where they can be read. -/
private def listens (event : PyStr) (file : File) : Bool :=
  ((triggersFromText file.text).toOption.map fun triggers => triggers.contains event).getD false

private theorem handles_ok_iff {event : PyStr} : handles event file = .ok entry ↔
    Triggered event (listens event file) file ∧ entry = (file.name, listens event file) := by
  simp only [handles, map_ok_iff, reading_ok_iff, Triggered]
  constructor
  · rintro ⟨triggers, read, rfl⟩
    have same : listens event file = triggers.contains event := by rw [listens, read]; rfl
    exact ⟨⟨triggers, read, same.symm⟩, by rw [same]⟩
  · rintro ⟨⟨triggers, read, same⟩, rfl⟩
    exact ⟨triggers, read, by rw [same]⟩

private theorem listens_of_triggered (triggered : Triggered event present file) : listens event file = present := by
  obtain ⟨triggers, read, same⟩ := triggered
  rw [listens, read, ← same]
  rfl

theorem mergeGroupTest_iff : mergeGroupTest directory = .ok () ↔
    (∀ file ∈ directory, isWorkflow file = true → ∃ present, Triggered (py "merge_group") present file) ∧
    ∀ name, name ∈ expectedMergeGroupWorkflows ↔ ∃ file ∈ directory, isWorkflow file = true ∧
      Triggered (py "merge_group") true file ∧ file.name = name := by
  have each : ∀ workflow entry, handles (py "merge_group") workflow = .ok entry →
      entry = (workflow.name, listens (py "merge_group") workflow) := fun _ _ read => (handles_ok_iff.mp read).2
  have names (name : PyStr) (readable : ∀ workflow ∈ workflowPaths directory,
      handles (py "merge_group") workflow = .ok (workflow.name, listens (py "merge_group") workflow)) :
      name ∈ ((((workflowPaths directory).map fun workflow =>
        (workflow.name, listens (py "merge_group") workflow)).filter Prod.snd).map Prod.fst) ↔
      ∃ file ∈ directory, isWorkflow file = true ∧ Triggered (py "merge_group") true file ∧ file.name = name := by
    simp only [List.mem_map, List.mem_filter]
    constructor
    · rintro ⟨_, ⟨⟨workflow, member, rfl⟩, present⟩, rfl⟩
      obtain ⟨inside, found⟩ := mem_workflowPaths.mp member
      have triggered := (handles_ok_iff.mp (readable workflow member)).1
      rw [show listens (py "merge_group") workflow = true from present] at triggered
      exact ⟨workflow, inside, found, triggered, rfl⟩
    · rintro ⟨workflow, inside, found, triggered, rfl⟩
      exact ⟨_, ⟨⟨workflow, mem_workflowPaths.mpr ⟨inside, found⟩, rfl⟩, listens_of_triggered triggered⟩, rfl⟩
  unfold mergeGroupTest
  rw [bind_ok_iff]
  constructor
  · rintro ⟨handled, loop, done⟩
    obtain ⟨readable, rfl⟩ := (mapM_ok_iff each).mp loop
    refine ⟨fun file member found => ?_, fun name => ?_⟩
    · exact ⟨_, (handles_ok_iff.mp (readable file (mem_workflowPaths.mpr ⟨member, found⟩))).1⟩
    · exact (sameSet_iff.mp (assertThat_iff.mp done) name).symm.trans (names name readable)
  · rintro ⟨readable, expected⟩
    have loop : ∀ workflow ∈ workflowPaths directory,
        handles (py "merge_group") workflow = .ok (workflow.name, listens (py "merge_group") workflow) := by
      intro workflow member
      obtain ⟨inside, found⟩ := mem_workflowPaths.mp member
      obtain ⟨present, triggered⟩ := readable workflow inside found
      exact handles_ok_iff.mpr ⟨listens_of_triggered triggered ▸ triggered, rfl⟩
    refine ⟨_, (mapM_ok_iff each).mpr ⟨loop, rfl⟩, assertThat_iff.mpr (sameSet_iff.mpr fun name => ?_)⟩
    exact (names name loop).trans (expected name).symm

/-- The workflows the parity loop asserts something of. -/
def Paired (file : File) : Prop :=
  file.name ≠ py "release.yml" ∧ file.name ≠ py "ruleset-audit.yml" ∧
    (file.name ∈ expectedMergeGroupWorkflows ∨ file.name ∈ expectedRequiredWorkflows)

private theorem assertParity_iff : assertParity file = .ok () ↔
    ∃ triggers, triggersFromText file.text = .ok triggers ∧ (triggers.contains (py "pull_request") = true →
      Paired file → triggers.contains (py "merge_group") = true) := by
  unfold assertParity
  simp only [bind_ok_iff, reading_ok_iff]
  refine exists_congr fun triggers => and_congr_right fun _ => ?_
  unfold Paired
  by_cases pulled : triggers.contains (py "pull_request") = true ∧ file.name ≠ py "release.yml" ∧
      file.name ≠ py "ruleset-audit.yml"
  · obtain ⟨pull, other⟩ := pulled
    by_cases listed : file.name ∈ expectedMergeGroupWorkflows ∨ file.name ∈ expectedRequiredWorkflows
    · simp [pull, other, listed, assertThat_iff]
    · simp [other, listed, pure, Except.pure]
  · rw [if_neg pulled]
    refine iff_of_true rfl fun pull paired => absurd ⟨pull, paired.1, paired.2.1⟩ pulled

theorem parityTest_iff : parityTest directory = .ok () ↔
    (∀ file ∈ directory, file.name ≠ py "merge-queue-smoke.yml") ∧
    ∀ file ∈ directory, isWorkflow file = true → ∃ triggers, triggersFromText file.text = .ok triggers ∧
      (triggers.contains (py "pull_request") = true → Paired file → triggers.contains (py "merge_group") = true) := by
  unfold parityTest
  rw [check_ok_iff, assertThat_iff, forM_ok_iff]
  simp only [List.all_eq_true, decide_eq_true_eq, mem_workflowPaths, assertParity_iff, and_imp]

/-! ### The order of the files -/

theorem emissions_perm {other : List File} (perm : other.Perm directory) : (emissions other).Perm (emissions directory) :=
  (perm.filter _).flatMap_right _

theorem SingleSourced.perm {other : List File} (contract : SingleSourced required directory)
    (perm : other.Perm directory) : SingleSourced required other where
  readable := fun file member => contract.readable file (perm.mem_iff.mp member)
  guarded := fun file member => contract.guarded file (perm.mem_iff.mp member)
  carriers := fun name => by simpa only [perm.mem_iff] using contract.carriers name
  emitter := fun context known => (((emissions_perm perm).filter _).length_eq).trans (contract.emitter context known)
  test := by simpa only [(emissions_perm perm).mem_iff] using contract.test

/-- The verdict does not depend on the order in which the directory is listed. -/
theorem AllPass.perm {other : List File} (passes : AllPass required directory) (perm : other.Perm directory) :
    AllPass required other where
  carriers := carrierTest_iff.mpr ((carrierTest_iff.mp passes.carriers).perm perm)
  mergeGroups := by
    have passed := mergeGroupTest_iff.mp passes.mergeGroups
    exact mergeGroupTest_iff.mpr (by simpa only [perm.mem_iff] using passed)
  parity := by
    have passed := parityTest_iff.mp passes.parity
    exact parityTest_iff.mpr (by simpa only [perm.mem_iff] using passed)

/-! ### One more file -/

theorem emissions_cons (file : File) (directory : List File) : emissions (file :: directory) =
    (if isWorkflow file then (jobsOf file).map fun job => (file, job) else []) ++ emissions directory := by
  unfold emissions
  by_cases found : isWorkflow file = true
  · rw [List.filter_cons_of_pos found, List.flatMap_cons, if_pos found]
  · rw [List.filter_cons_of_neg found, if_neg found, List.nil_append]

private theorem not_carries (passes : SingleSourced required directory)
    (grown : SingleSourced required (file :: directory)) (found : isWorkflow file = true) : ¬ Carries required file := by
  rintro ⟨job, listed, known⟩
  have two := grown.emitter job.2 known
  have one := passes.emitter job.2 known
  rw [emissions_cons, if_pos found, List.filter_append, List.length_append, one, Nat.add_eq_right,
    List.length_eq_zero_iff, List.filter_eq_nil_iff] at two
  exact two (file, job) (List.mem_map_of_mem listed) (decide_eq_true rfl)

private theorem SingleSourced.cons (passes : SingleSourced required directory)
    (aside : isWorkflow file = true → Readable file ∧ ¬ Carries required file) :
    SingleSourced required (file :: directory) where
  readable := List.forall_mem_cons.mpr ⟨fun found => (aside found).1, passes.readable⟩
  guarded := List.forall_mem_cons.mpr ⟨fun found carries => absurd carries (aside found).2, passes.guarded⟩
  carriers := fun name => by
    rw [passes.carriers]
    refine ⟨fun ⟨other, member, rest⟩ => ⟨other, List.mem_cons_of_mem _ member, rest⟩, ?_⟩
    rintro ⟨other, member, found, carries, named⟩
    rcases List.mem_cons.mp member with rfl | inside
    · exact absurd carries (aside found).2
    · exact ⟨other, inside, found, carries, named⟩
  emitter := fun context known => by
    rw [emissions_cons, List.filter_append, List.length_append, passes.emitter context known, Nat.add_eq_right,
      List.length_eq_zero_iff]
    split
    · rename_i found
      rw [List.filter_eq_nil_iff]
      rintro emission member same
      obtain ⟨job, listed, rfl⟩ := List.mem_map.mp member
      exact (aside found).2 ⟨job, listed, of_decide_eq_true same ▸ known⟩
    · rfl
  test := by
    obtain ⟨known, other, named, member⟩ := passes.test
    exact ⟨known, other, named, by rw [emissions_cons]; exact List.mem_append_right _ member⟩

/-- A directory that passes may grow by exactly the files that are no workflows and the
workflows that emit no required context and do not run in the merge queue, as the tests read
contexts and triggers. Nothing else is asked of a new workflow: one that runs on pull requests
only passes the test that looks for such workflows. -/
theorem grown_directory_passes_iff (required : List PyStr) (directory grown : List File) (file : File)
    (passes : AllPass required directory) (fresh : ∀ other ∈ directory, other.name ≠ file.name)
    (added : grown.Perm (file :: directory)) :
    AllPass required grown ↔ file.name ≠ py "merge-queue-smoke.yml" ∧ (isWorkflow file = true →
      Readable file ∧ ¬ Carries required file ∧ Triggered (py "merge_group") false file) := by
  have single := carrierTest_iff.mp passes.carriers
  obtain ⟨triggered, queued⟩ := mergeGroupTest_iff.mp passes.mergeGroups
  obtain ⟨unsmoked, paired⟩ := parityTest_iff.mp passes.parity
  have unqueued : file.name ∉ expectedMergeGroupWorkflows := by
    intro listed
    obtain ⟨other, member, _, _, named⟩ := (queued _).mp listed
    exact fresh other member named
  have unrequired : file.name ∉ expectedRequiredWorkflows := by
    intro listed
    obtain ⟨other, member, _, _, named⟩ := (single.carriers _).mp listed
    exact fresh other member named
  constructor
  · intro all
    have all := all.perm added.symm
    have contract := carrierTest_iff.mp all.carriers
    obtain ⟨read, listed⟩ := mergeGroupTest_iff.mp all.mergeGroups
    refine ⟨(parityTest_iff.mp all.parity).1 file List.mem_cons_self, fun found => ?_⟩
    refine ⟨contract.readable file List.mem_cons_self found, not_carries single contract found, ?_⟩
    obtain ⟨present, own⟩ := read file List.mem_cons_self found
    cases present with
    | false => exact own
    | true => exact absurd ((listed _).mpr ⟨file, List.mem_cons_self, found, own, rfl⟩) unqueued
  · rintro ⟨smokeless, aside⟩
    refine AllPass.perm ⟨?_, ?_, ?_⟩ added
    · exact carrierTest_iff.mpr (single.cons fun found => ⟨(aside found).1, (aside found).2.1⟩)
    · refine mergeGroupTest_iff.mpr ⟨List.forall_mem_cons.mpr ⟨fun found => ⟨false, (aside found).2.2⟩, triggered⟩, ?_⟩
      intro name
      rw [queued]
      refine ⟨fun ⟨other, member, rest⟩ => ⟨other, List.mem_cons_of_mem _ member, rest⟩, ?_⟩
      rintro ⟨other, member, found, ⟨triggers, read, present⟩, named⟩
      rcases List.mem_cons.mp member with rfl | inside
      · obtain ⟨others, again, absent⟩ := (aside found).2.2
        cases read.symm.trans again
        cases present.symm.trans absent
      · exact ⟨other, inside, found, ⟨triggers, read, present⟩, named⟩
    · refine parityTest_iff.mpr ⟨List.forall_mem_cons.mpr ⟨smokeless, unsmoked⟩, List.forall_mem_cons.mpr ⟨?_, paired⟩⟩
      intro found
      obtain ⟨triggers, read, _⟩ := (aside found).2.2
      exact ⟨triggers, read, fun _ pair => absurd pair.2.2 (not_or.mpr ⟨unqueued, unrequired⟩)⟩

end Tests

/-! ### A directory that passes -/

/-- `EXPECTED_CONTEXTS`. -/
def expectedContexts : List PyStr :=
  ["All Build/Test Checks", "All Coverage Checks", "All Static Analysis Checks", "build", "deps/version-sync",
    "install", "integration-tests", "lint", "package", "release", "schema-validation", "security/dependency-scan",
    "security/secrets-scan", "test", "typecheck", "unit-tests"].map py

/-- A workflow with the given triggers and jobs. -/
private def workflowOf (name : String) (triggers : List PyStr) (jobs : List (String × String)) : File where
  name := py name
  text := joinLines (py "on:" :: (triggers ++ py "jobs:" ::
    jobs.flatMap fun job => [py "  " ++ py job.1 ++ py ":", py "    name: " ++ py job.2]))

private def onPull : List PyStr := [py "  pull_request:", py "    branches: " ++ py "[main]"]

private def onQueue : List PyStr :=
  [py "  push:", py "    branches: " ++ py "[main]"] ++ onPull ++
    [py "  merge_group:", py "    types: " ++ py "[checks_requested]"]

private def sampleDirectory : List File :=
  [workflowOf "_required.yml" onQueue
      [("deps", "deps/version-sync"), ("install", "install"), ("release", "release"), ("schema", "schema-validation"),
        ("dependencies", "security/dependency-scan"), ("secrets", "security/secrets-scan"), ("types", "typecheck")],
    workflowOf "build-test.yml" onQueue
      [("all", "All Build/Test Checks"), ("build", "build"), ("test", "test"), ("unit-tests", "unit-tests")],
    workflowOf "code-coverage.yml" onQueue [("all", "All Coverage Checks")],
    workflowOf "codeql.yml" onQueue [("analyze", "CodeQL")],
    workflowOf "container.yml" onQueue [("package", "package")],
    workflowOf "integration-tests.yml" onQueue [("integration", "integration-tests")],
    workflowOf "lock-check.yml" onQueue [("lock", "lock check")],
    workflowOf "sanitizers.yml" onQueue [("asan", "asan")],
    workflowOf "static-analysis.yml" onQueue [("all", "All Static Analysis Checks"), ("lint", "lint")]]

private def preview : File := workflowOf "preview.yml" onPull [("preview", "preview")]

private theorem sampleDirectory_passes : AllPass expectedContexts sampleDirectory := by
  have carriers : carrierTest expectedContexts sampleDirectory = .ok () := by decide
  have mergeGroups : mergeGroupTest sampleDirectory = .ok () := by decide
  have parity : parityTest sampleDirectory = .ok () := by decide
  exact ⟨carriers, mergeGroups, parity⟩

/-- A workflow for pull requests only may be put between the others. -/
theorem preview_is_admitted : AllPass expectedContexts (sampleDirectory ++ [preview]) := by
  have fresh : ∀ other ∈ sampleDirectory, other.name ≠ preview.name := by decide
  refine (grown_directory_passes_iff expectedContexts sampleDirectory _ preview sampleDirectory_passes fresh
    (List.perm_append_singleton _ _)).mpr ⟨by decide, fun _ => ⟨?_, ?_, ?_⟩⟩
  · exact (by decide : jobContextsFromText preview.text = .ok (jobsOf preview))
  · exact (by decide : ¬ ∃ job ∈ jobsOf preview, job.2 ∈ expectedContexts)
  · obtain ⟨triggers, read⟩ : ∃ triggers, triggersFromText preview.text = .ok triggers := by
      cases read : triggersFromText preview.text with
      | ok triggers => exact ⟨triggers, rfl⟩
      | error error =>
        have fine : (triggersFromText preview.text).toBool = true := by decide
        rw [read] at fine
        cases fine
    refine ⟨triggers, read, ?_⟩
    have absent : (triggersFromText preview.text).toOption.all fun triggers =>
      !triggers.contains (py "merge_group") := by decide
    simpa [read, Except.toOption] using absent

end Charybdis.Policy
