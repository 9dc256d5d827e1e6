import Charybdis.Policy.Workflow

/-! The job inventory of a workflow. Two readers of the test look for the keys of the `jobs:`
block, one with a pattern and one with an equality; here are the keys themselves. -/

namespace Charybdis.Policy

open Stub (PyStr py)

/-- The id of a job key line. -/
def keyId (line : PyStr) : Option PyStr :=
  match keyMatch (py "  ") isIdPoint line with
  | some (jobId, tail) => if isBare tail then some jobId else none
  | none => none

/-- The lines below the first line `jobs:`. -/
def belowJobs (text : PyStr) : List PyStr := linesBelow (py "jobs:") text

def jobsBlock (text : PyStr) : List PyStr := blockLines (belowJobs text)

/-- The job ids of a block, in order and with multiplicity. -/
def jobKeys (block : List PyStr) : List PyStr := block.filterMap keyId

/-- The lines from the key line of a job up to the next key line or the end of the block. -/
def keySection (jobId : PyStr) (block : List PyStr) : List PyStr :=
  match block.dropWhile fun line => keyId line ≠ some jobId with
  | [] => []
  | key :: tail => key :: tail.takeWhile fun line => (keyId line).isNone

/-- Both readers find the jobs that are there. -/
structure InventoryAgrees (text : PyStr) : Prop where
  contexts : ∃ contexts, jobContextsFromText text = .ok contexts ∧
    contexts.map Prod.fst = jobKeys (jobsBlock text)
  sections : ∀ jobId, (jobKeys (jobsBlock text)).count jobId = 1 →
    jobSectionFromText text jobId = .ok (joinLines (keySection jobId (jobsBlock text)))

/-- The key lines are written the one way both readers know, and no job without a namesake
stands last in a block that ends before the text does. -/
structure PlainKeys (text : PyStr) : Prop where
  uncommented : ∀ line ∈ jobsBlock text, (keyId line).isSome → 0x23 ∉ line
  exact : ∀ jobId, (jobKeys (jobsBlock text)).count jobId = 1 → jobLine jobId ∈ jobsBlock text
  last : ∀ jobId, (jobKeys (jobsBlock text)).getLast? = some jobId →
    (jobKeys (jobsBlock text)).count jobId = 1 → jobsBlock text = belowJobs text

/-! ### One line -/

section Line

variable {line jobId tail : PyStr}

theorem keyId_iff : keyId line = some jobId ↔
    ∃ tail, keyMatch (py "  ") isIdPoint line = some (jobId, tail) ∧ isBare tail = true := by
  unfold keyId
  split <;> simp_all [and_comm]

theorem jobMatch_iff : jobMatch line = some jobId ↔
    ∃ tail, keyMatch (py "  ") isIdPoint line = some (jobId, tail) ∧ tail.all isSpace = true := by
  unfold jobMatch
  split <;> simp_all [and_comm]

private theorem keyMatch_job : keyMatch (py "  ") isIdPoint line = some (jobId, tail) ↔
    jobId ≠ [] ∧ (∀ point ∈ jobId, isIdPoint point = true) ∧ line = jobLine jobId ++ tail := by
  rw [keyMatch_iff rfl]
  simp [jobLine]

private theorem isSpace_of_bare (bare : isBare tail = true) (plain : 0x23 ∉ tail) :
    tail.all isSpace = true := by
  cases rest : lstrip tail with
  | nil =>
    rw [lstrip, List.dropWhile_eq_nil_iff] at rest
    exact List.all_eq_true.mpr rest
  | cons point later =>
    have comment : 0x23 = point := by
      simpa [isBare, rest, startsWith, py] using bare
    have inside : 0x23 ∈ lstrip tail := by simp [rest, comment]
    exact absurd ((List.dropWhile_sublist _).mem inside) plain

private theorem bare_of_isSpace (blank : tail.all isSpace = true) : isBare tail = true := by
  have none : lstrip tail = [] := List.dropWhile_eq_nil_iff.mpr (List.all_eq_true.mp blank)
  simp [isBare, none]

private theorem hash_not_mem_jobLine (named : ∀ point ∈ jobId, isIdPoint point = true) :
    0x23 ∉ jobLine jobId := by
  intro inside
  simp only [jobLine, List.mem_append] at inside
  rcases inside with (indent | name) | colon
  · exact absurd indent (by decide)
  · cases named _ name
  · cases List.mem_singleton.mp colon

/-- The pattern of the readers misses the key lines with a comment, and only those. -/
theorem jobMatch_iff_keyId : jobMatch line = some jobId ↔ keyId line = some jobId ∧ 0x23 ∉ line := by
  rw [jobMatch_iff, keyId_iff]
  constructor
  · intro picked
    obtain ⟨tail, matched, blank⟩ := picked
    obtain ⟨_, named, shape⟩ := keyMatch_job.mp matched
    refine ⟨⟨tail, matched, bare_of_isSpace blank⟩, ?_⟩
    rw [shape, List.mem_append, not_or]
    refine ⟨hash_not_mem_jobLine named, fun inside => ?_⟩
    cases List.all_eq_true.mp blank _ inside
  · intro key
    obtain ⟨⟨tail, matched, bare⟩, plain⟩ := key
    refine ⟨tail, matched, isSpace_of_bare bare fun inside => plain ?_⟩
    rw [(keyMatch_job.mp matched).2.2]
    exact List.mem_append_right _ inside

theorem jobMatch_jobLine (key : keyId line = some jobId) : jobMatch (jobLine jobId) = some jobId := by
  obtain ⟨_, matched, _⟩ := keyId_iff.mp key
  obtain ⟨full, named, _⟩ := keyMatch_job.mp matched
  exact jobMatch_iff.mpr ⟨[], keyMatch_job.mpr ⟨full, named, by simp⟩, rfl⟩

theorem jobMatch_of_leaves (leaves : leavesBlock line = true) : jobMatch line = none := by
  apply Option.eq_none_iff_forall_ne_some.mpr
  intro jobId found
  obtain ⟨_, matched, _⟩ := jobMatch_iff.mp found
  rw [(keyMatch_job.mp matched).2.2] at leaves
  simp [leavesBlock, jobLine, startsWith, py] at leaves

end Line

/-! ### The contexts -/

section Contexts

private theorem emitted_step (scan : JobScan) (line : PyStr) :
    (scan.step line).emitted.map Prod.fst = scan.emitted.map Prod.fst ++ (jobMatch line).toList := by
  simp only [JobScan.step]
  split
  · rename_i found
    simp [JobScan.emitted, found]
  · rename_i none
    split
    · rename_i found _
      simp [JobScan.emitted, found, none]
    · simp [none]

private theorem emitted_foldl (lines : List PyStr) (scan : JobScan) :
    (lines.foldl JobScan.step scan).emitted.map Prod.fst =
      scan.emitted.map Prod.fst ++ lines.filterMap jobMatch := by
  induction lines generalizing scan with
  | nil => simp
  | cons line rest ih =>
    rw [List.foldl_cons, ih, emitted_step, List.append_assoc]
    cases found : jobMatch line <;> simp [found]

theorem contexts_ids {text : PyStr} (jobs : py "jobs:" ∈ splitlines text) :
    ∃ contexts, jobContextsFromText text = .ok contexts ∧
      contexts.map Prod.fst = (jobsBlock text).filterMap jobMatch := by
  refine ⟨_, by simp only [jobContextsFromText, linesAfter_splitlines jobs]; rfl, ?_⟩
  exact emitted_foldl _ _

private theorem filterMap_jobMatch_sublist (block : List PyStr) :
    (block.filterMap jobMatch).Sublist (jobKeys block) := by
  induction block with
  | nil => exact List.Sublist.refl _
  | cons line rest ih =>
    cases found : jobMatch line with
    | none =>
      rw [List.filterMap_cons_none found]
      exact ih.trans ((List.sublist_cons_self line rest).filterMap keyId)
    | some jobId =>
      rw [List.filterMap_cons_some found, jobKeys,
        List.filterMap_cons_some (jobMatch_iff_keyId.mp found).1]
      exact ih.cons_cons jobId

/-- The pattern sees all keys of a block exactly when none has a comment. -/
theorem filterMap_jobMatch_iff (block : List PyStr) : block.filterMap jobMatch = jobKeys block ↔
    ∀ line ∈ block, (keyId line).isSome → 0x23 ∉ line := by
  induction block with
  | nil => simp [jobKeys]
  | cons line rest ih =>
    rw [List.forall_mem_cons, ← ih]
    cases key : keyId line with
    | none =>
      have missed : jobMatch line = none := by
        apply Option.eq_none_iff_forall_ne_some.mpr
        intro jobId found
        cases key.symm.trans (jobMatch_iff_keyId.mp found).1
      simp [jobKeys, key, missed]
    | some jobId =>
      by_cases plain : 0x23 ∈ line
      · have missed : jobMatch line = none := by
          apply Option.eq_none_iff_forall_ne_some.mpr
          intro other found
          exact (jobMatch_iff_keyId.mp found).2 plain
        rw [List.filterMap_cons_none missed, jobKeys, List.filterMap_cons_some key]
        refine ⟨fun same => ?_, fun none => absurd plain (none.1 rfl)⟩
        have shorter := (filterMap_jobMatch_sublist rest).length_le
        rw [same, jobKeys, List.length_cons] at shorter
        omega
      · rw [List.filterMap_cons_some (jobMatch_iff_keyId.mpr ⟨key, plain⟩), jobKeys,
          List.filterMap_cons_some key]
        simp [plain, jobKeys]

end Contexts

/-! ### The sections -/

section Sections

variable {block : List PyStr} {text jobId : PyStr}

private theorem single_key (once : (jobKeys block).count jobId = 1) :
    ∃ before key tail, block = before ++ key :: tail ∧ keyId key = some jobId ∧
      (∀ line ∈ before, keyId line ≠ some jobId) ∧ ∀ line ∈ tail, keyId line ≠ some jobId := by
  induction block with
  | nil => cases once
  | cons line rest ih =>
    by_cases key : keyId line = some jobId
    · refine ⟨[], line, rest, rfl, key, by simp, fun other member again => ?_⟩
      rw [jobKeys, List.filterMap_cons_some key, List.count_cons_self] at once
      have later : jobId ∈ rest.filterMap keyId := List.mem_filterMap.mpr ⟨other, member, again⟩
      have positive := List.count_pos_iff.mpr later
      omega
    · have same : (jobKeys (line :: rest)).count jobId = (jobKeys rest).count jobId := by
        cases found : keyId line with
        | none => rw [jobKeys, List.filterMap_cons_none found, jobKeys]
        | some other =>
          rw [jobKeys, List.filterMap_cons_some found, jobKeys, List.count_cons_of_ne]
          exact fun equal => key (equal ▸ found)
      obtain ⟨before, start, tail, split, found, absent, unique⟩ := ih (same.symm.trans once)
      refine ⟨line :: before, start, tail, by rw [split, List.cons_append], found, ?_, unique⟩
      exact List.forall_mem_cons.mpr ⟨key, absent⟩

private theorem dropWhile_split {keep : PyStr → Bool} {before tail : List PyStr} {line : PyStr}
    (passed : ∀ other ∈ before, keep other = true) (stop : keep line = false) :
    (before ++ line :: tail).dropWhile keep = line :: tail := by
  rw [List.dropWhile_append_of_pos passed, List.dropWhile_cons_of_neg (by simp [stop])]

theorem keySection_split {before tail : List PyStr} {key : PyStr} (found : keyId key = some jobId)
    (absent : ∀ line ∈ before, keyId line ≠ some jobId) :
    keySection jobId (before ++ key :: tail) = key :: tail.takeWhile fun line => (keyId line).isNone := by
  have front : (before ++ key :: tail).dropWhile (fun line => keyId line ≠ some jobId) = key :: tail :=
    dropWhile_split (fun line member => by simpa using absent line member) (by simpa using found)
  simp only [keySection, front]

/-- The second reader starts at the first line that is the bare key of the job. -/
theorem section_split {before tail : List PyStr} (jobs : py "jobs:" ∈ splitlines text)
    (below : belowJobs text = before ++ jobLine jobId :: tail) (absent : jobLine jobId ∉ before) :
    jobSectionFromText text jobId =
      .ok (joinLines (jobLine jobId :: tail.takeWhile fun line => (jobMatch line).isNone)) := by
  have front : (belowJobs text).dropWhile (· ≠ jobLine jobId) = jobLine jobId :: tail := by
    rw [below]
    refine dropWhile_split (fun line member => decide_eq_true ?_) (by simp)
    exact fun same => absent (same ▸ member)
  simp only [jobSectionFromText, linesAfter_splitlines jobs, bind, Except.bind]
  rw [← belowJobs, front]
  rfl

/-- The second reader finds nothing where the bare key of the job is nowhere below `jobs:`. -/
theorem bare_of_section {found : PyStr} (jobs : py "jobs:" ∈ splitlines text)
    (read : jobSectionFromText text jobId = .ok found) : jobLine jobId ∈ belowJobs text := by
  by_contra absent
  have none : (belowJobs text).dropWhile (· ≠ jobLine jobId) = [] := by
    rw [List.dropWhile_eq_nil_iff]
    exact fun line member => decide_eq_true fun same => absent (same ▸ member)
  simp only [jobSectionFromText, linesAfter_splitlines jobs, bind, Except.bind] at read
  rw [← belowJobs, none] at read
  cases read

private theorem jobKeys_split {before tail : List PyStr} {key : PyStr} (found : keyId key = some jobId) :
    jobKeys (before ++ key :: tail) = jobKeys before ++ jobId :: jobKeys tail := by
  rw [jobKeys, List.filterMap_append, List.filterMap_cons_some found, jobKeys, jobKeys]

private theorem no_key_after_last {before tail : List PyStr} {key : PyStr} (found : keyId key = some jobId)
    (unique : ∀ line ∈ tail, keyId line ≠ some jobId) :
    (jobKeys (before ++ key :: tail)).getLast? = some jobId ↔ ∀ line ∈ tail, keyId line = none := by
  have nil_iff : jobKeys tail = [] ↔ ∀ line ∈ tail, keyId line = none := List.filterMap_eq_nil_iff
  rw [jobKeys_split found, List.getLast?_append, ← nil_iff]
  cases keys : jobKeys tail with
  | nil => simp
  | cons other later =>
    simp only [reduceCtorEq, iff_false]
    intro last
    have member : jobId ∈ jobKeys tail := by
      rw [keys]
      apply List.mem_of_getLast?
      simpa [List.getLast?_cons] using last
    obtain ⟨line, inside, again⟩ := List.mem_filterMap.mp member
    exact unique line inside again

end Sections

/-! ### Agreement -/

section Agreement

variable {text jobId : PyStr}

private theorem block_split (text : PyStr) :
    ∃ rest, belowJobs text = jobsBlock text ++ rest ∧ ∀ line ∈ rest.head?, leavesBlock line = true := by
  refine ⟨(belowJobs text).dropWhile fun line => !leavesBlock line,
    List.takeWhile_append_dropWhile.symm, fun line first => ?_⟩
  have outside := List.head?_dropWhile_not (fun line => !leavesBlock line) (belowJobs text)
  rw [Option.mem_def.mp first] at outside
  simpa using outside

private theorem newline_not_mem_below {line : PyStr} (member : line ∈ belowJobs text) : 0x0a ∉ line :=
  newline_not_mem ((List.dropWhile_sublist _).mem (List.mem_of_mem_tail member))

private theorem section_inj {first other : PyStr} {lines others : List PyStr} (keep keepToo : PyStr → Bool)
    (inside : ∀ line ∈ first :: lines, line ∈ belowJobs text)
    (insideToo : ∀ line ∈ other :: others, line ∈ belowJobs text) :
    joinLines (first :: lines.takeWhile keep) = joinLines (other :: others.takeWhile keepToo) ↔
      first = other ∧ lines.takeWhile keep = others.takeWhile keepToo := by
  have clean {keep : PyStr → Bool} {first : PyStr} {lines : List PyStr}
      (inside : ∀ line ∈ first :: lines, line ∈ belowJobs text) :
      ∀ line ∈ first :: lines.takeWhile keep, 0x0a ∉ line := by
    intro line member
    apply newline_not_mem_below
    apply inside
    exact ((List.takeWhile_sublist keep).cons_cons first).mem member
  rw [joinLines_inj (clean inside) (clean insideToo) (List.cons_ne_nil _ _) (List.cons_ne_nil _ _),
    List.cons.injEq]

private theorem section_agrees_iff (jobs : py "jobs:" ∈ splitlines text)
    {before tail rest : List PyStr} {key : PyStr} (below : belowJobs text = before ++ key :: (tail ++ rest))
    (found : keyId key = some jobId) (absent : ∀ line ∈ before, keyId line ≠ some jobId) :
    jobSectionFromText text jobId = .ok (joinLines (key :: tail.takeWhile fun line => (keyId line).isNone)) ↔
      key = jobLine jobId ∧ ((tail ++ rest).takeWhile fun line => (jobMatch line).isNone) =
        tail.takeWhile fun line => (keyId line).isNone := by
  have expected : ∀ line ∈ key :: tail, line ∈ belowJobs text := by
    rw [below]
    intro line member
    rcases List.mem_cons.mp member with same | later
    · simp [same]
    · simp [later]
  constructor
  · intro read
    have same : key = jobLine jobId := by
      obtain ⟨front, later, split, first⟩ := List.eq_append_cons_of_mem (bare_of_section jobs read)
      rw [section_split jobs split first, Except.ok.injEq,
        section_inj _ _ (by simp +contextual [split]) expected] at read
      exact read.1.symm
    subst same
    have first : jobLine jobId ∉ before := fun member => absent _ member found
    rw [section_split jobs below first, Except.ok.injEq,
      section_inj _ _ (by simp +contextual [below]) expected] at read
    exact read
  · intro agrees
    obtain ⟨same, tails⟩ := agrees
    subst same
    have first : jobLine jobId ∉ before := fun member => absent _ member found
    rw [section_split jobs below first, tails]

private theorem takeWhile_jobMatch {tail : List PyStr}
    (uncommented : ∀ line ∈ tail, (keyId line).isSome → 0x23 ∉ line) :
    (tail.takeWhile fun line => (jobMatch line).isNone) = tail.takeWhile fun line => (keyId line).isNone := by
  induction tail with
  | nil => rfl
  | cons line later ih =>
    obtain ⟨plain, others⟩ := List.forall_mem_cons.mp uncommented
    have same : jobMatch line = keyId line := by
      apply Option.ext
      intro jobId
      rw [jobMatch_iff_keyId]
      exact and_iff_left_of_imp fun key => plain (by simp [key])
    rw [List.takeWhile_cons, List.takeWhile_cons, same, ih others]

private theorem takeWhile_section_iff {tail rest : List PyStr}
    (uncommented : ∀ line ∈ tail, (keyId line).isSome → 0x23 ∉ line)
    (outside : ∀ line ∈ rest.head?, leavesBlock line = true) :
    ((tail ++ rest).takeWhile fun line => (jobMatch line).isNone) =
        (tail.takeWhile fun line => (keyId line).isNone) ↔
      ((∀ line ∈ tail, keyId line = none) → rest = []) := by
  rw [List.takeWhile_append, takeWhile_jobMatch uncommented]
  by_cases free : ∀ line ∈ tail, keyId line = none
  · have whole : (tail.takeWhile fun line => (keyId line).isNone) = tail :=
      List.takeWhile_eq_self_iff.mpr fun line member => by simp [free line member]
    rw [whole, if_pos rfl, List.append_right_eq_self]
    refine ⟨fun empty _ => ?_, fun none => by simp [none free]⟩
    cases rest with
    | nil => rfl
    | cons line later =>
      rw [List.takeWhile_cons, jobMatch_of_leaves (outside line rfl)] at empty
      cases empty
  · rw [if_neg]
    · simp [free]
    · intro length
      apply free
      intro line member
      have whole := (List.takeWhile_prefix fun line => (keyId line).isNone).eq_of_length length
      rw [← whole] at member
      simpa using List.mem_takeWhile_imp member

private theorem single_section_iff (jobs : py "jobs:" ∈ splitlines text)
    (uncommented : ∀ line ∈ jobsBlock text, (keyId line).isSome → 0x23 ∉ line)
    (once : (jobKeys (jobsBlock text)).count jobId = 1) :
    jobSectionFromText text jobId = .ok (joinLines (keySection jobId (jobsBlock text))) ↔
      jobLine jobId ∈ jobsBlock text ∧
        ((jobKeys (jobsBlock text)).getLast? = some jobId → jobsBlock text = belowJobs text) := by
  obtain ⟨rest, below, outside⟩ := block_split text
  obtain ⟨before, key, tail, split, found, absent, unique⟩ := single_key once
  have ends : jobsBlock text = belowJobs text ↔ rest = [] := by
    rw [below, List.self_eq_append_right]
  have bare : jobLine jobId ∈ jobsBlock text ↔ key = jobLine jobId := by
    have named := (jobMatch_iff_keyId.mp (jobMatch_jobLine found)).1
    rw [split, List.mem_append, List.mem_cons]
    constructor
    · intro member
      rcases member with earlier | here | later
      · exact absurd named (absent _ earlier)
      · exact here.symm
      · exact absurd named (unique _ later)
    · exact fun same => .inr (.inl same.symm)
  rw [ends, bare]
  rw [split] at below uncommented ⊢
  rw [keySection_split found absent, no_key_after_last found unique,
    section_agrees_iff jobs (by rw [below, List.append_assoc, List.cons_append]) found absent,
    takeWhile_section_iff (fun line member => uncommented line (by simp [member])) outside]

end Agreement

/-- The two readers agree with the keys of the block, and with one another, exactly when the
key lines are plain. -/
theorem inventory_agrees_iff (text : PyStr) (jobs : py "jobs:" ∈ splitlines text) :
    InventoryAgrees text ↔ PlainKeys text := by
  obtain ⟨contexts, read, seen⟩ := contexts_ids jobs
  constructor
  · intro agrees
    obtain ⟨_, again, ids⟩ := agrees.contexts
    cases read.symm.trans again
    have uncommented := (filterMap_jobMatch_iff _).mp (seen.symm.trans ids)
    refine ⟨uncommented, fun jobId once => ?_, fun jobId last once => ?_⟩
    · exact ((single_section_iff jobs uncommented once).mp (agrees.sections jobId once)).1
    · exact ((single_section_iff jobs uncommented once).mp (agrees.sections jobId once)).2 last
  · intro plain
    refine ⟨⟨contexts, read, seen.trans ((filterMap_jobMatch_iff _).mpr plain.uncommented)⟩, ?_⟩
    intro jobId once
    apply (single_section_iff jobs plain.uncommented once).mpr
    exact ⟨plain.exact jobId once, fun last => plain.last jobId last once⟩

/-- A job whose key line carries a comment is seen by neither reader. -/
theorem commented_job_is_missed :
    let text := joinLines [py "jobs:", py "  build: # main"]
    py "jobs:" ∈ splitlines text ∧ ¬ InventoryAgrees text := by
  intro text
  refine ⟨by decide, fun agrees => ?_⟩
  obtain ⟨contexts, read, ids⟩ := agrees.contexts
  have none : jobContextsFromText text = .ok [] := by decide
  cases read.symm.trans none
  revert ids
  decide

theorem plain_jobs_are_found :
    let text := joinLines [py "name: CI", py "jobs:", py "  build:", py "    name: Build", py "  lint:"]
    InventoryAgrees text := by
  intro text
  have keys : jobKeys (jobsBlock text) = [py "build", py "lint"] := by decide
  apply (inventory_agrees_iff text (by decide)).mpr
  refine ⟨by decide, fun jobId once => ?_, fun _ _ _ => by decide⟩
  have member : jobId ∈ [py "build", py "lint"] := by
    rw [← keys]
    exact List.count_pos_iff.mp (by omega)
  simp only [List.mem_cons, List.not_mem_nil, or_false] at member
  rcases member with same | same
  · rw [same]
    decide
  · rw [same]
    decide

end Charybdis.Policy
