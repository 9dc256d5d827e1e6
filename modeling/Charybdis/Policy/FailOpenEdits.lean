import Charybdis.Policy.TriggerContract
import Charybdis.Policy.JobInventory

/-! Lines that make a required job or one of its steps fail open, inserted into a text that
was accepted: where they can go, and that each of them is reported. -/

namespace Charybdis.Policy

open Foundation
open Stub (PyStr py)

/-- The section of a job in a text: the first bare key line below `jobs:` and the lines up to
the next key, with what is above and below. -/
structure SectionAt (text jobId : PyStr) (above inside below : List PyStr) : Prop where
  lines : splitlines text = above ++ jobLine jobId :: (inside ++ below)
  heading : ∃ top rest, above = top ++ py "jobs:" :: rest ∧ py "jobs:" ∉ top ∧ jobLine jobId ∉ rest
  plain : ∀ line ∈ inside, jobMatch line = none
  next : ∀ line ∈ below.head?, (jobMatch line).isSome

/-- `^      - `: the line starts a step. One whose dash stands alone on its line is none. -/
def startsStep (line : PyStr) : Bool := startsWith (py "      - ") line

/-- The step that starts at a line of a section, up to the next such line. -/
def stepText (first : PyStr) (lower : List PyStr) : PyStr :=
  joinLines (first :: lower.takeWhile fun line => !startsStep line)

/-- The keys that let a job pass without its validator. -/
def failOpenFields : List PyStr := [py "needs", py "if", py "continue-on-error"]

/-- The check ends, and reports something. -/
def Caught (quoting : Quoting) (text : PyStr) (names : List PyStr) : Prop :=
  ∃ violations, requiredGraphViolations quoting text names = .ok violations ∧ violations ≠ []

/-! ### Sections -/

section Sections

variable {text edited jobId line : PyStr} {above inside upper lower below : List PyStr}

theorem SectionAt.jobs (place : SectionAt text jobId above inside below) : py "jobs:" ∈ splitlines text := by
  obtain ⟨top, rest, split, _⟩ := place.heading
  simp [place.lines, split]

private theorem linesBelow_split {heading : PyStr} {top rest : List PyStr}
    (lines : splitlines text = top ++ heading :: rest) (absent : heading ∉ top) :
    linesBelow heading text = rest := by
  have passed : ∀ line ∈ top, decide (line ≠ heading) = true :=
    fun line member => decide_eq_true fun same => absent (same ▸ member)
  rw [linesBelow, lines, List.dropWhile_append_of_pos passed, List.dropWhile_cons_of_neg (by simp)]
  rfl

theorem SectionAt.belowJobs (place : SectionAt text jobId above inside below) :
    ∃ rest, belowJobs text = rest ++ jobLine jobId :: (inside ++ below) ∧ jobLine jobId ∉ rest := by
  obtain ⟨top, rest, split, first, absent⟩ := place.heading
  refine ⟨rest, linesBelow_split ?_ first, absent⟩
  rw [place.lines, split]
  simp

theorem SectionAt.read (place : SectionAt text jobId above inside below) :
    jobSectionFromText text jobId = .ok (joinLines (jobLine jobId :: inside)) := by
  obtain ⟨rest, split, absent⟩ := place.belowJobs
  have kept : ∀ line ∈ inside, (jobMatch line).isNone = true :=
    fun line member => by simp [place.plain line member]
  have stopped : below.takeWhile (fun line => (jobMatch line).isNone) = [] := by
    cases below with
    | nil => rfl
    | cons next _ => simp [Option.isSome_iff_ne_none.mp (place.next next rfl)]
  rw [section_split place.jobs split absent, List.takeWhile_append_of_pos kept, stopped, List.append_nil]

/-- A job whose key is below `jobs:` has a section. -/
theorem sectionAt_of_mem (jobs : py "jobs:" ∈ splitlines text) (key : jobLine jobId ∈ belowJobs text) :
    ∃ above inside below, SectionAt text jobId above inside below := by
  obtain ⟨top, rest, lines, first⟩ := List.eq_append_cons_of_mem jobs
  rw [Policy.belowJobs, linesBelow_split lines first] at key
  obtain ⟨before, tail, split, absent⟩ := List.eq_append_cons_of_mem key
  refine ⟨top ++ py "jobs:" :: before, tail.takeWhile fun line => (jobMatch line).isNone,
    tail.dropWhile fun line => (jobMatch line).isNone, ?_, ⟨top, before, rfl, first, absent⟩, ?_, ?_⟩
  · rw [lines, split, List.takeWhile_append_dropWhile]
    simp
  · intro line member
    simpa using List.mem_takeWhile_imp member
  · intro line head
    have stopped := List.head?_dropWhile_not (fun line => (jobMatch line).isNone) tail
    rw [Option.mem_def.mp head] at stopped
    simpa [Option.isSome_iff_ne_none] using stopped

/-- A line that is no job key, inserted below the key line, is a line of the section. -/
theorem SectionAt.insert (place : SectionAt text jobId above (upper ++ lower) below)
    (noKey : jobMatch line = none)
    (inserted : splitlines edited = above ++ jobLine jobId :: (upper ++ line :: lower ++ below)) :
    SectionAt edited jobId above (upper ++ line :: lower) below where
  lines := inserted
  heading := place.heading
  plain := by
    intro other member
    have cases : other = line ∨ other ∈ upper ++ lower := by
      simp only [List.mem_append, List.mem_cons] at member ⊢
      tauto
    rcases cases with same | inside
    · rw [same]
      exact noKey
    · exact place.plain other inside
  next := place.next

end Sections

/-! ### The inserted line moves nothing -/

section Presence

variable {text edited jobId line : PyStr} {above upper lower below : List PyStr}

/-- The edited text has the lines of the text and one more, in the section of a job. -/
private structure Edited (text edited jobId line : PyStr) (above upper lower below : List PyStr) : Prop where
  place : SectionAt text jobId above (upper ++ lower) below
  lines : splitlines edited = above ++ jobLine jobId :: (upper ++ line :: lower ++ below)
  noKey : jobMatch line = none
  stays : leavesBlock line = false

private theorem Edited.section (edit : Edited text edited jobId line above upper lower below) :
    SectionAt edited jobId above (upper ++ line :: lower) below :=
  edit.place.insert edit.noKey edit.lines

private theorem Edited.mem (edit : Edited text edited jobId line above upper lower below) {other : PyStr}
    (member : other ∈ splitlines text) : other ∈ splitlines edited := by
  rw [edit.place.lines] at member
  rw [edit.lines]
  simp only [List.mem_append, List.mem_cons] at member ⊢
  tauto

private theorem Edited.belowJobs (edit : Edited text edited jobId line above upper lower below) :
    ∃ before after, Policy.belowJobs text = before ++ after ∧
      Policy.belowJobs edited = before ++ line :: after := by
  obtain ⟨top, rest, shape, first, _⟩ := edit.place.heading
  refine ⟨rest ++ jobLine jobId :: upper, lower ++ below, ?_, ?_⟩
  · refine linesBelow_split ?_ first
    rw [edit.place.lines, shape]
    simp
  · refine linesBelow_split ?_ first
    rw [edit.lines, shape]
    simp

private theorem filterMap_block (before after : List PyStr) (noKey : jobMatch line = none)
    (stays : leavesBlock line = false) :
    (blockLines (before ++ line :: after)).filterMap jobMatch = (blockLines (before ++ after)).filterMap jobMatch := by
  induction before with
  | nil => simp [blockLines, stays, noKey]
  | cons first rest ih =>
    by_cases leaves : leavesBlock first = true
    · simp [blockLines, leaves]
    · simp only [blockLines, List.cons_append, leaves, Bool.not_false, List.takeWhile_cons_of_pos] at ih ⊢
      cases key : jobMatch first with
      | none => rw [List.filterMap_cons_none key, List.filterMap_cons_none key, ih]
      | some found => rw [List.filterMap_cons_some key, List.filterMap_cons_some key, ih]

private theorem Edited.ids (edit : Edited text edited jobId line above upper lower below) :
    (jobsBlock edited).filterMap jobMatch = (jobsBlock text).filterMap jobMatch := by
  obtain ⟨before, after, split, split'⟩ := edit.belowJobs
  rw [jobsBlock, jobsBlock, split, split']
  exact filterMap_block before after edit.noKey edit.stays

end Presence

/-! ### The check raises nothing -/

section Check

variable {quoting : Quoting} {text edited jobId line : PyStr} {names : List PyStr}

private theorem bind_total {α β : Type} {first : Except PolicyError α} {next : α → Except PolicyError β}
    (start : ∃ value, first = .ok value) (rest : ∀ value, first = .ok value → ∃ last, next value = .ok last) :
    ∃ last, (first >>= next) = .ok last := by
  obtain ⟨value, done⟩ := start
  obtain ⟨last, ended⟩ := rest value done
  exact ⟨last, by rw [done]; exact ended⟩

private theorem mapM_ok {α β : Type} {act : α → Except PolicyError β} {list : List α}
    (each : ∀ item ∈ list, ∃ value, act item = .ok value) : ∃ values, list.mapM act = .ok values := by
  induction list with
  | nil => exact ⟨[], rfl⟩
  | cons item rest ih =>
    obtain ⟨value, done⟩ := each item List.mem_cons_self
    obtain ⟨values, others⟩ := ih fun other member => each other (List.mem_cons_of_mem _ member)
    exact ⟨value :: values, by rw [List.mapM_cons, done, others]; rfl⟩

private theorem mem_of_mapM {α β : Type} {act : α → Except PolicyError β} {list : List α} {values : List β}
    {item : α} (done : list.mapM act = .ok values) (member : item ∈ list) :
    ∃ value ∈ values, act item = .ok value := by
  induction list generalizing values with
  | nil => cases member
  | cons first rest ih =>
    rw [List.mapM_cons] at done
    obtain ⟨value, own, done⟩ := ok_of_bind done
    obtain ⟨others, later, same⟩ := ok_of_bind done
    cases same
    rcases List.mem_cons.mp member with same | inside
    · exact ⟨value, List.mem_cons_self, same ▸ own⟩
    · obtain ⟨found, present, reads⟩ := ih later inside
      exact ⟨found, List.mem_cons_of_mem _ present, reads⟩

private theorem inlineList_bracketed {value : PyStr} (opens : value.head? = some 0x5b)
    (long : 2 ≤ value.length) (closes : value.getLast? = some 0x5d) : ∃ items, inlineList value = .ok items := by
  cases value with
  | nil => cases opens
  | cons first inside =>
    cases opens
    have full : inside ≠ [] := by
      intro empty
      simp [empty] at long
    rw [List.getLast?_cons, List.getLast?_eq_some_getLast full] at closes
    have last : inside.getLast full = 0x5d := by simpa using closes
    have whole : strip (0x5b :: inside) = 0x5b :: inside := by
      have left : lstrip (0x5b :: inside) = 0x5b :: inside := by simp [lstrip, isSpace]
      rw [strip, left, rstrip, List.rdropWhile_eq_self_iff]
      intro nonempty
      rw [List.getLast_cons full, last]
      decide
    have closed : inside.getLast? = some 0x5d := by rw [List.getLast?_eq_some_getLast full, last]
    exact ⟨_, by simp only [inlineList, whole, closed, if_true]; rfl⟩

private theorem settingMatch_bracketed {name value : PyStr} (found : settingMatch line = some (name, value)) :
    value.head? = some 0x5b ∧ 2 ≤ value.length ∧ value.getLast? = some 0x5d := by
  unfold settingMatch at found
  split at found
  · simp only at found
    split at found
    · rename_i shape
      cases found
      exact shape.2
    · cases found
  · cases found

/-- The reader of triggers raises only where `on:` is missing. -/
theorem triggersFromText_total (on : py "on:" ∈ splitlines text) :
    ∃ triggers, triggersFromText text = .ok triggers := by
  have step (scan : TriggerScan) (line : PyStr) : ∃ next, scan.step line = .ok next := by
    unfold TriggerScan.step
    split
    · exact ⟨_, rfl⟩
    · split
      · rename_i name value event found _
        obtain ⟨opens, long, closes⟩ := settingMatch_bracketed found
        obtain ⟨items, read⟩ := inlineList_bracketed opens long closes
        exact ⟨_, by rw [read]; rfl⟩
      · exact ⟨_, rfl⟩
  have scan (lines : List PyStr) (start : TriggerScan) : ∃ last, lines.foldlM TriggerScan.step start = .ok last := by
    induction lines generalizing start with
    | nil => exact ⟨start, rfl⟩
    | cons line rest ih =>
      obtain ⟨next, stepped⟩ := step start line
      obtain ⟨last, scanned⟩ := ih next
      exact ⟨last, by rw [List.foldlM_cons, stepped]; exact scanned⟩
  obtain ⟨last, scanned⟩ := scan (blockLines (linesBelow (py "on:") text)) {}
  exact ⟨last.events, by simp only [triggersFromText, linesAfter_splitlines on, bind, Except.bind, scanned]; rfl⟩

private theorem mem_sorted {found : List PyStr} : jobId ∈ sorted found ↔ jobId ∈ found :=
  (List.perm_insertionSort (· ≤ ·) found).mem_iff

private theorem validator_known : ∀ jobId ∈ expectedRequiredJobIds,
    (expectedRequiredValidators.lookup jobId).isSome = true := by
  decide +kernel

private theorem expected_ids {contexts : List (PyStr × PyStr)} :
    jobId ∈ sorted (expectedRequiredJobIds.filter (· ∈ (contexts.map Prod.fst).dedup)) ↔
      jobId ∈ expectedRequiredJobIds ∧ jobId ∈ contexts.map Prod.fst := by
  rw [mem_sorted, List.mem_filter, decide_eq_true_eq, List.mem_dedup]

/-- The check raises nothing where it finds the headings and the keys of the expected jobs. -/
theorem requiredGraphViolations_total (quoting : Quoting) (names : List PyStr)
    (on : py "on:" ∈ splitlines text) (concurrency : py "concurrency:" ∈ splitlines text)
    (jobs : py "jobs:" ∈ splitlines text)
    (keys : ∀ jobId ∈ expectedRequiredJobIds, jobLine jobId ∈ belowJobs text) :
    ∃ violations, requiredGraphViolations quoting text names = .ok violations := by
  unfold requiredGraphViolations
  apply bind_total (triggersFromText_total on)
  intro triggers _
  apply bind_total ⟨_, by rw [topLevelBlock]; exact congrArg (· >>= _) (linesAfter_splitlines concurrency)⟩
  intro block _
  apply bind_total
  · obtain ⟨contexts, read, _⟩ := contexts_ids jobs
    exact ⟨contexts, read⟩
  intro contexts _
  apply bind_total
  · apply mapM_ok
    intro jobId member
    have expected := (expected_ids.mp member).1
    obtain ⟨_, _, _, place⟩ := sectionAt_of_mem jobs (keys jobId expected)
    split
    · exact ⟨_, rfl⟩
    · exact bind_total ⟨_, place.read⟩ fun _ _ => ⟨_, rfl⟩
  · exact fun _ _ => ⟨_, rfl⟩

/-- What an accepted text has: the headings, and every expected job with a section in which
nothing is reported. -/
structure Accepted (text : PyStr) : Prop where
  on : py "on:" ∈ splitlines text
  concurrency : py "concurrency:" ∈ splitlines text
  jobs : py "jobs:" ∈ splitlines text
  seen : ∀ jobId ∈ expectedRequiredJobIds, jobId ∈ (jobsBlock text).filterMap jobMatch
  silent : ∀ jobId ∈ expectedRequiredJobIds, jobId ∈ (jobsBlock text).filterMap jobMatch →
    ∃ jobSection validatorName expectedCommands, jobSectionFromText text jobId = .ok jobSection ∧
      jobViolations jobId validatorName expectedCommands jobSection = []

theorem accepted_of_ok (accepted : requiredGraphViolations quoting text names = .ok []) : Accepted text := by
  obtain ⟨triggers, read, accepted⟩ := ok_of_bind accepted
  obtain ⟨concurrency, block, accepted⟩ := ok_of_bind accepted
  obtain ⟨contexts, scanned, accepted⟩ := ok_of_bind accepted
  obtain ⟨jobs, checked, accepted⟩ := ok_of_bind accepted
  obtain ⟨_, on, _⟩ := ok_of_bind read
  obtain ⟨_, concurrencyLine, _⟩ := ok_of_bind block
  obtain ⟨_, jobsLine, _⟩ := ok_of_bind scanned
  have heading := (linesAfter_ok jobsLine).1
  obtain ⟨contexts', scanned', ids⟩ := contexts_ids heading
  cases scanned.symm.trans scanned'
  have none := Except.ok.inj accepted
  simp only [List.append_eq_nil_iff, inventoryViolations, List.flatten_eq_nil_iff] at none
  obtain ⟨⟨⟨⟨_, missing, _⟩, _⟩, quiet⟩, _⟩ := none
  refine ⟨(linesAfter_ok on).1, (linesAfter_ok concurrencyLine).1, heading, ?_, ?_⟩
  · intro jobId expected
    by_contra absent
    have lost : jobId ∈ expectedRequiredJobIds.filter (· ∉ (contexts.map Prod.fst).dedup) := by
      rw [List.mem_filter, decide_eq_true_eq, List.mem_dedup, ids]
      exact ⟨expected, absent⟩
    rw [violationIf, if_pos] at missing
    · cases missing
    · simp only [Bool.not_eq_true', List.isEmpty_eq_false_iff]
      exact List.ne_nil_of_mem lost
  · intro jobId expected seen
    obtain ⟨violations, member, read⟩ := mem_of_mapM checked (expected_ids.mpr ⟨expected, ids ▸ seen⟩)
    obtain ⟨⟨validatorName, expectedCommands⟩, known⟩ :=
      Option.isSome_iff_exists.mp (validator_known jobId expected)
    rw [known] at read
    obtain ⟨jobSection, found, same⟩ := ok_of_bind read
    refine ⟨jobSection, validatorName, expectedCommands, found, ?_⟩
    rw [← quiet violations member]
    exact Except.ok.inj same

end Check

/-! ### Insertions -/

section Insertions

variable {quoting : Quoting} {text edited jobId line : PyStr} {names above upper lower below : List PyStr}

private theorem Edited.caught (edit : Edited text edited jobId line above upper lower below)
    (accepted : Accepted text) (expected : jobId ∈ expectedRequiredJobIds)
    (reported : ∀ validatorName expectedCommands, jobViolations jobId validatorName expectedCommands
      (joinLines (jobLine jobId :: (upper ++ line :: lower))) ≠ []) : Caught quoting edited names := by
  have keys : ∀ other ∈ expectedRequiredJobIds, jobLine other ∈ Policy.belowJobs edited := by
    intro other known
    obtain ⟨_, _, _, read, _⟩ := accepted.silent other known (accepted.seen other known)
    have key := bare_of_section accepted.jobs read
    obtain ⟨before, after, split, split'⟩ := edit.belowJobs
    rw [split, List.mem_append] at key
    rw [split', List.mem_append, List.mem_cons]
    exact key.imp_right .inr
  obtain ⟨violations, checked⟩ := requiredGraphViolations_total quoting names (edit.mem accepted.on)
    (edit.mem accepted.concurrency) (edit.mem accepted.jobs) keys
  refine ⟨violations, checked, fun none => ?_⟩
  rw [none] at checked
  obtain ⟨jobSection, validatorName, expectedCommands, read, quiet⟩ :=
    (accepted_of_ok checked).silent jobId expected (edit.ids ▸ accepted.seen jobId expected)
  cases edit.section.read.symm.trans read
  exact reported validatorName expectedCommands quiet

private theorem Edited.clean (edit : Edited text edited jobId line above upper lower below) :
    ∀ other ∈ jobLine jobId :: (upper ++ line :: lower), ∀ point ∈ other, isLineBreak point = false := by
  intro other member
  have inside : other ∈ splitlines edited := by
    rw [edit.section.lines]
    simp only [List.mem_append, List.mem_cons] at member ⊢
    tauto
  exact splitlines_unbroken inside

private theorem hasLine_of_mem {start : PyStr} {lines : List PyStr}
    (clean : ∀ other ∈ lines, ∀ point ∈ other, isLineBreak point = false) (member : line ∈ lines)
    (starts : startsWith start line = true) : hasLine start (joinLines lines) = true := by
  have unbroken : ∀ other ∈ lines, 0x0a ∉ other := by
    intro other present inside
    cases clean other present _ inside
  rw [hasLine, split_joinLines unbroken (List.ne_nil_of_mem member)]
  exact List.any_eq_true.mpr ⟨line, member, starts⟩

private theorem jobViolations_of_field {field jobSection validatorName : PyStr} {expectedCommands : List PyStr}
    (known : field ∈ failOpenFields) (found : hasLine (py "    " ++ field ++ [0x3a]) jobSection = true) :
    jobViolations jobId validatorName expectedCommands jobSection ≠ [] := by
  intro none
  simp only [jobViolations, List.append_eq_nil_iff] at none
  obtain ⟨⟨⟨⟨⟨needs, condition⟩, lenient⟩, _⟩, _⟩, _⟩ := none
  simp only [failOpenFields, List.mem_cons, List.not_mem_nil, or_false] at known
  rcases known with same | same | same
  · rw [same, show py "    " ++ py "needs" ++ [0x3a] = py "    needs:" by decide, violationIf_nil needs] at found
    cases found
  · rw [same, show py "    " ++ py "if" ++ [0x3a] = py "    if:" by decide, violationIf_nil condition] at found
    cases found
  · rw [same, show py "    " ++ py "continue-on-error" ++ [0x3a] = py "    continue-on-error:" by decide,
      violationIf_nil lenient] at found
    cases found

private theorem indented_line (rest : PyStr) :
    jobMatch (py "    " ++ rest) = none ∧ leavesBlock (py "    " ++ rest) = false := by
  refine ⟨?_, by simp [leavesBlock, startsWith, py]⟩
  apply Option.eq_none_iff_forall_ne_some.mpr
  intro jobId found
  obtain ⟨_, matched, _⟩ := jobMatch_iff.mp found
  obtain ⟨full, named, shape⟩ := (keyMatch_iff rfl).mp matched
  cases jobId with
  | nil => exact full rfl
  | cons first later =>
    have blank : 0x20 = first := by
      have third := congrArg (·[2]?) shape
      simpa [py] using third
    have letter := named first List.mem_cons_self
    rw [← blank] at letter
    cases letter

end Insertions

/-! ### Steps -/

section Steps

variable {text edited jobId line first field value : PyStr} {lower rest : List PyStr}

/-- The value of a field on a line of a step, `^<indent><field>:\s*(.*?)\s*$`. -/
def fieldValue (indent field line : PyStr) : Option PyStr :=
  (line.dropPrefix? (indent ++ field ++ [0x3a])).map strip

theorem fieldValue_line (indent field value : PyStr) :
    fieldValue indent field (indent ++ field ++ 0x3a :: value) = some (strip value) := by
  have rest : (indent ++ field ++ 0x3a :: value).dropPrefix? (indent ++ field ++ [0x3a]) = some value :=
    dropPrefix?_iff.mpr (by simp)
  rw [fieldValue, rest]
  rfl

private theorem fieldValue_nil (indent field : PyStr) : fieldValue indent field [] = none := by
  rw [fieldValue, Option.map_eq_none_iff, Option.eq_none_iff_forall_ne_some]
  intro tail found
  simpa using dropPrefix?_iff.mp found

private theorem findSome?_trimmed {read : PyStr → Option PyStr} (keep : PyStr → Bool) (blank : read [] = none)
    (kept : keep [] = true) (lines : List PyStr) :
    ((trimmed lines).takeWhile keep).findSome? read = (lines.takeWhile keep).findSome? read := by
  induction lines with
  | nil => rfl
  | cons line rest ih =>
    cases rest with
    | nil =>
      cases line with
      | nil => simp [trimmed, kept, blank]
      | cons point line => rfl
    | cons next rest =>
      rw [show trimmed (line :: next :: rest) = line :: trimmed (next :: rest) from rfl]
      by_cases stays : keep line = true
      · rw [List.takeWhile_cons_of_pos stays, List.takeWhile_cons_of_pos stays, List.findSome?_cons,
          List.findSome?_cons, ih]
      · rw [List.takeWhile_cons_of_neg stays, List.takeWhile_cons_of_neg stays]

private theorem findSome?_zipIdx (read : PyStr → Option PyStr) (lines : List PyStr) (start : Nat) :
    ((lines.zipIdx start).findSome? fun entry => (read entry.1).map fun found => (entry.2, found)).map Prod.snd =
      lines.findSome? read := by
  induction lines generalizing start with
  | nil => rfl
  | cons line rest ih =>
    rw [List.zipIdx_cons, List.findSome?_cons, List.findSome?_cons]
    cases read line with
    | none => exact ih (start + 1)
    | some found => rfl

/-- The field of a step is on its first line, behind the dash, or on the first line below
that has it. -/
theorem stepField_value (full : first ≠ [])
    (clean : ∀ other ∈ first :: rest, ∀ point ∈ other, isLineBreak point = false) :
    (stepField (joinLines (first :: rest)) field).map Prod.snd =
      (fieldValue (py "      - ") field first).or (rest.findSome? (fieldValue (py "        ") field)) := by
  have lines : splitlines (joinLines (first :: rest)) = first :: trimmed rest := by
    rw [splitlines_joinLines clean]
    exact trimmed_append_cons full [] rest
  have below := findSome?_trimmed (fun _ => true) (fieldValue_nil (py "        ") field) rfl rest
  have all (lines : List PyStr) : lines.takeWhile (fun _ => true) = lines :=
    List.takeWhile_eq_self_iff.mpr fun _ _ => rfl
  rw [all, all] at below
  unfold stepField
  simp only [lines, List.head?_cons, Option.bind_some, List.zipIdx_cons, List.drop_succ_cons, List.drop_zero]
  rw [← below]
  unfold fieldValue
  cases found : (first.dropPrefix? (py "      - " ++ field ++ [0x3a])).map strip with
  | some value => rfl
  | none => exact findSome?_zipIdx (fieldValue (py "        ") field) _ _

private theorem stepIdentity_congr {others : List PyStr} (full : first ≠ [])
    (clean : ∀ other ∈ first :: rest, ∀ point ∈ other, isLineBreak point = false)
    (cleanToo : ∀ other ∈ first :: others, ∀ point ∈ other, isLineBreak point = false)
    (same : rest.findSome? (fieldValue (py "        ") (py "name")) =
      others.findSome? (fieldValue (py "        ") (py "name"))) :
    stepIdentity (joinLines (first :: rest)) = stepIdentity (joinLines (first :: others)) := by
  have named : stepName (joinLines (first :: rest)) = stepName (joinLines (first :: others)) := by
    have values : (stepField (joinLines (first :: rest)) (py "name")).map Prod.snd =
        (stepField (joinLines (first :: others)) (py "name")).map Prod.snd := by
      rw [stepField_value full clean, stepField_value full cleanToo, same]
    have stripped := congrArg (Option.map stripQuotes) values
    rwa [Option.map_map, Option.map_map] at stripped
  have head {lines : List PyStr} (clean : ∀ other ∈ first :: lines, ∀ point ∈ other, isLineBreak point = false) :
      (splitlines (joinLines (first :: lines))).headD [] = first := by
    rw [splitlines_joinLines clean, ← List.nil_append (first :: lines), trimmed_append_cons full]
    rfl
  rw [stepIdentity, stepIdentity, named, head clean, head cleanToo]

private theorem mem_of_trimmed {lines : List PyStr} {other : PyStr} (member : other ∈ trimmed lines) :
    other ∈ lines := by
  induction lines with
  | nil => exact member
  | cons line rest ih =>
    cases rest with
    | nil =>
      unfold trimmed at member
      split at member
      · cases member
      · exact member
    | cons next rest =>
      rcases List.mem_cons.mp member with same | inside
      · exact same ▸ List.mem_cons_self
      · exact List.mem_cons_of_mem _ (ih inside)

/-- The step as the edited section is cut into steps. -/
def insertedStep (first line : PyStr) (lower : List PyStr) : PyStr :=
  joinLines (first :: line :: (trimmed lower).takeWhile fun other => !startsStep other)

private theorem insertedStep_clean
    (clean : ∀ other ∈ first :: line :: lower, ∀ point ∈ other, isLineBreak point = false) :
    ∀ other ∈ first :: line :: (trimmed lower).takeWhile (fun other => !startsStep other),
      ∀ point ∈ other, isLineBreak point = false := by
  intro other member
  apply clean
  simp only [List.mem_cons] at member ⊢
  exact member.imp_right (Or.imp_right fun inside => mem_of_trimmed ((List.takeWhile_sublist _).mem inside))

private theorem stepText_clean
    (clean : ∀ other ∈ first :: line :: lower, ∀ point ∈ other, isLineBreak point = false) :
    ∀ other ∈ first :: lower.takeWhile (fun other => !startsStep other),
      ∀ point ∈ other, isLineBreak point = false := by
  intro other member
  apply clean
  simp only [List.mem_cons] at member ⊢
  exact member.imp_right fun inside => .inr ((List.takeWhile_sublist _).mem inside)

private theorem insertedStep_identity (full : first ≠ [])
    (clean : ∀ other ∈ first :: line :: lower, ∀ point ∈ other, isLineBreak point = false)
    (unnamed : fieldValue (py "        ") (py "name") line = none) :
    stepIdentity (insertedStep first line lower) = stepIdentity (stepText first lower) := by
  apply stepIdentity_congr full (insertedStep_clean clean) (stepText_clean clean)
  rw [List.findSome?_cons, unnamed, findSome?_trimmed _ (fieldValue_nil _ _) (by decide)]

private theorem insertedStep_field (full : first ≠ [])
    (clean : ∀ other ∈ first :: (py "        " ++ field ++ 0x3a :: value) :: lower,
      ∀ point ∈ other, isLineBreak point = false)
    (absent : stepField (stepText first lower) field = none) :
    (stepField (insertedStep first (py "        " ++ field ++ 0x3a :: value) lower) field).map Prod.snd =
      some (strip value) := by
  have none : fieldValue (py "      - ") field first = none := by
    have same := congrArg (Option.map Prod.snd) absent
    rw [stepText, stepField_value full (stepText_clean clean), Option.map_none, Option.or_eq_none_iff] at same
    exact same.1
  rw [insertedStep, stepField_value full (insertedStep_clean clean), none, List.findSome?_cons, fieldValue_line]
  rfl

private theorem mem_stepsOf (lower : List PyStr) (starts : startsStep first = true) (before : List PyStr) :
    (first :: lower.takeWhile fun line => !startsStep line) ∈ stepsOf (before ++ first :: lower) := by
  induction before with
  | nil =>
    have cut : stepsOf (first :: lower) = (first :: lower.takeWhile fun line => !startsStep line) :: stepsOf lower :=
      if_pos starts
    rw [List.nil_append, cut]
    exact List.mem_cons_self
  | cons other rest ih =>
    rw [List.cons_append, stepsOf]
    split
    · exact List.mem_cons_of_mem _ ih
    · exact ih

private theorem full_of_starts (starts : startsStep first = true) : first ≠ [] := by
  intro empty
  rw [empty] at starts
  cases starts

private theorem insertedStep_mem {upper : List PyStr} (full : line ≠ [])
    (clean : ∀ other ∈ jobLine jobId :: (upper ++ first :: line :: lower),
      ∀ point ∈ other, isLineBreak point = false)
    (starts : startsStep first = true) (inside : startsStep line = false) :
    insertedStep first line lower ∈
      jobStepSections (joinLines (jobLine jobId :: (upper ++ first :: line :: lower))) := by
  have shape : jobLine jobId :: (upper ++ first :: line :: lower) =
      (jobLine jobId :: (upper ++ [first])) ++ line :: lower := by simp
  have shape' : (jobLine jobId :: (upper ++ [first])) ++ line :: trimmed lower =
      (jobLine jobId :: upper) ++ first :: line :: trimmed lower := by simp
  have cut := mem_stepsOf (line :: trimmed lower) starts (jobLine jobId :: upper)
  rw [List.takeWhile_cons_of_pos (by simp [inside])] at cut
  rw [jobStepSections, splitlines_joinLines clean, shape, trimmed_append_cons full, shape']
  exact List.mem_map_of_mem cut

/-- The text of a step is what the section is cut into there, up to a blank last line. -/
theorem stepText_is_cut {above upper below : List PyStr}
    (place : SectionAt text jobId above (upper ++ first :: lower) below) (starts : startsStep first = true) :
    ∃ step ∈ jobStepSections (joinLines (jobLine jobId :: (upper ++ first :: lower))),
      (∀ field, (stepField step field).map Prod.snd = (stepField (stepText first lower) field).map Prod.snd) ∧
        stepIdentity step = stepIdentity (stepText first lower) := by
  have full := full_of_starts starts
  have clean : ∀ other ∈ jobLine jobId :: (upper ++ first :: lower), ∀ point ∈ other, isLineBreak point = false := by
    intro other member
    have inside : other ∈ splitlines text := by
      rw [place.lines]
      simp only [List.mem_append, List.mem_cons] at member ⊢
      tauto
    exact splitlines_unbroken inside
  have part {rest : List PyStr} (included : rest ⊆ lower) :
      ∀ other ∈ first :: rest, ∀ point ∈ other, isLineBreak point = false := by
    intro other member
    apply clean
    simp only [List.mem_cons, List.mem_append] at member ⊢
    exact .inr (.inr (member.imp_right fun inside => included inside))
  have cut := mem_stepsOf (trimmed lower) starts (jobLine jobId :: upper)
  have keptClean := part fun _ inside => mem_of_trimmed ((List.takeWhile_sublist (!startsStep ·)).mem inside)
  have textClean := part fun _ inside => (List.takeWhile_sublist (!startsStep ·)).mem inside
  have same (field : PyStr) :=
    findSome?_trimmed (!startsStep ·) (fieldValue_nil (py "        ") field) (by decide) lower
  refine ⟨joinLines (first :: (trimmed lower).takeWhile fun line => !startsStep line), ?_, ?_, ?_⟩
  · rw [jobStepSections, splitlines_joinLines clean, ← List.cons_append, trimmed_append_cons full]
    exact List.mem_map_of_mem cut
  · intro field
    rw [stepText, stepField_value full keptClean, stepField_value full textClean, same]
  · exact stepIdentity_congr full keptClean textClean (same _)

end Steps

/-! ### Edits -/

section Edits

variable {quoting : Quoting} {text edited jobId first field value : PyStr}
  {names above upper lower below : List PyStr}

/-- The fields of a step that let it fail, with the values that are not allowlisted. -/
def FailOpenStep (jobId step field value : PyStr) : Prop :=
  field = py "continue-on-error" ∨
    field = py "if" ∧ some (strip value) ≠ allowedStepCondition jobId (stepIdentity step)

private theorem stepViolations_of_field {step validatorName : PyStr} (failOpen : FailOpenStep jobId step field value)
    (found : (stepField step field).map Prod.snd = some (strip value)) :
    stepViolations jobId validatorName step ≠ [] := by
  intro none
  simp only [stepViolations, List.append_eq_nil_iff] at none
  obtain ⟨lenient, condition⟩ := none
  rcases failOpen with same | ⟨same, other⟩
  · rw [same] at found
    have present := violationIf_nil lenient
    rw [Option.isSome_eq_false_iff, Option.isNone_iff_eq_none] at present
    rw [present] at found
    cases found
  · rw [same] at found
    rw [show stepCondition step = some (strip value) from found] at condition
    have equal := violationIf_nil condition
    rw [decide_eq_false_iff_not, not_not] at equal
    exact other equal

private theorem jobViolations_of_step {jobSection step validatorName : PyStr} {expectedCommands : List PyStr}
    (member : step ∈ jobStepSections jobSection) (reported : stepViolations jobId validatorName step ≠ []) :
    jobViolations jobId validatorName expectedCommands jobSection ≠ [] := by
  intro none
  simp only [jobViolations, List.append_eq_nil_iff, List.flatMap_eq_nil_iff] at none
  exact reported (none.1.2 step member)

private theorem job_edit_caught (accepted : Accepted text) (expected : jobId ∈ expectedRequiredJobIds)
    (place : SectionAt text jobId above (upper ++ lower) below) (known : field ∈ failOpenFields)
    (inserted : splitlines edited =
      above ++ jobLine jobId :: (upper ++ (py "    " ++ field ++ 0x3a :: value) :: lower ++ below)) :
    Caught quoting edited names := by
  have indented := indented_line (field ++ 0x3a :: value)
  rw [← List.append_assoc] at indented
  have edit : Edited text edited jobId _ above upper lower below := ⟨place, inserted, indented.1, indented.2⟩
  apply edit.caught accepted expected
  intro validatorName expectedCommands
  apply jobViolations_of_field known
  apply hasLine_of_mem edit.clean (List.mem_cons_of_mem _ (List.mem_append_right _ List.mem_cons_self))
  rw [startsWith, List.isPrefixOf_iff_prefix]
  exact ⟨value, by simp⟩

private theorem step_edit_caught (accepted : Accepted text) (expected : jobId ∈ expectedRequiredJobIds)
    (place : SectionAt text jobId above (upper ++ first :: lower) below) (starts : startsStep first = true)
    (absent : stepField (stepText first lower) field = none)
    (failOpen : FailOpenStep jobId (stepText first lower) field value)
    (inserted : splitlines edited =
      above ++ jobLine jobId :: (upper ++ first :: (py "        " ++ field ++ 0x3a :: value) :: lower ++ below)) :
    Caught quoting edited names := by
  have deeper : py "        " ++ field ++ 0x3a :: value = py "    " ++ (py "    " ++ field ++ 0x3a :: value) := by
    simp [py]
  have indented := indented_line (py "    " ++ field ++ 0x3a :: value)
  rw [← deeper] at indented
  have edit : Edited text edited jobId _ above (upper ++ [first]) lower below :=
    ⟨by simpa using place, by simpa using inserted, indented.1, indented.2⟩
  have whole : jobLine jobId :: (upper ++ [first] ++ (py "        " ++ field ++ 0x3a :: value) :: lower) =
      jobLine jobId :: (upper ++ first :: (py "        " ++ field ++ 0x3a :: value) :: lower) := by simp
  have clean := edit.clean
  rw [whole] at clean
  have stepClean : ∀ other ∈ first :: (py "        " ++ field ++ 0x3a :: value) :: lower,
      ∀ point ∈ other, isLineBreak point = false :=
    fun other member => clean other (List.mem_cons_of_mem _ (List.mem_append_right _ member))
  have unnamed : fieldValue (py "        ") (py "name") (py "        " ++ field ++ 0x3a :: value) = none := by
    rw [fieldValue, Option.map_eq_none_iff, Option.eq_none_iff_forall_ne_some]
    intro tail found
    have shape := dropPrefix?_iff.mp found
    rcases failOpen with same | ⟨same, _⟩ <;> subst same <;> simp [py] at shape
  apply edit.caught accepted expected
  intro validatorName expectedCommands
  rw [whole]
  apply jobViolations_of_step (insertedStep_mem (by simp [py]) clean starts rfl)
  refine stepViolations_of_field ?_ (insertedStep_field (full_of_starts starts) stepClean absent)
  rw [FailOpenStep, insertedStep_identity (full_of_starts starts) stepClean unnamed]
  exact failOpen

/-- Of an accepted text and an expected job, with its section: one line more that makes the
job conditional, dependent or lenient, anywhere below its key, is reported, and so is one
below the first line of a step that makes the step lenient or conditional. -/
theorem fail_open_edits_are_caught (quoting : Quoting) (text : PyStr) (names : List PyStr)
    (accepted : requiredGraphViolations quoting text names = .ok []) (jobId : PyStr)
    (expected : jobId ∈ expectedRequiredJobIds) :
    (∃ above inside below, SectionAt text jobId above inside below ∧
      jobSectionFromText text jobId = .ok (joinLines (jobLine jobId :: inside))) ∧
    (∀ above upper lower below field value edited, SectionAt text jobId above (upper ++ lower) below →
      field ∈ failOpenFields →
      splitlines edited =
        above ++ jobLine jobId :: (upper ++ (py "    " ++ field ++ 0x3a :: value) :: lower ++ below) →
      Caught quoting edited names) ∧
    (∀ above upper first lower below field value edited,
      SectionAt text jobId above (upper ++ first :: lower) below → startsStep first = true →
      stepField (stepText first lower) field = none →
      FailOpenStep jobId (stepText first lower) field value →
      splitlines edited =
        above ++ jobLine jobId :: (upper ++ first :: (py "        " ++ field ++ 0x3a :: value) :: lower ++ below) →
      Caught quoting edited names) := by
  have whole := accepted_of_ok accepted
  refine ⟨?_, ?_, ?_⟩
  · obtain ⟨_, _, _, read, _⟩ := whole.silent jobId expected (whole.seen jobId expected)
    obtain ⟨above, inside, below, place⟩ := sectionAt_of_mem whole.jobs (bare_of_section whole.jobs read)
    exact ⟨above, inside, below, place, place.read⟩
  · intro above upper lower below field value edited place known inserted
    exact job_edit_caught whole expected place known inserted
  · intro above upper first lower below field value edited place starts absent failOpen inserted
    exact step_edit_caught whole expected place starts absent failOpen inserted

end Edits

-- one evaluation of the text and of its editions
private theorem sample_lines :
    let lines := splitlines (sampleWorkflow sampleEvents)
    lines = lines.take 61 ++ jobLine (py "uv-lock-check") :: (lines.drop 62 ++ []) ∧
      lines.take 61 = lines.take 10 ++ py "jobs:" :: (lines.drop 11).take 50 ∧
      py "jobs:" ∉ lines.take 10 ∧ jobLine (py "uv-lock-check") ∉ (lines.drop 11).take 50 ∧
      (∀ line ∈ lines.drop 62, jobMatch line = none) ∧
      splitlines (sampleWorkflow sampleEvents ++ 0x0a :: py "    if: false") =
        lines.take 61 ++ jobLine (py "uv-lock-check") :: (lines.drop 62 ++ [py "    if: false"]) ∧
      splitlines (joinLines (lines.insertIdx 65 (py "        if: false"))) =
        lines.take 61 ++ jobLine (py "uv-lock-check") :: ((lines.drop 62).take 2 ++
          lines.getD 64 [] :: py "        if: false" :: (lines.drop 65 ++ [])) ∧
      lines.drop 62 = (lines.drop 62).take 2 ++ lines.getD 64 [] :: lines.drop 65 ∧
      startsStep (lines.getD 64 []) = true ∧
      stepField (stepText (lines.getD 64 []) (lines.drop 65)) (py "if") = none ∧
      allowedStepCondition (py "uv-lock-check") (stepIdentity (stepText (lines.getD 64 []) (lines.drop 65))) ≠
        some (py "false") := by
  decide +kernel

/-- A condition at the very end of the sample makes its last job conditional, and one below the
name of the last step makes that one conditional. -/
theorem inserted_conditions_are_caught :
    Caught sampleQuoting (sampleWorkflow sampleEvents ++ 0x0a :: py "    if: false") [py "Required Checks"] ∧
      Caught sampleQuoting
        (joinLines ((splitlines (sampleWorkflow sampleEvents)).insertIdx 65 (py "        if: false")))
        [py "Required Checks"] := by
  obtain ⟨lines, above, first, absent, plain, edited, stepEdited, inside, starts, unset, other⟩ := sample_lines
  have accepted := (samples_accepted sampleEvents (by simp)).1
  have caught := (fail_open_edits_are_caught sampleQuoting _ _ accepted (py "uv-lock-check") (by decide)).2
  have place : SectionAt (sampleWorkflow sampleEvents) (py "uv-lock-check") _ (_ ++ []) [] :=
    ⟨(by simpa using lines), ⟨_, _, above, first, absent⟩, (by simpa using plain), (by simp)⟩
  constructor
  · exact caught.1 _ _ [] [] (py "if") (py " false") _ place (by decide) (by simpa [py] using edited)
  · have below := place
    rw [List.append_nil, inside] at below
    refine caught.2 _ _ _ _ [] (py "if") (py " false") _ below starts unset (.inr ⟨rfl, ?_⟩) ?_
    · exact Ne.symm other
    · exact stepEdited.trans (by simp [py])

end Charybdis.Policy
