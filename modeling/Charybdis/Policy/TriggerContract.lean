import Charybdis.Policy.BlockMapping
import Charybdis.Policy.RequiredGraph

/-! What an accepted workflow says about its triggers and its concurrency. The trigger reader
passes over lines it does not know, and the concurrency check searches a text with comments. -/

namespace Charybdis.Policy

open Foundation
open Stub (PyStr py)

/-! ### The `on:` block -/

/-- The lines of the `on:` block that are neither blank nor a comment. -/
def onLines (text : PyStr) : List PyStr := (blockLines (linesBelow (py "on:") text)).filter fun line => !isBare line

/-- The key of an event and nothing else. -/
def KeyLine (event line : PyStr) : Prop :=
  ∃ tail, keyMatch (py "  ") isEventPoint line = some (event, tail) ∧ isBare tail = true

/-- A setting and the list it is set to. -/
def SettingLine (setting : PyStr × List PyStr) (line : PyStr) : Prop :=
  ∃ value, settingMatch line = some (setting.1, value) ∧ inlineList value = .ok setting.2

/-- The lines are the keys of the events, in order, each followed by its settings. -/
inductive Reads : List (PyStr × List (PyStr × List PyStr)) → List PyStr → Prop
  | done : Reads [] []
  | event (key : KeyLine event line) (each : List.Forall₂ SettingLine settings lines)
      (more : Reads events rest) : Reads ((event, settings) :: events) (line :: (lines ++ rest))

/-- No event stands twice, and no setting twice under its event. -/
structure Distinct (events : List (PyStr × List (PyStr × List PyStr))) : Prop where
  names : (events.map Prod.fst).Nodup
  settings : ∀ event ∈ events, (event.2.map Prod.fst).Nodup

/-! ### The `concurrency:` block -/

def concurrencyLines (text : PyStr) : List PyStr := blockLines (linesBelow (py "concurrency:") text)

/-- The text that is searched: the block with its heading. -/
def concurrencyText (text : PyStr) : PyStr := joinLines (py "concurrency:" :: concurrencyLines text)

def groupValue (text : PyStr) : Option PyStr := mappingValue (py "group") (concurrencyLines text)

def cancelValue (text : PyStr) : Option PyStr := mappingValue (py "cancel-in-progress") (concurrencyLines text)

/-- The spellings of the boolean. -/
def falseScalars : List PyStr := [py "false", py "False", py "FALSE"]

/-! ### The contract -/

/-- The documented contract: the three events with one setting each and nothing else, a group
for each event and commit, and no cancellation. -/
structure TriggerContract (text : PyStr) : Prop where
  events : ∃ order, order.Perm expectedEvents ∧ Reads order (onLines text)
  group : ∃ value, groupValue text = some value ∧ ∀ identity ∈ identities, identity <:+: value
  cancel : ∃ value ∈ falseScalars, cancelValue text = some value

/-- A block with its entries on a line each, in which the texts that are searched for stand in no
comment, under no other key and in no longer word. -/
structure PlainConcurrency (lines : List PyStr) extends PlainMapping lines where
  comments : ∀ line ∈ lines, isVoidLine line = true → ∀ part ∈ cancelText :: identities, ¬ part <:+: line
  trailers : ∀ entry ∈ entries, ∀ part ∈ cancelText :: identities, ¬ part <:+: entry.trailer
  groups : ∀ entry ∈ entries, entry.key ≠ py "group" → ∀ identity ∈ identities, ¬ identity <:+: entry.line indent
  cancels : ∀ entry ∈ entries, entry.key ≠ py "cancel-in-progress" → ¬ cancelText <:+: entry.line indent
  words : ∀ entry ∈ entries, entry.key = py "cancel-in-progress" → ∀ rest, entry.value = py "false" ++ rest → rest = []

/-! ### The trigger reader -/

section Reader

variable {scan : TriggerScan} {line event : PyStr}

private theorem isEventPoint_dark {point : Nat} (letter : isEventPoint point = true) :
    isSpace point = false ∧ point ≠ 0x23 := by
  simp only [isEventPoint, Bool.or_eq_true, Bool.and_eq_true, decide_eq_true_eq, beq_iff_eq] at letter
  simp only [isSpace, Bool.or_eq_false_iff, Bool.and_eq_false_iff, decide_eq_false_iff_not, beq_eq_false_iff_ne]
  omega

private theorem not_bare_of_key {indent name tail : PyStr} (spaces : ∀ point ∈ indent, isSpace point = true)
    (matched : keyMatch indent isEventPoint line = some (name, tail)) : isBare line = false := by
  obtain ⟨full, named, shape⟩ := (keyMatch_iff rfl).mp matched
  obtain ⟨first, later, same⟩ := List.exists_cons_of_ne_nil full
  have letter := isEventPoint_dark (named first (by simp [same]))
  have stripped : lstrip line = first :: (later ++ 0x3a :: tail) := by
    rw [shape, same, lstrip, List.append_assoc, List.dropWhile_append_of_pos spaces, List.cons_append,
      List.dropWhile_cons_of_neg (by simp [letter.1])]
  simp [isBare, stripped, startsWith, py, List.isPrefixOf, Ne.symm letter.2]

private theorem settingMatch_key {found : PyStr × PyStr} (matched : settingMatch line = some found) :
    ∃ tail, keyMatch (py "    ") isEventPoint line = some (found.1, tail) := by
  unfold settingMatch at matched
  split at matched
  · rename_i name tail key
    simp only at matched
    split at matched
    · cases matched
      exact ⟨tail, key⟩
    · cases matched
  · cases matched

private theorem eventMatch_setting {found : PyStr × PyStr} (matched : settingMatch line = some found) :
    eventMatch line = none := by
  obtain ⟨tail, key⟩ := settingMatch_key matched
  obtain ⟨_, _, shape⟩ := (keyMatch_iff rfl).mp key
  rw [eventMatch, Option.map_eq_none_iff, Option.eq_none_iff_forall_ne_some]
  intro other again
  obtain ⟨full, named, same⟩ := (keyMatch_iff rfl).mp again
  obtain ⟨first, later, split⟩ := List.exists_cons_of_ne_nil full
  have letter := named first (by simp [split])
  -- the third point would be the letter of an event and a blank
  have third : some first = some 0x20 := by
    have points := congrArg (·[2]?) (same.symm.trans shape)
    simpa [split, py] using points
  cases third
  cases letter

private theorem step_bare (bare : isBare line = true) : scan.step line = .ok scan := by
  have noEvent : eventMatch line = none := by
    rw [eventMatch, Option.map_eq_none_iff, Option.eq_none_iff_forall_ne_some]
    intro found matched
    cases bare.symm.trans (not_bare_of_key (by decide) matched)
  have noSetting : settingMatch line = none := by
    rw [Option.eq_none_iff_forall_ne_some]
    intro found matched
    obtain ⟨_, key⟩ := settingMatch_key matched
    cases bare.symm.trans (not_bare_of_key (by decide) key)
  simp [TriggerScan.step, noEvent, noSetting]

private theorem step_key (key : KeyLine event line) :
    scan.step line = .ok { events := scan.events.set event .empty, event := some event } := by
  obtain ⟨_, matched, _⟩ := key
  simp [TriggerScan.step, eventMatch, matched]

private theorem step_setting {setting : PyStr × List PyStr} {base : Triggers} {current : Settings}
    (found : SettingLine setting line) :
    TriggerScan.step { events := base.set event current, event := some event } line =
      .ok { events := base.set event (current.set setting.1 setting.2), event := some event } := by
  obtain ⟨value, matched, items⟩ := found
  simp [TriggerScan.step, eventMatch_setting matched, matched, items, bind, Except.bind, pure, Except.pure,
    Dict.get?_set, Dict.set_set]

private theorem foldlM_settings {settings : List (PyStr × List PyStr)} {lines : List PyStr} {base : Triggers}
    {current : Settings} (each : List.Forall₂ SettingLine settings lines) :
    lines.foldlM TriggerScan.step { events := base.set event current, event := some event } =
      .ok { events := base.set event (settings.foldl (fun dict setting => dict.set setting.1 setting.2) current),
            event := some event } := by
  induction each generalizing current with
  | nil => rfl
  | cons found _ ih =>
    rw [List.foldlM_cons, step_setting found]
    exact ih

private theorem foldlM_reads {events : List (PyStr × List (PyStr × List PyStr))} {lines : List PyStr}
    (reads : Reads events lines) (scan : TriggerScan) :
    ∃ event, lines.foldlM TriggerScan.step scan = .ok
      { events := events.foldl (fun dict event => dict.set event.1 (.ofList event.2)) scan.events, event } := by
  induction reads generalizing scan with
  | done => exact ⟨scan.event, rfl⟩
  | event key each _ ih =>
    rename_i name line settings lines events rest
    rw [List.foldlM_cons, step_key key]
    simp only [bind, Except.bind]
    rw [List.foldlM_append, foldlM_settings each]
    exact ih _

private theorem foldlM_significant (lines : List PyStr) (scan : TriggerScan) :
    (lines.filter fun line => !isBare line).foldlM TriggerScan.step scan = lines.foldlM TriggerScan.step scan := by
  induction lines generalizing scan with
  | nil => rfl
  | cons line rest ih =>
    by_cases bare : isBare line = true
    · rw [List.filter_cons_of_neg (by simp [bare]), List.foldlM_cons, step_bare bare]
      exact ih scan
    · rw [List.filter_cons_of_pos (by simp [bare]), List.foldlM_cons, List.foldlM_cons]
      exact congrArg _ (funext ih)

/-- What the reader makes of an `on:` block all of whose lines it knows. -/
theorem triggersFromText_reads {text : PyStr} {events : List (PyStr × List (PyStr × List PyStr))}
    (on : py "on:" ∈ splitlines text) (reads : Reads events (onLines text)) :
    triggersFromText text = .ok (triggersOf events) := by
  obtain ⟨event, scanned⟩ := foldlM_reads reads {}
  rw [onLines, foldlM_significant] at scanned
  simp only [triggersFromText, linesAfter_splitlines on, bind, Except.bind, scanned, triggersOf, Dict.ofList,
    List.foldl_map]
  rfl

end Reader

/-! ### The expected triggers -/

section Expected

private theorem entries_ofList {α : Type} {pairs : List (PyStr × α)} (distinct : (pairs.map Prod.fst).Nodup) :
    (Dict.ofList pairs).entries = pairs :=
  congrArg Dict.entries (Dict.ofList_entries ⟨pairs, distinct⟩)

private theorem sameDict_entries {α : Type} {same : α → α → Bool} {first second : Dict PyStr α}
    (equal : sameDict same first second = true) :
    first.entries.length = second.entries.length ∧ ∀ entry ∈ first.entries,
      ∃ value, (entry.1, value) ∈ second.entries ∧ same entry.2 value = true := by
  simp only [sameDict, Bool.and_eq_true, beq_iff_eq, List.all_eq_true, Option.any_eq_true] at equal
  refine ⟨equal.1, fun entry member => ?_⟩
  obtain ⟨value, found, agrees⟩ := equal.2 entry member
  exact ⟨value, (Dict.mem_entries_iff second).mpr found, agrees⟩

private theorem settings_eq {settings : List (PyStr × List PyStr)} {setting : PyStr × List PyStr}
    (distinct : (settings.map Prod.fst).Nodup)
    (equal : sameDict (· == ·) (Dict.ofList settings) (Dict.ofList [setting]) = true) : settings = [setting] := by
  obtain ⟨length, each⟩ := sameDict_entries equal
  rw [entries_ofList distinct, entries_ofList (by simp)] at length
  obtain ⟨only, same⟩ := List.length_eq_one_iff.mp length
  subst same
  obtain ⟨value, member, agrees⟩ := each only (by rw [entries_ofList distinct]; exact List.mem_singleton_self _)
  rw [entries_ofList (by simp), List.mem_singleton] at member
  rw [← member, ← eq_of_beq agrees]

private theorem expected_single : ∀ event ∈ expectedEvents, ∃ setting, event.2 = [setting] := by
  simp [expectedEvents]

private theorem expected_distinct : Distinct expectedEvents where
  names := by decide
  settings := by
    intro event member
    obtain ⟨setting, same⟩ := expected_single event member
    simp [same]

/-- Events without repetitions that make the expected dictionary are the expected ones. -/
theorem perm_of_sameTriggers {events : List (PyStr × List (PyStr × List PyStr))} (distinct : Distinct events)
    (equal : sameTriggers (triggersOf events) expectedRequiredTriggers = true) : events.Perm expectedEvents := by
  obtain ⟨length, each⟩ := sameDict_entries equal
  have names (events : List (PyStr × List (PyStr × List PyStr))) (distinct : Distinct events) :
      (triggersOf events).entries = events.map fun event => (event.1, Dict.ofList event.2) := by
    apply entries_ofList
    rw [List.map_map]
    exact distinct.names
  rw [expectedRequiredTriggers, names events distinct, names expectedEvents expected_distinct] at length each
  have included : events ⊆ expectedEvents := by
    intro event member
    obtain ⟨settings, expected, agrees⟩ := each _ (List.mem_map_of_mem member)
    obtain ⟨other, known, same⟩ := List.mem_map.mp expected
    obtain ⟨setting, single⟩ := expected_single other known
    obtain ⟨name, rest⟩ := Prod.mk.inj same
    rw [← rest, single] at agrees
    have equal := settings_eq (distinct.settings event member) agrees
    have whole : event = other := Prod.ext name.symm (equal.trans single.symm)
    exact whole ▸ known
  have nodup : events.Nodup := List.Nodup.of_map _ distinct.names
  apply (nodup.subperm included).perm_of_length_le
  simpa using length.ge

theorem distinct_of_perm {events : List (PyStr × List (PyStr × List PyStr))}
    (order : events.Perm expectedEvents) : Distinct events where
  names := (order.map Prod.fst).nodup_iff.mpr expected_distinct.names
  settings := fun event member => expected_distinct.settings event (order.mem_iff.mp member)

end Expected

/-! ### Acceptance -/

section Acceptance

variable {quoting : Quoting} {text : PyStr} {names : List PyStr}

theorem topLevelBlock_concurrency {block : PyStr} (read : topLevelBlock text (py "concurrency") = .ok block) :
    block = concurrencyText text := by
  obtain ⟨rest, found, same⟩ := ok_of_bind read
  rw [(linesAfter_ok found).2] at same
  exact (Except.ok.inj same).symm

/-- An accepted text passed the trigger comparison and the searches. -/
theorem accepted_checks (accepted : requiredGraphViolations quoting text names = .ok []) :
    (∃ triggers, triggersFromText text = .ok triggers ∧ sameTriggers triggers expectedRequiredTriggers = true) ∧
      (∀ identity ∈ identities, identity <:+: concurrencyText text) ∧ cancelText <:+: concurrencyText text := by
  obtain ⟨triggers, read, accepted⟩ := ok_of_bind accepted
  obtain ⟨concurrency, block, accepted⟩ := ok_of_bind accepted
  obtain ⟨contexts, _, accepted⟩ := ok_of_bind accepted
  obtain ⟨jobs, _, accepted⟩ := ok_of_bind accepted
  have none := Except.ok.inj accepted
  rw [topLevelBlock_concurrency block] at none
  simp only [List.append_eq_nil_iff, concurrencyViolations, List.flatMap_eq_nil_iff] at none
  obtain ⟨⟨⟨⟨⟨⟨same, _⟩, found, cancel⟩, _⟩, _⟩, _⟩, _⟩ := none
  refine ⟨⟨triggers, read, by simpa using violationIf_nil same⟩, ?_, ?_⟩
  · intro identity member
    apply contains_iff.mp
    simpa using violationIf_nil (found identity member)
  · apply contains_iff.mp
    simpa using violationIf_nil cancel

end Acceptance

/-! ### The concurrency settings -/

section Concurrency

variable {lines : List PyStr} (plain : PlainConcurrency lines)

private theorem PlainConcurrency.entry_of_text {part : PyStr} (searched : part ∈ cancelText :: identities)
    (found : part <:+: joinLines (py "concurrency:" :: lines)) :
    ∃ entry ∈ plain.entries, part <:+: entry.line plain.indent := by
  have shape : ∀ part ∈ cancelText :: identities,
      part ≠ [] ∧ 0x0a ∉ part ∧ contains part (py "concurrency:") = false := by decide
  obtain ⟨full, clean, aside⟩ := shape part searched
  obtain ⟨line, member, inside⟩ := infix_joinLines full clean found
  rcases List.mem_cons.mp member with rfl | member
  · rw [contains_iff.mpr inside] at aside
    cases aside
  · rcases plain.line_cases member with void | ⟨entry, present, rfl⟩
    · exact absurd inside (plain.comments line member void part searched)
    · exact ⟨entry, present, inside⟩

private theorem PlainConcurrency.group_of_text {identity : PyStr} (known : identity ∈ identities)
    (found : identity <:+: joinLines (py "concurrency:" :: lines)) :
    ∃ entry ∈ plain.entries, entry.key = py "group" ∧ identity <:+: entry.value := by
  have searched := List.mem_cons_of_mem cancelText known
  have shape : ∀ identity ∈ identities, ∃ rest, identity = 0x24 :: rest ∧ 0x23 ∉ identity ∧ identity.getLast? = some 0x7d := by
    intro identity member
    simp only [identities, List.mem_cons, List.not_mem_nil, or_false] at member
    rcases member with rfl | rfl <;> exact ⟨_, rfl, by decide, by decide⟩
  obtain ⟨rest, dollar, unmarked, ends⟩ := shape identity known
  obtain ⟨entry, member, inside⟩ := plain.entry_of_text searched found
  have key : entry.key = py "group" := by
    by_contra other
    exact plain.groups entry member other identity known inside
  refine ⟨entry, member, key, ?_⟩
  have whole : entry.line plain.indent =
      (List.replicate plain.indent 0x20 ++ entry.key ++ [0x3a] ++ entry.gap) ++ (entry.value ++ entry.trailer) := by
    simp [MappingEntry.line, MappingEntry.tail]
  have absent : 0x24 ∉ List.replicate plain.indent 0x20 ++ entry.key ++ [0x3a] ++ entry.gap := by
    intro member
    simp only [List.mem_append, List.mem_singleton] at member
    rcases member with ((spaces | name) | colon) | gap
    · cases List.eq_of_mem_replicate spaces
    · rw [key] at name
      exact absurd name (by decide)
    · cases colon
    · cases List.all_eq_true.mp entry.spaced.2 _ gap
  rw [whole, dollar] at inside
  have behind := infix_of_infix_append absent inside
  rw [← dollar] at behind
  exact (infix_append_trailer entry.behind rfl unmarked ends behind).resolve_right
    (plain.trailers entry member identity searched)

private theorem cancelText_split {front back : PyStr} (whole : cancelText = front ++ 0x3a :: back) (plain : 0x3a ∉ front) :
    back = py " false" := by
  have before : ∀ point ∈ front, (point != 0x3a) = true := by
    intro point member
    rw [bne_iff_ne]
    exact fun colon => plain (colon ▸ member)
  have cut : cancelText.dropWhile (· != 0x3a) = 0x3a :: back := by
    rw [whole, List.dropWhile_append_of_pos before]
    rfl
  have own : cancelText.dropWhile (· != 0x3a) = 0x3a :: py " false" := by decide
  exact (List.cons.inj (cut.symm.trans own)).2

private theorem false_starts {entry : MappingEntry} (trailer : ¬ cancelText <:+: entry.trailer) (indent : Nat)
    (inside : cancelText <:+: entry.line indent) : py "false" <+: entry.value ++ entry.trailer := by
  have name : cancelText = 0x63 :: py "ancel-in-progress: false" := rfl
  obtain ⟨point, gap, gapped⟩ := List.exists_cons_of_ne_nil entry.spaced.1
  have blank := List.all_eq_true.mp entry.spaced.2
  have value : ¬ cancelText <:+: entry.value := by
    intro own
    have colon : [0x3a, 0x20] <:+: cancelText := ⟨py "cancel-in-progress", py "false", rfl⟩
    have apart := entry.colons 0x20 (by decide)
    rw [contains_iff.mpr ((colon.trans own).trans List.infix_append_left)] at apart
    cases apart
  have tail : ¬ cancelText <:+: entry.tail := by
    intro behind
    have letter : 0x63 ∉ entry.gap := fun member => by cases blank _ member
    have later : cancelText <:+: entry.value ++ entry.trailer := infix_of_infix_append letter behind
    exact (infix_append_trailer entry.behind rfl (by decide) rfl later).elim value trailer
  have colonless : 0x3a ∉ List.replicate indent 0x20 ++ entry.key := by
    intro member
    rcases List.mem_append.mp member with spaces | key
    · cases List.eq_of_mem_replicate spaces
    · cases entry.named _ key
  rw [MappingEntry.line] at inside
  rcases List.infix_append_iff_ne_nil.mp inside with own | later | ⟨front, back, -, full, whole, before, start⟩
  · exact absurd (own.subset (by decide)) colonless
  · rcases List.infix_cons_iff.mp later with start | later
    · rw [name] at start
      cases (List.cons_prefix_cons.mp start).1
    · exact absurd later tail
  · obtain ⟨colon, back, rfl⟩ := List.exists_cons_of_ne_nil full
    obtain ⟨rfl, starts⟩ := List.cons_prefix_cons.mp start
    rw [cancelText_split whole fun member => colonless (before.subset member), MappingEntry.tail, gapped] at starts
    have second : py "false" <+: gap ++ (entry.value ++ entry.trailer) := (List.cons_prefix_cons.mp starts).2
    cases gap with
    | nil => exact second
    | cons next gap =>
      have letter : 0x66 = next := (List.cons_prefix_cons.mp second).1
      have space := blank next (by simp [gapped])
      rw [← letter] at space
      cases space

private theorem PlainConcurrency.cancel_of_text (found : cancelText <:+: joinLines (py "concurrency:" :: lines)) :
    ∃ entry ∈ plain.entries, entry.key = py "cancel-in-progress" ∧ entry.value = py "false" := by
  have searched : cancelText ∈ cancelText :: identities := List.mem_cons_self
  obtain ⟨entry, member, inside⟩ := plain.entry_of_text searched found
  have key : entry.key = py "cancel-in-progress" := by
    by_contra other
    exact plain.cancels entry member other inside
  refine ⟨entry, member, key, ?_⟩
  obtain ⟨back, same⟩ := false_starts (plain.trailers entry member cancelText searched) _ inside
  rcases List.append_eq_append_iff.mp same with ⟨rest, longer, -⟩ | ⟨rest, shorter, start⟩
  · rw [longer, plain.words entry member key rest longer, List.append_nil]
  · -- the rest of the word would start what ends the line
    by_cases none : rest = []
    · rw [shorter, none, List.append_nil]
    · have ends : rest.getLast? = some 0x65 := by
        rw [← List.getLast?_append_of_ne_nil _ none, ← shorter]
        rfl
      have unmarked : 0x23 ∉ rest := fun mark => absurd (shorter ▸ List.mem_append_right _ mark) (by decide : 0x23 ∉ py "false")
      exact absurd ⟨back, start.symm⟩ (not_prefix_trailer entry.behind rfl unmarked ends)

end Concurrency

def sampleJob : PyStr × PyStr × List PyStr → List PyStr
  | (jobId, name, commands) =>
    [jobLine jobId, py "    steps:", py "      - uses: actions/checkout@v4", py "      - name: " ++ name] ++
    match commands with
    | [configured, default] =>
      [py "        run: |", py "          if [ -f .gitleaks.toml ]; then", py "          " ++ configured,
       py "          else", py "          " ++ default, py "          fi"]
    | _ => [py "        run: " ++ commands.flatten]

def sampleEvents : List PyStr :=
  [py "  pull_request:", py "    branches: [main]", py "  push:", py "    branches: [main]",
   py "  merge_group: # queue", py "    types: [checks_requested]"]

/-- The events with one more setting, which runs the workflow less often. -/
def narrowedEvents : List PyStr := sampleEvents.insertIdx 4 (py "    paths-ignore: [docs]")

def sampleConcurrency : List PyStr :=
  [py "  group: $\x7b\x7b github.event_name \x7d\x7d-$\x7b\x7b github.sha \x7d\x7d # one run for each",
   py "  cancel-in-progress: false"]

def sampleWorkflow (events : List PyStr) : PyStr :=
  joinLines ([py "on:"] ++ events ++ [py "concurrency:"] ++ sampleConcurrency ++ [py "jobs:"] ++
    expectedRequiredValidators.flatMap sampleJob)

def sampleQuoting : Quoting := ⟨fun _ => [], fun names => join (py ", ") names⟩

-- one evaluation of both texts
theorem samples_accepted : ∀ events ∈ [sampleEvents, narrowedEvents],
    requiredGraphViolations sampleQuoting (sampleWorkflow events) [py "Required Checks"] = .ok [] ∧
      onLines (sampleWorkflow events) = events ∧
      concurrencyLines (sampleWorkflow events) = sampleConcurrency := by
  decide +kernel

private theorem known_of_settings {settings : List (PyStr × List PyStr)} {lines : List PyStr}
    (each : List.Forall₂ SettingLine settings lines) : ∀ line ∈ lines, (settingMatch line).isSome := by
  induction each with
  | nil => simp
  | cons found _ ih =>
    obtain ⟨_, matched, _⟩ := found
    exact List.forall_mem_cons.mpr ⟨by simp [matched], ih⟩

private theorem known_of_reads {events : List (PyStr × List (PyStr × List PyStr))} {lines : List PyStr}
    (reads : Reads events lines) : ∀ line ∈ lines, (eventMatch line).isSome ∨ (settingMatch line).isSome := by
  induction reads with
  | done => simp
  | event key each _ ih =>
    intro line member
    rcases List.mem_cons.mp member with same | later
    · obtain ⟨_, matched, _⟩ := key
      left
      simp [same, eventMatch, matched]
    · rcases List.mem_append.mp later with setting | other
      · exact .inr (known_of_settings each line setting)
      · exact ih line other

def groupEntry : MappingEntry where
  key := py "group"
  gap := py " "
  value := py "$\x7b\x7b github.event_name \x7d\x7d-$\x7b\x7b github.sha \x7d\x7d"
  trailer := py " # one run for each"
  named := by decide
  spaced := by decide
  stripped := by decide
  first := by decide
  full := by decide
  uncut := by decide
  colons := by decide
  behind := .inr ⟨py " ", py " one run for each", by decide, by decide, by decide⟩

def cancelEntry : MappingEntry where
  key := py "cancel-in-progress"
  gap := py " "
  value := py "false"
  trailer := []
  named := by decide
  spaced := by decide
  stripped := by decide
  first := by decide
  full := by decide
  uncut := by decide
  colons := by decide
  behind := .inl rfl

def plainSample : PlainConcurrency sampleConcurrency where
  indent := 2
  entries := [groupEntry, cancelEntry]
  written := by decide
  distinct := by decide
  comments := by decide
  trailers := by decide
  groups := by decide
  cancels := by decide
  words := by
    intro entry member key rest value
    rcases List.mem_cons.mp member with rfl | member
    · exact absurd key (by decide)
    · obtain rfl := List.mem_singleton.mp member
      have same : py "false" ++ [] = py "false" ++ rest := value
      exact (List.append_cancel_left same).symm

end Charybdis.Policy
