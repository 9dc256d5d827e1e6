import Charybdis.Stub.FaultHistory
import Charybdis.Stub.TaskHandling

/-! The stub's tasks as a function of what it was asked and what it answered. A listing
changes what it lists. -/

namespace Charybdis.Stub

open Foundation

def statusOf (task : Record) : Option PyJson := task.get? (py "status")

/-- The task a creation reports. -/
def reportedTask : PyJson → Option Record
  | .object members =>
    match members.lookup (py "task") with
    | some (.object fields) => some (.ofList fields)
    | _ => none
  | _ => none

/-- The task of a creation answered 201. -/
def createdTask (runtime : Runtime) (exchange : Exchange) : Option Record :=
  match exchange.request.method, route runtime exchange.request.path with
  | .post, .ok path =>
    if (py "/v1/teams/").isPrefixOf path = true ∧ (py "/tasks").isSuffixOf path = true then
      exchange.outcome.sent.findSome? fun reply =>
        if reply.status = 201 then reportedTask reply.body else none
    else none
  | _, _ => none

/-- Every task ever created, in creation order and as it was created. -/
def createdTasks (runtime : Runtime) (history : List Exchange) : List Record :=
  history.filterMap (createdTask runtime)

/-- A queue-starve fault was created and not removed since. -/
def Starved (runtime : Runtime) (history : List Exchange) : Prop :=
  ∃ faultId fault, Live runtime history faultId fault ∧
    fault.get? (py "type") = some (.string (py "queue-starve"))

/-! ### One record -/

theorem completed_completed (task : Record) : completed (completed task) = completed task :=
  task.set_set _ _ _

theorem completed_of_status (done : statusOf task = some completedStatus) : completed task = task :=
  task.set_of_get? done

/-- A stored task is the one created, or that one completed. -/
def Stored (made task : Record) : Prop := task = made ∨ task = completed made

theorem Stored.complete (stored : Stored made task) : Stored made (completed task) := by
  rcases stored with same | same
  · exact .inr (same ▸ rfl)
  · right
    rw [same, completed_completed]

theorem Stored.get? (stored : Stored made task) (other : key ≠ py "status") : task.get? key = made.get? key := by
  rcases stored with same | same
  · rw [same]
  · rw [same, get?_completed, if_neg other]

/-! ### Along a run -/

/-- The tasks of a state against the history that led to it: each that was ever created, in
that order and under its own identifier, none of them twice. -/
structure KeepsTasks (runtime : Runtime) (history : List Exchange) (stub : Agamemnon) : Prop where
  stored : List.Forall₂ Stored (createdTasks runtime history) stub.tasks.values
  pending : ∀ made ∈ createdTasks runtime history, statusOf made = some pendingStatus
  own : ∀ taskId task, stub.tasks.get? taskId = some task → task.get? (py "id") = some (.string taskId)
  drawn : ∀ taskId task, stub.tasks.get? taskId = some task → ∃ count < stub.drawn, taskId = runtime.uuid4 count

/-- What an exchange does to each task that is there, and what a listing shows. -/
structure MovesTasks (runtime : Runtime) (starved : Prop) (stub : Agamemnon) (exchange : Exchange)
    (next : Agamemnon) : Prop where
  /-- Only a listing without queue starvation changes a task, and only from pending to completed. -/
  moves : ∃ moved, next.tasks.values = moved ++ (createdTask runtime exchange).toList ∧
    List.Forall₂ (fun old new => new = old ∨ (statusOf old = some pendingStatus ∧ new = completed old ∧
      ListsTasks runtime exchange.request ∧ ¬ starved)) stub.tasks.values moved
  lists : ListsTasks runtime exchange.request → ∃ reply, exchange.outcome.sent = [reply] ∧
    reply.status = 200 ∧ reply.body = bodyOf [("tasks", recordList next.tasks)] ∧
    (starved → next.tasks = stub.tasks) ∧
    (¬ starved → ∀ task ∈ next.tasks.values, statusOf task = some completedStatus)

theorem createdTasks_concat (runtime : Runtime) (history : List Exchange) (exchange : Exchange) :
    createdTasks runtime (history ++ [exchange]) =
      createdTasks runtime history ++ (createdTask runtime exchange).toList := by
  simp only [createdTasks, List.filterMap_append]
  congr 1

section Steps

variable {runtime : Runtime} {stub next : Agamemnon} {exchange : Exchange}

private theorem mem_of_forall₂ {related : α → β → Prop} {first : List α} {second : List β}
    (each : List.Forall₂ related first second) : ∀ right ∈ second, ∃ left ∈ first, related left right := by
  induction each with
  | nil => simp
  | cons head _ ih =>
    intro right member
    rcases List.mem_cons.mp member with same | inside
    · exact ⟨_, List.mem_cons_self .., same ▸ head⟩
    · obtain ⟨left, present, relates⟩ := ih right inside
      exact ⟨left, List.mem_cons_of_mem _ present, relates⟩

theorem KeepsTasks.status (keeps : KeepsTasks runtime history stub) (member : task ∈ stub.tasks.values) :
    statusOf task = some pendingStatus ∨ statusOf task = some completedStatus := by
  obtain ⟨made, created, stored⟩ := mem_of_forall₂ keeps.stored task member
  rcases stored with same | same
  · exact .inl (same ▸ keeps.pending made created)
  · right
    rw [same, statusOf, get?_completed, if_pos rfl]

theorem KeepsTasks.fresh (keeps : KeepsTasks runtime history stub) (distinct : Function.Injective runtime.uuid4) :
    stub.tasks.get? (runtime.uuid4 stub.drawn) = none := by
  cases found : stub.tasks.get? (runtime.uuid4 stub.drawn) with
  | none => rfl
  | some task =>
    obtain ⟨count, early, same⟩ := keeps.drawn _ task found
    exact absurd (distinct same) early.ne'

theorem reportedTask_bodyOf (task : Record) : reportedTask (bodyOf [("task", jsonOf task)]) = some task := by
  rw [bodyOf_single]
  simp only [reportedTask, List.lookup_cons_self, jsonOf, Dict.ofList_entries]

theorem createdTask_of_sent (verb : exchange.request.method = .post)
    (routed : route runtime exchange.request.path = .ok path) (inside : TaskRoute path)
    (sent : exchange.outcome.sent = [⟨201, bodyOf [("task", jsonOf task)], delay⟩]) :
    createdTask runtime exchange = some task := by
  simp only [TaskRoute] at inside
  simp only [createdTask, verb, routed, inside, and_self, ↓reduceIte, sent, List.findSome?_cons,
    reportedTask_bodyOf]

theorem createdTask_of_aside (aside : TasksAside runtime stub exchange.request)
    (served : handle runtime stub exchange.request = exchange.outcome) : createdTask runtime exchange = none := by
  unfold createdTask
  split
  · rename_i path verb routed
    split
    · rename_i inside
      apply List.findSome?_eq_none_iff.mpr
      intro reply member
      exact if_neg (aside.uncreated verb path routed inside reply (served ▸ member))
    · rfl
  · rfl

theorem createdTask_of_lists (lists : ListsTasks runtime exchange.request) : createdTask runtime exchange = none := by
  simp only [createdTask, lists.1]

private theorem moves_created {starved : Prop} (fresh : stub.tasks.get? (runtime.uuid4 stub.drawn) = none)
    (created : createdTask runtime exchange = some (newTask (runtime.uuid4 stub.drawn) teamId subject))
    (unlisted : ¬ ListsTasks runtime exchange.request) :
    MovesTasks runtime starved stub exchange (withTask runtime stub teamId subject) := by
  refine ⟨⟨stub.tasks.values, ?_, List.forall₂_same.mpr fun _ _ => .inl rfl⟩, fun lists => absurd lists unlisted⟩
  rw [created]
  simp only [withTask, Dict.values, Dict.entries_set_of_absent _ _ fresh, List.map_append]
  rfl

private theorem moves_aside {starved : Prop} (same : next.tasks = stub.tasks)
    (created : createdTask runtime exchange = none) (unlisted : ¬ ListsTasks runtime exchange.request) :
    MovesTasks runtime starved stub exchange next := by
  refine ⟨⟨stub.tasks.values, ?_, List.forall₂_same.mpr fun _ _ => .inl rfl⟩, fun lists => absurd lists unlisted⟩
  rw [same, created]
  exact (List.append_nil _).symm

private theorem moves_lists {starved : Prop} (keeps : KeepsTasks runtime history stub)
    (active : queueStarveActive stub.faults = true ↔ starved)
    (lists : ListsTasks runtime exchange.request)
    (sent : exchange.outcome.sent = [⟨200, bodyOf [("tasks", recordList (listed stub).tasks)], delay⟩]) :
    MovesTasks runtime starved stub exchange (listed stub) := by
  by_cases starving : starved
  · have same : listed stub = stub := by
      rw [listed, if_pos (active.mpr starving)]
    refine ⟨⟨stub.tasks.values, ?_, List.forall₂_same.mpr fun _ _ => .inl rfl⟩, fun _ => ⟨_, sent, rfl, rfl, ?_⟩⟩
    · rw [same, createdTask_of_lists lists]
      exact (List.append_nil _).symm
    · exact ⟨fun _ => by rw [same], fun other => absurd starving other⟩
  · have tasks : (listed stub).tasks = stub.tasks.mapValues completed := by
      rw [listed, if_neg (mt active.mp starving)]
    refine ⟨⟨stub.tasks.values.map completed, ?_, ?_⟩, fun _ => ⟨_, sent, rfl, rfl, ?_⟩⟩
    · rw [tasks, createdTask_of_lists lists, Dict.values_mapValues]
      exact (List.append_nil _).symm
    · apply List.forall₂_map_right_iff.mpr
      apply List.forall₂_same.mpr
      intro task member
      rcases keeps.status member with pending | done
      · exact .inr ⟨pending, rfl, lists, starving⟩
      · exact .inl (completed_of_status done)
    · refine ⟨fun other => absurd other starving, fun _ task member => ?_⟩
      rw [tasks, Dict.values_mapValues] at member
      obtain ⟨old, _, same⟩ := List.mem_map.mp member
      rw [← same, statusOf, get?_completed, if_pos rfl]

/-- One clean exchange, from a state whose tasks are kept. -/
theorem moves_step {starved : Prop} (distinct : Function.Injective runtime.uuid4)
    (keeps : KeepsTasks runtime history stub) (active : queueStarveActive stub.faults = true ↔ starved)
    (step : CleanStep runtime stub exchange next) : MovesTasks runtime starved stub exchange next := by
  obtain ⟨⟨served, reached⟩, clean⟩ := step
  rcases task_cases runtime stub exchange.request with
    ⟨path, subject, verb, routed, inside, _, done⟩ | ⟨lists, done⟩ | aside
  · obtain ⟨delay, _, outcome⟩ := sent_of_clean (served ▸ done) clean
    rw [← reached, outcome]
    apply moves_created (keeps.fresh distinct)
    · exact createdTask_of_sent verb routed inside (congrArg Outcome.sent outcome)
    · intro ⟨get, _⟩
      cases verb.symm.trans get
  · obtain ⟨delay, _, outcome⟩ := sent_of_clean (served ▸ done) clean
    rw [← reached, outcome]
    exact moves_lists keeps active lists (congrArg Outcome.sent outcome)
  · apply moves_aside
    · rw [← reached, ← served, aside.same]
    · exact createdTask_of_aside aside served
    · exact aside.unlisted

private theorem forall₂_trans {first : List α} {second : List β} {third : List γ} {one : α → β → Prop}
    {two : β → γ → Prop} {both : α → γ → Prop} (join : ∀ {a b c}, one a b → two b c → both a c)
    (left : List.Forall₂ one first second) (right : List.Forall₂ two second third) :
    List.Forall₂ both first third := by
  induction left generalizing third with
  | nil =>
    cases right
    exact .nil
  | cons head _ ih =>
    cases right with
    | cons next rest => exact .cons (join head next) (ih rest)

private theorem owned_step (keeps : KeepsTasks runtime history stub) (request : Request) :
    ∀ taskId task, (handle runtime stub request).stub.tasks.get? taskId = some task →
      task.get? (py "id") = some (.string taskId) ∧
        ∃ count < (handle runtime stub request).stub.drawn, taskId = runtime.uuid4 count := by
  intro taskId task found
  have later := drawn_le_handle runtime stub request
  have old {other : Record} (before : stub.tasks.get? taskId = some other) :
      ∃ count < (handle runtime stub request).stub.drawn, taskId = runtime.uuid4 count := by
    obtain ⟨count, early, same⟩ := keeps.drawn taskId other before
    exact ⟨count, early.trans_le later, same⟩
  rcases task_cases runtime stub request with ⟨path, subject, _, _, _, _, done⟩ | ⟨_, done⟩ | aside
  · rw [done, send_stub] at found
    by_cases same : taskId = runtime.uuid4 stub.drawn
    · simp only [withTask, Dict.get?_set, same, ↓reduceIte, Option.some.injEq] at found
      rw [done, send_stub, same, ← found, get?_newTask, if_neg (by decide), if_neg (by decide),
        if_neg (by decide), if_pos rfl]
      exact ⟨rfl, stub.drawn, Nat.lt_succ_self _, rfl⟩
    · simp only [withTask, Dict.get?_set, same, ↓reduceIte] at found
      exact ⟨keeps.own taskId task found, old found⟩
  · rw [done, send_stub, listed] at found
    split at found
    · exact ⟨keeps.own taskId task found, old found⟩
    · simp only [Dict.get?_mapValues] at found
      obtain ⟨before, there, same⟩ := Option.map_eq_some_iff.mp found
      refine ⟨?_, old there⟩
      rw [← same, get?_completed, if_neg (by decide)]
      exact keeps.own taskId before there
  · rw [aside.same] at found
    exact ⟨keeps.own taskId task found, old found⟩

private theorem createdTask_pending (served : handle runtime stub exchange.request = exchange.outcome)
    (clean : exchange.outcome.raised = none) (created : createdTask runtime exchange = some task) :
    statusOf task = some pendingStatus := by
  rcases task_cases runtime stub exchange.request with
    ⟨path, subject, verb, routed, inside, _, done⟩ | ⟨lists, _⟩ | aside
  · obtain ⟨delay, _, outcome⟩ := sent_of_clean (served ▸ done) clean
    rw [createdTask_of_sent verb routed inside (congrArg Outcome.sent outcome)] at created
    cases created
    rw [statusOf, get?_newTask, if_pos rfl]
  · cases (createdTask_of_lists lists).symm.trans created
  · cases (createdTask_of_aside aside served).symm.trans created

theorem keeps_step (distinct : Function.Injective runtime.uuid4) (keeps : KeepsTasks runtime history stub)
    (step : CleanStep runtime stub exchange next) : KeepsTasks runtime (history ++ [exchange]) next := by
  have moves : MovesTasks runtime (queueStarveActive stub.faults = true) stub exchange next :=
    moves_step distinct keeps Iff.rfl step
  obtain ⟨moved, values, each⟩ := moves.moves
  obtain ⟨⟨served, reached⟩, clean⟩ := step
  have owned := owned_step keeps exchange.request
  rw [served, reached] at owned
  refine ⟨?_, ?_, fun taskId task found => (owned taskId task found).1,
    fun taskId task found => (owned taskId task found).2⟩
  · rw [createdTasks_concat, values]
    refine List.rel_append ?_ (List.forall₂_same.mpr fun _ _ => .inl rfl)
    refine forall₂_trans (fun stored move => ?_) keeps.stored each
    rcases move with same | ⟨_, same, _⟩
    · exact same ▸ stored
    · exact same ▸ stored.complete
  · intro made member
    rw [createdTasks_concat] at member
    rcases List.mem_append.mp member with old | new
    · exact keeps.pending made old
    · exact createdTask_pending served clean (Option.mem_toList.mp new)

theorem keeps_run (distinct : Function.Injective runtime.uuid4)
    (run : Execution (CleanStep runtime) {} history stub) : KeepsTasks runtime history stub :=
  run.history (keeps_step distinct) ⟨.nil, by simp [createdTasks], nofun, nofun⟩

end Steps

/-- Along every run without exceptions the stub keeps every task that was created, once, in
creation order and under its own identifier, team and subject; a task is pending or completed.
Each exchange leaves the tasks as they are, unless it lists them while no queue-starve fault
is live: then all are completed. A listing shows all tasks as it leaves them. -/
theorem tasks_follow_history (runtime : Runtime) (distinct : Function.Injective runtime.uuid4)
    {history : List Exchange} {stub : Agamemnon} (run : Execution (CleanStep runtime) {} history stub) :
    List.Forall₂ (fun made task => ∀ key ≠ py "status", task.get? key = made.get? key)
      (createdTasks runtime history) stub.tasks.values ∧
    (∀ task ∈ stub.tasks.values,
      statusOf task = some pendingStatus ∨ statusOf task = some completedStatus) ∧
    (stub.tasks.values.map fun task => task.get? (py "id")) =
      stub.tasks.keys.map (fun taskId => some (.string taskId)) ∧
    stub.tasks.keys.Nodup ∧
    ∀ exchange next, CleanStep runtime stub exchange next →
      MovesTasks runtime (Starved runtime history) stub exchange next := by
  have keeps := keeps_run distinct run
  have recounts := recounts_run distinct run
  refine ⟨keeps.stored.imp fun _ _ stored key => stored.get?, fun task => keeps.status, ?_, stub.tasks.distinct, ?_⟩
  · rw [Dict.values, Dict.keys, List.map_map, List.map_map]
    apply List.map_congr_left
    intro entry member
    exact keeps.own entry.1 entry.2 (stub.tasks.mem_entries_iff.mp member)
  · intro exchange next step
    apply moves_step distinct keeps _ step
    rw [queueStarveActive_iff recounts.sound]
    simp only [recounts.agrees, Starved]

/-! ### A task under queue starvation -/

def starveRequest : Request := jsonPost (py "/v1/chaos/queue-starve") (ascii "\x7b\x7d")

def taskRequest : Request := jsonPost (py "/v1/teams/t1/tasks") (ascii "\x7b\x7d")

def listingRequest : Request := { method := .get, path := tasksPath }

def reliefRequest : Request := { method := .delete, path := py "/v1/chaos/fault-" }

def starvedOutcome : Outcome := handle sampleRuntime {} starveRequest

def queuedOutcome : Outcome := handle sampleRuntime starvedOutcome.stub taskRequest

def heldOutcome : Outcome := handle sampleRuntime queuedOutcome.stub listingRequest

def relievedOutcome : Outcome := handle sampleRuntime heldOutcome.stub reliefRequest

def doneOutcome : Outcome := handle sampleRuntime relievedOutcome.stub listingRequest

private theorem queued_run : Execution (CleanStep sampleRuntime) {}
    [⟨starveRequest, starvedOutcome⟩, ⟨taskRequest, queuedOutcome⟩] queuedOutcome.stub := by
  have first : starvedOutcome.raised = none := by decide +kernel
  have second : queuedOutcome.raised = none := by decide +kernel
  exact .more ⟨⟨rfl, rfl⟩, first⟩ (.single ⟨⟨rfl, rfl⟩, second⟩)

private theorem held_step : CleanStep sampleRuntime queuedOutcome.stub ⟨listingRequest, heldOutcome⟩ heldOutcome.stub :=
  ⟨⟨rfl, rfl⟩, by decide +kernel⟩

private theorem relieved_run : Execution (CleanStep sampleRuntime) {}
    [⟨starveRequest, starvedOutcome⟩, ⟨taskRequest, queuedOutcome⟩, ⟨listingRequest, heldOutcome⟩,
      ⟨reliefRequest, relievedOutcome⟩] relievedOutcome.stub := by
  have last : relievedOutcome.raised = none := by decide +kernel
  exact queued_run.append (.more held_step (.single ⟨⟨rfl, rfl⟩, last⟩))

private theorem listing_lists : ListsTasks sampleRuntime listingRequest := ⟨rfl, by decide⟩

/-- A task that is listed under queue starvation stays as it was created; listed again when the
fault is deleted it is completed, and still the one that was created. -/
theorem created_task_is_kept :
    heldOutcome.stub.tasks = queuedOutcome.stub.tasks ∧
    (∀ task ∈ doneOutcome.stub.tasks.values, statusOf task = some completedStatus) ∧
    List.Forall₂ (fun made task => ∀ key ≠ py "status", task.get? key = made.get? key)
      (createdTasks sampleRuntime [⟨starveRequest, starvedOutcome⟩, ⟨taskRequest, queuedOutcome⟩,
        ⟨listingRequest, heldOutcome⟩, ⟨reliefRequest, relievedOutcome⟩]) relievedOutcome.stub.tasks.values := by
  have hungry : queueStarveActive queuedOutcome.stub.faults = true := by decide +kernel
  have fed : queueStarveActive relievedOutcome.stub.faults = false := by decide +kernel
  have last : doneOutcome.raised = none := by decide +kernel
  have starved : Starved sampleRuntime [⟨starveRequest, starvedOutcome⟩, ⟨taskRequest, queuedOutcome⟩] := by
    have recounts := recounts_run sampleRuntime_distinct queued_run
    have found := (queueStarveActive_iff recounts.sound).mp hungry
    simp only [recounts.agrees] at found
    exact found
  have relieved : ¬ Starved sampleRuntime [⟨starveRequest, starvedOutcome⟩, ⟨taskRequest, queuedOutcome⟩,
      ⟨listingRequest, heldOutcome⟩, ⟨reliefRequest, relievedOutcome⟩] := by
    have recounts := recounts_run sampleRuntime_distinct relieved_run
    intro live
    simp only [Starved, ← recounts.agrees, ← queueStarveActive_iff recounts.sound, fed, Bool.false_eq_true] at live
  obtain ⟨_, _, _, _, held⟩ := tasks_follow_history sampleRuntime sampleRuntime_distinct queued_run
  obtain ⟨kept, _, _, _, finished⟩ := tasks_follow_history sampleRuntime sampleRuntime_distinct relieved_run
  obtain ⟨_, _, _, _, same, _⟩ := (held _ _ held_step).lists listing_lists
  obtain ⟨_, _, _, _, _, completed⟩ := (finished ⟨listingRequest, doneOutcome⟩ _ ⟨⟨rfl, rfl⟩, last⟩).lists listing_lists
  exact ⟨same starved, completed relieved, kept⟩

end Charybdis.Stub
