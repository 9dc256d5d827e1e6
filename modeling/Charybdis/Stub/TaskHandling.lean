import Charybdis.Stub.Handling

/-! What a request does to the tasks, read off the request and the state. -/

namespace Charybdis.Stub

open Foundation

def pendingStatus : PyJson := .string (py "pending")
def completedStatus : PyJson := .string (py "completed")

/-- The record a creation stores. -/
def newTask (taskId teamId : PyStr) (subject : PyJson) : Record :=
  recordOf [("id", .string taskId), ("team_id", .string teamId), ("subject", subject), ("status", pendingStatus)]

def TaskRoute (path : PyStr) : Prop :=
  (py "/v1/teams/").isPrefixOf path = true ∧ (py "/tasks").isSuffixOf path = true

instance (path : PyStr) : Decidable (TaskRoute path) := inferInstanceAs (Decidable (_ ∧ _))

/-- The subject of the task a request asks to create. -/
def askedSubject (runtime : Runtime) (request : Request) : Option PyJson :=
  match request.method, route runtime request.path, parseBody runtime request with
  | .post, .ok path, .ok (body, _) =>
    if TaskRoute path ∧ badRequest (request.contentType.getD []) body = false then
      (bodyGet "subject" (.string []) body).toOption
    else none
  | _, _, _ => none

theorem get?_newTask (taskId teamId key : PyStr) (subject : PyJson) :
    (newTask taskId teamId subject).get? key =
      if key = py "status" then some pendingStatus
      else if key = py "subject" then some subject
      else if key = py "team_id" then some (.string teamId)
      else if key = py "id" then some (.string taskId) else none := by
  simp only [newTask, recordOf, List.map_cons, List.map_nil, Dict.ofList, List.foldl_cons, List.foldl_nil,
    Dict.get?_set, Dict.get?_empty]

theorem get?_completed (task : Record) (key : PyStr) :
    (completed task).get? key = if key = py "status" then some completedStatus else task.get? key :=
  task.get?_set _ _ _

theorem fits_newTask (room : levels < runtime.maxNesting) (taskId teamId : PyStr) (subject : PyJson) :
    Fits runtime levels (jsonOf (newTask taskId teamId subject)) ↔ Fits runtime (levels + 1) subject := by
  have whole : jsonOf (newTask taskId teamId subject) = bodyOf [("id", .string taskId), ("team_id", .string teamId),
    ("subject", subject), ("status", pendingStatus)] := rfl
  rw [whole, fits_bodyOf room (by simp only [List.map_cons, List.map_nil]; decide)]
  have text (string : PyStr) : Fits runtime (levels + 1) (.string string) := (fits_string _).mpr room
  simp [pendingStatus, text]

theorem fits_completed (room : levels < runtime.maxNesting) (fits : Fits runtime levels (jsonOf task)) :
    Fits runtime levels (jsonOf (completed task)) := by
  rw [fits_jsonOf room] at fits ⊢
  intro key value found
  rw [get?_completed] at found
  split at found
  · cases found
    exact (fits_string _).mpr room
  · exact fits key value found

/-- A `GET /v1/tasks`. -/
def ListsTasks (runtime : Runtime) (request : Request) : Prop :=
  request.method = .get ∧ route runtime request.path = .ok tasksPath

section Requests

variable {runtime : Runtime} {stub : Agamemnon} {request : Request}

/-- The state a listing answers from. -/
def listed (stub : Agamemnon) : Agamemnon :=
  if queueStarveActive stub.faults then stub else { stub with tasks := stub.tasks.mapValues completed }

def withTask (runtime : Runtime) (stub : Agamemnon) (teamId : PyStr) (subject : PyJson) : Agamemnon :=
  { stub with
    tasks := stub.tasks.set (runtime.uuid4 stub.drawn) (newTask (runtime.uuid4 stub.drawn) teamId subject)
    drawn := stub.drawn + 1 }

/-- The request neither creates nor lists tasks. -/
structure TasksAside (runtime : Runtime) (stub : Agamemnon) (request : Request) : Prop where
  same : (handle runtime stub request).stub.tasks = stub.tasks
  unlisted : ¬ ListsTasks runtime request
  uncreated : request.method = .post → ∀ path, route runtime request.path = .ok path → TaskRoute path →
    ∀ reply ∈ (handle runtime stub request).sent, reply.status ≠ 201

theorem drawn_le_handle (runtime : Runtime) (stub : Agamemnon) (request : Request) :
    stub.drawn ≤ (handle runtime stub request).stub.drawn := by
  rcases handle_cases runtime stub request with ⟨_, _, _, served⟩ | ⟨_, _, _, served⟩ | alone
  · rw [served, send_stub]
    exact Nat.le_succ _
  · rw [served, send_stub]
    exact le_rfl
  · exact alone.same.2

private theorem tasks_doGet (other : path ≠ tasksPath) : (doGet runtime stub path).stub.tasks = stub.tasks := by
  simp only [doGet, other, ↓reduceIte]
  repeat' split
  all_goals rw [send_stub]

private theorem tasks_doDelete : (doDelete runtime stub path).stub.tasks = stub.tasks := by
  simp only [doDelete]
  repeat' split
  all_goals rw [send_stub]

private theorem tasks_doPost (other : ¬ TaskRoute path) (contentType : PyStr) (body : PyJson) (empty : Bool) :
    (doPost runtime stub path contentType body empty).stub.tasks = stub.tasks := by
  simp only [TaskRoute] at other
  simp only [doPost, other, ↓reduceIte, postChaos, postTeams, postAgents, draw]
  repeat' split
  all_goals first | rfl | rw [send_stub]

private theorem doPost_taskRoute (runtime : Runtime) (stub : Agamemnon) (inside : TaskRoute path)
    (contentType : PyStr) (body : PyJson) (empty : Bool) :
    (∃ subject, badRequest contentType body = false ∧ bodyGet "subject" (.string []) body = .ok subject ∧
      doPost runtime stub path contentType body empty =
        send runtime (withTask runtime stub (teamSegment path) subject) 201
          (bodyOf [("task", jsonOf (newTask (runtime.uuid4 stub.drawn) (teamSegment path) subject))])) ∨
    ((doPost runtime stub path contentType body empty).stub.tasks = stub.tasks ∧
      ∀ reply ∈ (doPost runtime stub path contentType body empty).sent, reply.status ≠ 201) := by
  have creation : CreationPath path := .inr (.inl inside)
  have other : path ≠ py "/v1/teams" := by
    intro same
    rw [same] at inside
    exact absurd inside.1 (by decide)
  have served : doPost runtime stub path contentType body empty =
      if badRequest contentType body then send runtime stub 400 (errorBody "bad request")
      else postTasks runtime stub (teamSegment path) body := by
    simp only [TaskRoute] at inside
    simp only [doPost, not_chaos_of_creation creation, other, inside, and_self, Bool.false_eq_true, ↓reduceIte]
  rw [served]
  split
  · right
    refine ⟨by rw [send_stub], fun reply member created => ?_⟩
    cases (send_status member).symm.trans created
  · rename_i good
    simp only [postTasks, draw]
    cases bodyGet "subject" (.string []) body with
    | ok subject => exact .inl ⟨subject, Bool.eq_false_iff.mpr good, rfl, rfl⟩
    | error error => exact .inr ⟨rfl, by simp⟩

private theorem tasksAside_of_not_post (verb : request.method ≠ .post)
    (same : (handle runtime stub request).stub.tasks = stub.tasks) (unlisted : ¬ ListsTasks runtime request) :
    TasksAside runtime stub request :=
  ⟨same, unlisted, fun post => absurd post verb⟩

private theorem task_cases_get (verb : request.method = .get)
    (routed : route runtime request.path = .ok path) :
    (ListsTasks runtime request ∧ handle runtime stub request =
      send runtime (listed stub) 200 (bodyOf [("tasks", recordList (listed stub).tasks)])) ∨
    TasksAside runtime stub request := by
  have served : handle runtime stub request = doGet runtime stub path := by
    simp only [handle, verb, routed]
  by_cases tasks : path = tasksPath
  · subst tasks
    refine .inl ⟨⟨verb, routed⟩, ?_⟩
    rw [served]
    rfl
  · right
    apply tasksAside_of_not_post (by simp [verb])
    · rw [served, tasks_doGet tasks]
    · intro lists
      exact tasks (Except.ok.inj (routed.symm.trans lists.2))

private theorem task_cases_post (verb : request.method = .post)
    (routed : route runtime request.path = .ok path) :
    (∃ subject, TaskRoute path ∧ askedSubject runtime request = some subject ∧ handle runtime stub request =
      send runtime (withTask runtime stub (teamSegment path) subject) 201
        (bodyOf [("task", jsonOf (newTask (runtime.uuid4 stub.drawn) (teamSegment path) subject))])) ∨
    TasksAside runtime stub request := by
  have unlisted : ¬ ListsTasks runtime request := by
    intro lists
    cases verb.symm.trans lists.1
  cases parsed : parseBody runtime request with
  | error error =>
    have raised : handle runtime stub request = { stub, raised := some error } := by
      simp [handle, verb, routed, parsed]
    exact .inr ⟨by rw [raised], unlisted, by simp [raised]⟩
  | ok result =>
    have served : handle runtime stub request =
        doPost runtime stub path (request.contentType.getD []) result.1 result.2 := by
      simp only [handle, verb, routed, parsed]
    by_cases inside : TaskRoute path
    · rcases doPost_taskRoute runtime stub inside (request.contentType.getD [])
        result.1 result.2 with ⟨subject, good, read, made⟩ | ⟨same, uncreated⟩
      · refine .inl ⟨subject, inside, ?_, served.trans made⟩
        simp only [askedSubject, verb, routed, parsed, inside, good, and_self, ↓reduceIte, read, Except.toOption]
      · exact .inr ⟨served ▸ same, unlisted, fun _ _ _ _ => served ▸ uncreated⟩
    · refine .inr ⟨by rw [served, tasks_doPost inside], unlisted, ?_⟩
      intro _ other same route
      cases routed.symm.trans same
      exact absurd route inside

/-- Everything a request can do to the tasks: create one, list them all, or neither. -/
theorem task_cases (runtime : Runtime) (stub : Agamemnon) (request : Request) :
    (∃ path subject, request.method = .post ∧ route runtime request.path = .ok path ∧ TaskRoute path ∧
      askedSubject runtime request = some subject ∧
      handle runtime stub request = send runtime (withTask runtime stub (teamSegment path) subject) 201
        (bodyOf [("task", jsonOf (newTask (runtime.uuid4 stub.drawn) (teamSegment path) subject))])) ∨
    (ListsTasks runtime request ∧ handle runtime stub request =
      send runtime (listed stub) 200 (bodyOf [("tasks", recordList (listed stub).tasks)])) ∨
    TasksAside runtime stub request := by
  cases routed : route runtime request.path with
  | error error =>
    have same : (handle runtime stub request).stub = stub := by
      cases verb : request.method <;> simp [handle, verb, routed]
    refine .inr (.inr ⟨by rw [same], ?_, ?_⟩)
    · intro lists
      cases routed.symm.trans lists.2
    · intro _ path other
      cases routed.symm.trans other
  | ok path =>
    have unlisted (verb : request.method ≠ .get) : ¬ ListsTasks runtime request := fun lists => verb lists.1
    cases verb : request.method with
    | other =>
      right; right
      exact tasksAside_of_not_post (by simp [verb]) (by simp [handle, verb]) (unlisted (by simp [verb]))
    | delete =>
      have served : handle runtime stub request = doDelete runtime stub path := by
        simp only [handle, verb, routed]
      right; right
      exact tasksAside_of_not_post (by simp [verb]) (by rw [served, tasks_doDelete]) (unlisted (by simp [verb]))
    | get => exact .inr (task_cases_get verb routed)
    | post =>
      rcases task_cases_post verb routed with ⟨subject, inside, asks, made⟩ | aside
      · exact .inl ⟨path, subject, rfl, rfl, inside, asks, made⟩
      · exact .inr (.inr aside)

end Requests

end Charybdis.Stub
