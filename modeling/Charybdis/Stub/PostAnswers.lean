import Charybdis.Stub.Liveness

/-! What becomes of a POST while no response is delayed. -/

namespace Charybdis.Stub

open Foundation

/-- No fault of the registry is of type `latency`. -/
def Undelayed (faults : Dict PyStr Record) : Prop :=
  ∀ fault ∈ faults.values, hasType (py "latency") fault = false

/-- The body is the text of a JSON object. -/
def ObjectBody (runtime : Runtime) (request : Request) : Prop :=
  request.rfile ≠ [] ∧ ∃ members, runtime.loads request.rfile = .ok (.object members)

/-- One response, of one of the three statuses; a request that has to be refused is
answered 400, and only a 201 changes what the stub keeps. -/
def ProperAnswer (stub : Agamemnon) (refused : Prop) (outcome : Outcome) : Prop :=
  outcome.raised = none ∧ ∃ reply, outcome.sent = [reply] ∧
    (reply.status = 201 ∨ reply.status = 400 ∨ reply.status = 404) ∧
    (refused → reply.status = 400) ∧
    (reply.status ≠ 201 → outcome.stub.faults = stub.faults ∧ outcome.stub.teams = stub.teams ∧
      outcome.stub.agents = stub.agents ∧ outcome.stub.tasks = stub.tasks)

/-- A creation without an object to create from. -/
def Uncreatable (runtime : Runtime) (request : Request) : Prop :=
  ∃ path, route runtime request.path = .ok path ∧ CreationPath path ∧ ¬ ObjectBody runtime request

/-- The member of its body that a creation reads. -/
def creationField (path : PyStr) : String := if TaskRoute path then "subject" else "name"

/-- A body a creation can take: an object, whose field can be written into the response. -/
def Creatable (runtime : Runtime) (field : String) (body : PyJson) : Prop :=
  ∃ members, body = .object members ∧
    ∀ value, (Dict.ofList members).get? (py field) = some value → Fits runtime 2 value

/-- What the handler takes without an exception: a path and a body that parse; for a fault a
false body or an object, whose fields can be written into the response and whose delay, if it
is a latency fault, can be slept; for a creation with a JSON content type a body that is null
or does not decode, or an object whose field can be written. -/
def Digestible (runtime : Runtime) (request : Request) : Prop :=
  ∃ path body empty, route runtime request.path = .ok path ∧ parseBody runtime request = .ok (body, empty) ∧
    (∀ chaosType, path = chaosPrefix ++ chaosType → chaosType ∈ faultTypes → empty = false →
      ∃ fields, bodyFields body = .ok fields ∧ FieldsFit runtime 1 fields ∧
        (chaosType = py "latency" → ∃ delay, delayMs fields = .ok delay ∧ delay ≤ runtime.sleepLimitMs)) ∧
    (CreationPath path → isJson (request.contentType.getD []) = true →
      body = .null ∨ Creatable runtime (creationField path) body)

section Undelayed

variable {runtime : Runtime} {stub : Agamemnon} {faults : Dict PyStr Record}

private theorem not_waitedFor (other : hasType (py "latency") fault = false) : waitedFor fault = false := by
  rw [waitedFor, other, Bool.false_and]

private theorem latencyFaults_undelayed (undelayed : Undelayed faults) : latencyFaults faults = [] := by
  apply List.filter_eq_nil_iff.mpr
  intro fault member
  simp [not_waitedFor (undelayed fault member)]

theorem answers_undelayed (undelayed : Undelayed faults) : Answers runtime faults := by
  refine ⟨0, ?_, Int.natCast_nonneg _⟩
  rw [activeLatencyMs_iff, latencyFaults_undelayed undelayed]
  exact ⟨[], .nil, rfl⟩

private theorem latencyFaults_alone (undelayed : Undelayed faults) (faultId : PyStr) (fault : Record) :
    latencyFaults (faults.set faultId fault) = if waitedFor fault = true then [fault] else [] := by
  obtain ⟨first, last, entries, old⟩ := faults.set_entries faultId fault
  have quiet (part : List (PyStr × Record)) (inside : ∀ entry ∈ part, entry ∈ first ++ last) :
      (part.map Prod.snd).filter waitedFor = [] := by
    apply List.filter_eq_nil_iff.mpr
    intro other member
    obtain ⟨entry, present, same⟩ := List.mem_map.mp member
    subst same
    have kept : entry.2 ∈ faults.values := List.mem_map_of_mem (old entry (inside entry present))
    simp [not_waitedFor (undelayed _ kept)]
  have before := quiet first fun entry => List.mem_append_left _
  have after := quiet last fun entry => List.mem_append_right _
  rw [latencyFaults, Dict.values, entries, List.map_append, List.filter_append, before, List.map_cons,
    List.nil_append]
  by_cases waits : waitedFor fault = true
  · rw [List.filter_cons_of_pos waits, after, if_pos waits]
  · rw [List.filter_cons_of_neg waits, after, if_neg waits]

/-- The registration of a fault is answered unless it is a delay that cannot be slept. -/
theorem answers_registered_iff (undelayed : Undelayed stub.faults) (fields : Record) :
    Answers runtime (registered runtime stub chaosType fields).faults ↔
      (chaosType = py "latency" → ∃ delay, delayMs fields = .ok delay ∧ delay ≤ runtime.sleepLimitMs) := by
  simp only [Answers, registered, activeLatencyMs_iff, latencyFaults_alone undelayed, waitedFor_newFault,
    decide_eq_true_eq]
  by_cases latency : chaosType = py "latency"
  · simp only [latency, ↓reduceIte, true_implies]
    constructor
    · intro answers
      obtain ⟨total, ⟨delays, each, sum⟩, short⟩ := answers
      cases each with
      | cons read rest =>
        cases rest
        rw [delayMs_newFault] at read
        exact ⟨_, read, by simpa [sum] using short⟩
    · intro able
      obtain ⟨delay, read, short⟩ := able
      exact ⟨delay, ⟨[delay], .cons ((delayMs_newFault fields).trans read) .nil, by simp⟩, short⟩
  · simp only [latency, ↓reduceIte, false_implies, iff_true]
    exact ⟨0, ⟨[], .nil, rfl⟩, by omega⟩

end Undelayed

/-! ### The routes -/

section Routes

variable {runtime : Runtime} {stub next : Agamemnon} {refused : Prop} {body : PyJson}

private theorem proper_refusal (undelayed : Undelayed stub.faults) (status : Nat) (message : String)
    (known : status = 400 ∨ status = 404 ∧ ¬ refused) :
    ProperAnswer stub refused (send runtime stub status (errorBody message)) := by
  obtain ⟨reply, sent, calm⟩ : Responds (send runtime stub status (errorBody message)) :=
    responds_send_iff.mpr ⟨answers_undelayed undelayed, fits_textBody _ _ _⟩
  have same : reply.status = status := send_status (by rw [sent]; exact List.mem_singleton_self _)
  rw [← same] at known
  refine ⟨calm, reply, sent, .inr (known.imp_right And.left), fun must => ?_, fun _ => ?_⟩
  · exact known.resolve_right fun other => other.2 must
  · rw [send_stub]
    exact ⟨rfl, rfl, rfl, rfl⟩

private theorem not_proper_raised (error : PyError) :
    ¬ ProperAnswer stub refused { stub := next, raised := some error } := by
  intro ⟨calm, _⟩
  cases calm

private theorem proper_created_iff (accepted : ¬ refused) :
    ProperAnswer stub refused (send runtime next 201 body) ↔ Answers runtime next.faults ∧ Fits runtime 0 body := by
  have responds : Responds (send runtime next 201 body) ↔ Answers runtime next.faults ∧ Fits runtime 0 body :=
    responds_send_iff
  rw [← responds]
  constructor
  · rintro ⟨calm, reply, sent, _⟩
    exact ⟨reply, sent, calm⟩
  · rintro ⟨reply, sent, calm⟩
    have created : reply.status = 201 := send_status (by rw [sent]; exact List.mem_singleton_self _)
    exact ⟨calm, reply, sent, .inl created, fun must => absurd must accepted, fun other => absurd created other⟩

theorem postChaos_proper_iff (undelayed : Undelayed stub.faults) (accepted : ¬ refused) (chaosType : PyStr)
    (body : PyJson) (empty : Bool) :
    ProperAnswer stub refused (postChaos runtime stub chaosType body empty) ↔
      (chaosType ∈ faultTypes → empty = false → ∃ fields, bodyFields body = .ok fields ∧ FieldsFit runtime 1 fields ∧
        (chaosType = py "latency" → ∃ delay, delayMs fields = .ok delay ∧ delay ≤ runtime.sleepLimitMs)) := by
  by_cases known : chaosType ∈ faultTypes
  · have listed : chaosType ∈ chaosTypes := mem_chaosTypes.mpr (.inl known)
    have real := faultType_ne_testEmpty known
    cases empty with
    | true =>
      simp only [postChaos, listed, real, not_true_eq_false, ↓reduceIte, Bool.true_eq_false, false_implies,
        implies_true, iff_true]
      exact proper_refusal undelayed 400 _ (.inl rfl)
    | false =>
      cases read : bodyFields body with
      | error error =>
        have raised : postChaos runtime stub chaosType body false =
            { stub := (draw runtime stub).2, raised := some error } := by
          simp [postChaos, listed, real, draw, mergeBody_eq, read, Except.map]
        rw [raised]
        refine ⟨fun proper => absurd proper (not_proper_raised error), fun able => ?_⟩
        obtain ⟨_, other, _⟩ := able known rfl
        cases other
      | ok fields =>
        have made : postChaos runtime stub chaosType body false =
            send runtime (registered runtime stub chaosType fields) 201
              (jsonOf (newFault (runtime.uuid4 stub.drawn) chaosType fields)) := by
          simp [postChaos, listed, real, draw, mergeBody_eq, read, Except.map, registered, newFault]
        have room : 0 < runtime.maxNesting := Nat.zero_lt_of_lt runtime.nesting
        rw [made, proper_created_iff accepted, answers_registered_iff undelayed, fits_newFault room]
        simp [known, and_comm]
  · simp only [known, false_implies, iff_true]
    by_cases diagnostic : chaosType = py "test-empty"
    · subst diagnostic
      have listed : py "test-empty" ∈ chaosTypes := mem_chaosTypes.mpr (.inr rfl)
      simp only [postChaos, listed, not_true_eq_false, ↓reduceIte]
      split <;> exact proper_refusal undelayed 400 _ (.inl rfl)
    · have unlisted : chaosType ∉ chaosTypes := fun listed =>
        (mem_chaosTypes.mp listed).elim known diagnostic
      simp only [postChaos, unlisted, not_false_eq_true, ↓reduceIte]
      exact proper_refusal undelayed 404 _ (.inr ⟨rfl, accepted⟩)

/-- A creation reads one field of its body: if the body is an object it answers 201 with that
field two levels deep, and it raises after drawing an identifier if it is anything else. -/
def CreatesFromObject (runtime : Runtime) (stub : Agamemnon) (field : String) (body : PyJson) (outcome : Outcome) :
    Prop :=
  (∃ members, body = .object members ∧ ∃ next reply, next.faults = stub.faults ∧
    outcome = send runtime next 201 reply ∧ (Fits runtime 0 reply ↔
      ∀ value, (Dict.ofList members).get? (py field) = some value → Fits runtime 2 value)) ∨
  ((¬ ∃ members, body = .object members) ∧ ∃ next error, outcome = { stub := next, raised := some error })

private theorem createsFromObject_bodyGet (field : String) (default : PyStr) (drawn : Agamemnon)
    (made : PyJson → Agamemnon) (reply : PyJson → PyJson) (same : ∀ value, (made value).faults = stub.faults)
    (fits : ∀ value, Fits runtime 0 (reply value) ↔ Fits runtime 2 value) :
    CreatesFromObject runtime stub field body (match bodyGet field (.string default) body with
      | .error error => { stub := drawn, raised := some error }
      | .ok value => send runtime (made value) 201 (reply value)) := by
  cases body with
  | object members =>
    refine .inl ⟨members, rfl, _, _, same _, rfl, (fits _).trans ?_⟩
    have nesting := runtime.nesting
    change Fits runtime 2 (((Dict.ofList members : Record).get? (py field)).getD (.string default)) ↔ _
    cases (Dict.ofList members : Record).get? (py field) with
    | none =>
      simp only [Option.getD_none, fits_string, reduceCtorEq, false_implies, implies_true, iff_true]
      omega
    | some value => simp
  | null | boolean _ | number _ | string _ | array _ => exact .inr ⟨by simp, _, _, rfl⟩

private theorem fits_named (runtime : Runtime) (id : PyStr) (name : PyJson) :
    Fits runtime 1 (bodyOf [("id", .string id), ("name", name)]) ↔ Fits runtime 2 name := by
  have nesting := runtime.nesting
  rw [fits_bodyOf (by omega) (by simp only [List.map_cons, List.map_nil]; decide)]
  simp only [List.forall_mem_cons, fits_string, List.not_mem_nil, false_implies, implies_true, and_true,
    and_iff_right_iff_imp]
  omega

theorem createsFromObject_postTeams :
    CreatesFromObject runtime stub "name" body (postTeams runtime stub body) := by
  have room : 0 < runtime.maxNesting := Nat.zero_lt_of_lt runtime.nesting
  exact createsFromObject_bodyGet "name" _ _ _ _ (fun _ => rfl) fun name =>
    (fits_single room _ _).trans (fits_named runtime _ name)

theorem createsFromObject_postTasks :
    CreatesFromObject runtime stub "subject" body (postTasks runtime stub teamId body) := by
  have nesting := runtime.nesting
  exact createsFromObject_bodyGet "subject" _ _ _ _ (fun _ => rfl) fun subject =>
    (fits_single (by omega) _ _).trans (fits_newTask (by omega) _ _ subject)

theorem createsFromObject_postAgents :
    CreatesFromObject runtime stub "name" body (postAgents runtime stub body) := by
  refine createsFromObject_bodyGet "name" _ _ _ _ (fun _ => rfl) fun name => ?_
  have nesting := runtime.nesting
  rw [fits_bodyOf (by omega) (by simp only [List.map_cons, List.map_nil]; decide)]
  simp only [List.forall_mem_cons, fits_string, List.not_mem_nil, false_implies, implies_true, and_true]
  refine (and_iff_left (by omega)).trans (fits_named runtime _ name)

theorem creationField_tasks (inside : TaskRoute path) : creationField path = "subject" := if_pos inside

theorem creationField_of_not_tasks (other : ¬ TaskRoute path) : creationField path = "name" := if_neg other

/-- The three creation routes refuse and create alike. -/
theorem doPost_creation (creation : CreationPath path) (contentType : PyStr) (empty : Bool) :
    ∃ created, CreatesFromObject runtime stub (creationField path) body created ∧
      doPost runtime stub path contentType body empty =
        if badRequest contentType body then send runtime stub 400 (errorBody "bad request") else created := by
  simp only [doPost, not_chaos_of_creation creation, Bool.false_eq_true, ↓reduceIte]
  split
  · rename_i same
    rw [creationField_of_not_tasks (same ▸ by decide)]
    exact ⟨_, createsFromObject_postTeams, rfl⟩
  · rename_i teams
    split
    · rename_i tasks
      rw [creationField_tasks tasks]
      exact ⟨_, createsFromObject_postTasks, rfl⟩
    · rename_i tasks
      rw [creationField_of_not_tasks tasks]
      split
      · exact ⟨_, createsFromObject_postAgents, rfl⟩
      · rename_i agents
        rcases creation with same | both | same
        · exact absurd same teams
        · exact absurd both tasks
        · exact absurd same agents

theorem doPost_elsewhere (outside : chaosPrefix.isPrefixOf path = false) (other : ¬ CreationPath path)
    (contentType : PyStr) (empty : Bool) :
    doPost runtime stub path contentType body empty = send runtime stub 404 (errorBody "not found") := by
  simp only [CreationPath, not_or] at other
  simp only [doPost, outside, other, Bool.false_eq_true, ↓reduceIte]

theorem badRequest_iff {contentType : PyStr} :
    badRequest contentType body = true ↔ body = .null ∨ isJson contentType = false := by
  unfold badRequest
  split
  · simp
  · rename_i other
    have full : body ≠ .null := other
    simp [full]

private theorem creation_proper_iff (undelayed : Undelayed stub.faults) (creation : CreationPath path)
    (contentType : PyStr) (empty : Bool) (must : refused ↔ ¬ ∃ members, body = .object members) :
    ProperAnswer stub refused (doPost runtime stub path contentType body empty) ↔
      (isJson contentType = true → body = .null ∨ Creatable runtime (creationField path) body) := by
  obtain ⟨created, creates, dispatched⟩ : ∃ created, CreatesFromObject runtime stub (creationField path) body created ∧
    doPost runtime stub path contentType body empty = _ := doPost_creation creation contentType empty
  rw [dispatched]
  by_cases bad : badRequest contentType body = true
  · rw [if_pos bad]
    refine ⟨fun _ typed => ?_, fun _ => proper_refusal undelayed 400 _ (.inl rfl)⟩
    rcases badRequest_iff.mp bad with null | untyped
    · exact .inl null
    · simp [untyped] at typed
  · rw [if_neg bad]
    have good := mt badRequest_iff.mpr bad
    rw [not_or, Bool.not_eq_false] at good
    rcases creates with ⟨members, object, next, reply, same, sent, fits⟩ | ⟨shape, next, error, raised⟩
    · rw [sent, proper_created_iff (must.not.mpr (not_not.mpr ⟨members, object⟩)), same, fits,
        and_iff_right (answers_undelayed undelayed)]
      refine ⟨fun each _ => .inr ⟨members, object, each⟩, fun able => ?_⟩
      obtain ⟨others, again, each⟩ := (able good.2).resolve_left good.1
      cases object.symm.trans again
      exact each
    · rw [raised]
      refine ⟨fun proper => absurd proper (not_proper_raised error), fun able => ?_⟩
      obtain ⟨members, object, _⟩ := (able good.2).resolve_left good.1
      exact absurd ⟨members, object⟩ shape

end Routes

section Request

variable {runtime : Runtime} {request : Request}

theorem parseBody_object_iff (whole : request.contentLength = .length request.rfile.length)
    (parsed : parseBody runtime request = .ok (body, empty)) :
    (∃ members, body = .object members) ↔ ObjectBody runtime request := by
  rw [parseBody_whole whole] at parsed
  by_cases none : request.rfile = []
  · simp only [none, ↓reduceIte, Except.ok.injEq, Prod.mk.injEq] at parsed
    simp [← parsed.1, ObjectBody, none]
  · simp only [none, ↓reduceIte, loadBody] at parsed
    cases loaded : runtime.loads request.rfile with
    | ok value =>
      simp only [loaded, Except.map, Except.ok.injEq, Prod.mk.injEq] at parsed
      simp [← parsed.1, ObjectBody, none, loaded]
    | error failure =>
      cases failure with
      | decode =>
        simp only [loaded, Except.map, Except.ok.injEq, Prod.mk.injEq] at parsed
        simp [← parsed.1, ObjectBody, loaded]
      | raised error => simp [loaded, Except.map] at parsed

private theorem uncreatable_iff (routed : route runtime request.path = .ok path) :
    Uncreatable runtime request ↔ CreationPath path ∧ ¬ ObjectBody runtime request := by
  constructor
  · intro refuses
    obtain ⟨_, same, creation⟩ := refuses
    cases routed.symm.trans same
    exact creation
  · exact fun creation => ⟨path, routed, creation⟩

private theorem digestible_iff (routed : route runtime request.path = .ok path)
    (parsed : parseBody runtime request = .ok (body, empty)) : Digestible runtime request ↔
      (∀ chaosType, path = chaosPrefix ++ chaosType → chaosType ∈ faultTypes → empty = false →
        ∃ fields, bodyFields body = .ok fields ∧ FieldsFit runtime 1 fields ∧ (chaosType = py "latency" →
          ∃ delay, delayMs fields = .ok delay ∧ delay ≤ runtime.sleepLimitMs)) ∧
      (CreationPath path → isJson (request.contentType.getD []) = true →
        body = .null ∨ Creatable runtime (creationField path) body) := by
  constructor
  · intro whole
    obtain ⟨_, _, _, samePath, sameBody, able⟩ := whole
    cases routed.symm.trans samePath
    cases parsed.symm.trans sameBody
    exact able
  · exact fun able => ⟨path, body, empty, routed, parsed, able⟩

private theorem doPost_proper_iff {stub : Agamemnon} (undelayed : Undelayed stub.faults)
    (whole : request.contentLength = .length request.rfile.length)
    (routed : route runtime request.path = .ok path) (parsed : parseBody runtime request = .ok (body, empty)) :
    ProperAnswer stub (Uncreatable runtime request)
        (doPost runtime stub path (request.contentType.getD []) body empty) ↔ Digestible runtime request := by
  rw [digestible_iff routed parsed]
  by_cases creation : CreationPath path
  · have outside := not_chaos_of_creation creation
    rw [creation_proper_iff undelayed creation _ empty
      (by rw [uncreatable_iff routed, parseBody_object_iff whole parsed]; exact and_iff_right creation)]
    constructor
    · intro able
      refine ⟨fun chaosType same => ?_, fun _ => able⟩
      rw [same, List.isPrefixOf_iff_prefix.mpr (List.prefix_append _ _)] at outside
      cases outside
    · exact fun able => able.2 creation
  · have accepted : ¬ Uncreatable runtime request := fun must => creation ((uncreatable_iff routed).mp must).1
    by_cases inside : chaosPrefix.isPrefixOf path = true
    · obtain ⟨chaosType, same⟩ := List.isPrefixOf_iff_prefix.mp inside
      subst same
      simp only [doPost, inside, ↓reduceIte, List.drop_left]
      rw [postChaos_proper_iff undelayed accepted]
      constructor
      · intro able
        refine ⟨fun other same => ?_, fun other => absurd other creation⟩
        exact (List.append_cancel_left same) ▸ able
      · exact fun able => able.1 chaosType rfl
    · have outside := Bool.eq_false_iff.mpr inside
      rw [doPost_elsewhere outside creation]
      refine ⟨fun _ => ⟨fun chaosType same => ?_, fun other => absurd other creation⟩,
        fun _ => proper_refusal undelayed 404 _ (.inr ⟨rfl, accepted⟩)⟩
      rw [same] at inside
      exact absurd (List.isPrefixOf_iff_prefix.mpr (List.prefix_append _ _)) inside

end Request

/-- Without latency faults a POST gets its one answer, and leaves no trace unless that is a
201, exactly when its path and its body are ones the handler can take in. -/
theorem post_is_answered_iff (runtime : Runtime) (stub : Agamemnon) (undelayed : Undelayed stub.faults)
    (request : Request) (verb : request.method = .post)
    (whole : request.contentLength = .length request.rfile.length) :
    ProperAnswer stub (Uncreatable runtime request) (handle runtime stub request) ↔
      Digestible runtime request := by
  cases routed : route runtime request.path with
  | error error =>
    have raised : handle runtime stub request = { stub, raised := some error } := by
      simp [handle, verb, routed]
    rw [raised]
    refine ⟨fun proper => absurd proper (not_proper_raised error), ?_⟩
    intro able
    obtain ⟨_, _, _, other, _⟩ := able
    cases routed.symm.trans other
  | ok path =>
    cases parsed : parseBody runtime request with
    | error error =>
      have raised : handle runtime stub request = { stub, raised := some error } := by
        simp [handle, verb, routed, parsed]
      rw [raised]
      refine ⟨fun proper => absurd proper (not_proper_raised error), ?_⟩
      intro able
      obtain ⟨_, _, _, _, other, _⟩ := able
      cases parsed.symm.trans other
    | ok result =>
      obtain ⟨body, empty⟩ := result
      have served : handle runtime stub request =
          doPost runtime stub path (request.contentType.getD []) body empty := by
        simp only [handle, verb, routed, parsed]
      rw [served]
      exact doPost_proper_iff undelayed whole routed parsed

/-- The sample runtime, which knows the empty array as well. -/
def listRuntime : Runtime :=
  { sampleRuntime with
    loads := fun raw => if raw = ascii "[]" then .ok (.array []) else sampleRuntime.loads raw }

/-- An array sent as a team raises in the handler: nothing is sent at all. -/
theorem array_team_is_not_answered :
    let request := jsonPost (py "/v1/teams") (ascii "[]")
    ¬ ProperAnswer {} (Uncreatable listRuntime request) (handle listRuntime {} request) := by
  intro request proper
  have raised : (handle listRuntime {} request).raised = some .attributeError := by decide +kernel
  cases raised.symm.trans proper.1

/-- An empty object is a team without a name. -/
theorem empty_team_is_answered :
    let request := jsonPost (py "/v1/teams") (ascii "\x7b\x7d")
    ProperAnswer {} (Uncreatable sampleRuntime request) (handle sampleRuntime {} request) := by
  intro request
  apply (post_is_answered_iff sampleRuntime {} (by simp [Undelayed, Dict.values, Dict.empty]) request rfl rfl).mpr
  refine ⟨py "/v1/teams", .object [], false, by decide +kernel, rfl, ?_,
    fun _ _ => .inr ⟨[], rfl, fun _ found => by cases found⟩⟩
  intro chaosType same
  have outside := not_chaos_of_creation (.inl rfl : CreationPath (py "/v1/teams"))
  rw [same, List.isPrefixOf_iff_prefix.mpr (List.prefix_append _ _)] at outside
  cases outside

end Charybdis.Stub
