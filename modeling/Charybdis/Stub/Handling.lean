import Charybdis.Stub.Handler

/-! What a request does to the fault registry, read off the request and the state. -/

namespace Charybdis.Stub

open Foundation

@[simp] theorem send_stub (runtime : Runtime) (stub : Agamemnon) (status : Nat) (body : PyJson) :
    (send runtime stub status body).stub = stub := by
  unfold send
  split
  · rfl
  · split
    · rfl
    · split <;> rfl

/-- The stub can wait for a response: its latency total is an integer the clock can sleep. -/
def Answers (runtime : Runtime) (faults : Dict PyStr Record) : Prop :=
  ∃ delay, activeLatencyMs faults = .ok delay ∧ delay ≤ runtime.sleepLimitMs

/-- `json.dumps` can write the value as a member or an item `levels` deep in a response. -/
def Fits (runtime : Runtime) (levels : Nat) (value : PyJson) : Prop := value.depth + levels ≤ runtime.maxNesting

theorem send_cases (runtime : Runtime) (stub : Agamemnon) (status : Nat) (body : PyJson) :
    (∃ error, ¬ (Answers runtime stub.faults ∧ Fits runtime 0 body) ∧
      send runtime stub status body = { stub, raised := some error }) ∨
    (∃ delay, activeLatencyMs stub.faults = .ok delay ∧ delay ≤ runtime.sleepLimitMs ∧ Fits runtime 0 body ∧
      send runtime stub status body = { stub, sent := [⟨status, body, max 0 delay⟩] }) := by
  cases total : activeLatencyMs stub.faults with
  | error error =>
    refine .inl ⟨error, ?_, by simp [send, total]⟩
    rintro ⟨⟨_, same, _⟩, _⟩
    cases total.symm.trans same
  | ok delay =>
    by_cases tooLong : delay > runtime.sleepLimitMs
    · have waits : delay > 0 := by omega
      refine .inl ⟨.overflowError, ?_, by simp [send, total, waits, tooLong]⟩
      rintro ⟨⟨other, same, short⟩, _⟩
      cases total.symm.trans same
      omega
    · by_cases flat : body.depth ≤ runtime.maxNesting
      · refine .inr ⟨delay, rfl, by omega, flat, ?_⟩
        simp [send, total, tooLong, Runtime.dumps, flat]
      · refine .inl ⟨.recursionError, fun able => flat able.2, ?_⟩
        simp [send, total, tooLong, Runtime.dumps, flat]

theorem send_status {reply : Reply} (member : reply ∈ (send runtime stub status body).sent) :
    reply.status = status := by
  rcases send_cases runtime stub status body with ⟨_, _, sent⟩ | ⟨_, _, _, _, sent⟩
  · rw [sent] at member
    cases member
  · rw [sent] at member
    cases List.mem_singleton.mp member
    rfl

/-! ### What can be written -/

theorem entries_recordOf {pairs : List (String × PyJson)} (distinct : (pairs.map fun pair => py pair.1).Nodup) :
    (recordOf pairs).entries = pairs.map fun pair => (py pair.1, pair.2) := by
  apply Dict.entries_ofList
  rw [List.map_map]
  exact distinct

theorem bodyOf_single (name : String) (value : PyJson) : bodyOf [(name, value)] = .object [(py name, value)] := by
  rw [bodyOf, jsonOf, entries_recordOf (by simp)]
  rfl

section Fits

variable {runtime : Runtime}

theorem Fits.mono (fits : Fits runtime levels value) (less : fewer ≤ levels) : Fits runtime fewer value :=
  (Nat.add_le_add_left less _).trans fits

@[simp] theorem fits_string (text : PyStr) : Fits runtime levels (.string text) ↔ levels ≤ runtime.maxNesting := by
  simp [Fits, Json.depth]

@[simp] theorem fits_boolean (value : Bool) : Fits runtime levels (.boolean value) ↔ levels ≤ runtime.maxNesting := by
  simp [Fits, Json.depth]

theorem fits_object (room : levels < runtime.maxNesting) {members : List (PyStr × PyJson)} :
    Fits runtime levels (.object members) ↔ ∀ member ∈ members, Fits runtime (levels + 1) member.2 := by
  obtain ⟨limit, nesting⟩ := Nat.exists_eq_add_of_lt room
  have whole : Fits runtime levels (.object members) ↔ (Json.object members).depth ≤ limit + 1 := by
    rw [Fits, nesting]
    omega
  have part (value : PyJson) : Fits runtime (levels + 1) value ↔ value.depth ≤ limit := by
    rw [Fits, nesting]
    omega
  simp only [whole, part, Json.depth_object_le]

theorem fits_array (room : levels < runtime.maxNesting) {items : List PyJson} :
    Fits runtime levels (.array items) ↔ ∀ item ∈ items, Fits runtime (levels + 1) item := by
  obtain ⟨limit, nesting⟩ := Nat.exists_eq_add_of_lt room
  have whole : Fits runtime levels (.array items) ↔ (Json.array items).depth ≤ limit + 1 := by
    rw [Fits, nesting]
    omega
  have part (value : PyJson) : Fits runtime (levels + 1) value ↔ value.depth ≤ limit := by
    rw [Fits, nesting]
    omega
  simp only [whole, part, Json.depth_array_le]

theorem fits_jsonOf (room : levels < runtime.maxNesting) (record : Record) :
    Fits runtime levels (jsonOf record) ↔ ∀ key value, record.get? key = some value → Fits runtime (levels + 1) value := by
  rw [jsonOf, fits_object room, Prod.forall]
  simp only [record.mem_entries_iff]

theorem fits_bodyOf (room : levels < runtime.maxNesting) {pairs : List (String × PyJson)}
    (distinct : (pairs.map fun pair => py pair.1).Nodup) :
    Fits runtime levels (bodyOf pairs) ↔ ∀ pair ∈ pairs, Fits runtime (levels + 1) pair.2 := by
  rw [bodyOf, jsonOf, fits_object room, entries_recordOf distinct, List.forall_mem_map]

theorem fits_single (room : levels < runtime.maxNesting) (name : String) (value : PyJson) :
    Fits runtime levels (bodyOf [(name, value)]) ↔ Fits runtime (levels + 1) value := by
  rw [fits_bodyOf room (by simp), List.forall_mem_singleton]

theorem fits_textBody (runtime : Runtime) (name : String) (text : PyStr) :
    Fits runtime 0 (bodyOf [(name, .string text)]) := by
  have nesting := runtime.nesting
  rw [fits_single (by omega), fits_string]
  omega

theorem fits_listing (runtime : Runtime) (name : String) (records : Dict PyStr Record) :
    Fits runtime 0 (bodyOf [(name, recordList records)]) ↔ ∀ record ∈ records.values, Fits runtime 2 (jsonOf record) := by
  have nesting := runtime.nesting
  rw [fits_single (by omega), recordList, fits_array (by omega), List.forall_mem_map]

end Fits

/-! ### How a handler ends -/

/-- How a handler ends: in an exception with nothing sent, or in `_send`. -/
inductive Ends (runtime : Runtime) : Outcome → Prop where
  | raised (stub : Agamemnon) (error : PyError) : Ends runtime { stub, raised := some error }
  | sent (stub : Agamemnon) (status : Nat) (body : PyJson) : Ends runtime (send runtime stub status body)

theorem ends_doGet : Ends runtime (doGet runtime stub path) := by
  simp only [doGet]
  repeat' split
  all_goals exact .sent _ _ _

theorem ends_doDelete : Ends runtime (doDelete runtime stub path) := by
  simp only [doDelete]
  repeat' split
  all_goals exact .sent _ _ _

theorem ends_postChaos : Ends runtime (postChaos runtime stub chaosType body empty) := by
  simp only [postChaos, draw]
  repeat' split
  all_goals first | exact .sent _ _ _ | exact .raised _ _

theorem ends_doPost : Ends runtime (doPost runtime stub path contentType body empty) := by
  simp only [doPost, postTeams, postTasks, postAgents, draw]
  repeat' split
  all_goals first | exact ends_postChaos | exact .sent _ _ _ | exact .raised _ _

theorem ends_handle (handled : request.method ≠ .other) : Ends runtime (handle runtime stub request) := by
  cases routed : route runtime request.path with
  | error error =>
    have stops : handle runtime stub request = { stub, raised := some error } := by
      cases verb : request.method <;> simp_all [handle]
    rw [stops]
    exact .raised stub error
  | ok path =>
    cases verb : request.method with
    | other => exact absurd verb handled
    | get =>
      simp only [handle, verb, routed]
      exact ends_doGet
    | delete =>
      simp only [handle, verb, routed]
      exact ends_doDelete
    | post =>
      simp only [handle, verb, routed]
      split
      · exact .raised _ _
      · exact ends_doPost

theorem parseBody_whole (whole : request.contentLength = .length request.rfile.length) :
    parseBody runtime request = if request.rfile = [] then .ok (.null, true)
      else (loadBody runtime request.rfile).map fun body => (body, false) := by
  have natural : ¬ (request.rfile.length : Int) < -1 := by omega
  have counted : ¬ (request.rfile.length : Int) = -1 := by omega
  simp only [parseBody, whole, bind, Except.bind, pure, Except.pure, natural, counted, ↓reduceIte,
    Int.toNat_natCast, List.take_length, List.isEmpty_iff]
  split
  · rfl
  · cases loadBody runtime request.rfile <;> rfl

/-! ### What a request asks for -/

/-- The routes that create a team, a task or an agent. -/
def CreationPath (path : PyStr) : Prop :=
  path = py "/v1/teams" ∨ ((py "/v1/teams/").isPrefixOf path = true ∧ (py "/tasks").isSuffixOf path = true) ∨
    path = py "/v1/agents"

theorem not_chaos_of_creation (creation : CreationPath path) : chaosPrefix.isPrefixOf path = false := by
  rcases creation with same | ⟨inside, _⟩ | same
  · subst same
    decide
  · obtain ⟨rest, same⟩ := List.isPrefixOf_iff_prefix.mp inside
    subst same
    rfl
  · subst same
    decide

def faultTypes : List PyStr := ["network-partition", "latency", "kill", "queue-starve"].map py

/-- `test-empty` is a chaos type that never becomes a fault. -/
theorem mem_chaosTypes : chaosType ∈ chaosTypes ↔ chaosType ∈ faultTypes ∨ chaosType = py "test-empty" := by
  have split : chaosTypes = faultTypes ++ [py "test-empty"] := rfl
  rw [split, List.mem_append, List.mem_singleton]

theorem faultType_ne_testEmpty (known : chaosType ∈ faultTypes) : chaosType ≠ py "test-empty" := by
  have absent : py "test-empty" ∉ faultTypes := by decide
  exact fun same => absent (same ▸ known)

/-- The fields of a body that is merged; a false body has none. -/
def bodyFields (body : PyJson) : Except PyError Record :=
  if truthy body then items body else .ok .empty

/-- The type and the fields of the fault a request asks to register. -/
def asked (runtime : Runtime) (request : Request) : Option (PyStr × Record) :=
  match request.method, route runtime request.path, parseBody runtime request with
  | .post, .ok path, .ok (body, false) =>
    if chaosPrefix.isPrefixOf path ∧ path.drop chaosPrefix.length ∈ faultTypes then
      match bodyFields body with
      | .ok fields => some (path.drop chaosPrefix.length, fields)
      | .error _ => none
    else none
  | _, _, _ => none

/-- The identifier a request asks to delete. -/
def named (runtime : Runtime) (request : Request) : Option PyStr :=
  match request.method, route runtime request.path with
  | .delete, .ok path =>
    if chaosPrefix.isPrefixOf path then some (path.drop chaosPrefix.length) else none
  | _, _ => none

/-- The record of a fault: the body's fields under the three of its own. -/
def newFault (faultId chaosType : PyStr) (fields : Record) : Record :=
  (bareFault faultId chaosType).update
    (fields.filterKeys fun key => !(bareFault faultId chaosType).contains key)

def registered (runtime : Runtime) (stub : Agamemnon) (chaosType : PyStr) (fields : Record) : Agamemnon :=
  { stub with
    faults := stub.faults.set (runtime.uuid4 stub.drawn)
      (newFault (runtime.uuid4 stub.drawn) chaosType fields)
    drawn := stub.drawn + 1 }

def removed (stub : Agamemnon) (faultId : PyStr) : Agamemnon :=
  { stub with faults := stub.faults.erase faultId }

theorem mergeBody_eq (fault : Record) (body : PyJson) :
    mergeBody fault body = (bodyFields body).map fun fields =>
      fault.update (fields.filterKeys fun key => !fault.contains key) := by
  unfold mergeBody bodyFields
  split
  · cases items body <;> rfl
  · rfl

/-- The registry and the identifiers drawn are as before. -/
def Undisturbed (stub : Agamemnon) (outcome : Outcome) : Prop :=
  outcome.stub.faults = stub.faults ∧ stub.drawn ≤ outcome.stub.drawn

theorem undisturbed_send (same : next.faults = stub.faults) (later : stub.drawn ≤ next.drawn) :
    Undisturbed stub (send runtime next status body) := by
  simpa [Undisturbed] using ⟨same, later⟩

theorem undisturbed_doGet : Undisturbed stub (doGet runtime stub path) := by
  unfold doGet
  split
  · split <;> exact undisturbed_send rfl le_rfl
  · split
    · exact undisturbed_send rfl le_rfl
    · split
      · apply undisturbed_send
        · split <;> rfl
        · split <;> exact le_rfl
      · exact undisturbed_send rfl le_rfl

theorem undisturbed_postTeams : Undisturbed stub (postTeams runtime stub body) := by
  simp only [postTeams, draw]
  split
  · exact ⟨rfl, Nat.le_succ _⟩
  · exact undisturbed_send rfl (Nat.le_succ _)

theorem undisturbed_postTasks : Undisturbed stub (postTasks runtime stub teamId body) := by
  simp only [postTasks, draw]
  split
  · exact ⟨rfl, Nat.le_succ _⟩
  · exact undisturbed_send rfl (Nat.le_succ _)

theorem undisturbed_postAgents : Undisturbed stub (postAgents runtime stub body) := by
  simp only [postAgents, draw]
  split
  · exact ⟨rfl, Nat.le_succ _⟩
  · exact undisturbed_send rfl (Nat.le_succ _)

theorem undisturbed_doPost (outside : chaosPrefix.isPrefixOf path = false) :
    Undisturbed stub (doPost runtime stub path contentType body empty) := by
  have none : Undisturbed stub (send runtime stub 400 (errorBody "bad request")) :=
    undisturbed_send rfl le_rfl
  simp only [doPost, outside, Bool.false_eq_true, ↓reduceIte]
  split
  · split
    · exact none
    · exact undisturbed_postTeams
  · split
    · split
      · exact none
      · exact undisturbed_postTasks
    · split
      · split
        · exact none
        · exact undisturbed_postAgents
      · exact undisturbed_send rfl le_rfl

/-- A POST under `/v1/chaos/` registers what it asks for, or leaves the registry alone
and does not answer 201. -/
theorem postChaos_cases (runtime : Runtime) (stub : Agamemnon) (chaosType : PyStr) (body : PyJson)
    (empty : Bool) :
    (∃ fields, chaosType ∈ faultTypes ∧ empty = false ∧ bodyFields body = .ok fields ∧
      postChaos runtime stub chaosType body empty = send runtime (registered runtime stub chaosType fields)
        201 (jsonOf (newFault (runtime.uuid4 stub.drawn) chaosType fields))) ∨
    ((chaosType ∉ faultTypes ∨ empty = true ∨ ∃ error, bodyFields body = .error error) ∧
      Undisturbed stub (postChaos runtime stub chaosType body empty) ∧
      ∀ reply ∈ (postChaos runtime stub chaosType body empty).sent, reply.status ≠ 201) := by
  have refused : ∀ status message, status ≠ 201 →
      Undisturbed stub (send runtime stub status (errorBody message)) ∧
      ∀ reply ∈ (send runtime stub status (errorBody message)).sent, reply.status ≠ 201 :=
    fun status message other => ⟨undisturbed_send rfl le_rfl, fun reply member same =>
      other ((send_status member).symm.trans same)⟩
  by_cases known : chaosType ∈ faultTypes
  · have listed : chaosType ∈ chaosTypes := mem_chaosTypes.mpr (.inl known)
    have real := faultType_ne_testEmpty known
    cases empty with
    | true =>
      refine .inr ⟨.inr (.inl rfl), ?_⟩
      simpa [postChaos, listed, real] using refused 400 "empty body" (by decide)
    | false =>
      cases fields : bodyFields body with
      | error error =>
        refine .inr ⟨.inr (.inr ⟨error, rfl⟩), ?_⟩
        simp [postChaos, listed, real, draw, mergeBody_eq, fields, Except.map, Undisturbed]
      | ok fields' =>
        refine .inl ⟨fields', known, rfl, rfl, ?_⟩
        simp [postChaos, listed, real, draw, mergeBody_eq, fields, Except.map, registered, newFault]
  · refine .inr ⟨.inl known, ?_⟩
    by_cases diagnostic : chaosType = py "test-empty"
    · subst diagnostic
      have listed : py "test-empty" ∈ chaosTypes := mem_chaosTypes.mpr (.inr rfl)
      cases empty with
      | true => simpa [postChaos, listed] using refused 400 "empty body" (by decide)
      | false =>
        simpa [postChaos, listed] using refused 400 "test-empty rejects non-empty body" (by decide)
    · have unlisted : chaosType ∉ chaosTypes := fun listed =>
        (mem_chaosTypes.mp listed).elim known diagnostic
      simpa [postChaos, unlisted] using refused 404 "unknown chaos type" (by decide)

/-- The request leaves the registry alone: it asks for nothing and names no live fault,
and it is neither a 201 to a POST under `/v1/chaos/` nor a 200 to a DELETE. -/
structure LeftAlone (runtime : Runtime) (stub : Agamemnon) (request : Request) : Prop where
  asks : asked runtime request = none
  names : ∀ faultId, named runtime request = some faultId → stub.faults.contains faultId = false
  same : Undisturbed stub (handle runtime stub request)
  uncreated : ∀ reply ∈ (handle runtime stub request).sent, reply.status = 201 → request.method = .post →
    ∀ path, route runtime request.path = .ok path → chaosPrefix.isPrefixOf path = false
  undeleted : ∀ reply ∈ (handle runtime stub request).sent, reply.status = 200 → request.method ≠ .delete

private theorem leftAlone_of_raised (error : PyError) (asks : asked runtime request = none)
    (names : named runtime request = none)
    (raised : handle runtime stub request = { stub, raised := some error }) :
    LeftAlone runtime stub request where
  asks := asks
  names := by simp [names]
  same := by simp [raised, Undisturbed]
  uncreated := by simp [raised]
  undeleted := by simp [raised]

private theorem handle_delete (verb : request.method = .delete)
    (routed : route runtime request.path = .ok path) :
    (∃ faultId, named runtime request = some faultId ∧ stub.faults.contains faultId = true ∧
      handle runtime stub request = send runtime (removed stub faultId) 200
        (bodyOf [("deleted", .string faultId)])) ∨ LeftAlone runtime stub request := by
  have served : handle runtime stub request = doDelete runtime stub path := by
    simp only [handle, verb, routed]
  have asks : asked runtime request = none := by simp [asked, verb]
  have refused : ∀ message, doDelete runtime stub path = send runtime stub 404 (errorBody message) →
      (∀ faultId, named runtime request = some faultId → stub.faults.contains faultId = false) →
      LeftAlone runtime stub request := by
    intro message sent names
    rw [sent] at served
    refine ⟨asks, names, served ▸ undisturbed_send rfl le_rfl, by simp [verb], ?_⟩
    intro reply member status
    rw [served] at member
    cases (send_status member).symm.trans status
  by_cases inside : chaosPrefix.isPrefixOf path = true
  · have names : named runtime request = some (path.drop chaosPrefix.length) := by
      simp only [named, verb, routed, inside, ↓reduceIte]
    by_cases present : stub.faults.contains (path.drop chaosPrefix.length) = true
    · refine .inl ⟨_, names, present, ?_⟩
      simp only [served, doDelete, inside, present, ↓reduceIte, removed]
    · refine .inr (refused "fault not found" (by simp only [doDelete, inside, present, ↓reduceIte,
        Bool.false_eq_true]) fun faultId same => ?_)
      cases names.symm.trans same
      simpa using present
  · refine .inr (refused "not found" (by simp only [doDelete, inside, ↓reduceIte, Bool.false_eq_true])
      fun faultId same => ?_)
    simp only [named, verb, routed, inside, ↓reduceIte, Bool.false_eq_true] at same
    cases same

private theorem handle_post (verb : request.method = .post)
    (routed : route runtime request.path = .ok path)
    (parsed : parseBody runtime request = .ok (body, empty)) :
    (∃ chaosType fields, asked runtime request = some (chaosType, fields) ∧
      handle runtime stub request = send runtime (registered runtime stub chaosType fields) 201
        (jsonOf (newFault (runtime.uuid4 stub.drawn) chaosType fields))) ∨
    LeftAlone runtime stub request := by
  have served : handle runtime stub request =
      doPost runtime stub path (request.contentType.getD []) body empty := by
    simp only [handle, verb, routed, parsed]
  have names : ∀ faultId, named runtime request = some faultId → stub.faults.contains faultId = false := by
    simp [named, verb]
  by_cases inside : chaosPrefix.isPrefixOf path = true
  · have chaos : handle runtime stub request =
        postChaos runtime stub (path.drop chaosPrefix.length) body empty := by
      simp only [served, doPost, inside, ↓reduceIte]
    rcases postChaos_cases runtime stub (path.drop chaosPrefix.length) body empty with
      ⟨fields, known, full, read, made⟩ | ⟨reason, same, statuses⟩
    · refine .inl ⟨_, fields, ?_, chaos.trans made⟩
      subst full
      simp only [asked, verb, routed, parsed, inside, known, read, and_self, ↓reduceIte]
    · refine .inr ⟨?_, names, chaos ▸ same, ?_, by simp [verb]⟩
      · rcases reason with unknown | isEmpty | ⟨error, unread⟩
        · cases empty <;> simp [asked, verb, routed, parsed, unknown]
        · simp [asked, verb, routed, parsed, isEmpty]
        · cases empty <;> simp [asked, verb, routed, parsed, unread]
      · exact fun reply member created => absurd created (statuses reply (chaos ▸ member))
  · have outside : chaosPrefix.isPrefixOf path = false := Bool.eq_false_iff.mpr inside
    refine .inr ⟨?_, names, served ▸ undisturbed_doPost outside, ?_, by simp [verb]⟩
    · cases empty <;> simp only [asked, verb, routed, parsed, inside, false_and, ↓reduceIte,
        Bool.false_eq_true]
    · intro _ _ _ _ other same
      cases routed.symm.trans same
      exact outside

/-- Everything a request can do to the registry: register the fault it asks for, remove
the live fault it names, or leave it alone. -/
theorem handle_cases (runtime : Runtime) (stub : Agamemnon) (request : Request) :
    (∃ chaosType fields, asked runtime request = some (chaosType, fields) ∧
      handle runtime stub request = send runtime (registered runtime stub chaosType fields) 201
        (jsonOf (newFault (runtime.uuid4 stub.drawn) chaosType fields))) ∨
    (∃ faultId, named runtime request = some faultId ∧ stub.faults.contains faultId = true ∧
      handle runtime stub request = send runtime (removed stub faultId) 200
        (bodyOf [("deleted", .string faultId)])) ∨
    LeftAlone runtime stub request := by
  cases verb : request.method with
  | other =>
    refine .inr (.inr ⟨by simp [asked, verb], by simp [named, verb], ?_, by simp [verb], by simp [verb]⟩)
    simp [handle, verb, Undisturbed]
  | get =>
    cases routed : route runtime request.path with
    | error error =>
      exact .inr (.inr (leftAlone_of_raised error (by simp [asked, verb]) (by simp [named, verb])
        (by simp [handle, verb, routed])))
    | ok path =>
      have served : handle runtime stub request = doGet runtime stub path := by
        simp only [handle, verb, routed]
      exact .inr (.inr ⟨by simp [asked, verb], by simp [named, verb], served ▸ undisturbed_doGet,
        by simp [verb], by simp [verb]⟩)
  | delete =>
    cases routed : route runtime request.path with
    | error error =>
      exact .inr (.inr (leftAlone_of_raised error (by simp [asked, verb]) (by simp [named, verb, routed])
        (by simp [handle, verb, routed])))
    | ok path => exact .inr (handle_delete verb routed)
  | post =>
    have names : named runtime request = none := by simp [named, verb]
    cases routed : route runtime request.path with
    | error error =>
      exact .inr (.inr (leftAlone_of_raised error (by simp [asked, routed]) names
        (by simp [handle, verb, routed])))
    | ok path =>
      cases parsed : parseBody runtime request with
      | error error =>
        exact .inr (.inr (leftAlone_of_raised error (by simp [asked, parsed]) names
          (by simp [handle, verb, routed, parsed])))
      | ok result => exact (handle_post verb routed parsed).imp_right .inr

end Charybdis.Stub
