import Charybdis.Audit.ChaosAuditLog
import Charybdis.Client.BreakerHistory

/-! When the three log calls succeed, over everything a client call can hand them. -/

namespace Charybdis.Audit

open Foundation Client

/-- The responses the client returns: nothing came back, or a reply with its parsed body. -/
inductive Returnable (json : Nlohmann ν) : Response ν → Prop where
  | unanswered : Returnable json ⟨0, .null⟩
  | answered (status : Int) (text : Bytes) : Returnable json ⟨status, parseBody json text⟩

theorem returnable_of_run {ω ν : Type} {json : Nlohmann ν} {around : Surroundings ω}
    (policy : RetryPolicy) (cfg : CircuitBreakerConfig) (request : WireRequest) (session : Session ω) :
    Returnable json (runWithRetry json policy cfg around request session).response :=
  retryLoop_rule (motive := fun _ ran => Returnable json ran.response) (fun _ _ => .unanswered)
    (fun _ res _ _ => .answered res.status res.body) (fun _ _ _ => .unanswered)
    (fun _ _ _ _ _ rest => rest) 0 (totalAttempts_pos policy) session

theorem returnable_of_perform {ω ν : Type} {json : Nlohmann ν} {around : Surroundings ω}
    {client : HttpTestClient} {session : Session ω} {call : Call ν} {response : Response ν}
    (returned : (client.perform json around env call session).result = .ok response) :
    Returnable json response := by
  rcases client.perform_cases json around env call session with
    ⟨_, _, performed⟩ | ⟨request, _, performed⟩
  · rw [performed] at returned
    cases returned
  · rw [performed] at returned
    cases returned
    exact returnable_of_run client.retry client.breakerCfg request session

/-- Each of them does come back from some network. -/
theorem Returnable.occurs {json : Nlohmann ν} (returnable : Returnable json response) :
    ∃ wire, (HttpTestClient.perform { host := ascii "localhost", port := 8080 } json scripted
      (fun _ => none) (.get (ascii "/v1/health")) { wire }).result = .ok response := by
  cases returnable with
  | unanswered => exact ⟨[], rfl⟩
  | answered status text => exact ⟨[some ⟨status, text⟩], rfl⟩

theorem Returnable.faithful {json : Nlohmann ν} (returnable : Returnable json response) :
    Faithful json.finite response.body := by
  cases returnable with
  | unanswered => exact .null
  | answered status text =>
    change Faithful json.finite (parseBody json text)
    unfold parseBody
    split
    · exact .object (by simp [Json.Sorted]) (by simp)
    · split
      · rename_i parsed
        exact json.parse_faithful text _ parsed
      · exact .object (by simp [Json.Sorted]) (by simp)

/-- The body is an object, and a member `id` of it is a string. -/
def IdReadable (body : Json Bytes ν) : Prop :=
  ∃ members, body = .object members ∧
    ∀ value, members.lookup (ascii "id") = some value → ∃ text, value = .string text

theorem idReadable_iff {body : Json Bytes ν} :
    (∃ faultId, valueString (ascii "id") body = .ok faultId) ↔ IdReadable body := by
  constructor
  · intro ⟨faultId, read⟩
    unfold valueString at read
    split at read
    · rename_i members
      refine ⟨members, rfl, fun value found => ?_⟩
      rw [found] at read
      cases value with
      | string text => exact ⟨text, rfl⟩
      | _ => cases read
    · cases read
  · intro ⟨members, same, strings⟩
    subst same
    cases found : members.lookup (ascii "id") with
    | none => exact ⟨[], by simp [valueString, found]⟩
    | some value =>
      obtain ⟨text, same⟩ := strings value found
      exact ⟨text, by simp [valueString, found, same]⟩

theorem valueString_valid {body : Json Bytes ν} (encoded : WellEncoded body)
    (read : valueString key body = .ok text) : Utf8.Valid text := by
  unfold valueString at read
  split at read
  · rw [WellEncoded, Json.Strings, Json.all_object] at encoded
    split at read
    · cases read
      exact Utf8.valid_nil
    · rename_i found
      cases read
      obtain ⟨_, _, split, _⟩ := List.lookup_eq_some_iff.mp found
      exact Json.all_string.mp (encoded.2 (key, .string text) (by simp [split]))
    · cases read
  · cases read

/-- The fields a caller passes to `log_inject` and `log_remove`, and who is asking. -/
def givenFields (json : Nlohmann ν) (env : Environment) (action faultType target : Bytes)
    (response : Response ν) : List (Bytes × Json Bytes ν) :=
  [(ascii "action", .string action), (ascii "fault_type", .string faultType),
   (ascii "target", .string target), (ascii "status", .number (json.integer response.status)),
   (ascii "requester", .string (currentRequester env)), (ascii "details", response.body)]

def rejectedFields (env : Environment) (faultType subject configured : Bytes) :
    List (Bytes × Json Bytes ν) :=
  [(ascii "action", .string (ascii "filter_reject")), (ascii "fault_type", .string faultType),
   (ascii "attempted_subject", .string subject), (ascii "configured_prefix", .string configured),
   (ascii "requester", .string (currentRequester env))]

section Records

variable {json : Nlohmann ν} {env : Environment} {now : UtcReading} {sink : Bytes}

private theorem injectMembers_distinct :
    ((injectMembers json env now action faultType faultId target status body).map Prod.fst).Nodup := by
  simp only [injectMembers, List.map_cons, List.map_nil]
  decide

private theorem filterRejectMembers_distinct :
    ((filterRejectMembers json env now faultType subject configured).map Prod.fst).Nodup := by
  simp only [filterRejectMembers, List.map_cons, List.map_nil]
  decide

theorem injectMembers_recorded_iff {action faultType faultId target : Bytes} {status : Int}
    {body : Json Bytes ν} (plain : Utf8.Valid action) (faithful : Faithful json.finite body)
    {fields : List (Bytes × Json Bytes ν)}
    (given : fields ⊆ injectMembers json env now action faultType faultId target status body) :
    Recorded json sink (writeLine json sink
        (.objectOf (injectMembers json env now action faultType faultId target status body))) fields ↔
      Utf8.Valid faultType ∧ Utf8.Valid faultId ∧ Utf8.Valid target ∧
        Utf8.Valid (currentRequester env) ∧ WellEncoded body := by
  rw [writeLine_recorded_iff injectMembers_distinct
    (by simp only [injectMembers, List.map_cons, List.map_nil]; decide)
    (by simp [injectMembers, json.finite_integer, faithful]) given sink]
  simp [injectMembers, plain, iso8601UtcNow_valid]

theorem logFilterReject_recorded_iff {faultType subject configured : Bytes} :
    Recorded json sink (logFilterReject json env now sink faultType subject configured)
        (rejectedFields env faultType subject configured) ↔
      Utf8.Valid faultType ∧ Utf8.Valid subject ∧ Utf8.Valid configured ∧
        Utf8.Valid (currentRequester env) := by
  have plain : Utf8.Valid (ascii "filter_reject") := by decide
  rw [logFilterReject, emitFilterReject, writeLine_recorded_iff filterRejectMembers_distinct
    (by simp only [filterRejectMembers, List.map_cons, List.map_nil]; decide)
    (by simp [filterRejectMembers, json.finite_integer]) (by simp [rejectedFields, filterRejectMembers]) sink]
  simp [filterRejectMembers, plain, iso8601UtcNow_valid]

theorem logFilterReject_recorded {faultType subject configured : Bytes}
    (logged : logFilterReject json env now sink faultType subject configured = .ok after) :
    Recorded json sink (.ok after) (rejectedFields env faultType subject configured) :=
  recorded_of_writeLine filterRejectMembers_distinct
    (by simp [filterRejectMembers, json.finite_integer]) (by simp [rejectedFields, filterRejectMembers]) logged

/-- `log_inject` fails on the id, or goes on to write its record. -/
theorem logInject_cases (json : Nlohmann ν) (env : Environment) (now : UtcReading)
    (sink faultType target : Bytes) (status : Int) (body : Json Bytes ν) :
    (∃ error, valueString (ascii "id") body = .error error ∧
      logInject json env now sink faultType target status body = .error error) ∨
    (∃ faultId, valueString (ascii "id") body = .ok faultId ∧
      logInject json env now sink faultType target status body = writeLine json sink (.objectOf
        (injectMembers json env now (ascii "inject") faultType faultId target status body))) := by
  cases read : valueString (ascii "id") body with
  | error error => exact .inl ⟨error, rfl, by simp [logInject, emit, read, bind, Except.bind]⟩
  | ok faultId => exact .inr ⟨faultId, rfl, by simp [logInject, emit, read, bind, Except.bind]⟩

theorem logInject_recorded_iff {faultType target : Bytes} {response : Response ν}
    (faithful : Faithful json.finite response.body) :
    Recorded json sink
        (logInject json env now sink faultType target response.status response.body)
        (givenFields json env (ascii "inject") faultType target response) ↔
      IdReadable response.body ∧ Utf8.Valid faultType ∧ Utf8.Valid target ∧
        Utf8.Valid (currentRequester env) ∧ WellEncoded response.body := by
  rw [← idReadable_iff]
  rcases logInject_cases json env now sink faultType target response.status
    response.body with ⟨error, read, thrown⟩ | ⟨faultId, read, written⟩
  · simp [Recorded, thrown, read]
  · rw [written, injectMembers_recorded_iff (by decide) faithful (by simp [givenFields, injectMembers])]
    constructor
    · intro ⟨type, _, url, requester, encoded⟩
      exact ⟨⟨faultId, read⟩, type, url, requester, encoded⟩
    · intro ⟨_, type, url, requester, encoded⟩
      exact ⟨type, valueString_valid encoded read, url, requester, encoded⟩

theorem logInject_recorded {faultType target : Bytes} {response : Response ν}
    (faithful : Faithful json.finite response.body)
    (logged : logInject json env now sink faultType target response.status response.body = .ok after) :
    Recorded json sink (.ok after) (givenFields json env (ascii "inject") faultType target response) := by
  rcases logInject_cases json env now sink faultType target response.status
    response.body with ⟨error, _, thrown⟩ | ⟨faultId, _, written⟩
  · rw [thrown] at logged
    cases logged
  · rw [written] at logged
    exact recorded_of_writeLine injectMembers_distinct
      (by simp [injectMembers, json.finite_integer, faithful]) (by simp [givenFields, injectMembers]) logged

end Records

/-- Each log call writes its line exactly when every string it is given is UTF-8 and, for
`log_inject`, the response is an object without an `id` that is not a string. -/
theorem audit_emission_succeeds_iff (json : Nlohmann ν) (env : Environment) (now : UtcReading)
    (sink faultType target faultId subject configured : Bytes) {response : Response ν}
    (returned : Returnable json response) :
    (Recorded json sink
        (logInject json env now sink faultType target response.status response.body)
        (givenFields json env (ascii "inject") faultType target response) ↔
      IdReadable response.body ∧ Utf8.Valid faultType ∧ Utf8.Valid target ∧
        Utf8.Valid (currentRequester env) ∧ WellEncoded response.body) ∧
    (Recorded json sink
        (logRemove json env now sink faultType faultId target response.status response.body)
        ((ascii "fault_id", .string faultId) ::
          givenFields json env (ascii "remove") faultType target response) ↔
      Utf8.Valid faultType ∧ Utf8.Valid faultId ∧ Utf8.Valid target ∧
        Utf8.Valid (currentRequester env) ∧ WellEncoded response.body) ∧
    (Recorded json sink (logFilterReject json env now sink faultType subject configured)
        (rejectedFields env faultType subject configured) ↔
      Utf8.Valid faultType ∧ Utf8.Valid subject ∧ Utf8.Valid configured ∧
        Utf8.Valid (currentRequester env)) := by
  have faithful := returned.faithful
  exact ⟨logInject_recorded_iff faithful,
    injectMembers_recorded_iff (by decide) faithful (by simp [givenFields, injectMembers]),
    logFilterReject_recorded_iff⟩

/-- A removal that met a transport failure is recorded. -/
theorem unanswered_removal_is_recorded :
    let now : UtcReading := ⟨2025, 1, 2, 3, 4, 5, 6⟩
    let url := ascii "http://localhost:8080"
    Recorded Nlohmann.text []
      (logRemove Nlohmann.text (fun _ => none) now [] (ascii "latency") (ascii "7") url 0 .null)
      ((ascii "fault_id", .string (ascii "7")) ::
        givenFields Nlohmann.text (fun _ => none) (ascii "remove") (ascii "latency") url ⟨0, .null⟩) := by
  intro now url
  exact (audit_emission_succeeds_iff Nlohmann.text (fun _ => none) now [] (ascii "latency") url
    (ascii "7") [] [] .unanswered).2.1.mpr ⟨by decide, by decide, by decide, by decide, .null⟩

/-- The same failure met by an injection throws out of the log, and no line is written. -/
theorem unanswered_injection_throws :
    let response : Response JsonText.Lexeme := ⟨0, .null⟩
    let now : UtcReading := ⟨2025, 1, 2, 3, 4, 5, 6⟩
    let url := ascii "http://localhost:8080"
    let logged := logInject Nlohmann.text (fun _ => none) now [] (ascii "latency") url
      response.status response.body
    Returnable Nlohmann.text response ∧ logged = .error (.typeError 306) ∧
      ¬ Recorded Nlohmann.text [] logged
        (givenFields Nlohmann.text (fun _ => none) (ascii "inject") (ascii "latency") url response) := by
  intro response now url logged
  have thrown : logged = .error (.typeError 306) := rfl
  exact ⟨.unanswered, thrown, by simp [Recorded, thrown]⟩

end Charybdis.Audit
