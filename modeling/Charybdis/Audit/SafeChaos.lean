import Charybdis.Audit.Emission

/-! The queue-starve wrapper: its own guard, then the client's gates, then the record. -/

namespace Charybdis.Audit

open Foundation Client

def agamemnonUrl (env : Environment) : Bytes :=
  (env .agamemnonUrl).getD (ascii "http://localhost:8080")

/-- The request body the wrapper posts. -/
def subjectBody (subject : Bytes) : Json Bytes ν :=
  .objectOf [(ascii "subject", .string subject)]

/-- What one injection returns and leaves behind. -/
structure Injection (ω ν : Type) where
  result : Except ChaosError (Json Bytes ν)
  session : Session ω
  sink : Bytes
  events : List Event

/-- A log call that throws leaves the sink as it was, and its exception replaces `result`. -/
def recordThen (emission : Except JsonError Bytes) (result : Except ChaosError (Json Bytes ν))
    (session : Session ω) (sink : Bytes) (events : List Event) : Injection ω ν :=
  match emission with
  | .ok sink => ⟨result, session, sink, events⟩
  | .error error => ⟨.error (.json error), session, sink, events⟩

def safeInjectQueueStarve (client : HttpTestClient) (json : Nlohmann ν) (around : Surroundings ω)
    (env : Environment) (now : UtcReading) (subject : Bytes) (session : Session ω) (sink : Bytes) :
    Injection ω ν :=
  match requireSubjectAllowed env (ascii "queue-starve") subject with
  | .error (.subjectFilterViolation what) =>
    recordThen (logFilterReject json env now sink (ascii "queue-starve") subject (subjectPrefix env))
      (.error (.subjectFilterViolation what)) session sink []
  | .error error => ⟨.error error, session, sink, []⟩
  | .ok () =>
    let posted := client.perform json around env (.post queueStarvePath (subjectBody subject)) session
    match posted.result with
    | .error error => ⟨.error error, posted.session, sink, posted.events⟩
    | .ok response =>
      recordThen (logInject json env now sink (ascii "queue-starve") (agamemnonUrl env)
          response.status response.body)
        (.ok response.body) posted.session sink posted.events

section Gates

variable {json : Nlohmann ν} {env : Environment} {subject : Bytes}

theorem queueStarveSubject_subjectBody :
    queueStarveSubject (subjectBody subject : Json Bytes ν) = subject := by
  simp [subjectBody, queueStarveSubject, Json.objectOf, Json.insertMember]

/-- Past the wrapper's guard, the client's gate only stops the empty subject. -/
theorem enforceQueueStarveSubject_of_guard
    (admitted : requireSubjectAllowed env (ascii "queue-starve") subject = .ok ()) :
    enforceQueueStarveSubject env subject =
      if subject = [] then .error (.subjectFilterViolation missingSubjectMessage) else .ok () := by
  by_cases empty : subject = []
  · simp [enforceQueueStarveSubject, empty]
  · simp [enforceQueueStarveSubject, empty, admitted]

/-- The guard itself passes the empty subject only when the filter is disabled. -/
theorem guard_passes_empty_iff :
    (requireSubjectAllowed env (ascii "queue-starve") subject = .ok () ∧ subject = []) ↔
      subjectFilterDisabled env = true ∧ subject = [] := by
  rw [requireSubjectAllowed_ok_iff, subjectAllowed_iff]
  constructor
  · intro ⟨passed, empty⟩
    exact ⟨passed.resolve_right fun allowed => allowed.2.1 empty, empty⟩
  · intro ⟨disabled, empty⟩
    exact ⟨.inl disabled, empty⟩

theorem faithful_subjectBody : Faithful json.finite (subjectBody subject) :=
  Json.all_objectOf (fun _ sorted _ => sorted) (by simp)

theorem dump_subjectBody (json : Nlohmann ν) (valid : Utf8.Valid subject) :
    ∃ text, json.dump (subjectBody subject) = .ok text := by
  refine json.dump_of_wellEncoded (Json.all_objectOf (fun _ _ inside name member => ?_) (by simp [valid]))
  have same : name = ascii "subject" := by simpa using inside name member
  subst same
  decide

/-- The serialised body reads back, so the raw gate decides on the same subject. -/
theorem postRawGate_subjectBody (env : Environment) (dumped : json.dump (subjectBody subject) = .ok text) :
    postRawGate json env queueStarvePath text = enforceQueueStarveSubject env subject := by
  have parsed : json.parse text = .ok (subjectBody subject) :=
    json.parse_dump _ text faithful_subjectBody dumped
  simp [postRawGate, parsed, queueStarveSubject_subjectBody]

/-- What the wrapper's POST puts on the wire, once nothing stops it. -/
def injectionRequest (client : HttpTestClient) (text : Bytes) : WireRequest :=
  { host := client.host, port := client.port, method := .post, path := queueStarvePath, body := text,
    contentType := some (ascii "application/json") }

theorem request_subjectBody (client : HttpTestClient)
    (dumped : json.dump (subjectBody subject) = .ok text) :
    client.request json env (.post queueStarvePath (subjectBody subject)) =
      (enforceQueueStarveSubject env subject).map fun _ => injectionRequest client text := by
  have first : postGate env queueStarvePath (subjectBody subject : Json Bytes ν) =
      enforceQueueStarveSubject env subject := by
    simp [postGate, queueStarveSubject_subjectBody]
  have second := postRawGate_subjectBody env dumped
  cases gate : enforceQueueStarveSubject env subject <;>
    simp [HttpTestClient.request, HttpTestClient.postRequest, HttpTestClient.postRawRequest, first,
      second, gate, dumped, Except.map, Except.mapError, bind, Except.bind, pure, Except.pure,
      injectionRequest]

end Gates

section Outcome

variable {ω ν : Type} {json : Nlohmann ν} {env : Environment} {subject : Bytes}
  {client : HttpTestClient} {around : Surroundings ω} {now : UtcReading} {session : Session ω}
  {sink : Bytes}

/-- Refused by the guard: the record first, then the refusal; nothing else has moved. -/
theorem safeInjectQueueStarve_guarded
    (refused : requireSubjectAllowed env (ascii "queue-starve") subject =
      .error (.subjectFilterViolation what)) :
    safeInjectQueueStarve client json around env now subject session sink =
      recordThen (logFilterReject json env now sink (ascii "queue-starve") subject (subjectPrefix env))
        (.error (.subjectFilterViolation what)) session sink [] := by
  simp only [safeInjectQueueStarve, refused]

/-- Passed by the guard and stopped by the client's gate: the empty subject, and no record. -/
theorem safeInjectQueueStarve_gated
    (admitted : requireSubjectAllowed env (ascii "queue-starve") subject = .ok ())
    (empty : subject = []) :
    safeInjectQueueStarve client json around env now subject session sink =
      ⟨.error (.subjectFilterViolation missingSubjectMessage), session, sink, []⟩ := by
  obtain ⟨text, dumped⟩ := dump_subjectBody json (show Utf8.Valid subject by simp [empty])
  have stopped : client.request json env (.post queueStarvePath (subjectBody subject)) =
      .error (.subjectFilterViolation missingSubjectMessage) := by
    rw [request_subjectBody client dumped, enforceQueueStarveSubject_of_guard admitted, if_pos empty]
    rfl
  simp only [safeInjectQueueStarve, admitted, HttpTestClient.perform, stopped]

/-- Passed by both: the POST goes out under the client's retry envelope and is recorded. -/
theorem safeInjectQueueStarve_posted
    (admitted : requireSubjectAllowed env (ascii "queue-starve") subject = .ok ())
    (nonempty : subject ≠ []) (dumped : json.dump (subjectBody subject) = .ok text) :
    safeInjectQueueStarve client json around env now subject session sink =
      let ran := runWithRetry json client.retry client.breakerCfg around (injectionRequest client text) session
      recordThen (logInject json env now sink (ascii "queue-starve") (agamemnonUrl env)
          ran.response.status ran.response.body)
        (.ok ran.response.body) ran.session sink ran.events := by
  have sent : client.request json env (.post queueStarvePath (subjectBody subject)) =
      .ok (injectionRequest client text) := by
    rw [request_subjectBody client dumped, enforceQueueStarveSubject_of_guard admitted, if_neg nonempty]
    rfl
  simp only [safeInjectQueueStarve, admitted, HttpTestClient.perform, sent]

/-- The log call decides whether the result stands. -/
theorem recordThen_violation {emission : Except JsonError Bytes} {result : Except ChaosError (Json Bytes ν)}
    {events : List Event} {what : Bytes}
    (ended : (recordThen emission result session sink events).result =
      .error (.subjectFilterViolation what)) :
    ∃ written, emission = .ok written ∧ result = .error (.subjectFilterViolation what) ∧
      recordThen emission result session sink events = ⟨result, session, written, events⟩ := by
  cases emission with
  | error error => cases ended
  | ok written => exact ⟨written, rfl, ended, rfl⟩

end Outcome

/-- A refusal left one `filter_reject` record and nothing else behind. -/
def RefusalAudited (json : Nlohmann ν) (env : Environment) (subject : Bytes) (session : Session ω)
    (sink : Bytes) (injection : Injection ω ν) : Prop :=
  ∀ what, injection.result = .error (.subjectFilterViolation what) →
    Recorded json sink (.ok injection.sink)
      (rejectedFields env (ascii "queue-starve") subject (subjectPrefix env)) ∧
    injection.events = [] ∧ injection.session = session

/-- Whatever the wrapper's guard lets through, both gates of the client let through. -/
def GatesAgree (json : Nlohmann ν) (env : Environment) (subject : Bytes) : Prop :=
  requireSubjectAllowed env (ascii "queue-starve") subject = .ok () →
    postGate env queueStarvePath (subjectBody subject : Json Bytes ν) = .ok () ∧
    ∀ text, json.dump (subjectBody subject) = .ok text → postRawGate json env queueStarvePath text = .ok ()

/-- The wrapper audits each of its refusals, and its guard agrees with the client's gates,
except on the empty subject under a disabled filter. -/
theorem refusals_are_audited_iff {ω ν : Type} (json : Nlohmann ν) (around : Surroundings ω)
    (client : HttpTestClient) (env : Environment) (now : UtcReading) {subject : Bytes}
    (valid : Utf8.Valid subject) (session : Session ω) (sink : Bytes) :
    (RefusalAudited json env subject session sink
        (safeInjectQueueStarve client json around env now subject session sink) ↔
      ¬ (subjectFilterDisabled env = true ∧ subject = [])) ∧
    (GatesAgree json env subject ↔ ¬ (subjectFilterDisabled env = true ∧ subject = [])) := by
  obtain ⟨text, dumped⟩ := dump_subjectBody json valid
  rw [← guard_passes_empty_iff]
  constructor
  · constructor
    · intro audited ⟨admitted, empty⟩
      rw [safeInjectQueueStarve_gated admitted empty] at audited
      obtain ⟨⟨line, _, appended, _⟩, _⟩ := audited _ rfl
      simp at appended
    · intro agreed what ended
      cases guard : requireSubjectAllowed env (ascii "queue-starve") subject with
      | ok _ =>
        have nonempty : subject ≠ [] := fun empty => agreed ⟨guard, empty⟩
        rw [safeInjectQueueStarve_posted guard nonempty dumped] at ended
        obtain ⟨_, _, impossible, _⟩ := recordThen_violation ended
        cases impossible
      | error error =>
        cases error with
        | subjectFilterViolation refusal =>
          rw [safeInjectQueueStarve_guarded guard] at ended ⊢
          obtain ⟨written, logged, _, left⟩ := recordThen_violation ended
          rw [left]
          exact ⟨logFilterReject_recorded logged, rfl, rfl⟩
        | subjectFilterConfigError _ => simp [safeInjectQueueStarve, guard] at ended
        | json _ => simp [safeInjectQueueStarve, guard] at ended
  · constructor
    · intro agree ⟨admitted, empty⟩
      have passed := (agree admitted).2 text dumped
      rw [postRawGate_subjectBody env dumped, enforceQueueStarveSubject_of_guard admitted, if_pos empty] at passed
      cases passed
    · intro agreed admitted
      have nonempty : subject ≠ [] := fun empty => agreed ⟨admitted, empty⟩
      have passes := enforceQueueStarveSubject_of_guard admitted
      rw [if_neg nonempty] at passes
      refine ⟨?_, fun other written => (postRawGate_subjectBody env written).trans passes⟩
      simp [postGate, queueStarveSubject_subjectBody, passes]

/-- A subject outside the default prefix. -/
theorem foreign_subject_is_audited :
    RefusalAudited Nlohmann.text (fun _ => none) (ascii "prod.orders") { wire := [] } []
      (safeInjectQueueStarve { host := ascii "localhost", port := 8080 } Nlohmann.text scripted
        (fun _ => none) ⟨2025, 1, 2, 3, 4, 5, 6⟩ (ascii "prod.orders") { wire := [] } []) :=
  (refusals_are_audited_iff Nlohmann.text scripted { host := ascii "localhost", port := 8080 }
    (fun _ => none) ⟨2025, 1, 2, 3, 4, 5, 6⟩ (by decide) { wire := [] } []).1.mpr (by decide)

/-- With the filter disabled an empty subject passes the guard and is refused unrecorded. -/
theorem empty_subject_is_refused_unaudited :
    let env : Environment := fun
      | .charybdisSubjectFilterDisabled => some (ascii "1")
      | _ => none
    let injection := safeInjectQueueStarve { host := ascii "localhost", port := 8080 } Nlohmann.text
      scripted env ⟨2025, 1, 2, 3, 4, 5, 6⟩ [] { wire := [] } []
    Utf8.Valid [] ∧ injection.result = .error (.subjectFilterViolation missingSubjectMessage) ∧
      injection.sink = [] ∧ ¬ RefusalAudited Nlohmann.text env [] { wire := [] } [] injection ∧
      ¬ GatesAgree Nlohmann.text env [] := by
  intro env injection
  have gated : injection = _ := safeInjectQueueStarve_gated rfl rfl
  refine ⟨rfl, by rw [gated], by rw [gated], ?_, ?_⟩
  · intro audited
    rw [gated] at audited
    obtain ⟨⟨line, _, appended, _⟩, _⟩ := audited _ rfl
    simp at appended
  · intro agree
    have passed := (agree rfl).1
    cases passed

end Charybdis.Audit
