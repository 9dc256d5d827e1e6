import Charybdis.Audit.SafeChaos

/-! The endpoint an injection record names against the endpoint its POST went to. -/

namespace Charybdis.Audit

open Foundation Client

/-- What follows the first `://` of a URL, its scheme being nonempty. -/
def afterScheme : Bytes → Option Bytes
  | [] => none
  | _ :: rest => if (ascii "://").isPrefixOf rest then some (rest.drop 3) else afterScheme rest

/-- The host and port a URL denotes that has the form `scheme://host:port` to the letter: nothing
follows the port, not even a slash, and hosts are compared byte by byte. -/
def denotes (url : Bytes) : Option (Bytes × Int) :=
  ((afterScheme url).bind hostPort).map fun parts => (parts.1, (digitsValue parts.2 : Int))

theorem afterScheme_of_stripScheme (stripped : stripScheme url = some rest) :
    afterScheme url = some rest := by
  rcases stripScheme_iff.mp stripped with same | same
  · rw [same]
    rfl
  · rw [same]
    rfl

theorem denotes_of_urlMatch (found : urlMatch url = some (host, digits)) :
    denotes url = some (host, (digitsValue digits : Int)) := by
  obtain ⟨rest, stripped, parts⟩ := Option.bind_eq_some_iff.mp found
  simp [denotes, afterScheme_of_stripScheme stripped, parts]

theorem make_endpoint (constructed : HttpTestClient.make url retry breakerCfg timeouts = .ok client) :
    (urlMatch url = none ∧ client.host = ascii "localhost" ∧ client.port = 8080) ∨
    (∃ host digits, urlMatch url = some (host, digits) ∧ client.host = host ∧
      client.port = digitsValue digits) := by
  simp only [HttpTestClient.make] at constructed
  split at constructed
  · cases constructed
  · split at constructed
    · cases constructed
    · split at constructed
      · rename_i unmatched
        cases constructed
        exact .inl ⟨unmatched, rfl, rfl⟩
      · rename_i host digits found
        split at constructed
        · cases constructed
        · split at constructed
          · cases constructed
          · cases constructed
            exact .inr ⟨host, digits, found, rfl, rfl⟩

section Completed

variable {ω ν : Type} {json : Nlohmann ν} {env : Environment} {subject : Bytes}
  {client : HttpTestClient} {around : Surroundings ω} {now : UtcReading} {session : Session ω}
  {sink : Bytes}

/-- An injection that returns a body has posted and has written its record. -/
theorem safeInjectQueueStarve_ok
    (ended : (safeInjectQueueStarve client json around env now subject session sink).result = .ok body) :
    ∃ text written,
      let ran := runWithRetry json client.retry client.breakerCfg around (injectionRequest client text) session
      logInject json env now sink (ascii "queue-starve") (agamemnonUrl env) ran.response.status
        ran.response.body = .ok written ∧
      safeInjectQueueStarve client json around env now subject session sink =
        ⟨.ok ran.response.body, ran.session, written, ran.events⟩ := by
  cases guard : requireSubjectAllowed env (ascii "queue-starve") subject with
  | error error =>
    cases error with
    | subjectFilterViolation what =>
      rw [safeInjectQueueStarve_guarded guard] at ended
      unfold recordThen at ended
      split at ended <;> cases ended
    | subjectFilterConfigError _ => simp [safeInjectQueueStarve, guard] at ended
    | json _ => simp [safeInjectQueueStarve, guard] at ended
  | ok _ =>
    by_cases empty : subject = []
    · rw [safeInjectQueueStarve_gated guard empty] at ended
      cases ended
    · cases dumped : json.dump (subjectBody subject) with
      | error error =>
        have unsent : ∃ error, client.request json env (.post queueStarvePath (subjectBody subject)) =
            .error error := by
          cases gate : postGate env queueStarvePath (subjectBody subject : Json Bytes ν) <;>
            simp [HttpTestClient.request, HttpTestClient.postRequest, gate, dumped, Except.mapError, bind,
              Except.bind]
        obtain ⟨error, unsent⟩ := unsent
        simp [safeInjectQueueStarve, guard, HttpTestClient.perform, unsent] at ended
      | ok text =>
        simp only [safeInjectQueueStarve_posted guard empty dumped, recordThen] at ended ⊢
        split at ended
        · rename_i written logged
          exact ⟨text, written, logged, rfl⟩
        · cases ended

end Completed

theorem Recorded.unique {json : Nlohmann ν} {first second : List (Bytes × Json Bytes ν)}
    (one : Recorded json sink emission first) (other : Recorded json sink emission second)
    (name : Bytes) (value : Json Bytes ν) (inFirst : (name, value) ∈ first) (inSecond : (name, value') ∈ second) :
    value = value' := by
  obtain ⟨line, members, written, _, parsed, holds⟩ := one
  obtain ⟨line', members', written', _, parsed', holds'⟩ := other
  have same : line = line' := by simpa using written.symm.trans written'
  subst same
  cases parsed.symm.trans parsed'
  exact Option.some.inj ((holds _ inFirst).symm.trans (holds' _ inSecond))

theorem Recorded.weaken {json : Nlohmann ν} {fields fewer : List (Bytes × Json Bytes ν)}
    (recorded : Recorded json sink emission fields) (included : fewer ⊆ fields) :
    Recorded json sink emission fewer := by
  obtain ⟨line, members, written, whole, parsed, holds⟩ := recorded
  exact ⟨line, members, written, whole, parsed, fun field member => holds field (included member)⟩

/-- The injection record names the endpoint every attempt of its POST was addressed to. -/
def TargetIsEndpoint (json : Nlohmann ν) (sink : Bytes) (injection : Injection ω ν) : Prop :=
  ∃ target, Recorded json sink (.ok injection.sink)
      [(ascii "action", .string (ascii "inject")), (ascii "target", .string target)] ∧
    ∀ attempt ∈ attempts injection.events,
      denotes target = some (attempt.request.host, attempt.request.port)

/-- The record carries the URL, and the attempts the client's own endpoint. -/
theorem targetIsEndpoint_iff_denotes {ω ν : Type} {json : Nlohmann ν} {around : Surroundings ω}
    {env : Environment} {now : UtcReading} {subject : Bytes} {session : Session ω} {sink : Bytes}
    {client : HttpTestClient} {body : Json Bytes ν}
    (ended : (safeInjectQueueStarve client json around env now subject session sink).result = .ok body) :
    TargetIsEndpoint json sink (safeInjectQueueStarve client json around env now subject session sink) ↔
      denotes (agamemnonUrl env) = some (client.host, client.port) := by
  obtain ⟨text, written, logged, injected⟩ := safeInjectQueueStarve_ok ended
  obtain ⟨requests, silent⟩ := runWithRetry_requests json client.retry client.breakerCfg around
    (injectionRequest client text) session
  have recorded := logInject_recorded (returnable_of_run client.retry client.breakerCfg
    (injectionRequest client text) session).faithful logged
  have answered : (runWithRetry json client.retry client.breakerCfg around
      (injectionRequest client text) session).response.body ≠ .null := by
    intro null
    rw [null] at logged
    cases logged
  rw [injected]
  constructor
  · intro ⟨target, names, contacted⟩
    have same : agamemnonUrl env = target := Json.string.inj
      (recorded.unique names (ascii "target") (.string (agamemnonUrl env)) (by simp [givenFields]) (by simp))
    obtain ⟨attempt, member⟩ := List.exists_mem_of_ne_nil _ fun none => answered (silent none)
    have denoted := contacted attempt member
    rw [requests attempt member] at denoted
    exact same ▸ denoted
  · intro denoted
    refine ⟨agamemnonUrl env, recorded.weaken (by simp [givenFields]), fun attempt member => ?_⟩
    rw [requests attempt member]
    exact denoted

/-- For a client built from `AGAMEMNON_URL`, the recorded target is the contacted endpoint
exactly when the URL matches the client's pattern, or denotes the fallback itself. -/
theorem target_is_endpoint_iff {ω ν : Type} (json : Nlohmann ν) (around : Surroundings ω)
    (env : Environment) (now : UtcReading) (subject : Bytes) (session : Session ω) (sink : Bytes)
    {client : HttpTestClient} {body : Json Bytes ν}
    (constructed : HttpTestClient.make (agamemnonUrl env) retry breakerCfg timeouts = .ok client)
    (ended : (safeInjectQueueStarve client json around env now subject session sink).result = .ok body) :
    TargetIsEndpoint json sink (safeInjectQueueStarve client json around env now subject session sink) ↔
      urlMatch (agamemnonUrl env) ≠ none ∨
        denotes (agamemnonUrl env) = some (ascii "localhost", 8080) := by
  rw [targetIsEndpoint_iff_denotes ended]
  rcases make_endpoint constructed with ⟨unmatched, host, port⟩ | ⟨host, digits, found, sameHost, samePort⟩
  · simp [unmatched, host, port]
  · simp [found, sameHost, samePort, denotes_of_urlMatch found]

/-- Only `AGAMEMNON_URL` is set. -/
def withUrl (url : Bytes) : Environment := fun
  | .agamemnonUrl => some url
  | _ => none

/-- An injection from a client at `host`, with `AGAMEMNON_URL` set to `url`, on a network
that answers one POST with a fault id. -/
def sampleInjection (url host : Bytes) : Injection (List HttpResult) JsonText.Lexeme :=
  safeInjectQueueStarve { host, port := 8080 } Nlohmann.text scripted
    (withUrl url) ⟨2025, 1, 2, 3, 4, 5, 6⟩ (ascii "hi.test.orders")
    { wire := [some ⟨201, ascii "\x7b\"id\":\"f-1\"\x7d"⟩] } []

private theorem ok_of_isOk (result : Except ε α) (ok : result.isOk = true) : ∃ value, result = .ok value := by
  cases result with
  | error _ => cases ok
  | ok value => exact ⟨value, rfl⟩

/-- A URL with an explicit port is reported as it is contacted. -/
theorem matching_url_is_reported :
    TargetIsEndpoint Nlohmann.text []
      (sampleInjection (ascii "http://agamemnon.internal:8080") (ascii "agamemnon.internal")) := by
  obtain ⟨body, ended⟩ := ok_of_isOk
    (sampleInjection (ascii "http://agamemnon.internal:8080") (ascii "agamemnon.internal")).result
    (by decide +kernel)
  have constructed : HttpTestClient.make (agamemnonUrl (withUrl (ascii "http://agamemnon.internal:8080")))
      {} {} {} = .ok { host := ascii "agamemnon.internal", port := 8080 } := rfl
  exact (target_is_endpoint_iff Nlohmann.text scripted _ _ _ _ _ constructed ended).mpr (.inl (by decide))

/-- A URL without a port is accepted, contacted as `localhost:8080` and reported as given. -/
theorem portless_url_is_misreported :
    HttpTestClient.make (ascii "http://agamemnon.internal") {} {} {} =
        .ok { host := ascii "localhost", port := 8080 } ∧
      ¬ TargetIsEndpoint Nlohmann.text []
        (sampleInjection (ascii "http://agamemnon.internal") (ascii "localhost")) := by
  obtain ⟨body, ended⟩ := ok_of_isOk
    (sampleInjection (ascii "http://agamemnon.internal") (ascii "localhost")).result (by decide +kernel)
  refine ⟨rfl, ?_⟩
  rw [sampleInjection, targetIsEndpoint_iff_denotes ended]
  decide

end Charybdis.Audit
