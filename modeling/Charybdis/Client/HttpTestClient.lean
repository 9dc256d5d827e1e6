import Charybdis.Client.RetryLoop
import Charybdis.Client.SubjectFilter

/-! The client itself: construction from a URL, the checks that stand before the wire,
and sequential runs of its four calls. -/

namespace Charybdis.Client

open Foundation

structure TimeoutConfig where
  connectionTimeoutSec : Int := 5
  readTimeoutSec : Int := 10

structure HttpTestClient where
  host : Bytes
  port : Int
  retry : RetryPolicy := {}
  breakerCfg : CircuitBreakerConfig := {}
  timeouts : TimeoutConfig := {}

/-! ### Construction -/

def stripScheme (url : Bytes) : Option Bytes :=
  if (ascii "http://").isPrefixOf url then some (url.drop 7)
  else if (ascii "https://").isPrefixOf url then some (url.drop 8)
  else none

theorem stripScheme_iff {url rest : Bytes} :
    stripScheme url = some rest ↔ url = ascii "http://" ++ rest ∨ url = ascii "https://" ++ rest := by
  constructor
  · intro stripped
    unfold stripScheme at stripped
    split at stripped
    · rename_i plain
      obtain ⟨tail, same⟩ := List.isPrefixOf_iff_prefix.mp plain
      subst same
      cases stripped
      exact .inl rfl
    · split at stripped
      · rename_i secure
        obtain ⟨tail, same⟩ := List.isPrefixOf_iff_prefix.mp secure
        subst same
        cases stripped
        exact .inr rfl
      · cases stripped
  · rintro (same | same) <;> subst same <;> rfl

def notColon (byte : UInt8) : Bool := byte ≠ 0x3a

/-- `([^:]+):(\d+)` to the end of the string: the two groups. -/
def hostPort (rest : Bytes) : Option (Bytes × Bytes) :=
  match rest.dropWhile notColon with
  | [] => none
  | _ :: digits =>
    if rest.takeWhile notColon ≠ [] ∧ digits ≠ [] ∧ digits.all isDigit = true then
      some (rest.takeWhile notColon, digits)
    else none

/-- `std::regex_match` against `https?://([^:]+):(\d+)`, as documented: the matcher of libstdc++
recurses over the host, and runs out of stack on one of some 30,000 bytes. -/
def urlMatch (url : Bytes) : Option (Bytes × Bytes) := (stripScheme url).bind hostPort

def digitsValue (digits : Bytes) : Nat :=
  digits.foldl (fun value digit => value * 10 + (digit.toNat - 0x30)) 0

def intMax : Int := 2147483647

/-- The constructor; the error is the text of the `runtime_error` it throws. -/
def HttpTestClient.make (baseUrl : Bytes) (retry : RetryPolicy) (breakerCfg : CircuitBreakerConfig)
    (timeouts : TimeoutConfig) : Except Bytes HttpTestClient :=
  if timeouts.connectionTimeoutSec < 0 then
    .error (ascii "HttpTestClient: connection_timeout_sec must be >= 0, got " ++
      decimalInt timeouts.connectionTimeoutSec)
  else if timeouts.readTimeoutSec < 0 then
    .error (ascii "HttpTestClient: read_timeout_sec must be >= 0, got " ++
      decimalInt timeouts.readTimeoutSec)
  else
    match urlMatch baseUrl with
    | none => .ok { host := ascii "localhost", port := 8080, retry, breakerCfg, timeouts }
    | some (host, digits) =>
      let port : Int := digitsValue digits
      -- `std::stoi` throws `out_of_range`
      if port > intMax then
        .error (ascii "HttpTestClient: port out of range '" ++ digits ++ ascii "': stoi")
      else if port < 1 ∨ port > 65535 then
        .error (ascii "HttpTestClient: port out of valid range [1,65535]: " ++ digits)
      else .ok { host, port, retry, breakerCfg, timeouts }

/-! ### The checks before the wire -/

def queueStarveSubject : Json Bytes ν → Bytes
  | .object members =>
    match members.lookup (ascii "subject") with
    | some (.string subject) => subject
    | _ => []
  | _ => []

def missingSubjectMessage : Bytes :=
  ascii "Charybdis subject filter: queue-starve POST requires an explicit 'subject' field; " ++
    ascii "a body-less request stalls ALL pull consumers"

def rawBodyMessage : Bytes :=
  ascii "Charybdis subject filter: queue-starve raw POST body is not valid JSON; " ++
    ascii "an explicit 'subject' field is required"

def enforceQueueStarveSubject (env : Environment) (subject : Bytes) : Except ChaosError Unit :=
  if subject.isEmpty then .error (.subjectFilterViolation missingSubjectMessage)
  else requireSubjectAllowed env (ascii "queue-starve") subject

/-- The one spelling of the endpoint the gate looks for. -/
def queueStarvePath : Bytes := ascii "/v1/chaos/queue-starve"

/-- The gate of `post_raw`: only a `parse_error` is turned into a violation. -/
def postRawGate (json : Nlohmann ν) (env : Environment) (path body : Bytes) : Except ChaosError Unit :=
  if path = queueStarvePath then
    match json.parse body with
    | .ok value => enforceQueueStarveSubject env (queueStarveSubject value)
    | .error .parseError => .error (.subjectFilterViolation rawBodyMessage)
    | .error error => .error (.json error)
  else .ok ()

/-- The gate of `post`, before the body is serialised. -/
def postGate (env : Environment) (path : Bytes) (body : Json Bytes ν) : Except ChaosError Unit :=
  if path = queueStarvePath then enforceQueueStarveSubject env (queueStarveSubject body)
  else .ok ()

inductive Call (ν : Type) where
  | get (path : Bytes)
  | post (path : Bytes) (body : Json Bytes ν)
  | del (path : Bytes)
  | postRaw (path body contentType : Bytes)

namespace HttpTestClient

variable {ω ν : Type} (client : HttpTestClient) (json : Nlohmann ν) (env : Environment)

def postRawRequest (path body contentType : Bytes) : Except ChaosError WireRequest := do
  postRawGate json env path body
  return { host := client.host, port := client.port, method := .post, path, body,
           contentType := some contentType }

def postRequest (path : Bytes) (body : Json Bytes ν) : Except ChaosError WireRequest := do
  postGate env path body
  let text ← (json.dump body).mapError .json
  client.postRawRequest json env path text (ascii "application/json")

/-- What a call sends on each of its attempts, or the exception it throws first. -/
def request : Call ν → Except ChaosError WireRequest
  | .get path => .ok { host := client.host, port := client.port, method := .get, path }
  | .post path body => client.postRequest json env path body
  | .del path => .ok { host := client.host, port := client.port, method := .delete, path }
  | .postRaw path body contentType => client.postRawRequest json env path body contentType

end HttpTestClient

structure Outcome (ω ν : Type) where
  result : Except ChaosError (Response ν)
  session : Session ω
  events : List Event

def HttpTestClient.perform (client : HttpTestClient) (json : Nlohmann ν) (around : Surroundings ω)
    (env : Environment) (call : Call ν) (session : Session ω) : Outcome ω ν :=
  match client.request json env call with
  | .error error => ⟨.error error, session, []⟩
  | .ok request =>
    let ran := runWithRetry json client.retry client.breakerCfg around request session
    ⟨.ok ran.response, ran.session, ran.events⟩

/-- What one call of a run returned, and what it did. -/
structure Report (ν : Type) where
  result : Except ChaosError (Response ν)
  events : List Event

/-- A sequential run; the environment may change between calls. -/
def HttpTestClient.run (client : HttpTestClient) (json : Nlohmann ν) (around : Surroundings ω) :
    List (Environment × Call ν) → Session ω → List (Report ν) × Session ω
  | [], session => ([], session)
  | (env, call) :: rest, session =>
    let outcome := client.perform json around env call session
    let later := client.run json around rest outcome.session
    (⟨outcome.result, outcome.events⟩ :: later.1, later.2)

def trace (reports : List (Report ν)) : List Event := reports.flatMap Report.events

section Rules

variable {ω ν : Type} {client : HttpTestClient} {json : Nlohmann ν} {around : Surroundings ω}

/-- A call that throws leaves no trace; any other call is its retry loop. -/
theorem HttpTestClient.perform_cases (client : HttpTestClient) (json : Nlohmann ν)
    (around : Surroundings ω) (env : Environment) (call : Call ν) (session : Session ω) :
    (∃ error, client.request json env call = .error error ∧
      client.perform json around env call session = ⟨.error error, session, []⟩) ∨
    (∃ request, client.request json env call = .ok request ∧
      client.perform json around env call session =
        ⟨.ok (runWithRetry json client.retry client.breakerCfg around request session).response,
          (runWithRetry json client.retry client.breakerCfg around request session).session,
          (runWithRetry json client.retry client.breakerCfg around request session).events⟩) := by
  cases sent : client.request json env call with
  | error error => exact .inl ⟨error, rfl, by simp [perform, sent]⟩
  | ok request => exact .inr ⟨request, rfl, by simp [perform, sent]⟩

/-- What every retry loop leaves behind as a run of some relation, a whole run of calls does. -/
theorem HttpTestClient.run_execution {State : Type} (view : Session ω → State)
    {step : State → Event → State → Prop}
    (loop : ∀ request session, Execution step (view session)
      (runWithRetry json client.retry client.breakerCfg around request session).events
      (view (runWithRetry json client.retry client.breakerCfg around request session).session))
    (calls : List (Environment × Call ν)) (session : Session ω) :
    Execution step (view session) (trace (client.run json around calls session).1)
      (view (client.run json around calls session).2) := by
  induction calls generalizing session with
  | nil => exact .done
  | cons first rest ih =>
    obtain ⟨env, call⟩ := first
    simp only [run, trace, List.flatMap_cons]
    refine Execution.append ?_ (ih _)
    rcases client.perform_cases json around env call session with
      ⟨_, _, performed⟩ | ⟨request, _, performed⟩
    · rw [performed]
      exact .done
    · rw [performed]
      exact loop request session

/-- What holds of every call that throws and of every retry loop holds of every report. -/
theorem HttpTestClient.forall_reports {sound : Report ν → Prop}
    (thrown : ∀ error, sound ⟨.error error, []⟩)
    (loop : ∀ request session, sound
      ⟨.ok (runWithRetry json client.retry client.breakerCfg around request session).response,
        (runWithRetry json client.retry client.breakerCfg around request session).events⟩)
    (calls : List (Environment × Call ν)) (session : Session ω) :
    ∀ report ∈ (client.run json around calls session).1, sound report := by
  induction calls generalizing session with
  | nil => simp [run]
  | cons first rest ih =>
    obtain ⟨env, call⟩ := first
    rw [run, List.forall_mem_cons]
    refine ⟨?_, ih _⟩
    rcases client.perform_cases json around env call session with
      ⟨error, _, performed⟩ | ⟨request, _, performed⟩
    · rw [performed]
      exact thrown error
    · rw [performed]
      exact loop request session

end Rules

end Charybdis.Client
