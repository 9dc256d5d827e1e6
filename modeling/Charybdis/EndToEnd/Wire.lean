import Charybdis.Client.HttpTestClient
import Charybdis.Stub.Registry

/-! Client and stub on one wire. The client's HTTP library sends path and body as they
are; the stub's `http.server` reads the request line before a handler runs. -/

namespace Charybdis.EndToEnd

open Foundation Client Stub

/-- Header bytes become the code points of the same number. -/
def latin1 (bytes : Bytes) : PyStr := bytes.map UInt8.toNat

def methodName : HttpMethod → Bytes
  | .get => ascii "GET"
  | .post => ascii "POST"
  | .delete => ascii "DELETE"

def methodOf : HttpMethod → Stub.Method
  | .get => .get
  | .post => .post
  | .delete => .delete

/-- What `str.split` takes for white space among the first 256 code points. -/
def isLatinSpace (point : Nat) : Bool :=
  (0x09 ≤ point && point ≤ 0x0d) || (0x1c ≤ point && point ≤ 0x20) || point = 0x85 || point = 0xa0

/-- The longest request line the server reads. -/
def maxRequestLine : Nat := 65536

/-- Leading slashes are reduced to one. -/
def singleSlash (path : PyStr) : PyStr :=
  if (py "//").isPrefixOf path then 0x2f :: path.dropWhile (· = 0x2f) else path

/-- `self.path` of the handler, or the status of the server's own refusal: a path has to
be one word of the request line. -/
def requestTarget (method : HttpMethod) (path : Bytes) : Except Nat PyStr :=
  let line := methodName method ++ ascii " " ++ path ++ ascii " HTTP/1.1\r\n"
  if line.length > maxRequestLine then .error 414
  else if path = [] ∨ (latin1 path).any isLatinSpace = true then .error 400
  else .ok (singleSlash (latin1 path))

/-- The request a handler sees. -/
def received (request : WireRequest) : Except Nat Stub.Request :=
  (requestTarget request.method request.path).map fun path =>
    { method := methodOf request.method, path
      contentType := request.contentType.map latin1
      contentLength := .length request.body.length
      rfile := request.body }

/-- The type and the fields of the fault a request on the wire asks to register. -/
def wireAsks (runtime : Runtime) (request : WireRequest) : Option (PyStr × Record) :=
  (received request).toOption.bind (asked runtime)

/-- The identifier a request on the wire asks to delete. -/
def wireNames (runtime : Runtime) (request : WireRequest) : Option PyStr :=
  (received request).toOption.bind (named runtime)

def answerOf (runtime : Runtime) (reply : Reply) : HttpResponse :=
  ⟨reply.status, runtime.jsonText reply.body⟩

/-- One request at the server: its answer, unless the handler raised, and the state it
leaves. `errorPage` is the text of the server's own refusals. -/
def serveWire (runtime : Runtime) (errorPage : Nat → Bytes) (request : WireRequest) (stub : Agamemnon) :
    HttpResult × Agamemnon :=
  match received request with
  | .error status => (some ⟨status, errorPage status⟩, stub)
  | .ok request =>
    let outcome := handle runtime stub request
    (outcome.sent.head?.map (answerOf runtime), outcome.stub)

theorem wireAsks_iff : wireAsks runtime request = some asks ↔
    ∃ arrived, received request = .ok arrived ∧ asked runtime arrived = some asks := by
  unfold wireAsks
  cases received request <;> simp [Except.toOption]

theorem wireNames_iff : wireNames runtime request = some faultId ↔
    ∃ arrived, received request = .ok arrived ∧ named runtime arrived = some faultId := by
  unfold wireNames
  cases received request <;> simp [Except.toOption]

/-! ### What a call puts on the wire -/

section Requests

variable {ω ν : Type} {client : HttpTestClient} {json : Nlohmann ν} {around : Surroundings ω}

/-- The call makes an attempt with this request, in some session and some surroundings. -/
def PutsOnWire (client : HttpTestClient) (json : Nlohmann ν) (env : Environment) (call : Call ν)
    (request : WireRequest) : Prop :=
  ∃ (ω : Type) (around : Surroundings ω) (session : Session ω),
    ∃ made ∈ attempts (client.perform json around env call session).events, made.request = request

/-- A call puts on the wire the request it builds, and no other. -/
theorem putsOnWire_iff {env : Environment} {call : Call ν} :
    PutsOnWire client json env call request ↔ client.request json env call = .ok request := by
  constructor
  · rintro ⟨ω, around, session, made, member, same⟩
    rcases client.perform_cases json around env call session with
      ⟨_, _, performed⟩ | ⟨built, sent, performed⟩
    · simp [performed, attempts] at member
    · rw [performed] at member
      obtain ⟨requests, _⟩ := runWithRetry_requests json client.retry client.breakerCfg around built session
      rw [sent, ← same, requests made member]
  · intro sent
    -- a network that answers, behind a breaker that is still closed
    let around : Surroundings Unit :=
      { now := fun _ => 0, jitter := fun _ => 1, transport := fun _ wire => (some ⟨200, []⟩, wire) }
    let session : Session Unit := { wire := () }
    have admitted : (admission client.breakerCfg around session).1 = true := by
      simp [admission, allowCall, session]
    obtain ⟨left, total⟩ := Nat.exists_eq_succ_of_ne_zero (totalAttempts_pos client.retry).ne'
    refine ⟨Unit, around, session, makeAttempt client.breakerCfg around request session, ?_, rfl⟩
    rcases client.perform_cases json around env call session with
      ⟨_, failed, _⟩ | ⟨built, again, performed⟩
    · cases sent.symm.trans failed
    · cases sent.symm.trans again
      have answered : (makeAttempt client.breakerCfg around request session).result = some ⟨200, []⟩ := rfl
      rw [performed, runWithRetry, total, retryLoop_answered admitted answered]
      simp [attempts]

end Requests

end Charybdis.EndToEnd
