import Charybdis.EndToEnd.Wire
import Charybdis.Stub.EndpointSpelling
import Charybdis.Stub.FaultHistory

/-! Which queue-starve faults the stub registers for the client, and under which subjects.
The client's gate compares the path with one spelling; the stub reads many. -/

namespace Charybdis.EndToEnd

open Foundation Client Stub

variable {ν : Type} {runtime : Runtime} {json : Nlohmann ν} {client : HttpTestClient} {env : Environment}

/-! ### What the caller hands over -/

/-- An object whose string member `subject` starts with the configured prefix, neither of
the two being empty. -/
def NamesAllowedSubject (env : Environment) (body : Json Bytes ν) : Prop :=
  ∃ members subject, body = .object members ∧
    members.lookup (ascii "subject") = some (.string subject) ∧
    subject ≠ [] ∧ subjectPrefix env ≠ [] ∧ subjectPrefix env <+: subject

theorem namesAllowedSubject_iff {body : Json Bytes ν} :
    NamesAllowedSubject env body ↔
      subjectAllowed (queueStarveSubject body) (subjectPrefix env) = true := by
  rw [subjectAllowed_iff]
  constructor
  · rintro ⟨members, subject, same, found, nonempty, configured, starts⟩
    have read : queueStarveSubject body = subject := by simp [same, queueStarveSubject, found]
    rw [read]
    exact ⟨configured, nonempty, starts⟩
  · rintro ⟨configured, nonempty, starts⟩
    unfold queueStarveSubject at nonempty starts
    split at nonempty
    · rename_i members
      split at nonempty
      · rename_i subject found
        exact ⟨members, subject, rfl, found, nonempty, configured, by simpa [found] using starts⟩
      · exact absurd rfl nonempty
    · exact absurd rfl nonempty

/-- The body of a POST, as a value or as the text of one, names an allowed subject. -/
def Carries (json : Nlohmann ν) (env : Environment) : Call ν → Prop
  | .post _ body => NamesAllowedSubject env body
  | .postRaw _ body _ => ∃ value, json.parse body = .ok value ∧ NamesAllowedSubject env value
  | .get _ | .del _ => False

/-- Path and text of a POST, where its body can be serialised. -/
def posted (json : Nlohmann ν) : Call ν → Option (Bytes × Bytes)
  | .post path body => (json.dump body).toOption.map fun text => (path, text)
  | .postRaw path body _ => some (path, body)
  | .get _ | .del _ => none

theorem enforced_subject {subject : Bytes} (enabled : subjectFilterDisabled env = false)
    (passed : enforceQueueStarveSubject env subject = .ok ()) :
    subjectAllowed subject (subjectPrefix env) = true := by
  unfold enforceQueueStarveSubject at passed
  split at passed
  · cases passed
  · rcases requireSubjectAllowed_ok_iff.mp passed with disabled | allowed
    · simp [enabled] at disabled
    · exact allowed

theorem postGate_carries {path : Bytes} {body : Json Bytes ν} (enabled : subjectFilterDisabled env = false)
    (exact : path = queueStarvePath) (passed : postGate env path body = .ok ()) :
    NamesAllowedSubject env body := by
  rw [postGate, if_pos exact] at passed
  exact namesAllowedSubject_iff.mpr (enforced_subject enabled passed)

theorem postRawGate_carries {path body : Bytes} (enabled : subjectFilterDisabled env = false)
    (exact : path = queueStarvePath) (passed : postRawGate json env path body = .ok ()) :
    ∃ value, json.parse body = .ok value ∧ NamesAllowedSubject env value := by
  rw [postRawGate, if_pos exact] at passed
  split at passed
  · rename_i value parsed
    exact ⟨value, parsed, namesAllowedSubject_iff.mpr (enforced_subject enabled passed)⟩
  · cases passed
  · cases passed

theorem gates_pass {path : Bytes} (env : Environment) (json : Nlohmann ν) (other : path ≠ queueStarvePath) :
    (∀ body : Json Bytes ν, postGate env path body = .ok ()) ∧
      ∀ body, postRawGate json env path body = .ok () := by
  simp [postGate, postRawGate, other]

private theorem postRawRequest_ok {path body contentType : Bytes} {request : WireRequest}
    (sent : client.postRawRequest json env path body contentType = .ok request) :
    postRawGate json env path body = .ok () ∧
      request = { host := client.host, port := client.port, method := .post, path, body,
                  contentType := some contentType } := by
  unfold HttpTestClient.postRawRequest at sent
  cases gate : postRawGate json env path body with
  | error error => simp [gate, bind, Except.bind] at sent
  | ok _ =>
    simp [gate, bind, Except.bind, pure, Except.pure] at sent
    exact ⟨rfl, sent.symm⟩

/-- A request of method POST comes from a POST call: it has its path and its text, and on
the guarded path the call names an allowed subject. -/
theorem request_post {call : Call ν} {request : WireRequest} (enabled : subjectFilterDisabled env = false)
    (sent : client.request json env call = .ok request) (verb : request.method = .post) :
    posted json call = some (request.path, request.body) ∧
      (request.path = queueStarvePath → Carries json env call) := by
  cases call with
  | get path =>
    cases sent
    cases verb
  | del path =>
    cases sent
    cases verb
  | postRaw path body contentType =>
    obtain ⟨gate, same⟩ := postRawRequest_ok sent
    subst same
    exact ⟨rfl, fun exact => postRawGate_carries enabled exact gate⟩
  | post path body =>
    simp only [HttpTestClient.request, HttpTestClient.postRequest] at sent
    cases gate : postGate env path body with
    | error error => simp [gate, bind, Except.bind] at sent
    | ok _ =>
      cases dumped : json.dump body with
      | error error => simp [gate, dumped, bind, Except.bind, Except.mapError] at sent
      | ok text =>
        simp only [gate, dumped, bind, Except.bind, Except.mapError] at sent
        obtain ⟨_, same⟩ := postRawRequest_ok sent
        subst same
        exact ⟨by simp [posted, dumped, Except.toOption], fun exact => postGate_carries enabled exact gate⟩

/-- Off the guarded path every POST that can be serialised is sent. -/
theorem request_unguarded (client : HttpTestClient) (env : Environment) {call : Call ν} {path text : Bytes}
    (hands : posted json call = some (path, text)) (other : path ≠ queueStarvePath) :
    ∃ contentType, client.request json env call =
      .ok { host := client.host, port := client.port, method := .post, path, body := text, contentType } := by
  cases call with
  | get _ => cases hands
  | del _ => cases hands
  | postRaw _ _ contentType =>
    cases hands
    exact ⟨some contentType, by
      simp [HttpTestClient.request, HttpTestClient.postRawRequest, (gates_pass env json other).2, bind,
        Except.bind, pure, Except.pure]⟩
  | post _ body =>
    cases dumped : json.dump body with
    | error error => simp [posted, dumped, Except.toOption] at hands
    | ok _ =>
      simp only [posted, dumped, Except.toOption, Option.map_some, Option.some.injEq, Prod.mk.injEq] at hands
      obtain ⟨rfl, rfl⟩ := hands
      exact ⟨some (ascii "application/json"), by
        simp [HttpTestClient.request, HttpTestClient.postRequest, HttpTestClient.postRawRequest,
          gates_pass env json other, dumped, bind, Except.bind, Except.mapError, pure, Except.pure]⟩

/-! ### What the stub makes of it -/

/-- The stub's router takes the path of a POST for the queue-starve endpoint. -/
def ReadAsQueueStarve (runtime : Runtime) (path : Bytes) : Prop :=
  ∃ target, requestTarget .post path = .ok target ∧
    route runtime target = .ok (py "/v1/chaos/queue-starve")

/-- Texts the stub creates a fault for: not empty, and either not JSON or the text of a
false value or of an object. -/
def Registrable (runtime : Runtime) (text : Bytes) : Prop :=
  text ≠ [] ∧
    match runtime.loads text with
    | .ok body => truthy body = false ∨ ∃ members, body = .object members
    | .error .decode => True
    | .error (.raised _) => False

/-- The request makes the stub register a fault of type `queue-starve`. -/
def RegistersQueueStarve (runtime : Runtime) (stub : Agamemnon) (request : WireRequest) : Prop :=
  ∃ asks, received request = .ok asks ∧
    ∃ faultId fault, stub.faults.get? faultId = none ∧
      (handle runtime stub asks).stub.faults.get? faultId = some fault ∧
      fault.get? (py "type") = some (.string (py "queue-starve"))

theorem bodyFields_ok_iff {body : PyJson} :
    (∃ fields, bodyFields body = .ok fields) ↔ truthy body = false ∨ ∃ members, body = .object members := by
  unfold bodyFields
  split
  · rename_i true
    cases body <;> simp_all [items, truthy]
  · rename_i false
    simp_all

theorem registrable_iff (asks : Stub.Request) (whole : asks.contentLength = .length asks.rfile.length) :
    Registrable runtime asks.rfile ↔
      ∃ body fields, Stub.parseBody runtime asks = .ok (body, false) ∧ bodyFields body = .ok fields := by
  rw [Registrable, parseBody_whole whole]
  by_cases empty : asks.rfile = []
  · simp [empty]
  · simp only [empty, ↓reduceIte, loadBody]
    cases runtime.loads asks.rfile with
    | ok body =>
      simp only [Except.map, Except.ok.injEq, Prod.mk.injEq, and_true, exists_and_left,
        exists_eq_left', bodyFields_ok_iff]
      exact and_iff_right empty
    | error failure =>
      cases failure with
      | decode => simp [empty, Except.map, bodyFields, truthy]
      | raised error => simp [empty, Except.map]

private theorem methodOf_post {method : HttpMethod} : methodOf method = .post ↔ method = .post := by
  cases method <;> simp [methodOf]

theorem asks_queueStarve_iff (request : WireRequest) :
    (∃ fields, wireAsks runtime request = some (py "queue-starve", fields)) ↔
      request.method = .post ∧ ReadAsQueueStarve runtime request.path ∧
        Registrable runtime request.body := by
  have endpoint : chaosPrefix ++ py "queue-starve" = py "/v1/chaos/queue-starve" := by decide
  have known : py "queue-starve" ∈ faultTypes := by decide
  cases targeted : requestTarget request.method request.path with
  | error status =>
    constructor
    · rintro ⟨fields, asks⟩
      simp [wireAsks, received, targeted, Except.map, Except.toOption] at asks
    · rintro ⟨post, ⟨target, same, _⟩, _⟩
      rw [post] at targeted
      cases targeted.symm.trans same
  | ok target =>
    let arrived : Stub.Request :=
      { method := methodOf request.method, path := target
        contentType := request.contentType.map latin1
        contentLength := .length request.body.length, rfile := request.body }
    have arrives : wireAsks runtime request = asked runtime arrived := by
      simp [wireAsks, received, targeted, Except.map, Except.toOption, arrived]
    have body : Registrable runtime request.body ↔ _ := registrable_iff arrived rfl
    rw [arrives, body]
    constructor
    · rintro ⟨fields, asks⟩
      obtain ⟨verb, routed, _, value, parsed, read⟩ := asked_iff.mp asks
      have post := methodOf_post.mp verb
      rw [post] at targeted
      exact ⟨post, ⟨target, targeted, endpoint ▸ routed⟩, value, fields, parsed, read⟩
    · rintro ⟨post, ⟨read, same, routed⟩, value, fields, parsed, merged⟩
      rw [post] at targeted
      cases targeted.symm.trans same
      exact ⟨fields, asked_iff.mpr ⟨methodOf_post.mpr post, endpoint ▸ routed, known, value, parsed, merged⟩⟩

/-- The stub registers such a fault only for a request that asks for it. -/
theorem asks_of_registers {stub : Agamemnon} {request : WireRequest}
    (registers : RegistersQueueStarve runtime stub request) :
    ∃ fields, wireAsks runtime request = some (py "queue-starve", fields) := by
  obtain ⟨arrived, arrives, faultId, fault, absent, found, typed⟩ := registers
  rcases handle_cases runtime stub arrived with
    ⟨chaosType, fields, asks, served⟩ | ⟨gone, _, _, served⟩ | alone
  · rw [served, send_stub, registered, Dict.get?_set] at found
    split at found
    · cases found
      rw [get?_newFault_type] at typed
      cases typed
      exact ⟨fields, wireAsks_iff.mpr ⟨arrived, arrives, asks⟩⟩
    · simp [absent] at found
  · rw [served, send_stub, removed, Dict.get?_erase] at found
    split at found
    · cases found
    · simp [absent] at found
  · rw [alone.same.1] at found
    simp [absent] at found

/-- A stub without faults registers one for every request that asks for it. -/
theorem registers_of_asks {request : WireRequest}
    (asks : wireAsks runtime request = some (py "queue-starve", fields)) :
    RegistersQueueStarve runtime {} request := by
  obtain ⟨arrived, arrives, asks⟩ := wireAsks_iff.mp asks
  refine ⟨arrived, arrives, runtime.uuid4 0, newFault (runtime.uuid4 0) (py "queue-starve") fields, rfl, ?_,
    get?_newFault_type fields⟩
  rcases handle_cases runtime {} arrived with
    ⟨chaosType, found, again, served⟩ | ⟨_, _, live, _⟩ | alone
  · cases asks.symm.trans again
    rw [served, send_stub, registered, Dict.get?_set, if_pos rfl]
  · cases live
  · cases asks.symm.trans alone.asks

/-! ### Every spelling of the endpoint -/

theorem queueStarve_isEndpoint : IsEndpoint (py "/v1/chaos/queue-starve") where
  rooted := ⟨0x76, py "1/chaos/queue-starve", rfl, by decide⟩
  plain := by decide
  whole := by decide

private theorem mem_singleSlash {text : PyStr} {point : Nat} (member : point ∈ singleSlash text) :
    point = 0x2f ∨ point ∈ text := by
  unfold singleSlash at member
  split at member
  · exact (List.mem_cons.mp member).imp_right fun behind => (List.dropWhile_suffix _).subset behind
  · exact .inr member

/-- A path is read as the endpoint when it fits a request line as one word and spells the
endpoint once its leading slashes are one: before it control characters, a scheme and a valid
network location may stand, and behind it slashes, parameters, a query and a fragment. -/
theorem readAsQueueStarve_iff {path : Bytes} :
    ReadAsQueueStarve runtime path ↔
      path.length + 16 ≤ maxRequestLine ∧ (latin1 path).any isLatinSpace = false ∧
        Spells runtime (py "/v1/chaos/queue-starve") (singleSlash (latin1 path)) := by
  have line : (methodName .post ++ ascii " " ++ path ++ ascii " HTTP/1.1\r\n").length = path.length + 16 := by
    simp [methodName, ascii]
  have routed (word : (latin1 path).any isLatinSpace = false) :
      route runtime (singleSlash (latin1 path)) = .ok (py "/v1/chaos/queue-starve") ↔
        Spells runtime (py "/v1/chaos/queue-starve") (singleSlash (latin1 path)) := by
    refine route_iff queueStarve_isEndpoint fun point member => ?_
    rcases mem_singleSlash member with rfl | inside
    · decide
    · have solid := List.any_eq_false.mp word point inside
      simp [isLatinSpace] at solid
      simp only [List.mem_cons, List.not_mem_nil, or_false]
      omega
  simp only [ReadAsQueueStarve, requestTarget, line]
  split
  · rename_i long
    simp [Nat.not_le.mpr long]
  · rename_i fits
    split
    · rename_i broken
      constructor
      · rintro ⟨_, refused, _⟩
        cases refused
      · rintro ⟨_, word, spells⟩
        rcases broken with rfl | spaced
        · cases (routed word).mpr spells
        · cases spaced.symm.trans word
    · rename_i whole
      obtain ⟨_, solid⟩ := not_or.mp whole
      have word : (latin1 path).any isLatinSpace = false := Bool.eq_false_iff.mpr solid
      rw [and_iff_right (Nat.not_lt.mp fits), and_iff_right word, ← routed word]
      simp

/-- With the filter on, every queue-starve fault the stub registers for a call names an allowed
subject, unless the call spells the endpoint in another way that the stub reads as the same
(`readAsQueueStarve_iff`) and its text is one the stub registers. -/
theorem queue_starve_is_filtered_iff (runtime : Runtime) (json : Nlohmann ν) (client : HttpTestClient)
    (env : Environment) (call : Call ν) (enabled : subjectFilterDisabled env = false) :
    (∀ request, PutsOnWire client json env call request →
      ∀ history stub, Execution (StubStep runtime) {} history stub →
        RegistersQueueStarve runtime stub request → Carries json env call) ↔
    ∀ path text, posted json call = some (path, text) →
      path = queueStarvePath ∨ ¬ ReadAsQueueStarve runtime path ∨ ¬ Registrable runtime text ∨
        Carries json env call := by
  constructor
  · intro filtered path text hands
    by_cases exact : path = queueStarvePath
    · exact .inl exact
    · refine .inr ?_
      by_cases read : ReadAsQueueStarve runtime path
      · refine .inr ?_
        by_cases registrable : Registrable runtime text
        · obtain ⟨contentType, sent⟩ := request_unguarded client env hands exact
          obtain ⟨fields, asks⟩ := (asks_queueStarve_iff
            ⟨client.host, client.port, .post, path, text, contentType⟩).mpr ⟨rfl, read, registrable⟩
          exact .inr (filtered _ (putsOnWire_iff.mpr sent) [] {} .done (registers_of_asks asks))
        · exact .inl registrable
      · exact .inl read
  · intro condition request wired history stub _ registers
    have sent := putsOnWire_iff.mp wired
    obtain ⟨verb, read, registrable⟩ := (asks_queueStarve_iff request).mp (asks_of_registers registers)
    obtain ⟨hands, guarded⟩ := request_post enabled sent verb
    rcases condition request.path request.body hands with exact | other | other | carries
    · exact guarded exact
    · exact absurd read other
    · exact absurd registrable other
    · exact carries

def sampleClient : HttpTestClient where
  host := ascii "localhost"
  port := 8080

/-- What the sample client sends for a JSON body. -/
def sampleRequest (path text : Bytes) : WireRequest where
  host := ascii "localhost"
  port := 8080
  method := .post
  path := path
  body := text
  contentType := some (ascii "application/json")

/-- No variable is set: the filter is on, with the shipped prefix. -/
def defaultEnvironment : Environment := fun _ => none

/-- A final slash is enough to starve the queue without naming a subject. -/
theorem trailing_slash_escapes_the_gate :
    let call : Call JsonText.Lexeme := .post (ascii "/v1/chaos/queue-starve/") (.object [])
    subjectFilterDisabled defaultEnvironment = false ∧
    ∃ request history stub, PutsOnWire sampleClient Nlohmann.text defaultEnvironment call request ∧
      Execution (StubStep sampleRuntime) {} history stub ∧
      RegistersQueueStarve sampleRuntime stub request ∧
      ¬ Carries Nlohmann.text defaultEnvironment call := by
  intro call
  have sent : sampleClient.request Nlohmann.text defaultEnvironment call =
      .ok (sampleRequest (ascii "/v1/chaos/queue-starve/") (ascii "\x7b\x7d")) := by decide +kernel
  have asks : (wireAsks sampleRuntime
      (sampleRequest (ascii "/v1/chaos/queue-starve/") (ascii "\x7b\x7d"))).map Prod.fst =
      some (py "queue-starve") := by decide +kernel
  obtain ⟨⟨_, fields⟩, asks, rfl⟩ := Option.map_eq_some_iff.mp asks
  refine ⟨rfl, _, [], {}, putsOnWire_iff.mpr sent, .done, registers_of_asks asks, ?_⟩
  rintro ⟨members, subject, same, found, _⟩
  cases same
  cases found

/-- On the exact path the fault the stub registers names a subject under the prefix. -/
theorem guarded_injection_carries_its_subject :
    let call : Call JsonText.Lexeme := .post (ascii "/v1/chaos/queue-starve")
      (.object [(ascii "subject", .string (ascii "hi.test.orders"))])
    let request := sampleRequest (ascii "/v1/chaos/queue-starve")
      (ascii "\x7b\"subject\":\"hi.test.orders\"\x7d")
    RegistersQueueStarve sampleRuntime {} request ∧ Carries Nlohmann.text defaultEnvironment call := by
  intro call request
  have sent : sampleClient.request Nlohmann.text defaultEnvironment call = .ok request := by decide +kernel
  have asks : (wireAsks sampleRuntime request).map Prod.fst = some (py "queue-starve") := by decide +kernel
  obtain ⟨⟨_, fields⟩, asks, rfl⟩ := Option.map_eq_some_iff.mp asks
  have registers := registers_of_asks asks
  refine ⟨registers, ?_⟩
  refine (queue_starve_is_filtered_iff sampleRuntime Nlohmann.text sampleClient defaultEnvironment call
    rfl).mpr ?_ request (putsOnWire_iff.mpr sent) [] {} .done registers
  intro path text hands
  simp only [call, posted, Option.map_eq_some_iff] at hands
  obtain ⟨_, _, same⟩ := hands
  exact .inl (congrArg Prod.fst same).symm

end Charybdis.EndToEnd
