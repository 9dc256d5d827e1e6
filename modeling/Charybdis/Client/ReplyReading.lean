import Charybdis.Client.BreakerHistory

/-! What the client and its tests read out of a reply: `is_healthy` and the agent id. Both
read members of a body that a faulty server chose. -/

namespace Charybdis.Client

open Foundation

def HttpTestClient.get (client : HttpTestClient) (json : Nlohmann ν) (around : Surroundings ω)
    (path : Bytes) (session : Session ω) : Ran ω ν :=
  runWithRetry json client.retry client.breakerCfg around
    { host := client.host, port := client.port, method := .get, path } session

def healthPath : Bytes := ascii "/v1/health"

/-- `status == 200 && body.value("status", "") == "ok"`, evaluated from the left. -/
def healthOf (response : Response ν) : Except JsonError Bool :=
  if response.status = 200 then do
    let status ← valueString (ascii "status") response.body
    return status = ascii "ok"
  else .ok false

def HttpTestClient.isHealthy (client : HttpTestClient) (json : Nlohmann ν) (around : Surroundings ω)
    (session : Session ω) : Except JsonError Bool × Session ω :=
  let ran := client.get json around healthPath session
  (healthOf ran.response, ran.session)

/-- The default of the nested read is `nlohmann::json{}`, which is null. -/
def extractAgentId (agent : Json Bytes ν) : Except JsonError Bytes :=
  if containsKey (ascii "id") agent then valueString (ascii "id") agent
  else do
    let nested ← valueJson (ascii "agent") .null agent
    valueString (ascii "id") nested

/-! ### The reply a call returns -/

/-- The result of the last wire attempt; a call that made none got no reply. -/
def finalReply (events : List Event) : HttpResult :=
  (attempts events).getLast?.bind Attempt.result

def readReply (json : Nlohmann ν) : HttpResult → Response ν
  | some res => ⟨res.status, parseBody json res.body⟩
  | none => ⟨0, .null⟩

section Reply

variable {ω ν : Type} (json : Nlohmann ν)

theorem runWithRetry_response (policy : RetryPolicy) (cfg : CircuitBreakerConfig)
    (around : Surroundings ω) (request : WireRequest) (session : Session ω) :
    (runWithRetry json policy cfg around request session).response =
      readReply json (finalReply (runWithRetry json policy cfg around request session).events) := by
  refine retryLoop_rule (motive := fun _ ran => ran.response = readReply json (finalReply ran.events))
    ?refusal ?answer ?exhausted ?again 0 (totalAttempts_pos policy) session
  case refusal =>
    intro session _
    rfl
  case answer =>
    intro session res _ answered
    simp [finalReply, readReply, answered]
  case exhausted =>
    intro session _ failed
    simp [finalReply, readReply, failed]
  case again =>
    intro session delay rest _ failed later
    rw [later]
    congr 1
    simp only [finalReply, attempts_attempted, attempts_slept, List.getLast?_cons]
    cases (attempts rest.events).getLast? with
    | none => exact failed.symm
    | some last => rfl

end Reply

section Bodies

variable {ν : Type} {json : Nlohmann ν}

/-- The objects that stand for an oversized or a malformed body hold only strings. -/
theorem textOrAbsent_parseBody {key body : Bytes} : TextOrAbsent key (parseBody json body) ↔
    (body.length ≤ kMaxBodyBytes → ∀ value, json.parse body = .ok value → TextOrAbsent key value) := by
  have synthetic (name text : Bytes) : TextOrAbsent (ν := ν) key (.object [(name, .string text)]) := by
    refine ⟨_, rfl, ?_⟩
    intro member found
    rw [List.lookup_cons] at found
    split at found
    · exact ⟨text, (Option.some.inj found).symm⟩
    · cases found
  unfold parseBody
  by_cases large : body.length > kMaxBodyBytes
  · rw [if_pos large]
    exact ⟨fun _ small => absurd large (Nat.not_lt.mpr small), fun _ => synthetic _ _⟩
  · rw [if_neg large]
    cases json.parse body with
    | ok value =>
      refine ⟨?_, fun all => all (Nat.not_lt.mp large) value rfl⟩
      intro read _ other same
      cases same
      exact read
    | error error =>
      refine ⟨?_, fun _ => synthetic _ _⟩
      intro _ _ other same
      cases same

/-- A reply that reports health: a 200 whose body is an object with the status "ok". -/
def SaysOk (json : Nlohmann ν) : HttpResult → Prop
  | some res => res.status = 200 ∧ ∃ members, parseBody json res.body = .object members ∧
      members.lookup (ascii "status") = some (.string (ascii "ok"))
  | none => False

/-- Only a 200 is read: unless it is too large or malformed, its JSON has to be an object
without a status or with a textual one. -/
def HealthReadable (json : Nlohmann ν) : HttpResult → Prop
  | some res => res.status = 200 → res.body.length ≤ kMaxBodyBytes →
      ∀ value, json.parse res.body = .ok value → TextOrAbsent (ascii "status") value
  | none => True

private theorem valueString_ok_of_member {key text : Bytes} {value : Json Bytes ν} :
    valueString key value = .ok text → text ≠ [] →
      ∃ members, value = .object members ∧ members.lookup key = some (.string text) := by
  intro read nonempty
  obtain ⟨members, rfl, texts⟩ := valueString_ok_iff.mp ⟨text, read⟩
  refine ⟨members, rfl, ?_⟩
  cases found : members.lookup key with
  | none =>
    simp only [valueString, found, Except.ok.injEq] at read
    exact absurd read.symm nonempty
  | some member =>
    obtain ⟨other, rfl⟩ := texts member found
    simp only [valueString, found, Except.ok.injEq] at read
    rw [read]

theorem healthOf_iff (reply : HttpResult) :
    (∃ healthy, healthOf (readReply json reply) = .ok healthy ∧ (healthy = true ↔ SaysOk json reply)) ↔
      HealthReadable json reply := by
  cases reply with
  | none =>
    refine ⟨fun _ => trivial, fun _ => ⟨false, by simp [healthOf, readReply], by simp [SaysOk]⟩⟩
  | some res =>
    by_cases accepted : res.status = 200
    · simp only [HealthReadable, accepted, true_implies]
      rw [← textOrAbsent_parseBody, ← valueString_ok_iff]
      constructor
      · intro ⟨healthy, read, _⟩
        simp only [healthOf, readReply, accepted, ↓reduceIte] at read
        cases status : valueString (ascii "status") (parseBody json res.body) with
        | error error => rw [status] at read; cases read
        | ok text => exact ⟨text, rfl⟩
      · intro ⟨text, status⟩
        refine ⟨text = ascii "ok", by simp [healthOf, readReply, accepted, status], ?_⟩
        rw [decide_eq_true_eq]
        constructor
        · intro ok
          subst ok
          exact ⟨accepted, valueString_ok_of_member status (by decide)⟩
        · intro ⟨_, members, shape, found⟩
          rw [shape] at status
          simp only [valueString, found, Except.ok.injEq] at status
          exact status.symm
    · refine ⟨fun _ other => absurd other accepted, fun _ => ⟨false, ?_, ?_⟩⟩
      · simp [healthOf, readReply, accepted]
      · simp [SaysOk, accepted]

/-- The string member of this name, if the value has one. -/
def textMember (key : Bytes) : Json Bytes ν → Option Bytes
  | .object members =>
    match members.lookup key with
    | some (.string text) => some text
    | _ => none
  | _ => none

/-- The id an agent record names: its own, or that of the `agent` object inside it. -/
def namedAgentId : Json Bytes ν → Option Bytes
  | .object members =>
    (textMember (ascii "id") (.object members)).or
      ((members.lookup (ascii "agent")).bind (textMember (ascii "id")))
  | _ => none

/-- The records `extract_agent_id` can read: their own id is a string, or else they have
none of their own and an `agent` object whose id, if it has one, is a string. -/
def IdReadable (agent : Json Bytes ν) : Prop :=
  ∃ members, agent = .object members ∧
    match members.lookup (ascii "id") with
    | some member => ∃ text, member = .string text
    | none => ∃ nested, members.lookup (ascii "agent") = some nested ∧ TextOrAbsent (ascii "id") nested

private theorem valueString_textMember {key : Bytes} {value : Json Bytes ν} :
    TextOrAbsent key value → valueString key value = .ok ((textMember key value).getD []) := by
  intro ⟨members, shape, texts⟩
  subst shape
  cases found : members.lookup key with
  | none => simp [valueString, textMember, found]
  | some member =>
    obtain ⟨text, rfl⟩ := texts member found
    simp [valueString, textMember, found]

private theorem extractAgentId_own {members : List (Bytes × Json Bytes ν)} {member : Json Bytes ν}
    (own : members.lookup (ascii "id") = some member) :
    extractAgentId (.object members) = .ok ((namedAgentId (.object members)).getD []) ↔
      IdReadable (.object members) := by
  simp only [extractAgentId, containsKey, own, Option.isSome_some, ↓reduceIte]
  constructor
  · intro read
    obtain ⟨_, shape, texts⟩ := valueString_ok_iff.mp ⟨_, read⟩
    cases shape
    obtain ⟨text, same⟩ := texts member own
    exact ⟨members, rfl, by simp [own, same]⟩
  · intro readable
    obtain ⟨_, shape, named⟩ := readable
    cases shape
    simp only [own] at named
    obtain ⟨text, rfl⟩ := named
    simp [valueString, namedAgentId, textMember, own]

private theorem extractAgentId_nested {members : List (Bytes × Json Bytes ν)}
    (own : members.lookup (ascii "id") = none) :
    extractAgentId (.object members) = .ok ((namedAgentId (.object members)).getD []) ↔
      IdReadable (.object members) := by
  have readable : IdReadable (.object members) ↔
      ∃ nested, members.lookup (ascii "agent") = some nested ∧ TextOrAbsent (ascii "id") nested := by
    simp [IdReadable, own]
  rw [readable]
  simp only [extractAgentId, containsKey, own, valueJson, namedAgentId, textMember]
  cases inner : members.lookup (ascii "agent") with
  | none =>
    constructor
    · intro read
      cases read
    · intro named
      obtain ⟨_, found, _⟩ := named
      cases found
  | some nested =>
    constructor
    · intro read
      exact ⟨nested, rfl, valueString_ok_iff.mp ⟨_, read⟩⟩
    · intro named
      obtain ⟨_, found, readable⟩ := named
      cases found
      exact valueString_textMember readable

theorem extractAgentId_iff (agent : Json Bytes ν) :
    extractAgentId agent = .ok ((namedAgentId agent).getD []) ↔ IdReadable agent := by
  cases agent with
  | null | boolean _ | number _ | string _ | array _ =>
    constructor
    · intro read
      cases read
    · intro readable
      obtain ⟨_, shape, _⟩ := readable
      cases shape
  | object members =>
    cases own : members.lookup (ascii "id") with
    | some member => exact extractAgentId_own own
    | none => exact extractAgentId_nested own

end Bodies

/-- A health check ends in a truthful answer exactly when the reply it got is readable, and
an agent id is found exactly when the body it is looked for in is. -/
theorem replies_are_read_iff {ω ν : Type} (json : Nlohmann ν) (client : HttpTestClient)
    (around : Surroundings ω) (session : Session ω) (agent : Json Bytes ν) :
    let reply := finalReply (client.get json around healthPath session).events
    ((∃ healthy, (client.isHealthy json around session).1 = .ok healthy ∧
        (healthy = true ↔ SaysOk json reply)) ↔ HealthReadable json reply) ∧
      (extractAgentId agent = .ok ((namedAgentId agent).getD []) ↔ IdReadable agent) := by
  intro reply
  refine ⟨?_, extractAgentId_iff agent⟩
  have answer : (client.isHealthy json around session).1 = healthOf (readReply json reply) :=
    congrArg healthOf (runWithRetry_response json _ _ _ _ session)
  rw [answer]
  exact healthOf_iff reply

/-- A client without retries. -/
def plainClient : HttpTestClient := { host := ascii "localhost", port := 8080 }

/-- A 200 with an empty array makes the health check throw; looking for an agent id in
the body of a call whose request was lost throws as well. -/
theorem array_reply_escapes_the_health_check :
    (¬ ∃ healthy, (plainClient.isHealthy Nlohmann.text scripted
      { wire := [some ⟨200, ascii "[]"⟩] }).1 = .ok healthy) ∧
    ¬ ∃ id, extractAgentId (plainClient.get Nlohmann.text scripted (ascii "/v1/agents")
      { wire := [] }).response.body = .ok id := by
  constructor
  · intro ⟨healthy, read⟩
    have thrown : (plainClient.isHealthy Nlohmann.text scripted
        { wire := [some ⟨200, ascii "[]"⟩] }).1 = .error (.typeError 306) := by decide +kernel
    cases thrown.symm.trans read
  · intro ⟨id, read⟩
    cases read

end Charybdis.Client
