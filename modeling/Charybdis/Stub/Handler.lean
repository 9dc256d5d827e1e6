import Charybdis.Stub.Python
import Charybdis.Foundation.Execution

/-! `AgamemnonHandler`: one request at a time against the stub's in-process state. A
handler may end in an exception; what it did before stays done. -/

namespace Charybdis.Stub

open Foundation

/-- A record of the stub, as the dictionary Python keeps it in. -/
abbrev Record := Dict PyStr PyJson

/-- The module's globals, and how many identifiers have been drawn. -/
structure Agamemnon where
  faults : Dict PyStr Record := .empty
  teams : Dict PyStr Record := .empty
  agents : Dict PyStr Record := .empty
  tasks : Dict PyStr Record := .empty
  drawn : Nat := 0

inductive Method where
  | get
  | post
  | delete
  | other
  deriving DecidableEq

/-- The `Content-Length` header: absent, or the result of `int` on it. -/
inductive ContentLength where
  | absent
  | malformed
  | length (value : Int)

structure Request where
  method : Method
  path : PyStr
  contentType : Option PyStr := none
  contentLength : ContentLength := .absent
  /-- What can be read from the connection before it ends. -/
  rfile : Bytes := []

/-- A complete response, and the milliseconds slept before it was sent. -/
structure Reply where
  status : Nat
  body : PyJson
  delayMs : Int

structure Outcome where
  stub : Agamemnon
  sent : List Reply := []
  raised : Option PyError := none

/-! ### Effects of the active faults -/

/-- `f.get("type") == name`. -/
def hasType (name : PyStr) (fault : Record) : Bool :=
  match fault.get? (py "type") with
  | some (.string type) => type = name
  | _ => false

/-- `f.get("active", False)` as a condition. -/
def isActive (fault : Record) : Bool := truthy ((fault.get? (py "active")).getD (.boolean false))

/-- `int(f.get("delay_ms", 0))`. -/
def delayMs (fault : Record) : Except PyError Int :=
  pyInt ((fault.get? (py "delay_ms")).getD (.number (.int 0)))

/-- A fault that responses wait for. -/
def waitedFor (fault : Record) : Bool := hasType (py "latency") fault && isActive fault

/-- One turn of the loop. -/
def addDelay (total : Int) (fault : Record) : Except PyError Int :=
  if waitedFor fault then (delayMs fault).map (total + ·) else .ok total

def activeLatencyMs (faults : Dict PyStr Record) : Except PyError Int :=
  faults.values.foldlM addDelay 0

def killActive (faults : Dict PyStr Record) : Bool :=
  faults.values.any fun fault => hasType (py "kill") fault && isActive fault

def queueStarveActive (faults : Dict PyStr Record) : Bool :=
  faults.values.any fun fault => hasType (py "queue-starve") fault && isActive fault

def chaosTypes : List PyStr :=
  ["network-partition", "latency", "kill", "queue-starve", "test-empty"].map py

/-! ### Requests and responses -/

def jsonOf (record : Record) : PyJson := .object record.entries

def recordOf (pairs : List (String × PyJson)) : Record :=
  .ofList (pairs.map fun pair => (py pair.1, pair.2))

def bodyOf (pairs : List (String × PyJson)) : PyJson := jsonOf (recordOf pairs)

def errorBody (message : String) : PyJson := bodyOf [("error", .string (py message))]

/-- `json.loads(raw)`, or `None` for a text that does not decode. -/
def loadBody (runtime : Runtime) (raw : Bytes) : Except PyError PyJson :=
  match runtime.loads raw with
  | .ok body => .ok body
  | .error .decode => .ok .null
  | .error (.raised error) => .error error

/-- The parsed body, and whether nothing was sent. -/
def parseBody (runtime : Runtime) (request : Request) : Except PyError (PyJson × Bool) := do
  let length ← match request.contentLength with
    | .absent => .ok 0
    | .malformed => .error .valueError
    | .length value => .ok value
  -- `rfile.read` takes -1 for everything up to the end of the connection
  if length < -1 then throw .valueError
  let raw := if length = -1 then request.rfile else request.rfile.take length.toNat
  if raw.isEmpty then return (.null, true)
  return (← loadBody runtime raw, false)

/-- `_send`: the latency total, the sleep, the text of the body, and only then the response. -/
def send (runtime : Runtime) (stub : Agamemnon) (status : Nat) (body : PyJson) : Outcome :=
  match activeLatencyMs stub.faults with
  | .error error => { stub, raised := some error }
  | .ok delay =>
    -- only a positive delay is slept
    if delay > 0 ∧ delay > runtime.sleepLimitMs then { stub, raised := some .overflowError }
    else
      match runtime.dumps body with
      | .error error => { stub, raised := some error }
      | .ok _ => { stub, sent := [⟨status, body, max 0 delay⟩] }

def healthPath : PyStr := py "/v1/health"
def chaosPath : PyStr := py "/v1/chaos"
def tasksPath : PyStr := py "/v1/tasks"
def chaosPrefix : PyStr := py "/v1/chaos/"

def recordList (records : Dict PyStr Record) : PyJson := .array (records.values.map jsonOf)

def completed (task : Record) : Record := task.set (py "status") (.string (py "completed"))

def doGet (runtime : Runtime) (stub : Agamemnon) (path : PyStr) : Outcome :=
  if path = healthPath then
    if killActive stub.faults then send runtime stub 503 (bodyOf [("status", .string (py "degraded"))])
    else send runtime stub 200 (bodyOf [("status", .string (py "ok"))])
  else if path = chaosPath then
    send runtime stub 200 (bodyOf [("faults", recordList stub.faults)])
  else if path = tasksPath then
    let stub :=
      if queueStarveActive stub.faults then stub else { stub with tasks := stub.tasks.mapValues completed }
    send runtime stub 200 (bodyOf [("tasks", recordList stub.tasks)])
  else send runtime stub 404 (errorBody "not found")

def draw (runtime : Runtime) (stub : Agamemnon) : PyStr × Agamemnon :=
  (runtime.uuid4 stub.drawn, { stub with drawn := stub.drawn + 1 })

/-- A fresh fault before the body's fields are merged in. -/
def bareFault (faultId chaosType : PyStr) : Record :=
  recordOf [("id", .string faultId), ("type", .string chaosType), ("active", .boolean true)]

/-- `body.items()`. -/
def items : PyJson → Except PyError Record
  | .object members => .ok (.ofList members)
  | _ => .error .attributeError

/-- `fault.update({k: v for k, v in body.items() if k not in fault})`, if the body is true. -/
def mergeBody (fault : Record) (body : PyJson) : Except PyError Record :=
  if truthy body then do
    let fields ← items body
    return fault.update (fields.filterKeys fun key => !fault.contains key)
  else .ok fault

def postChaos (runtime : Runtime) (stub : Agamemnon) (chaosType : PyStr) (body : PyJson) (empty : Bool) :
    Outcome :=
  if chaosType ∉ chaosTypes then send runtime stub 404 (errorBody "unknown chaos type")
  else if chaosType = py "test-empty" then
    if empty then send runtime stub 400 (errorBody "empty body")
    else send runtime stub 400 (errorBody "test-empty rejects non-empty body")
  else if empty then send runtime stub 400 (errorBody "empty body")
  else
    let (faultId, stub) := draw runtime stub
    match mergeBody (bareFault faultId chaosType) body with
    | .error error => { stub, raised := some error }
    | .ok fault =>
      send runtime { stub with faults := stub.faults.set faultId fault } 201 (jsonOf fault)

/-- `body.get(key, default)`. -/
def bodyGet (key : String) (default : PyJson) (body : PyJson) : Except PyError PyJson :=
  (items body).map fun fields => (fields.get? (py key)).getD default

def isJson (contentType : PyStr) : Bool :=
  contentType.tails.any (py "application/json").isPrefixOf || contentType.isEmpty

/-- `not _is_json(ct) or body is None`. -/
def badRequest (contentType : PyStr) : PyJson → Bool
  | .null => true
  | _ => !isJson contentType

def postTeams (runtime : Runtime) (stub : Agamemnon) (body : PyJson) : Outcome :=
  let (teamId, stub) := draw runtime stub
  match bodyGet "name" (.string (py "unnamed")) body with
  | .error error => { stub, raised := some error }
  | .ok name =>
    let team := recordOf [("id", .string teamId), ("name", name)]
    send runtime { stub with teams := stub.teams.set teamId team } 201 (bodyOf [("team", jsonOf team)])

def postTasks (runtime : Runtime) (stub : Agamemnon) (teamId : PyStr) (body : PyJson) : Outcome :=
  let (taskId, stub) := draw runtime stub
  match bodyGet "subject" (.string []) body with
  | .error error => { stub, raised := some error }
  | .ok subject =>
    let task := recordOf [("id", .string taskId), ("team_id", .string teamId), ("subject", subject),
      ("status", .string (py "pending"))]
    send runtime { stub with tasks := stub.tasks.set taskId task } 201 (bodyOf [("task", jsonOf task)])

def postAgents (runtime : Runtime) (stub : Agamemnon) (body : PyJson) : Outcome :=
  let (agentId, stub) := draw runtime stub
  match bodyGet "name" (.string (py "unnamed")) body with
  | .error error => { stub, raised := some error }
  | .ok name =>
    let agent := recordOf [("id", .string agentId), ("name", name)]
    send runtime { stub with agents := stub.agents.set agentId agent } 201
      (bodyOf [("agent", jsonOf agent), ("id", .string agentId)])

/-- `path.split("/")[3]` of a path that starts with `/v1/teams/`. -/
def teamSegment (path : PyStr) : PyStr := before 0x2f (path.drop (py "/v1/teams/").length)

def doPost (runtime : Runtime) (stub : Agamemnon) (path contentType : PyStr) (body : PyJson) (empty : Bool) :
    Outcome :=
  if chaosPrefix.isPrefixOf path then
    postChaos runtime stub (path.drop chaosPrefix.length) body empty
  else if path = py "/v1/teams" then
    if badRequest contentType body then send runtime stub 400 (errorBody "bad request")
    else postTeams runtime stub body
  else if (py "/v1/teams/").isPrefixOf path ∧ (py "/tasks").isSuffixOf path then
    if badRequest contentType body then send runtime stub 400 (errorBody "bad request")
    else postTasks runtime stub (teamSegment path) body
  else if path = py "/v1/agents" then
    if badRequest contentType body then send runtime stub 400 (errorBody "bad request")
    else postAgents runtime stub body
  else send runtime stub 404 (errorBody "not found")

def doDelete (runtime : Runtime) (stub : Agamemnon) (path : PyStr) : Outcome :=
  if chaosPrefix.isPrefixOf path then
    let faultId := path.drop chaosPrefix.length
    if stub.faults.contains faultId then
      send runtime { stub with faults := stub.faults.erase faultId } 200
        (bodyOf [("deleted", .string faultId)])
    else send runtime stub 404 (errorBody "fault not found")
  else send runtime stub 404 (errorBody "not found")

/-- One request; a method without a handler is answered 501 by the server itself, with a
page that is not JSON. -/
def handle (runtime : Runtime) (stub : Agamemnon) (request : Request) : Outcome :=
  match request.method with
  | .other => { stub, sent := [⟨501, .null, 0⟩] }
  | method =>
    match route runtime request.path with
    | .error error => { stub, raised := some error }
    | .ok path =>
      match method with
      | .post =>
        match parseBody runtime request with
        | .error error => { stub, raised := some error }
        | .ok (body, empty) => doPost runtime stub path (request.contentType.getD []) body empty
      | .delete => doDelete runtime stub path
      | _ => doGet runtime stub path

/-- A request and what became of it. -/
structure Exchange where
  request : Request
  outcome : Outcome

/-- The stub serves one request after another, whatever became of the last. -/
def StubStep (runtime : Runtime) (stub : Agamemnon) (exchange : Exchange) (next : Agamemnon) : Prop :=
  handle runtime stub exchange.request = exchange.outcome ∧ exchange.outcome.stub = next

theorem stubStep_handle (runtime : Runtime) (stub : Agamemnon) (request : Request) :
    StubStep runtime stub ⟨request, handle runtime stub request⟩ (handle runtime stub request).stub :=
  ⟨rfl, rfl⟩

end Charybdis.Stub
