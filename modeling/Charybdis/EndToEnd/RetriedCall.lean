import Charybdis.EndToEnd.Wire
import Charybdis.Stub.FaultHistory

/-! One call over a network that loses requests and replies. The retry loop sends every
method again after any failed attempt, and the stub acts on every request that reaches it. -/

namespace Charybdis.EndToEnd

open Foundation Client Stub

/-- What the network loses of one attempt. -/
inductive Loss where
  | nothing
  | request
  | reply
  deriving DecidableEq

/-- The stub behind the network, the requests sent to it, and how many of those it took
without an answer coming back. -/
structure Link where
  stub : Agamemnon := {}
  sent : Nat := 0
  unanswered : Nat := 0

def carry (runtime : Runtime) (errorPage : Nat → Bytes) (losses : Nat → Loss) (request : WireRequest)
    (link : Link) : HttpResult × Link :=
  if losses link.sent = .request then (none, { link with sent := link.sent + 1 })
  else
    let (answer, stub) := serveWire runtime errorPage request link.stub
    let result := if losses link.sent = .reply then none else answer
    (result, { stub, sent := link.sent + 1
               unanswered := link.unanswered + if result.isSome then 0 else 1 })

/-- The surroundings in which the client calls the stub over such a network. -/
def lossyStub (runtime : Runtime) (errorPage : Nat → Bytes) (losses : Nat → Loss) (now : Nat → Int)
    (jitter : Nat → ℚ) : Surroundings Link where
  now := now
  jitter := jitter
  transport := carry runtime errorPage losses

section Steps

variable {runtime : Runtime} {errorPage : Nat → Bytes} {losses : Nat → Loss} {request : WireRequest}

theorem carry_answered (carried : carry runtime errorPage losses request link = (some answer, next)) :
    next.stub = (serveWire runtime errorPage request link.stub).2 ∧
      (serveWire runtime errorPage request link.stub).1 = some answer ∧
      next.unanswered = link.unanswered := by
  by_cases lost : losses link.sent = .request
  · simp [carry, lost] at carried
  · by_cases dropped : losses link.sent = .reply
    · simp [carry, dropped] at carried
    · simp only [carry, lost, dropped, ↓reduceIte, Prod.mk.injEq] at carried
      obtain ⟨answered, rfl⟩ := carried
      exact ⟨rfl, answered, by simp [answered]⟩

/-- A failed attempt lost its request, or the stub took it and went unanswered. -/
theorem carry_failed (carried : carry runtime errorPage losses request link = (none, next)) :
    (next.stub = link.stub ∧ next.unanswered = link.unanswered) ∨
    (next.stub = (serveWire runtime errorPage request link.stub).2 ∧
      next.unanswered = link.unanswered + 1) := by
  by_cases lost : losses link.sent = .request
  · simp only [carry, lost, ↓reduceIte, Prod.mk.injEq, true_and] at carried
    subst carried
    exact .inl ⟨rfl, rfl⟩
  · simp only [carry, lost, ↓reduceIte, Prod.mk.injEq] at carried
    obtain ⟨failed, rfl⟩ := carried
    exact .inr ⟨rfl, by simp [failed]⟩

theorem serveWire_arrived {arrived : Stub.Request} (arrives : received request = .ok arrived) (stub : Agamemnon) :
    serveWire runtime errorPage request stub =
      ((handle runtime stub arrived).sent.head?.map (answerOf runtime), (handle runtime stub arrived).stub) := by
  simp [serveWire, arrives]

theorem answer_send {stub : Agamemnon} {answer : HttpResponse}
    (answered : (send runtime stub status body).sent.head?.map (answerOf runtime) = some answer) :
    answer = ⟨status, runtime.jsonText body⟩ := by
  rcases send_cases runtime stub status body with ⟨_, _, sent⟩ | ⟨_, _, _, _, sent⟩
  · simp [sent] at answered
  · simpa [sent, answerOf, eq_comm] using answered

end Steps

/-! ### A POST that registers a fault -/

/-- Between the two states `count` faults of one type and with the same fields were
registered, each under the next identifier, and nothing else changed in the registry. -/
structure Grown (runtime : Runtime) (chaosType : PyStr) (fields : Record) (count : Nat)
    (stub next : Agamemnon) : Prop where
  drawn : next.drawn = stub.drawn + count
  entries : next.faults.entries = stub.faults.entries ++
    (List.range count).map fun index => (runtime.uuid4 (stub.drawn + index),
      newFault (runtime.uuid4 (stub.drawn + index)) chaosType fields)

theorem Grown.refl {runtime : Runtime} {stub : Agamemnon} : Grown runtime chaosType fields 0 stub stub :=
  ⟨rfl, by simp⟩

theorem Grown.trans {runtime : Runtime} {stub middle last : Agamemnon}
    (first : Grown runtime chaosType fields count stub middle)
    (second : Grown runtime chaosType fields more middle last) :
    Grown runtime chaosType fields (count + more) stub last where
  drawn := by rw [second.drawn, first.drawn, Nat.add_assoc]
  entries := by
    rw [second.entries, first.entries, first.drawn, List.range_add, List.map_append, List.map_map,
      List.append_assoc]
    simp only [Nat.add_assoc, Function.comp_def]

/-- A request that asks for a fault registers one, and is answered by nothing but its record. -/
theorem serveWire_asks {runtime : Runtime} {stub : Agamemnon} (errorPage : Nat → Bytes)
    (distinct : Function.Injective runtime.uuid4) (sound : Sound runtime stub)
    (asks : wireAsks runtime request = some (chaosType, fields)) :
    Sound runtime (serveWire runtime errorPage request stub).2 ∧
      Grown runtime chaosType fields 1 stub (serveWire runtime errorPage request stub).2 ∧
      ∀ answer, (serveWire runtime errorPage request stub).1 = some answer →
        answer = ⟨201, runtime.jsonText (jsonOf (newFault (runtime.uuid4 stub.drawn) chaosType fields))⟩ := by
  obtain ⟨arrived, arrives, asks⟩ := wireAsks_iff.mp asks
  rw [serveWire_arrived arrives]
  refine ⟨sound_handle sound arrived, ?_⟩
  rcases handle_cases runtime stub arrived with
    ⟨_, _, again, served⟩ | ⟨_, names, _, _⟩ | alone
  · cases asks.symm.trans again
    rw [served, send_stub]
    refine ⟨⟨rfl, ?_⟩, fun answer answered => answer_send answered⟩
    simpa [registered] using stub.faults.entries_set_of_absent _ (sound.fresh distinct)
  · have verb := (asked_iff.mp asks).1
    have other := (named_iff.mp names).1
    cases verb.symm.trans other
  · cases asks.symm.trans alone.asks

/-- What a call that asks for a fault reports, from the link before it to the link after it:
one fault for each request that went unanswered, and one more if it was answered, whose record
is the answer. -/
def Registers (runtime : Runtime) (json : Nlohmann ν) (chaosType : PyStr) (fields : Record)
    (before after : Link) (response : Response ν) : Prop :=
  ∃ lost, after.unanswered = before.unanswered + lost ∧
    (Grown runtime chaosType fields lost before.stub after.stub ∧ response.status = 0 ∨
      Grown runtime chaosType fields (lost + 1) before.stub after.stub ∧ response.status = 201 ∧
        response.body = Client.parseBody json (runtime.jsonText
          (jsonOf (newFault (runtime.uuid4 (before.stub.drawn + lost)) chaosType fields))))

theorem runWithRetry_registers (json : Nlohmann ν) (policy : RetryPolicy) (cfg : CircuitBreakerConfig)
    (runtime : Runtime) (errorPage : Nat → Bytes) (losses : Nat → Loss) (now : Nat → Int) (jitter : Nat → ℚ)
    (distinct : Function.Injective runtime.uuid4)
    (asks : wireAsks runtime request = some (chaosType, fields)) (session : Session Link)
    (sound : Sound runtime session.wire.stub) :
    let ran := runWithRetry json policy cfg (lossyStub runtime errorPage losses now jitter) request session
    Registers runtime json chaosType fields session.wire ran.session.wire ran.response := by
  intro ran
  refine runWithRetry_wire
    (motive := fun before after response => Sound runtime before.stub →
      Registers runtime json chaosType fields before after response)
    ?silent ?answer ?again session sound
  case silent => exact fun link _ => ⟨0, rfl, .inl ⟨.refl, rfl⟩⟩
  case answer =>
    intro link res next carried sound
    obtain ⟨_, grown, record⟩ := serveWire_asks errorPage distinct sound asks
    obtain ⟨taken, answered, count⟩ := carry_answered carried
    rw [record res answered]
    exact ⟨0, count, .inr ⟨taken ▸ grown, rfl, rfl⟩⟩
  case again =>
    intro link next last response carried later sound
    obtain ⟨sound', grown, _⟩ := serveWire_asks errorPage distinct sound asks
    rcases carry_failed carried with ⟨same, count⟩ | ⟨taken, count⟩
    · -- the request was lost: the link is as before
      simpa only [Registers, same, count] using later (same ▸ sound)
    · -- its answer was: the fault it left stays ahead of those that follow
      obtain ⟨lost, counted, outcome⟩ := later (taken ▸ sound')
      rw [taken, grown.drawn] at outcome
      refine ⟨lost + 1, by rw [counted, count, Nat.add_assoc, Nat.add_comm 1], ?_⟩
      rcases outcome with ⟨rest, status⟩ | ⟨rest, status, body⟩
      · exact .inl ⟨Nat.add_comm 1 lost ▸ grown.trans rest, status⟩
      · refine .inr ⟨Nat.add_comm 1 (lost + 1) ▸ grown.trans rest, status, ?_⟩
        rw [body, Nat.add_assoc, Nat.add_comm 1]

/-! ### A DELETE of a live fault -/

/-- A request that names a fault takes it out of the registry; a 404 means it was not there. -/
theorem serveWire_names {runtime : Runtime} (errorPage : Nat → Bytes) (stub : Agamemnon)
    (names : wireNames runtime request = some faultId) :
    (serveWire runtime errorPage request stub).2.faults = stub.faults.erase faultId ∧
      ∀ answer, (serveWire runtime errorPage request stub).1 = some answer → answer.status = 404 →
        stub.faults.contains faultId = false := by
  obtain ⟨arrived, arrives, names⟩ := wireNames_iff.mp names
  have verb := (named_iff.mp names).1
  rw [serveWire_arrived arrives]
  refine ⟨by simp [handle_delete_stub verb, names, removed], ?_⟩
  intro answer answered status
  rcases handle_cases runtime stub arrived with
    ⟨_, _, asks, _⟩ | ⟨_, _, _, served⟩ | alone
  · cases verb.symm.trans (asked_iff.mp asks).1
  · simp only [served] at answered
    rw [answer_send answered] at status
    cases status
  · exact alone.names faultId names

/-- What a call that names a fault reports: the fault is gone once a request was taken, and
a 404 means that an earlier request of the call went unanswered, or that it never was there. -/
def Removes (faultId : PyStr) (before after : Link) (response : Response ν) : Prop :=
  ∃ lost, after.unanswered = before.unanswered + lost ∧
    (after.stub.faults = before.stub.faults ∧ lost = 0 ∧ response.status = 0 ∨
      after.stub.faults = before.stub.faults.erase faultId ∧
        (response.status = 404 → 0 < lost ∨ before.stub.faults.contains faultId = false))

theorem runWithRetry_removes (json : Nlohmann ν) (policy : RetryPolicy) (cfg : CircuitBreakerConfig)
    (runtime : Runtime) (errorPage : Nat → Bytes) (losses : Nat → Loss) (now : Nat → Int) (jitter : Nat → ℚ)
    (names : wireNames runtime request = some faultId) (session : Session Link) :
    let ran := runWithRetry json policy cfg (lossyStub runtime errorPage losses now jitter) request session
    Removes faultId session.wire ran.session.wire ran.response := by
  refine runWithRetry_wire (motive := Removes faultId) ?silent ?answer ?again session
  case silent => exact fun link => ⟨0, rfl, .inl ⟨rfl, rfl, rfl⟩⟩
  case answer =>
    intro link res next carried
    obtain ⟨erased, missing⟩ := serveWire_names errorPage link.stub names
    obtain ⟨taken, answered, count⟩ := carry_answered carried
    rw [← taken] at erased
    exact ⟨0, count, .inr ⟨erased, fun status => .inr (missing res answered status)⟩⟩
  case again =>
    intro link next last response carried later
    obtain ⟨erased, _⟩ := serveWire_names errorPage link.stub names
    rcases carry_failed carried with ⟨same, count⟩ | ⟨taken, count⟩
    · simpa only [Removes, same, count] using later
    · obtain ⟨lost, counted, outcome⟩ := later
      rw [taken, erased] at outcome
      refine ⟨lost + 1, by rw [counted, count, Nat.add_assoc, Nat.add_comm 1], .inr ⟨?_, ?_⟩⟩
      · -- a second deletion finds nothing to delete
        rcases outcome with ⟨kept, _⟩ | ⟨again, _⟩
        · exact kept
        · rw [again]
          exact Dict.erase_of_absent _ (by rw [Dict.get?_erase, if_pos rfl])
      · exact fun _ => .inl lost.succ_pos

/-! ### What a retried call reports -/

/-- One call over any network leaves one fault for each of its requests that the stub took:
at most one more than went unanswered, the last of them being the one a 201 returns. A
404 to the removal of a live fault means that an unanswered request of the call removed it. -/
theorem retried_call_reports_its_last_request (runtime : Runtime)
    (distinct : Function.Injective runtime.uuid4) (errorPage : Nat → Bytes) (losses : Nat → Loss)
    (now : Nat → Int) (jitter : Nat → ℚ) (json : Nlohmann ν) (client : HttpTestClient) (env : Environment)
    (call : Call ν) (session : Session Link) {history : List Exchange}
    (reachable : Execution (StubStep runtime) {} history session.wire.stub) {request : WireRequest}
    (sent : client.request json env call = .ok request) :
    let ran := client.perform json (lossyStub runtime errorPage losses now jitter) env call session
    let before := session.wire
    let after := ran.session.wire
    ∃ response, ran.result = .ok response ∧
      (∀ chaosType fields, wireAsks runtime request = some (chaosType, fields) →
        ∃ lost, after.unanswered = before.unanswered + lost ∧
          ∃ made ≤ lost + 1, Grown runtime chaosType fields made before.stub after.stub ∧
            (response.status = 201 → made = lost + 1 ∧
              response.body = Client.parseBody json (runtime.jsonText
                (jsonOf (newFault (runtime.uuid4 (before.stub.drawn + lost)) chaosType fields))))) ∧
      (∀ faultId, wireNames runtime request = some faultId →
        before.stub.faults.contains faultId = true → response.status = 404 →
          before.unanswered < after.unanswered ∧
            after.stub.faults = before.stub.faults.erase faultId) := by
  intro ran before after
  obtain ⟨_, failed, _⟩ | ⟨built, again, performed⟩ := client.perform_cases json
    (lossyStub runtime errorPage losses now jitter) env call session
  · cases sent.symm.trans failed
  · cases sent.symm.trans again
    have wired : after = (runWithRetry json client.retry client.breakerCfg
        (lossyStub runtime errorPage losses now jitter) request session).session.wire :=
      congrArg (fun outcome => outcome.session.wire) performed
    refine ⟨_, congrArg Outcome.result performed, ?_, ?_⟩
    · intro chaosType fields asks
      obtain ⟨lost, counted, outcome⟩ := runWithRetry_registers json client.retry client.breakerCfg runtime
        errorPage losses now jitter distinct asks session (sound_reachable reachable)
      rw [wired]
      refine ⟨lost, counted, ?_⟩
      rcases outcome with ⟨grown, status⟩ | ⟨grown, status, body⟩
      · exact ⟨lost, Nat.le_succ lost, grown, fun created => by simp [status] at created⟩
      · exact ⟨lost + 1, le_rfl, grown, fun _ => ⟨rfl, body⟩⟩
    · intro faultId names live missing
      obtain ⟨lost, counted, ⟨_, _, status⟩ | ⟨erased, cause⟩⟩ := runWithRetry_removes json client.retry
        client.breakerCfg runtime errorPage losses now jitter names session
      · simp [status] at missing
      · rw [wired]
        refine ⟨?_, erased⟩
        rcases cause missing with positive | absent
        · rw [counted]
          exact Nat.lt_add_of_pos_right positive
        · cases live.symm.trans absent

/-! ### The lost reply -/

/-- A client as the chaos tests make it. -/
def resilientClient : HttpTestClient where
  host := ascii "localhost"
  port := 8080
  retry := kChaosResilientPolicy

/-- One call of that client, on a network that loses the first reply. -/
def firstReplyLost (call : Call JsonText.Lexeme) (stub : Agamemnon) : Client.Outcome Link JsonText.Lexeme :=
  resilientClient.perform Nlohmann.text
    (lossyStub sampleRuntime (fun _ => []) (fun sent => if sent = 0 then .reply else .nothing)
      (fun _ => 0) (fun _ => 1))
    (fun _ => none) call { wire := { stub } }

def killCall : Call JsonText.Lexeme := .post (ascii "/v1/chaos/kill") (.object [])

/-- The stub with the fault of one POST. -/
def killedStub : Agamemnon := (handle sampleRuntime {} (jsonPost (py "/v1/chaos/kill") (ascii "\x7b\x7d"))).stub

def deleteCall : Call JsonText.Lexeme := .del (ascii "/v1/chaos/fault-")

def statusOf (outcome : Client.Outcome Link JsonText.Lexeme) : Int :=
  match outcome.result with
  | .ok response => response.status
  | .error _ => -1

/-- The POST is answered 201 and leaves two faults; the DELETE of a live fault is answered
404 and has removed it. -/
theorem lost_reply_leaks_a_fault :
    (statusOf (firstReplyLost killCall {}) = 201 ∧
      (firstReplyLost killCall {}).session.wire.stub.faults.keys = [py "fault-", py "fault-0"]) ∧
    (killedStub.faults.contains (py "fault-") = true ∧
      statusOf (firstReplyLost deleteCall killedStub) = 404 ∧
      (firstReplyLost deleteCall killedStub).session.wire.stub.faults.contains (py "fault-") = false) := by
  refine ⟨⟨?_, ?_⟩, ?_, ?_, ?_⟩ <;> decide +kernel

/-- What the POST reports is the second of the two. -/
theorem retried_kill_is_registered_twice :
    ∃ fields response, (firstReplyLost killCall {}).result = .ok response ∧
      Grown sampleRuntime (py "kill") fields 2 {} (firstReplyLost killCall {}).session.wire.stub ∧
      response.body = Client.parseBody Nlohmann.text (sampleRuntime.jsonText
        (jsonOf (newFault (py "fault-0") (py "kill") fields))) := by
  let request : WireRequest :=
    { host := ascii "localhost", port := 8080, method := .post, path := ascii "/v1/chaos/kill"
      body := ascii "\x7b\x7d", contentType := some (ascii "application/json") }
  have sent : resilientClient.request Nlohmann.text (fun _ => none) killCall = .ok request := by decide +kernel
  have asks : (wireAsks sampleRuntime request).map Prod.fst = some (py "kill") := by decide +kernel
  have created : statusOf (firstReplyLost killCall {}) = 201 := by decide +kernel
  have once : (firstReplyLost killCall {}).session.wire.unanswered = 1 := by decide +kernel
  obtain ⟨⟨_, fields⟩, asks, rfl⟩ := Option.map_eq_some_iff.mp asks
  obtain ⟨response, result, registers, _⟩ := retried_call_reports_its_last_request sampleRuntime
    sampleRuntime_distinct (fun _ => []) (fun sent => if sent = 0 then .reply else .nothing) (fun _ => 0)
    (fun _ => 1) Nlohmann.text resilientClient (fun _ => none) killCall { wire := { stub := {} } } .done sent
  obtain ⟨lost, counted, made, _, grown, reported⟩ := registers _ fields asks
  have single : lost = 1 := by
    rw [← Nat.zero_add lost]
    exact counted.symm.trans once
  have status : response.status = 201 := by
    rw [statusOf, show (firstReplyLost killCall {}).result = .ok response from result] at created
    exact created
  obtain ⟨rfl, body⟩ := reported status
  subst single
  exact ⟨fields, response, result, grown, body⟩

end Charybdis.EndToEnd
