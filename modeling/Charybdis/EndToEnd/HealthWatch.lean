import Charybdis.Client.StatefulWait
import Charybdis.EndToEnd.Deliveries

/-! Waiting for the stub to be healthy, or not to be, over a network that loses requests and
replies: `wait_until` around `is_healthy`. -/

namespace Charybdis.EndToEnd

open Foundation Client Stub

/-- `!client_->is_healthy()`. -/
def isDegraded (client : HttpTestClient) (json : Nlohmann ν) (around : Surroundings ω) (session : Session ω) :
    Except JsonError Bool × Session ω :=
  let (healthy, session) := client.isHealthy json around session
  (healthy.map (!·), session)

/-- The client reads the status "ok" in the body the stub writes for it. -/
def OkComesBack (runtime : Runtime) (json : Nlohmann ν) : Prop :=
  valueString (ascii "status") (Client.parseBody json (runtime.jsonText (bodyOf [("status", .string (py "ok"))]))) =
    .ok (ascii "ok")

/-- The health check made in this session gets an answer, be it to its last attempt. -/
def Answered (client : HttpTestClient) (json : Nlohmann ν) (around : Surroundings ω) (session : Session ω) : Prop :=
  (finalReply (client.get json around Client.healthPath session).events).isSome = true

section Polls

variable {ν : Type} (client : HttpTestClient) (json : Nlohmann ν) (runtime : Runtime)
  (errorPage : Nat → Bytes) (losses : Nat → Loss) (now : Nat → Int) (jitter : Nat → ℚ)

private def healthRequest (client : HttpTestClient) : WireRequest :=
  { host := client.host, port := client.port, method := .get, path := Client.healthPath }

private def healthArrived : Stub.Request :=
  { method := .get, path := Stub.healthPath, contentLength := .length (0 : Nat) }

private theorem health_arrives : received (healthRequest client) = .ok healthArrived := by
  have target : requestTarget .get Client.healthPath = .ok Stub.healthPath := by decide
  simp only [received, healthRequest, target]
  rfl

private theorem health_answer {stub : Agamemnon} {answer : HttpResponse}
    (answered : (serveWire runtime errorPage (healthRequest client) stub).1 = some answer) :
    answer = if killActive stub.faults = true then ⟨503, runtime.jsonText (bodyOf [("status", .string (py "degraded"))])⟩
      else ⟨200, runtime.jsonText (bodyOf [("status", .string (py "ok"))])⟩ := by
  have routed : route runtime Stub.healthPath = .ok Stub.healthPath := rfl
  have served : handle runtime stub healthArrived = doGet runtime stub Stub.healthPath := by
    simp only [handle, healthArrived, routed]
  rw [serveWire_arrived (health_arrives client), served, doGet, if_pos rfl] at answered
  split at answered
  · rename_i kills
    rw [if_pos kills]
    exact answer_send answered
  · rename_i calm
    rw [if_neg calm]
    exact answer_send answered

/-- A health check changes no fault. It is positive iff it is answered while no kill is live,
and it throws nothing. -/
theorem isHealthy_delivers (ok : OkComesBack runtime json) (session : Session Link) :
    let around := lossyStub runtime errorPage losses now jitter
    let polled := client.isHealthy json around session
    (∃ healthy, polled.1 = .ok healthy ∧
      (healthy = true ↔ killActive session.wire.stub.faults = false ∧ Answered client json around session)) ∧
    polled.2.wire.stub.faults = session.wire.stub.faults := by
  intro around polled
  obtain ⟨lost, delivered⟩ := runWithRetry_delivers runtime errorPage losses now jitter json client.retry
    client.breakerCfg session
  have unasked : wireAsks runtime (healthRequest client) = none := by
    simp [wireAsks, health_arrives, Except.toOption, asked, healthArrived]
  have unnamed : wireNames runtime (healthRequest client) = none := by
    simp [wireNames, health_arrives, Except.toOption, named, healthArrived]
  have kept (count : Nat) : ((taken runtime errorPage (healthRequest client))^[count] session.wire.stub).faults =
      session.wire.stub.faults := faults_taken_aside_iterate unasked unnamed count
  have verdict : polled.1 = healthOf (readReply json (finalReply (client.get json around Client.healthPath
      session).events)) := congrArg healthOf (runWithRetry_response json _ _ _ _ _)
  change Delivers runtime errorPage (healthRequest client) lost session.wire polled.2.wire
    (finalReply (client.get json around Client.healthPath session).events) at delivered
  rw [verdict, Answered]
  cases reply : finalReply (client.get json around Client.healthPath session).events with
  | none =>
    rw [reply] at delivered
    obtain ⟨_, served⟩ := delivered
    exact ⟨⟨false, rfl, by simp⟩, by rw [served, kept]⟩
  | some answer =>
    rw [reply] at delivered
    obtain ⟨_, served, answered⟩ := delivered
    refine ⟨?_, by rw [served, kept]⟩
    have said := health_answer client runtime errorPage answered
    rw [kept] at said
    cases kills : killActive session.wire.stub.faults with
    | true =>
      rw [kills, if_pos rfl] at said
      exact ⟨false, by rw [said]; rfl, by simp⟩
    | false =>
      rw [kills, if_neg (by simp)] at said
      refine ⟨true, ?_, by simp⟩
      have read : valueString (ascii "status") (Client.parseBody json answer.body) = .ok (ascii "ok") := by
        rw [said]
        exact ok
      have status : answer.status = 200 := by rw [said]
      simp only [healthOf, readReply, status, read, ↓reduceIte]
      rfl

theorem isDegraded_delivers (ok : OkComesBack runtime json) (session : Session Link) :
    let around := lossyStub runtime errorPage losses now jitter
    let polled := isDegraded client json around session
    (∃ degraded, polled.1 = .ok degraded ∧
      (degraded = true ↔ killActive session.wire.stub.faults = true ∨ ¬ Answered client json around session)) ∧
    polled.2.wire.stub.faults = session.wire.stub.faults := by
  intro around polled
  obtain ⟨⟨healthy, verdict, met⟩, kept⟩ := isHealthy_delivers client json runtime errorPage losses now jitter ok
    session
  refine ⟨⟨!healthy, ?_, ?_⟩, kept⟩
  · simp only [polled, isDegraded, around, verdict]
    rfl
  · rw [Bool.not_eq_true', ← Bool.not_eq_true, met, not_and_or, Bool.not_eq_false]

/-- A wait for health succeeds iff no kill is live and one of its polls is answered. -/
theorem wait_healthy (ok : OkComesBack runtime json) (timeout : Int) (schedule : Schedule) (session : Session Link) :
    let around := lossyStub runtime errorPage losses now jitter
    let poll := client.isHealthy json around
    let waited := waitWith poll timeout schedule 0 session
    waited.2.wire.stub.faults = session.wire.stub.faults ∧
    ∃ healthy, waited.1 = .ok healthy ∧ (healthy = true ↔ killActive session.wire.stub.faults = false ∧
      ∃ count, schedule.InTime timeout count ∧ Answered client json around (afterPolls poll count session)) := by
  intro around poll waited
  have health := isHealthy_delivers client json runtime errorPage losses now jitter ok
  have keeps (state : Session Link) (kept : state.wire.stub.faults = session.wire.stub.faults) :
      (poll state).2.wire.stub.faults = session.wire.stub.faults := (health state).2.trans kept
  obtain ⟨kept, healthy, ended, met⟩ : _ ∧ ∃ verdict, waited.1 = .ok verdict ∧ _ :=
    waitWith_finds keeps (fun state kept => kept ▸ (health state).1) 0 rfl
  refine ⟨kept, healthy, ended, met.trans ?_⟩
  simp only [Nat.zero_add]
  exact ⟨fun ⟨count, early, calm, answered⟩ => ⟨calm, count, early, answered⟩,
    fun ⟨calm, count, early, answered⟩ => ⟨count, early, calm, answered⟩⟩

/-- A wait for trouble succeeds iff a kill is live when it first looks or a poll goes unanswered. -/
theorem wait_degraded (ok : OkComesBack runtime json) (timeout : Int) (schedule : Schedule) (session : Session Link) :
    let around := lossyStub runtime errorPage losses now jitter
    let poll := isDegraded client json around
    let waited := waitWith poll timeout schedule 0 session
    waited.2.wire.stub.faults = session.wire.stub.faults ∧
    ∃ degraded, waited.1 = .ok degraded ∧ (degraded = true ↔ ∃ count, schedule.InTime timeout count ∧
      (killActive session.wire.stub.faults = true ∨ ¬ Answered client json around (afterPolls poll count session))) := by
  intro around poll waited
  have health := isDegraded_delivers client json runtime errorPage losses now jitter ok
  have keeps (state : Session Link) (kept : state.wire.stub.faults = session.wire.stub.faults) :
      (poll state).2.wire.stub.faults = session.wire.stub.faults := (health state).2.trans kept
  obtain ⟨kept, degraded, ended, met⟩ : _ ∧ ∃ verdict, waited.1 = .ok verdict ∧ _ :=
    waitWith_finds keeps (fun state kept => kept ▸ (health state).1) 0 rfl
  refine ⟨kept, degraded, ended, met.trans ?_⟩
  simp only [Nat.zero_add, around, poll]

end Polls

end Charybdis.EndToEnd
