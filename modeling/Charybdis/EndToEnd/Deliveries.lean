import Charybdis.Client.ReplyReading
import Charybdis.EndToEnd.RetriedCall

/-! A call over a lossy network as a number of deliveries: the stub serves the same request
as often as it was taken, and the caller sees the last of the answers or none. -/

namespace Charybdis.EndToEnd

open Foundation Client Stub

/-- The state after the stub has taken the request once. -/
def taken (runtime : Runtime) (errorPage : Nat → Bytes) (request : WireRequest) (stub : Agamemnon) : Agamemnon :=
  (serveWire runtime errorPage request stub).2

/-- From the link before a call to the link after it: `lost` requests were taken without an
answer coming back, and after them the one that was answered, if any was. -/
def Delivers (runtime : Runtime) (errorPage : Nat → Bytes) (request : WireRequest) (lost : Nat)
    (before after : Link) : HttpResult → Prop
  | none => after.unanswered = before.unanswered + lost ∧
      after.stub = (taken runtime errorPage request)^[lost] before.stub
  | some answer => after.unanswered = before.unanswered + lost ∧
      after.stub = (taken runtime errorPage request)^[lost + 1] before.stub ∧
      (serveWire runtime errorPage request ((taken runtime errorPage request)^[lost] before.stub)).1 = some answer

section Calls

variable {runtime : Runtime} {errorPage : Nat → Bytes} {losses : Nat → Loss} {request : WireRequest}

private theorem delivers_again {before next last : Link} {reply : HttpResult}
    (carried : carry runtime errorPage losses request before = (none, next))
    (later : ∃ lost, Delivers runtime errorPage request lost next last reply) :
    ∃ lost, Delivers runtime errorPage request lost before last reply := by
  obtain ⟨lost, delivered⟩ := later
  rcases carry_failed carried with ⟨same, count⟩ | ⟨served, count⟩
  · refine ⟨lost, ?_⟩
    cases reply <;> simpa only [Delivers, same, count] using delivered
  · refine ⟨lost + 1, ?_⟩
    have first : next.stub = taken runtime errorPage request before.stub := served
    have counted : next.unanswered + lost = before.unanswered + (lost + 1) := by omega
    cases reply <;> simpa only [Delivers, first, counted, ← Function.iterate_succ_apply] using delivered

theorem runWithRetry_delivers (runtime : Runtime) (errorPage : Nat → Bytes) (losses : Nat → Loss) (now : Nat → Int)
    (jitter : Nat → ℚ) (json : Nlohmann ν) (policy : RetryPolicy) (cfg : CircuitBreakerConfig)
    (session : Session Link) :
    let ran := runWithRetry json policy cfg (lossyStub runtime errorPage losses now jitter) request session
    ∃ lost, Delivers runtime errorPage request lost session.wire ran.session.wire (finalReply ran.events) := by
  refine retryLoop_rule (motive := fun session ran => ∃ lost,
    Delivers runtime errorPage request lost session.wire ran.session.wire (finalReply ran.events))
    ?refusal ?answer ?exhausted ?again 0 (totalAttempts_pos policy) session
  case refusal =>
    intro session _
    exact ⟨0, rfl, rfl⟩
  case answer =>
    intro session res _ answered
    obtain ⟨served, reply, count⟩ := carry_answered (Prod.ext answered rfl)
    refine ⟨0, ?_⟩
    simp only [finalReply, attempts_attempted, attempts_nil, List.getLast?_singleton, Option.bind_some, answered]
    exact ⟨count, served, reply⟩
  case exhausted =>
    intro session _ failed
    have none : finalReply [.attempted (makeAttempt cfg (lossyStub runtime errorPage losses now jitter) request
        session)] = none := by
      simpa [finalReply] using failed
    rw [none]
    exact delivers_again (Prod.ext failed rfl) ⟨0, rfl, rfl⟩
  case again =>
    intro session delay rest _ failed later
    have last : finalReply (.attempted (makeAttempt cfg (lossyStub runtime errorPage losses now jitter) request
        session) :: .slept delay :: rest.events) = finalReply rest.events := by
      simp only [finalReply, attempts_attempted, attempts_slept, List.getLast?_cons]
      cases (attempts rest.events).getLast? with
      | none => exact failed
      | some _ => rfl
    rw [last]
    exact delivers_again (Prod.ext failed rfl) later

/-! ### One request taken many times -/

theorem sound_taken {stub : Agamemnon} (sound : Sound runtime stub) :
    Sound runtime (taken runtime errorPage request stub) := by
  unfold taken serveWire
  split
  · exact sound
  · exact sound_handle sound _

theorem sound_taken_iterate {stub : Agamemnon} (sound : Sound runtime stub) (count : Nat) :
    Sound runtime ((taken runtime errorPage request)^[count] stub) := by
  induction count with
  | zero => exact sound
  | succ count ih =>
    rw [Function.iterate_succ_apply']
    exact sound_taken ih

/-- A request that asks for a fault registers one each time it is taken. -/
theorem grown_taken_iterate {stub : Agamemnon} (distinct : Function.Injective runtime.uuid4)
    (sound : Sound runtime stub) (asks : wireAsks runtime request = some (chaosType, fields)) (count : Nat) :
    Grown runtime chaosType fields count stub ((taken runtime errorPage request)^[count] stub) := by
  induction count with
  | zero => exact .refl
  | succ count ih =>
    rw [Function.iterate_succ_apply']
    exact ih.trans (serveWire_asks errorPage distinct (sound_taken_iterate sound count) asks).2.1

/-- A request that names a fault takes it out the first time, and nothing after that. -/
theorem faults_taken_iterate {stub : Agamemnon} (names : wireNames runtime request = some faultId) (count : Nat) :
    ((taken runtime errorPage request)^[count + 1] stub).faults = stub.faults.erase faultId := by
  induction count with
  | zero => exact (serveWire_names errorPage stub names).1
  | succ count ih =>
    rw [Function.iterate_succ_apply']
    refine (serveWire_names errorPage _ names).1.trans ?_
    rw [ih]
    exact Dict.erase_of_absent _ (by rw [Dict.get?_erase, if_pos rfl])

theorem faults_taken_aside {stub : Agamemnon} (unasked : wireAsks runtime request = none)
    (unnamed : wireNames runtime request = none) :
    (taken runtime errorPage request stub).faults = stub.faults := by
  unfold taken serveWire
  cases arrives : received request with
  | error status => rfl
  | ok arrived =>
    have asks : asked runtime arrived = none := by simpa [wireAsks, arrives, Except.toOption] using unasked
    have names : named runtime arrived = none := by simpa [wireNames, arrives, Except.toOption] using unnamed
    rcases handle_cases runtime stub arrived with ⟨_, _, again, _⟩ | ⟨_, again, _⟩ | alone
    · cases asks.symm.trans again
    · cases names.symm.trans again
    · exact alone.same.1

theorem faults_taken_aside_iterate {stub : Agamemnon} (unasked : wireAsks runtime request = none)
    (unnamed : wireNames runtime request = none) (count : Nat) :
    ((taken runtime errorPage request)^[count] stub).faults = stub.faults := by
  induction count with
  | zero => rfl
  | succ count ih =>
    rw [Function.iterate_succ_apply', faults_taken_aside unasked unnamed, ih]

end Calls

end Charybdis.EndToEnd
