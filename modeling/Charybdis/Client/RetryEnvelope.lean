import Charybdis.Client.BreakerHistory

/-! What one `run_with_retry` call does as a whole: how many requests it sends, which of
them it waits after, and how its response comes about. -/

namespace Charybdis.Client

open Foundation

/-- The events of attempts number `index`, `index + 1` and so on of at most `total`: a
backoff sleep follows each of them that failed, the one number `total` excepted. -/
def withSleeps (policy : RetryPolicy) (jitter : Nat → ℚ) (total : Nat) : Nat → List Attempt → List Event
  | _, [] => []
  | index, attempt :: rest =>
    .attempted attempt ::
      (if attempt.succeeded = true ∨ index + 1 = total then []
      else [.slept (backoffDelay policy index (jitter index))]) ++
      withSleeps policy jitter total (index + 1) rest

/-- How a call that made these attempts ended, with the events after the last of them. -/
inductive Ending (json : Nlohmann ν) (cfg : CircuitBreakerConfig) (total : Nat) (made : List Attempt) :
    Response ν → List Event → Prop where
  /-- The last attempt got a response, the first one that any of them got. -/
  | answered (earlier : List Attempt) (failed : ∀ attempt ∈ earlier, attempt.result = none)
      (response : last.result = some res) (due : earlier.length < total) (attempts : made = earlier ++ [last]) :
      Ending json cfg total made ⟨res.status, parseBody json res.body⟩ []
  | exhausted (failed : ∀ attempt ∈ made, attempt.result = none) (all : made.length = total) :
      Ending json cfg total made ⟨0, .null⟩ []
  /-- The breaker turned down the attempt that was due next. -/
  | refused (failed : ∀ attempt ∈ made, attempt.result = none) (due : made.length < total)
      (check : allowCall cfg refusal.checkedAt refusal.before = (false, refusal.after)) :
      Ending json cfg total made ⟨0, .null⟩ [.refused refusal]

section Loop

variable {ω ν : Type} {json : Nlohmann ν} {policy : RetryPolicy} {cfg : CircuitBreakerConfig}
  {around : Surroundings ω} {request : WireRequest}

private theorem Ending.cons {response : Response ν} {events : List Event}
    (failed : attempt.result = none) (ending : Ending json cfg total made response events) :
    Ending json cfg (total + 1) (attempt :: made) response events := by
  cases ending with
  | answered earlier rest response due attempts =>
    exact .answered (attempt :: earlier) (List.forall_mem_cons.mpr ⟨failed, rest⟩) response
      (by simpa using due) (by simp [attempts])
  | exhausted rest all => exact .exhausted (List.forall_mem_cons.mpr ⟨failed, rest⟩) (by simp [all])
  | refused rest due check =>
    exact .refused (List.forall_mem_cons.mpr ⟨failed, rest⟩) (by simpa using due) check

/-- The shape of the loop from iteration `attempt` on. -/
theorem retryLoop_shape (json : Nlohmann ν) (policy : RetryPolicy) (cfg : CircuitBreakerConfig)
    (around : Surroundings ω) (request : WireRequest) (attempt : Nat) (positive : 0 < left) (session : Session ω)
    (jitter : Nat → ℚ) (drawn : ∀ index, around.jitter (session.draws + index) = jitter (attempt + index)) :
    let ran := retryLoop json policy cfg around request attempt left session
    let made := attempts ran.events
    ∃ tail, ran.events = withSleeps policy jitter (attempt + left) attempt made ++ tail ∧
      Ending json cfg left made ran.response tail := by
  induction left generalizing attempt session with
  | zero => exact absurd positive (Nat.lt_irrefl 0)
  | succ left ih =>
    cases admitted : (admission cfg around session).1 with
    | false =>
      rw [retryLoop_refused admitted]
      refine ⟨_, rfl, .refused (by simp) (by simp) ?_⟩
      exact Prod.ext admitted rfl
    | true =>
      cases outcome : (makeAttempt cfg around request session).result with
      | some res =>
        rw [retryLoop_answered admitted outcome]
        refine ⟨[], ?_, .answered [] (by simp) outcome (Nat.succ_pos left) rfl⟩
        simp [withSleeps, Attempt.succeeded, outcome]
      | none =>
        cases left with
        | zero =>
          rw [retryLoop_exhausted admitted outcome]
          refine ⟨[], ?_, .exhausted (by simpa using outcome) rfl⟩
          simp [withSleeps]
        | succ left =>
          rw [retryLoop_again admitted outcome]
          obtain ⟨tail, events, ending⟩ := ih (attempt + 1) (Nat.succ_pos left)
            (afterSleep (afterAttempt cfg around request session)) (fun index => by
              simpa only [Nat.add_assoc, Nat.add_comm 1, afterSleep, afterAttempt] using drawn (index + 1))
          refine ⟨tail, ?_, by simpa using ending.cons outcome⟩
          have first : around.jitter session.draws = jitter attempt := drawn 0
          simp only [attempts_attempted, attempts_slept, withSleeps, Attempt.succeeded, outcome, first]
          rw [show attempt + (left + 1 + 1) = attempt + 1 + (left + 1) by omega, List.append_assoc, ← events]
          simp

theorem Ending.length_le {response : Response ν} {events : List Event}
    (ending : Ending json cfg total made response events) : made.length ≤ total := by
  cases ending with
  | answered _ _ _ due attempts => simpa [attempts] using due
  | exhausted _ all => exact all.le
  | refused _ due _ => exact due.le

theorem Ending.failed_dropLast {response : Response ν} {events : List Event}
    (ending : Ending json cfg total made response events) :
    ∀ attempt ∈ made.dropLast, attempt.result = none := by
  intro attempt member
  cases ending with
  | answered _ failed _ _ attempts =>
    rw [attempts, List.dropLast_concat] at member
    exact failed attempt member
  | exhausted failed _ => exact failed attempt (List.mem_of_mem_dropLast member)
  | refused failed _ _ => exact failed attempt (List.mem_of_mem_dropLast member)

/-- A call sends at most `total` requests, of which only the last can get a response. It
returns that response, or nothing once the attempts are used up or the breaker refuses the
next; it sleeps between attempts and nowhere else; and the breaker is moved by one admission
check and one recording for each attempt, and by the refused check alone besides. -/
theorem runWithRetry_envelope (monotone : Monotone around.now) (json : Nlohmann ν) (policy : RetryPolicy)
    (cfg : CircuitBreakerConfig) (request : WireRequest) (session : Session ω) :
    let ran := runWithRetry json policy cfg around request session
    let made := attempts ran.events
    let total := totalAttempts policy
    (total : Int) = max 1 (policy.maxRetries + 1) ∧
      made.length ≤ total ∧
      (∀ attempt ∈ made.dropLast, attempt.result = none) ∧
      (∃ tail, Ending json cfg total made ran.response tail ∧ ran.events =
        withSleeps policy (fun index => around.jitter (session.draws + index)) total 0 made ++ tail) ∧
      Execution (BreakerStep cfg) (breakerView around session) ran.events (breakerView around ran.session) := by
  intro ran made total
  obtain ⟨tail, events, ending⟩ := retryLoop_shape json policy cfg around request 0 (totalAttempts_pos policy) session
    (fun index => around.jitter (session.draws + index)) fun index => by rw [Nat.zero_add]
  rw [Nat.zero_add] at events
  refine ⟨?_, ending.length_le, ending.failed_dropLast, ⟨tail, ending, events⟩, ?_⟩
  · exact Int.toNat_of_nonneg (by omega)
  · exact retryLoop_history monotone 0 (totalAttempts_pos policy) session

end Loop

/-- The request of a health check. -/
def healthRequest : WireRequest :=
  { host := ascii "localhost", port := 8080, method := .get, path := ascii "/v1/health" }

/-- The resilient policy on a network that loses one request and answers the next with a
503: two attempts of four, the one 400 ms sleep between them, and the 503 as it is. -/
theorem unavailable_is_not_retried :
    let ran := runWithRetry Nlohmann.text kChaosResilientPolicy {} scripted healthRequest
      { wire := [none, some ⟨503, []⟩] }
    (∃ tail, ran.events = withSleeps kChaosResilientPolicy (fun _ => 1) 4 0 (attempts ran.events) ++ tail) ∧
      ran.events.length = 3 ∧ ran.response.status = 503 := by
  intro ran
  obtain ⟨_, _, _, ⟨tail, _, events⟩, _⟩ := runWithRetry_envelope scripted_monotone Nlohmann.text
    kChaosResilientPolicy {} healthRequest { wire := [none, some ⟨503, []⟩] }
  exact ⟨⟨tail, events⟩, by decide, by decide⟩

end Charybdis.Client
