import Charybdis.Client.OpenWindow
import Charybdis.Client.ReplyReading

/-! When the server is back: how long the breaker goes on refusing, and how many answered
calls close it. -/

namespace Charybdis.Client

open Foundation

/-- The answered calls that are still needed to close the breaker. -/
def remaining (cfg : CircuitBreakerConfig) (breaker : CircuitBreaker) : Nat :=
  match breaker.state with
  | .kClosed => 0
  | .kOpen => cfg.successes
  | .kHalfOpen => (max 1 (cfg.successThreshold - breaker.halfOpenSuccesses)).toNat

theorem remaining_eq_zero_iff : remaining cfg breaker = 0 ↔ breaker.state = .kClosed := by
  unfold remaining CircuitBreakerConfig.successes
  cases state : breaker.state with
  | kClosed => simp
  | kOpen | kHalfOpen => simp only [reduceCtorEq, iff_false]; omega

/-- The open window of the breaker is over, or there is none. -/
def Willing (cfg : CircuitBreakerConfig) (breaker : CircuitBreaker) (checkedAt : Int) : Prop :=
  breaker.state ≠ .kOpen ∨ breaker.openedAt + cfg.window ≤ checkedAt

/-- One call after the server came back, seen from the breaker `start` at that moment: it
throws, it is refused inside the open window, or its first attempt is answered. -/
inductive Served (cfg : CircuitBreakerConfig) (json : Nlohmann ν) (start : CircuitBreaker) : Report ν → Prop where
  | thrown (error : ChaosError) : Served cfg json start ⟨.error error, []⟩
  | refused (refusal : Refusal) (early : ¬ Willing cfg start refusal.checkedAt) :
      Served cfg json start ⟨.ok ⟨0, .null⟩, [.refused refusal]⟩
  | answered (attempt : Attempt) (answer : HttpResponse) (result : attempt.result = some answer)
      (late : Willing cfg start attempt.checkedAt) :
      Served cfg json start ⟨.ok (readReply json (some answer)), [.attempted attempt]⟩

/-- The breaker after so many answered calls: as it was, or on its way to be closed. -/
inductive Recovering (cfg : CircuitBreakerConfig) (start : CircuitBreaker) (clock : Int) :
    Nat → CircuitBreaker → Prop where
  | waiting : Recovering cfg start clock 0 start
  | probing (running : breaker.state ≠ .kOpen)
      (left : remaining cfg breaker = remaining cfg start - (answered + 1)) (late : Willing cfg start clock) :
      Recovering cfg start clock (answered + 1) breaker

section Breaker

variable {cfg : CircuitBreakerConfig} {start breaker : CircuitBreaker} {clock moment : Int}

theorem Willing.later (willing : Willing cfg start clock) (ordered : clock ≤ moment) : Willing cfg start moment :=
  willing.imp_right fun passed => passed.trans ordered

theorem Recovering.later (recovering : Recovering cfg start clock answered breaker) (ordered : clock ≤ moment) :
    Recovering cfg start moment answered breaker := by
  cases recovering with
  | waiting => exact .waiting
  | probing running left late => exact .probing running left (late.later ordered)

theorem Recovering.left (recovering : Recovering cfg start clock answered breaker) :
    remaining cfg breaker = remaining cfg start - answered := by
  cases recovering with
  | waiting => rfl
  | probing _ left _ => exact left

theorem remaining_recordSuccess (enabled : 0 < cfg.failureThreshold) (running : breaker.state ≠ .kOpen) :
    (recordSuccess cfg breaker).state ≠ .kOpen ∧
      remaining cfg (recordSuccess cfg breaker) = remaining cfg breaker - 1 := by
  have on : ¬ cfg.failureThreshold ≤ 0 := by omega
  cases state : breaker.state with
  | kOpen => exact absurd state running
  | kClosed => simp [recordSuccess, on, state, remaining]
  | kHalfOpen =>
    by_cases last : breaker.halfOpenSuccesses + 1 ≥ cfg.successThreshold
    · simp only [recordSuccess, on, state, last, ↓reduceIte, remaining]
      refine ⟨BreakerState.noConfusion, ?_⟩
      omega
    · simp only [recordSuccess, on, state, last, ↓reduceIte, remaining]
      refine ⟨BreakerState.noConfusion, ?_⟩
      omega

/-- An admission check of a recovering breaker lets a call through exactly when the window
it started with is over. -/
theorem Recovering.check (recovering : Recovering cfg start clock answered breaker)
    (opened : start.state = .kOpen → start.openedAt ≤ clock) (enabled : 0 < cfg.failureThreshold) :
    (Willing cfg start clock ∧ ∃ during, allowCall cfg clock breaker = (true, during) ∧
      Recovering cfg start clock (answered + 1) (recordSuccess cfg during)) ∨
    (¬ Willing cfg start clock ∧ allowCall cfg clock breaker = (false, breaker)) := by
  have probe {during : CircuitBreaker} (running : during.state ≠ .kOpen)
      (left : remaining cfg during = remaining cfg start - answered) (late : Willing cfg start clock) :
      Recovering cfg start clock (answered + 1) (recordSuccess cfg during) := by
    obtain ⟨still, next⟩ := remaining_recordSuccess enabled running
    exact .probing still (by rw [next, left, Nat.sub_sub]) late
  rcases allowCall_cases enabled clock breaker with ⟨running, admitted⟩ | ⟨shut, expired, admitted⟩ | ⟨shut, early, refused⟩
  · left
    cases recovering with
    | waiting => exact ⟨.inl running, _, admitted, probe running rfl (.inl running)⟩
    | probing _ left late => exact ⟨late, _, admitted, probe running left late⟩
  · left
    cases recovering with
    | waiting =>
      have late : Willing cfg start clock := by
        have passed := (elapsedMs_ge_iff (opened shut)).mp expired
        refine .inr ?_
        unfold CircuitBreakerConfig.window
        omega
      refine ⟨late, _, admitted, probe (by simp) ?_ late⟩
      simp [remaining, shut, CircuitBreakerConfig.successes]
    | probing running _ _ => exact absurd shut running
  · right
    cases recovering with
    | waiting =>
      refine ⟨?_, refused⟩
      rintro (running | late)
      · exact running shut
      · have passed : elapsedMs clock start.openedAt ≥ cfg.openDurationMs :=
          (elapsedMs_ge_iff (opened shut)).mpr (by unfold CircuitBreakerConfig.window at late; omega)
        omega
    | probing running _ _ => exact absurd shut running

end Breaker

section Calls

variable {ω ν : Type} (json : Nlohmann ν) {around : Surroundings ω} {client : HttpTestClient} {Kept : ω → Prop}
  {start : CircuitBreaker}

/-- The server answers whatever it is sent, and goes on doing so. -/
def Answering (around : Surroundings ω) (Kept : ω → Prop) : Prop :=
  ∀ request wire, Kept wire →
    (around.transport request wire).1.isSome = true ∧ Kept (around.transport request wire).2

private theorem healed_call (enabled : 0 < client.breakerCfg.failureThreshold) (monotone : Monotone around.now)
    (answering : Answering around Kept) (env : Environment) (call : Call ν) {session : Session ω}
    (kept : Kept session.wire) (opened : start.state = .kOpen → start.openedAt ≤ around.now session.ticks)
    (recovering : Recovering client.breakerCfg start (around.now session.ticks) answered session.breaker) :
    let outcome := client.perform json around env call session
    Served client.breakerCfg json start ⟨outcome.result, outcome.events⟩ ∧ Kept outcome.session.wire ∧
      session.ticks ≤ outcome.session.ticks ∧
      Recovering client.breakerCfg start (around.now outcome.session.ticks)
        (answered + (attempts outcome.events).length) outcome.session.breaker := by
  intro outcome
  rcases client.perform_cases json around env call session with ⟨error, _, performed⟩ | ⟨request, _, performed⟩
  · rw [show outcome = _ from performed]
    exact ⟨.thrown error, kept, le_rfl, recovering⟩
  · obtain ⟨left, total⟩ := Nat.exists_eq_succ_of_ne_zero (totalAttempts_pos client.retry).ne'
    rw [show outcome = _ from performed]
    rcases recovering.check opened enabled with ⟨late, during, admitted, next⟩ | ⟨early, refused⟩
    · have through : (admission client.breakerCfg around session).1 = true := congrArg Prod.fst admitted
      obtain ⟨some, still⟩ := answering request session.wire kept
      obtain ⟨answer, replied⟩ := Option.isSome_iff_exists.mp some
      have answered' : (makeAttempt client.breakerCfg around request session).result = .some answer := replied
      rw [runWithRetry, total, retryLoop_answered through answered']
      refine ⟨.answered _ answer answered' late, still, Nat.le_add_right _ 3, ?_⟩
      have breaker : (afterAttempt client.breakerCfg around request session).breaker =
          recordSuccess client.breakerCfg during := by
        change recordOutcome _ _ (makeAttempt client.breakerCfg around request session).result _ = _
        rw [answered', show (admission client.breakerCfg around session).2 = during from congrArg Prod.snd admitted]
        rfl
      rw [breaker]
      exact next.later (monotone (Nat.le_add_right _ 3))
    · have stopped : (admission client.breakerCfg around session).1 = false := congrArg Prod.fst refused
      have same : (admission client.breakerCfg around session).2 = session.breaker := congrArg Prod.snd refused
      rw [runWithRetry, total, retryLoop_refused stopped]
      refine ⟨.refused _ early, kept, Nat.le_succ _, ?_⟩
      rw [same]
      exact recovering.later (monotone (Nat.le_succ _))

private theorem healed_run (enabled : 0 < client.breakerCfg.failureThreshold) (monotone : Monotone around.now)
    (answering : Answering around Kept) (calls : List (Environment × Call ν)) {session : Session ω}
    (kept : Kept session.wire) (opened : start.state = .kOpen → start.openedAt ≤ around.now session.ticks)
    (recovering : Recovering client.breakerCfg start (around.now session.ticks) answered session.breaker) :
    let ran := client.run json around calls session
    (∀ report ∈ ran.1, Served client.breakerCfg json start report) ∧
      Recovering client.breakerCfg start (around.now ran.2.ticks) (answered + (attempts (trace ran.1)).length)
        ran.2.breaker := by
  induction calls generalizing session answered with
  | nil => exact ⟨by simp [HttpTestClient.run], recovering⟩
  | cons first rest ih =>
    obtain ⟨env, call⟩ := first
    obtain ⟨served, still, ordered, next⟩ := healed_call json enabled monotone answering env call kept opened
      recovering
    obtain ⟨others, last⟩ := ih still (fun shut => (opened shut).trans (monotone ordered)) next
    refine ⟨List.forall_mem_cons.mpr ⟨served, others⟩, ?_⟩
    simpa only [HttpTestClient.run, trace, List.flatMap_cons, attempts_append, List.length_append, Nat.add_assoc]
      using last

private theorem openedAt_le_clock {cfg : CircuitBreakerConfig} (enabled : 0 < cfg.failureThreshold)
    {events : List Event} {first last : CircuitBreaker × Int} (run : Execution (BreakerStep cfg) first events last)
    (initial : first.1.state = .kOpen → first.1.openedAt ≤ first.2) :
    last.1.state = .kOpen → last.1.openedAt ≤ last.2 := by
  refine run.invariant (motive := fun view => view.1.state = .kOpen → view.1.openedAt ≤ view.2) ?_ initial
  intro view event next opened step
  cases step with
  | slept => exact opened
  | refused check early late =>
    obtain ⟨_, _, same⟩ := allowCall_refused enabled check
    rw [same]
    exact fun shut => (opened shut).trans (early.trans late)
  | attempted check recorded early sent received late =>
    rename_i attempt floor ceiling
    intro shut
    have running : attempt.during.state ≠ .kOpen := by
      rw [allowCall_during enabled check]
      split <;> simp_all
    change attempt.after.state = .kOpen at shut
    change attempt.after.openedAt ≤ ceiling
    cases result : attempt.result with
    | some answer =>
      rw [recorded, result] at shut
      exact absurd shut (remaining_recordSuccess enabled running).1
    | none =>
      rw [recorded, result] at shut ⊢
      rw [recordOutcome, recordFailure_openedAt enabled running shut]
      exact late

/-- However the calls so far went, from the moment the server answers again every call that is
sent is answered at its first attempt, unless the breaker was open by then and its window is
not over; and as soon as so many calls were answered as the breaker had left to go, it is closed
and stays closed. -/
theorem breaker_recovers (client : HttpTestClient) (json : Nlohmann ν) (around : Surroundings ω)
    (enabled : 0 < client.breakerCfg.failureThreshold) (monotone : Monotone around.now)
    (answering : Answering around Kept) (past calls : List (Environment × Call ν)) (wire : ω) :
    let before := (client.run json around past { wire }).2
    let ran := client.run json around calls before
    Kept before.wire →
    (∀ report ∈ ran.1, Served client.breakerCfg json before.breaker report) ∧
    (ran.2.breaker.state = .kClosed ↔
      remaining client.breakerCfg before.breaker ≤ (attempts (trace ran.1)).length) := by
  intro before ran kept
  have past := client.run_history monotone json past { wire }
  have opened := openedAt_le_clock enabled past nofun
  obtain ⟨served, recovering⟩ := healed_run json enabled monotone answering calls kept opened .waiting
  refine ⟨served, ?_⟩
  have left := recovering.left
  rw [Nat.zero_add] at left
  rw [← remaining_eq_zero_iff, left]
  exact Nat.sub_eq_zero_iff_le

end Calls

/-- A server that misses so many requests and then answers every one. -/
def outage : Surroundings Nat where
  now tick := tick * 1000000000
  jitter _ := 1
  transport
    | _, 0 => (some ⟨200, []⟩, 0)
    | _, missed + 1 => (none, missed)

/-- One miss opens the breaker; of the five health checks after it, two are refused, and the
answered ones close it. -/
theorem breaker_closes_after_an_outage :
    (skittish.run Nlohmann.text outage (healthChecks 1) { wire := 1 }).2.breaker.state = .kOpen ∧
    (skittish.run Nlohmann.text outage (healthChecks 5)
      (skittish.run Nlohmann.text outage (healthChecks 1) { wire := 1 }).2).2.breaker.state = .kClosed := by
  have answering : Answering outage (· = 0) := by
    intro request wire none
    subst none
    exact ⟨rfl, rfl⟩
  have monotone : Monotone outage.now := scripted_monotone
  have back : (skittish.run Nlohmann.text outage (healthChecks 1) { wire := 1 }).2.wire = 0 := by decide
  have enough : remaining skittish.breakerCfg (skittish.run Nlohmann.text outage (healthChecks 1)
      { wire := 1 }).2.breaker ≤ (attempts (trace (skittish.run Nlohmann.text outage (healthChecks 5)
        (skittish.run Nlohmann.text outage (healthChecks 1) { wire := 1 }).2).1)).length := by decide
  have recovered := breaker_recovers skittish Nlohmann.text outage (by decide) monotone answering
    (healthChecks 1) (healthChecks 5) 1 back
  exact ⟨by decide, recovered.2.mpr enough⟩

end Charybdis.Client
