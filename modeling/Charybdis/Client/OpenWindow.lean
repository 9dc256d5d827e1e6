import Charybdis.Client.BreakerHistory

/-! What follows a failure that leaves the breaker open: no wire attempt until the open
duration has passed since the failure was recorded, then one probe. -/

namespace Charybdis.Client

open Foundation

/-- The clock reading of an admission check. -/
def Event.checkedAt : Event → Option Int
  | .attempted attempt => some attempt.checkedAt
  | .refused refusal => some refusal.checkedAt
  | .slept _ => none

/-- The open duration in clock ticks. -/
def CircuitBreakerConfig.window (cfg : CircuitBreakerConfig) : Int := cfg.openDurationMs * 1000000

/-- Since `opening`, either nothing has touched the breaker or the window is over. -/
def Guarded (cfg : CircuitBreakerConfig) (opening : Attempt) (view : CircuitBreaker × Int) : Prop :=
  opening.recordedAt ≤ view.2 ∧
    (view.1 = opening.after ∨ opening.recordedAt + cfg.window ≤ view.2)

section Window

variable {cfg : CircuitBreakerConfig} (enabled : 0 < cfg.failureThreshold) {opening : Attempt}
include enabled

theorem openedAt_of_opening {view next : CircuitBreaker × Int}
    (step : BreakerStep cfg view (.attempted opening) next) (failed : opening.succeeded = false)
    (opened : opening.after.state = .kOpen) :
    opening.after.openedAt = opening.recordedAt ∧ Guarded cfg opening next := by
  cases step with
  | attempted check recorded _ _ _ late =>
    have lost : opening.result = none := by simpa [Attempt.succeeded] using failed
    have running : opening.during.state ≠ .kOpen := by
      rw [allowCall_during enabled check]
      split <;> simp_all
    have failure : opening.after = recordFailure cfg opening.recordedAt opening.during := by
      rw [recorded, lost, recordOutcome]
    refine ⟨?_, late, .inl rfl⟩
    rw [failure] at opened ⊢
    exact recordFailure_openedAt enabled running opened

/-- A check under guard: refused inside the window and admitted after it. -/
theorem guarded_check {view next : CircuitBreaker × Int} {event : Event} {checkedAt : Int}
    (timer : opening.after.openedAt = opening.recordedAt) (opened : opening.after.state = .kOpen)
    (guarded : Guarded cfg opening view) (step : BreakerStep cfg view event next)
    (check : event.checkedAt = some checkedAt) :
    (checkedAt - opening.recordedAt < cfg.window →
      ∃ refusal, event = .refused refusal ∧ refusal.before = opening.after ∧
        refusal.after = opening.after) ∧
    (cfg.window ≤ checkedAt - opening.recordedAt → view.1 = opening.after →
      ∃ attempt, event = .attempted attempt) := by
  obtain ⟨begun, guard⟩ := guarded
  cases step with
  | slept => cases check
  | @refused refusal floor ceiling admission early late =>
    cases check
    obtain ⟨_, waiting, same⟩ := allowCall_refused enabled admission
    refine ⟨fun inside => ?_, fun expired untouched => ?_⟩
    · rcases guard with untouched | past
      · exact ⟨refusal, rfl, untouched, same.trans untouched⟩
      · change opening.recordedAt + cfg.window ≤ floor at past
        omega
    · change refusal.before = opening.after at untouched
      rw [untouched, timer] at waiting
      have elapsed : elapsedMs refusal.checkedAt opening.recordedAt ≥ cfg.openDurationMs :=
        (elapsedMs_ge_iff (le_trans begun early)).mpr expired
      omega
  | @attempted attempt floor ceiling admission recorded early sent received late =>
    cases check
    refine ⟨fun inside => ?_, fun _ _ => ⟨attempt, rfl⟩⟩
    rcases guard with untouched | past
    · change attempt.before = opening.after at untouched
      rcases allowCall_cases enabled attempt.checkedAt attempt.before with
        ⟨running, _⟩ | ⟨_, expired, _⟩ | ⟨_, _, refused⟩
      · exact absurd (untouched ▸ opened) running
      · rw [untouched, timer] at expired
        have passed := (elapsedMs_ge_iff (le_trans begun early)).mp expired
        unfold CircuitBreakerConfig.window at inside
        omega
      · rw [refused] at admission
        cases admission
    · change opening.recordedAt + cfg.window ≤ floor at past
      omega

/-- Every step keeps the guard; only a check past the window touches the breaker. -/
theorem guarded_step {view next : CircuitBreaker × Int} {event : Event}
    (timer : opening.after.openedAt = opening.recordedAt) (opened : opening.after.state = .kOpen)
    (guarded : Guarded cfg opening view) (step : BreakerStep cfg view event next) :
    Guarded cfg opening next ∧ ((∀ checkedAt, event.checkedAt = some checkedAt →
      checkedAt - opening.recordedAt < cfg.window) → view.1 = opening.after → next.1 = opening.after) := by
  have checked := fun checkedAt (check : event.checkedAt = some checkedAt) =>
    guarded_check enabled timer opened guarded step check
  obtain ⟨begun, guard⟩ := guarded
  cases step with
  | slept => exact ⟨⟨begun, guard⟩, fun _ untouched => untouched⟩
  | @refused refusal floor ceiling admission early late =>
    obtain ⟨_, _, same⟩ := allowCall_refused enabled admission
    refine ⟨⟨begun.trans (early.trans late), ?_⟩, fun _ untouched => same.trans untouched⟩
    exact guard.imp same.trans (le_trans · (early.trans late))
  | @attempted attempt floor ceiling admission recorded early sent received late =>
    have ordered : attempt.checkedAt ≤ ceiling := sent.trans (received.trans late)
    have expired : cfg.window ≤ attempt.checkedAt - opening.recordedAt := by
      by_contra inside
      obtain ⟨refusal, impossible, _⟩ := (checked _ rfl).1 (by omega)
      cases impossible
    refine ⟨⟨begun.trans (early.trans ordered), .inr ?_⟩, fun inside _ => ?_⟩
    · change opening.recordedAt + cfg.window ≤ ceiling
      omega
    · have := inside _ rfl
      omega

theorem guarded_run {events : List Event} {start last : CircuitBreaker × Int}
    (timer : opening.after.openedAt = opening.recordedAt) (opened : opening.after.state = .kOpen)
    (run : Execution (BreakerStep cfg) start events last) (guarded : Guarded cfg opening start) :
    Guarded cfg opening last ∧ ((∀ event ∈ events, ∀ checkedAt, event.checkedAt = some checkedAt →
      checkedAt - opening.recordedAt < cfg.window) → start.1 = opening.after → last.1 = opening.after) := by
  induction run with
  | done => exact ⟨guarded, fun _ untouched => untouched⟩
  | more first rest ih =>
    obtain ⟨kept, still⟩ := guarded_step enabled timer opened guarded first
    obtain ⟨final, stays⟩ := ih kept
    refine ⟨final, fun inside untouched => ?_⟩
    rw [List.forall_mem_cons] at inside
    exact stays inside.2 (still inside.1 untouched)

/-- While every attempt fails, each attempt after an opening is itself an opening. -/
theorem spaced_failures {events : List Event} {start last : CircuitBreaker × Int}
    (timer : opening.after.openedAt = opening.recordedAt) (opened : opening.after.state = .kOpen)
    (sent : opening.startedAt ≤ opening.recordedAt) (untouched : start.1 = opening.after)
    (guarded : Guarded cfg opening start) (run : Execution (BreakerStep cfg) start events last)
    (failing : ∀ attempt ∈ attempts events, attempt.succeeded = false) :
    List.IsChain (fun earlier later => cfg.window ≤ later.startedAt - earlier.startedAt)
      (opening :: attempts events) := by
  induction run generalizing opening with
  | done => simp
  | @more _ event _ _ _ first rest ih =>
    obtain ⟨kept, _⟩ := guarded_step enabled timer opened guarded first
    cases first with
    | slept => exact ih timer opened sent untouched kept failing
    | @refused refusal _ _ admission _ _ =>
      obtain ⟨_, _, same⟩ := allowCall_refused enabled admission
      exact ih timer opened sent (same.trans untouched) kept failing
    | @attempted attempt floor ceiling admission recorded early began received late =>
      have step : BreakerStep cfg (attempt.before, floor) (.attempted attempt) (attempt.after, ceiling) :=
        .attempted admission recorded early began received late
      rw [attempts_attempted, List.forall_mem_cons] at failing
      obtain ⟨failed, failing⟩ := failing
      have lost : attempt.result = none := by simpa [Attempt.succeeded] using failed
      have half : attempt.during.state = .kHalfOpen := by
        rw [allowCall_during enabled admission, if_pos]
        exact (congrArg CircuitBreaker.state untouched).trans opened
      have reopened : attempt.after.state = .kOpen := by
        have on : ¬ cfg.failureThreshold ≤ 0 := by omega
        simp [recorded, lost, recordOutcome, recordFailure, on, half]
      obtain ⟨restarted, fresh⟩ := openedAt_of_opening enabled step failed reopened
      have gap : cfg.window ≤ attempt.checkedAt - opening.recordedAt := by
        by_contra inside
        obtain ⟨_, impossible, _⟩ := (guarded_check enabled timer opened guarded step rfl).1
          (show attempt.checkedAt - opening.recordedAt < cfg.window by omega)
        cases impossible
      rw [attempts_attempted]
      exact .cons_cons (by omega) (ih restarted reopened received rfl fresh failing)

end Window

/-- A call that meets an open breaker ends there: status 0, a null body, breaker untouched. -/
def ShortCircuited (report : Report ν) : Prop :=
  ∀ refusal, .refused refusal ∈ report.events →
    report.result = .ok ⟨0, .null⟩ ∧ refusal.after = refusal.before ∧
      report.events.getLast? = some (.refused refusal)

theorem retryLoop_short_circuits {ω ν : Type} {json : Nlohmann ν} {policy : RetryPolicy}
    {cfg : CircuitBreakerConfig} {around : Surroundings ω} {request : WireRequest}
    (enabled : 0 < cfg.failureThreshold) (session : Session ω) :
    ShortCircuited ⟨.ok (runWithRetry json policy cfg around request session).response,
      (runWithRetry json policy cfg around request session).events⟩ := by
  refine retryLoop_rule (motive := fun _ ran => ShortCircuited ⟨.ok ran.response, ran.events⟩)
    ?_ ?_ ?_ ?_ 0 (totalAttempts_pos policy) session
  · intro session refused refusal member
    obtain ⟨_, _, same⟩ := allowCall_refused enabled (Prod.ext refused rfl)
    cases List.mem_singleton.mp member
    exact ⟨rfl, same, rfl⟩
  · intro session res _ _ refusal member
    cases List.mem_singleton.mp member
  · intro session _ _ refusal member
    cases List.mem_singleton.mp member
  · intro session delay rest _ _ later refusal member
    have inside : .refused refusal ∈ rest.events := by simpa using member
    obtain ⟨response, same, last⟩ := later refusal inside
    exact ⟨response, same, by simp [List.getLast?_cons, last]⟩

/-- Over any run of calls, a failure that leaves the breaker open silences the wire for the
open duration: every check before it is over is refused and changes nothing, the first check
after it goes out, and until an attempt succeeds two consecutive attempts are that far apart. -/
theorem open_window_is_silent {ω ν : Type} (json : Nlohmann ν) (around : Surroundings ω)
    (client : HttpTestClient) (enabled : 0 < client.breakerCfg.failureThreshold)
    (monotone : Monotone around.now) (calls : List (Environment × Call ν)) (session : Session ω) :
    let reports := (client.run json around calls session).1
    let window := client.breakerCfg.window
    (∀ report ∈ reports, ShortCircuited report) ∧
    ∀ earlier opening later, trace reports = earlier ++ .attempted opening :: later →
      opening.succeeded = false → opening.after.state = .kOpen →
      (∀ middle event rest checkedAt, later = middle ++ event :: rest →
        event.checkedAt = some checkedAt →
        (checkedAt - opening.recordedAt < window →
          ∃ refusal, event = .refused refusal ∧ refusal.before = opening.after ∧
            refusal.after = opening.after) ∧
        (window ≤ checkedAt - opening.recordedAt →
          (∀ other ∈ middle, ∀ time, other.checkedAt = some time →
            time - opening.recordedAt < window) →
          ∃ attempt, event = .attempted attempt)) ∧
      (∀ middle rest, later = middle ++ rest →
        (∀ attempt ∈ attempts middle, attempt.succeeded = false) →
        List.IsChain (fun first second => window ≤ second.startedAt - first.startedAt)
          (opening :: attempts middle)) := by
  intro reports window
  refine ⟨client.forall_reports (fun _ _ => nofun)
    (fun _ session => retryLoop_short_circuits enabled session) calls session, ?_⟩
  intro earlier opening later found failed opened
  have run := client.run_history monotone json calls session
  rw [show trace (client.run json around calls session).1 = _ from found] at run
  obtain ⟨_, start, _, step, after⟩ := run.at_label
  obtain ⟨timer, guarded⟩ := openedAt_of_opening enabled step failed opened
  have untouched : start.1 = opening.after := by cases step; rfl
  have sent : opening.startedAt ≤ opening.recordedAt := by cases step; assumption
  constructor
  · intro middle event rest checkedAt split check
    rw [split] at after
    obtain ⟨before, _, first, second, _⟩ := after.at_label
    obtain ⟨kept, still⟩ := guarded_run enabled timer opened first guarded
    obtain ⟨inside, expired⟩ := guarded_check enabled timer opened kept second check
    exact ⟨inside, fun late alone => expired late (still alone untouched)⟩
  · intro middle rest split failing
    rw [split] at after
    obtain ⟨_, first, _⟩ := after.split
    exact spaced_failures enabled timer opened sent untouched guarded first failing

/-- A client whose first failure silences it for three seconds. -/
def skittish : HttpTestClient where
  host := ascii "localhost"
  port := 8080
  breakerCfg := { failureThreshold := 1, openDurationMs := 3000 }

def healthChecks (count : Nat) : List (Environment × Call JsonText.Lexeme) :=
  List.replicate count (fun _ => none, .get (ascii "/v1/health"))

/-- On a dead network five health checks make two attempts, three seconds apart. -/
theorem dead_network_is_probed_once_per_window :
    let made := attempts (trace (skittish.run Nlohmann.text scripted (healthChecks 5) { wire := [] }).1)
    made.length = 2 ∧
      List.IsChain (fun first second => 3000000000 ≤ second.startedAt - first.startedAt) made := by
  intro made
  have failing : ∀ attempt ∈ made, attempt.succeeded = false := by decide
  obtain ⟨opening, later, found, opened⟩ : ∃ opening later,
      trace (skittish.run Nlohmann.text scripted (healthChecks 5) { wire := [] }).1 =
        [] ++ .attempted opening :: later ∧ opening.after.state = .kOpen := ⟨_, _, rfl, rfl⟩
  have split : made = opening :: attempts later := congrArg attempts found
  rw [split, List.forall_mem_cons] at failing
  have spaced := ((open_window_is_silent Nlohmann.text scripted skittish (by decide) scripted_monotone
    (healthChecks 5) { wire := [] }).2 [] opening later found failing.1 opened).2 later []
    (List.append_nil later).symm failing.2
  exact ⟨by decide, split ▸ spaced⟩

end Charybdis.Client
