import Charybdis.Client.HttpTestClient

/-! The breaker as a function of history. One relation says how each event moves the
breaker; every run of calls is an execution of it, and the reference automaton, which
only knows the outcomes recorded so far, simulates it. -/

namespace Charybdis.Client

open Foundation

/-- How one event moves the breaker between two clock readings. -/
inductive BreakerStep (cfg : CircuitBreakerConfig) :
    CircuitBreaker × Int → Event → CircuitBreaker × Int → Prop where
  | refused {refusal : Refusal} {floor ceiling : Int}
      (check : allowCall cfg refusal.checkedAt refusal.before = (false, refusal.after))
      (early : floor ≤ refusal.checkedAt) (late : refusal.checkedAt ≤ ceiling) :
      BreakerStep cfg (refusal.before, floor) (.refused refusal) (refusal.after, ceiling)
  | attempted {attempt : Attempt} {floor ceiling : Int}
      (check : allowCall cfg attempt.checkedAt attempt.before = (true, attempt.during))
      (recorded : attempt.after =
        recordOutcome cfg attempt.recordedAt attempt.result attempt.during)
      (early : floor ≤ attempt.checkedAt) (sent : attempt.checkedAt ≤ attempt.startedAt)
      (received : attempt.startedAt ≤ attempt.recordedAt) (late : attempt.recordedAt ≤ ceiling) :
      BreakerStep cfg (attempt.before, floor) (.attempted attempt) (attempt.after, ceiling)
  | slept : BreakerStep cfg state (.slept milliseconds) state

/-- The breaker and the next clock reading. -/
def breakerView (around : Surroundings ω) (session : Session ω) : CircuitBreaker × Int :=
  (session.breaker, around.now session.ticks)

section Loop

variable {ω ν : Type} {json : Nlohmann ν} {policy : RetryPolicy} {cfg : CircuitBreakerConfig}
  {around : Surroundings ω} {request : WireRequest}

private theorem makeAttempt_step (monotone : Monotone around.now) {session : Session ω}
    (admitted : (admission cfg around session).1 = true) :
    BreakerStep cfg (breakerView around session) (.attempted (makeAttempt cfg around request session))
      (breakerView around (afterAttempt cfg around request session)) :=
  .attempted (show allowCall cfg _ _ = (true, (makeAttempt cfg around request session).during) from
      Prod.ext admitted rfl)
    rfl le_rfl (monotone (Nat.le_succ _)) (monotone (Nat.le_succ _)) (monotone (Nat.le_succ _))

theorem retryLoop_history (monotone : Monotone around.now) (attempt : Nat) (positive : 0 < left)
    (session : Session ω) :
    Execution (BreakerStep cfg) (breakerView around session)
      (retryLoop json policy cfg around request attempt left session).events
      (breakerView around (retryLoop json policy cfg around request attempt left session).session) := by
  refine retryLoop_rule (motive := fun session ran => Execution (BreakerStep cfg)
    (breakerView around session) ran.events (breakerView around ran.session)) ?_ ?_ ?_ ?_ attempt positive session
  · intro session refused
    let refusal : Refusal := ⟨around.now session.ticks, session.breaker, (admission cfg around session).2⟩
    have check : allowCall cfg refusal.checkedAt refusal.before = (false, refusal.after) :=
      Prod.ext refused rfl
    exact .single (.refused check le_rfl (monotone (Nat.le_succ _)))
  · intro session res admitted _
    exact .single (makeAttempt_step monotone admitted)
  · intro session admitted _
    exact .single (makeAttempt_step monotone admitted)
  · intro session delay rest admitted _ later
    exact .more (makeAttempt_step monotone admitted) (.more .slept later)

theorem HttpTestClient.run_history (monotone : Monotone around.now) (client : HttpTestClient)
    (json : Nlohmann ν)
    (calls : List (Environment × Call ν)) (session : Session ω) :
    Execution (BreakerStep client.breakerCfg) (breakerView around session)
      (trace (client.run json around calls session).1)
      (breakerView around (client.run json around calls session).2) :=
  client.run_execution (breakerView around)
    (fun _ session => retryLoop_history monotone 0 (totalAttempts_pos client.retry) session) calls session

end Loop

/-! ### The reference automaton -/

/-- The documented breaker: its state and the outcomes recorded since it entered that
state, oldest first; `true` is an HTTP response of any status. -/
structure Reference where
  phase : BreakerState := .kClosed
  since : List Bool := []

/-- An outcome in HALF_OPEN, after the outcomes recorded since it was entered. -/
def Reference.probe (successes : Nat) (since : List Bool) (succeeded : Bool) : Reference :=
  if succeeded then
    if streak id (since ++ [succeeded]) = successes then ⟨.kClosed, []⟩
    else ⟨.kHalfOpen, since ++ [succeeded]⟩
  else ⟨.kOpen, []⟩

/-- One recorded outcome; an attempt admitted from OPEN runs in HALF_OPEN. -/
def Reference.next (failures successes : Nat) (reference : Reference) (succeeded : Bool) : Reference :=
  match reference.phase with
  | .kClosed =>
    if streak not (reference.since ++ [succeeded]) = failures then ⟨.kOpen, []⟩
    else ⟨.kClosed, reference.since ++ [succeeded]⟩
  | .kOpen => Reference.probe successes [] succeeded
  | .kHalfOpen => Reference.probe successes reference.since succeeded

def Reference.after (failures successes : Nat) (history : List Bool) : Reference :=
  history.foldl (Reference.next failures successes) {}

/-- Outcomes recorded along a trace. -/
def outcomes (events : List Event) : List Bool := (attempts events).map Attempt.succeeded

def CircuitBreakerConfig.failures (cfg : CircuitBreakerConfig) : Nat := cfg.failureThreshold.toNat

def CircuitBreakerConfig.successes (cfg : CircuitBreakerConfig) : Nat := (max 1 cfg.successThreshold).toNat

/-- The counter of the current state equals the streak the reference counts, and has
not reached its threshold. -/
structure Tracks (cfg : CircuitBreakerConfig) (breaker : CircuitBreaker) (reference : Reference) : Prop where
  phase : breaker.state = reference.phase
  closed : reference.phase = .kClosed →
    breaker.consecutiveFailures = streak not reference.since ∧
      streak not reference.since < cfg.failures
  halfOpen : reference.phase = .kHalfOpen →
    breaker.halfOpenSuccesses = streak id reference.since ∧
      streak id reference.since < cfg.successes

theorem outcomes_append (first second : List Event) :
    outcomes (first ++ second) = outcomes first ++ outcomes second := by
  simp [outcomes]

private theorem successes_pos (cfg : CircuitBreakerConfig) : 0 < cfg.successes := by
  unfold CircuitBreakerConfig.successes
  omega

section Enabled

variable {cfg : CircuitBreakerConfig} (enabled : 0 < cfg.failureThreshold)
include enabled

private theorem failures_pos : 0 < cfg.failures := by
  unfold CircuitBreakerConfig.failures
  omega

theorem tracks_initial : Tracks cfg {} {} :=
  ⟨rfl, fun _ => ⟨by simp, by simpa using failures_pos enabled⟩, nofun⟩

private theorem tracks_probe {during : CircuitBreaker} (since : List Bool)
    (half : during.state = .kHalfOpen) (counted : during.halfOpenSuccesses = (streak id since : Int))
    (below : streak id since < cfg.successes) (result : HttpResult) (now : Int) :
    Tracks cfg (recordOutcome cfg now result during)
      (Reference.probe cfg.successes since result.isSome) := by
  have on : ¬ cfg.failureThreshold ≤ 0 := by omega
  cases result with
  | none =>
    simp only [recordOutcome, recordFailure, on, half, ↓reduceIte, Reference.probe, Option.isSome_none,
      Bool.false_eq_true]
    exact ⟨rfl, nofun, nofun⟩
  | some res =>
    have longer : streak id (since ++ [true]) = streak id since + 1 := streak_concat_hit since rfl
    have limit : during.halfOpenSuccesses + 1 ≥ cfg.successThreshold ↔
        streak id since + 1 = cfg.successes := by
      unfold CircuitBreakerConfig.successes at below ⊢
      omega
    simp only [recordOutcome, recordSuccess, on, half, ↓reduceIte, limit, Reference.probe,
      Option.isSome_some, longer]
    split
    · exact ⟨rfl, fun _ => ⟨by simp, by simpa using failures_pos enabled⟩, nofun⟩
    · refine ⟨rfl, nofun, fun _ => ⟨?_, ?_⟩⟩
      · simp only [longer]
        omega
      · rw [longer]
        omega

private theorem tracks_closed {during : CircuitBreaker} {since : List Bool}
    (closed : during.state = .kClosed)
    (counted : during.consecutiveFailures = (streak not since : Int))
    (below : streak not since < cfg.failures) (result : HttpResult) (now : Int) :
    Tracks cfg (recordOutcome cfg now result during)
      (Reference.next cfg.failures cfg.successes ⟨.kClosed, since⟩ result.isSome) := by
  have on : ¬ cfg.failureThreshold ≤ 0 := by omega
  cases result with
  | none =>
    have longer : streak not (since ++ [false]) = streak not since + 1 := streak_concat_hit since rfl
    have limit : during.consecutiveFailures + 1 ≥ cfg.failureThreshold ↔
        streak not since + 1 = cfg.failures := by
      unfold CircuitBreakerConfig.failures at below ⊢
      omega
    simp only [recordOutcome, recordFailure, on, closed, ↓reduceIte, limit, Reference.next,
      Option.isSome_none, longer, reduceCtorEq]
    split
    · exact ⟨rfl, nofun, nofun⟩
    · refine ⟨rfl, fun _ => ⟨?_, ?_⟩, nofun⟩
      · simp only [longer]
        omega
      · rw [longer]
        omega
  | some res =>
    have ended : streak not (since ++ [true]) = 0 := streak_concat_miss since rfl
    have positive := failures_pos enabled
    simp only [recordOutcome, recordSuccess, on, closed, ↓reduceIte, Reference.next,
      Option.isSome_some, ended, positive.ne, reduceCtorEq]
    exact ⟨rfl, fun _ => ⟨by simp [ended], by rw [ended]; exact positive⟩, nofun⟩

theorem Tracks.attempted (attempt : Attempt) {reference : Reference}
    (tracks : Tracks cfg attempt.before reference)
    (check : allowCall cfg attempt.checkedAt attempt.before = (true, attempt.during))
    (recorded : attempt.after = recordOutcome cfg attempt.recordedAt attempt.result attempt.during) :
    Tracks cfg attempt.after (reference.next cfg.failures cfg.successes attempt.succeeded) := by
  rw [recorded]
  obtain ⟨phase, since⟩ := reference
  rcases allowCall_cases enabled attempt.checkedAt attempt.before with
    ⟨running, admitted⟩ | ⟨opened, _, admitted⟩ | ⟨_, _, admitted⟩
  · rw [admitted] at check
    have same : attempt.during = attempt.before := (Prod.ext_iff.mp check).2.symm
    rw [same]
    cases phase with
    | kClosed =>
      obtain ⟨counted, below⟩ := tracks.closed rfl
      exact tracks_closed enabled tracks.phase counted below attempt.result attempt.recordedAt
    | kOpen => exact absurd tracks.phase running
    | kHalfOpen =>
      obtain ⟨counted, below⟩ := tracks.halfOpen rfl
      exact tracks_probe enabled _ tracks.phase counted below attempt.result attempt.recordedAt
  · rw [admitted] at check
    have probing : attempt.during = { attempt.before with state := .kHalfOpen, halfOpenSuccesses := 0 } :=
      (Prod.ext_iff.mp check).2.symm
    have isOpen : phase = .kOpen := tracks.phase.symm.trans opened
    subst isOpen
    exact tracks_probe enabled [] (by rw [probing]) (by simp [probing])
      (by simpa using successes_pos cfg) attempt.result attempt.recordedAt
  · rw [admitted] at check
    cases check

/-- The reference automaton simulates every event. -/
theorem tracks_step {view next : CircuitBreaker × Int} {event : Event} {history : List Bool}
    (tracks : Tracks cfg view.1 (Reference.after cfg.failures cfg.successes history))
    (step : BreakerStep cfg view event next) :
    Tracks cfg next.1 (Reference.after cfg.failures cfg.successes (history ++ outcomes [event])) := by
  cases step with
  | refused check _ _ =>
    obtain ⟨_, _, same⟩ := allowCall_refused enabled check
    simpa [outcomes, same] using tracks
  | attempted check recorded _ _ _ _ =>
    simpa [outcomes, Reference.after] using tracks.attempted enabled _ check recorded
  | slept => simpa [outcomes] using tracks

theorem tracks_run {events : List Event} {start last : CircuitBreaker × Int}
    (run : Execution (BreakerStep cfg) start events last)
    (tracks : Tracks cfg start.1 (Reference.after cfg.failures cfg.successes [])) :
    Tracks cfg last.1 (Reference.after cfg.failures cfg.successes (outcomes events)) := by
  refine run.history (motive := fun events view =>
    Tracks cfg view.1 (Reference.after cfg.failures cfg.successes (outcomes events))) ?_ tracks
  intro past view event next tracks step
  rw [outcomes_append]
  exact tracks_step enabled tracks step

end Enabled

/-- What an event shows of the breaker, against the outcomes recorded before it. -/
def Agrees (cfg : CircuitBreakerConfig) (history : List Bool) : Event → Prop
  | .attempted attempt =>
    attempt.before.state = (Reference.after cfg.failures cfg.successes history).phase ∧
    attempt.during.state =
      (if attempt.before.state = .kOpen then .kHalfOpen else attempt.before.state) ∧
    attempt.after.state =
      (Reference.after cfg.failures cfg.successes (history ++ [attempt.succeeded])).phase
  | .refused refusal =>
    refusal.before.state = .kOpen ∧ refusal.after = refusal.before ∧
    (Reference.after cfg.failures cfg.successes history).phase = .kOpen
  | .slept _ => True

private theorem agrees_of_tracks {cfg : CircuitBreakerConfig} (enabled : 0 < cfg.failureThreshold)
    {view next : CircuitBreaker × Int} {event : Event} {history : List Bool}
    (tracks : Tracks cfg view.1 (Reference.after cfg.failures cfg.successes history))
    (step : BreakerStep cfg view event next) : Agrees cfg history event := by
  have later := tracks_step enabled tracks step
  cases step with
  | refused check _ _ =>
    obtain ⟨opened, _, same⟩ := allowCall_refused enabled check
    exact ⟨opened, same, tracks.phase.symm.trans opened⟩
  | attempted check _ _ _ _ _ =>
    exact ⟨tracks.phase, allowCall_during enabled check, by simpa [outcomes] using later.phase⟩
  | slept => trivial

/-- After any run of calls from a fresh client, at every attempt of it and at every
refused check, the breaker's state is the reference automaton's after the outcomes
recorded so far: nothing else about the run matters. -/
theorem breaker_follows_reference {ω ν : Type} (json : Nlohmann ν) (around : Surroundings ω)
    (client : HttpTestClient) (enabled : 0 < client.breakerCfg.failureThreshold)
    (monotone : Monotone around.now) (calls : List (Environment × Call ν)) (wire : ω) :
    let ran := client.run json around calls { wire }
    let cfg := client.breakerCfg
    ran.2.breaker.state =
      (Reference.after cfg.failures cfg.successes (outcomes (trace ran.1))).phase ∧
    ∀ earlier event later, trace ran.1 = earlier ++ event :: later →
      Agrees cfg (outcomes earlier) event := by
  intro ran cfg
  have run : Execution (BreakerStep cfg) (breakerView around { wire }) (trace ran.1)
      (breakerView around ran.2) := client.run_history monotone _ calls { wire }
  have initial : Tracks cfg (breakerView around { wire }).1
      (Reference.after cfg.failures cfg.successes []) := tracks_initial enabled
  constructor
  · exact (tracks_run enabled run initial).phase
  · intro earlier event later found
    rw [found] at run
    obtain ⟨_, _, before, step, _⟩ := run.at_label
    exact agrees_of_tracks enabled (tracks_run enabled before initial) step

/-- A network that replays a list of results and then loses everything, under a clock
that advances one second with each reading. -/
def scripted : Surroundings (List HttpResult) where
  now tick := tick * 1000000000
  jitter _ := 1
  transport
    | _, [] => (none, [])
    | _, result :: rest => (result, rest)

theorem scripted_monotone : Monotone scripted.now := by
  intro earlier later ordered
  change (earlier : Int) * 1000000000 ≤ (later : Int) * 1000000000
  omega

/-- Threshold two, one retry: a success, a loss, and then two losses in a row. -/
theorem breaker_opens_on_the_second_loss :
    let client : HttpTestClient :=
      { host := ascii "localhost", port := 8080, retry := { maxRetries := 1 },
        breakerCfg := { failureThreshold := 2 } }
    let calls := [(fun _ => none, .get (ascii "/v1/health")), (fun _ => none, .del (ascii "/v1/chaos/7"))]
    (client.run Nlohmann.text scripted calls { wire := [none, some ⟨500, []⟩] }).2.breaker.state =
      .kOpen := by
  intro client calls
  exact (breaker_follows_reference Nlohmann.text scripted client (by decide) scripted_monotone calls
    [none, some ⟨500, []⟩]).1.trans (by decide)

end Charybdis.Client
