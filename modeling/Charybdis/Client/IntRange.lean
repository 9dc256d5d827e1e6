import Charybdis.Client.BackoffSchedule
import Charybdis.Foundation.Rounding

/-! The `int` arithmetic of the retry loop and of the breaker: what a run of calls computes, its
delays in `double` arithmetic, and the configurations that keep all of it within the range of `int`. -/

namespace Charybdis.Client

open Foundation

def InInt (value : Int) : Prop := -intMax - 1 ≤ value ∧ value ≤ intMax

instance (value : Int) : Decidable (InInt value) := inferInstanceAs (Decidable (_ ∧ _))

/-! ### What a call computes -/

/-- The counter an attempt's outcome increments, after the increment. Successes are counted in
the half-open state and failures outside it; a disabled breaker counts neither. -/
def increments (cfg : CircuitBreakerConfig) (attempt : Attempt) : List Int :=
  if cfg.failureThreshold ≤ 0 then []
  else if attempt.during.state = .kHalfOpen then
    if attempt.succeeded then [attempt.during.halfOpenSuccesses + 1] else []
  else if attempt.succeeded then [] else [attempt.during.consecutiveFailures + 1]

def eventInts (cfg : CircuitBreakerConfig) : Event → List Int
  | .attempted attempt => increments cfg attempt
  | .refused _ => []
  | .slept _ => []

/-- The `double` arithmetic of the delays. None is so small that the exponent has a bound; those
beyond the largest number are no `int` either, or give way to the cap. -/
def double : Rounding ℚ := nearestEven 53 (by decide)

/-- The delay before the jitter, each product rounded. -/
def roundedDelay (policy : RetryPolicy) (attempt : Nat) : ℚ :=
  double.cappedGrowth policy.baseDelayMs policy.backoffMult policy.maxDelayMs attempt

/-- `static_cast<int>(delay)`. -/
def castDelay (policy : RetryPolicy) (attempt : Nat) (jitter : ℚ) : Int :=
  let delay := double.round (roundedDelay policy attempt * jitter)
  delay.num.tdiv delay.den

/-- One for each sleep of a call, with the factors that are drawn for it. -/
def castDelays (policy : RetryPolicy) (jitter : Nat → ℚ) (events : List Event) : List Int :=
  (List.range (sleeps events).length).map fun attempt => castDelay policy attempt (jitter attempt)

/-- The attempt count, the counters and the delays of a call. One that throws does so before
`run_with_retry`. -/
def computedInts (client : HttpTestClient) (jitter : Nat → ℚ) (report : Report ν) : List Int :=
  match report.result with
  | .error _ => []
  | .ok _ => (client.retry.maxRetries + 1) ::
      (report.events.flatMap (eventInts client.breakerCfg) ++ castDelays client.retry jitter report.events)

/-- Every sequential run of a fresh client, whatever network answers it, computes `int` values
only. The factors drawn before a call are those of the sleeps before it. -/
def HttpTestClient.StaysInInt (client : HttpTestClient) : Prop :=
  ∀ (ω ν : Type) (json : Nlohmann ν) (around : Surroundings ω), Monotone around.now → around.Jittered →
    ∀ (calls : List (Environment × Call ν)) (wire : ω) (earlier later : List (Report ν)) (report : Report ν),
      (client.run json around calls { wire }).1 = earlier ++ report :: later →
      ∀ value ∈ computedInts client (fun draw => around.jitter ((sleeps (trace earlier)).length + draw)) report,
        InInt value

/-- The `int` fields of the two configurations hold `int` values. -/
structure HttpTestClient.IntFields (client : HttpTestClient) : Prop where
  maxRetries : InInt client.retry.maxRetries
  baseDelayMs : InInt client.retry.baseDelayMs
  maxDelayMs : InInt client.retry.maxDelayMs
  failureThreshold : InInt client.breakerCfg.failureThreshold
  openDurationMs : InInt client.breakerCfg.openDurationMs
  successThreshold : InInt client.breakerCfg.successThreshold

/-! ### The delays -/

/-- The cast to `int` truncates towards zero; what it truncates is an `int`. -/
def TruncatesToInt (value : ℚ) : Prop := -(intMax : ℚ) - 2 < value ∧ value < intMax + 1

private theorem truncated_in_int_iff (value : ℚ) : InInt (value.num.tdiv value.den) ↔ TruncatesToInt value := by
  unfold InInt TruncatesToInt
  have limit : (0 : ℚ) ≤ intMax := by norm_num [intMax]
  have limit' : 0 ≤ intMax := by decide
  rcases le_total 0 value with nonneg | negative
  · have floored : value.num.tdiv value.den = ⌊value⌋ := by
      rw [Rat.floor_def', Int.tdiv_eq_ediv_of_nonneg (Rat.num_nonneg.mpr nonneg)]
    have positive : 0 ≤ ⌊value⌋ := Int.floor_nonneg.mpr nonneg
    have above : ⌊value⌋ ≤ intMax ↔ ⌊value⌋ < intMax + 1 := Int.lt_add_one_iff.symm
    rw [floored, above, Int.floor_lt]
    push_cast
    constructor
    · exact fun within => ⟨by linarith, within.2⟩
    · exact fun within => ⟨by omega, within.2⟩
  · have floored : value.num.tdiv value.den = -⌊-value⌋ := by
      have nonneg : 0 ≤ (-value).num := Rat.num_nonneg.mpr (neg_nonneg.mpr negative)
      rw [Rat.floor_def', ← Int.tdiv_eq_ediv_of_nonneg nonneg, Rat.num_neg_eq_neg_num, Rat.den_neg_eq_den,
        Int.neg_tdiv, neg_neg]
    have positive : 0 ≤ ⌊-value⌋ := Int.floor_nonneg.mpr (neg_nonneg.mpr negative)
    have below : -intMax - 1 ≤ -⌊-value⌋ ↔ ⌊-value⌋ < intMax + 2 := by omega
    rw [floored, below, Int.floor_lt]
    push_cast
    constructor
    · exact fun within => ⟨by linarith [within.1], by linarith⟩
    · exact fun within => ⟨by linarith [within.1], by omega⟩

private theorem castDelay_in_int_iff (policy : RetryPolicy) (attempt : Nat) (jitter : ℚ) :
    InInt (castDelay policy attempt jitter) ↔ TruncatesToInt (double.round (jitter * roundedDelay policy attempt)) := by
  rw [← truncated_in_int_iff, castDelay, mul_comm jitter]

private theorem double_intCast {value : Int} (short : |value| < 2 ^ 53) : double.round value = value :=
  nearestEven_intCast _ short

private theorem double_int {value : Int} (range : InInt value) : double.round value = value := by
  have limit : intMax = 2147483647 := rfl
  unfold InInt at range
  exact double_intCast (abs_lt.mpr ⟨by omega, by omega⟩)

/-- The last delay at the largest jitter is the one furthest from zero. -/
theorem castDelay_in_int_of_last {policy : RetryPolicy} (base : InInt policy.baseDelayMs)
    (growing : 1 ≤ policy.backoffMult) {earlier later : Nat} (before : earlier ≤ later)
    (last : TruncatesToInt (double.round (3 / 2 * roundedDelay policy later))) {jitter : ℚ}
    (low : 1 / 2 ≤ jitter) (high : jitter ≤ 3 / 2) : InInt (castDelay policy earlier jitter) := by
  rw [castDelay_in_int_iff]
  have limit : (0 : ℚ) ≤ intMax := by norm_num [intMax]
  obtain ⟨above, below⟩ := last
  rcases double.cappedGrowth_outward (double_int base) growing (policy.maxDelayMs : ℚ) before with
    ⟨nonneg, grown⟩ | ⟨grown, negative⟩
  · change 0 ≤ roundedDelay policy earlier at nonneg
    change roundedDelay policy earlier ≤ roundedDelay policy later at grown
    have jittered := mul_le_mul_of_nonneg_right high nonneg
    have upper := double.mono (show jitter * roundedDelay policy earlier ≤ 3 / 2 * roundedDelay policy later by linarith)
    have lower := double.mono (mul_nonneg (by linarith : 0 ≤ jitter) nonneg)
    rw [double.zero] at lower
    exact ⟨by linarith, by linarith⟩
  · change roundedDelay policy later ≤ roundedDelay policy earlier at grown
    change roundedDelay policy earlier ≤ 0 at negative
    have jittered := mul_le_mul_of_nonpos_right high negative
    have lower := double.mono (show 3 / 2 * roundedDelay policy later ≤ jitter * roundedDelay policy earlier by linarith)
    have upper := double.mono (mul_nonpos_of_nonneg_of_nonpos (by linarith : 0 ≤ jitter) negative)
    rw [double.zero] at upper
    exact ⟨by linarith, by linarith⟩

/-! ### The counters -/

section Counters

variable {ω ν : Type} {json : Nlohmann ν} {around : Surroundings ω} {client : HttpTestClient}

/-- A counter changes by its increment, or starts again. -/
theorem recorded_counters {cfg : CircuitBreakerConfig} {attempt : Attempt}
    (recorded : attempt.after = recordOutcome cfg attempt.recordedAt attempt.result attempt.during) :
    attempt.after.consecutiveFailures ∈
        attempt.during.consecutiveFailures :: 0 :: increments cfg attempt ∧
      attempt.after.halfOpenSuccesses ∈ attempt.during.halfOpenSuccesses :: 0 :: increments cfg attempt := by
  rw [recorded]
  cases outcome : attempt.result with
  | none =>
    simp only [recordOutcome, recordFailure, increments, Attempt.succeeded, outcome]
    split_ifs <;> simp_all
  | some res =>
    simp only [recordOutcome, recordSuccess, increments, Attempt.succeeded, outcome]
    split_ifs <;> simp_all

private theorem increments_in_int {cfg : CircuitBreakerConfig} (failures : InInt cfg.failureThreshold)
    (successes : InInt cfg.successThreshold) {attempt : Attempt} {reference : Reference}
    (enabled : 0 < cfg.failureThreshold) (tracks : Tracks cfg attempt.before reference)
    (check : allowCall cfg attempt.checkedAt attempt.before = (true, attempt.during)) :
    ∀ value ∈ increments cfg attempt, InInt value := by
  have on : ¬ cfg.failureThreshold ≤ 0 := by omega
  have limit : intMax = 2147483647 := rfl
  unfold InInt at *
  intro value counted
  simp only [increments, on, ↓reduceIte] at counted
  rcases allowCall_cases enabled attempt.checkedAt attempt.before with
    ⟨running, admitted⟩ | ⟨_, _, admitted⟩ | ⟨_, _, admitted⟩
  · rw [admitted] at check
    have same : attempt.during = attempt.before := (Prod.ext_iff.mp check).2.symm
    rw [same] at counted
    cases phase : reference.phase with
    | kClosed =>
      obtain ⟨streak, below⟩ := tracks.closed phase
      have closed : attempt.before.state = .kClosed := tracks.phase.trans phase
      simp only [closed, reduceCtorEq, ↓reduceIte] at counted
      split at counted
      · cases counted
      · rw [List.mem_singleton] at counted
        unfold CircuitBreakerConfig.failures at below
        omega
    | kOpen => exact absurd (tracks.phase.trans phase) running
    | kHalfOpen =>
      obtain ⟨streak, below⟩ := tracks.halfOpen phase
      have half : attempt.before.state = .kHalfOpen := tracks.phase.trans phase
      simp only [half, ↓reduceIte] at counted
      split at counted
      · rw [List.mem_singleton] at counted
        unfold CircuitBreakerConfig.successes at below
        omega
      · cases counted
  · rw [admitted] at check
    have probing : attempt.during = { attempt.before with state := .kHalfOpen, halfOpenSuccesses := 0 } :=
      (Prod.ext_iff.mp check).2.symm
    simp only [probing, ↓reduceIte] at counted
    split at counted
    · rw [List.mem_singleton] at counted
      omega
    · cases counted
  · rw [admitted] at check
    cases check

/-- Over any run of a fresh client the counters stay within `int`. -/
theorem counters_in_int (failures : InInt client.breakerCfg.failureThreshold)
    (successes : InInt client.breakerCfg.successThreshold) (monotone : Monotone around.now)
    (calls : List (Environment × Call ν)) (wire : ω) {attempt : Attempt}
    (made : Event.attempted attempt ∈ trace (client.run json around calls { wire }).1) :
    ∀ value ∈ increments client.breakerCfg attempt, InInt value := by
  by_cases enabled : 0 < client.breakerCfg.failureThreshold
  · obtain ⟨earlier, later, found⟩ := List.append_of_mem made
    have run := client.run_history monotone json calls { wire }
    rw [found] at run
    obtain ⟨_, _, before, step, _⟩ := run.at_label
    have tracks := tracks_run enabled before (tracks_initial enabled)
    cases step with
    | attempted check _ _ _ _ _ => exact increments_in_int failures successes enabled tracks check
  · have disabled : client.breakerCfg.failureThreshold ≤ 0 := by omega
    simp [increments, disabled]

end Counters

/-! ### The configurations in range -/

section Configurations

variable {client : HttpTestClient}

private theorem sleeps_due {ω ν : Type} {json : Nlohmann ν} {around : Surroundings ω}
    (calls : List (Environment × Call ν)) (session : Session ω) :
    ∀ report ∈ (client.run json around calls session).1, ∀ attempt < (sleeps report.events).length,
      attempt + 1 < totalAttempts client.retry := by
  refine HttpTestClient.forall_reports (fun error attempt slept => by cases slept) ?_ calls session
  intro request session attempt slept
  exact (runWithRetry_delay (List.getElem?_eq_getElem slept)).1

theorem stays_in_int_of_bounds (ints : client.IntFields) (growing : 1 ≤ client.retry.backoffMult)
    (total : client.retry.maxRetries ≠ intMax)
    (last : client.retry.maxRetries ≤ 0 ∨
      TruncatesToInt (double.round (3 / 2 * roundedDelay client.retry (client.retry.maxRetries - 1).toNat))) :
    client.StaysInInt := by
  intro ω ν json around monotone jittered calls wire earlier later report split value computed
  have member : report ∈ (client.run json around calls { wire }).1 := by rw [split]; simp
  unfold computedInts at computed
  split at computed
  · cases computed
  · rcases List.mem_cons.mp computed with sum | during
    · have range := ints.maxRetries
      rw [sum]
      unfold InInt at *
      omega
    · rcases List.mem_append.mp during with counted | delayed
      · obtain ⟨event, happened, value⟩ := List.mem_flatMap.mp counted
        cases event with
        | attempted attempt =>
          exact counters_in_int ints.failureThreshold ints.successThreshold monotone calls wire
            (List.mem_flatMap.mpr ⟨report, member, happened⟩) _ value
        | refused refusal => cases value
        | slept milliseconds => cases value
      · obtain ⟨attempt, place, rfl⟩ := List.mem_map.mp delayed
        have due := sleeps_due calls { wire } report member attempt (List.mem_range.mp place)
        unfold totalAttempts at due
        rcases last with none | bounded
        · omega
        · exact castDelay_in_int_of_last ints.baseDelayMs growing (by omega) bounded (jittered _).1 (jittered _).2

/-- A network that loses everything, under the longest jitter and a clock that lets the longest
open duration pass with each reading. -/
def unanswering : Surroundings Unit where
  now tick := tick * ((intMax + 1) * 1000000)
  jitter _ := 3 / 2
  transport _ wire := (none, wire)

theorem unanswering_monotone : Monotone unanswering.now := by
  intro earlier later ordered
  change (earlier : Int) * ((intMax + 1) * 1000000) ≤ (later : Int) * ((intMax + 1) * 1000000)
  unfold intMax
  omega

theorem unanswering_jittered : unanswering.Jittered := fun _ => by norm_num [unanswering]

/-- An open breaker has been open for a whole reading. -/
private def Rested (cfg : CircuitBreakerConfig) (session : Session Unit) : Prop :=
  0 < cfg.failureThreshold → session.breaker.state = .kOpen →
    session.breaker.openedAt + (intMax + 1) * 1000000 ≤ unanswering.now session.ticks

private theorem Rested.admitted {cfg : CircuitBreakerConfig} {session : Session Unit}
    (duration : InInt cfg.openDurationMs) (rested : Rested cfg session) :
    (admission cfg unanswering session).1 = true := by
  unfold admission
  by_cases enabled : 0 < cfg.failureThreshold
  · rcases allowCall_cases enabled (unanswering.now session.ticks) session.breaker with
      ⟨_, admitted⟩ | ⟨_, _, admitted⟩ | ⟨opened, early, _⟩
    · rw [admitted]
    · rw [admitted]
    · have since := rested enabled opened
      have limit : intMax = 2147483647 := rfl
      unfold InInt at duration
      have expired : elapsedMs (unanswering.now session.ticks) session.breaker.openedAt ≥ cfg.openDurationMs := by
        rw [elapsedMs_ge_iff (by omega)]
        omega
      omega
  · rw [disabled_allowCall (by omega)]

private theorem Rested.attempted {cfg : CircuitBreakerConfig} {session : Session Unit} (request : WireRequest)
    (admitted : (admission cfg unanswering session).1 = true) :
    Rested cfg (afterSleep (afterAttempt cfg unanswering request session)) := by
  intro enabled opened
  have check : allowCall cfg (unanswering.now session.ticks) session.breaker =
      (true, (admission cfg unanswering session).2) := Prod.ext admitted rfl
  have running : (admission cfg unanswering session).2.state ≠ .kOpen := by
    rw [allowCall_during enabled check]
    split
    · exact nofun
    · assumption
  let failed := recordFailure cfg (unanswering.now (session.ticks + 2)) (admission cfg unanswering session).2
  have restarted : failed.openedAt = unanswering.now (session.ticks + 2) :=
    recordFailure_openedAt enabled running opened
  change failed.openedAt + (intMax + 1) * 1000000 ≤ unanswering.now (session.ticks + 3)
  rw [restarted]
  simp only [unanswering, intMax]
  push_cast
  omega

private theorem unanswering_run {ν : Type} (json : Nlohmann ν) (policy : RetryPolicy) {cfg : CircuitBreakerConfig}
    (duration : InInt cfg.openDurationMs) (request : WireRequest) (session : Session Unit)
    (rested : Rested cfg session) :
    let ran := runWithRetry json policy cfg unanswering request session
    (∀ refusal, Event.refused refusal ∉ ran.events) ∧ ∀ attempt ∈ attempts ran.events, attempt.result = none := by
  revert rested
  refine retryLoop_rule (motive := fun session ran => Rested cfg session →
    (∀ refusal, Event.refused refusal ∉ ran.events) ∧ ∀ attempt ∈ attempts ran.events, attempt.result = none)
    ?refusal ?answer ?exhausted ?again 0 (totalAttempts_pos policy) session
  case refusal =>
    intro session refused rested
    rw [rested.admitted duration] at refused
    cases refused
  case answer =>
    intro session res _ answered
    cases answered
  case exhausted =>
    intro session _ failed _
    exact ⟨by simp, by simpa using failed⟩
  case again =>
    intro session delay rest admitted failed later _
    obtain ⟨refusals, others⟩ := later (.attempted request admitted)
    refine ⟨by simpa using refusals, ?_⟩
    rw [attempts_attempted, attempts_slept, List.forall_mem_cons]
    exact ⟨failed, others⟩

/-- One health check that is never answered computes the attempt count and every delay. -/
theorem bounds_of_stays_in_int (duration : InInt client.breakerCfg.openDurationMs) (stays : client.StaysInInt) :
    client.retry.maxRetries ≠ intMax ∧
      (client.retry.maxRetries ≤ 0 ∨
        TruncatesToInt (double.round (3 / 2 * roundedDelay client.retry (client.retry.maxRetries - 1).toNat))) := by
  let request : WireRequest :=
    { host := client.host, port := client.port, method := .get, path := ascii "/v1/health" }
  let ran := runWithRetry Nlohmann.text client.retry client.breakerCfg unanswering request { wire := () }
  have values : ∀ value ∈ computedInts client (fun _ => 3 / 2) ⟨.ok ran.response, ran.events⟩, InInt value :=
    stays Unit _ Nlohmann.text unanswering unanswering_monotone unanswering_jittered
      [(fun _ => none, .get (ascii "/v1/health"))] () [] [] _ rfl
  constructor
  · intro extreme
    have total : InInt (client.retry.maxRetries + 1) := values _ List.mem_cons_self
    unfold InInt at total
    omega
  · by_cases retried : client.retry.maxRetries ≤ 0
    · exact .inl retried
    · obtain ⟨admitted, failed⟩ := unanswering_run Nlohmann.text client.retry duration request
        { wire := () } fun _ opened => by cases opened
      have due : (client.retry.maxRetries - 1).toNat < (sleeps ran.events).length := by
        rw [runWithRetry_failed_delays admitted failed, List.length_map, List.length_range]
        unfold totalAttempts
        omega
      refine .inr ((castDelay_in_int_iff ..).mp (values _ (List.mem_cons_of_mem _ (List.mem_append_right _ ?_))))
      exact List.mem_map.mpr ⟨_, List.mem_range.mpr due, rfl⟩

end Configurations

/-- All arithmetic of every run stays within `int` exactly for the policies that have less than
the largest retry count and whose last delay, at the largest jitter, is an `int` as well. The
breaker's configuration has no part in it. -/
theorem stays_in_int_iff (client : HttpTestClient) (ints : client.IntFields)
    (growing : 1 ≤ client.retry.backoffMult) :
    client.StaysInInt ↔
      client.retry.maxRetries ≠ intMax ∧
      (client.retry.maxRetries ≤ 0 ∨
        TruncatesToInt (double.round (3 / 2 * roundedDelay client.retry (client.retry.maxRetries - 1).toNat))) := by
  constructor
  · exact bounds_of_stays_in_int ints.openDurationMs
  · rintro ⟨total, last⟩
    exact stays_in_int_of_bounds ints growing total last

/-- A delay just below the limit that its last product rounds up to. -/
example :
    let policy : RetryPolicy :=
      { maxRetries := 2, baseDelayMs := 1, maxDelayMs := 2147483647, backoffMult := 1431655765 + 1398101 / 4194304 }
    3 / 2 * nominalDelay policy 1 < 2147483648 ∧ castDelay policy 1 (3 / 2) = 2147483648 := by
  decide +kernel

/-- The resilient policy with a breaker stays in range. -/
theorem resilient_stays_in_int :
    let client : HttpTestClient :=
      { host := ascii "localhost", port := 8080, retry := kChaosResilientPolicy,
        breakerCfg := { failureThreshold := 3 } }
    client.StaysInInt := by
  intro client
  have ints : client.IntFields :=
    ⟨by decide, by decide, by decide, by decide, by decide, by decide⟩
  have growing : 1 ≤ client.retry.backoffMult := by norm_num [client, kChaosResilientPolicy]
  refine (stays_in_int_iff client ints growing).mpr ⟨by decide, .inr ?_⟩
  have retries : (client.retry.maxRetries - 1).toNat = 2 := rfl
  have second : double.round 800 = 800 := by exact_mod_cast double_int (by decide : InInt 800)
  have third : double.round 1600 = 1600 := by exact_mod_cast double_int (by decide : InInt 1600)
  have longest : double.round 2400 = 2400 := by exact_mod_cast double_int (by decide : InInt 2400)
  have delay : roundedDelay client.retry 2 = 1600 := by
    norm_num [client, roundedDelay, Rounding.cappedGrowth, Rounding.growth, kChaosResilientPolicy, second, third]
  rw [retries, delay]
  norm_num [TruncatesToInt, intMax, longest]

/-- The largest retry count overflows the attempt count, and the largest delays the cast. -/
theorem extreme_policies_overflow :
    let counting : HttpTestClient :=
      { host := ascii "localhost", port := 8080, retry := { maxRetries := 2147483647 } }
    let sleeping : HttpTestClient :=
      { host := ascii "localhost", port := 8080,
        retry := { maxRetries := 1, baseDelayMs := 2147483647, maxDelayMs := 2147483647 } }
    (counting.IntFields ∧ 1 ≤ counting.retry.backoffMult ∧ ¬ counting.StaysInInt) ∧
      (sleeping.IntFields ∧ 1 ≤ sleeping.retry.backoffMult ∧ ¬ sleeping.StaysInInt) := by
  intro counting sleeping
  refine ⟨⟨⟨by decide, by decide, by decide, by decide, by decide, by decide⟩, by norm_num [counting], ?_⟩,
    ⟨⟨by decide, by decide, by decide, by decide, by decide, by decide⟩, by norm_num [sleeping], ?_⟩⟩
  · intro stays
    exact (bounds_of_stays_in_int (by decide) stays).1 rfl
  · intro stays
    rcases (bounds_of_stays_in_int (by decide) stays).2 with none | last
    · exact absurd none (by decide)
    · have retries : (sleeping.retry.maxRetries - 1).toNat = 0 := rfl
      have delay : roundedDelay sleeping.retry 0 = 2147483647 := by
        norm_num [sleeping, roundedDelay, Rounding.cappedGrowth, Rounding.growth]
      have limit : double.round 3221225470 = 3221225470 := by
        exact_mod_cast double_intCast (by decide : |(3221225470 : ℤ)| < 2 ^ 53)
      have longest : double.round 3221225470 ≤ double.round (3 / 2 * 2147483647) := double.mono (by norm_num)
      rw [retries, delay] at last
      have below := last.2
      norm_num [intMax] at below
      linarith

end Charybdis.Client
