import Charybdis.Client.RetryEnvelope

/-! The backoff sleeps of a call in exact arithmetic: the value of each, the growth of the
schedule behind them, and how long a call that fails throughout sleeps in total. -/

namespace Charybdis.Client

open Foundation

/-! ### Capped growth -/

section Growth

variable {α : Type} [Field α] [LinearOrder α] [IsStrictOrderedRing α]

/-- Geometric growth up to a cap. -/
def cappedGrowth (start factor cap : α) (step : Nat) : α := min (start * factor ^ step) cap

omit [IsStrictOrderedRing α] in
theorem cappedGrowth_le (start factor cap : α) (step : Nat) : cappedGrowth start factor cap step ≤ cap :=
  min_le_right _ _

theorem cappedGrowth_mono {start factor : α} (nonneg : 0 ≤ start) (growing : 1 ≤ factor) (cap : α) :
    Monotone (cappedGrowth start factor cap) := by
  intro earlier later before
  have power : factor ^ earlier ≤ factor ^ later := pow_le_pow_right₀ growing before
  exact min_le_min_right cap (mul_le_mul_of_nonneg_left power nonneg)

theorem cappedGrowth_nonneg {start factor cap : α} (nonneg : 0 ≤ start) (growing : 1 ≤ factor) (positive : 0 ≤ cap)
    (step : Nat) : 0 ≤ cappedGrowth start factor cap step :=
  le_min (mul_nonneg nonneg (pow_nonneg (zero_le_one.trans growing) step)) positive

/-- Capped growth moves away from zero only, whatever the signs of its start and cap. -/
theorem cappedGrowth_outward (start : α) {factor : α} (growing : 1 ≤ factor) (cap : α) {earlier later : Nat}
    (before : earlier ≤ later) :
    (0 ≤ cappedGrowth start factor cap earlier ∧
      cappedGrowth start factor cap earlier ≤ cappedGrowth start factor cap later) ∨
    (cappedGrowth start factor cap later ≤ cappedGrowth start factor cap earlier ∧
      cappedGrowth start factor cap earlier ≤ 0) := by
  have positive : ∀ step, 0 < factor ^ step := fun step => pow_pos (zero_lt_one.trans_le growing) step
  have power : factor ^ earlier ≤ factor ^ later := pow_le_pow_right₀ growing before
  rcases le_total 0 start with nonneg | negative
  · rcases le_total 0 cap with above | below
    · exact .inl ⟨cappedGrowth_nonneg nonneg growing above earlier, cappedGrowth_mono nonneg growing cap before⟩
    · -- the cap is below every product
      have flat (step : Nat) : cappedGrowth start factor cap step = cap :=
        min_eq_right (below.trans (mul_nonneg nonneg (positive step).le))
      rw [flat, flat]
      exact .inr ⟨le_rfl, below⟩
  · refine .inr ⟨min_le_min_right cap (mul_le_mul_of_nonpos_left power negative), ?_⟩
    exact (min_le_left _ _).trans (mul_nonpos_of_nonpos_of_nonneg negative (positive earlier).le)

end Growth

/-! ### One sleep -/

/-- The delay after failed attempt number `attempt`, before the jitter. -/
def nominalDelay (policy : RetryPolicy) (attempt : Nat) : ℚ :=
  cappedGrowth policy.baseDelayMs policy.backoffMult policy.maxDelayMs attempt

theorem scaledDelay_eq (policy : RetryPolicy) (attempt : Nat) :
    scaledDelay policy attempt = policy.baseDelayMs * policy.backoffMult ^ attempt := by
  induction attempt with
  | zero => simp [scaledDelay]
  | succ attempt ih => rw [scaledDelay, ih, pow_succ, mul_assoc]

/-- The policies the schedule is about. -/
structure RetryPolicy.Sane (policy : RetryPolicy) : Prop where
  base : 0 ≤ policy.baseDelayMs
  cap : 0 ≤ policy.maxDelayMs
  growing : 1 ≤ policy.backoffMult

theorem RetryPolicy.Sane.nominal_nonneg {policy : RetryPolicy} (sane : policy.Sane) (attempt : Nat) :
    0 ≤ nominalDelay policy attempt :=
  cappedGrowth_nonneg (by exact_mod_cast sane.base) sane.growing (by exact_mod_cast sane.cap) attempt

theorem backoffDelay_eq_floor {policy : RetryPolicy} (sane : policy.Sane) (attempt : Nat) {jitter : ℚ}
    (positive : 0 ≤ jitter) : backoffDelay policy attempt jitter = ⌊jitter * nominalDelay policy attempt⌋ := by
  have nonneg : 0 ≤ jitter * nominalDelay policy attempt := mul_nonneg positive (sane.nominal_nonneg attempt)
  have product : min (scaledDelay policy attempt) policy.maxDelayMs * jitter =
      jitter * nominalDelay policy attempt := by
    rw [scaledDelay_eq, mul_comm, nominalDelay, cappedGrowth]
  rw [backoffDelay, product, Rat.floor_def']
  exact Int.tdiv_eq_ediv_of_nonneg (Rat.num_nonneg.mpr nonneg)

/-! ### The sleeps of a call -/

/-- Backoff sleeps of a trace, in order. -/
def sleeps (events : List Event) : List Int :=
  events.filterMap fun
    | .slept milliseconds => some milliseconds
    | _ => none

@[simp] theorem sleeps_append (first second : List Event) :
    sleeps (first ++ second) = sleeps first ++ sleeps second := by
  simp [sleeps]

@[simp] theorem sleeps_attempted (attempt : Attempt) (rest : List Event) :
    sleeps (.attempted attempt :: rest) = sleeps rest := rfl

@[simp] theorem sleeps_slept (milliseconds : Int) (rest : List Event) :
    sleeps (.slept milliseconds :: rest) = milliseconds :: sleeps rest := rfl

@[simp] theorem sleeps_nil : sleeps [] = [] := rfl

private theorem sleeps_withSleeps {policy : RetryPolicy} {jitter : Nat → ℚ} (index k : Nat) {made : List Attempt}
    (failed : ∀ attempt ∈ made.dropLast, attempt.result = none) (due : index + made.length ≤ total)
    (place : (sleeps (withSleeps policy jitter total index made))[k]? = some delay) :
    index + k + 1 < total ∧ delay = backoffDelay policy (index + k) (jitter (index + k)) := by
  induction made generalizing index k with
  | nil => simp [withSleeps] at place
  | cons attempt rest ih =>
    rw [withSleeps] at place
    split at place
    · rename_i silent
      have last : rest = [] := by
        cases rest with
        | nil => rfl
        | cons next rest =>
          have failure := failed attempt (by simp)
          rcases silent with answered | final
          · simp [Attempt.succeeded, failure] at answered
          · simp only [List.length_cons] at due
            omega
      simp [last, withSleeps] at place
    · rename_i more
      cases k with
      | zero =>
        simp only [List.length_cons, not_or] at due more
        exact ⟨by omega, by simpa using place.symm⟩
      | succ k =>
        rw [show index + (k + 1) = index + 1 + k by omega]
        refine ih (index + 1) k ?_ ?_ (by simpa using place)
        · intro other member
          cases rest with
          | nil => cases member
          | cons next rest => exact failed other (List.mem_cons_of_mem _ member)
        · simp only [List.length_cons] at due
          omega

private theorem sleeps_of_failed {policy : RetryPolicy} {jitter : Nat → ℚ} (index : Nat) {made : List Attempt}
    (failed : ∀ attempt ∈ made, attempt.result = none) :
    sleeps (withSleeps policy jitter (index + made.length) index made) =
      (List.range (made.length - 1)).map fun k => backoffDelay policy (index + k) (jitter (index + k)) := by
  induction made generalizing index with
  | nil => rfl
  | cons attempt rest ih =>
    obtain ⟨own, others⟩ := List.forall_mem_cons.mp failed
    cases rest with
    | nil => simp [withSleeps]
    | cons next rest =>
      have later := ih (index + 1) others
      rw [show index + 1 + (next :: rest).length = index + (attempt :: next :: rest).length by
        simp only [List.length_cons]; omega] at later
      have more : ¬ (attempt.succeeded = true ∨ index + 1 = index + (attempt :: next :: rest).length) := by
        simp [Attempt.succeeded, own]
      rw [withSleeps, if_neg more]
      simp only [List.cons_append, List.nil_append, sleeps_attempted, sleeps_slept, later]
      simp only [List.length_cons, Nat.add_sub_cancel, List.range_succ_eq_map, List.map_cons, List.map_map,
        Nat.add_zero]
      congr 1
      apply List.map_congr_left
      intro k _
      simp only [Function.comp_apply]
      rw [show index + 1 + k = index + (k + 1) by omega]

/-! ### The sleeps of a run -/

section Run

variable {ω ν : Type} {json : Nlohmann ν} {policy : RetryPolicy} {cfg : CircuitBreakerConfig}
  {around : Surroundings ω} {request : WireRequest} {session : Session ω}

/-- The jitter source keeps to the range of its distribution. -/
def Surroundings.Jittered (around : Surroundings ω) : Prop :=
  ∀ draw, 1 / 2 ≤ around.jitter draw ∧ around.jitter draw ≤ 3 / 2

private theorem Ending.sleeps_tail {response : Response ν} {tail : List Event}
    (ending : Ending json cfg total made response tail) : sleeps tail = [] := by
  cases ending <;> rfl

private theorem Ending.length_eq {response : Response ν} {tail : List Event}
    (ending : Ending json cfg total made response tail) (failed : ∀ attempt ∈ made, attempt.result = none)
    (admitted : ∀ refusal, Event.refused refusal ∉ tail) : made.length = total := by
  cases ending with
  | @answered res last earlier _ response _ all =>
    rw [failed last (by simp [all])] at response
    cases response
  | exhausted _ all => exact all
  | refused _ _ _ => exact absurd List.mem_cons_self (admitted _)

theorem runWithRetry_delay
    (place : (sleeps (runWithRetry json policy cfg around request session).events)[k]? = some delay) :
    k + 1 < totalAttempts policy ∧ delay = backoffDelay policy k (around.jitter (session.draws + k)) := by
  obtain ⟨tail, events, ending⟩ := retryLoop_shape json policy cfg around request 0 (totalAttempts_pos policy) session
    (fun index => around.jitter (session.draws + index)) fun index => by rw [Nat.zero_add]
  rw [runWithRetry, events, sleeps_append, ending.sleeps_tail, List.append_nil, Nat.zero_add] at place
  simpa only [Nat.zero_add] using
    sleeps_withSleeps 0 k ending.failed_dropLast (by simpa using ending.length_le) place

/-- Every sleep of a call is the integer part of its jittered delay. -/
theorem runWithRetry_sleep (sane : policy.Sane) (jittered : around.Jittered)
    (place : (sleeps (runWithRetry json policy cfg around request session).events)[k]? = some delay) :
    delay = ⌊around.jitter (session.draws + k) * nominalDelay policy k⌋ := by
  have positive : 0 ≤ around.jitter (session.draws + k) := le_trans (by norm_num) (jittered _).1
  rw [(runWithRetry_delay place).2, backoffDelay_eq_floor sane k positive]

/-- A call that the breaker lets through to its last attempt, and whose attempts all fail, sleeps
once for each retry. -/
theorem runWithRetry_failed_delays
    (admitted : ∀ refusal, Event.refused refusal ∉ (runWithRetry json policy cfg around request session).events)
    (failed : ∀ attempt ∈ attempts (runWithRetry json policy cfg around request session).events,
      attempt.result = none) :
    sleeps (runWithRetry json policy cfg around request session).events =
      (List.range (totalAttempts policy - 1)).map fun k =>
        backoffDelay policy k (around.jitter (session.draws + k)) := by
  obtain ⟨tail, events, ending⟩ := retryLoop_shape json policy cfg around request 0 (totalAttempts_pos policy) session
    (fun index => around.jitter (session.draws + index)) fun index => by rw [Nat.zero_add]
  rw [runWithRetry] at admitted failed ⊢
  generalize retryLoop json policy cfg around request 0 (totalAttempts policy) session = ran at *
  have all : (attempts ran.events).length = totalAttempts policy := by
    refine ending.length_eq failed fun refusal member => admitted refusal ?_
    rw [events]
    exact List.mem_append_right _ member
  rw [events, sleeps_append, ending.sleeps_tail, List.append_nil, ← all, sleeps_of_failed 0 failed]
  simp only [Nat.zero_add]

theorem runWithRetry_failed_sleeps (sane : policy.Sane) (jittered : around.Jittered)
    (admitted : ∀ refusal, Event.refused refusal ∉ (runWithRetry json policy cfg around request session).events)
    (failed : ∀ attempt ∈ attempts (runWithRetry json policy cfg around request session).events,
      attempt.result = none) :
    sleeps (runWithRetry json policy cfg around request session).events =
      (List.range (totalAttempts policy - 1)).map fun k =>
        ⌊around.jitter (session.draws + k) * nominalDelay policy k⌋ := by
  rw [runWithRetry_failed_delays admitted failed]
  apply List.map_congr_left
  intro k _
  exact backoffDelay_eq_floor sane k (le_trans (by norm_num) (jittered _).1)

private theorem sum_map_range (value : Nat → Int) (count : Nat) :
    ((((List.range count).map value).sum : Int) : ℚ) = ∑ k ∈ Finset.range count, (value k : ℚ) := by
  induction count with
  | zero => rfl
  | succ count ih =>
    rw [List.range_succ, List.map_append, List.sum_append, Int.cast_add, ih, Finset.sum_range_succ]
    simp

/-- The schedule of a sane policy: every sleep is the integer part of its jittered delay, the
delays grow up to the cap, and a call that fails throughout sleeps at least half of every delay,
less a millisecond each, and at most one and a half times the cap for each retry. -/
theorem backoff_schedule (json : Nlohmann ν) (cfg : CircuitBreakerConfig) (request : WireRequest) (session : Session ω)
    (sane : policy.Sane) (jittered : around.Jittered) :
    let nominal (k : Nat) : ℚ := min (policy.baseDelayMs * policy.backoffMult ^ k) policy.maxDelayMs
    let ran := runWithRetry json policy cfg around request session
    (∀ k jitter, 1 / 2 ≤ jitter → jitter ≤ 3 / 2 → backoffDelay policy k jitter = ⌊jitter * nominal k⌋) ∧
    (∀ k delay, (sleeps ran.events)[k]? = some delay →
      delay = ⌊around.jitter (session.draws + k) * nominal k⌋) ∧
    (∀ k, nominal k ≤ nominal (k + 1) ∧ nominal k ≤ policy.maxDelayMs) ∧
    (0 ≤ policy.maxRetries → (∀ refusal, Event.refused refusal ∉ ran.events) →
      (∀ attempt ∈ attempts ran.events, attempt.result = none) →
      ∑ k ∈ Finset.range policy.maxRetries.toNat, 1 / 2 * nominal k - policy.maxRetries ≤ (sleeps ran.events).sum ∧
        ((sleeps ran.events).sum : ℚ) ≤ 3 / 2 * policy.maxDelayMs * policy.maxRetries) := by
  intro nominal ran
  refine ⟨?_, fun k delay place => runWithRetry_sleep sane jittered place, ?_, ?_⟩
  · intro k jitter low _
    exact backoffDelay_eq_floor sane k (le_trans (by norm_num) low)
  · intro k
    exact ⟨cappedGrowth_mono (by exact_mod_cast sane.base) sane.growing _ (Nat.le_succ k), cappedGrowth_le ..⟩
  · intro positive admitted failed
    have count : totalAttempts policy - 1 = policy.maxRetries.toNat := by
      unfold totalAttempts
      omega
    have retries : ((policy.maxRetries.toNat : Nat) : ℚ) = policy.maxRetries := by
      exact_mod_cast Int.toNat_of_nonneg positive
    have total : ((sleeps ran.events).sum : ℚ) = ∑ k ∈ Finset.range policy.maxRetries.toNat,
        ((⌊around.jitter (session.draws + k) * nominal k⌋ : Int) : ℚ) := by
      rw [← sum_map_range, ← count]
      exact congrArg (fun sum : Int => (sum : ℚ))
        (congrArg List.sum (runWithRetry_failed_sleeps sane jittered admitted failed))
    have nonneg (k : Nat) : 0 ≤ nominal k := sane.nominal_nonneg k
    rw [total]
    constructor
    · calc ∑ k ∈ Finset.range policy.maxRetries.toNat, 1 / 2 * nominal k - policy.maxRetries
          = ∑ k ∈ Finset.range policy.maxRetries.toNat, (1 / 2 * nominal k - 1) := by
            rw [Finset.sum_sub_distrib, Finset.sum_const, Finset.card_range, nsmul_one, retries]
        _ ≤ _ := by
            refine Finset.sum_le_sum fun k _ => ?_
            have low := mul_le_mul_of_nonneg_right (jittered (session.draws + k)).1 (nonneg k)
            have rounded := Int.sub_one_lt_floor (around.jitter (session.draws + k) * nominal k)
            linarith
    · calc ∑ k ∈ Finset.range policy.maxRetries.toNat,
            ((⌊around.jitter (session.draws + k) * nominal k⌋ : Int) : ℚ)
          ≤ ∑ _k ∈ Finset.range policy.maxRetries.toNat, 3 / 2 * (policy.maxDelayMs : ℚ) := by
            refine Finset.sum_le_sum fun k _ => ?_
            have high := mul_le_mul_of_nonneg_right (jittered (session.draws + k)).2 (nonneg k)
            have capped : nominal k ≤ policy.maxDelayMs := min_le_right _ _
            have rounded := Int.floor_le (around.jitter (session.draws + k) * nominal k)
            linarith
        _ = 3 / 2 * policy.maxDelayMs * policy.maxRetries := by
            rw [Finset.sum_const, Finset.card_range, nsmul_eq_mul, retries, mul_comm]

end Run

/-- The resilient policy on a dead network waits out the second a restart takes. -/
theorem resilient_policy_outlasts_restart :
    let ran := runWithRetry Nlohmann.text kChaosResilientPolicy {} scripted healthRequest { wire := [] }
    (1397 : ℚ) ≤ (sleeps ran.events).sum ∧ ((sleeps ran.events).sum : ℚ) ≤ 9000 := by
  intro ran
  have sane : kChaosResilientPolicy.Sane := ⟨by decide, by decide, by norm_num [kChaosResilientPolicy]⟩
  have jittered : scripted.Jittered := fun draw => by norm_num [scripted]
  have admitted : ∀ refusal, Event.refused refusal ∉ ran.events := by
    intro refusal member
    change _ ∈ [Event.attempted _, .slept _, .attempted _, .slept _, .attempted _, .slept _, .attempted _] at member
    simp at member
  obtain ⟨low, high⟩ := (backoff_schedule Nlohmann.text {} healthRequest { wire := [] } sane jittered).2.2.2
    (by decide) admitted (by decide)
  constructor
  · have retries : kChaosResilientPolicy.maxRetries.toNat = 3 := rfl
    refine le_trans ?_ low
    rw [retries]
    norm_num [kChaosResilientPolicy, Finset.sum_range_succ]
  · refine high.trans ?_
    norm_num [kChaosResilientPolicy]

end Charybdis.Client
