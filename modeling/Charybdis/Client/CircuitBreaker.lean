import Mathlib

namespace Charybdis.Client

inductive BreakerState where
  | kClosed
  | kOpen
  | kHalfOpen
  deriving DecidableEq

structure CircuitBreakerConfig where
  failureThreshold : Int := 0
  openDurationMs : Int := 10000
  successThreshold : Int := 2

/-- The mutable part of `CircuitBreaker`; `openedAt` is a `steady_clock` reading in nanoseconds. -/
structure CircuitBreaker where
  state : BreakerState := .kClosed
  consecutiveFailures : Int := 0
  halfOpenSuccesses : Int := 0
  openedAt : Int := 0
  deriving DecidableEq

/-- `duration_cast<milliseconds>` of a difference of clock readings. -/
def elapsedMs (now openedAt : Int) : Int := (now - openedAt).tdiv 1000000

/-- Admission check. `now` is the clock at the check; only an open breaker reads it. -/
def allowCall (cfg : CircuitBreakerConfig) (now : Int) (breaker : CircuitBreaker) :
    Bool × CircuitBreaker :=
  if cfg.failureThreshold ≤ 0 then (true, breaker)
  else if breaker.state = .kOpen then
    if elapsedMs now breaker.openedAt ≥ cfg.openDurationMs then
      (true, { breaker with state := .kHalfOpen, halfOpenSuccesses := 0 })
    else (false, breaker)
  else (true, breaker)

def recordSuccess (cfg : CircuitBreakerConfig) (breaker : CircuitBreaker) : CircuitBreaker :=
  if cfg.failureThreshold ≤ 0 then breaker
  else if breaker.state = .kHalfOpen then
    if breaker.halfOpenSuccesses + 1 ≥ cfg.successThreshold then
      { breaker with state := .kClosed, consecutiveFailures := 0, halfOpenSuccesses := 0 }
    else { breaker with halfOpenSuccesses := breaker.halfOpenSuccesses + 1 }
  else { breaker with consecutiveFailures := 0 }

/-- `now` is the clock when the failure is recorded; only an opening reads it. -/
def recordFailure (cfg : CircuitBreakerConfig) (now : Int) (breaker : CircuitBreaker) :
    CircuitBreaker :=
  if cfg.failureThreshold ≤ 0 then breaker
  else if breaker.state = .kHalfOpen then
    { breaker with state := .kOpen, openedAt := now, halfOpenSuccesses := 0 }
  else if breaker.consecutiveFailures + 1 ≥ cfg.failureThreshold then
    { breaker with
      state := .kOpen, openedAt := now, consecutiveFailures := breaker.consecutiveFailures + 1 }
  else { breaker with consecutiveFailures := breaker.consecutiveFailures + 1 }

/-- The wait is over exactly when the whole open duration has passed: the cast
rounds a nonnegative difference down, which never anticipates a millisecond. -/
theorem elapsedMs_ge_iff (later : openedAt ≤ now) :
    elapsedMs now openedAt ≥ duration ↔ duration * 1000000 ≤ now - openedAt := by
  unfold elapsedMs
  rw [Int.tdiv_eq_ediv_of_nonneg (by omega), ge_iff_le, Int.le_ediv_iff_mul_le (by decide)]

section Enabled

variable {cfg : CircuitBreakerConfig} (enabled : 0 < cfg.failureThreshold)
include enabled

theorem allowCall_cases (now : Int) (breaker : CircuitBreaker) :
    (breaker.state ≠ .kOpen ∧ allowCall cfg now breaker = (true, breaker)) ∨
    (breaker.state = .kOpen ∧ elapsedMs now breaker.openedAt ≥ cfg.openDurationMs ∧
      allowCall cfg now breaker =
        (true, { breaker with state := .kHalfOpen, halfOpenSuccesses := 0 })) ∨
    (breaker.state = .kOpen ∧ elapsedMs now breaker.openedAt < cfg.openDurationMs ∧
      allowCall cfg now breaker = (false, breaker)) := by
  have on : ¬ cfg.failureThreshold ≤ 0 := by omega
  by_cases opened : breaker.state = .kOpen
  · by_cases expired : elapsedMs now breaker.openedAt ≥ cfg.openDurationMs
    · exact .inr (.inl ⟨opened, expired, by simp only [allowCall, on, opened, expired, ↓reduceIte]⟩)
    · exact .inr (.inr ⟨opened, by omega, by simp only [allowCall, on, opened, expired, ↓reduceIte]⟩)
  · exact .inl ⟨opened, by simp only [allowCall, on, opened, ↓reduceIte]⟩

/-- The state an admitted attempt runs in: an open breaker lets a probe through. -/
theorem allowCall_during (admitted : allowCall cfg now breaker = (true, during)) :
    during.state = if breaker.state = .kOpen then .kHalfOpen else breaker.state := by
  rcases allowCall_cases enabled now breaker with ⟨closed, result⟩ | ⟨opened, _, result⟩ | ⟨_, _, result⟩
  · rw [result] at admitted
    cases admitted
    rw [if_neg closed]
  · rw [result] at admitted
    cases admitted
    rw [if_pos opened]
  · rw [result] at admitted
    cases admitted

theorem allowCall_refused (refused : allowCall cfg now breaker = (false, after)) :
    breaker.state = .kOpen ∧ elapsedMs now breaker.openedAt < cfg.openDurationMs ∧ after = breaker := by
  rcases allowCall_cases enabled now breaker with ⟨_, result⟩ | ⟨_, _, result⟩ | ⟨opened, early, result⟩
  · rw [result] at refused
    cases refused
  · rw [result] at refused
    cases refused
  · rw [result] at refused
    cases refused
    exact ⟨opened, early, rfl⟩

/-- A failure that leaves the breaker open restarts its timer, provided the attempt
did not already run in the open state. -/
theorem recordFailure_openedAt (running : during.state ≠ .kOpen)
    (opened : (recordFailure cfg now during).state = .kOpen) :
    (recordFailure cfg now during).openedAt = now := by
  have on : ¬ cfg.failureThreshold ≤ 0 := by omega
  unfold recordFailure at opened ⊢
  simp only [on, ↓reduceIte] at opened ⊢
  split
  · rfl
  · rename_i other
    simp only [other, ↓reduceIte] at opened
    split
    · rfl
    · rename_i below
      simp only [below, ↓reduceIte] at opened
      exact absurd opened running

end Enabled

theorem disabled_allowCall (disabled : cfg.failureThreshold ≤ 0) (now : Int) (breaker : CircuitBreaker) :
    allowCall cfg now breaker = (true, breaker) := by
  simp [allowCall, disabled]

end Charybdis.Client
