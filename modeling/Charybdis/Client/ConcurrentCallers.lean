import Charybdis.Client.CircuitBreaker
import Charybdis.Foundation.Execution

/-! Any number of callers around one breaker. Its methods are atomic, but between the
admission of an attempt and the recording of its outcome the lock is free. -/

namespace Charybdis.Client

open Foundation

variable {Caller : Type} [DecidableEq Caller]

inductive CallerAction (Caller : Type) where
  | allowCall (caller : Caller) (now : Int)
  | recordSuccess (caller : Caller)
  | recordFailure (caller : Caller) (now : Int)

/-- The breaker and its callers. A caller is idle or has one admitted attempt, marked with
the period it was admitted in: a period begins each time the breaker leaves OPEN. -/
structure World (Caller : Type) where
  breaker : CircuitBreaker := {}
  clock : Int
  period : Nat := 0
  pending : Caller → Option Nat := fun _ => none

namespace World

/-- The breaker has moved, and a new period has begun if it left OPEN. -/
def move (world : World Caller) (breaker : CircuitBreaker) (clock : Int) : World Caller :=
  { world with
    breaker, clock
    period := if world.breaker.state = .kOpen ∧ breaker.state ≠ .kOpen then world.period + 1 else world.period }

def enter (world : World Caller) (caller : Caller) : World Caller :=
  { world with pending := Function.update world.pending caller (some world.period) }

def release (world : World Caller) (caller : Caller) : World Caller :=
  { world with pending := Function.update world.pending caller none }

end World

/-- One method call of one caller: an idle caller asks, and one that was admitted records. -/
inductive CallerStep (cfg : CircuitBreakerConfig) : World Caller → CallerAction Caller → World Caller → Prop where
  | admitted {caller : Caller} {now : Int} {breaker : CircuitBreaker}
      (idle : world.pending caller = none) (later : world.clock ≤ now)
      (check : Client.allowCall cfg now world.breaker = (true, breaker)) :
      CallerStep cfg world (.allowCall caller now) ((world.move breaker now).enter caller)
  | refused (idle : world.pending caller = none) (later : world.clock ≤ now)
      (check : Client.allowCall cfg now world.breaker = (false, breaker)) :
      CallerStep cfg world (.allowCall caller now) (world.move breaker now)
  | succeeded (attempt : world.pending caller = some period) :
      CallerStep cfg world (.recordSuccess caller)
        ((world.move (Client.recordSuccess cfg world.breaker) world.clock).release caller)
  | failed {caller : Caller} {now : Int} (attempt : world.pending caller = some period) (later : world.clock ≤ now) :
      CallerStep cfg world (.recordFailure caller now)
        ((world.move (Client.recordFailure cfg now world.breaker) now).release caller)

/-- In HALF_OPEN at most one attempt admitted since the breaker last left OPEN is unrecorded. -/
def SingleProbe (world : World Caller) : Prop :=
  world.breaker.state = .kHalfOpen → ∀ first second,
    world.pending first = some world.period → world.pending second = some world.period → first = second

/-- An admission check in HALF_OPEN while the probe of this period is still out. -/
def Crowds (world : World Caller) (action : CallerAction Caller) : Prop :=
  (∃ caller now, action = .allowCall caller now) ∧ world.breaker.state = .kHalfOpen ∧
    ∃ other, world.pending other = some world.period

/-! ### What the methods do to the state -/

section Methods

variable {cfg : CircuitBreakerConfig} (enabled : 0 < cfg.failureThreshold)
include enabled

theorem recordSuccess_state (breaker : CircuitBreaker) :
    ((recordSuccess cfg breaker).state = .kOpen ↔ breaker.state = .kOpen) ∧
      ((recordSuccess cfg breaker).state = .kHalfOpen → breaker.state = .kHalfOpen) := by
  have on : ¬ cfg.failureThreshold ≤ 0 := by omega
  unfold recordSuccess
  rw [if_neg on]
  by_cases probing : breaker.state = .kHalfOpen
  · rw [if_pos probing]
    split <;> simp [probing]
  · rw [if_neg probing]
    exact ⟨Iff.rfl, id⟩

theorem recordFailure_state (now : Int) (breaker : CircuitBreaker) :
    (breaker.state = .kOpen → (recordFailure cfg now breaker).state = .kOpen) ∧
      (recordFailure cfg now breaker).state ≠ .kHalfOpen := by
  have on : ¬ cfg.failureThreshold ≤ 0 := by omega
  unfold recordFailure
  rw [if_neg on]
  by_cases probing : breaker.state = .kHalfOpen
  · simp [probing]
  · rw [if_neg probing]
    split
    · simp
    · exact ⟨id, probing⟩

end Methods

/-! ### One step -/

/-- No attempt is from a period to come, and at most one is a probe of this one. -/
structure Orderly (world : World Caller) : Prop where
  known : ∀ caller period, world.pending caller = some period → period ≤ world.period
  single : SingleProbe world

section Steps

variable {world next : World Caller} {cfg : CircuitBreakerConfig} 

omit [DecidableEq Caller] in
private theorem move_same (world : World Caller) (breaker : CircuitBreaker) (clock : Int)
    (still : world.breaker.state = .kOpen → breaker.state = .kOpen) :
    (world.move breaker clock).period = world.period := by
  simp only [World.move, ite_eq_right_iff, and_imp]
  exact fun opened left => absurd (still opened) left

private theorem Orderly.release (orderly : Orderly world) (caller : Caller) : Orderly (world.release caller) := by
  have kept {other : Caller} {period : Nat} (pending : (world.release caller).pending other = some period) :
      world.pending other = some period := by
    by_cases same : other = caller
    · simp [World.release, same] at pending
    · simpa [World.release, same] using pending
  refine ⟨fun other period pending => orderly.known other period (kept pending), ?_⟩
  intro probing first second early late
  exact orderly.single probing first second (kept early) (kept late)

omit [DecidableEq Caller] in
private theorem Orderly.move (orderly : Orderly world) {breaker : CircuitBreaker} (clock : Int)
    (still : world.breaker.state = .kOpen → breaker.state = .kOpen)
    (probing : breaker.state = .kHalfOpen → world.breaker.state = .kHalfOpen) :
    Orderly (world.move breaker clock) := by
  have same := move_same world breaker clock still
  refine ⟨fun caller period pending => same ▸ orderly.known caller period pending, ?_⟩
  intro halfOpen first second early late
  rw [same] at early late
  exact orderly.single (probing halfOpen) first second early late

private theorem Orderly.enter (orderly : Orderly world) (caller : Caller)
    (alone : world.breaker.state = .kHalfOpen → ∀ other, world.pending other ≠ some world.period) :
    Orderly (world.enter caller) := by
  constructor
  · intro other period pending
    by_cases same : other = caller
    · simp only [World.enter, same, Function.update_self, Option.some.injEq] at pending
      exact pending.ge
    · exact orderly.known other period (by simpa [World.enter, same] using pending)
  · intro probing
    have only (other : Caller) (pending : (world.enter caller).pending other = some world.period) :
        other = caller := by
      by_contra different
      exact alone probing other (by simpa [World.enter, different] using pending)
    intro first second early late
    exact (only first early).trans (only second late).symm

omit [DecidableEq Caller] in
private theorem move_allowCall (enabled : 0 < cfg.failureThreshold)
    (check : allowCall cfg now world.breaker = (allowed, breaker)) :
    (world.move breaker now = { world with clock := now }) ∨
    (allowed = true ∧ world.breaker.state = .kOpen ∧ breaker.state = .kHalfOpen ∧
      world.move breaker now = { world with breaker, clock := now, period := world.period + 1 }) := by
  rcases allowCall_cases enabled now world.breaker with ⟨_, result⟩ | ⟨opened, _, result⟩ | ⟨_, _, result⟩
  · rw [result] at check
    cases check
    exact .inl (by simp [World.move])
  · rw [result] at check
    cases check
    exact .inr ⟨rfl, opened, rfl, by simp [World.move, opened]⟩
  · rw [result] at check
    cases check
    exact .inl (by simp [World.move])

theorem Orderly.step (enabled : 0 < cfg.failureThreshold) {action : CallerAction Caller}
    (orderly : Orderly world) (step : CallerStep cfg world action next) (spread : ¬ Crowds world action) :
    Orderly next := by
  cases step with
  | @admitted _ caller now breaker idle later check =>
    rcases move_allowCall enabled check with moved | ⟨_, _, _, moved⟩
    · rw [moved]
      have timed : Orderly { world with clock := now } := ⟨orderly.known, orderly.single⟩
      apply timed.enter
      intro probing other pending
      exact spread ⟨⟨caller, now, rfl⟩, probing, other, pending⟩
    · -- a new period: every attempt still out is from an older one
      rw [moved]
      have older (other : Caller) : world.pending other ≠ some (world.period + 1) := by
        intro pending
        exact absurd (orderly.known other _ pending) (Nat.not_succ_le_self world.period)
      have fresh : Orderly { world with breaker, clock := now, period := world.period + 1 } :=
        ⟨fun other period pending => (orderly.known other period pending).trans (Nat.le_succ _),
          fun _ first _ early _ => absurd early (older first)⟩
      exact fresh.enter caller fun _ other => older other
  | refused idle later check =>
    rcases move_allowCall enabled check with moved | ⟨allowed, _⟩
    · rw [moved]
      exact ⟨orderly.known, orderly.single⟩
    · cases allowed
  | succeeded attempt =>
    obtain ⟨opened, probing⟩ := recordSuccess_state enabled world.breaker
    exact (orderly.move _ opened.mpr probing).release _
  | @failed _ _ caller now attempt later =>
    obtain ⟨opened, closed⟩ := recordFailure_state enabled now world.breaker
    exact (orderly.move _ opened fun probing => absurd probing closed).release _

theorem CallerStep.crowded (enabled : 0 < cfg.failureThreshold) {action : CallerAction Caller}
    (step : CallerStep cfg world action next) (crowds : Crowds world action) : ¬ SingleProbe next := by
  obtain ⟨⟨caller, now, same⟩, probing, other, pending⟩ := crowds
  subst same
  have running : world.breaker.state ≠ .kOpen := by simp [probing]
  have admitted : allowCall cfg now world.breaker = (true, world.breaker) := by
    rcases allowCall_cases enabled now world.breaker with ⟨_, result⟩ | ⟨opened, _⟩ | ⟨opened, _⟩
    · exact result
    · exact absurd opened running
    · exact absurd opened running
  intro single
  cases step with
  | admitted idle later check =>
    cases admitted.symm.trans check
    have different : other ≠ caller := by
      intro same
      rw [same, idle] at pending
      cases pending
    have crowd := single (by simpa [World.enter, World.move] using probing) other caller
      (by simpa [World.enter, World.move, different, running] using pending)
      (by simp [World.enter])
    exact different crowd
  | refused idle later check => cases admitted.symm.trans check

end Steps

/-- However its callers interleave, a breaker has one probe at a time as long as none of them
asks in HALF_OPEN while an attempt admitted since OPEN is still out; the first that does is
admitted beside it. -/
theorem single_probe_unless_crowded {Caller : Type} [DecidableEq Caller] (cfg : CircuitBreakerConfig)
    (enabled : 0 < cfg.failureThreshold) (clock : Int) :
    (∀ (actions : List (CallerAction Caller)) (world : World Caller),
      Execution (fun world action next => CallerStep cfg world action next ∧ ¬ Crowds world action)
        { clock } actions world → SingleProbe world) ∧
    ∀ (world next : World Caller) (action : CallerAction Caller),
      CallerStep cfg world action next → Crowds world action → ¬ SingleProbe next := by
  constructor
  · intro actions world run
    have initial : Orderly ({ clock } : World Caller) := by
      refine ⟨?_, ?_⟩
      · intro caller period pending
        cases pending
      · intro probing
        cases probing
    exact (run.invariant (fun orderly both => orderly.step enabled both.1 both.2) initial).single
  · intro world next action step crowds
    exact step.crowded enabled crowds

/-- The documented use of one client by one thread never crowds its breaker. -/
theorem single_caller_never_crowds {Caller : Type} [DecidableEq Caller] [Subsingleton Caller]
    {cfg : CircuitBreakerConfig} {world next : World Caller} {action : CallerAction Caller}
    (step : CallerStep cfg world action next) : ¬ Crowds world action := by
  intro ⟨⟨caller, now, same⟩, _, other, pending⟩
  subst same
  rw [Subsingleton.elim other caller] at pending
  cases step with
  | admitted idle _ _ => cases idle.symm.trans pending
  | refused idle _ _ => cases idle.symm.trans pending

/-! ### Two callers -/

/-- A breaker that opens on the first failure. -/
def touchy : CircuitBreakerConfig := { failureThreshold := 1 }

/-- The ten seconds of its open duration. -/
def reopening : Int := 10000000000

/-- One caller's failure opens the breaker; once the wait is over, both callers are admitted. -/
theorem two_callers_probe_at_once :
    ∃ (actions : List (CallerAction Bool)) (world : World Bool),
      Execution (CallerStep touchy) { clock := 0 } actions world ∧ ¬ SingleProbe world := by
  refine ⟨[.allowCall false 0, .recordFailure false 0, .allowCall false reopening, .allowCall true reopening], ?_⟩
  apply Exists.intro
  constructor
  · apply Execution.more (.admitted rfl le_rfl rfl)
    apply Execution.more (.failed rfl le_rfl)
    apply Execution.more (.admitted rfl (by decide) rfl)
    exact .single (.admitted rfl le_rfl rfl)
  · intro single
    have same : false = true := single rfl false true rfl rfl
    cases same

/-- A caller that waits for the outcome of the probe before it asks is the only probe. -/
theorem patient_caller_probes_alone :
    ∃ world : World Bool, world.breaker.state = .kHalfOpen ∧ world.pending true = some world.period ∧
      SingleProbe world := by
  obtain ⟨world, run, probing, out⟩ : ∃ world : World Bool,
      Execution (fun world action next => CallerStep touchy world action next ∧ ¬ Crowds world action)
        { clock := 0 }
        [.allowCall false 0, .recordFailure false 0, .allowCall false reopening, .recordSuccess false,
          .allowCall true reopening] world ∧
      world.breaker.state = .kHalfOpen ∧ world.pending true = some world.period := by
    apply Exists.intro
    constructor
    · apply Execution.more ⟨.admitted rfl le_rfl rfl, fun ⟨_, probing, _⟩ => nomatch probing⟩
      apply Execution.more ⟨.failed rfl le_rfl, fun ⟨⟨_, _, same⟩, _⟩ => nomatch same⟩
      apply Execution.more ⟨.admitted rfl (by decide) rfl, fun ⟨_, probing, _⟩ => nomatch probing⟩
      apply Execution.more ⟨.succeeded rfl, fun ⟨⟨_, _, same⟩, _⟩ => nomatch same⟩
      refine .single ⟨.admitted rfl le_rfl rfl, ?_⟩
      intro ⟨_, _, other, pending⟩
      cases other <;> cases pending
    · exact ⟨rfl, rfl⟩
  exact ⟨world, probing, out, (single_probe_unless_crowded touchy (by decide) 0).1 _ world run⟩

end Charybdis.Client
