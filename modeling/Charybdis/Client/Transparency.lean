import Charybdis.Client.BreakerHistory

/-! Two runs of the same calls, one with a breaker and one without. They stay in
lockstep as long as the attempts hold no run of failures long enough to trip it. -/

namespace Charybdis.Client

open Foundation

/-- What the far end and a stopwatch see: requests with their outcomes, and the sleeps. -/
inductive Visible where
  | sent (request : WireRequest) (result : HttpResult)
  | slept (milliseconds : Int)
  deriving DecidableEq

def visible (events : List Event) : List Visible :=
  events.filterMap fun
    | .attempted attempt => some (.sent attempt.request attempt.result)
    | .slept milliseconds => some (.slept milliseconds)
    | .refused _ => none

theorem visible_append (first second : List Event) :
    visible (first ++ second) = visible first ++ visible second := by
  simp [visible]

theorem outcomes_visible (events : List Event) :
    outcomes events = (visible events).filterMap fun
      | .sent _ result => some result.isSome
      | .slept _ => none := by
  induction events with
  | nil => rfl
  | cons event rest ih =>
    cases event <;> simp [outcomes, visible, Attempt.succeeded] at ih ⊢ <;> exact ih

/-- Enough consecutive failures to open a closed breaker. -/
def Tripping (cfg : CircuitBreakerConfig) (outcomes : List Bool) : Prop :=
  List.replicate cfg.failures false <:+: outcomes

theorem Tripping.append (tripping : Tripping cfg history) (later : List Bool) :
    Tripping cfg (history ++ later) :=
  tripping.trans (List.prefix_append history later).isInfix

theorem tripping_of_streak (history : List Bool) (long : cfg.failures ≤ streak not history) :
    Tripping cfg history := by
  obtain ⟨block, inside, size, failed⟩ := exists_block_of_streak history long
  have same : block = List.replicate cfg.failures false :=
    List.eq_replicate_iff.mpr ⟨size, fun outcome member => by simpa using failed outcome member⟩
  rw [same] at inside
  exact inside

/-- The two clients stand at the same point of the same history, the guarded one with
its breaker closed. -/
structure Lockstep (cfg : CircuitBreakerConfig) (history : List Bool) (guarded plain : Session ω) :
    Prop where
  tracks : Tracks cfg guarded.breaker ⟨.kClosed, history⟩
  ticks : guarded.ticks = plain.ticks
  draws : guarded.draws = plain.draws
  wire : guarded.wire = plain.wire

/-- A guarded and a plain computation from one point: either they agree in their result
and in all that is visible, and end in lockstep, or both histories hold a tripping streak. -/
def Alike (cfg : CircuitBreakerConfig) (history : List Bool)
    (guarded plain : ρ × List Event × Session ω) : Prop :=
  (guarded.1 = plain.1 ∧ visible guarded.2.1 = visible plain.2.1 ∧
    Lockstep cfg (history ++ outcomes guarded.2.1) guarded.2.2 plain.2.2) ∨
  (Tripping cfg (history ++ outcomes guarded.2.1) ∧ Tripping cfg (history ++ outcomes plain.2.1))

/-- Steps that look the same, followed by computations that are alike, are alike. -/
theorem Alike.prepend {cfg : CircuitBreakerConfig} {history : List Bool} {first second : List Event}
    {guarded plain : List Event × Session ω} {left right : ρ} {left' right' : σ}
    (same : visible first = visible second)
    (rest : Alike cfg (history ++ outcomes first) (left, guarded) (right, plain))
    (results : left = right → left' = right') :
    Alike cfg history (left', first ++ guarded.1, guarded.2) (right', second ++ plain.1, plain.2) := by
  have recorded : outcomes first = outcomes second := by
    rw [outcomes_visible, outcomes_visible, same]
  rcases rest with ⟨equal, seen, lockstep⟩ | ⟨guardedTrips, plainTrips⟩
  · refine .inl ⟨results equal, ?_, ?_⟩
    · simp only [visible_append, same]
      exact congrArg _ seen
    · simpa only [outcomes_append, List.append_assoc] using lockstep
  · refine .inr ⟨?_, ?_⟩
    · simpa only [outcomes_append, List.append_assoc] using guardedTrips
    · simpa only [outcomes_append, ← recorded, List.append_assoc] using plainTrips

section Pair

variable {ω ν : Type} {json : Nlohmann ν} {policy : RetryPolicy} {cfg off : CircuitBreakerConfig}
  {around : Surroundings ω} (enabled : 0 < cfg.failureThreshold)
  (disabled : off.failureThreshold ≤ 0)
include enabled disabled

/-- Attempts of a lockstep pair look the same, and after a success the pair goes on. -/
theorem lockstep_attempt (around : Surroundings ω) (request : WireRequest) {guarded plain : Session ω}
    (lockstep : Lockstep cfg history guarded plain) :
    (admission cfg around guarded).1 = true ∧ (admission off around plain).1 = true ∧
    (makeAttempt cfg around request guarded).request = (makeAttempt off around request plain).request ∧
    (makeAttempt cfg around request guarded).result = (makeAttempt off around request plain).result ∧
    (Lockstep cfg (history ++ [(makeAttempt cfg around request guarded).succeeded])
      (afterAttempt cfg around request guarded) (afterAttempt off around request plain) ∨
     Tripping cfg (history ++ [(makeAttempt cfg around request guarded).succeeded])) := by
  have closed : guarded.breaker.state = .kClosed := lockstep.tracks.phase
  have admitted : admission cfg around guarded = (true, guarded.breaker) := by
    rcases allowCall_cases enabled (around.now guarded.ticks) guarded.breaker with
      ⟨_, result⟩ | ⟨opened, _⟩ | ⟨opened, _⟩
    · exact result
    · rw [closed] at opened
      cases opened
    · rw [closed] at opened
      cases opened
  have free : admission off around plain = (true, plain.breaker) := disabled_allowCall disabled _ _
  have admits : (admission cfg around guarded).1 = true := by rw [admitted]
  refine ⟨admits, by rw [free], rfl, ?_, ?_⟩
  · simp only [makeAttempt, lockstep.wire]
  have moved := lockstep.tracks.attempted enabled (makeAttempt cfg around request guarded)
    (Prod.ext admits rfl) rfl
  by_cases trips : streak not (history ++ [(makeAttempt cfg around request guarded).succeeded]) = cfg.failures
  · exact .inr (tripping_of_streak _ trips.ge)
  · refine .inl ⟨?_, ?_, lockstep.draws, ?_⟩
    · change Tracks cfg (makeAttempt cfg around request guarded).after _
      simpa only [Reference.next, trips, ↓reduceIte] using moved
    · simp only [afterAttempt, lockstep.ticks]
    · simp only [afterAttempt, lockstep.wire]

theorem retryLoop_alike (json : Nlohmann ν) (policy : RetryPolicy) (around : Surroundings ω)
    (request : WireRequest) (attempt left : Nat) {guarded plain : Session ω}
    (lockstep : Lockstep cfg history guarded plain) :
    let first := retryLoop json policy cfg around request attempt left guarded
    let second := retryLoop json policy off around request attempt left plain
    Alike cfg history (first.response, first.events, first.session)
      (second.response, second.events, second.session) := by
  induction left generalizing attempt history guarded plain with
  | zero => exact .inl ⟨rfl, rfl, by simpa [retryLoop, outcomes] using lockstep⟩
  | succ left ih =>
    obtain ⟨admitted, free, sameRequest, sameResult, moved⟩ :=
      lockstep_attempt enabled disabled around request lockstep
    have seen : visible [.attempted (makeAttempt cfg around request guarded)] =
        visible [.attempted (makeAttempt off around request plain)] := by
      simp [visible, sameRequest, sameResult]
    have recorded : (makeAttempt cfg around request guarded).succeeded =
        (makeAttempt off around request plain).succeeded := by
      simp [Attempt.succeeded, sameResult]
    cases outcome : (makeAttempt cfg around request guarded).result with
    | some res =>
      rw [retryLoop_answered admitted outcome, retryLoop_answered free (sameResult ▸ outcome)]
      rcases moved with lockstep | trips
      · exact .inl ⟨rfl, seen, lockstep⟩
      · exact .inr ⟨trips, by rwa [recorded] at trips⟩
    | none =>
      cases left with
      | zero =>
        rw [retryLoop_exhausted admitted outcome, retryLoop_exhausted free (sameResult ▸ outcome)]
        rcases moved with lockstep | trips
        · exact .inl ⟨rfl, seen, lockstep⟩
        · exact .inr ⟨trips, by rwa [recorded] at trips⟩
      | succ left =>
        rw [retryLoop_again admitted outcome, retryLoop_again free (sameResult ▸ outcome)]
        let delay := backoffDelay policy attempt (around.jitter guarded.draws)
        have slept : visible [.attempted (makeAttempt cfg around request guarded), .slept delay] =
            visible [.attempted (makeAttempt off around request plain),
              .slept (backoffDelay policy attempt (around.jitter plain.draws))] := by
          simp [visible, sameRequest, sameResult, delay, lockstep.draws]
        rcases moved with lockstep | trips
        · have next : Lockstep cfg (history ++ [(makeAttempt cfg around request guarded).succeeded])
              (afterSleep (afterAttempt cfg around request guarded))
              (afterSleep (afterAttempt off around request plain)) :=
            ⟨lockstep.tracks, lockstep.ticks, congrArg (· + 1) lockstep.draws, lockstep.wire⟩
          exact (ih (attempt + 1) next).prepend slept id
        · refine .inr ⟨?_, ?_⟩
          · simpa [outcomes] using trips.append _
          · rw [recorded] at trips
            simpa [outcomes] using trips.append _

/-- What a caller and the far end see of one call. -/
def Report.seen (report : Report ν) : Except ChaosError (Response ν) × List Visible :=
  (report.result, visible report.events)

/-- The same client with another breaker configuration. -/
def HttpTestClient.withBreaker (client : HttpTestClient) (cfg : CircuitBreakerConfig) : HttpTestClient :=
  { client with breakerCfg := cfg }

theorem run_alike (json : Nlohmann ν) (around : Surroundings ω) (client : HttpTestClient)
    (calls : List (Environment × Call ν))
    {guarded plain : Session ω} (lockstep : Lockstep cfg history guarded plain) :
    let first := (client.withBreaker cfg).run json around calls guarded
    let second := (client.withBreaker off).run json around calls plain
    Alike cfg history (first.1.map Report.seen, trace first.1, first.2)
      (second.1.map Report.seen, trace second.1, second.2) := by
  induction calls generalizing history guarded plain with
  | nil => exact .inl ⟨rfl, rfl, by simpa [HttpTestClient.run, trace, outcomes] using lockstep⟩
  | cons first rest ih =>
    obtain ⟨env, call⟩ := first
    have sameRequest : (client.withBreaker off).request json env call =
        (client.withBreaker cfg).request json env call := by
      cases call <;> rfl
    simp only [HttpTestClient.run, HttpTestClient.perform, sameRequest, trace, List.flatMap_cons,
      List.map_cons]
    cases (client.withBreaker cfg).request json env call with
    | error error =>
      exact (ih (by simpa [outcomes] using lockstep)).prepend rfl fun same => by rw [same]
    | ok request =>
      have loop := retryLoop_alike enabled disabled json client.retry around request 0
        (totalAttempts client.retry) lockstep
      rcases loop with ⟨response, seen, lockstep⟩ | ⟨guardedTrips, plainTrips⟩
      · refine (ih lockstep).prepend seen fun same => ?_
        exact congrArg₂ List.cons (Prod.ext (congrArg Except.ok response) seen) same
      · refine .inr ⟨?_, ?_⟩
        · rw [outcomes_append, ← List.append_assoc]
          exact guardedTrips.append _
        · rw [outcomes_append, ← List.append_assoc]
          exact plainTrips.append _

end Pair

/-- As long as the attempts of either client hold no `failureThreshold` failures in a row,
a client with a breaker and one without make the same attempts, sleep the same and
return the same, call by call. -/
theorem breaker_is_invisible_until_it_trips {ω ν : Type} (json : Nlohmann ν) (around : Surroundings ω)
    (client : HttpTestClient) {cfg off : CircuitBreakerConfig} (enabled : 0 < cfg.failureThreshold)
    (disabled : off.failureThreshold ≤ 0) (calls : List (Environment × Call ν)) (wire : ω)
    (quiet : ¬ Tripping cfg
        (outcomes (trace ((client.withBreaker cfg).run json around calls { wire }).1)) ∨
      ¬ Tripping cfg (outcomes (trace ((client.withBreaker off).run json around calls { wire }).1))) :
    ((client.withBreaker cfg).run json around calls { wire }).1.map Report.seen =
      ((client.withBreaker off).run json around calls { wire }).1.map Report.seen := by
  have start : Lockstep cfg [] { wire := wire } { wire := wire } :=
    ⟨tracks_initial enabled, rfl, rfl, rfl⟩
  rcases run_alike enabled disabled json around client calls start with
    ⟨same, _, _⟩ | ⟨guardedTrips, plainTrips⟩
  · exact same
  · rcases quiet with calm | calm
    · exact absurd guardedTrips calm
    · exact absurd plainTrips calm

/-- Threshold two: lost and answered attempts alternate, and one retry hides each loss. -/
theorem alternating_losses_never_trip :
    let client : HttpTestClient :=
      { host := ascii "localhost", port := 8080, retry := { maxRetries := 1 } }
    let calls := [(fun _ => none, .get (ascii "/v1/health")), (fun _ => none, .del (ascii "/v1/chaos/7"))]
    let wire := [none, some ⟨200, []⟩, none, some ⟨404, []⟩]
    ((client.withBreaker { failureThreshold := 2 }).run Nlohmann.text scripted calls { wire }).1.map
        Report.seen =
      ((client.withBreaker {}).run Nlohmann.text scripted calls { wire }).1.map Report.seen := by
  intro client calls wire
  exact breaker_is_invisible_until_it_trips Nlohmann.text scripted client (by decide) (by decide) calls
    wire (.inl (by unfold Tripping; decide))

end Charybdis.Client
