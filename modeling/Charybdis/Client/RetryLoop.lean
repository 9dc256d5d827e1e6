import Charybdis.Client.CircuitBreaker
import Charybdis.Client.Nlohmann
import Charybdis.Foundation.Execution

/-! `run_with_retry` around one wire call. Whatever the client does not control (the
clock, the jitter source and the network) is an argument; a run returns the
response together with everything an observer of the wire and of the breaker sees. -/

namespace Charybdis.Client

open Foundation

/-- `double` multipliers and factors are read as exact rationals. -/
structure RetryPolicy where
  maxRetries : Int := 0
  baseDelayMs : Int := 100
  maxDelayMs : Int := 2000
  backoffMult : ℚ := 2

def kChaosResilientPolicy : RetryPolicy :=
  { maxRetries := 3, baseDelayMs := 400, maxDelayMs := 2000, backoffMult := 2 }

inductive HttpMethod where
  | get
  | post
  | delete
  deriving DecidableEq

structure WireRequest where
  host : Bytes
  port : Int
  method : HttpMethod
  path : Bytes
  body : Bytes := []
  contentType : Option Bytes := none
  deriving DecidableEq

structure HttpResponse where
  status : Int
  body : Bytes
  deriving DecidableEq

/-- `httplib::Result`: `none` is the falsy result of a transport failure. -/
abbrev HttpResult := Option HttpResponse

structure Response (ν : Type) where
  status : Int
  body : Json Bytes ν

def kMaxBodyBytes : Nat := 10 * 1024 * 1024

def parseBody (json : Nlohmann ν) (body : Bytes) : Json Bytes ν :=
  if body.length > kMaxBodyBytes then
    .object [(ascii "error", .string (ascii "response_too_large"))]
  else
    match json.parse body with
    | .ok value => value
    | .error _ => .object [(ascii "raw", .string body)]

/-- The world around the client: clock readings and jitter draws in the order they
are taken, and a network with a state of its own. -/
structure Surroundings (ω : Type) where
  now : Nat → Int
  jitter : Nat → ℚ
  transport : WireRequest → ω → HttpResult × ω

structure Session (ω : Type) where
  breaker : CircuitBreaker := {}
  ticks : Nat := 0
  draws : Nat := 0
  wire : ω

/-- One admitted wire attempt: the clock at its admission check, when it goes out and
when its outcome is recorded, and the breaker before, during and after it. -/
structure Attempt where
  checkedAt : Int
  startedAt : Int
  recordedAt : Int
  request : WireRequest
  result : HttpResult
  before : CircuitBreaker
  during : CircuitBreaker
  after : CircuitBreaker

structure Refusal where
  checkedAt : Int
  before : CircuitBreaker
  after : CircuitBreaker

inductive Event where
  | attempted (attempt : Attempt)
  | refused (refusal : Refusal)
  | slept (milliseconds : Int)

/-- Wire attempts of a trace, in order. -/
def attempts (events : List Event) : List Attempt :=
  events.filterMap fun
    | .attempted attempt => some attempt
    | _ => none

@[simp] theorem attempts_append (first second : List Event) :
    attempts (first ++ second) = attempts first ++ attempts second := by
  simp [attempts]

@[simp] theorem attempts_attempted (attempt : Attempt) (rest : List Event) :
    attempts (.attempted attempt :: rest) = attempt :: attempts rest := rfl

@[simp] theorem attempts_refused (refusal : Refusal) (rest : List Event) :
    attempts (.refused refusal :: rest) = attempts rest := rfl

@[simp] theorem attempts_slept (milliseconds : Int) (rest : List Event) :
    attempts (.slept milliseconds :: rest) = attempts rest := rfl

@[simp] theorem attempts_nil : attempts [] = [] := rfl

def Attempt.succeeded (attempt : Attempt) : Bool := attempt.result.isSome

structure Ran (ω ν : Type) where
  response : Response ν
  session : Session ω
  events : List Event

def scaledDelay (policy : RetryPolicy) : Nat → ℚ
  | 0 => policy.baseDelayMs
  | attempt + 1 => scaledDelay policy attempt * policy.backoffMult

/-- The sleep after failed attempt number `attempt`; the cast to `int` truncates. -/
def backoffDelay (policy : RetryPolicy) (attempt : Nat) (jitter : ℚ) : Int :=
  let delay := min (scaledDelay policy attempt) policy.maxDelayMs * jitter
  delay.num.tdiv delay.den

def recordOutcome (cfg : CircuitBreakerConfig) (now : Int) (result : HttpResult)
    (breaker : CircuitBreaker) : CircuitBreaker :=
  match result with
  | some _ => recordSuccess cfg breaker
  | none => recordFailure cfg now breaker

section Loop

variable {ω ν : Type} (json : Nlohmann ν) (policy : RetryPolicy) (cfg : CircuitBreakerConfig)
  (around : Surroundings ω) (request : WireRequest)

/-- `breaker.allow_call()` at the current clock reading. -/
def admission (session : Session ω) : Bool × CircuitBreaker :=
  allowCall cfg (around.now session.ticks) session.breaker

/-- The attempt an admitted call makes: `func()`, then the recording of its outcome. -/
def makeAttempt (session : Session ω) : Attempt :=
  let during := (admission cfg around session).2
  let result := (around.transport request session.wire).1
  { checkedAt := around.now session.ticks
    startedAt := around.now (session.ticks + 1)
    recordedAt := around.now (session.ticks + 2)
    request, result
    before := session.breaker
    during
    after := recordOutcome cfg (around.now (session.ticks + 2)) result during }

def afterAttempt (session : Session ω) : Session ω :=
  { session with
    breaker := (makeAttempt cfg around request session).after
    ticks := session.ticks + 3
    wire := (around.transport request session.wire).2 }

/-- The `for` loop from iteration `attempt` on, with `left` iterations to go. -/
def retryLoop : Nat → Nat → Session ω → Ran ω ν
  | _, 0, session => ⟨⟨0, .null⟩, session, []⟩
  | attempt, left + 1, session =>
    if (admission cfg around session).1 then
      let made := makeAttempt cfg around request session
      let after := afterAttempt cfg around request session
      match made.result with
      | some res => ⟨⟨res.status, parseBody json res.body⟩, after, [.attempted made]⟩
      | none =>
        -- no sleep after the final attempt
        if left = 0 then ⟨⟨0, .null⟩, after, [.attempted made]⟩
        else
          let delay := backoffDelay policy attempt (around.jitter after.draws)
          let rest := retryLoop (attempt + 1) left { after with draws := after.draws + 1 }
          ⟨rest.response, rest.session, .attempted made :: .slept delay :: rest.events⟩
    else
      let breaker := (admission cfg around session).2
      ⟨⟨0, .null⟩, { session with breaker, ticks := session.ticks + 1 },
        [.refused ⟨around.now session.ticks, session.breaker, breaker⟩]⟩

def totalAttempts (policy : RetryPolicy) : Nat := (max 1 (policy.maxRetries + 1)).toNat

def runWithRetry (session : Session ω) : Ran ω ν :=
  retryLoop json policy cfg around request 0 (totalAttempts policy) session

theorem totalAttempts_pos (policy : RetryPolicy) : 0 < totalAttempts policy := by
  unfold totalAttempts
  omega

variable {json policy cfg around request}

theorem retryLoop_refused (refused : (admission cfg around session).1 = false) :
    retryLoop json policy cfg around request attempt (left + 1) session =
      ⟨⟨0, .null⟩, { session with
          breaker := (admission cfg around session).2, ticks := session.ticks + 1 },
        [.refused ⟨around.now session.ticks, session.breaker, (admission cfg around session).2⟩]⟩ := by
  simp [retryLoop, refused]

theorem retryLoop_answered (admitted : (admission cfg around session).1 = true)
    (answered : (makeAttempt cfg around request session).result = some res) :
    retryLoop json policy cfg around request attempt (left + 1) session =
      ⟨⟨res.status, parseBody json res.body⟩, afterAttempt cfg around request session,
        [.attempted (makeAttempt cfg around request session)]⟩ := by
  simp [retryLoop, admitted, answered]

theorem retryLoop_exhausted (admitted : (admission cfg around session).1 = true)
    (failed : (makeAttempt cfg around request session).result = none) :
    retryLoop json policy cfg around request attempt 1 session =
      ⟨⟨0, .null⟩, afterAttempt cfg around request session,
        [.attempted (makeAttempt cfg around request session)]⟩ := by
  simp [retryLoop, admitted, failed]

/-- The session in which the next iteration starts after a failed attempt. -/
def afterSleep (session : Session ω) : Session ω :=
  { session with draws := session.draws + 1 }

theorem retryLoop_again (admitted : (admission cfg around session).1 = true)
    (failed : (makeAttempt cfg around request session).result = none) :
    retryLoop json policy cfg around request attempt (left + 2) session =
      let rest := retryLoop json policy cfg around request (attempt + 1) (left + 1)
        (afterSleep (afterAttempt cfg around request session))
      ⟨rest.response, rest.session, .attempted (makeAttempt cfg around request session) ::
        .slept (backoffDelay policy attempt (around.jitter session.draws)) :: rest.events⟩ := by
  conv_lhs => rw [retryLoop]
  simp [admitted, failed, afterSleep, afterAttempt]

/-- One iteration at a time: what holds of a refusal, of an answer and of the last
failure, and is kept by a failure followed by the rest of the loop, holds of the loop. -/
theorem retryLoop_rule {motive : Session ω → Ran ω ν → Prop}
    (refusal : ∀ session, (admission cfg around session).1 = false →
      motive session ⟨⟨0, .null⟩, { session with
          breaker := (admission cfg around session).2, ticks := session.ticks + 1 },
        [.refused ⟨around.now session.ticks, session.breaker, (admission cfg around session).2⟩]⟩)
    (answer : ∀ session res, (admission cfg around session).1 = true →
      (makeAttempt cfg around request session).result = some res →
      motive session ⟨⟨res.status, parseBody json res.body⟩, afterAttempt cfg around request session,
        [.attempted (makeAttempt cfg around request session)]⟩)
    (exhausted : ∀ session, (admission cfg around session).1 = true →
      (makeAttempt cfg around request session).result = none →
      motive session ⟨⟨0, .null⟩, afterAttempt cfg around request session,
        [.attempted (makeAttempt cfg around request session)]⟩)
    (again : ∀ session delay rest, (admission cfg around session).1 = true →
      (makeAttempt cfg around request session).result = none →
      motive (afterSleep (afterAttempt cfg around request session)) rest →
      motive session ⟨rest.response, rest.session,
        .attempted (makeAttempt cfg around request session) :: .slept delay :: rest.events⟩)
    (attempt : Nat) (positive : 0 < left) (session : Session ω) :
    motive session (retryLoop json policy cfg around request attempt left session) := by
  induction left generalizing attempt session with
  | zero => exact absurd positive (Nat.lt_irrefl 0)
  | succ left ih =>
    cases admitted : (admission cfg around session).1 with
    | false =>
      rw [retryLoop_refused admitted]
      exact refusal session admitted
    | true =>
      cases outcome : (makeAttempt cfg around request session).result with
      | some res =>
        rw [retryLoop_answered admitted outcome]
        exact answer session res admitted outcome
      | none =>
        cases left with
        | zero =>
          rw [retryLoop_exhausted admitted outcome]
          exact exhausted session admitted outcome
        | succ left =>
          rw [retryLoop_again admitted outcome]
          exact again session _ _ admitted outcome (ih (attempt + 1) (Nat.succ_pos left) _)

/-- What a call does to the network alone: nothing, or one failed attempt after another up
to an answer or to the end. -/
theorem runWithRetry_wire {motive : ω → ω → Response ν → Prop}
    (silent : ∀ wire, motive wire wire ⟨0, .null⟩)
    (answer : ∀ wire res next, around.transport request wire = (some res, next) →
      motive wire next ⟨res.status, parseBody json res.body⟩)
    (again : ∀ wire next last response, around.transport request wire = (none, next) →
      motive next last response → motive wire last response)
    (session : Session ω) :
    motive session.wire (runWithRetry json policy cfg around request session).session.wire
      (runWithRetry json policy cfg around request session).response := by
  refine retryLoop_rule (motive := fun session ran => motive session.wire ran.session.wire ran.response)
    ?refusal ?answer ?exhausted ?again 0 (totalAttempts_pos policy) session
  case refusal => exact fun session _ => silent session.wire
  case answer => exact fun session res _ answered => answer session.wire res _ (Prod.ext answered rfl)
  case exhausted =>
    exact fun session _ failed => again session.wire _ _ _ (Prod.ext failed rfl) (silent _)
  case again =>
    exact fun session _ rest _ failed later => again session.wire _ _ _ (Prod.ext failed rfl) later

/-- Every attempt of a call repeats its request, and only a call that made one has a body. -/
theorem runWithRetry_requests (json : Nlohmann ν) (policy : RetryPolicy) (cfg : CircuitBreakerConfig)
    (around : Surroundings ω) (request : WireRequest) (session : Session ω) :
    let ran := runWithRetry json policy cfg around request session
    (∀ attempt ∈ attempts ran.events, attempt.request = request) ∧
      (attempts ran.events = [] → ran.response.body = .null) := by
  refine retryLoop_rule (motive := fun _ ran =>
    (∀ attempt ∈ attempts ran.events, attempt.request = request) ∧
      (attempts ran.events = [] → ran.response.body = .null)) ?_ ?_ ?_ ?_ 0 (totalAttempts_pos policy) session
  · intro session _
    exact ⟨by simp, fun _ => rfl⟩
  · intro session res _ _
    exact ⟨by simp [makeAttempt], by simp⟩
  · intro session _ _
    exact ⟨by simp [makeAttempt], fun _ => rfl⟩
  · intro session delay rest _ _ later
    refine ⟨?_, by simp⟩
    rw [attempts_attempted, attempts_slept, List.forall_mem_cons]
    exact ⟨rfl, later.1⟩

end Loop

end Charybdis.Client
