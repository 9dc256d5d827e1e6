import Charybdis.EndToEnd.ChaosFixture
import Charybdis.Stub.TaskHistory

/-! Whole tests of the chaos fixture: what is left in the registry when `TearDown` is done. -/

namespace Charybdis.EndToEnd

open Foundation Client Stub Audit

section Calls

variable {ν : Type} (client : HttpTestClient) (json : Nlohmann ν) (runtime : Runtime)
  (errorPage : Nat → Bytes) (losses : Nat → Loss) (now : Nat → Int) (jitter : Nat → ℚ)

/-- A call that is not refused delivers its request, and returns the last answer. -/
theorem perform_delivers (env : Environment) (call : Call ν) (session : Session Link) :
    let outcome := client.perform json (lossyStub runtime errorPage losses now jitter) env call session
    (∃ error, outcome = ⟨.error error, session, []⟩) ∨
    (∃ request lost, client.request json env call = .ok request ∧
      outcome.result = .ok (readReply json (finalReply outcome.events)) ∧
      Delivers runtime errorPage request lost session.wire outcome.session.wire (finalReply outcome.events)) := by
  intro outcome
  rcases client.perform_cases json (lossyStub runtime errorPage losses now jitter) env call session with
    ⟨error, _, performed⟩ | ⟨request, sent, performed⟩
  · exact .inl ⟨error, performed⟩
  · obtain ⟨lost, delivered⟩ := runWithRetry_delivers runtime errorPage losses now jitter json client.retry
      client.breakerCfg session
    refine .inr ⟨request, lost, sent, ?_, ?_⟩
    · rw [show outcome = _ from performed, runWithRetry_response]
    · rw [show outcome = _ from performed]
      exact delivered

/-- What a POST that asks for a fault did to the registry, seen with its reply and result. -/
inductive Posted (runtime : Runtime) (json : Nlohmann ν) (stub next : Agamemnon) (lost : Nat) :
    HttpResult → Except ChaosError (Response ν) → Prop where
  | unanswered (grown : Grown runtime chaosType fields lost stub next)
      (silent : ∀ response, result = .ok response → response = ⟨0, .null⟩) :
      Posted runtime json stub next lost none result
  | answered (grown : Grown runtime chaosType fields (lost + 1) stub next)
      (record : response.body = Client.parseBody json (runtime.jsonText
        (jsonOf (newFault (runtime.uuid4 (stub.drawn + lost)) chaosType fields)))) :
      Posted runtime json stub next lost (some answer) (.ok response)

theorem perform_posted (distinct : Function.Injective runtime.uuid4) (env : Environment) (call : Call ν)
    (asks : AsksFault client json runtime env call) (session : Session Link)
    (sound : Sound runtime session.wire.stub) :
    let outcome := client.perform json (lossyStub runtime errorPage losses now jitter) env call session
    Sound runtime outcome.session.wire.stub ∧
      Posted runtime json session.wire.stub outcome.session.wire.stub (lostBetween session outcome.session)
        (finalReply outcome.events) outcome.result := by
  intro outcome
  rcases perform_delivers client json runtime errorPage losses now jitter env call session with
    ⟨error, performed⟩ | ⟨request, lost, sent, result, delivered⟩
  · have same : outcome = ⟨.error error, session, []⟩ := performed
    rw [same]
    have none : lostBetween session session = 0 := Nat.sub_self _
    refine ⟨sound, ?_⟩
    have unchanged : Grown runtime [] .empty 0 session.wire.stub session.wire.stub := .refl
    rw [none]
    exact .unanswered unchanged nofun
  · obtain ⟨chaosType, fields, wired⟩ := asks request sent
    rw [show outcome.result = _ from result]
    change Delivers runtime errorPage request lost session.wire outcome.session.wire (finalReply outcome.events)
      at delivered
    cases reply : finalReply outcome.events with
    | none =>
      rw [reply] at delivered
      obtain ⟨count, served⟩ := delivered
      have between : lostBetween session outcome.session = lost := by
        rw [lostBetween, count, Nat.add_sub_cancel_left]
      rw [served, between]
      refine ⟨sound_taken_iterate sound lost, .unanswered (grown_taken_iterate distinct sound wired lost) ?_⟩
      intro response same
      cases same
      rfl
    | some answer =>
      rw [reply] at delivered
      obtain ⟨count, served, answered⟩ := delivered
      have between : lostBetween session outcome.session = lost := by
        rw [lostBetween, count, Nat.add_sub_cancel_left]
      rw [served, between]
      refine ⟨sound_taken_iterate sound (lost + 1),
        .answered (grown_taken_iterate distinct sound wired (lost + 1)) ?_⟩
      -- the answer is the record of the fault its own request registered
      have before : Grown runtime chaosType fields lost session.wire.stub
          ((taken runtime errorPage request)^[lost] session.wire.stub) :=
        grown_taken_iterate distinct sound wired lost
      have record := (serveWire_asks errorPage distinct (sound_taken_iterate sound lost) wired).2.2 answer answered
      rw [before.drawn] at record
      rw [record]
      rfl

/-- A deletion that got through takes its fault out; one that did not changes nothing. -/
theorem deletion_delivers (safe : UrlSafe faultId) (session : Session Link) :
    let deleted := deletion client json (lossyStub runtime errorPage losses now jitter) (idBytes faultId) session
    let deed := Deed.remove (lostBetween session deleted.session) (finalReply deleted.events).isSome
    (deed.leaks = 1 ∧ deleted.session.wire.stub = session.wire.stub) ∨
    (deed.leaks = 0 ∧ deleted.session.wire.stub.faults = session.wire.stub.faults.erase faultId ∧
      (Sound runtime session.wire.stub → Sound runtime deleted.session.wire.stub)) := by
  intro deleted deed
  obtain ⟨lost, delivered⟩ := runWithRetry_delivers runtime errorPage losses now jitter json client.retry
    client.breakerCfg session
  have names := wireNames_deletion runtime client safe
  change Delivers runtime errorPage _ lost session.wire deleted.session.wire (finalReply deleted.events) at delivered
  cases reply : finalReply deleted.events with
  | none =>
    rw [reply] at delivered
    obtain ⟨count, served⟩ := delivered
    have between : lostBetween session deleted.session = lost := by
      rw [lostBetween, count, Nat.add_sub_cancel_left]
    cases lost with
    | zero => exact .inl ⟨by simp [deed, reply, between, Deed.leaks], served⟩
    | succ lost =>
      refine .inr ⟨by simp [deed, reply, between, Deed.leaks], ?_, fun sound => ?_⟩
      · rw [served, faults_taken_iterate names]
      · rw [served]
        exact sound_taken_iterate sound _
  | some answer =>
    rw [reply] at delivered
    obtain ⟨_, served, _⟩ := delivered
    refine .inr ⟨by simp [deed, reply, Deed.leaks], ?_, fun sound => ?_⟩
    · rw [served, faults_taken_iterate names]
    · rw [served]
      exact sound_taken_iterate sound _

end Calls

/-! ### Identifiers are only ever drawn -/

section Drawn

variable {ν : Type} {client : HttpTestClient} {json : Nlohmann ν} {runtime : Runtime}
  {errorPage : Nat → Bytes} {losses : Nat → Loss} {now : Nat → Int} {jitter : Nat → ℚ}

private theorem drawn_le_iterate (request : WireRequest) (stub : Agamemnon) (count : Nat) :
    stub.drawn ≤ ((taken runtime errorPage request)^[count] stub).drawn := by
  induction count with
  | zero => exact le_rfl
  | succ count ih =>
    rw [Function.iterate_succ_apply']
    refine ih.trans ?_
    unfold taken serveWire
    split
    · exact le_rfl
    · exact drawn_le_handle runtime _ _

private theorem drawn_le_delivers {before after : Link}
    (delivered : Delivers runtime errorPage request lost before after reply) :
    before.stub.drawn ≤ after.stub.drawn := by
  cases reply with
  | none =>
    rw [delivered.2]
    exact drawn_le_iterate request before.stub lost
  | some answer =>
    rw [delivered.2.1]
    exact drawn_le_iterate request before.stub (lost + 1)

private theorem drawn_le_perform (client : HttpTestClient) (json : Nlohmann ν) (runtime : Runtime)
    (errorPage : Nat → Bytes) (losses : Nat → Loss) (now : Nat → Int) (jitter : Nat → ℚ) (env : Environment)
    (call : Call ν) (session : Session Link) :
    session.wire.stub.drawn ≤ (client.perform json (lossyStub runtime errorPage losses now jitter) env call
      session).session.wire.stub.drawn := by
  rcases perform_delivers client json runtime errorPage losses now jitter env call session with
    ⟨error, performed⟩ | ⟨_, _, _, _, delivered⟩
  · rw [performed]
  · exact drawn_le_delivers delivered

end Drawn

/-! ### One step of a test -/

/-- What an injection does with a result: it misses the id, and the test fails, or notes it. -/
inductive Noting (result : Except ChaosError (Response ν)) (before after : Fixture) : Prop where
  | missed (same : after.injected = before.injected) (failed : after.failed = true)
  | noted (answer : result = .ok response) (read : valueString (ascii "id") response.body = .ok faultId)
      (nonempty : faultId ≠ []) (added : after.injected = before.injected ++ [faultId])
      (calm : after.failed = false → before.failed = false)

/-- The fixture remembers faults it added, and as many more leaked. -/
def Accounts (runtime : Runtime) (start : Agamemnon) (fixture : Fixture) (total : Nat) : Prop :=
  ∃ owned leaked, fixture.injected = owned.map idBytes ∧ leaked.length = total ∧
    Ledger runtime start fixture.session.wire.stub owned leaked

section Steps

variable {ν : Type} {client : HttpTestClient} {json : Nlohmann ν} {runtime : Runtime}
  {errorPage : Nat → Bytes} {losses : Nat → Loss} {now : Nat → Int} {jitter : Nat → ℚ}
  {around : Surroundings Link} {fixture before after : Fixture} {start : Agamemnon}

private theorem note_noting {current : Fixture} {result : Except ChaosError (Response ν)} (answer : result = .ok response)
    (read : valueString (ascii "id") response.body = .ok faultId)
    (same : current.injected = before.injected) (calm : current.failed = false → before.failed = false) :
    Noting result before (current.note faultId) := by
  unfold Fixture.note
  split
  · exact .missed same rfl
  · rename_i nonempty
    exact .noted answer read nonempty (by rw [same]) calm

theorem inject_noting (client : HttpTestClient) (json : Nlohmann ν) (around : Surroundings Link) (fixture : Fixture)
    (env : Environment) (path : Bytes) (body : Json Bytes ν) :
    let posted := client.perform json around env (.post path body) fixture.session
    let after := (fixture.inject client json around env path body).2
    after.session = posted.session ∧ Noting posted.result fixture after := by
  intro posted after
  cases result : posted.result with
  | error error =>
    have shape : after = { fixture with session := posted.session, failed := true } := by
      simp only [after, Fixture.inject, posted, result]
    rw [shape]
    exact ⟨rfl, .missed rfl rfl⟩
  | ok response =>
    cases read : valueString (ascii "id") response.body with
    | error error =>
      have shape : after = { fixture with session := posted.session, failed := true } := by
        simp only [after, Fixture.inject, posted, result, read]
      rw [shape]
      exact ⟨rfl, .missed rfl rfl⟩
    | ok faultId =>
      have shape : after = Fixture.note { fixture with
          session := posted.session, failed := fixture.failed || !succeeds response.status } faultId := by
        simp only [after, Fixture.inject, posted, result, read]
      rw [shape]
      refine ⟨by unfold Fixture.note; split <;> rfl, note_noting rfl read rfl fun calm => ?_⟩
      exact (Bool.or_eq_false_iff.mp calm).1

private theorem safeInject_cases (client : HttpTestClient) (json : Nlohmann ν) (around : Surroundings Link)
    (env : Environment) (at_ : UtcReading) (subject : Bytes) (session : Session Link) (sink : Bytes) :
    let injection := safeInjectQueueStarve client json around env at_ subject session sink
    let posted := client.perform json around env (.post queueStarvePath (subjectBody subject)) session
    (injection.session = session ∧ injection.events = [] ∧ ∃ error, injection.result = .error error) ∨
    (injection.session = posted.session ∧ injection.events = posted.events ∧
      ∀ body, injection.result = .ok body → ∃ response, posted.result = .ok response ∧ response.body = body) := by
  intro injection posted
  have recorded (emission : Except JsonError Bytes) (result : Except ChaosError (Json Bytes ν))
      (session : Session Link) (sink : Bytes) (events : List Event) :
      (recordThen emission result session sink events).session = session ∧
      (recordThen emission result session sink events).events = events ∧
      ∀ body, (recordThen emission result session sink events).result = .ok body → result = .ok body := by
    cases emission with
    | ok _ => exact ⟨rfl, rfl, fun _ same => same⟩
    | error _ => exact ⟨rfl, rfl, fun _ ended => by cases ended⟩
  cases guard : requireSubjectAllowed env (ascii "queue-starve") subject with
  | error error =>
    left
    cases error with
    | subjectFilterViolation what =>
      have shape : injection = recordThen (logFilterReject json env at_ sink (ascii "queue-starve") subject
          (subjectPrefix env)) (.error (.subjectFilterViolation what)) session sink [] := by
        simp only [injection, safeInjectQueueStarve, guard]
      obtain ⟨same, none, kept⟩ := shape ▸ recorded _ _ session sink []
      refine ⟨same, none, ?_⟩
      cases result : injection.result with
      | error error => exact ⟨error, rfl⟩
      | ok body => cases kept body result
    | subjectFilterConfigError what =>
      have shape : injection = ⟨.error (.subjectFilterConfigError what), session, sink, []⟩ := by
        simp only [injection, safeInjectQueueStarve, guard]
      rw [shape]
      exact ⟨rfl, rfl, _, rfl⟩
    | json error =>
      have shape : injection = ⟨.error (.json error), session, sink, []⟩ := by
        simp only [injection, safeInjectQueueStarve, guard]
      rw [shape]
      exact ⟨rfl, rfl, _, rfl⟩
  | ok _ =>
    right
    cases result : posted.result with
    | error error =>
      have shape : injection = ⟨.error error, posted.session, sink, posted.events⟩ := by
        simp only [injection, safeInjectQueueStarve, guard, posted, result]
      rw [shape]
      exact ⟨rfl, rfl, fun _ ended => by cases ended⟩
    | ok response =>
      have shape : injection = recordThen (logInject json env at_ sink (ascii "queue-starve") (agamemnonUrl env)
          response.status response.body) (.ok response.body) posted.session sink posted.events := by
        simp only [injection, safeInjectQueueStarve, guard, posted, result]
      obtain ⟨same, events, kept⟩ := shape ▸ recorded _ _ posted.session sink posted.events
      exact ⟨same, events, fun body ended => ⟨response, rfl, Except.ok.inj (kept body ended)⟩⟩

/-- A fault id the client reads out of a reply is that of the record in it. -/
theorem read_comes_back (ids : IdsComeBack runtime json) (count : Nat) (chaosType : PyStr) (fields : Record)
    (read : valueString (ascii "id") (Client.parseBody json (runtime.jsonText
      (jsonOf (newFault (runtime.uuid4 count) chaosType fields)))) = .ok faultId)
    (nonempty : faultId ≠ []) : faultId = idBytes (runtime.uuid4 count) := by
  have synthetic (name text : Bytes) (other : (ascii "id" == name) = false) :
      valueString (ascii "id") (.object [(name, .string text)] : Json Bytes ν) = .ok [] := by
    simp only [valueString, List.lookup_cons, other, List.lookup_nil]
  unfold Client.parseBody at read
  split at read
  · rw [synthetic _ _ (by decide)] at read
    exact absurd (Except.ok.inj read).symm nonempty
  · split at read
    · rename_i value parsed
      exact Except.ok.inj (read.symm.trans (ids count chaosType fields value parsed))
    · rw [synthetic _ _ (by decide)] at read
      exact absurd (Except.ok.inj read).symm nonempty

theorem Accounts.post {result : Except ChaosError (Response ν)} (ids : IdsComeBack runtime json)
    (accounts : Accounts runtime start before total) (sound : Sound runtime after.session.wire.stub)
    (posted : Posted runtime json before.session.wire.stub after.session.wire.stub lost reply result)
    (noting : Noting result before after) :
    Accounts runtime start after
      (total + (Deed.inject lost reply.isSome (before.injected.length < after.injected.length)).leaks) := by
  obtain ⟨owned, leaked, remembered, count, ledger⟩ := accounts
  cases noting with
  | missed same _ =>
    have unnoted : decide (before.injected.length < after.injected.length) = false := by
      rw [same]
      simp
    rw [unnoted]
    cases posted with
    | unanswered grown _ =>
      refine ⟨owned, _, same.trans remembered, ?_, ledger.grow_leaked sound grown⟩
      simp [nextIds, Deed.leaks, count]
    | answered grown _ =>
      refine ⟨owned, _, same.trans remembered, ?_, ledger.grow_leaked sound grown⟩
      simp [nextIds, Deed.leaks, count]
  | noted answer read nonempty added _ =>
    have noted : decide (before.injected.length < after.injected.length) = true := by
      rw [added]
      simp
    rw [noted]
    cases posted with
    | unanswered grown silent =>
      rw [silent _ answer] at read
      cases read
    | answered grown record =>
      cases answer
      rw [record] at read
      have same := read_comes_back ids _ _ _ read nonempty
      refine ⟨_, _, ?_, ?_, ledger.grow_noted sound grown⟩
      · rw [added, remembered, same, List.map_append]
        rfl
      · simp [nextIds, Deed.leaks, count]

private theorem starve_noting (client : HttpTestClient) (json : Nlohmann ν) (around : Surroundings Link)
    (fixture : Fixture) (env : Environment) (at_ : UtcReading) (subject : Bytes) :
    let injection := safeInjectQueueStarve client json around env at_ subject fixture.session fixture.sink
    let posted := client.perform json around env (.post queueStarvePath (subjectBody subject)) fixture.session
    let after := fixture.starve client json around env at_ subject
    (after.session = fixture.session ∧ injection.events = [] ∧
      after.injected = fixture.injected ∧ after.failed = true) ∨
    (after.session = posted.session ∧ injection.events = posted.events ∧ Noting posted.result fixture after) := by
  intro injection posted after
  have failed (error : ChaosError) (ended : injection.result = .error error) : after =
      { fixture with session := injection.session, sink := injection.sink, failed := true } := by
    simp only [after, Fixture.starve, injection, ended]
  rcases safeInject_cases client json around env at_ subject fixture.session fixture.sink with
    ⟨same, none, error, ended⟩ | ⟨same, events, reply⟩
  · rw [failed error ended]
    exact .inl ⟨same, none, rfl, rfl⟩
  · right
    cases ended : injection.result with
    | error error =>
      rw [failed error ended]
      exact ⟨same, events, .missed rfl rfl⟩
    | ok body =>
      obtain ⟨response, answer, rfl⟩ := reply body ended
      cases read : valueString (ascii "id") response.body with
      | error error =>
        have shape : after =
            { fixture with session := injection.session, sink := injection.sink, failed := true } := by
          simp only [after, Fixture.starve, injection, ended, read]
        rw [shape]
        exact ⟨same, events, .missed rfl rfl⟩
      | ok faultId =>
        have shape : after =
            Fixture.note { fixture with session := injection.session, sink := injection.sink } faultId := by
          simp only [after, Fixture.starve, injection, ended, read]
        rw [shape]
        exact ⟨by unfold Fixture.note; split <;> exact same, events, note_noting answer read rfl id⟩

theorem drawn_le_testStep
    (step : TestStep client json (lossyStub runtime errorPage losses now jitter) runtime before deed after) :
    before.session.wire.stub.drawn ≤ after.session.wire.stub.drawn := by
  cases step with
  | inject env path body _ next =>
    rw [next, (inject_noting _ _ _ _ env path body).1]
    exact drawn_le_perform client json runtime errorPage losses now jitter env _ _
  | starve env at_ subject _ next =>
    rcases starve_noting client json (lossyStub runtime errorPage losses now jitter) before env at_ subject with
      ⟨same, _⟩ | ⟨same, _⟩
    · rw [next, same]
    · rw [next, same]
      exact drawn_le_perform client json runtime errorPage losses now jitter env _ _
  | remove _ next =>
    rw [next]
    obtain ⟨lost, delivered⟩ := runWithRetry_delivers runtime errorPage losses now jitter json client.retry
      client.breakerCfg before.session
    exact drawn_le_delivers delivered
  | other env call _ next =>
    rw [next]
    exact drawn_le_perform client json runtime errorPage losses now jitter env call before.session

/-- Each step moves its leaks, and nothing else, from what the fixture remembers to what it does not. -/
theorem Accounts.step (distinct : Function.Injective runtime.uuid4) (ids : IdsComeBack runtime json)
    (safe : ∀ count < after.session.wire.stub.drawn, UrlSafe (runtime.uuid4 count))
    (accounts : Accounts runtime start before total)
    (step : TestStep client json (lossyStub runtime errorPage losses now jitter) runtime before deed after) :
    Accounts runtime start after (total + deed.leaks) := by
  have sound : Sound runtime before.session.wire.stub := accounts.choose_spec.choose_spec.2.2.sound
  have later := drawn_le_testStep step
  cases step with
  | inject env path body asks next =>
    obtain ⟨same, noting⟩ := inject_noting client json (lossyStub runtime errorPage losses now jitter) before
      env path body
    rw [← next] at same noting
    obtain ⟨sound', posted⟩ := perform_posted client json runtime errorPage losses now jitter distinct env _
      asks before.session sound
    rw [← same] at sound' posted
    exact accounts.post ids sound' posted noting
  | starve env at_ subject asks next =>
    rcases starve_noting client json (lossyStub runtime errorPage losses now jitter) before env at_ subject with
      ⟨same, none, kept, _⟩ | ⟨same, events, noting⟩
    · rw [← next] at same kept
      obtain ⟨owned, leaked, remembered, count, ledger⟩ := accounts
      refine ⟨owned, leaked, kept.trans remembered, ?_, same ▸ ledger⟩
      rw [none, same, kept]
      simp [lostBetween, finalReply, Deed.leaks, count]
    · rw [← next] at same noting
      obtain ⟨sound', posted⟩ := perform_posted client json runtime errorPage losses now jitter distinct env _
        asks before.session sound
      rw [← same, ← events] at posted
      rw [← same] at sound'
      exact accounts.post ids sound' posted noting
  | remove noted next =>
    obtain ⟨owned, leaked, remembered, count, ledger⟩ := accounts
    obtain ⟨faultId, member, spelled⟩ := List.mem_map.mp (remembered ▸ noted)
    subst spelled
    have urlSafe : ∀ other ∈ owned, UrlSafe other := by
      intro other inside
      obtain ⟨drawn, early, rfl⟩ := ledger.drawn (List.mem_append_left _ inside)
      exact safe drawn (early.trans_le later)
    have forgotten : after.injected = (owned.filter (· ≠ faultId)).map idBytes := by
      rw [next]
      simp only [Fixture.remove, remembered, List.filter_map]
      congr 1
      refine List.filter_congr fun other inside => ?_
      have apart : idBytes other = idBytes faultId ↔ other = faultId :=
        ⟨idBytes_injective (urlSafe other inside).2.2 (urlSafe faultId member).2.2, congrArg idBytes⟩
      simp [apart]
    have session : after.session = (deletion client json (lossyStub runtime errorPage losses now jitter)
        (idBytes faultId) before.session).session := by
      rw [next]
      rfl
    rcases deletion_delivers client json runtime errorPage losses now jitter (urlSafe faultId member)
      before.session with
      ⟨leaks, stub⟩ | ⟨leaks, erased, kept⟩
    · refine ⟨_, faultId :: leaked, forgotten, ?_, ?_⟩
      · rw [session, leaks, List.length_cons, count]
      · rw [session, stub]
        exact ledger.forget member
    · refine ⟨_, leaked, forgotten, ?_, ?_⟩
      · rw [session, leaks, count, Nat.add_zero]
      · rw [session]
        exact ledger.erase member (kept sound) erased
  | other env call aside next =>
    obtain ⟨owned, leaked, remembered, count, ledger⟩ := accounts
    refine ⟨owned, leaked, by rw [next]; exact remembered, count, ?_⟩
    rw [next]
    simp only [Fixture.call]
    rcases perform_delivers client json runtime errorPage losses now jitter env call before.session with
      ⟨error, performed⟩ | ⟨request, lost, sent, _, delivered⟩
    · rw [performed]
      exact ledger
    · obtain ⟨unasked, unnamed⟩ := aside request sent
      have served : ∃ times, (client.perform json (lossyStub runtime errorPage losses now jitter) env call
          before.session).session.wire.stub = (taken runtime errorPage request)^[times] before.session.wire.stub := by
        cases reply : finalReply (client.perform json (lossyStub runtime errorPage losses now jitter) env call
            before.session).events with
        | none => exact ⟨lost, (reply ▸ delivered).2⟩
        | some answer => exact ⟨lost + 1, (reply ▸ delivered).2.1⟩
      obtain ⟨times, served⟩ := served
      rw [served]
      exact ledger.unchanged (sound_taken_iterate sound times) (faults_taken_aside_iterate unasked unnamed times)

theorem Accounts.run (distinct : Function.Injective runtime.uuid4) (ids : IdsComeBack runtime json)
    (run : Execution (TestStep client json (lossyStub runtime errorPage losses now jitter) runtime) before deeds after)
    (safe : ∀ count < after.session.wire.stub.drawn, UrlSafe (runtime.uuid4 count))
    (accounts : Accounts runtime start before total) :
    Accounts runtime start after (total + (deeds.map Deed.leaks).sum) := by
  induction run generalizing total with
  | done => simpa using accounts
  | more first rest ih =>
    have later := rest.invariant (motive := fun fixture => _ ≤ fixture.session.wire.stub.drawn)
      (fun below step => below.trans (drawn_le_testStep step)) le_rfl
    have one := accounts.step distinct ids (fun count early => safe count (early.trans_le later)) first
    rw [List.map_cons, List.sum_cons, ← Nat.add_assoc]
    exact ih safe one

private theorem deleteAll_clears (client : HttpTestClient) (json : Nlohmann ν) (errorPage : Nat → Bytes)
    (losses : Nat → Loss) (now : Nat → Int) (jitter : Nat → ℚ) {owned leaked : List PyStr} {session : Session Link}
    (safe : ∀ faultId ∈ owned, UrlSafe faultId) (ledger : Ledger runtime start session.wire.stub owned leaked) :
    let cleared := deleteAll client json (lossyStub runtime errorPage losses now jitter) (owned.map idBytes) session
    ∃ lost, lost.length = leaked.length + (cleared.1.map Deed.leaks).sum ∧
      Ledger runtime start cleared.2.wire.stub [] lost := by
  induction owned generalizing session leaked with
  | nil => exact ⟨leaked, by simp [deleteAll], ledger⟩
  | cons faultId rest ih =>
    obtain ⟨own, others⟩ := List.forall_mem_cons.mp safe
    have member : faultId ∈ faultId :: rest := List.mem_cons_self
    have left : (faultId :: rest).filter (· ≠ faultId) = rest := by
      have once := (List.nodup_cons.mp ledger.nodup.of_append_left).1
      rw [List.filter_cons_of_neg (by simp)]
      exact List.filter_eq_self.mpr fun other inside => by
        have different : other ≠ faultId := fun same => once (same ▸ inside)
        simpa using different
    simp only [List.map_cons, deleteAll, List.sum_cons]
    rcases deletion_delivers client json runtime errorPage losses now jitter own session with
      ⟨leaks, stub⟩ | ⟨leaks, erased, kept⟩
    · obtain ⟨lost, count, cleared⟩ := ih others (left ▸ stub ▸ ledger.forget member)
      exact ⟨lost, by rw [count, leaks, List.length_cons]; omega, cleared⟩
    · obtain ⟨lost, count, cleared⟩ := ih others (left ▸ ledger.erase member (kept ledger.sound) erased)
      exact ⟨lost, by rw [count, leaks]; omega, cleared⟩

private theorem answered_of_read (client : HttpTestClient) (json : Nlohmann ν) (runtime : Runtime)
    (errorPage : Nat → Bytes) (losses : Nat → Loss) (now : Nat → Int) (jitter : Nat → ℚ) (env : Environment)
    (call : Call ν) (session : Session Link) :
    let posted := client.perform json (lossyStub runtime errorPage losses now jitter) env call session
    posted.result = .ok response → valueString (ascii "id") response.body = .ok faultId →
      (finalReply posted.events).isSome = true := by
  intro posted answer read
  rcases perform_delivers client json runtime errorPage losses now jitter env call session with
    ⟨error, performed⟩ | ⟨_, _, _, result, _⟩
  · rw [show posted = _ from performed] at answer
    cases answer
  · cases reply : finalReply posted.events with
    | some _ => rfl
    | none =>
      have silent : response = readReply json (finalReply posted.events) := Except.ok.inj (answer.symm.trans result)
      rw [silent, reply] at read
      cases read

-- as long as a test has not failed, only a POST sent again after its reply was lost leaks
private theorem passing_step
    (step : TestStep client json (lossyStub runtime errorPage losses now jitter) runtime before deed after)
    (passed : after.failed = false) :
    before.failed = false ∧ (deed.leaks = 0 ∨ ∃ lost, deed = .inject lost true true) := by
  have grown {faultId : Bytes} (added : after.injected = before.injected ++ [faultId]) :
      decide (before.injected.length < after.injected.length) = true := by
    rw [added]
    simp
  cases step with
  | inject env path body _ next =>
    obtain ⟨_, noting⟩ := inject_noting client json (lossyStub runtime errorPage losses now jitter) before
      env path body
    rw [← next] at noting
    cases noting with
    | missed _ failed => cases passed.symm.trans failed
    | noted answer read _ added calm =>
      have answered := answered_of_read client json runtime errorPage losses now jitter env _ _ answer read
      exact ⟨calm passed, .inr ⟨_, by rw [answered, grown added]⟩⟩
  | starve env at_ subject _ next =>
    rcases starve_noting client json (lossyStub runtime errorPage losses now jitter) before env at_ subject with
      ⟨_, _, _, failed⟩ | ⟨_, events, noting⟩
    · rw [← next] at failed
      cases passed.symm.trans failed
    · rw [← next] at noting
      cases noting with
      | missed _ failed => cases passed.symm.trans failed
      | noted answer read _ added calm =>
        refine ⟨calm passed, .inr ⟨lostBetween before.session after.session, ?_⟩⟩
        have answered := answered_of_read client json runtime errorPage losses now jitter env _ _ answer read
        rw [events, answered, grown added]
  | remove noted next =>
    rename_i faultId
    rw [next] at passed
    obtain ⟨calm, status⟩ := Bool.or_eq_false_iff.mp passed
    refine ⟨calm, .inl ?_⟩
    have answered : (finalReply (deletion client json (lossyStub runtime errorPage losses now jitter) faultId
        before.session).events).isSome = true := by
      cases reply : finalReply (deletion client json (lossyStub runtime errorPage losses now jitter) faultId
          before.session).events with
      | some _ => rfl
      | none =>
        have silent : (deletion client json (lossyStub runtime errorPage losses now jitter) faultId
            before.session).response = readReply json none := reply ▸ runWithRetry_response json _ _ _ _ _
        rw [silent] at status
        cases status
    simp only [Deed.leaks, answered, Bool.true_or, ↓reduceIte]
  | other env call _ next =>
    rw [next] at passed
    exact ⟨passed, .inl rfl⟩

private theorem passing_run
    (run : Execution (TestStep client json (lossyStub runtime errorPage losses now jitter) runtime) before deeds after)
    (passed : after.failed = false) :
    before.failed = false ∧ ∀ deed ∈ deeds, deed.leaks = 0 ∨ ∃ lost, deed = .inject lost true true := by
  induction run with
  | done => exact ⟨passed, by simp⟩
  | more first _ ih =>
    obtain ⟨middle, others⟩ := ih passed
    obtain ⟨calm, own⟩ := passing_step first middle
    exact ⟨calm, List.forall_mem_cons.mpr ⟨own, others⟩⟩

end Steps

/-- Whatever a test injects and removes over a network that loses requests and replies, after
`TearDown` the registry is the one it found and, appended to it, one fault for each leak: of a
POST whose reply was lost or not understood, or of an id forgotten without a DELETE getting
through. The body of a test that has passed has leaked only by POSTs that were sent again;
what `TearDown` loses comes on top of that. -/
theorem tearDown_leaves_the_leaks (runtime : Runtime) (distinct : Function.Injective runtime.uuid4)
    (errorPage : Nat → Bytes) (losses : Nat → Loss) (now : Nat → Int) (jitter : Nat → ℚ) (json : Nlohmann ν)
    (ids : IdsComeBack runtime json) (client : HttpTestClient) (start last : Fixture) {deeds : List Deed}
    {history : List Exchange} (fresh : start.injected = [])
    (reachable : Execution (StubStep runtime) {} history start.session.wire.stub)
    (run : Execution (TestStep client json (lossyStub runtime errorPage losses now jitter) runtime) start deeds last)
    (safe : ∀ count < last.session.wire.stub.drawn, UrlSafe (runtime.uuid4 count)) :
    let torn := last.tearDown client json (lossyStub runtime errorPage losses now jitter)
    let leaks := ((deeds ++ torn.1).map Deed.leaks).sum
    torn.2.injected = [] ∧
    (∃ leaked, torn.2.session.wire.stub.faults.entries = start.session.wire.stub.faults.entries ++ leaked ∧
      leaked.length = leaks) ∧
    (torn.2.session.wire.stub.faults = start.session.wire.stub.faults ↔ leaks = 0) ∧
    (last.failed = false → ∀ deed ∈ deeds, deed.leaks = 0 ∨ ∃ lost, deed = .inject lost true true) := by
  intro torn leaks
  have initial : Accounts runtime start.session.wire.stub start 0 :=
    ⟨[], [], by simp [fresh], rfl, .initial (sound_reachable reachable)⟩
  obtain ⟨owned, leaked, remembered, count, ledger⟩ := initial.run distinct ids run safe
  have urlSafe : ∀ faultId ∈ owned, UrlSafe faultId := by
    intro faultId member
    obtain ⟨drawn, early, rfl⟩ := ledger.drawn (List.mem_append_left _ member)
    exact safe drawn early
  obtain ⟨lost, total, cleared⟩ := deleteAll_clears client json errorPage losses now jitter urlSafe ledger
  rw [← remembered] at total cleared
  obtain ⟨rest, entries, same⟩ := cleared.added
  have length : rest.length = leaks := by
    have listed := same.length_eq
    rw [List.length_map, List.nil_append] at listed
    rw [listed, total, count]
    simp only [leaks, torn, Fixture.tearDown, List.map_append, List.sum_append]
    omega
  have left : torn.2.session.wire.stub.faults.entries = start.session.wire.stub.faults.entries ++ rest := entries
  refine ⟨rfl, ⟨rest, left, length⟩, ?_, fun passed => (passing_run run passed).2⟩
  constructor
  · intro restored
    rw [restored] at left
    rw [← length, List.self_eq_append_right.mp left]
    rfl
  · intro none
    rw [List.eq_nil_of_length_eq_zero (length.trans none), List.append_nil] at left
    exact Dict.ext left

/-! ### A test that passes and leaks -/

def killRecord : Bytes := ascii "\x7b\"id\": \"fault-0\", \"type\": \"kill\", \"active\": true\x7d"

/-- A runtime that can also write the record of one kill fault, as `json.dumps` does. -/
def tellingDumps : PyJson → Bytes
  | .object [(first, .string faultId), (second, .string chaosType), (third, .boolean true)] =>
    if first = py "id" ∧ second = py "type" ∧ third = py "active" ∧ faultId = py "fault-0" ∧
        chaosType = py "kill" then
      killRecord
    else []
  | _ => []

def tellingRuntime : Runtime := { sampleRuntime with jsonText := tellingDumps }

private theorem tellingDumps_cases {fault : Record} (own : fault.get? (py "id") = some (.string faultId)) :
    tellingDumps (jsonOf fault) = [] ∨ faultId = py "fault-0" ∧ tellingDumps (jsonOf fault) = killRecord := by
  cases shape : jsonOf fault with
  | object entries =>
    unfold tellingDumps
    split
    · rename_i first _ second _ third same
      split
      · rename_i names
        obtain ⟨named, _, _, known, _⟩ := names
        subst named
        subst known
        right
        refine ⟨?_, rfl⟩
        have listed : fault.entries = _ := Json.object.inj (shape.trans same)
        have found := (fault.mem_entries_iff).mp (listed ▸ List.mem_cons_self)
        exact (Json.string.inj (Option.some.inj (found.symm.trans own))).symm
      · exact .inl rfl
    · exact .inl rfl
  | null | boolean _ | number _ | string _ | array _ => exact .inl rfl

private theorem killRecord_id : ((Nlohmann.text.parse killRecord).toOption.bind fun value =>
    (valueString (ascii "id") value).toOption) = some (ascii "fault-0") := by
  decide +kernel

private theorem tellingRuntime_ids : IdsComeBack tellingRuntime Nlohmann.text := by
  intro count chaosType fields value parsed
  have own : (newFault (tellingRuntime.uuid4 count) chaosType fields).get? (py "id") =
      some (.string (tellingRuntime.uuid4 count)) := get?_newFault_id fields
  have unread : (Nlohmann.text.parse []).toOption.isSome = false := by decide
  rcases tellingDumps_cases own with silent | ⟨same, written⟩
  · rw [show tellingRuntime.jsonText _ = [] from silent] at parsed
    rw [parsed] at unread
    cases unread
  · rw [show tellingRuntime.jsonText _ = killRecord from written] at parsed
    have known := killRecord_id
    rw [parsed] at known
    rw [same]
    cases read : valueString (ascii "id") value with
    | ok text =>
      simp only [Except.toOption, Option.bind_some, read, Option.some.injEq] at known
      rw [known]
      rfl
    | error error => simp [Except.toOption, read] at known

/-- The stub behind a network that loses the first reply. -/
def forgetfulNetwork : Surroundings Link :=
  lossyStub tellingRuntime (fun _ => []) (fun sent => if sent = 0 then .reply else .nothing) (fun _ => 0) (fun _ => 1)

def untouched : Fixture := { session := { wire := {} } }

/-- The one step of a test that injects a kill fault. -/
def killed : Fixture :=
  (untouched.inject resilientClient Nlohmann.text forgetfulNetwork (fun _ => none) (ascii "/v1/chaos/kill")
    (.object [])).2

private theorem killed_asks :
    AsksFault resilientClient Nlohmann.text tellingRuntime (fun _ => none) (.post (ascii "/v1/chaos/kill") (.object [])) := by
  intro request sent
  have built : resilientClient.request Nlohmann.text (fun _ => none)
      (.post (ascii "/v1/chaos/kill") (.object [])) = .ok
        { host := ascii "localhost", port := 8080, method := .post, path := ascii "/v1/chaos/kill"
          body := ascii "\x7b\x7d", contentType := some (ascii "application/json") } := by decide
  cases built.symm.trans sent
  have asks : (wireAsks tellingRuntime
      { host := ascii "localhost", port := 8080, method := .post, path := ascii "/v1/chaos/kill"
        body := ascii "\x7b\x7d", contentType := some (ascii "application/json") }).isSome = true := by
    decide
  obtain ⟨⟨chaosType, fields⟩, same⟩ := Option.isSome_iff_exists.mp asks
  exact ⟨chaosType, fields, same⟩

private theorem killed_step : ∃ deed, TestStep resilientClient Nlohmann.text forgetfulNetwork tellingRuntime
    untouched deed killed :=
  ⟨_, .inject (fun _ => none) (ascii "/v1/chaos/kill") (.object []) killed_asks rfl⟩

/-- The test passes, and the fault of its unanswered first POST stays behind. -/
theorem passing_test_leaks : killed.failed = false ∧
    ∃ leaked, (killed.tearDown resilientClient Nlohmann.text forgetfulNetwork).2.session.wire.stub.faults.entries =
      untouched.session.wire.stub.faults.entries ++ leaked ∧ leaked.length = 1 := by
  have passed : killed.failed = false := by decide +kernel
  have safe : ∀ count < killed.session.wire.stub.drawn, UrlSafe (tellingRuntime.uuid4 count) := by
    have two : killed.session.wire.stub.drawn = 2 := by decide +kernel
    rw [two]
    decide
  obtain ⟨deed, step⟩ := killed_step
  have network : lossyStub tellingRuntime (fun _ => []) (fun sent => if sent = 0 then .reply else .nothing)
      (fun _ => 0) (fun _ => 1) = forgetfulNetwork := rfl
  have whole := tearDown_leaves_the_leaks tellingRuntime sampleRuntime_distinct (fun _ => [])
    (fun sent => if sent = 0 then .reply else .nothing) (fun _ => 0) (fun _ => 1) Nlohmann.text
    tellingRuntime_ids resilientClient untouched killed rfl .done (.single (network ▸ step)) safe
  rw [network] at whole
  obtain ⟨_, ⟨leaked, entries, _⟩, _⟩ := whole
  have one : (killed.tearDown resilientClient Nlohmann.text
      forgetfulNetwork).2.session.wire.stub.faults.entries.length = 1 := by decide +kernel
  have none : untouched.session.wire.stub.faults.entries.length = 0 := rfl
  rw [entries, List.length_append, none, Nat.zero_add] at one
  exact ⟨passed, leaked, entries, one⟩

end Charybdis.EndToEnd
