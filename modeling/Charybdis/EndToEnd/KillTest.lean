import Charybdis.Client.RecoveryTimeout
import Charybdis.EndToEnd.FixtureRun
import Charybdis.EndToEnd.HealthWatch

/-! The kill test over a network that loses requests and replies: inject, wait for trouble,
remove, wait for recovery. -/

namespace Charybdis.EndToEnd

open Foundation Client Stub

def killPath : Bytes := ascii "/v1/chaos/kill"

/-- `std::chrono::seconds` on the clock of a schedule. -/
def seconds (count : Int) : Int := count * 1000000000

/-- `R03KillServiceHealthDegrades`: an assertion that does not hold and an exception end it.
`configured` is the value of `CHAOS_RECOVERY_TIMEOUT_S`. -/
def killTest (client : HttpTestClient) (json : Nlohmann ν) (around : Surroundings Link) (env : Environment)
    (configured : Option Bytes) (watch recovery : Schedule) (fixture : Fixture) : Fixture :=
  match fixture.inject client json around env killPath (.object []) with
  | (.error _, fixture) => fixture
  | (.ok fault, fixture) =>
    match valueString (ascii "id") fault, valueString (ascii "type") fault with
    | .ok faultId, .ok chaosType =>
      if faultId = [] ∨ chaosType ≠ ascii "kill" then { fixture with failed := true }
      else
        match waitWith (isDegraded client json around) (seconds 5) watch 0 fixture.session with
        | (.error _, session) => { fixture with session, failed := true }
        | (.ok degraded, session) =>
          let watched := { fixture with session, failed := fixture.failed || !degraded }
          let removed := watched.remove client json around faultId
          match waitWith (client.isHealthy json around) (seconds (chaosRecoveryTimeout configured)) recovery 0
              removed.session with
          | (.error _, session) => { removed with session, failed := true }
          | (.ok recovered, session) => { removed with session, failed := removed.failed || !recovered }
    | _, _ => { fixture with failed := true }

/-- The client reads id and type of the kill fault drawn as number `count` in the record the
stub writes of it. -/
structure KillComesBack (runtime : Runtime) (json : Nlohmann ν) (fields : Record) (count : Nat) : Prop where
  faultId : valueString (ascii "id") (Client.parseBody json (runtime.jsonText
    (jsonOf (newFault (runtime.uuid4 count) (py "kill") fields)))) = .ok (idBytes (runtime.uuid4 count))
  chaosType : valueString (ascii "type") (Client.parseBody json (runtime.jsonText
    (jsonOf (newFault (runtime.uuid4 count) (py "kill") fields)))) = .ok (ascii "kill")

/-! ### What the registry shows -/

section Registry

variable {runtime : Runtime} {stub next : Agamemnon}

private theorem kill_of_newFault (faultId : PyStr) (fields : Record) :
    (hasType (py "kill") (newFault faultId (py "kill") fields) &&
      isActive (newFault faultId (py "kill") fields)) = true := by
  simp only [hasType, isActive, get?_newFault_type, get?_newFault_active]
  decide

/-- The kill that is drawn as number `index`. -/
private def drawnKill (runtime : Runtime) (fields : Record) (drawn index : Nat) : PyStr × Record :=
  (runtime.uuid4 (drawn + index), newFault (runtime.uuid4 (drawn + index)) (py "kill") fields)

private theorem killActive_append {faults later : Dict PyStr Record} {drawn : Nat}
    (entries : later.entries = faults.entries ++ (List.range count).map (drawnKill runtime fields drawn)) :
    killActive later = (killActive faults || decide (0 < count)) := by
  have made : (List.range count).any (fun _ => true) = decide (0 < count) := by
    cases count with
    | zero => rfl
    | succ count => simp [List.range_succ]
  simp only [killActive, Dict.values, entries, List.map_append, List.map_map, List.any_append, List.any_map,
    Function.comp_def, drawnKill, kill_of_newFault, made]

theorem killActive_grown (grown : Grown runtime (py "kill") fields count stub next) :
    killActive next.faults = (killActive stub.faults || decide (0 < count)) :=
  killActive_append grown.entries

/-- The last of them is taken out again: the others still show. -/
theorem killActive_erased (distinct : Function.Injective runtime.uuid4) (sound : Sound runtime stub)
    (grown : Grown runtime (py "kill") fields (lost + 1) stub next) :
    killActive (next.faults.erase (runtime.uuid4 (stub.drawn + lost))) =
      (killActive stub.faults || decide (0 < lost)) := by
  apply killActive_append
  change next.faults.entries.filter (fun entry => decide (entry.1 ≠ runtime.uuid4 (stub.drawn + lost))) = _
  have older : stub.faults.entries.filter (fun entry => decide (entry.1 ≠ runtime.uuid4 (stub.drawn + lost))) =
      stub.faults.entries := by
    refine List.filter_eq_self.mpr fun entry member => ?_
    obtain ⟨count, early, same⟩ := sound.drawn entry.1 entry.2 (stub.faults.mem_entries_iff.mp member)
    have different : runtime.uuid4 count ≠ runtime.uuid4 (stub.drawn + lost) := fun again => by
      have equal := distinct again
      omega
    exact decide_eq_true (same ▸ different)
  have younger : ((List.range lost).map (drawnKill runtime fields stub.drawn)).filter
      (fun entry => decide (entry.1 ≠ runtime.uuid4 (stub.drawn + lost))) =
        (List.range lost).map (drawnKill runtime fields stub.drawn) := by
    refine List.filter_eq_self.mpr fun entry member => ?_
    obtain ⟨index, early, rfl⟩ := List.mem_map.mp member
    have below := List.mem_range.mp early
    have different : runtime.uuid4 (stub.drawn + index) ≠ runtime.uuid4 (stub.drawn + lost) := fun again => by
      have equal := distinct again
      omega
    exact decide_eq_true different
  have split : next.faults.entries = stub.faults.entries ++
      ((List.range lost).map (drawnKill runtime fields stub.drawn) ++ [drawnKill runtime fields stub.drawn lost]) := by
    rw [grown.entries, List.range_succ, List.map_append]
    rfl
  rw [split, List.filter_append, List.filter_append, older, younger, List.filter_cons_of_neg (by simp [drawnKill]),
    List.filter_nil, List.append_nil]

end Registry

section Test

variable {ν : Type} (client : HttpTestClient) (json : Nlohmann ν) (runtime : Runtime)
  (errorPage : Nat → Bytes) (losses : Nat → Loss) (now : Nat → Int) (jitter : Nat → ℚ)

private theorem inject_answered {around : Surroundings Link} {env : Environment} {path : Bytes} {body : Json Bytes ν}
    {fixture : Fixture} {response : Response ν}
    (result : (client.perform json around env (.post path body) fixture.session).result = .ok response)
    (read : valueString (ascii "id") response.body = .ok faultId) :
    fixture.inject client json around env path body = (.ok response.body, Fixture.note
      { fixture with
        session := (client.perform json around env (.post path body) fixture.session).session
        failed := fixture.failed || !succeeds response.status } faultId) := by
  simp only [Fixture.inject, result, read]

private theorem inject_kill (distinct : Function.Injective runtime.uuid4) (env : Environment) (fixture : Fixture)
    {request : WireRequest} (sent : client.request json env (.post killPath (.object [])) = .ok request)
    (wired : wireAsks runtime request = some (py "kill", fields)) (sound : Sound runtime fixture.session.wire.stub) :
    let around := lossyStub runtime errorPage losses now jitter
    let posted := client.perform json around env (.post killPath (.object [])) fixture.session
    let lost := lostBetween fixture.session posted.session
    let told := fixture.session.wire.stub.drawn + lost
    let injected := fixture.inject client json around env killPath (.object [])
    (finalReply posted.events = none ∧ ∃ error failed, injected = (.error error, failed) ∧ failed.failed = true) ∨
    ((finalReply posted.events).isSome = true ∧ Sound runtime posted.session.wire.stub ∧
      Grown runtime (py "kill") fields (lost + 1) fixture.session.wire.stub posted.session.wire.stub ∧
      (KillComesBack runtime json fields told → injected =
        (.ok (Client.parseBody json (runtime.jsonText (jsonOf (newFault (runtime.uuid4 told) (py "kill") fields)))),
          Fixture.note { fixture with session := posted.session } (idBytes (runtime.uuid4 told))))) := by
  intro around posted lost told injected
  rcases perform_delivers client json runtime errorPage losses now jitter env (.post killPath (.object []))
    fixture.session with ⟨error, performed⟩ | ⟨built, count, again, result, delivered⟩
  · refine .inl ⟨?_, error, { fixture with failed := true }, ?_, rfl⟩
    · simp only [posted, around, performed]
      rfl
    · simp only [injected, around, Fixture.inject, performed]
  · cases sent.symm.trans again
    change Delivers runtime errorPage request count fixture.session.wire posted.session.wire (finalReply posted.events)
      at delivered
    change posted.result = .ok (readReply json (finalReply posted.events)) at result
    cases reply : finalReply posted.events with
    | none =>
      rw [reply] at result
      refine .inl ⟨rfl, .json (.typeError 306), { fixture with session := posted.session, failed := true }, ?_, rfl⟩
      simp only [injected, Fixture.inject]
      rw [show (client.perform json around env (.post killPath (.object [])) fixture.session).result = _ from result]
      rfl
    | some answer =>
      rw [reply] at delivered result
      obtain ⟨unanswered, served, answered⟩ := delivered
      have between : lost = count := by simp only [lost, lostBetween, unanswered, Nat.add_sub_cancel_left]
      subst between
      have grown : Grown runtime (py "kill") fields lost fixture.session.wire.stub
          ((taken runtime errorPage request)^[lost] fixture.session.wire.stub) :=
        grown_taken_iterate distinct sound wired lost
      have record := (serveWire_asks errorPage distinct (sound_taken_iterate sound lost) wired).2.2 answer answered
      rw [grown.drawn] at record
      refine .inr ⟨rfl, ?_, ?_, fun tells => ?_⟩
      · rw [served]
        exact sound_taken_iterate sound (lost + 1)
      · rw [served]
        exact grown_taken_iterate distinct sound wired (lost + 1)
      · subst record
        have done := inject_answered client json result tells.faultId
        simpa [readReply, succeeds] using done

/-- A DELETE of a live fault is answered 200, one of any other 404. -/
theorem serveWire_deletes {request : WireRequest} (names : wireNames runtime request = some faultId) (stub : Agamemnon)
    {answer : HttpResponse} (answered : (serveWire runtime errorPage request stub).1 = some answer) :
    answer.status = if stub.faults.contains faultId = true then 200 else 404 := by
  obtain ⟨arrived, arrives, names⟩ := wireNames_iff.mp names
  obtain ⟨verb, routed⟩ := named_iff.mp names
  have served : handle runtime stub arrived = doDelete runtime stub (chaosPrefix ++ faultId) := by
    simp only [handle, verb, routed]
  have inside : chaosPrefix.isPrefixOf (chaosPrefix ++ faultId) = true :=
    List.isPrefixOf_iff_prefix.mpr (List.prefix_append _ _)
  rw [serveWire_arrived arrives, served, doDelete, if_pos inside] at answered
  simp only [List.drop_left] at answered
  split at answered
  · rename_i live
    rw [if_pos live, answer_send answered]
    rfl
  · rename_i gone
    rw [if_neg gone, answer_send answered]
    rfl

private theorem deletion_succeeds (safe : UrlSafe faultId) (session : Session Link)
    (live : session.wire.stub.faults.contains faultId = true) :
    let deleted := deletion client json (lossyStub runtime errorPage losses now jitter) (idBytes faultId) session
    (succeeds deleted.response.status = true ↔
      (finalReply deleted.events).isSome = true ∧ lostBetween session deleted.session = 0) ∧
    ((finalReply deleted.events).isSome = true →
      deleted.session.wire.stub.faults = session.wire.stub.faults.erase faultId) := by
  intro deleted
  obtain ⟨lost, delivered⟩ := runWithRetry_delivers runtime errorPage losses now jitter json client.retry
    client.breakerCfg session
  have names := wireNames_deletion runtime client safe
  have response : deleted.response = readReply json (finalReply deleted.events) := runWithRetry_response json _ _ _ _ _
  change Delivers runtime errorPage _ lost session.wire deleted.session.wire (finalReply deleted.events) at delivered
  rw [response]
  cases reply : finalReply deleted.events with
  | none => exact ⟨by simp [readReply, succeeds], nofun⟩
  | some answer =>
    rw [reply] at delivered
    obtain ⟨unanswered, served, answered⟩ := delivered
    have between : lostBetween session deleted.session = lost := by
      rw [lostBetween, unanswered, Nat.add_sub_cancel_left]
    have status := serveWire_deletes runtime errorPage names _ answered
    refine ⟨?_, fun _ => by rw [served, faults_taken_iterate names]⟩
    rw [between]
    cases lost with
    | zero =>
      rw [Function.iterate_zero_apply, if_pos live] at status
      simp [readReply, succeeds, status]
    | succ lost =>
      have gone : ((session.wire.stub.faults.erase faultId).contains faultId) = false := by
        rw [Dict.contains, Dict.get?_erase, if_pos rfl]
        rfl
      rw [faults_taken_iterate names, gone, if_neg (by simp)] at status
      simp [readReply, succeeds, status]

private theorem killTest_ends {around : Surroundings Link} {configured : Option Bytes} {watch recovery : Schedule}
    {start fixture : Fixture} (env : Environment) {fault : Json Bytes ν} {watched last : Session Link}
    (injected : start.inject client json around env killPath (.object []) = (.ok fault, fixture))
    (named : valueString (ascii "id") fault = .ok faultId) (typed : valueString (ascii "type") fault = .ok (ascii "kill"))
    (spelled : faultId ≠ [])
    (first : waitWith (isDegraded client json around) (seconds 5) watch 0 fixture.session = (.ok degraded, watched))
    (second : waitWith (client.isHealthy json around) (seconds (chaosRecoveryTimeout configured)) recovery 0
      (deletion client json around faultId watched).session = (.ok recovered, last)) :
    (killTest client json around env configured watch recovery start).failed =
      (fixture.failed || !degraded || !succeeds (deletion client json around faultId watched).response.status ||
        !recovered) := by
  simp only [killTest, injected, named, typed, spelled, ne_eq, not_true_eq_false, or_self, ↓reduceIte, first,
    Fixture.remove, second]

/-- The kill test passes iff its POST is answered before a reply to it is lost, the first look
for trouble comes in time, the DELETE is answered before a reply to it is lost, and one of the
polls for recovery is answered. Every call is repeated, which makes up for a request that was
lost but not for a reply: the POST sent again after one registers a kill that nobody removes. -/
theorem killTest_passes_iff (distinct : Function.Injective runtime.uuid4) (env : Environment)
    (configured : Option Bytes) (watch recovery : Schedule) (start : Fixture) {history : List Exchange}
    (reachable : Execution (StubStep runtime) {} history start.session.wire.stub)
    (calm : killActive start.session.wire.stub.faults = false) (unfailed : start.failed = false) {request : WireRequest}
    (sent : client.request json env (.post killPath (.object [])) = .ok request)
    (wired : wireAsks runtime request = some (py "kill", fields)) (ok : OkComesBack runtime json) :
    let around := lossyStub runtime errorPage losses now jitter
    let posted := client.perform json around env (.post killPath (.object [])) start.session
    let lost := lostBetween start.session posted.session
    let told := start.session.wire.stub.drawn + lost
    let watched := waitWith (isDegraded client json around) (seconds 5) watch 0 posted.session
    let deleted := deletion client json around (idBytes (runtime.uuid4 told)) watched.2
    KillComesBack runtime json fields told → UrlSafe (runtime.uuid4 told) →
    ((killTest client json around env configured watch recovery start).failed = false ↔
      ((finalReply posted.events).isSome = true ∧ lost = 0) ∧ watch.InTime (seconds 5) 0 ∧
      ((finalReply deleted.events).isSome = true ∧ lostBetween watched.2 deleted.session = 0) ∧
      ∃ count, recovery.InTime (seconds (chaosRecoveryTimeout configured)) count ∧
        Answered client json around (afterPolls (client.isHealthy json around) count deleted.session)) := by
  intro around posted lost told watched deleted tells safe
  rcases inject_kill client json runtime errorPage losses now jitter distinct env start sent wired
    (sound_reachable reachable) with ⟨silent, error, failed, injected, ended⟩ | ⟨answered, sound', grown, injected⟩
  · have stops : killTest client json around env configured watch recovery start = failed := by
      simp only [killTest, around, injected]
    rw [stops, ended]
    have none : (finalReply posted.events).isSome = false := by
      rw [show finalReply posted.events = none from silent]
      rfl
    simp [none]
  · have spelled : idBytes (runtime.uuid4 told) ≠ [] := by
      simpa [idBytes] using safe.1
    have killed : killActive posted.session.wire.stub.faults = true := by
      rw [killActive_grown grown]
      simp
    obtain ⟨watching, degraded, troubled, when⟩ := wait_degraded client json runtime errorPage losses now jitter ok
      (seconds 5) watch posted.session
    change watched.2.wire.stub.faults = posted.session.wire.stub.faults at watching
    have live : watched.2.wire.stub.faults.contains (runtime.uuid4 told) = true := by
      have present : drawnKill runtime fields start.session.wire.stub.drawn lost ∈
          posted.session.wire.stub.faults.entries := by
        rw [grown.entries]
        exact List.mem_append_right _ (List.mem_map_of_mem List.self_mem_range_succ)
      rw [watching, Dict.contains, Dict.mem_entries_iff _ |>.mp present]
      rfl
    obtain ⟨removal, gone⟩ := deletion_succeeds client json runtime errorPage losses now jitter safe watched.2 live
    obtain ⟨_, recovered, calmed, whether⟩ := wait_healthy client json runtime errorPage losses now jitter ok
      (seconds (chaosRecoveryTimeout configured)) recovery deleted.session
    have ends : (killTest client json around env configured watch recovery start).failed =
        (!degraded || !succeeds deleted.response.status || !recovered) := by
      have noted : Fixture.note { start with session := posted.session } (idBytes (runtime.uuid4 told)) =
          { start with session := posted.session, injected := start.injected ++ [idBytes (runtime.uuid4 told)] } :=
        if_neg spelled
      have first : waitWith (isDegraded client json around) (seconds 5) watch 0 posted.session =
          (.ok degraded, watched.2) := Prod.ext troubled rfl
      have step := injected tells
      rw [noted] at step
      have ended := killTest_ends client json env step tells.faultId tells.chaosType spelled first
        (Prod.ext calmed rfl)
      rw [unfailed, Bool.false_or] at ended
      exact ended
    have left : (finalReply deleted.events).isSome = true →
        killActive deleted.session.wire.stub.faults = decide (0 < lost) := by
      intro through
      rw [gone through, watching, killActive_erased distinct (sound_reachable reachable) grown, calm, Bool.false_or]
    have opening : degraded = true ↔ watch.InTime (seconds 5) 0 := by
      refine when.trans ⟨?_, fun early => ⟨0, early, .inl killed⟩⟩
      rintro ⟨count, early, _⟩
      exact lt_of_le_of_lt (Int.sub_le_sub_right (watch.check_mono count.zero_le) _) early
    rw [ends, Bool.or_eq_false_iff, Bool.or_eq_false_iff, Bool.not_eq_false', Bool.not_eq_false', Bool.not_eq_false',
      opening, removal, whether]
    constructor
    · rintro ⟨⟨early, through⟩, quiet, seen⟩
      rw [left through.1, decide_eq_false_iff_not, Nat.not_lt, Nat.le_zero] at quiet
      exact ⟨⟨answered, quiet⟩, early, through, seen⟩
    · rintro ⟨⟨_, quiet⟩, early, through, seen⟩
      refine ⟨⟨early, through⟩, ?_, seen⟩
      rw [left through.1, quiet]
      rfl

end Test

/-! ### A kill whose first reply is lost -/

/-- A runtime that writes the record of the second kill fault and the body of a healthy stub. -/
def speakingDumps : PyJson → Bytes
  | .object [(name, .string text)] =>
    if name = py "status" ∧ text = py "ok" then ascii "\x7b\"status\": \"ok\"\x7d" else []
  | body => tellingDumps body

def speakingRuntime : Runtime := { sampleRuntime with jsonText := speakingDumps }

/-- The stub behind a network that loses the first reply. -/
def oneReplyLost : Surroundings Link :=
  lossyStub speakingRuntime (fun _ => []) (fun sent => if sent = 0 then .reply else .nothing) (fun _ => 0) (fun _ => 1)

private def killRequest : WireRequest :=
  { host := ascii "localhost", port := 8080, method := .post, path := killPath, body := ascii "\x7b\x7d"
    contentType := some (ascii "application/json") }

private theorem killRequest_asks : wireAsks speakingRuntime killRequest = some (py "kill", .empty) := by
  have shape : (wireAsks speakingRuntime killRequest).map (fun asks => (asks.1, asks.2.entries.length)) =
      some (py "kill", 0) := by decide
  obtain ⟨⟨chaosType, fields⟩, asks, same⟩ := Option.map_eq_some_iff.mp shape
  have typed : chaosType = py "kill" := congrArg Prod.fst same
  have none : fields = .empty := Dict.ext (List.eq_nil_of_length_eq_zero (congrArg Prod.snd same))
  rw [asks, typed, none]

private theorem toOption_some {result : Except ε α} (read : result.toOption = some value) : result = .ok value := by
  cases result with
  | error _ => cases read
  | ok _ => exact congrArg Except.ok (Option.some.inj read)

/-- The retried kill fails its test: the fault of the first POST is still there. -/
theorem retried_kill_fails_its_test :
    (killTest resilientClient Nlohmann.text oneReplyLost (fun _ => none) none promptSchedule promptSchedule
      untouched).failed = true := by
  have sent : resilientClient.request Nlohmann.text (fun _ => none) (.post killPath (.object [])) = .ok killRequest := by
    decide
  have ok : OkComesBack speakingRuntime Nlohmann.text := toOption_some (by decide +kernel)
  have lost : lostBetween untouched.session (resilientClient.perform Nlohmann.text oneReplyLost (fun _ => none)
      (.post killPath (.object [])) untouched.session).session = 1 := by decide
  have tells : KillComesBack speakingRuntime Nlohmann.text .empty (untouched.session.wire.stub.drawn + 1) :=
    ⟨toOption_some (by decide +kernel), toOption_some (by decide +kernel)⟩
  have network : lossyStub speakingRuntime (fun _ => []) (fun sent => if sent = 0 then .reply else .nothing)
      (fun _ => 0) (fun _ => 1) = oneReplyLost := rfl
  have whole := killTest_passes_iff resilientClient Nlohmann.text speakingRuntime (fun _ => [])
    (fun sent => if sent = 0 then .reply else .nothing) (fun _ => 0) (fun _ => 1) sampleRuntime_distinct
    (fun _ => none) none promptSchedule promptSchedule untouched .done rfl rfl sent killRequest_asks ok
  rw [network] at whole
  simp only [lost] at whole
  rw [← Bool.not_eq_false]
  intro passes
  exact one_ne_zero ((whole tells (by decide)).mp passes).1.2

end Charybdis.EndToEnd
