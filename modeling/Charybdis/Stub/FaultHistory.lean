import Charybdis.Stub.Registry

/-! The fault registry as a function of what the stub was asked and what it answered. -/

namespace Charybdis.Stub

open Foundation

/-- The exchange is a POST under `/v1/chaos/` answered 201 with the record of the fault. -/
def Creates (runtime : Runtime) (exchange : Exchange) (faultId : PyStr) (fault : Record) : Prop :=
  exchange.request.method = .post ∧
  (∃ path, route runtime exchange.request.path = .ok path ∧ chaosPrefix.isPrefixOf path = true) ∧
  ∃ reply ∈ exchange.outcome.sent, reply.status = 201 ∧ reply.body = jsonOf fault ∧
    fault.get? (py "id") = some (.string faultId)

/-- The exchange is a DELETE of the identifier answered 200. -/
def Removes (runtime : Runtime) (exchange : Exchange) (faultId : PyStr) : Prop :=
  exchange.request.method = .delete ∧
  route runtime exchange.request.path = .ok (chaosPrefix ++ faultId) ∧
  ∃ reply ∈ exchange.outcome.sent, reply.status = 200

/-- Created, and not removed since. -/
def Live (runtime : Runtime) (history : List Exchange) (faultId : PyStr) (fault : Record) : Prop :=
  ∃ earlier exchange later, history = earlier ++ exchange :: later ∧
    Creates runtime exchange faultId fault ∧ ∀ other ∈ later, ¬ Removes runtime other faultId

theorem live_concat : Live runtime (history ++ [exchange]) faultId fault ↔
    Creates runtime exchange faultId fault ∨
      (Live runtime history faultId fault ∧ ¬ Removes runtime exchange faultId) := by
  constructor
  · rintro ⟨earlier, made, later, split, creates, kept⟩
    rcases List.eq_nil_or_concat later with none | ⟨before, last, same⟩
    · subst none
      obtain ⟨_, equal⟩ := List.append_inj' split rfl
      cases equal
      exact .inl creates
    · rw [List.concat_eq_append] at same
      subst same
      rw [← List.cons_append, ← List.append_assoc] at split
      obtain ⟨rest, equal⟩ := List.append_inj' split rfl
      cases equal
      exact .inr ⟨⟨earlier, made, before, rest, creates,
        fun other member => kept other (List.mem_append_left _ member)⟩, kept _ (by simp)⟩
  · rintro (creates | ⟨⟨earlier, made, later, split, creates, kept⟩, still⟩)
    · exact ⟨history, exchange, [], rfl, creates, by simp⟩
    · refine ⟨earlier, made, later ++ [exchange], by simp [split], creates, fun other member => ?_⟩
      rcases List.mem_append.mp member with before | last
      · exact kept other before
      · cases List.mem_singleton.mp last
        exact still

/-- A request handled without an exception. -/
def CleanStep (runtime : Runtime) (stub : Agamemnon) (exchange : Exchange) (next : Agamemnon) : Prop :=
  StubStep runtime stub exchange next ∧ exchange.outcome.raised = none

theorem jsonOf_injective : Function.Injective jsonOf :=
  fun _ _ same => Dict.ext (Json.object.inj same)

section Steps

variable {runtime : Runtime} {stub next : Agamemnon} {exchange : Exchange}

theorem sent_of_clean (sent : exchange.outcome = send runtime served status body)
    (clean : exchange.outcome.raised = none) :
    ∃ delay, activeLatencyMs served.faults = .ok delay ∧
      exchange.outcome = { stub := served, sent := [⟨status, body, max 0 delay⟩] } := by
  rcases send_cases runtime served status body with ⟨_, _, raised⟩ | ⟨delay, total, _, _, done⟩
  · rw [sent, raised] at clean
    cases clean
  · exact ⟨delay, total, sent.trans done⟩

theorem clean_registers (asks : asked runtime exchange.request = some (chaosType, fields))
    (sent : exchange.outcome = send runtime (registered runtime stub chaosType fields) 201
      (jsonOf (newFault (runtime.uuid4 stub.drawn) chaosType fields)))
    (clean : exchange.outcome.raised = none) :
    (∀ faultId fault, Creates runtime exchange faultId fault ↔ faultId = runtime.uuid4 stub.drawn ∧
      fault = newFault (runtime.uuid4 stub.drawn) chaosType fields) ∧
    ∀ faultId, ¬ Removes runtime exchange faultId := by
  obtain ⟨verb, routed, _⟩ := asked_iff.mp asks
  obtain ⟨delay, _, done⟩ := sent_of_clean sent clean
  refine ⟨fun faultId fault => ⟨?_, ?_⟩, ?_⟩
  · rintro ⟨_, _, reply, member, _, body, own⟩
    rw [done] at member
    cases List.mem_singleton.mp member
    have same := jsonOf_injective body
    subst same
    rw [get?_newFault_id] at own
    cases own
    exact ⟨rfl, rfl⟩
  · rintro ⟨same, made⟩
    subst same
    subst made
    refine ⟨verb, ⟨_, routed, List.isPrefixOf_iff_prefix.mpr (List.prefix_append _ _)⟩,
      ⟨201, _, max 0 delay⟩, by rw [done]; exact List.mem_singleton_self _, rfl, rfl, get?_newFault_id fields⟩
  · rintro faultId ⟨other, _⟩
    rw [verb] at other
    cases other

theorem clean_removes (names : named runtime exchange.request = some faultId)
    (sent : exchange.outcome = send runtime served 200 body) (clean : exchange.outcome.raised = none) :
    (∀ other fault, ¬ Creates runtime exchange other fault) ∧
    ∀ other, Removes runtime exchange other ↔ other = faultId := by
  obtain ⟨verb, routed⟩ := named_iff.mp names
  obtain ⟨delay, _, done⟩ := sent_of_clean sent clean
  refine ⟨?_, fun other => ⟨?_, ?_⟩⟩
  · rintro other fault ⟨post, _⟩
    rw [verb] at post
    cases post
  · rintro ⟨_, path, _⟩
    rw [routed] at path
    exact (List.append_cancel_left (Except.ok.inj path)).symm
  · intro same
    subst same
    exact ⟨verb, routed, ⟨200, _, max 0 delay⟩, by rw [done]; exact List.mem_singleton_self _, rfl⟩

theorem leftAlone_neither (alone : LeftAlone runtime stub exchange.request)
    (served : handle runtime stub exchange.request = exchange.outcome) :
    (∀ faultId fault, ¬ Creates runtime exchange faultId fault) ∧
    ∀ faultId, ¬ Removes runtime exchange faultId := by
  constructor
  · rintro faultId fault ⟨verb, ⟨path, routed, inside⟩, reply, member, status, _⟩
    rw [← served] at member
    rw [alone.uncreated reply member status verb path routed] at inside
    cases inside
  · rintro faultId ⟨verb, _, reply, member, status⟩
    rw [← served] at member
    exact alone.undeleted reply member status verb

/-- The registry and the history agree, in a sound state. -/
structure Recounts (runtime : Runtime) (history : List Exchange) (stub : Agamemnon) : Prop where
  sound : Sound runtime stub
  agrees : ∀ faultId fault, stub.faults.get? faultId = some fault ↔ Live runtime history faultId fault

theorem recounts_step (distinct : Function.Injective runtime.uuid4)
    (recounts : Recounts runtime history stub) (step : CleanStep runtime stub exchange next) :
    Recounts runtime (history ++ [exchange]) next := by
  obtain ⟨⟨served, reached⟩, clean⟩ := step
  have sound : Sound runtime next := by
    rw [← reached, ← served]
    exact sound_handle recounts.sound _
  refine ⟨sound, fun faultId fault => ?_⟩
  rw [live_concat, ← recounts.agrees]
  rcases handle_cases runtime stub exchange.request with
    ⟨chaosType, fields, asks, done⟩ | ⟨removedId, names, present, done⟩ | alone
  · obtain ⟨creates, removes⟩ := clean_registers asks (served ▸ done) clean
    have fresh := recounts.sound.fresh distinct
    have state : next = registered runtime stub chaosType fields := by
      rw [← reached, ← served, done, send_stub]
    rw [state, registered, Dict.get?_set, creates]
    by_cases same : faultId = runtime.uuid4 stub.drawn
    · subst same
      simp [fresh, eq_comm]
    · simp [same, removes]
  · obtain ⟨creates, removes⟩ := clean_removes names (served ▸ done) clean
    have state : next = removed stub removedId := by
      rw [← reached, ← served, done, send_stub]
    rw [state, removed, Dict.get?_erase, removes]
    by_cases same : faultId = removedId <;> simp [same, creates]
  · obtain ⟨creates, removes⟩ := leftAlone_neither alone served
    have state : next.faults = stub.faults := by
      rw [← reached, ← served]
      exact alone.same.1
    simp [state, creates, removes]

theorem recounts_run (distinct : Function.Injective runtime.uuid4)
    (run : Execution (CleanStep runtime) {} history stub) : Recounts runtime history stub := by
  have initial : Recounts runtime [] {} :=
    ⟨sound_initial runtime, fun _ _ => ⟨nofun, fun ⟨_, _, _, impossible, _⟩ => by simp at impossible⟩⟩
  exact run.history (recounts_step distinct) initial

/-- In a sound state a type of fault is active as soon as there is one of it. -/
theorem typeActive_iff (sound : Sound runtime stub) (type : PyStr) :
    (stub.faults.values.any fun fault => hasType type fault && isActive fault) = true ↔
      ∃ faultId fault, stub.faults.get? faultId = some fault ∧
        fault.get? (py "type") = some (.string type) := by
  simp only [List.any_eq_true, Bool.and_eq_true]
  constructor
  · rintro ⟨fault, member, typed, _⟩
    obtain ⟨⟨faultId, found⟩, present, same⟩ := List.mem_map.mp member
    subst same
    exact ⟨faultId, found, stub.faults.mem_entries_iff.mp present, hasType_iff.mp typed⟩
  · rintro ⟨faultId, fault, found, typed⟩
    have member : fault ∈ stub.faults.values :=
      List.mem_map.mpr ⟨(faultId, fault), stub.faults.mem_entries_iff.mpr found, rfl⟩
    exact ⟨fault, member, hasType_iff.mpr typed, sound.active member⟩

theorem killActive_iff (sound : Sound runtime stub) : killActive stub.faults = true ↔
    ∃ faultId fault, stub.faults.get? faultId = some fault ∧
      fault.get? (py "type") = some (.string (py "kill")) :=
  typeActive_iff sound (py "kill")

theorem queueStarveActive_iff (sound : Sound runtime stub) : queueStarveActive stub.faults = true ↔
    ∃ faultId fault, stub.faults.get? faultId = some fault ∧
      fault.get? (py "type") = some (.string (py "queue-starve")) :=
  typeActive_iff sound (py "queue-starve")

theorem health_status {request : Request} (verb : request.method = .get)
    (routed : route runtime request.path = .ok healthPath)
    (member : reply ∈ (handle runtime stub request).sent) :
    reply.status = if killActive stub.faults = true then 503 else 200 := by
  have served : handle runtime stub request = doGet runtime stub healthPath := by
    simp only [handle, verb, routed]
  rw [served, doGet, if_pos rfl] at member
  split at member
  · rename_i kills
    rw [if_pos kills]
    exact send_status member
  · rename_i calm
    rw [if_neg calm]
    exact send_status member

/-- Every response of a handler waited for the total of the state it left. -/
theorem reply_delay {request : Request} (handled : request.method ≠ .other)
    (member : reply ∈ (handle runtime stub request).sent) :
    ∃ delay, activeLatencyMs (handle runtime stub request).stub.faults = .ok delay ∧
      reply.delayMs = max 0 delay := by
  have ends : Ends runtime (handle runtime stub request) := ends_handle handled
  revert member
  generalize handle runtime stub request = outcome at ends
  intro member
  cases ends with
  | raised next error => cases member
  | sent served status body =>
    rcases send_cases runtime served status body with ⟨_, _, raised⟩ | ⟨delay, total, _, _, done⟩
    · rw [raised] at member
      cases member
    · rw [done] at member ⊢
      cases List.mem_singleton.mp member
      exact ⟨delay, total, rfl⟩

end Steps

/-- Requests served one after another. -/
def serve (runtime : Runtime) (stub : Agamemnon) (requests : List Request) : Agamemnon :=
  requests.foldl (fun stub request => (handle runtime stub request).stub) stub

/-- A DELETE takes its fault out of the registry, whether or not it can answer. -/
theorem handle_delete_stub (verb : request.method = .delete) :
    (handle runtime stub request).stub = ((named runtime request).map (removed stub)).getD stub := by
  cases routed : route runtime request.path with
  | error error => simp [handle, named, verb, routed]
  | ok path =>
    simp only [handle, named, verb, routed, doDelete]
    split
    · rename_i inside
      split
      · rename_i present
        simp [removed]
      · rename_i absent
        have none : stub.faults.get? (path.drop chaosPrefix.length) = none := by
          simpa [Dict.contains] using absent
        simp [removed, stub.faults.erase_of_absent none]
    · simp

theorem removed_comm (stub : Agamemnon) (first second : PyStr) :
    removed (removed stub first) second = removed (removed stub second) first := by
  simp only [removed, Dict.erase_comm stub.faults first second]

theorem serve_deletions_perm {deletions permuted : List Request} (runtime : Runtime) (stub : Agamemnon)
    (same : deletions.Perm permuted) (verbs : ∀ request ∈ deletions, request.method = .delete) :
    serve runtime stub deletions = serve runtime stub permuted := by
  refine same.foldl_eq' (fun first early second late stub => ?_) stub
  rw [handle_delete_stub (verbs second late), handle_delete_stub (verbs first early),
    handle_delete_stub (verbs first early), handle_delete_stub (verbs second late)]
  cases named runtime first <;> cases named runtime second <;> simp [removed_comm]

private theorem created_as_asked {history : List Exchange} {stub : Agamemnon} {exchange : Exchange}
    (run : Execution (CleanStep runtime) {} history stub) (member : exchange ∈ history)
    (creates : Creates runtime exchange faultId fault) :
    fault.get? (py "id") = some (.string faultId) ∧
      fault.get? (py "active") = some (.boolean true) ∧
      ∃ chaosType ∈ faultTypes, fault.get? (py "type") = some (.string chaosType) ∧
        route runtime exchange.request.path = .ok (chaosPrefix ++ chaosType) ∧
        ∃ body fields, parseBody runtime exchange.request = .ok (body, false) ∧
          bodyFields body = .ok fields ∧ ∀ key, key ∉ ownKeys → fault.get? key = fields.get? key := by
  obtain ⟨earlier, later, split⟩ := List.append_of_mem member
  rw [split] at run
  obtain ⟨before, after, early, ⟨⟨served, _⟩, clean⟩, _⟩ := run.at_label
  rcases handle_cases runtime before exchange.request with
    ⟨chaosType, fields, asks, done⟩ | ⟨_, names, _, done⟩ | alone
  · obtain ⟨same, made⟩ := ((clean_registers asks (served ▸ done) clean).1 faultId fault).mp creates
    obtain ⟨_, routed, known, body, parsed, read⟩ := asked_iff.mp asks
    subst same
    subst made
    exact ⟨get?_newFault_id fields, get?_newFault_active fields, chaosType, known,
      get?_newFault_type fields, routed, body, fields, parsed, read,
      fun key other => get?_newFault_other fields other⟩
  · exact absurd creates ((clean_removes names (served ▸ done) clean).1 faultId fault)
  · exact absurd creates ((leftAlone_neither alone served).1 faultId fault)

private theorem last_reply_waited {history : List Exchange} {stub : Agamemnon} {exchange : Exchange}
    (run : Execution (CleanStep runtime) {} (history ++ [exchange]) stub) (sound : Sound runtime stub)
    (handled : exchange.request.method ≠ .other) (member : reply ∈ exchange.outcome.sent) :
    ∃ delays, Delays (stub.faults.values.filter (hasType (py "latency"))) delays ∧
      reply.delayMs = max 0 delays.sum := by
  obtain ⟨before, after, _, ⟨⟨served, reached⟩, _⟩, ended⟩ := run.at_label
  cases ended
  rw [← served] at member
  obtain ⟨delay, total, waited⟩ := reply_delay handled member
  rw [served, reached] at total
  obtain ⟨delays, each, sum⟩ := (activeLatencyMs_iff _ _).mp total
  rw [latencyFaults_eq sound] at each
  exact ⟨delays, each, sum ▸ waited⟩

private theorem unhandled_reply_prompt {history : List Exchange} {stub : Agamemnon} {exchange : Exchange}
    (run : Execution (CleanStep runtime) {} (history ++ [exchange]) stub)
    (unhandled : exchange.request.method = .other) (member : reply ∈ exchange.outcome.sent) : reply.delayMs = 0 := by
  obtain ⟨before, _, _, ⟨⟨served, _⟩, _⟩, _⟩ := run.at_label
  have prompt : handle runtime before exchange.request = { stub := before, sent := [⟨501, .null, 0⟩] } := by
    simp only [handle, unhandled]
  rw [← served, prompt] at member
  cases List.mem_singleton.mp member
  rfl

/-- Along every run without exceptions the registry holds exactly the faults created and not
removed since, each as it was asked for; the health check, the delay of a handler's response
and the outcome of deletions in any order follow from it. -/
theorem faults_follow_history (runtime : Runtime) (distinct : Function.Injective runtime.uuid4)
    {history : List Exchange} {stub : Agamemnon} (run : Execution (CleanStep runtime) {} history stub) :
    (∀ faultId fault, stub.faults.get? faultId = some fault ↔ Live runtime history faultId fault) ∧
    (∀ exchange ∈ history, ∀ faultId fault, Creates runtime exchange faultId fault →
      fault.get? (py "id") = some (.string faultId) ∧
      fault.get? (py "active") = some (.boolean true) ∧
      ∃ chaosType ∈ faultTypes, fault.get? (py "type") = some (.string chaosType) ∧
        route runtime exchange.request.path = .ok (chaosPrefix ++ chaosType) ∧
        ∃ body fields, parseBody runtime exchange.request = .ok (body, false) ∧
          bodyFields body = .ok fields ∧ ∀ key, key ∉ ownKeys → fault.get? key = fields.get? key) ∧
    (∀ request, request.method = .get → route runtime request.path = .ok healthPath →
      ∀ reply ∈ (handle runtime stub request).sent,
        (reply.status = 503 ∧ ∃ faultId fault, Live runtime history faultId fault ∧
            fault.get? (py "type") = some (.string (py "kill"))) ∨
        (reply.status = 200 ∧ ¬ ∃ faultId fault, Live runtime history faultId fault ∧
            fault.get? (py "type") = some (.string (py "kill")))) ∧
    (∀ earlier exchange, history = earlier ++ [exchange] → ∀ reply ∈ exchange.outcome.sent,
      (exchange.request.method ≠ .other → ∃ delays,
        Delays (stub.faults.values.filter (hasType (py "latency"))) delays ∧
          reply.delayMs = max 0 delays.sum) ∧
      (exchange.request.method = .other → reply.delayMs = 0)) ∧
    (∀ deletions permuted : List Request, deletions.Perm permuted →
      (∀ request ∈ deletions, request.method = .delete) →
      serve runtime stub deletions = serve runtime stub permuted) := by
  have recounts := recounts_run distinct run
  refine ⟨recounts.agrees, ?_, ?_, ?_, fun _ _ => serve_deletions_perm runtime stub⟩
  · exact fun exchange member faultId fault => created_as_asked run member
  · intro request verb routed reply member
    have status := health_status verb routed member
    have kills := killActive_iff recounts.sound
    simp only [recounts.agrees] at kills
    by_cases active : killActive stub.faults = true
    · exact .inl ⟨by rw [status, if_pos active], kills.mp active⟩
    · exact .inr ⟨by rw [status, if_neg active], fun live => active (kills.mpr live)⟩
  · intro earlier exchange split reply member
    rw [split] at run
    exact ⟨fun handled => last_reply_waited run recounts.sound handled member,
      fun unhandled => unhandled_reply_prompt run unhandled member⟩

/-- A runtime that knows two JSON texts. -/
def sampleRuntime : Runtime where
  loads raw :=
    if raw = ascii "\x7b\x7d" then .ok (.object [])
    else if raw = ascii "\x7b\"delay_ms\":null\x7d" then .ok (.object [(py "delay_ms", .null)])
    else .error .decode
  jsonText _ := ascii "\x7b\x7d"
  maxNesting := 900
  nesting := by decide
  uuid4 count := py "fault-" ++ List.replicate count 0x30
  validNetloc _ := true
  sleepLimitMs := 9223372036854

theorem sampleRuntime_distinct : Function.Injective sampleRuntime.uuid4 := by
  intro first second same
  have rest : List.replicate first 0x30 = List.replicate second 0x30 := List.append_cancel_left same
  simpa using congrArg List.length rest

/-- A POST with a JSON body, as a client of the stub makes it. -/
def jsonPost (path : PyStr) (body : Bytes) : Request where
  method := .post
  path := path
  contentType := some (py "application/json")
  contentLength := .length body.length
  rfile := body

/-- The sample runtime, which knows a delay as well. -/
def slowRuntime : Runtime :=
  { sampleRuntime with
    loads := fun raw =>
      if raw = ascii "\x7b\"delay_ms\":5\x7d" then .ok (.object [(py "delay_ms", .number (.int 5))])
      else sampleRuntime.loads raw }

def delayRequest : Request := jsonPost (py "/v1/chaos/latency") (ascii "\x7b\"delay_ms\":5\x7d")

def firstDelay : Outcome := handle slowRuntime {} delayRequest

def secondDelay : Outcome := handle slowRuntime firstDelay.stub delayRequest

private theorem firstDelay_clean : CleanStep slowRuntime {} ⟨delayRequest, firstDelay⟩ firstDelay.stub :=
  ⟨⟨rfl, rfl⟩, by decide +kernel⟩

/-- Two delays are created and the first of them is removed. -/
theorem second_delay_is_left :
    let removal : Request := { method := .delete, path := py "/v1/chaos/fault-" }
    let history : List Exchange := [⟨delayRequest, firstDelay⟩, ⟨delayRequest, secondDelay⟩,
      ⟨removal, handle slowRuntime secondDelay.stub removal⟩]
    (∃ fault, Live slowRuntime history (py "fault-0") fault) ∧ ∀ fault, ¬ Live slowRuntime history (py "fault-") fault := by
  intro removal history
  have second : secondDelay.raised = none := by decide +kernel
  have third : (handle slowRuntime secondDelay.stub removal).raised = none := by decide +kernel
  have run : Execution (CleanStep slowRuntime) {} history (handle slowRuntime secondDelay.stub removal).stub :=
    .more firstDelay_clean (.more ⟨⟨rfl, rfl⟩, second⟩ (.single ⟨⟨rfl, rfl⟩, third⟩))
  obtain ⟨agrees, _⟩ := faults_follow_history slowRuntime sampleRuntime_distinct run
  have left : (handle slowRuntime secondDelay.stub removal).stub.faults.keys = [py "fault-0"] := by decide +kernel
  constructor
  · have present : py "fault-0" ∈ (handle slowRuntime secondDelay.stub removal).stub.faults.keys :=
      left ▸ List.mem_cons_self
    obtain ⟨⟨_, fault⟩, member, rfl⟩ := List.mem_map.mp present
    exact ⟨fault, (agrees _ fault).mp ((Dict.mem_entries_iff _).mp member)⟩
  · intro fault live
    have member := (Dict.mem_entries_iff _).mpr ((agrees _ fault).mpr live)
    have present : py "fault-" ∈ (handle slowRuntime secondDelay.stub removal).stub.faults.keys :=
      List.mem_map_of_mem member
    rw [left] at present
    exact absurd present (by decide)

/-- Under a live delay the answer to a method without a handler is not delayed. -/
theorem unhandled_method_is_not_delayed :
    let put : Request := { method := .other, path := py "/v1/health" }
    let answered := handle slowRuntime firstDelay.stub put
    Execution (CleanStep slowRuntime) {} [⟨delayRequest, firstDelay⟩, ⟨put, answered⟩] answered.stub ∧
      (answered.stub.faults.values.filter (hasType (py "latency"))).map delayMs = [.ok 5] ∧
      answered.sent.map Reply.delayMs = [0] := by
  intro put answered
  exact ⟨.more firstDelay_clean (.single ⟨⟨rfl, rfl⟩, rfl⟩), by decide +kernel, rfl⟩

end Charybdis.Stub
