import Charybdis.Stub.FaultHistory
import Charybdis.Stub.TaskHandling

/-! When the stub can answer at all. Every response waits for the sum of the stored
delays, and a listing writes what is stored, so what one request stores decides about all
later ones. -/

namespace Charybdis.Stub

open Foundation

/-- The clock can sleep the sum of the delays, and the sum without any one of them. -/
def Bearable (runtime : Runtime) (delays : List Int) : Prop :=
  delays.sum ≤ runtime.sleepLimitMs ∧ ∀ delay ∈ delays, delays.sum - delay ≤ runtime.sleepLimitMs

theorem Bearable.perm (bearable : Bearable runtime delays) (same : delays.Perm permuted) :
    Bearable runtime permuted :=
  ⟨same.sum_eq ▸ bearable.1,
    fun delay member => same.sum_eq ▸ bearable.2 delay (same.mem_iff.mpr member)⟩

/-- All stored delays are integers, and bearable together. -/
def Answerable (runtime : Runtime) (faults : Dict PyStr Record) : Prop :=
  ∃ delays, Delays (latencyFaults faults) delays ∧ Bearable runtime delays

theorem Answerable.answers (answerable : Answerable runtime faults) : Answers runtime faults := by
  obtain ⟨delays, each, short, _⟩ := answerable
  exact ⟨delays.sum, (activeLatencyMs_iff faults _).mpr ⟨delays, each, rfl⟩, short⟩

section Registry

variable {faults : Dict PyStr Record}

theorem latencyFaults_set (absent : faults.get? faultId = none) (fault : Record) :
    latencyFaults (faults.set faultId fault) =
      latencyFaults faults ++ if waitedFor fault = true then [fault] else [] := by
  rw [latencyFaults, Dict.values, Dict.entries_set_of_absent faults fault absent]
  by_cases waits : waitedFor fault = true <;> simp [latencyFaults, Dict.values, waits]

/-- Removing a fault takes its own delay out of the sum, or nothing. -/
theorem latencyFaults_erase (found : faults.get? faultId = some fault) :
    ∃ before after, latencyFaults faults =
        before ++ (if waitedFor fault = true then [fault] else []) ++ after ∧
      latencyFaults (faults.erase faultId) = before ++ after := by
  obtain ⟨first, last, split, rest⟩ := faults.erase_entries found
  refine ⟨(first.map Prod.snd).filter waitedFor, (last.map Prod.snd).filter waitedFor, ?_, ?_⟩
  · by_cases waits : waitedFor fault = true <;> simp [latencyFaults, Dict.values, split, waits]
  · simp [latencyFaults, Dict.values, rest]

theorem delays_append (each : Delays (first ++ last) delays) :
    ∃ early late, delays = early ++ late ∧ Delays first early ∧ Delays last late := by
  refine ⟨delays.take first.length, delays.drop first.length, (List.take_append_drop _ _).symm, ?_, ?_⟩
  · simpa using List.forall₂_take first.length each
  · simpa using List.forall₂_drop first.length each

theorem delays_erase (each : Delays (latencyFaults faults) delays)
    (found : faults.get? faultId = some fault) :
    ∃ left, Delays (latencyFaults (faults.erase faultId)) left ∧
      if waitedFor fault = true then
        ∃ delay, delayMs fault = .ok delay ∧ delays.Perm (delay :: left)
      else left = delays := by
  obtain ⟨before, after, whole, rest⟩ := latencyFaults_erase found
  rw [whole] at each
  obtain ⟨front, late, same, eachFront, eachLate⟩ := delays_append each
  obtain ⟨early, middle, same', eachEarly, eachMiddle⟩ := delays_append eachFront
  subst same'
  subst same
  refine ⟨early ++ late, rest ▸ List.rel_append eachEarly eachLate, ?_⟩
  split
  · rename_i waits
    rw [if_pos waits] at eachMiddle
    cases eachMiddle with
    | @cons _ delay _ _ read none =>
      cases none
      refine ⟨delay, read, ?_⟩
      rw [List.append_assoc]
      exact List.perm_middle
  · rename_i quiet
    rw [if_neg quiet] at eachMiddle
    cases eachMiddle
    rw [List.append_nil]

/-- Without any one of its faults an answerable registry can still answer. -/
theorem Answerable.answers_erase (answerable : Answerable runtime faults) (faultId : PyStr) :
    Answers runtime (faults.erase faultId) := by
  cases found : faults.get? faultId with
  | none =>
    rw [faults.erase_of_absent found]
    exact answerable.answers
  | some fault =>
    obtain ⟨delays, each, short, without⟩ := answerable
    obtain ⟨left, eachLeft, gone⟩ := delays_erase each found
    refine ⟨left.sum, (activeLatencyMs_iff _ _).mpr ⟨left, eachLeft, rfl⟩, ?_⟩
    split at gone
    · obtain ⟨delay, _, same⟩ := gone
      have member : delay ∈ delays := same.mem_iff.mpr (List.mem_cons_self ..)
      have sum : delays.sum = delay + left.sum := by rw [same.sum_eq, List.sum_cons]
      have bound := without delay member
      omega
    · rw [gone]
      exact short

end Registry

/-- Every record can be written as part of a listing. -/
def Listable (runtime : Runtime) (records : Dict PyStr Record) : Prop :=
  ∀ record ∈ records.values, Fits runtime 2 (jsonOf record)

/-- What a request may ask in a given state. -/
structure Tolerable (runtime : Runtime) (stub : Agamemnon) (request : Request) : Prop where
  /-- A latency fault brings a `delay_ms` that is absent or an integer to `int`, and it does not
  make the delays unbearable. -/
  delay : ∀ delays, Delays (latencyFaults stub.faults) delays → ∀ fields,
    asked runtime request = some (py "latency", fields) →
      ∃ delay, delayMs fields = .ok delay ∧ Bearable runtime (delays ++ [delay])
  /-- Nor does the removal of one, which can only happen where another delay is negative. -/
  removal : ∀ delays, Delays (latencyFaults stub.faults) delays → ∀ faultId fault delay,
    named runtime request = some faultId → stub.faults.get? faultId = some fault →
      waitedFor fault = true → delayMs fault = .ok delay → Bearable runtime (delays.erase delay)
  /-- What a fault keeps of its body is flat enough to be listed. -/
  fields : ∀ chaosType fields, asked runtime request = some (chaosType, fields) →
    FieldsFit runtime 3 fields
  /-- So is the subject of a task. -/
  subject : ∀ subject, askedSubject runtime request = some subject → Fits runtime 3 subject

def TolerableStep (runtime : Runtime) (stub : Agamemnon) (exchange : Exchange) (next : Agamemnon) : Prop :=
  StubStep runtime stub exchange next ∧ Tolerable runtime stub exchange.request

/-- What later answers rest on: delays that can be slept, and records that can be listed. -/
structure Steady (runtime : Runtime) (stub : Agamemnon) : Prop where
  sound : Sound runtime stub
  delays : Answerable runtime stub.faults
  faults : Listable runtime stub.faults
  tasks : Listable runtime stub.tasks

theorem delayMs_newFault (fields : Record) : delayMs (newFault faultId chaosType fields) = delayMs fields := by
  rw [delayMs, get?_newFault_other fields (by decide), delayMs]

section Steps

variable {runtime : Runtime} {stub : Agamemnon} {request : Request}

theorem waitedFor_newFault (fields : Record) :
    waitedFor (newFault faultId chaosType fields) = decide (chaosType = py "latency") := by
  have active : isActive (newFault faultId chaosType fields) = true := by
    simp [isActive, get?_newFault_active, truthy]
  simp [waitedFor, active, hasType, get?_newFault_type]

/-- A tolerable registration can be answered, and leaves the stub answerable. -/
theorem answerable_registered (sound : Sound runtime stub) (distinct : Function.Injective runtime.uuid4)
    (answerable : Answerable runtime stub.faults) (tolerable : Tolerable runtime stub request)
    (asks : asked runtime request = some (chaosType, fields)) :
    Answerable runtime (registered runtime stub chaosType fields).faults := by
  obtain ⟨delays, each, bearable⟩ := answerable
  have fresh := sound.fresh distinct
  rw [registered]
  by_cases latency : chaosType = py "latency"
  · subst latency
    obtain ⟨delay, read, still⟩ := tolerable.delay delays each fields asks
    refine ⟨delays ++ [delay], ?_, still⟩
    rw [latencyFaults_set fresh, waitedFor_newFault, if_pos (by decide)]
    exact List.rel_append each (.cons ((delayMs_newFault fields).trans read) .nil)
  · refine ⟨delays, ?_, bearable⟩
    rw [latencyFaults_set fresh, waitedFor_newFault, if_neg (by simpa using latency), List.append_nil]
    exact each

theorem answerable_removed (answerable : Answerable runtime stub.faults)
    (tolerable : Tolerable runtime stub request) (names : named runtime request = some faultId)
    (present : stub.faults.contains faultId = true) :
    Answerable runtime (removed stub faultId).faults := by
  obtain ⟨delays, each, bearable⟩ := answerable
  obtain ⟨fault, found⟩ := Option.isSome_iff_exists.mp present
  obtain ⟨left, eachLeft, gone⟩ := delays_erase each found
  refine ⟨left, eachLeft, ?_⟩
  split at gone
  · rename_i waits
    obtain ⟨delay, read, same⟩ := gone
    have still := tolerable.removal delays each faultId fault delay names found waits read
    refine still.perm ?_
    simpa using same.erase delay
  · rw [gone]
    exact bearable

theorem answerable_step (distinct : Function.Injective runtime.uuid4) (sound : Sound runtime stub)
    (answerable : Answerable runtime stub.faults) (tolerable : Tolerable runtime stub request) :
    Answerable runtime (handle runtime stub request).stub.faults := by
  rcases handle_cases runtime stub request with
    ⟨chaosType, fields, asks, served⟩ | ⟨faultId, names, present, served⟩ | alone
  · rw [served, send_stub]
    exact answerable_registered sound distinct answerable tolerable asks
  · rw [served, send_stub]
    exact answerable_removed answerable tolerable names present
  · rw [alone.same.1]
    exact answerable

theorem listable_registered (listable : Listable runtime stub.faults)
    (flat : FieldsFit runtime 3 fields) :
    Listable runtime (registered runtime stub chaosType fields).faults := by
  intro record member
  rcases Dict.mem_values_set member with same | old
  · rw [same]
    exact (fits_newFault runtime.nesting fields).mpr flat
  · exact listable record old

/-- What a listing makes of the tasks can be listed like the tasks themselves. -/
theorem listable_listed (listable : Listable runtime stub.tasks) : Listable runtime (listed stub).tasks := by
  unfold listed
  split
  · exact listable
  · intro record member
    rw [Dict.values_mapValues] at member
    obtain ⟨task, inside, same⟩ := List.mem_map.mp member
    rw [← same]
    exact fits_completed runtime.nesting (listable task inside)

theorem listable_withTask (listable : Listable runtime stub.tasks) (flat : Fits runtime 3 subject) :
    Listable runtime (withTask runtime stub teamId subject).tasks := by
  intro record member
  rcases Dict.mem_values_set member with same | old
  · rw [same]
    exact (fits_newTask runtime.nesting _ _ subject).mpr flat
  · exact listable record old

theorem listable_tasks_step (listable : Listable runtime stub.tasks) (tolerable : Tolerable runtime stub request) :
    Listable runtime (handle runtime stub request).stub.tasks := by
  rcases task_cases runtime stub request with ⟨path, subject, _, _, _, asks, served⟩ | ⟨_, served⟩ | aside
  · rw [served, send_stub]
    exact listable_withTask listable (tolerable.subject subject asks)
  · rw [served, send_stub]
    exact listable_listed listable
  · rw [aside.same]
    exact listable

theorem listable_faults_step (listable : Listable runtime stub.faults) (tolerable : Tolerable runtime stub request) :
    Listable runtime (handle runtime stub request).stub.faults := by
  rcases handle_cases runtime stub request with
    ⟨chaosType, fields, asks, served⟩ | ⟨faultId, _, _, served⟩ | alone
  · rw [served, send_stub]
    exact listable_registered listable (tolerable.fields chaosType fields asks)
  · rw [served, send_stub]
    exact fun record member => listable record (Dict.mem_values_erase member)
  · rw [alone.same.1]
    exact listable

theorem steady_step (distinct : Function.Injective runtime.uuid4) (steady : Steady runtime stub)
    (tolerable : Tolerable runtime stub request) : Steady runtime (handle runtime stub request).stub where
  sound := sound_handle steady.sound request
  delays := answerable_step distinct steady.sound steady.delays tolerable
  faults := listable_faults_step steady.faults tolerable
  tasks := listable_tasks_step steady.tasks tolerable

theorem steady_initial (runtime : Runtime) : Steady runtime {} where
  sound := sound_initial runtime
  delays := ⟨[], .nil, by simp, nofun⟩
  faults := nofun
  tasks := nofun

theorem steady_run (distinct : Function.Injective runtime.uuid4)
    (run : Execution (TolerableStep runtime) {} history stub) : Steady runtime stub := by
  refine run.invariant (motive := Steady runtime) (fun steady step => ?_) (steady_initial runtime)
  obtain ⟨⟨served, reached⟩, tolerable⟩ := step
  rw [← reached, ← served]
  exact steady_step distinct steady tolerable

/-- One complete response, and no exception. -/
def Responds (outcome : Outcome) : Prop := ∃ reply, outcome.sent = [reply] ∧ outcome.raised = none

theorem responds_send_iff : Responds (send runtime served status body) ↔
    Answers runtime served.faults ∧ Fits runtime 0 body := by
  rcases send_cases runtime served status body with ⟨_, unable, raised⟩ | ⟨delay, total, short, fits, done⟩
  · refine iff_of_false ?_ unable
    rintro ⟨_, sent, _⟩
    rw [raised] at sent
    cases sent
  · exact iff_of_true ⟨_, by rw [done], by rw [done]⟩ ⟨⟨delay, total, short⟩, fits⟩

theorem responds_doGet (steady : Steady runtime stub) : Responds (doGet runtime stub path) := by
  have answers := steady.delays.answers
  have same : (listed stub).faults = stub.faults := by
    unfold listed
    split <;> rfl
  have tasks : Responds (send runtime (listed stub) 200 (bodyOf [("tasks", recordList (listed stub).tasks)])) :=
    responds_send_iff.mpr ⟨same ▸ answers, (fits_listing _ _ _).mpr (listable_listed steady.tasks)⟩
  simp only [doGet]
  split
  · split <;> exact responds_send_iff.mpr ⟨answers, fits_textBody _ _ _⟩
  · split
    · exact responds_send_iff.mpr ⟨answers, (fits_listing _ _ _).mpr steady.faults⟩
    · split
      · exact tasks
      · exact responds_send_iff.mpr ⟨answers, fits_textBody _ _ _⟩

theorem responds_doDelete (steady : Steady runtime stub) : Responds (doDelete runtime stub path) := by
  have answers := steady.delays.answers
  simp only [doDelete]
  split
  · split
    · exact responds_send_iff.mpr ⟨steady.delays.answers_erase _, fits_textBody _ _ _⟩
    · exact responds_send_iff.mpr ⟨answers, fits_textBody _ _ _⟩
  · exact responds_send_iff.mpr ⟨answers, fits_textBody _ _ _⟩

end Steps

/-- A run of tolerable requests never wedges the stub: in every state it reaches each GET and
each DELETE under `/v1/` is answered once, and a tolerable POST that is not answered 201
leaves the registry as it was. -/
theorem stub_keeps_answering (runtime : Runtime) (distinct : Function.Injective runtime.uuid4)
    {history : List Exchange} {stub : Agamemnon}
    (run : Execution (TolerableStep runtime) {} history stub) (request : Request) :
    (∀ rest, request.path = py "/v1/" ++ rest → request.method = .get ∨ request.method = .delete →
      Responds (handle runtime stub request)) ∧
    (request.method = .post → Tolerable runtime stub request →
      (∀ reply ∈ (handle runtime stub request).sent, reply.status ≠ 201) →
      (handle runtime stub request).stub.faults = stub.faults) := by
  have steady := steady_run distinct run
  constructor
  · intro rest rooted verb
    obtain ⟨path, routed⟩ := route_of_rooted runtime rest
    rw [← rooted] at routed
    rcases verb with verb | verb
    · simp only [handle, verb, routed]
      exact responds_doGet steady
    · simp only [handle, verb, routed]
      exact responds_doDelete steady
  · intro verb tolerable refused
    rcases handle_cases runtime stub request with
      ⟨chaosType, fields, asks, served⟩ | ⟨faultId, names, _, _⟩ | alone
    · have next := answerable_registered steady.sound distinct steady.delays tolerable asks
      have flat := tolerable.fields chaosType fields asks
      have nesting := runtime.nesting
      have fits : Fits runtime 0 (jsonOf (newFault (runtime.uuid4 stub.drawn) chaosType fields)) :=
        (fits_newFault (by omega) fields).mpr fun key other value found =>
          (flat key other value found).mono (by decide)
      have responds : Responds (handle runtime stub request) := served ▸ responds_send_iff.mpr ⟨next.answers, fits⟩
      obtain ⟨reply, sent, _⟩ := responds
      have member : reply ∈ (handle runtime stub request).sent := by rw [sent]; exact List.mem_singleton_self _
      exact absurd (send_status (served ▸ member)) (refused reply member)
    · rw [(named_iff.mp names).1] at verb
      cases verb
    · exact alone.same.1

private theorem tolerable_kill : Tolerable sampleRuntime {} (jsonPost (py "/v1/chaos/kill") (ascii "\x7b\x7d")) := by
  have shape : (asked sampleRuntime (jsonPost (py "/v1/chaos/kill") (ascii "\x7b\x7d"))).map
      (fun asks => (asks.1, asks.2.entries.length)) = some (py "kill", 0) := by decide +kernel
  obtain ⟨⟨chaosType, fields⟩, asks, same⟩ := Option.map_eq_some_iff.mp shape
  have names : named sampleRuntime (jsonPost (py "/v1/chaos/kill") (ascii "\x7b\x7d")) = none := by decide +kernel
  have creates : askedSubject sampleRuntime (jsonPost (py "/v1/chaos/kill") (ascii "\x7b\x7d")) = none := by
    decide +kernel
  obtain ⟨kind, none⟩ := Prod.mk.injEq .. ▸ same
  refine ⟨fun _ _ _ again => ?_, fun _ _ _ _ _ again => ?_, fun _ _ again key _ value found => ?_, fun _ again => ?_⟩
  · cases asks.symm.trans again
    have other : py "latency" ≠ py "kill" := by decide
    exact absurd kind other
  · cases names.symm.trans again
  · cases asks.symm.trans again
    have member := fields.mem_entries_iff.mpr found
    rw [List.eq_nil_of_length_eq_zero none] at member
    cases member
  · cases creates.symm.trans again

/-- After a kill fault is registered the health check still answers. -/
theorem kill_is_tolerable :
    let request := jsonPost (py "/v1/chaos/kill") (ascii "\x7b\x7d")
    Responds (handle sampleRuntime (handle sampleRuntime {} request).stub
      { method := .get, path := py "/v1/health" }) := by
  intro request
  have run : Execution (TolerableStep sampleRuntime) {} [⟨request, handle sampleRuntime {} request⟩]
      (handle sampleRuntime {} request).stub := .single ⟨stubStep_handle _ _ _, tolerable_kill⟩
  exact (stub_keeps_answering sampleRuntime sampleRuntime_distinct run
    { method := .get, path := py "/v1/health" }).1 (py "health") rfl (.inl rfl)

/-- A latency fault without a number for its delay is stored, its POST is not answered, and
no later request is, until the fault is deleted under an id that nobody was told. -/
theorem null_delay_wedges_the_stub :
    let request := jsonPost (py "/v1/chaos/latency") (ascii "\x7b\"delay_ms\":null\x7d")
    let wedged := (handle sampleRuntime {} request).stub
    StubStep sampleRuntime {} ⟨request, handle sampleRuntime {} request⟩ wedged ∧
      (handle sampleRuntime {} request).sent.length = 0 ∧ wedged.faults.keys = [py "fault-"] ∧
      (∀ path ∈ [healthPath, chaosPath, tasksPath],
        (handle sampleRuntime wedged { method := .get, path }).sent.length = 0) ∧
      (handle sampleRuntime wedged { method := .delete, path := py "/v1/chaos/fault-0" }).sent.length = 0 ∧
      (handle sampleRuntime wedged { method := .delete, path := py "/v1/chaos/fault-" }).sent.length = 1 := by
  intro request wedged
  exact ⟨stubStep_handle _ _ _, by decide +kernel, by decide +kernel, by decide +kernel, by decide +kernel,
    by decide +kernel⟩

end Charybdis.Stub
