import Charybdis.Audit.SafeChaos
import Charybdis.EndToEnd.Deliveries
import Charybdis.EndToEnd.FaultId

/-! The fixture of the chaos tests: it remembers the faults it injects, and deletes what it
remembers when a test is over. What it forgets stays in the registry of the stub. -/

namespace Charybdis.EndToEnd

open Foundation Client Stub Audit

/-! ### The fixture -/

/-- The members of a `ChaosResilienceTest` that a test changes; `failed` is set by an
expectation that does not hold and by an exception. -/
structure Fixture where
  session : Session Link
  sink : Bytes := []
  injected : List Bytes := []
  failed : Bool := false

/-- `EXPECT_GE(status, 200)` and `EXPECT_LT(status, 300)`. -/
def succeeds (status : Int) : Bool := 200 ≤ status && status < 300

/-- What an injection does with the id it read. -/
def Fixture.note (fixture : Fixture) (faultId : Bytes) : Fixture :=
  if faultId = [] then { fixture with failed := true }
  else { fixture with injected := fixture.injected ++ [faultId] }

/-- What an observer of the network and of the fixture sees of one step of a test: how many
requests went unanswered, whether the call was answered, and whether an id was noted. -/
inductive Deed where
  | inject (lost : Nat) (answered noted : Bool)
  | remove (lost : Nat) (answered : Bool)
  | other
  deriving DecidableEq

/-- The faults a step leaves behind for good: those of unanswered requests, the one whose id
was not noted, and the one that is forgotten although no request to delete it got through. -/
def Deed.leaks : Deed → Nat
  | .inject lost answered noted => lost + if answered && !noted then 1 else 0
  | .remove lost answered => if answered || 0 < lost then 0 else 1
  | .other => 0

section Model

variable {ν : Type} (client : HttpTestClient) (json : Nlohmann ν) (around : Surroundings Link)

def Fixture.inject (env : Environment) (path : Bytes) (body : Json Bytes ν) (fixture : Fixture) :
    Except ChaosError (Json Bytes ν) × Fixture :=
  let posted := client.perform json around env (.post path body) fixture.session
  let fixture := { fixture with session := posted.session }
  match posted.result with
  | .error error => (.error error, { fixture with failed := true })
  | .ok response =>
    let fixture := { fixture with failed := fixture.failed || !succeeds response.status }
    match valueString (ascii "id") response.body with
    | .error error => (.error (.json error), { fixture with failed := true })
    | .ok faultId => (.ok response.body, fixture.note faultId)

/-- The queue-starve test: the wrapper, then the id of its result. -/
def Fixture.starve (env : Environment) (now : UtcReading) (subject : Bytes) (fixture : Fixture) : Fixture :=
  let injection := safeInjectQueueStarve client json around env now subject fixture.session fixture.sink
  let fixture := { fixture with session := injection.session, sink := injection.sink }
  match injection.result with
  | .error _ => { fixture with failed := true }
  | .ok body =>
    match valueString (ascii "id") body with
    | .error _ => { fixture with failed := true }
    | .ok faultId => fixture.note faultId

/-- `client_->del("/v1/chaos/" + fault_id)`. -/
def deletion (faultId : Bytes) (session : Session Link) : Ran Link ν :=
  runWithRetry json client.retry client.breakerCfg around
    { host := client.host, port := client.port, method := .delete, path := faultUrl faultId } session

/-- The id is forgotten whatever became of the request. -/
def Fixture.remove (faultId : Bytes) (fixture : Fixture) : Fixture :=
  let deleted := deletion client json around faultId fixture.session
  { fixture with
    session := deleted.session
    failed := fixture.failed || !succeeds deleted.response.status
    injected := fixture.injected.filter (· ≠ faultId) }

def lostBetween (before after : Session Link) : Nat := after.wire.unanswered - before.wire.unanswered

/-- The deletions of `TearDown`, and what an observer sees of each. -/
def deleteAll : List Bytes → Session Link → List Deed × Session Link
  | [], session => ([], session)
  | faultId :: rest, session =>
    let deleted := deletion client json around faultId session
    let later := deleteAll rest deleted.session
    (.remove (lostBetween session deleted.session) (finalReply deleted.events).isSome :: later.1, later.2)

def Fixture.tearDown (fixture : Fixture) : List Deed × Fixture :=
  let cleared := deleteAll client json around fixture.injected fixture.session
  (cleared.1, { fixture with session := cleared.2, injected := [] })

/-- `client_` used directly. -/
def Fixture.call (env : Environment) (call : Call ν) (fixture : Fixture) : Fixture :=
  { fixture with session := (client.perform json around env call fixture.session).session }

/-- The call, if it is sent at all, asks the stub for a fault. -/
def AsksFault (runtime : Runtime) (env : Environment) (call : Call ν) : Prop :=
  ∀ request, client.request json env call = .ok request →
    ∃ chaosType fields, wireAsks runtime request = some (chaosType, fields)

/-- The call neither asks for a fault nor names one. -/
def StandsAside (runtime : Runtime) (env : Environment) (call : Call ν) : Prop :=
  ∀ request, client.request json env call = .ok request →
    wireAsks runtime request = none ∧ wireNames runtime request = none

/-- A step of a test that injects faults and removes only what it noted; the choice of the
next step may depend on everything before it. -/
inductive TestStep (runtime : Runtime) : Fixture → Deed → Fixture → Prop where
  | inject (env : Environment) (path : Bytes) (body : Json Bytes ν)
      (asks : AsksFault client json runtime env (.post path body))
      (next : after = (fixture.inject client json around env path body).2) :
      TestStep runtime fixture (.inject (lostBetween fixture.session after.session)
        (finalReply (client.perform json around env (.post path body) fixture.session).events).isSome
        (fixture.injected.length < after.injected.length)) after
  | starve (env : Environment) (now : UtcReading) (subject : Bytes)
      (asks : AsksFault client json runtime env (.post queueStarvePath (subjectBody subject)))
      (next : after = fixture.starve client json around env now subject) :
      TestStep runtime fixture (.inject (lostBetween fixture.session after.session)
        (finalReply (safeInjectQueueStarve client json around env now subject fixture.session
          fixture.sink).events).isSome
        (fixture.injected.length < after.injected.length)) after
  | remove (noted : faultId ∈ fixture.injected)
      (next : after = fixture.remove client json around faultId) :
      TestStep runtime fixture (.remove (lostBetween fixture.session after.session)
        (finalReply (deletion client json around faultId fixture.session).events).isSome) after
  | other (env : Environment) (call : Call ν) (aside : StandsAside client json runtime env call)
      (next : after = fixture.call client json around env call) :
      TestStep runtime fixture .other after

end Model

/-! ### The ledger of a fixture -/

/-- What the fixture added to the registry since `start`: the faults it remembers and those
that leaked, each once. -/
structure Ledger (runtime : Runtime) (start stub : Agamemnon) (owned leaked : List PyStr) : Prop where
  sound : Sound runtime stub
  added : ∃ rest, stub.faults.entries = start.faults.entries ++ rest ∧
    (rest.map Prod.fst).Perm (owned ++ leaked)

section Ledgers

variable {runtime : Runtime} {start stub next : Agamemnon}

theorem Ledger.initial (sound : Sound runtime start) : Ledger runtime start start [] [] :=
  ⟨sound, [], by simp, .nil⟩

theorem Ledger.unchanged (ledger : Ledger runtime start stub owned leaked) (sound : Sound runtime next)
    (same : next.faults = stub.faults) : Ledger runtime start next owned leaked :=
  ⟨sound, same ▸ ledger.added⟩

theorem Ledger.drawn (ledger : Ledger runtime start stub owned leaked) (member : faultId ∈ owned ++ leaked) :
    ∃ count < stub.drawn, faultId = runtime.uuid4 count := by
  obtain ⟨rest, entries, same⟩ := ledger.added
  obtain ⟨⟨key, fault⟩, inside, named⟩ := List.mem_map.mp (same.mem_iff.mpr member)
  cases named
  have present : (key, fault) ∈ stub.faults.entries := entries ▸ List.mem_append_right _ inside
  exact ledger.sound.drawn key fault (stub.faults.mem_entries_iff.mp present)

theorem Ledger.nodup (ledger : Ledger runtime start stub owned leaked) : (owned ++ leaked).Nodup := by
  obtain ⟨rest, entries, same⟩ := ledger.added
  have keys : (stub.faults.entries.map Prod.fst).Nodup := stub.faults.distinct
  rw [entries, List.map_append] at keys
  exact same.nodup_iff.mp keys.of_append_right

/-- The identifiers of the next faults. -/
def nextIds (runtime : Runtime) (drawn count : Nat) : List PyStr :=
  (List.range count).map fun index => runtime.uuid4 (drawn + index)

private theorem Grown.appends (grown : Grown runtime chaosType fields count stub next) :
    ∃ more, next.faults.entries = stub.faults.entries ++ more ∧
      more.map Prod.fst = nextIds runtime stub.drawn count := by
  refine ⟨_, grown.entries, ?_⟩
  rw [List.map_map]
  rfl

theorem Ledger.grow_leaked (ledger : Ledger runtime start stub owned leaked) (sound : Sound runtime next)
    (grown : Grown runtime chaosType fields count stub next) :
    Ledger runtime start next owned (leaked ++ nextIds runtime stub.drawn count) := by
  obtain ⟨rest, entries, same⟩ := ledger.added
  obtain ⟨more, appended, keys⟩ := grown.appends
  refine ⟨sound, rest ++ more, ?_, ?_⟩
  · rw [appended, entries, List.append_assoc]
  · rw [List.map_append, keys, ← List.append_assoc]
    exact same.append_right _

theorem Ledger.grow_noted (ledger : Ledger runtime start stub owned leaked) (sound : Sound runtime next)
    (grown : Grown runtime chaosType fields (count + 1) stub next) :
    Ledger runtime start next (owned ++ [runtime.uuid4 (stub.drawn + count)])
      (leaked ++ nextIds runtime stub.drawn count) := by
  obtain ⟨rest, entries, same⟩ := ledger.added
  obtain ⟨more, appended, keys⟩ := grown.appends
  have split : nextIds runtime stub.drawn (count + 1) =
      nextIds runtime stub.drawn count ++ [runtime.uuid4 (stub.drawn + count)] := by
    simp [nextIds, List.range_succ]
  refine ⟨sound, rest ++ more, ?_, ?_⟩
  · rw [appended, entries, List.append_assoc]
  · rw [List.map_append, keys, split]
    calc (rest.map Prod.fst ++ (nextIds runtime stub.drawn count ++ [runtime.uuid4 (stub.drawn + count)])).Perm
          (owned ++ leaked ++ (nextIds runtime stub.drawn count ++ [runtime.uuid4 (stub.drawn + count)])) :=
          same.append_right _
      List.Perm _ (owned ++ ([runtime.uuid4 (stub.drawn + count)] ++
          (leaked ++ nextIds runtime stub.drawn count))) := by
          rw [List.append_assoc, ← List.append_assoc leaked]
          exact List.perm_append_comm.append_left owned
      List.Perm _ _ := by rw [List.append_assoc]

theorem Ledger.erase (ledger : Ledger runtime start stub owned leaked) (member : faultId ∈ owned)
    (sound : Sound runtime next) (erased : next.faults = stub.faults.erase faultId) :
    Ledger runtime start next (owned.filter (· ≠ faultId)) leaked := by
  obtain ⟨rest, entries, same⟩ := ledger.added
  have fresh : faultId ∉ leaked := fun inside => List.disjoint_of_nodup_append ledger.nodup member inside
  have older : ∀ entry ∈ start.faults.entries, entry.1 ≠ faultId := by
    intro entry early again
    have keys : (stub.faults.entries.map Prod.fst).Nodup := stub.faults.distinct
    rw [entries, List.map_append] at keys
    refine List.disjoint_of_nodup_append keys (List.mem_map_of_mem early) ?_
    rw [again]
    exact same.mem_iff.mpr (List.mem_append_left _ member)
  refine ⟨sound, rest.filter fun entry => entry.1 ≠ faultId, ?_, ?_⟩
  · have unchanged : start.faults.entries.filter (fun entry => entry.1 ≠ faultId) = start.faults.entries :=
      List.filter_eq_self.mpr fun entry early => by simpa using older entry early
    have filtered : next.faults.entries = stub.faults.entries.filter fun entry => entry.1 ≠ faultId := by
      rw [erased]
      rfl
    rw [filtered, entries, List.filter_append, unchanged]
  · have kept : leaked.filter (· ≠ faultId) = leaked :=
      List.filter_eq_self.mpr fun other inside => by
        have different : other ≠ faultId := fun again => fresh (again ▸ inside)
        simpa using different
    have filtered := same.filter (· ≠ faultId)
    rw [List.filter_append, kept, List.filter_map] at filtered
    exact filtered

/-- A fault that is forgotten without a deletion leaks. -/
theorem Ledger.forget (ledger : Ledger runtime start stub owned leaked) (member : faultId ∈ owned) :
    Ledger runtime start stub (owned.filter (· ≠ faultId)) (faultId :: leaked) := by
  obtain ⟨rest, entries, same⟩ := ledger.added
  refine ⟨ledger.sound, rest, entries, same.trans ?_⟩
  have once : owned.erase faultId = owned.filter (· ≠ faultId) := by
    rw [List.Nodup.erase_eq_filter ledger.nodup.of_append_left]
    refine List.filter_congr fun other _ => ?_
    rw [bne, beq_eq_decide, ← decide_not]
  rw [← once]
  exact ((List.perm_cons_erase member).append_right leaked).trans List.perm_middle.symm

end Ledgers

end Charybdis.EndToEnd
