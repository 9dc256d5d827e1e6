import Charybdis.Stub.Handling

/-! What holds of the fault registry in every state the stub can reach. -/

namespace Charybdis.Stub

open Foundation

section Requests

variable {runtime : Runtime} {request : Request}

theorem asked_iff : asked runtime request = some (chaosType, fields) ↔
    request.method = .post ∧ route runtime request.path = .ok (chaosPrefix ++ chaosType) ∧
      chaosType ∈ faultTypes ∧
      ∃ body, parseBody runtime request = .ok (body, false) ∧ bodyFields body = .ok fields := by
  constructor
  · intro asks
    unfold asked at asks
    split at asks
    · rename_i path body verb routed parsed
      split at asks
      · rename_i inside
        split at asks
        · rename_i found read
          cases asks
          obtain ⟨rest, same⟩ := List.isPrefixOf_iff_prefix.mp inside.1
          subst same
          rw [List.drop_left] at inside ⊢
          exact ⟨verb, routed, inside.2, body, parsed, read⟩
        · cases asks
      · cases asks
    · cases asks
  · intro ⟨verb, routed, known, body, parsed, read⟩
    have inside : chaosPrefix.isPrefixOf (chaosPrefix ++ chaosType) = true :=
      List.isPrefixOf_iff_prefix.mpr (List.prefix_append _ _)
    simp only [asked, verb, routed, parsed, inside, List.drop_left, known, and_self, ↓reduceIte, read]

theorem named_iff : named runtime request = some faultId ↔
    request.method = .delete ∧ route runtime request.path = .ok (chaosPrefix ++ faultId) := by
  constructor
  · intro names
    unfold named at names
    split at names
    · rename_i path verb routed
      split at names
      · rename_i inside
        cases names
        obtain ⟨rest, same⟩ := List.isPrefixOf_iff_prefix.mp inside
        subst same
        rw [List.drop_left]
        exact ⟨verb, routed⟩
      · cases names
    · cases names
  · intro ⟨verb, routed⟩
    have inside : chaosPrefix.isPrefixOf (chaosPrefix ++ faultId) = true :=
      List.isPrefixOf_iff_prefix.mpr (List.prefix_append _ _)
    simp only [named, verb, routed, inside, ↓reduceIte, List.drop_left]

end Requests

/-- The three keys every fault has of its own. -/
def ownKeys : List PyStr := ["id", "type", "active"].map py

theorem get?_bareFault (faultId chaosType key : PyStr) :
    (bareFault faultId chaosType).get? key =
      if key = py "active" then some (.boolean true)
      else if key = py "type" then some (.string chaosType)
      else if key = py "id" then some (.string faultId) else none := by
  simp only [bareFault, recordOf, List.map_cons, List.map_nil, Dict.ofList, List.foldl_cons, List.foldl_nil,
    Dict.get?_set, Dict.get?_empty]

theorem get?_newFault (faultId chaosType key : PyStr) (fields : Record) :
    (newFault faultId chaosType fields).get? key =
      ((bareFault faultId chaosType).get? key).or (fields.get? key) := by
  rw [newFault, Dict.get?_update, Dict.get?_filterKeys, Dict.contains]
  cases (bareFault faultId chaosType).get? key <;> simp

theorem get?_newFault_id (fields : Record) :
    (newFault faultId chaosType fields).get? (py "id") = some (.string faultId) := by
  rw [get?_newFault, get?_bareFault, if_neg (by decide), if_neg (by decide), if_pos rfl, Option.some_or]

theorem get?_newFault_type (fields : Record) :
    (newFault faultId chaosType fields).get? (py "type") = some (.string chaosType) := by
  rw [get?_newFault, get?_bareFault, if_neg (by decide), if_pos rfl, Option.some_or]

theorem get?_newFault_active (fields : Record) :
    (newFault faultId chaosType fields).get? (py "active") = some (.boolean true) := by
  rw [get?_newFault, get?_bareFault, if_pos rfl, Option.some_or]

theorem get?_newFault_other (fields : Record) (other : key ∉ ownKeys) :
    (newFault faultId chaosType fields).get? key = fields.get? key := by
  simp only [ownKeys, List.map_cons, List.map_nil, List.mem_cons, List.not_mem_nil, or_false,
    not_or] at other
  rw [get?_newFault, get?_bareFault, if_neg other.2.2, if_neg other.2.1, if_neg other.1, Option.none_or]

/-- What a fault keeps of the fields can be written `levels` deep in a response. -/
def FieldsFit (runtime : Runtime) (levels : Nat) (fields : Record) : Prop :=
  ∀ key ∉ ownKeys, ∀ value, fields.get? key = some value → Fits runtime levels value

theorem fits_newFault (room : levels < runtime.maxNesting) (fields : Record) :
    Fits runtime levels (jsonOf (newFault faultId chaosType fields)) ↔ FieldsFit runtime (levels + 1) fields := by
  rw [fits_jsonOf room]
  constructor
  · intro fits key other value found
    exact fits key value ((get?_newFault_other fields other).trans found)
  · intro fits key value found
    by_cases own : key ∈ ownKeys
    · simp only [ownKeys, List.map_cons, List.map_nil, List.mem_cons, List.not_mem_nil, or_false] at own
      rcases own with rfl | rfl | rfl
      · cases (get?_newFault_id fields).symm.trans found
        exact (fits_string _).mpr room
      · cases (get?_newFault_type fields).symm.trans found
        exact (fits_string _).mpr room
      · cases (get?_newFault_active fields).symm.trans found
        exact (fits_boolean _).mpr room
    · exact fits key own value ((get?_newFault_other fields own).symm.trans found)

/-- The registry of a reachable state: every fault lies under its own identifier, which
has been drawn, and has a real type and `active` set. -/
structure Sound (runtime : Runtime) (stub : Agamemnon) : Prop where
  own : ∀ faultId fault, stub.faults.get? faultId = some fault →
    fault.get? (py "id") = some (.string faultId) ∧
    (∃ chaosType ∈ faultTypes, fault.get? (py "type") = some (.string chaosType)) ∧
    fault.get? (py "active") = some (.boolean true)
  drawn : ∀ faultId fault, stub.faults.get? faultId = some fault →
    ∃ count < stub.drawn, faultId = runtime.uuid4 count

theorem sound_initial (runtime : Runtime) : Sound runtime {} := ⟨nofun, nofun⟩

theorem sound_handle {runtime : Runtime} {stub : Agamemnon} (sound : Sound runtime stub)
    (request : Request) : Sound runtime (handle runtime stub request).stub := by
  rcases handle_cases runtime stub request with
    ⟨chaosType, fields, asks, served⟩ | ⟨faultId, _, _, served⟩ | alone
  · obtain ⟨_, _, known, _⟩ := asked_iff.mp asks
    rw [served, send_stub]
    constructor
    · intro faultId fault found
      rw [registered, Dict.get?_set] at found
      split at found
      · rename_i same
        cases found
        subst same
        exact ⟨get?_newFault_id fields, ⟨chaosType, known, get?_newFault_type fields⟩,
          get?_newFault_active fields⟩
      · exact sound.own faultId fault found
    · intro faultId fault found
      rw [registered, Dict.get?_set] at found
      split at found
      · rename_i same
        exact ⟨stub.drawn, Nat.lt_succ_self _, same⟩
      · obtain ⟨count, early, same⟩ := sound.drawn faultId fault found
        exact ⟨count, Nat.lt_succ_of_lt early, same⟩
  · rw [served, send_stub]
    have kept : ∀ other fault, (removed stub faultId).faults.get? other = some fault →
        stub.faults.get? other = some fault := by
      intro other fault found
      rw [removed, Dict.get?_erase] at found
      split at found
      · cases found
      · exact found
    exact ⟨fun other fault found => sound.own other fault (kept other fault found),
      fun other fault found => sound.drawn other fault (kept other fault found)⟩
  · obtain ⟨same, later⟩ := alone.same
    constructor
    · rw [same]
      exact sound.own
    · intro faultId fault found
      rw [same] at found
      obtain ⟨count, early, drawn⟩ := sound.drawn faultId fault found
      exact ⟨count, early.trans_le later, drawn⟩

/-- Every state reached by any sequence of requests is sound. -/
theorem sound_reachable {runtime : Runtime} (run : Execution (StubStep runtime) {} history stub) :
    Sound runtime stub := by
  refine run.invariant (motive := Sound runtime) (fun sound step => ?_) (sound_initial runtime)
  obtain ⟨served, reached⟩ := step
  rw [← reached, ← served]
  exact sound_handle sound _

theorem Sound.fresh {runtime : Runtime} {stub : Agamemnon} (sound : Sound runtime stub)
    (distinct : Function.Injective runtime.uuid4) :
    stub.faults.get? (runtime.uuid4 stub.drawn) = none := by
  cases found : stub.faults.get? (runtime.uuid4 stub.drawn) with
  | none => rfl
  | some fault =>
    obtain ⟨count, early, same⟩ := sound.drawn _ fault found
    exact absurd (distinct same) early.ne'

theorem Sound.active {runtime : Runtime} {stub : Agamemnon} (sound : Sound runtime stub)
    (member : fault ∈ stub.faults.values) : isActive fault = true := by
  obtain ⟨⟨faultId, found⟩, present, same⟩ := List.mem_map.mp member
  subst same
  have active := (sound.own faultId found ((stub.faults.mem_entries_iff).mp present)).2.2
  simp [isActive, active, truthy]

theorem hasType_iff : hasType name fault = true ↔ fault.get? (py "type") = some (.string name) := by
  unfold hasType
  split
  · rename_i found
    simp [found]
  · rename_i other
    simp only [Bool.false_eq_true, false_iff]
    exact other name

/-! ### The latency total -/

/-- The faults a response waits for. -/
def latencyFaults (faults : Dict PyStr Record) : List Record := faults.values.filter waitedFor

/-- In a sound state these are all the faults of type `latency`. -/
theorem latencyFaults_eq {runtime : Runtime} {stub : Agamemnon} (sound : Sound runtime stub) :
    latencyFaults stub.faults = stub.faults.values.filter (hasType (py "latency")) := by
  refine List.filter_congr fun fault member => ?_
  rw [waitedFor, sound.active member, Bool.and_true]

/-- Each fault with the integer its `delay_ms` is. -/
abbrev Delays (faults : List Record) (delays : List Int) : Prop :=
  List.Forall₂ (fun fault delay => delayMs fault = .ok delay) faults delays

private theorem foldlM_addDelay (faults : List Record) (start total : Int) :
    faults.foldlM addDelay start = .ok total ↔
      ∃ delays, Delays (faults.filter waitedFor) delays ∧ total = start + delays.sum := by
  induction faults generalizing start with
  | nil => simp [pure, Except.pure, eq_comm]
  | cons fault rest ih =>
    rw [List.foldlM_cons]
    by_cases waits : waitedFor fault = true
    · rw [List.filter_cons_of_pos waits]
      cases delay : delayMs fault with
      | error error =>
        have stops : addDelay start fault = .error error := by simp [addDelay, waits, delay, Except.map]
        rw [stops]
        constructor
        · intro same
          cases same
        · rintro ⟨_, each, _⟩
          cases each with
          | cons head _ => cases delay.symm.trans head
      | ok value =>
        have turn : addDelay start fault = .ok (start + value) := by simp [addDelay, waits, delay, Except.map]
        rw [turn]
        refine (ih (start + value)).trans ?_
        constructor
        · rintro ⟨delays, each, sum⟩
          exact ⟨value :: delays, .cons delay each, by rw [List.sum_cons]; omega⟩
        · rintro ⟨_, each, sum⟩
          cases each with
          | cons head tail =>
            cases delay.symm.trans head
            rw [List.sum_cons] at sum
            exact ⟨_, tail, by omega⟩
    · have turn : addDelay start fault = .ok start := by simp [addDelay, waits]
      rw [List.filter_cons_of_neg waits, turn]
      exact ih start

/-- The total is the sum of the delays, and there is one only when each is an integer. -/
theorem activeLatencyMs_iff (faults : Dict PyStr Record) (total : Int) :
    activeLatencyMs faults = .ok total ↔
      ∃ delays, Delays (latencyFaults faults) delays ∧ total = delays.sum := by
  rw [activeLatencyMs, foldlM_addDelay]
  simp [latencyFaults]

end Charybdis.Stub
