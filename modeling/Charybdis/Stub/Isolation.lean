import Charybdis.Stub.FaultHistory

/-! Several clients of one stub, their requests served in any order. A client that removes
only faults it was told of can account for its own faults from its own exchanges. -/

namespace Charybdis.Stub

open Foundation

section Clients

variable {Party : Type} {runtime : Runtime}

/-- The exchanges of a run, whoever they were with. -/
def exchanges (turns : List (Party × Exchange)) : List Exchange := turns.map Prod.snd

/-- The exchanges of one client. -/
def ownExchanges [DecidableEq Party] (party : Party) (turns : List (Party × Exchange)) : List Exchange :=
  exchanges (turns.filter fun turn => turn.1 = party)

/-- Every removal is of a fault whose creation the same client was told of before. -/
def RemovesOwn [DecidableEq Party] (runtime : Runtime) (turns : List (Party × Exchange)) : Prop :=
  ∀ earlier party exchange later, turns = earlier ++ (party, exchange) :: later →
    ∀ faultId, Removes runtime exchange faultId →
      ∃ made ∈ ownExchanges party earlier, ∃ fault, Creates runtime made faultId fault

theorem mem_ownExchanges [DecidableEq Party] {party : Party} {turns : List (Party × Exchange)} :
    exchange ∈ ownExchanges party turns ↔ (party, exchange) ∈ turns := by
  simp [ownExchanges, exchanges]

/-! ### An identifier is given out once -/

section Once

variable {stub next : Agamemnon} {exchange : Exchange}

theorem creates_drawn (step : CleanStep runtime stub exchange next)
    (creates : Creates runtime exchange faultId fault) :
    faultId = runtime.uuid4 stub.drawn ∧ next.drawn = stub.drawn + 1 := by
  obtain ⟨⟨served, reached⟩, clean⟩ := step
  rcases handle_cases runtime stub exchange.request with
    ⟨chaosType, fields, asks, done⟩ | ⟨_, names, _, done⟩ | alone
  · obtain ⟨same, _⟩ := ((clean_registers asks (served ▸ done) clean).1 faultId fault).mp creates
    refine ⟨same, ?_⟩
    rw [← reached, ← served, done, send_stub]
    rfl
  · exact absurd creates ((clean_removes names (served ▸ done) clean).1 faultId fault)
  · exact absurd creates ((leftAlone_neither alone served).1 faultId fault)

theorem drawn_le_step (step : CleanStep runtime stub exchange next) : stub.drawn ≤ next.drawn := by
  obtain ⟨⟨served, reached⟩, _⟩ := step
  rw [← reached, ← served]
  rcases handle_cases runtime stub exchange.request with ⟨_, _, _, done⟩ | ⟨_, _, _, done⟩ | alone
  · rw [done, send_stub]
    exact Nat.le_succ _
  · rw [done, send_stub]
    exact le_rfl
  · exact alone.same.2

theorem drawn_le_run (run : Execution (CleanStep runtime) stub history last) : stub.drawn ≤ last.drawn :=
  run.invariant (motive := fun state => stub.drawn ≤ state.drawn)
    (fun below step => below.trans (drawn_le_step step)) le_rfl

/-- No two exchanges of a run create the same fault. -/
theorem creates_once (distinct : Function.Injective runtime.uuid4)
    (run : Execution (CleanStep runtime) stub (earlier ++ first :: middle ++ second :: later) last)
    (creates : Creates runtime first faultId fault) : ¬ Creates runtime second faultId other := by
  intro again
  obtain ⟨before, _, early, second_step, _⟩ := run.at_label
  obtain ⟨start, after, _, first_step, between⟩ := early.at_label
  obtain ⟨drawn, next⟩ := creates_drawn first_step creates
  obtain ⟨redrawn, _⟩ := creates_drawn second_step again
  have same : start.drawn = before.drawn := distinct (drawn.symm.trans redrawn)
  have later := drawn_le_run between
  omega

end Once

/-! ### From the run to one client and back -/

variable [DecidableEq Party]

omit [DecidableEq Party] in
private theorem exchanges_split {turns : List (Party × Exchange)}
    (split : exchanges turns = earlier ++ exchange :: later) :
    ∃ before party after, turns = before ++ (party, exchange) :: after ∧
      exchanges before = earlier ∧ exchanges after = later := by
  obtain ⟨before, rest, whole, early, tail⟩ := List.map_eq_append_iff.mp split
  obtain ⟨⟨party, found⟩, after, shape, same, late⟩ := List.map_eq_cons_iff.mp tail
  cases same
  exact ⟨before, party, after, by rw [whole, shape], early, late⟩

private theorem ownExchanges_split {turns : List (Party × Exchange)}
    (split : ownExchanges party turns = earlier ++ exchange :: later) :
    ∃ before after, turns = before ++ (party, exchange) :: after ∧ ownExchanges party after = later := by
  obtain ⟨mine, owner, rest, shape, _, late⟩ := exchanges_split split
  obtain ⟨before, tail, whole, _, kept⟩ := List.filter_eq_append_iff.mp shape
  obtain ⟨skipped, after, tailed, _, own, remaining⟩ := List.filter_eq_cons_iff.mp kept
  have same : owner = party := of_decide_eq_true own
  subst same
  refine ⟨before ++ skipped, after, by rw [whole, tailed, List.append_assoc], ?_⟩
  rw [ownExchanges, remaining, late]

omit [DecidableEq Party] in
private theorem no_other_creation {turns before after : List (Party × Exchange)} (distinct : Function.Injective runtime.uuid4)
    (run : Execution (CleanStep runtime) {} (exchanges turns) stub)
    (split : turns = before ++ (party, exchange) :: after)
    (creates : Creates runtime exchange faultId fault) :
    ∀ turn ∈ before ++ after, ∀ other, ¬ Creates runtime turn.2 faultId other := by
  rw [split] at run
  intro turn member other again
  rcases List.mem_append.mp member with early | late
  · obtain ⟨first, rest, shape⟩ := List.append_of_mem early
    rw [shape] at run
    have whole : Execution (CleanStep runtime) {}
        (exchanges first ++ turn.2 :: exchanges rest ++ exchange :: exchanges after) stub := by
      simpa [exchanges] using run
    exact creates_once distinct whole again creates
  · obtain ⟨first, rest, shape⟩ := List.append_of_mem late
    rw [shape] at run
    have whole : Execution (CleanStep runtime) {}
        (exchanges before ++ exchange :: exchanges first ++ turn.2 :: exchanges rest) stub := by
      simpa [exchanges] using run
    exact creates_once distinct whole creates again

private theorem live_iff_own {turns : List (Party × Exchange)} (distinct : Function.Injective runtime.uuid4)
    (run : Execution (CleanStep runtime) {} (exchanges turns) stub) (tidy : RemovesOwn runtime turns) :
    Live runtime (exchanges turns) faultId fault ↔
      ∃ party, Live runtime (ownExchanges party turns) faultId fault := by
  constructor
  · rintro ⟨earlier, exchange, later, split, creates, kept⟩
    obtain ⟨before, party, after, whole, _, late⟩ := exchanges_split split
    refine ⟨party, ownExchanges party before, exchange, ownExchanges party after, ?_, creates, ?_⟩
    · simp [whole, ownExchanges, exchanges]
    · intro other member
      apply kept
      rw [← late]
      exact List.mem_map.mpr ⟨(party, other), mem_ownExchanges.mp member, rfl⟩
  · rintro ⟨party, earlier, exchange, later, split, creates, kept⟩
    obtain ⟨before, after, whole, own⟩ := ownExchanges_split split
    refine ⟨exchanges before, exchange, exchanges after, by simp [whole, exchanges], creates, ?_⟩
    intro other member removes
    obtain ⟨⟨owner, found⟩, present, same⟩ := List.mem_map.mp member
    cases same
    obtain ⟨first, rest, shape⟩ := List.append_of_mem present
    -- whoever removes the fault was told of its creation, and only one client was
    obtain ⟨made, told, _, again⟩ := tidy (before ++ (party, exchange) :: first) owner found rest
      (by rw [whole, shape, List.append_assoc, List.cons_append]) faultId removes
    have unique := no_other_creation distinct run whole creates
    have mine : owner = party := by
      by_contra foreign
      have elsewhere : (owner, made) ∈ before ++ after := by
        have turn := mem_ownExchanges.mp told
        simp only [List.mem_append, List.mem_cons, Prod.mk.injEq, foreign, false_and, false_or] at turn
        rw [shape, List.mem_append, List.mem_append]
        exact turn.imp_right .inl
      exact unique _ elsewhere _ again
    subst mine
    exact kept found (own ▸ mem_ownExchanges.mpr present) removes

/-- However the requests of several clients interleave, if each is handled without an exception
and each client removes only faults it was told of, the registry is the disjoint union of what
each has created and not removed since by its own exchanges; nobody loses a fault to another,
and a fault that takes effect is somebody's. -/
theorem registry_is_partitioned (runtime : Runtime) (distinct : Function.Injective runtime.uuid4)
    {turns : List (Party × Exchange)} {stub : Agamemnon}
    (run : Execution (CleanStep runtime) {} (exchanges turns) stub) (tidy : RemovesOwn runtime turns) :
    (∀ faultId fault, stub.faults.get? faultId = some fault ↔
      ∃ party, Live runtime (ownExchanges party turns) faultId fault) ∧
    (∀ party other faultId fault fault', Live runtime (ownExchanges party turns) faultId fault →
      Live runtime (ownExchanges other turns) faultId fault' → party = other ∧ fault = fault') ∧
    (killActive stub.faults = true ↔ ∃ party faultId fault,
      Live runtime (ownExchanges party turns) faultId fault ∧
        fault.get? (py "type") = some (.string (py "kill"))) := by
  have recounts := recounts_run distinct run
  have agrees : ∀ faultId fault, stub.faults.get? faultId = some fault ↔
      ∃ party, Live runtime (ownExchanges party turns) faultId fault := fun faultId fault =>
    (recounts.agrees faultId fault).trans (live_iff_own distinct run tidy)
  refine ⟨agrees, ?_, ?_⟩
  · intro party other faultId fault fault' mine theirs
    have same : fault = fault' := by
      have found := (agrees faultId fault).mpr ⟨party, mine⟩
      have again := (agrees faultId fault').mpr ⟨other, theirs⟩
      exact Option.some.inj (found.symm.trans again)
    refine ⟨?_, same⟩
    obtain ⟨earlier, exchange, later, split, creates, _⟩ := mine
    obtain ⟨_, made, _, elsewhere, again, _⟩ := theirs
    obtain ⟨before, after, whole, _⟩ := ownExchanges_split split
    have turn : (other, made) ∈ turns := mem_ownExchanges.mp (elsewhere ▸ List.mem_append_right _ List.mem_cons_self)
    by_contra foreign
    have outside : (other, made) ∈ before ++ after := by
      simp only [whole, List.mem_append, List.mem_cons, Prod.mk.injEq, Ne.symm foreign, false_and,
        false_or] at turn
      exact List.mem_append.mpr turn
    exact no_other_creation distinct run whole creates _ outside _ again
  · rw [killActive_iff recounts.sound]
    constructor
    · rintro ⟨faultId, fault, found, kind⟩
      obtain ⟨party, live⟩ := (agrees faultId fault).mp found
      exact ⟨party, faultId, fault, live, kind⟩
    · rintro ⟨party, faultId, fault, live, kind⟩
      exact ⟨faultId, fault, (agrees faultId fault).mpr ⟨party, live⟩, kind⟩

end Clients

/-! ### Two clients that kill -/

def killRequest : Request := jsonPost (py "/v1/chaos/kill") (ascii "\x7b\x7d")

def firstKill : Outcome := handle sampleRuntime {} killRequest

def secondKill : Outcome := handle sampleRuntime firstKill.stub killRequest

/-- The first client removes the fault it was told of. -/
def firstRemoval : Request := { method := .delete, path := py "/v1/chaos/fault-" }

def twoClients : List (Bool × Exchange) :=
  [(true, ⟨killRequest, firstKill⟩), (false, ⟨killRequest, secondKill⟩),
    (true, ⟨firstRemoval, handle sampleRuntime secondKill.stub firstRemoval⟩)]

private theorem firstKill_step : CleanStep sampleRuntime {} ⟨killRequest, firstKill⟩ firstKill.stub :=
  ⟨⟨rfl, rfl⟩, by decide⟩

private theorem twoClients_run : Execution (CleanStep sampleRuntime) {} (exchanges twoClients)
    (handle sampleRuntime secondKill.stub firstRemoval).stub :=
  .more firstKill_step
    (.more ⟨⟨rfl, rfl⟩, by decide⟩ (.single ⟨⟨rfl, rfl⟩, by decide⟩))

private theorem firstKill_creates :
    ∃ fault, Creates sampleRuntime ⟨killRequest, firstKill⟩ (py "fault-") fault := by
  have present : firstKill.stub.faults.contains (py "fault-") = true := by decide
  obtain ⟨fault, found⟩ := Option.isSome_iff_exists.mp present
  obtain ⟨earlier, made, later, split, creates, _⟩ :=
    ((recounts_run sampleRuntime_distinct (.single firstKill_step)).agrees _ fault).mp found
  cases earlier with
  | nil =>
    cases split
    exact ⟨fault, creates⟩
  | cons _ rest => simp at split

private theorem twoClients_tidy : RemovesOwn sampleRuntime twoClients := by
  intro earlier party exchange later split faultId removes
  rcases earlier with _ | ⟨first, _ | ⟨second, _ | ⟨third, rest⟩⟩⟩
  · cases split
    cases removes.1
  · cases split
    cases removes.1
  · cases split
    have routed : route sampleRuntime firstRemoval.path = .ok (chaosPrefix ++ py "fault-") := by decide
    have same : faultId = py "fault-" :=
      List.append_cancel_left (Except.ok.inj (removes.2.1.symm.trans routed))
    subst same
    exact ⟨_, mem_ownExchanges.mpr List.mem_cons_self, firstKill_creates⟩
  · simp [twoClients] at split

/-- The second client's fault outlives the removal of the first client's. -/
theorem second_kill_survives :
    (∃ fault, Live sampleRuntime (ownExchanges false twoClients) (py "fault-0") fault) ∧
      ∀ party fault, ¬ Live sampleRuntime (ownExchanges party twoClients) (py "fault-") fault := by
  obtain ⟨agrees, _, _⟩ :=
    registry_is_partitioned sampleRuntime sampleRuntime_distinct twoClients_run twoClients_tidy
  have present : (handle sampleRuntime secondKill.stub firstRemoval).stub.faults.contains (py "fault-0") = true := by
    decide
  have absent : (handle sampleRuntime secondKill.stub firstRemoval).stub.faults.contains (py "fault-") = false := by
    decide
  constructor
  · obtain ⟨fault, found⟩ := Option.isSome_iff_exists.mp present
    obtain ⟨party, live⟩ := (agrees _ fault).mp found
    cases party with
    | false => exact ⟨fault, live⟩
    | true =>
      -- the first client was never told of this fault
      obtain ⟨_, made, _, split, creates, _⟩ := live
      have turn : (true, made) ∈ twoClients := mem_ownExchanges.mp (split ▸ by simp)
      simp only [twoClients, List.mem_cons, Prod.mk.injEq, true_and, Bool.true_eq_false, false_and,
        false_or, List.not_mem_nil, or_false] at turn
      rcases turn with same | same
      · subst same
        obtain ⟨drawn, _⟩ := creates_drawn firstKill_step creates
        exact absurd drawn (by decide)
      · subst same
        cases creates.1
  · intro party fault live
    have found := (agrees _ fault).mpr ⟨party, live⟩
    simp [Dict.contains, found] at absent

end Charybdis.Stub
