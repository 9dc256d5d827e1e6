import Charybdis.Client.WaitUntil

/-! The polling loop over a predicate that acts: each evaluation changes the state the next
one starts from, and may end in an exception. -/

namespace Charybdis.Client

/-- The `while` loop from poll number `index` on. -/
def waitWith (poll : σ → Except ε Bool × σ) (timeout : Int) (schedule : Schedule) (index : Nat) (state : σ) :
    Except ε Bool × σ :=
  if schedule.check index - schedule.start < timeout then
    match poll state with
    | (.ok false, next) => waitWith poll timeout schedule (index + 1) next
    | settled => settled
  else (.ok false, state)
termination_by (timeout - (schedule.check index - schedule.start)).toNat
decreasing_by
  have spaced := schedule.interval_le index
  unfold pollInterval at spaced
  omega

/-- The state after so many evaluations. -/
def afterPolls (poll : σ → Except ε Bool × σ) (count : Nat) (state : σ) : σ :=
  (fun state => (poll state).2)^[count] state

section Loop

variable {poll : σ → Except ε Bool × σ} {timeout : Int} {schedule : Schedule}

theorem afterPolls_succ (count : Nat) (state : σ) :
    afterPolls poll (count + 1) state = afterPolls poll count (poll state).2 :=
  Function.iterate_succ_apply _ count state

theorem afterPolls_kept {Kept : σ → Prop} (keeps : ∀ state, Kept state → Kept (poll state).2) (kept : Kept state)
    (count : Nat) : Kept (afterPolls poll count state) := by
  induction count generalizing state with
  | zero => exact kept
  | succ count ih =>
    rw [afterPolls_succ]
    exact ih (keeps state kept)

/-- A predicate that only looks at the clock makes this the plain loop. -/
theorem waitWith_reads (holds : Int → Bool) (index : Nat) :
    (waitWith (fun index => ((.ok (holds (schedule.read index)) : Except ε Bool), index + 1)) timeout schedule
      index index).1 = .ok (waitFrom holds timeout schedule index).result := by
  induction index using waitFrom.induct holds timeout schedule with
  | case1 index early found => rw [waitWith, waitFrom, if_pos early, if_pos early, if_pos found, found]
  | case2 index early missed ih =>
    rw [waitWith, waitFrom, if_pos early, if_pos early, if_neg missed, Bool.eq_false_of_not_eq_true missed]
    exact ih
  | case3 index late => rw [waitWith, waitFrom, if_neg late, if_neg late]

/-- Where no evaluation throws, a wait keeps what every evaluation keeps, and is true iff one
that begins in time is. -/
theorem waitWith_iff {Kept : σ → Prop} (keeps : ∀ state, Kept state → Kept (poll state).2)
    (calm : ∀ state, Kept state → ∃ verdict, (poll state).1 = .ok verdict) (index : Nat) (kept : Kept state) :
    Kept (waitWith poll timeout schedule index state).2 ∧
    ∃ verdict, (waitWith poll timeout schedule index state).1 = .ok verdict ∧
      (verdict = true ↔ ∃ count, schedule.InTime timeout (index + count) ∧
        (poll (afterPolls poll count state)).1 = .ok true) := by
  induction index, state using waitWith.induct poll timeout schedule with
  | case1 index state early next missed ih =>
    have after : (poll state).2 = next := by rw [missed]
    obtain ⟨still, verdict, ended, met⟩ := ih (after ▸ keeps state kept)
    rw [waitWith, if_pos early, missed]
    refine ⟨still, verdict, ended, met.trans ⟨?_, ?_⟩⟩
    · rintro ⟨count, later, found⟩
      refine ⟨count + 1, (by rwa [Nat.add_right_comm] at later), ?_⟩
      rwa [afterPolls_succ, after]
    · rintro ⟨count, later, found⟩
      cases count with
      | zero =>
        have first : (poll state).1 = .ok true := found
        rw [missed] at first
        cases first
      | succ count =>
        rw [afterPolls_succ, after] at found
        exact ⟨count, by rwa [Nat.add_right_comm], found⟩
  | case2 index state early other =>
    obtain ⟨verdict, ended⟩ := calm state kept
    have found : (poll state).1 = .ok true := by
      cases verdict with
      | true => exact ended
      | false => exact (other (poll state).2 (Prod.ext ended rfl)).elim
    have stops : waitWith poll timeout schedule index state = poll state := by
      rw [waitWith, if_pos early]
      split
      · rename_i same
        exact (other _ same).elim
      · rfl
    rw [stops]
    exact ⟨keeps state kept, true, found, ⟨fun _ => ⟨0, early, found⟩, fun _ => rfl⟩⟩
  | case3 index state late =>
    rw [waitWith, if_neg late]
    refine ⟨kept, false, rfl, nofun, ?_⟩
    rintro ⟨count, later, _⟩
    have ordered := schedule.check_mono (Nat.le_add_right index count)
    unfold Schedule.InTime at later
    omega

theorem waitWith_finds {Kept Good : σ → Prop} (keeps : ∀ state, Kept state → Kept (poll state).2)
    (finds : ∀ state, Kept state → ∃ verdict, (poll state).1 = .ok verdict ∧ (verdict = true ↔ Good state))
    (index : Nat) (kept : Kept state) :
    Kept (waitWith poll timeout schedule index state).2 ∧
    ∃ verdict, (waitWith poll timeout schedule index state).1 = .ok verdict ∧
      (verdict = true ↔ ∃ count, schedule.InTime timeout (index + count) ∧ Good (afterPolls poll count state)) := by
  have calm : ∀ state, Kept state → ∃ verdict, (poll state).1 = .ok verdict := fun state kept =>
    (finds state kept).imp fun _ found => found.1
  obtain ⟨still, verdict, ended, met⟩ := waitWith_iff keeps calm index kept
  refine ⟨still, verdict, ended, met.trans (exists_congr fun count => and_congr_right fun _ => ?_)⟩
  obtain ⟨found, same, good⟩ := finds _ (afterPolls_kept keeps kept count)
  rw [same, ← good, Except.ok.injEq]

end Loop

end Charybdis.Client
