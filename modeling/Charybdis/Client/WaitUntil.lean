import Mathlib

/-! The polling loop of the test helpers. The clock, the duration of each evaluation and
that of each sleep are not under its control; a schedule holds them all. -/

namespace Charybdis.Client

/-- The requested sleep between two polls, 500 ms in the clock's nanoseconds. -/
def pollInterval : Int := 500000000

/-- When poll number `poll` tests the deadline, when its predicate is looked at and when the
evaluation is over. A sleep may last longer than requested. -/
structure Schedule where
  start : Int
  check : Nat → Int
  read : Nat → Int
  done : Nat → Int
  started : start ≤ check 0
  begun : ∀ poll, check poll ≤ read poll
  ended : ∀ poll, read poll ≤ done poll
  slept : ∀ poll, done poll + pollInterval ≤ check (poll + 1)

/-- What `wait_until` returns, and the answer of every evaluation it made, in order. -/
structure Waited where
  result : Bool
  answers : List Bool

namespace Schedule

theorem interval_le (schedule : Schedule) (poll : Nat) :
    schedule.check poll + pollInterval ≤ schedule.check (poll + 1) := by
  have evaluated := (schedule.begun poll).trans (schedule.ended poll)
  exact (add_le_add_left evaluated _).trans (schedule.slept poll)

theorem check_mono (schedule : Schedule) : Monotone schedule.check := by
  apply monotone_nat_of_le_succ
  intro poll
  have spaced := schedule.interval_le poll
  unfold pollInterval at spaced
  omega

/-- Poll number `poll` is made: it tests the deadline before the timeout is over. -/
abbrev InTime (schedule : Schedule) (timeout : Int) (poll : Nat) : Prop :=
  schedule.check poll - schedule.start < timeout

end Schedule

/-- The `while` loop from poll number `poll` on. -/
def waitFrom (holds : Int → Bool) (timeout : Int) (schedule : Schedule) (poll : Nat) : Waited :=
  if schedule.check poll - schedule.start < timeout then
    if holds (schedule.read poll) then ⟨true, [true]⟩
    else
      let rest := waitFrom holds timeout schedule (poll + 1)
      ⟨rest.result, false :: rest.answers⟩
  else ⟨false, []⟩
termination_by (timeout - (schedule.check poll - schedule.start)).toNat
decreasing_by
  have spaced := schedule.interval_le poll
  unfold pollInterval at spaced
  omega

def waitUntil (holds : Int → Bool) (timeout : Int) (schedule : Schedule) : Waited :=
  waitFrom holds timeout schedule 0

section Loop

variable (holds : Int → Bool) (timeout : Int) (schedule : Schedule)

/-- At most one poll for each interval of the window that is left, the last one begun included. -/
theorem waitFrom_length_le (poll : Nat) :
    ((waitFrom holds timeout schedule poll).answers.length : Int) ≤
      (max 0 (timeout - (schedule.check poll - schedule.start)) + (pollInterval - 1)) / pollInterval := by
  induction poll using waitFrom.induct holds timeout schedule with
  | case1 poll intime found =>
    rw [waitFrom, if_pos intime, if_pos found]
    simp only [pollInterval, List.length_singleton]
    omega
  | case2 poll intime missed ih =>
    rw [waitFrom, if_pos intime, if_neg missed]
    have spaced := schedule.interval_le poll
    simp only [pollInterval, List.length_cons] at ih spaced ⊢
    omega
  | case3 poll late =>
    rw [waitFrom, if_neg late]
    simp only [pollInterval, List.length_nil]
    omega

theorem waitFrom_result_iff (poll : Nat) :
    (waitFrom holds timeout schedule poll).result = true ↔
      true ∈ (waitFrom holds timeout schedule poll).answers := by
  induction poll using waitFrom.induct holds timeout schedule with
  | case1 poll intime found =>
    rw [waitFrom, if_pos intime, if_pos found]
    simp
  | case2 poll intime missed ih =>
    rw [waitFrom, if_pos intime, if_neg missed]
    simpa using ih
  | case3 poll late =>
    rw [waitFrom, if_neg late]
    simp

theorem waitFrom_iff (poll : Nat) :
    (waitFrom holds timeout schedule poll).result = true ↔
      ∃ later, poll ≤ later ∧ schedule.InTime timeout later ∧ holds (schedule.read later) = true := by
  induction poll using waitFrom.induct holds timeout schedule with
  | case1 poll intime found =>
    rw [waitFrom, if_pos intime, if_pos found]
    exact ⟨fun _ => ⟨poll, le_rfl, intime, found⟩, fun _ => rfl⟩
  | case2 poll intime missed ih =>
    rw [waitFrom, if_pos intime, if_neg missed]
    refine Iff.trans ih ⟨fun ⟨later, after, found⟩ => ⟨later, Nat.le_of_succ_le after, found⟩, ?_⟩
    intro ⟨later, after, early, found⟩
    have other : poll ≠ later := by
      intro same
      subst same
      exact missed found
    exact ⟨later, Nat.lt_of_le_of_ne after other, early, found⟩
  | case3 poll late =>
    rw [waitFrom, if_neg late]
    refine ⟨nofun, fun ⟨later, after, early, _⟩ => absurd early ?_⟩
    have ordered := schedule.check_mono after
    unfold Schedule.InTime
    omega

/-- The predicate has turned true for good by the end of the window. -/
def Settles (holds : Int → Bool) (timeout : Int) (schedule : Schedule) : Prop :=
  ∃ moment ≤ schedule.start + timeout, ∀ time ≥ moment, holds time = true

/-- What a wait over the whole window does. -/
structure HonoursWindow (holds : Int → Bool) (timeout : Int) (schedule : Schedule) (waited : Waited) : Prop where
  evaluations : (waited.answers.length : Int) ≤ ⌈(timeout : ℚ) / pollInterval⌉
  truthful : waited.result = true ↔ true ∈ waited.answers
  settled : Settles holds timeout schedule → waited.result = true

private theorem length_le_ceil (positive : 0 < timeout) :
    ((waitUntil holds timeout schedule).answers.length : Int) ≤ ⌈(timeout : ℚ) / pollInterval⌉ := by
  have bound : ((waitUntil holds timeout schedule).answers.length : Int) ≤ _ :=
    waitFrom_length_le holds timeout schedule 0
  have started := schedule.started
  have ceil : ⌈(timeout : ℚ) / ((500000000 : ℕ) : ℚ)⌉ = -(-timeout / ((500000000 : ℕ) : Int)) :=
    Rat.ceil_intCast_div_natCast timeout 500000000
  have same : ((pollInterval : Int) : ℚ) = ((500000000 : ℕ) : ℚ) := by norm_num [pollInterval]
  rw [same, ceil]
  unfold pollInterval at bound
  omega

/-- A wait honours its window unless the predicate turns true for good inside it and every
poll begun before its end came too early to see that: nothing is polled after the last sleep. -/
theorem wait_honours_window_iff (holds : Int → Bool) (timeout : Int) (positive : 0 < timeout)
    (schedule : Schedule) :
    HonoursWindow holds timeout schedule (waitUntil holds timeout schedule) ↔
      ¬ (Settles holds timeout schedule ∧
        ∀ poll, schedule.check poll - schedule.start < timeout → holds (schedule.read poll) = false) := by
  have decided : (waitUntil holds timeout schedule).result = true ↔
      ∃ poll, schedule.InTime timeout poll ∧ holds (schedule.read poll) = true := by
    simpa [waitUntil] using waitFrom_iff holds timeout schedule 0
  constructor
  · intro honours ⟨settles, unseen⟩
    obtain ⟨poll, intime, found⟩ := decided.mp (honours.settled settles)
    simp [unseen poll intime] at found
  · intro seen
    refine ⟨length_le_ceil holds timeout schedule positive, waitFrom_result_iff _ _ _ 0, fun settles => decided.mpr ?_⟩
    by_contra none
    refine seen ⟨settles, fun poll intime => ?_⟩
    apply Bool.eq_false_iff.mpr
    exact fun found => none ⟨poll, intime, found⟩

end Loop

/-! ### The last sleep -/

/-- Evaluations that take no time and sleeps of exactly the requested length. -/
def promptSchedule : Schedule where
  start := 0
  check poll := poll * pollInterval
  read poll := poll * pollInterval
  done poll := poll * pollInterval
  started := by simp
  begun := fun _ => le_rfl
  ended := fun _ => le_rfl
  slept := fun poll => by push_cast; rw [add_mul, one_mul]

/-- A predicate that is true from this moment on. -/
def turnsTrueAt (moment time : Int) : Bool := moment ≤ time

private theorem turnsTrueAt_settles {moment timeout : Int} (early : moment ≤ timeout) :
    Settles (turnsTrueAt moment) timeout promptSchedule := by
  refine ⟨moment, by simpa [promptSchedule] using early, ?_⟩
  intro time later
  exact decide_eq_true later

/-- In a window of one second the polls come at 0 and 500 ms; what turns true at 700 ms is
slept over. -/
theorem last_sleep_is_not_polled :
    ¬ HonoursWindow (turnsTrueAt 700000000) 1000000000 promptSchedule
      (waitUntil (turnsTrueAt 700000000) 1000000000 promptSchedule) := by
  intro honours
  have returned := honours.settled (turnsTrueAt_settles (by decide))
  obtain ⟨poll, _, intime, found⟩ := (waitFrom_iff _ _ _ 0).mp returned
  have reached : 700000000 ≤ promptSchedule.read poll := of_decide_eq_true found
  simp only [Schedule.InTime, promptSchedule, pollInterval] at intime reached
  omega

/-- What turns true at 400 ms is seen. -/
theorem early_change_is_seen :
    HonoursWindow (turnsTrueAt 400000000) 1000000000 promptSchedule
      (waitUntil (turnsTrueAt 400000000) 1000000000 promptSchedule) := by
  apply (wait_honours_window_iff _ _ (by decide) promptSchedule).mpr
  intro ⟨_, unseen⟩
  have missed := unseen 1 (by decide)
  simp [turnsTrueAt, promptSchedule, pollInterval] at missed

end Charybdis.Client
