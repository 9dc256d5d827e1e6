import Mathlib

/-! Finite executions of a labelled transition relation, and the rules that carry
one-step facts to whole runs. Nothing here is about a particular system. -/

namespace Charybdis.Foundation

universe u v

/-- The labels of a finite run, from its first state to its last. -/
inductive Execution {State : Type u} {Label : Type v} (step : State → Label → State → Prop) :
    State → List Label → State → Prop where
  | done : Execution step state [] state
  | more (first : step state label next) (rest : Execution step next labels last) :
      Execution step state (label :: labels) last

variable {State : Type u} {Label : Type v} {step : State → Label → State → Prop}

theorem Execution.single (first : step state label next) : Execution step state [label] next :=
  .more first .done

theorem Execution.append (first : Execution step state labels middle)
    (second : Execution step middle others last) : Execution step state (labels ++ others) last := by
  induction first with
  | done => exact second
  | more one _ ih => exact .more one (ih second)

theorem Execution.split (run : Execution step state (labels ++ others) last) :
    ∃ middle, Execution step state labels middle ∧ Execution step middle others last := by
  induction labels generalizing state with
  | nil => exact ⟨state, .done, run⟩
  | cons label labels ih =>
    cases run with
    | more first rest =>
      obtain ⟨middle, before, after⟩ := ih rest
      exact ⟨middle, .more first before, after⟩

/-- The state in which the marked label fires, with the runs before and after it. -/
theorem Execution.at_label (run : Execution step state (labels ++ label :: others) last) :
    ∃ before after, Execution step state labels before ∧ step before label after ∧
      Execution step after others last := by
  obtain ⟨before, early, late⟩ := run.split
  cases late with
  | more first rest => exact ⟨before, _, early, first, rest⟩

/-- A property every step keeps holds at the end of every run that starts in it. -/
theorem Execution.invariant {motive : State → Prop}
    (keeps : ∀ {state label next}, motive state → step state label next → motive next)
    (run : Execution step state labels last) (initial : motive state) : motive last := by
  induction run with
  | done => exact initial
  | more first _ ih => exact ih (keeps initial first)

private theorem Execution.history_from {motive : List Label → State → Prop}
    (keeps : ∀ {past state label next}, motive past state → step state label next →
      motive (past ++ [label]) next)
    (run : Execution step state labels last) (initial : motive past state) :
    motive (past ++ labels) last := by
  induction run generalizing past with
  | done => simpa using initial
  | more first _ ih => simpa using ih (keeps initial first)

/-- An invariant that reads the history: what each step keeps of the labels so far and
the state they led to holds at the end of every run. -/
theorem Execution.history {motive : List Label → State → Prop}
    (keeps : ∀ {past state label next}, motive past state → step state label next →
      motive (past ++ [label]) next)
    (run : Execution step state labels last) (initial : motive [] state) : motive labels last :=
  run.history_from keeps initial

section Streaks

variable {α : Type u}

/-- Length of the longest run of `hit` elements a list ends in. -/
def streak (hit : α → Bool) (items : List α) : Nat :=
  (items.rtakeWhile hit).length

@[simp] theorem streak_nil (hit : α → Bool) : streak hit [] = 0 := by
  simp [streak, List.rtakeWhile_nil]

theorem streak_concat_hit (items : List α) (found : hit item = true) :
    streak hit (items ++ [item]) = streak hit items + 1 := by
  simp [streak, List.rtakeWhile_concat_pos hit items item found]

theorem streak_concat_miss (items : List α) (missed : hit item = false) :
    streak hit (items ++ [item]) = 0 := by
  simp [streak, List.rtakeWhile_concat_neg hit items item (by simp [missed])]

/-- A streak of `count` hits is a block of `count` consecutive hits in the list. -/
theorem exists_block_of_streak (items : List α) (long : count ≤ streak hit items) :
    ∃ block, block <:+: items ∧ block.length = count ∧ ∀ item ∈ block, hit item = true := by
  have tail : items.rtakeWhile hit <:+ items := List.rtakeWhile_suffix hit items
  refine ⟨(items.rtakeWhile hit).take count, ?_, ?_, ?_⟩
  · exact (List.take_prefix count _).isInfix.trans tail.isInfix
  · exact List.length_take_of_le long
  · intro item member
    exact List.mem_rtakeWhile_imp (List.mem_of_mem_take member)

end Streaks

end Charybdis.Foundation
