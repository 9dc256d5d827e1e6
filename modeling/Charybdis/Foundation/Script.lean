import Mathlib

/-! Shell scripts without loops under errexit: how they run, which ways there are through
them, and when a zero status means that a command was executed and succeeded. -/

namespace Charybdis.Foundation

universe u

/-- What is left of a script to run. -/
inductive Script (κ : Type u) where
  | done
  | command (name : κ) (rest : Script κ)
  /-- A command that always succeeds and may turn errexit on or off. -/
  | quiet (name : Option κ) (errexit : Option Bool) (rest : Script κ)
  /-- Without a number, the status is that of the last command. -/
  | exit (name : κ) (status : Option Nat)
  | branch (condition : κ) (yes no rest : Script κ)
  /-- A syntax error, where the shell gives up. -/
  | broken

/-- Where a part of a script leaves control: behind it, with the mode and whether the last
command succeeded, or out of the script, and whether the status is zero. -/
inductive Flow where
  | reached (errexit last : Bool)
  | exited (zero : Bool)

def Flow.zero : Flow → Bool
  | .reached _ last => last
  | .exited zero => zero

/-- The status of an `exit`, which the shell takes modulo 256. -/
def exitsZero (status : Option Nat) (last : Bool) : Bool := (status.map fun number => number % 256 == 0).getD last

variable {κ : Type u}

/-- A run: from a mode and the success of the last command, with every command that was
executed and whether it succeeded. -/
inductive Exec : Script κ → Bool → Bool → List (κ × Bool) → Flow → Prop
  | done : Exec .done errexit last [] (.reached errexit last)
  | passed (next : Exec rest errexit true trace flow) :
      Exec (.command name rest) errexit last ((name, true) :: trace) flow
  | failed (next : Exec rest false false trace flow) :
      Exec (.command name rest) false last ((name, false) :: trace) flow
  | stopped : Exec (.command name rest) true last [(name, false)] (.exited false)
  | quiet (next : Exec rest (mode.getD errexit) true trace flow) :
      Exec (.quiet name mode rest) errexit last ((name.map (·, true)).toList ++ trace) flow
  | exit : Exec (.exit name status) errexit last [(name, exitsZero status last)] (.exited (exitsZero status last))
  -- the failure of a condition ends nothing
  | left (body : Exec (if passed then yes else no) errexit passed trace (.exited zero)) :
      Exec (.branch condition yes no rest) errexit last ((condition, passed) :: trace) (.exited zero)
  | through (body : Exec (if passed then yes else no) errexit passed trace (.reached mode status))
      (next : Exec rest mode status later flow) :
      Exec (.branch condition yes no rest) errexit last ((condition, passed) :: (trace ++ later)) flow
  | broken : Exec .broken errexit last [] (.exited false)

/-- Every run that ends with status zero executes the command with success. -/
def Ensures (script : Script κ) (name : κ) : Prop :=
  ∀ trace flow, Exec script true true trace flow → flow.zero = true → (name, true) ∈ trace

/-! ### Routes -/

/-- One step on a way through a script: a command, checked by errexit or not, a condition that
went one way, or something that succeeds in any case. -/
inductive Step (κ : Type u) where
  | ran (name : κ) (checked : Bool)
  | tested (condition : κ) (passed : Bool)
  | quiet (name : Option κ)

/-- Where a way ends: behind its part of the script, or at an exit with its status; without
one it is that of the last command. -/
inductive Ending (κ : Type u) where
  | reached (errexit : Bool)
  | exit (name : Option κ) (zero : Option Bool)

abbrev Route (κ : Type u) := List (Step κ) × Ending κ

/-- The ways through a script on which no checked command fails. -/
def Script.routes : Script κ → Bool → List (Route κ)
  | .done, errexit => [([], .reached errexit)]
  | .command name rest, errexit => (rest.routes errexit).map fun route => (.ran name errexit :: route.1, route.2)
  | .quiet name mode rest, errexit =>
    (rest.routes (mode.getD errexit)).map fun route => (.quiet name :: route.1, route.2)
  | .exit name status, _ => [([], .exit (some name) (status.map fun number => number % 256 == 0))]
  | .branch condition yes no rest, errexit =>
    ((yes.routes errexit).map (fun route => (.tested condition true :: route.1, route.2)) ++
      (no.routes errexit).map (fun route => (.tested condition false :: route.1, route.2))).flatMap fun route =>
        match route.2 with
        | .reached mode => (rest.routes mode).map fun next => (route.1 ++ next.1, next.2)
        | .exit name zero => [(route.1, .exit name zero)]
  | .broken, _ => [([], .exit none (some false))]

/-- A way through the script that is taken with success passes here with success. -/
def Step.secures [DecidableEq κ] (name : κ) : Step κ → Bool
  | .ran other checked => other = name && checked
  | .tested other passed => other = name && passed
  | .quiet other => other = some name

/-- The step leaves status zero only if the command succeeded in it. -/
def Step.decides [DecidableEq κ] (name : κ) : Step κ → Bool
  | .ran other _ => other = name
  | .tested _ passed => !passed
  | .quiet _ => false

/-- The end of a way has its own status, which is not zero unless the command is the one that
ended it. -/
def Ending.secures [DecidableEq κ] (name : κ) : Ending κ → Bool
  | .reached _ => false
  | .exit other zero => other = some name || zero = some false

/-- The end of a way has the status of its last step. -/
def Ending.inherits : Ending κ → Bool
  | .reached _ => true
  | .exit _ zero => zero.isNone

/-- Status zero at the end of a way means that the command succeeded on it. -/
def Secured [DecidableEq κ] (name : κ) (route : Route κ) : Bool :=
  route.1.any (Step.secures name) || route.2.secures name ||
    (route.2.inherits && route.1.getLast?.any (Step.decides name))

/-! ### Runs are routes -/

/-- A trace on the steps of a way: the checked commands succeed, the others as they please. -/
inductive Follows : List (Step κ) → List (κ × Bool) → Bool → Bool → Prop
  | done : Follows [] [] last last
  | ran (checks : checked = true → passed = true) (next : Follows steps trace passed final) :
      Follows (.ran name checked :: steps) ((name, passed) :: trace) last final
  | tested (next : Follows steps trace passed final) :
      Follows (.tested name passed :: steps) ((name, passed) :: trace) last final
  | quiet (next : Follows steps trace true final) :
      Follows (.quiet name :: steps) ((name.map (·, true)).toList ++ trace) last final

def Ending.flow (last : Bool) : Ending κ → Flow
  | .reached errexit => .reached errexit last
  | .exit _ zero => .exited (zero.getD last)

/-- What the end of a way adds to the trace. -/
def Ending.trace (last : Bool) : Ending κ → List (κ × Bool)
  | .reached _ => []
  | .exit name zero => (name.map (·, zero.getD last)).toList

section Routes

variable {script yes no rest : Script κ} {steps others : List (Step κ)} {trace : List (κ × Bool)}
  {errexit last final : Bool} {route : Route κ} {flow : Flow}

/-- What a way goes on as behind the body of a branch. -/
def Script.onward (rest : Script κ) (body : Route κ) : List (Route κ) :=
  match body.2 with
  | .reached mode => (rest.routes mode).map fun next => (body.1 ++ next.1, next.2)
  | .exit name zero => [(body.1, .exit name zero)]

/-- A way through a branch is one through the body that its condition picks. -/
theorem mem_routes_branch {condition : κ} : route ∈ (Script.branch condition yes no rest).routes errexit ↔
    ∃ passed, ∃ body ∈ (if passed then yes else no).routes errexit,
      route ∈ rest.onward (.tested condition passed :: body.1, body.2) := by
  simp only [Script.routes, List.mem_flatMap, List.mem_append, List.mem_map]
  constructor
  · intro member
    obtain ⟨_, ⟨body, inside, same⟩ | ⟨body, inside, same⟩, onward⟩ := member
    · subst same
      exact ⟨true, body, inside, onward⟩
    · subst same
      exact ⟨false, body, inside, onward⟩
  · intro member
    obtain ⟨passed, body, inside, onward⟩ := member
    cases passed with
    | true => exact ⟨_, .inl ⟨body, inside, rfl⟩, onward⟩
    | false => exact ⟨_, .inr ⟨body, inside, rfl⟩, onward⟩

theorem Follows.append (first : Follows steps trace last middle) (second : Follows others later middle final) :
    Follows (steps ++ others) (trace ++ later) last final := by
  induction first with
  | done => exact second
  | ran checks _ ih => exact .ran checks (ih second)
  | tested _ ih => exact .tested (ih second)
  | quiet _ ih =>
    rw [List.append_assoc]
    exact .quiet (ih second)

theorem Follows.split (follows : Follows (steps ++ others) trace last final) :
    ∃ first second middle, trace = first ++ second ∧ Follows steps first last middle ∧
      Follows others second middle final := by
  induction steps generalizing trace last with
  | nil => exact ⟨[], trace, last, rfl, .done, follows⟩
  | cons step steps ih =>
    cases follows with
    | ran checks next =>
      obtain ⟨first, second, middle, same, front, back⟩ := ih next
      exact ⟨_ :: first, second, middle, by rw [same, List.cons_append], .ran checks front, back⟩
    | tested next =>
      obtain ⟨first, second, middle, same, front, back⟩ := ih next
      exact ⟨_ :: first, second, middle, by rw [same, List.cons_append], .tested front, back⟩
    | quiet next =>
      obtain ⟨first, second, middle, same, front, back⟩ := ih next
      exact ⟨_ ++ first, second, middle, by rw [same, List.append_assoc], .quiet front, back⟩

/-- The way can be run, with any outcome of the commands that errexit does not check. -/
def Runnable (script : Script κ) (errexit : Bool) (route : Route κ) : Prop :=
  ∀ trace last final, Follows route.1 trace last final →
    Exec script errexit last (trace ++ route.2.trace final) (route.2.flow final)

private theorem runnable_branch {condition : κ} {passed : Bool} {body : Route κ}
    (through : Runnable (if passed then yes else no) errexit body)
    (onwards : ∀ mode, ∀ next ∈ rest.routes mode, Runnable rest mode next)
    (member : route ∈ rest.onward (.tested condition passed :: body.1, body.2)) :
    Runnable (.branch condition yes no rest) errexit route := by
  intro trace last final follows
  obtain ⟨steps, ending⟩ := body
  cases ending with
  | reached mode =>
    obtain ⟨next, later, same⟩ := List.mem_map.mp member
    subst same
    cases follows with
    | tested follows =>
      obtain ⟨first, second, middle, same, front, back⟩ := follows.split
      subst same
      have run := through _ _ _ front
      have behind := onwards mode next later _ _ _ back
      rw [Ending.trace, List.append_nil] at run
      rw [List.cons_append, List.append_assoc]
      exact .through run behind
  | exit name zero =>
    rw [Script.onward, List.mem_singleton] at member
    subst member
    cases follows with
    | tested follows => exact .left (through _ _ _ follows)

/-- Every way through a script can be run. -/
theorem runnable_of_mem (member : route ∈ script.routes errexit) : Runnable script errexit route := by
  induction script generalizing errexit route with
  | branch condition yes no rest yesIh noIh restIh =>
    obtain ⟨passed, body, inside, onward⟩ := mem_routes_branch.mp member
    refine runnable_branch ?_ (fun mode next => restIh) onward
    cases passed with
    | true => exact yesIh inside
    | false => exact noIh inside
  | command name rest ih =>
    intro trace last final follows
    obtain ⟨next, inside, same⟩ := List.mem_map.mp member
    subst same
    cases follows with
    | ran checks follows =>
      rename_i passed _
      have run := ih inside _ _ _ follows
      cases passed with
      | true => exact .passed run
      | false =>
        cases errexit with
        | false => exact .failed run
        | true => cases checks rfl
  | quiet name mode rest ih =>
    intro trace last final follows
    obtain ⟨next, inside, same⟩ := List.mem_map.mp member
    subst same
    cases follows with
    | quiet follows =>
      have run := ih inside _ _ _ follows
      rw [List.append_assoc]
      exact .quiet run
  | done | exit name status | broken =>
    intro trace last final follows
    rw [Script.routes, List.mem_singleton] at member
    subst member
    cases follows
    constructor

/-- Every run is on a way, unless a checked command stopped it. -/
theorem route_of_exec (run : Exec script errexit last trace flow) : flow = .exited false ∨
    ∃ route ∈ script.routes errexit, ∃ own final, Follows route.1 own last final ∧
      trace = own ++ route.2.trace final ∧ flow = route.2.flow final := by
  induction run with
  | done => exact .inr ⟨_, List.mem_singleton_self _, [], _, .done, rfl, rfl⟩
  | passed _ ih =>
    apply ih.imp_right
    intro found
    obtain ⟨route, member, own, final, follows, same, ends⟩ := found
    exact ⟨_, List.mem_map_of_mem member, _, final, .ran (fun _ => rfl) follows, by rw [same, List.cons_append], ends⟩
  | failed _ ih =>
    apply ih.imp_right
    intro found
    obtain ⟨route, member, own, final, follows, same, ends⟩ := found
    exact ⟨_, List.mem_map_of_mem member, _, final, .ran nofun follows, by rw [same, List.cons_append], ends⟩
  | stopped => exact .inl rfl
  | quiet _ ih =>
    apply ih.imp_right
    intro found
    obtain ⟨route, member, own, final, follows, same, ends⟩ := found
    exact ⟨_, List.mem_map_of_mem member, _, final, .quiet follows, by rw [same, List.append_assoc], ends⟩
  | exit => exact .inr ⟨_, List.mem_singleton_self _, [], _, .done, rfl, rfl⟩
  | left _ ih =>
    apply ih.imp_right
    intro found
    obtain ⟨⟨steps, ending⟩, member, own, final, follows, same, ends⟩ := found
    cases ending with
    | reached _ => cases ends
    | exit name zero =>
      refine ⟨_, mem_routes_branch.mpr ⟨_, _, member, List.mem_singleton_self _⟩, _, final, .tested follows, ?_, ends⟩
      rw [same, List.cons_append]
  | through _ _ bodyIh nextIh =>
    obtain stopped | found := bodyIh
    · cases stopped
    · apply nextIh.imp_right
      intro foundNext
      obtain ⟨⟨steps, ending⟩, member, own, final, follows, same, ends⟩ := found
      obtain ⟨next, later, ownNext, finalNext, followsNext, sameNext, endsNext⟩ := foundNext
      cases ending with
      | exit _ _ => cases ends
      | reached mode =>
        cases ends
        refine ⟨_, mem_routes_branch.mpr ⟨_, _, member, List.mem_map_of_mem later⟩, _, finalNext,
          (Follows.tested follows).append followsNext, ?_, endsNext⟩
        simp [same, sameNext, Ending.trace]
  | broken => exact .inr ⟨_, List.mem_singleton_self _, [], _, .done, rfl, rfl⟩

end Routes

/-! ### Steady scripts -/

/-- Nothing turns errexit off, and every exit is one with a failure. -/
def Script.Steady : Script κ → Prop
  | .done | .broken => True
  | .command _ rest => rest.Steady
  | .quiet _ mode rest => mode ≠ some false ∧ rest.Steady
  | .exit _ status => ∃ number, status = some number ∧ number % 256 ≠ 0
  | .branch _ yes no rest => yes.Steady ∧ no.Steady ∧ rest.Steady

/-- The command stands outside of the branches, unless the script ends before it. -/
def Script.Passes (name : κ) : Script κ → Prop
  | .done => False
  | .command other rest => other = name ∨ rest.Passes name
  | .quiet other _ rest => other = some name ∨ rest.Passes name
  | .exit _ _ | .broken => True
  | .branch _ _ _ rest => rest.Passes name

section Steady

variable {script yes no rest : Script κ} {name condition : κ} {trace : List (κ × Bool)} {errexit last : Bool}
  {flow : Flow}

theorem Script.Steady.body (steady : (Script.branch condition yes no rest).Steady) (passed : Bool) :
    (if passed then yes else no).Steady := by
  cases passed with
  | true => exact steady.1
  | false => exact steady.2.1

theorem Script.Steady.onward {mode : Option Bool} {other : Option κ} (steady : (Script.quiet other mode rest).Steady) :
    mode.getD true = true ∧ rest.Steady := by
  obtain ⟨kept, steady⟩ := steady
  refine ⟨?_, steady⟩
  cases mode with
  | none => rfl
  | some mode =>
    cases mode with
    | true => rfl
    | false => exact absurd rfl kept

/-- A steady script keeps errexit on, and leaves with a failure. -/
theorem Script.Steady.ends (steady : script.Steady) (run : Exec script errexit last trace flow)
    (checked : errexit = true) : flow = .exited false ∨ ∃ status, flow = .reached true status := by
  induction run with
  | done => exact .inr ⟨_, by rw [checked]⟩
  | passed _ ih => exact ih steady checked
  | failed => cases checked
  | stopped | broken => exact .inl rfl
  | quiet _ ih =>
    subst checked
    exact ih steady.onward.2 steady.onward.1
  | exit =>
    obtain ⟨number, same, fails⟩ := steady
    exact .inl (by simp [same, exitsZero, fails])
  | left _ ih => exact .inl ((ih (steady.body _) checked).resolve_right nofun)
  | through _ _ bodyIh nextIh =>
    obtain stopped | ⟨_, reached⟩ := bodyIh (steady.body _) checked
    · cases stopped
    · cases reached
      exact nextIh steady.2.2 rfl

private theorem passed_of_zero (steady : script.Steady) (passes : script.Passes name)
    (run : Exec script errexit last trace flow) (checked : errexit = true) (zero : flow.zero = true) :
    (name, true) ∈ trace := by
  induction run with
  | done => cases passes
  | passed _ ih =>
    rcases passes with rfl | later
    · exact List.mem_cons_self
    · exact List.mem_cons_of_mem _ (ih steady later checked zero)
  | failed => cases checked
  | stopped | broken => cases zero
  | quiet _ ih =>
    rcases passes with rfl | later
    · exact List.mem_append_left _ (by simp)
    · subst checked
      exact List.mem_append_right _ (ih steady.onward.2 later steady.onward.1 zero)
  | exit =>
    obtain ⟨number, same, fails⟩ := steady
    simp [same, exitsZero, fails, Flow.zero] at zero
  | left body =>
    obtain stopped | ⟨_, reached⟩ := (steady.body _).ends body checked
    · cases stopped
      cases zero
    · cases reached
  | through body _ _ nextIh =>
    obtain stopped | ⟨_, reached⟩ := (steady.body _).ends body checked
    · cases stopped
    · cases reached
      exact List.mem_cons_of_mem _ (List.mem_append_right _ (nextIh steady.2.2 passes rfl zero))

/-- A steady script passes with its commands only. -/
theorem Script.Steady.ensures (steady : script.Steady) (passes : script.Passes name) : Ensures script name :=
  fun _ _ run zero => passed_of_zero steady passes run rfl zero

end Steady

/-! ### Secured commands -/

section Secured

variable [DecidableEq κ] {script : Script κ} {steps : List (Step κ)} {trace : List (κ × Bool)} {last final : Bool}
  {name : κ} {step : Step κ} {route : Route κ}

/-- A secured step leaves its mark on every trace. -/
theorem Follows.mem_of_secures (follows : Follows steps trace last final) (member : step ∈ steps)
    (secures : step.secures name = true) : (name, true) ∈ trace := by
  induction follows with
  | done => cases member
  | ran checks _ ih =>
    rcases List.mem_cons.mp member with same | later
    · subst same
      simp only [Step.secures, Bool.and_eq_true, decide_eq_true_eq] at secures
      simp [secures.1, checks secures.2]
    · exact List.mem_cons_of_mem _ (ih later)
  | tested _ ih =>
    rcases List.mem_cons.mp member with same | later
    · subst same
      simp only [Step.secures, Bool.and_eq_true, decide_eq_true_eq] at secures
      simp [secures.1, secures.2]
    · exact List.mem_cons_of_mem _ (ih later)
  | quiet _ ih =>
    rcases List.mem_cons.mp member with same | later
    · subst same
      simp only [Step.secures, decide_eq_true_eq] at secures
      simp [secures]
    · exact List.mem_append_right _ (ih later)

/-- The last step of a way makes its status. -/
theorem Follows.mem_of_decides (follows : Follows steps trace last true) (ends : steps.getLast? = some step)
    (decides : step.decides name = true) : (name, true) ∈ trace := by
  obtain ⟨front, same⟩ := List.getLast?_eq_some_iff.mp ends
  subst same
  obtain ⟨first, second, _, same, _, lastStep⟩ := follows.split
  subst same
  apply List.mem_append_right
  cases lastStep with
  | ran _ next =>
    cases next
    simp only [Step.decides, decide_eq_true_eq] at decides
    simp [decides]
  | tested next =>
    cases next
    cases decides
  | quiet next => cases decides

/-- The outcome of a step on the run that tells most about a command: it fails where it can,
and all others succeed. -/
def Step.outcome (name : κ) : Step κ → Bool
  | .ran other checked => checked || other ≠ name
  | .tested _ passed => passed
  | .quiet _ => true

def Step.entry (name : κ) (step : Step κ) : List (κ × Bool) :=
  match step with
  | .ran other _ => [(other, step.outcome name)]
  | .tested condition passed => [(condition, passed)]
  | .quiet other => (other.map (·, true)).toList

theorem follows_entries (steps : List (Step κ)) (name : κ) (last : Bool) :
    Follows steps (steps.flatMap (Step.entry name)) last ((steps.getLast?.map (Step.outcome name)).getD last) := by
  induction steps generalizing last with
  | nil => exact .done
  | cons step rest ih =>
    have final : (((step :: rest).getLast?.map (Step.outcome name)).getD last) =
        ((rest.getLast?.map (Step.outcome name)).getD (step.outcome name)) := by
      cases ends : rest.getLast? <;> simp [List.getLast?_cons, ends]
    rw [final, List.flatMap_cons]
    cases step with
    | ran other checked => exact .ran (by intro same; simp [Step.outcome, same]) (ih _)
    | tested condition passed => exact .tested (ih _)
    | quiet other => exact .quiet (ih _)

private theorem not_mem_entry (unsecured : step.secures name = false) : (name, true) ∉ step.entry name := by
  intro entry
  cases step with
  | ran other checked =>
    simp only [Step.entry, Step.outcome, List.mem_singleton, Prod.mk.injEq] at entry
    obtain ⟨same, passed⟩ := entry
    subst same
    simp_all [Step.secures]
  | tested condition passed =>
    simp only [Step.entry, List.mem_singleton, Prod.mk.injEq] at entry
    simp [Step.secures, ← entry.1, ← entry.2] at unsecured
  | quiet other =>
    simp only [Step.secures, decide_eq_false_iff_not] at unsecured
    simp [Step.entry, unsecured] at entry

private theorem outcome_of_undecided (undecided : step.decides name = false) : step.outcome name = true := by
  cases step with
  | ran other checked =>
    simp only [Step.decides, decide_eq_false_iff_not] at undecided
    simp [Step.outcome, undecided]
  | tested condition passed => simpa [Step.decides, Step.outcome] using undecided
  | quiet other => rfl

private theorem unsecured_run (member : route ∈ script.routes true) (unsecured : Secured name route = false) :
    ¬ Ensures script name := by
  intro ensures
  simp only [Secured, Bool.or_eq_false_iff, List.any_eq_false, Bool.not_eq_true] at unsecured
  obtain ⟨⟨passes, own⟩, inherited⟩ := unsecured
  have run := runnable_of_mem member _ _ _ (follows_entries route.1 name true)
  obtain ⟨steps, ending⟩ := route
  have final (inherits : ending.inherits = true) : (steps.getLast?.map (Step.outcome name)).getD true = true := by
    cases ends : steps.getLast? with
    | none => rfl
    | some step =>
      rw [inherits, Bool.true_and, ends, Option.any_some] at inherited
      exact outcome_of_undecided inherited
  have zero : (ending.flow ((steps.getLast?.map (Step.outcome name)).getD true)).zero = true := by
    cases ending with
    | reached mode => exact final rfl
    | exit other status =>
      cases status with
      | none => exact final rfl
      | some zero =>
        cases zero with
        | true => rfl
        | false => simp [Ending.secures] at own
  rcases List.mem_append.mp (ensures _ _ run zero) with inside | last
  · obtain ⟨step, present, entry⟩ := List.mem_flatMap.mp inside
    exact not_mem_entry (passes step present) entry
  · cases ending with
    | reached mode => cases last
    | exit other status => cases other <;> simp_all [Ending.trace, Ending.secures]

/-- A command is ensured exactly when every way through the script secures it. -/
theorem ensures_iff : Ensures script name ↔ ∀ route ∈ script.routes true, Secured name route = true := by
  constructor
  · intro ensures route member
    by_contra unsecured
    exact unsecured_run member (Bool.eq_false_iff.mpr unsecured) ensures
  · intro secured trace flow run zero
    rcases route_of_exec run with stopped | ⟨⟨steps, ending⟩, member, own, final, follows, same, ends⟩
    · rw [stopped] at zero
      cases zero
    · subst same ends
      have secured := secured _ member
      simp only [Secured, Bool.or_eq_true, List.any_eq_true, Bool.and_eq_true, Option.any_eq_true] at secured
      rcases secured with (⟨step, inside, secures⟩ | closing) | ⟨inherits, step, ends, decides⟩
      · exact List.mem_append_left _ (follows.mem_of_secures inside secures)
      · apply List.mem_append_right
        cases ending with
        | reached mode => cases closing
        | exit other status =>
          simp only [Ending.flow, Flow.zero] at zero
          simp only [Ending.secures, Bool.or_eq_true, decide_eq_true_eq] at closing
          rcases closing with same | fails
          · simp [Ending.trace, same, zero]
          · simp [fails] at zero
      · apply List.mem_append_left
        have status : final = true := by
          cases ending with
          | reached mode => exact zero
          | exit other status =>
            rw [Ending.inherits, Option.isNone_iff_eq_none] at inherits
            simpa [Ending.flow, Flow.zero, inherits] using zero
        subst status
        exact follows.mem_of_decides ends decides

end Secured

end Charybdis.Foundation
