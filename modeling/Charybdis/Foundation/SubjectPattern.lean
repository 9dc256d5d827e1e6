import Mathlib

/-! Patterns over separated tokens: one token stands for any token, another one, in last
place, for any nonempty rest, and every other token for itself. -/

namespace Charybdis.Foundation.SubjectPattern

variable {α : Type} [DecidableEq α] (anyToken anyRest : List α)

/-- Whether a list of pattern tokens stands for a list of tokens. -/
def accepts : List (List α) → List (List α) → Bool
  | [], tokens => tokens.isEmpty
  | token :: pattern, tokens =>
    if token = anyRest ∧ pattern = [] then !tokens.isEmpty
    else
      match tokens with
      | [] => false
      | head :: tail => decide (token = anyToken ∨ token = head) && accepts pattern tail

variable {anyToken anyRest}

/-- What one pattern token takes off the tokens. -/
theorem accepts_cons :
    accepts anyToken anyRest (token :: pattern) tokens = true ↔
      (token = anyRest ∧ pattern = [] ∧ tokens ≠ []) ∨
      (¬ (token = anyRest ∧ pattern = []) ∧ ∃ head tail, tokens = head :: tail ∧
        (token = anyToken ∨ token = head) ∧ accepts anyToken anyRest pattern tail = true) := by
  by_cases last : token = anyRest ∧ pattern = []
  · simp [accepts, last]
  · cases tokens with
    | nil => simp [accepts, last]
    | cons head tail => simp [accepts, last]

theorem accepts_literal (notAny : token ≠ anyToken) (notRest : token ≠ anyRest) :
    accepts anyToken anyRest (token :: pattern) tokens = true ↔
      ∃ tail, tokens = token :: tail ∧ accepts anyToken anyRest pattern tail = true := by
  simp only [accepts_cons, notAny, notRest, false_and, false_or, not_false_eq_true, true_and]
  constructor
  · rintro ⟨head, tail, split, same, accepted⟩
    exact ⟨tail, same ▸ split, accepted⟩
  · rintro ⟨tail, split, accepted⟩
    exact ⟨token, tail, split, rfl, accepted⟩

theorem accepts_same (accepted : accepts anyToken anyRest pattern tokens = true) :
    accepts anyToken anyRest (token :: pattern) (token :: tokens) = true := by
  rw [accepts_cons]
  by_cases last : token = anyRest ∧ pattern = []
  · exact .inl ⟨last.1, last.2, by simp⟩
  · exact .inr ⟨last, token, tokens, rfl, .inr rfl, accepted⟩

theorem ne_nil_of_accepts (accepted : accepts anyToken anyRest pattern tokens = true) (nonempty : pattern ≠ []) :
    tokens ≠ [] := by
  cases pattern with
  | nil => exact absurd rfl nonempty
  | cons token pattern =>
    rcases accepts_cons.mp accepted with ⟨_, _, present⟩ | ⟨_, head, tail, split, _⟩
    · exact present
    · simp [split]

/-! ### Texts -/

section Texts

variable {separator anySymbol restSymbol : α}

/-- Whether a text with separators matches a pattern with separators. -/
def textMatches (separator anySymbol restSymbol : α) (pattern text : List α) : Bool :=
  accepts [anySymbol] [restSymbol] (pattern.splitOn separator) (text.splitOn separator)

private theorem splitOn_cons_self (text : List α) :
    (separator :: text).splitOn separator = [] :: text.splitOn separator := by
  simp [List.splitOn_cons_eq_if_modifyHead]

private theorem splitOn_cons_other {symbol : α} (other : symbol ≠ separator) (text : List α) :
    ∃ token tokens, text.splitOn separator = token :: tokens ∧
      (symbol :: text).splitOn separator = (symbol :: token) :: tokens := by
  obtain ⟨token, tokens, split⟩ := List.exists_cons_of_ne_nil (List.splitOn_ne_nil separator text)
  refine ⟨token, tokens, split, ?_⟩
  simp [List.splitOn_cons_eq_if_modifyHead, other, split]

/-- A symbol with no meaning of its own comes off the pattern and off the text together. -/
theorem textMatches_cons_literal {symbol : α} (notAny : symbol ≠ anySymbol) (notRest : symbol ≠ restSymbol)
    (matched : textMatches separator anySymbol restSymbol (symbol :: pattern) text = true) :
    ∃ tail, text = symbol :: tail ∧ textMatches separator anySymbol restSymbol pattern tail = true := by
  by_cases boundary : symbol = separator
  · -- a token of the pattern ends here, so one of the text does
    subst boundary
    rw [textMatches, splitOn_cons_self, accepts_literal (by simp) (by simp)] at matched
    obtain ⟨tokens, split, accepted⟩ := matched
    cases text with
    | nil =>
      rw [List.splitOn_nil] at split
      exact absurd (List.cons.inj split).2.symm (ne_nil_of_accepts accepted (List.splitOn_ne_nil _ _))
    | cons first tail =>
      by_cases same : first = symbol
      · subst same
        rw [splitOn_cons_self] at split
        exact ⟨tail, rfl, by rw [textMatches, (List.cons.inj split).2]; exact accepted⟩
      · obtain ⟨token, others, _, split'⟩ := splitOn_cons_other same tail
        rw [split'] at split
        cases split
  · -- inside a token: what is left of it, even if it is now special, stands for itself
    obtain ⟨token, tokens, patternSplit, patternSplit'⟩ := splitOn_cons_other boundary pattern
    rw [textMatches, patternSplit', accepts_literal (by simp [notAny]) (by simp [notRest])] at matched
    obtain ⟨others, split, accepted⟩ := matched
    cases text with
    | nil =>
      rw [List.splitOn_nil] at split
      cases split
    | cons first tail =>
      by_cases ends : first = separator
      · subst ends
        rw [splitOn_cons_self] at split
        cases split
      · obtain ⟨token', others', textSplit, textSplit'⟩ := splitOn_cons_other ends tail
        rw [textSplit'] at split
        cases split
        refine ⟨tail, rfl, ?_⟩
        rw [textMatches, patternSplit, textSplit]
        exact accepts_same accepted

/-- What a pattern says before its first special symbol, every text that matches it says. -/
theorem stem_of_textMatches {stem pattern text : List α} (noAny : anySymbol ∉ stem)
    (noRest : restSymbol ∉ stem) (starts : stem <+: pattern)
    (matched : textMatches separator anySymbol restSymbol pattern text = true) : stem <+: text := by
  induction stem generalizing pattern text with
  | nil => exact List.nil_prefix
  | cons symbol stem ih =>
    obtain ⟨remaining, spelled⟩ := starts
    subst spelled
    rw [List.mem_cons, not_or] at noAny noRest
    obtain ⟨tail, same, rest⟩ := textMatches_cons_literal (Ne.symm noAny.1) (Ne.symm noRest.1) matched
    subst same
    exact List.cons_prefix_cons.mpr ⟨rfl, ih noAny.2 noRest.2 (List.prefix_append _ _) rest⟩

end Texts

end Charybdis.Foundation.SubjectPattern
