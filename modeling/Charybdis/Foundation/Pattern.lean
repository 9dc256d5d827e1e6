import Mathlib

/-! Regular patterns over classes of symbols: the language of a pattern, a matcher that takes
one symbol after the other, and the agreement of the two. -/

namespace Charybdis.Foundation

/-- A pattern; a class stands for every symbol in it. -/
inductive Pattern (α : Type) where
  | never
  | empty
  | one (inClass : α → Bool)
  | seq (first second : Pattern α)
  | alt (first second : Pattern α)
  | many (repeated : Pattern α)

namespace Pattern

open Language Computability

variable {α : Type}

/-- The words a pattern describes. -/
def language : Pattern α → Language α
  | never => 0
  | empty => 1
  | one inClass => {word | ∃ symbol, inClass symbol = true ∧ word = [symbol]}
  | seq first second => first.language * second.language
  | alt first second => first.language + second.language
  | many repeated => repeated.language∗

/-! ### Words of a language -/

theorem mem_never {word : List α} : word ∈ (never : Pattern α).language ↔ False :=
  Iff.rfl

theorem mem_empty {word : List α} : word ∈ (empty : Pattern α).language ↔ word = [] :=
  Language.mem_one word

theorem mem_one {inClass : α → Bool} {word : List α} :
    word ∈ (one inClass).language ↔ ∃ symbol, inClass symbol = true ∧ word = [symbol] :=
  Iff.rfl

theorem mem_seq {first second : Pattern α} {word : List α} :
    word ∈ (seq first second).language ↔
      ∃ front back, word = front ++ back ∧ front ∈ first.language ∧ back ∈ second.language := by
  rw [language, Language.mem_mul]
  constructor
  · rintro ⟨front, before, back, after, same⟩
    exact ⟨front, back, same.symm, before, after⟩
  · rintro ⟨front, back, same, before, after⟩
    exact ⟨front, before, back, after, same.symm⟩

theorem mem_alt {first second : Pattern α} {word : List α} :
    word ∈ (alt first second).language ↔ word ∈ first.language ∨ word ∈ second.language :=
  Language.mem_add _ _ word

theorem nil_mem_many {repeated : Pattern α} : [] ∈ (many repeated).language :=
  Language.nil_mem_kstar _

theorem cons_mem_many {repeated : Pattern α} {symbol : α} {word : List α} :
    symbol :: word ∈ (many repeated).language ↔
      ∃ front back, word = front ++ back ∧ symbol :: front ∈ repeated.language ∧
        back ∈ (many repeated).language := by
  constructor
  · intro member
    obtain ⟨parts, joined, inside⟩ := Language.mem_kstar_iff_exists_nonempty.mp member
    cases parts with
    | nil => cases joined
    | cons part parts =>
      obtain ⟨own, full⟩ := inside part List.mem_cons_self
      cases part with
      | nil => exact absurd rfl full
      | cons head front =>
        rw [List.flatten_cons, List.cons_append, List.cons.injEq] at joined
        obtain ⟨rfl, rfl⟩ := joined
        refine ⟨front, parts.flatten, rfl, own, ?_⟩
        exact Language.join_mem_kstar fun later member => (inside later (List.mem_cons_of_mem _ member)).1
  · rintro ⟨front, back, rfl, own, later⟩
    obtain ⟨parts, rfl, inside⟩ := Language.mem_kstar.mp later
    refine Language.mem_kstar.mpr ⟨(symbol :: front) :: parts, by simp, ?_⟩
    intro part member
    rcases List.mem_cons.mp member with rfl | member
    · exact own
    · exact inside part member

theorem mem_many_one {inClass : α → Bool} {word : List α} :
    word ∈ (many (one inClass)).language ↔ ∀ symbol ∈ word, inClass symbol = true := by
  induction word with
  | nil => simp [nil_mem_many]
  | cons symbol word ih =>
    rw [cons_mem_many, List.forall_mem_cons, ← ih]
    constructor
    · rintro ⟨front, back, rfl, ⟨other, inside, same⟩, later⟩
      rw [List.cons.injEq] at same
      obtain ⟨rfl, rfl⟩ := same
      exact ⟨inside, later⟩
    · rintro ⟨inside, later⟩
      exact ⟨[], word, rfl, ⟨symbol, inside, rfl⟩, later⟩

/-! ### Derived patterns -/

def plus (repeated : Pattern α) : Pattern α := seq repeated (many repeated)

def optional (pattern : Pattern α) : Pattern α := alt empty pattern

def times (pattern : Pattern α) : Nat → Pattern α
  | 0 => empty
  | count + 1 => seq pattern (times pattern count)

/-- Any word at all. -/
def anything : Pattern α := many (one fun _ => true)

/-- One word, symbol by symbol. -/
def text [DecidableEq α] : List α → Pattern α
  | [] => empty
  | symbol :: rest => seq (one fun other => decide (other = symbol)) (text rest)

/-- Patterns one after the other. -/
def chain : List (Pattern α) → Pattern α
  | [] => empty
  | [last] => last
  | first :: second :: rest => seq first (chain (second :: rest))

/-- Any word with a described part. -/
def within (pattern : Pattern α) : Pattern α := seq anything (seq pattern anything)

theorem mem_anything (word : List α) : word ∈ (anything : Pattern α).language :=
  mem_many_one.mpr fun _ _ => rfl

theorem mem_optional {pattern : Pattern α} {word : List α} :
    word ∈ (optional pattern).language ↔ word = [] ∨ word ∈ pattern.language := by
  rw [optional, mem_alt, mem_empty]

theorem mem_plus_one {inClass : α → Bool} {word : List α} :
    word ∈ (plus (one inClass)).language ↔ word ≠ [] ∧ ∀ symbol ∈ word, inClass symbol = true := by
  rw [plus, mem_seq]
  constructor
  · rintro ⟨_, back, rfl, ⟨symbol, inside, rfl⟩, later⟩
    exact ⟨by simp, List.forall_mem_cons.mpr ⟨inside, mem_many_one.mp later⟩⟩
  · rintro ⟨full, inside⟩
    cases word with
    | nil => exact absurd rfl full
    | cons symbol word =>
      obtain ⟨own, later⟩ := List.forall_mem_cons.mp inside
      exact ⟨[symbol], word, rfl, ⟨symbol, own, rfl⟩, mem_many_one.mpr later⟩

theorem mem_times_one {inClass : α → Bool} {count : Nat} {word : List α} :
    word ∈ (times (one inClass) count).language ↔
      word.length = count ∧ ∀ symbol ∈ word, inClass symbol = true := by
  induction count generalizing word with
  | zero =>
    rw [times, mem_empty, List.length_eq_zero_iff]
    refine ⟨fun same => ⟨same, ?_⟩, And.left⟩
    rw [same]
    simp
  | succ count ih =>
    rw [times, mem_seq]
    constructor
    · rintro ⟨_, back, rfl, ⟨symbol, inside, rfl⟩, later⟩
      obtain ⟨long, others⟩ := ih.mp later
      exact ⟨by simp [long], List.forall_mem_cons.mpr ⟨inside, others⟩⟩
    · rintro ⟨long, inside⟩
      cases word with
      | nil => cases long
      | cons symbol word =>
        obtain ⟨own, later⟩ := List.forall_mem_cons.mp inside
        exact ⟨[symbol], word, rfl, ⟨symbol, own, rfl⟩, ih.mpr ⟨Nat.succ.inj long, later⟩⟩

theorem mem_text [DecidableEq α] {letters word : List α} :
    word ∈ (text letters).language ↔ word = letters := by
  induction letters generalizing word with
  | nil => exact mem_empty
  | cons letter letters ih =>
    rw [text, mem_seq]
    constructor
    · rintro ⟨_, back, rfl, ⟨symbol, inside, rfl⟩, later⟩
      rw [of_decide_eq_true inside, ih.mp later]
      rfl
    · rintro rfl
      exact ⟨[letter], letters, rfl, ⟨letter, decide_eq_true rfl, rfl⟩, ih.mpr rfl⟩

theorem mem_chain {first second : Pattern α} {rest : List (Pattern α)} {word : List α} :
    word ∈ (chain (first :: second :: rest)).language ↔
      ∃ front back, word = front ++ back ∧ front ∈ first.language ∧ back ∈ (chain (second :: rest)).language :=
  mem_seq

/-! ### The matcher -/

/-- Whether the empty word is described. -/
def nullable : Pattern α → Bool
  | never => false
  | empty => true
  | one _ => false
  | seq first second => first.nullable && second.nullable
  | alt first second => first.nullable || second.nullable
  | many _ => true

/-- `seq` without the patterns it does nothing with. -/
def joined : Pattern α → Pattern α → Pattern α
  | never, _ => never
  | empty, second => second
  | first, second => seq first second

/-- `alt` without the patterns it does nothing with. -/
def either : Pattern α → Pattern α → Pattern α
  | never, second => second
  | first, never => first
  | first, second => alt first second

/-- What is left to match once a symbol is read. -/
def after (symbol : α) : Pattern α → Pattern α
  | never => never
  | empty => never
  | one inClass => if inClass symbol then empty else never
  | seq first second =>
    if first.nullable then either (joined (first.after symbol) second) (second.after symbol)
    else joined (first.after symbol) second
  | alt first second => either (first.after symbol) (second.after symbol)
  | many repeated => joined (repeated.after symbol) (many repeated)

def accepts (pattern : Pattern α) : List α → Bool
  | [] => pattern.nullable
  | symbol :: rest => accepts (pattern.after symbol) rest

theorem nullable_iff {pattern : Pattern α} : pattern.nullable = true ↔ [] ∈ pattern.language := by
  induction pattern with
  | never => simp [nullable, mem_never]
  | empty => simp [nullable, mem_empty]
  | one inClass => simp [nullable, mem_one]
  | seq first second ihFirst ihSecond =>
    rw [nullable, Bool.and_eq_true, ihFirst, ihSecond, mem_seq]
    constructor
    · rintro ⟨before, after⟩
      exact ⟨[], [], rfl, before, after⟩
    · rintro ⟨front, back, same, before, after⟩
      obtain ⟨rfl, rfl⟩ := List.append_eq_nil_iff.mp same.symm
      exact ⟨before, after⟩
  | alt first second ihFirst ihSecond => rw [nullable, Bool.or_eq_true, ihFirst, ihSecond, mem_alt]
  | many repeated => simp [nullable, nil_mem_many]

theorem mem_joined {first second : Pattern α} {word : List α} :
    word ∈ (joined first second).language ↔ word ∈ (seq first second).language := by
  cases first with
  | never => simp [joined, mem_seq, mem_never]
  | empty => simp [joined, mem_seq, mem_empty]
  | _ => rfl

theorem mem_either {first second : Pattern α} {word : List α} :
    word ∈ (either first second).language ↔ word ∈ first.language ∨ word ∈ second.language := by
  cases first with
  | never => simp [either, mem_never]
  | _ =>
    cases second with
    | never => simp [either, mem_never]
    | _ => exact mem_alt

/-- One symbol of a sequence comes from its first part, or from the second if the first can
be empty. -/
theorem cons_mem_seq {first second : Pattern α} {symbol : α} {word : List α} :
    symbol :: word ∈ (seq first second).language ↔
      (∃ front back, word = front ++ back ∧ symbol :: front ∈ first.language ∧ back ∈ second.language) ∨
      ([] ∈ first.language ∧ symbol :: word ∈ second.language) := by
  rw [mem_seq]
  constructor
  · rintro ⟨front, back, same, before, after⟩
    cases front with
    | nil => exact .inr ⟨before, same ▸ after⟩
    | cons head front =>
      rw [List.cons_append, List.cons.injEq] at same
      obtain ⟨rfl, rfl⟩ := same
      exact .inl ⟨front, back, rfl, before, after⟩
  · rintro (⟨front, back, rfl, before, after⟩ | ⟨before, after⟩)
    · exact ⟨symbol :: front, back, rfl, before, after⟩
    · exact ⟨[], symbol :: word, rfl, before, after⟩

theorem mem_after {pattern : Pattern α} {symbol : α} {word : List α} :
    word ∈ (pattern.after symbol).language ↔ symbol :: word ∈ pattern.language := by
  induction pattern generalizing word with
  | never => exact Iff.rfl
  | empty => simp [after, mem_never, mem_empty]
  | one inClass =>
    by_cases inside : inClass symbol = true
    · simp [after, inside, mem_empty, mem_one]
    · simp [after, inside, mem_never, mem_one]
  | seq first second ihFirst ihSecond =>
    rw [cons_mem_seq, after, ← nullable_iff, ← ihSecond]
    by_cases passed : first.nullable = true
    · simp only [passed, if_true, mem_either, mem_joined, mem_seq, ihFirst, true_and]
    · simp only [passed, Bool.false_eq_true, if_false, mem_joined, mem_seq, ihFirst, false_and, or_false]
  | alt first second ihFirst ihSecond => rw [after, mem_either, mem_alt, ihFirst, ihSecond]
  | many repeated ih => simp only [after, mem_joined, mem_seq, cons_mem_many, ih]

/-- The matcher accepts the words of the language. -/
theorem accepts_iff {pattern : Pattern α} {word : List α} :
    pattern.accepts word = true ↔ word ∈ pattern.language := by
  induction word generalizing pattern with
  | nil => exact nullable_iff
  | cons symbol word ih => rw [accepts, ih, mem_after]

end Pattern

end Charybdis.Foundation
