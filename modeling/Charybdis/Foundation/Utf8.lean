import Mathlib

/-! Byte strings and the UTF-8 automaton: which byte strings are well formed, one
byte at a time, with every overlong form and every surrogate refused. -/

namespace Charybdis.Foundation

abbrev Bytes := List UInt8

/-- The bytes of an ASCII literal. -/
def ascii (text : String) : Bytes :=
  text.toList.map fun char => char.toNat.toUInt8

/-- Bytes are compared as unsigned numbers, so byte strings are ordered lexicographically. -/
instance byteOrder : LinearOrder UInt8 where
  le_refl := UInt8.le_refl
  le_trans := fun _ _ _ => UInt8.le_trans
  le_antisymm := fun _ _ => UInt8.le_antisymm
  le_total := UInt8.le_total
  lt_iff_le_not_ge := fun first second => by
    simp only [UInt8.lt_iff_toNat_lt, UInt8.le_iff_toNat_le]
    omega
  toDecidableLE := inferInstance

namespace Utf8

/-- Continuation bytes still owed, and the range the next one must lie in. -/
structure Owed where
  count : Nat
  low : UInt8
  high : UInt8
  deriving DecidableEq

/-- `count` unrestricted continuation bytes; none of them is a character boundary. -/
def tails (count : Nat) : Owed := ⟨count, 0x80, 0xBF⟩

/-- What the first byte of a character leaves owed. -/
def lead (byte : UInt8) : Option Owed :=
  if byte < 0x80 then some (tails 0)
  else if byte < 0xC2 then none
  else if byte < 0xE0 then some (tails 1)
  else if byte = 0xE0 then some ⟨2, 0xA0, 0xBF⟩
  else if byte = 0xED then some ⟨2, 0x80, 0x9F⟩
  else if byte < 0xF0 then some (tails 2)
  else if byte = 0xF0 then some ⟨3, 0x90, 0xBF⟩
  else if byte < 0xF4 then some (tails 3)
  else if byte = 0xF4 then some ⟨3, 0x80, 0x8F⟩
  else none

def step (owed : Owed) (byte : UInt8) : Option Owed :=
  match owed.count with
  | 0 => lead byte
  | more + 1 => if owed.low ≤ byte ∧ byte ≤ owed.high then some (tails more) else none

def run : Owed → Bytes → Option Owed
  | owed, [] => some owed
  | owed, byte :: rest => (step owed byte).bind fun next => run next rest

theorem run_append (owed : Owed) (first second : Bytes) :
    run owed (first ++ second) = (run owed first).bind fun next => run next second := by
  induction first generalizing owed with
  | nil => rfl
  | cons byte rest ih =>
    simp only [List.cons_append, run]
    cases step owed byte with
    | none => rfl
    | some next => exact ih next

/-- The string is a sequence of whole characters. -/
def Valid (bytes : Bytes) : Prop := run (tails 0) bytes = some (tails 0)

instance decidableValid (bytes : Bytes) : Decidable (Valid bytes) :=
  inferInstanceAs (Decidable (run (tails 0) bytes = some (tails 0)))

@[simp] theorem valid_nil : Valid [] := rfl

theorem Valid.append (first : Valid bytes) (second : Valid others) : Valid (bytes ++ others) := by
  simp only [Valid] at first second ⊢
  rw [run_append, first]
  exact second

theorem valid_cons (small : byte < 0x80) : Valid (byte :: rest) ↔ Valid rest := by
  simp [Valid, run, step, tails, lead, small]

theorem valid_of_ascii (small : ∀ byte ∈ bytes, byte < 0x80) : Valid bytes := by
  induction bytes with
  | nil => rfl
  | cons byte rest ih =>
    rw [valid_cons (small byte (by simp))]
    exact ih fun other member => small other (by simp [member])

private theorem step_owed (stepped : step owed byte = some next) :
    0x80 ≤ next.low ∧ (next.count = 0 → next = tails 0) := by
  unfold step at stepped
  split at stepped
  · unfold lead at stepped
    split_ifs at stepped <;> cases stepped <;> simp [tails]
  · rename_i more _
    split at stepped
    · cases stepped
      exact ⟨by simp [tails], fun none => by cases more <;> simp_all [tails]⟩
    · cases stepped

private theorem run_owed (began : 0x80 ≤ owed.low ∧ (owed.count = 0 → owed = tails 0))
    (ran : run owed bytes = some next) : 0x80 ≤ next.low ∧ (next.count = 0 → next = tails 0) := by
  induction bytes generalizing owed with
  | nil =>
    cases ran
    exact began
  | cons byte rest ih =>
    obtain ⟨between, stepped, ran⟩ := Option.bind_eq_some_iff.mp ran
    exact ih (step_owed stepped) ran

theorem valid_append_cons (small : byte < 0x80) :
    Valid (first ++ byte :: rest) ↔ Valid first ∧ Valid (byte :: rest) := by
  refine ⟨?_, fun both => both.1.append both.2⟩
  intro whole
  simp only [Valid, run_append, Option.bind_eq_some_iff] at whole
  obtain ⟨owed, ran, continued⟩ := whole
  obtain ⟨low, none⟩ := run_owed ⟨by decide, fun _ => rfl⟩ ran
  have settled : owed = tails 0 := by
    apply none
    cases count : owed.count with
    | zero => rfl
    | succ more =>
      have outside : ¬ owed.low ≤ byte := fun inside => absurd (lt_of_lt_of_le small low) (not_lt.mpr inside)
      simp [run, step, count, outside] at continued
  subst settled
  exact ⟨ran, continued⟩

end Utf8

end Charybdis.Foundation
