import Charybdis.Client.HttpTestClient

/-! The recovery timeout of the kill fault: what `std::stoi` takes out of the value of
`CHAOS_RECOVERY_TIMEOUT_S`, against the numbers that value can spell. -/

namespace Charybdis.Client

open Foundation

/-- `isspace` of the C locale. -/
def isCSpace (byte : UInt8) : Bool := byte = 0x20 || (0x09 ≤ byte && byte ≤ 0x0d)

/-- A sign, if there is one, and the rest: whether it is a minus sign. -/
def signed : Bytes → Bool × Bytes
  | [] => (false, [])
  | byte :: rest =>
    if byte = 0x2d then (true, rest)
    else if byte = 0x2b then (false, rest)
    else (false, byte :: rest)

def signedValue (negative : Bool) (digits : Bytes) : Int :=
  if negative then -(digitsValue digits) else digitsValue digits

/-- The exceptions of `std::stoi`. -/
inductive StoiError where
  | invalidArgument
  | outOfRange
  deriving DecidableEq

/-- `std::stoi`: white space, a sign, and as many digits as there are; what follows the
digits is not looked at. -/
def stoi (text : Bytes) : Except StoiError Int :=
  let unsigned := signed (text.dropWhile isCSpace)
  let digits := unsigned.2.takeWhile isDigit
  if digits = [] then .error .invalidArgument
  else if -intMax - 1 ≤ signedValue unsigned.1 digits ∧ signedValue unsigned.1 digits ≤ intMax then
    .ok (signedValue unsigned.1 digits)
  else .error .outOfRange

def kDefaultRecoveryTimeout : Int := 10

/-- The seconds to wait; the argument is what `getenv` returns. -/
def chaosRecoveryTimeout : Option Bytes → Int
  | none => kDefaultRecoveryTimeout
  | some env =>
    if env = [] then kDefaultRecoveryTimeout
    else
      match stoi env with
      | .ok parsed => if parsed ≤ 0 then kDefaultRecoveryTimeout else parsed
      | .error _ => kDefaultRecoveryTimeout

/-- The whole text is white space, a sign and digits, and this is what it spells. -/
def IntegerForm (text : Bytes) (value : Int) : Prop :=
  ∃ space sign digits, text = space ++ sign ++ digits ∧
    (∀ byte ∈ space, isCSpace byte = true) ∧ digits ≠ [] ∧ (∀ digit ∈ digits, isDigit digit = true) ∧
    ((sign = [] ∨ sign = [0x2b]) ∧ value = digitsValue digits ∨
      sign = [0x2d] ∧ value = -(digitsValue digits))

/-- A timeout the variable may ask for. -/
def Timeout (seconds : Int) : Prop := 1 ≤ seconds ∧ seconds ≤ intMax

/-- The result is what the whole value spells, if that is a timeout, and else the default. -/
structure ReadsWhole (env : Option Bytes) (result : Int) : Prop where
  positive : 0 < result
  spelled : ∀ value seconds, env = some value → IntegerForm value seconds → Timeout seconds →
    result = seconds
  otherwise : (¬ ∃ value seconds, env = some value ∧ IntegerForm value seconds ∧ Timeout seconds) →
    result = kDefaultRecoveryTimeout

/-- A timeout other than the default is spelled, and more text follows it. -/
def CutShort (text : Bytes) : Prop :=
  ∃ whole rest seconds, text = whole ++ rest ∧ rest ≠ [] ∧ (∀ byte ∈ rest.head?, isDigit byte = false) ∧
    IntegerForm whole seconds ∧ Timeout seconds ∧ seconds ≠ kDefaultRecoveryTimeout

/-! ### What the conversion takes -/

private theorem not_space_of_digit (digit : isDigit byte = true) : isCSpace byte = false := by
  simp only [isDigit, isCSpace, Bool.and_eq_true, decide_eq_true_eq, Bool.or_eq_false_iff,
    Bool.and_eq_false_iff, decide_eq_false_iff_not, UInt8.le_iff_toNat_le, UInt8.toNat_ofNat] at digit ⊢
  have other : byte ≠ 0x20 := by
    intro same
    subst same
    exact absurd digit.1 (by decide)
  exact ⟨other, .inr (by omega)⟩

private theorem signed_append (others : Bytes) (decimal : isDigit digit = true)
    (known : (sign = [] ∨ sign = [0x2b]) ∧ negative = false ∨ sign = [0x2d] ∧ negative = true) :
    signed (sign ++ digit :: others) = (negative, digit :: others) ∧
      (sign ++ digit :: others).dropWhile isCSpace = sign ++ digit :: others := by
  have minus : digit ≠ 0x2d := by intro same; subst same; exact absurd decimal (by decide)
  have plus : digit ≠ 0x2b := by intro same; subst same; exact absurd decimal (by decide)
  rcases known with ⟨none | some, same⟩ | ⟨some, same⟩
  · subst none same
    simp [signed, minus, plus, not_space_of_digit decimal]
  · subst some same
    exact ⟨rfl, rfl⟩
  · subst some same
    exact ⟨rfl, rfl⟩

/-- What is left when the conversion ends. -/
private def stoiRest (text : Bytes) : Bytes :=
  (signed (text.dropWhile isCSpace)).2.dropWhile isDigit

private theorem stoi_form (form : IntegerForm whole value) (rest : Bytes)
    (stop : ∀ byte ∈ rest.head?, isDigit byte = false) :
    stoiRest (whole ++ rest) = rest ∧
      stoi (whole ++ rest) =
        if -intMax - 1 ≤ value ∧ value ≤ intMax then .ok value else .error .outOfRange := by
  obtain ⟨space, sign, digits, split, blank, nonempty, decimal, known⟩ := form
  obtain ⟨negative, signs, spelled⟩ : ∃ negative,
      ((sign = [] ∨ sign = [0x2b]) ∧ negative = false ∨ sign = [0x2d] ∧ negative = true) ∧
      signedValue negative digits = value := by
    rcases known with ⟨signs, same⟩ | ⟨signs, same⟩
    · exact ⟨false, .inl ⟨signs, rfl⟩, same.symm⟩
    · exact ⟨true, .inr ⟨signs, rfl⟩, same.symm⟩
  have stopped : rest.takeWhile isDigit = [] ∧ rest.dropWhile isDigit = rest := by
    cases rest with
    | nil => simp
    | cons byte rest => simp [stop byte rfl]
  have taken : (digits ++ rest).takeWhile isDigit = digits := by
    rw [List.takeWhile_append_of_pos decimal, stopped.1, List.append_nil]
  have left : (digits ++ rest).dropWhile isDigit = rest := by
    rw [List.dropWhile_append_of_pos decimal, stopped.2]
  have body : signed ((whole ++ rest).dropWhile isCSpace) = (negative, digits ++ rest) := by
    obtain ⟨digit, others, shape⟩ := List.exists_cons_of_ne_nil nonempty
    obtain ⟨signedOff, solid⟩ := signed_append (others ++ rest) (decimal digit (by simp [shape])) signs
    rw [split, List.append_assoc, List.append_assoc, List.dropWhile_append_of_pos blank, shape,
      List.cons_append, solid, signedOff]
  refine ⟨by rw [stoiRest, body, left], ?_⟩
  simp only [stoi, body, taken, nonempty, if_false, spelled]

private theorem signed_cases (text : Bytes) :
    ∃ sign, text = sign ++ (signed text).2 ∧
      ((sign = [] ∨ sign = [0x2b]) ∧ (signed text).1 = false ∨ sign = [0x2d] ∧ (signed text).1 = true) := by
  cases text with
  | nil => exact ⟨[], rfl, .inl ⟨.inl rfl, rfl⟩⟩
  | cons byte rest =>
    by_cases minus : byte = 0x2d
    · exact ⟨[0x2d], by simp [signed, minus], .inr ⟨rfl, by simp [signed, minus]⟩⟩
    · by_cases plus : byte = 0x2b
      · exact ⟨[0x2b], by simp [signed, plus], .inl ⟨.inr rfl, by simp [signed, plus]⟩⟩
      · exact ⟨[], by simp [signed, minus, plus], .inl ⟨.inl rfl, by simp [signed, minus, plus]⟩⟩

private theorem stoi_ok (read : stoi text = .ok value) :
    ∃ whole, text = whole ++ stoiRest text ∧ (∀ byte ∈ (stoiRest text).head?, isDigit byte = false) ∧
      IntegerForm whole value ∧ value ≤ intMax := by
  simp only [stoi] at read
  split at read
  · cases read
  · rename_i nonempty
    split at read
    · rename_i range
      have same := Except.ok.inj read
      obtain ⟨sign, split, signs⟩ := signed_cases (text.dropWhile isCSpace)
      have whole : text = (text.takeWhile isCSpace ++ sign ++
          (signed (text.dropWhile isCSpace)).2.takeWhile isDigit) ++ stoiRest text := by
        rw [stoiRest, List.append_assoc, List.takeWhile_append_dropWhile, List.append_assoc, ← split,
          List.takeWhile_append_dropWhile]
      have stop : ∀ byte ∈ (stoiRest text).head?, isDigit byte = false := by
        intro byte first
        have stopped := List.head?_dropWhile_not isDigit (signed (text.dropWhile isCSpace)).2
        rw [← stoiRest, Option.mem_def.mp first] at stopped
        simpa using stopped
      refine ⟨_, whole, stop, ⟨_, sign, _, rfl, fun _ => List.mem_takeWhile_imp, nonempty,
        fun _ => List.mem_takeWhile_imp, ?_⟩, same ▸ range.2⟩
      rcases signs with ⟨signs, negative⟩ | ⟨signs, negative⟩
      · exact .inl ⟨signs, by simpa [signedValue, negative] using same.symm⟩
      · exact .inr ⟨signs, by simpa [signedValue, negative] using same.symm⟩
    · cases read

private theorem chaosRecoveryTimeout_cases (env : Bytes) :
    (∃ seconds, stoi env = .ok seconds ∧ Timeout seconds ∧ chaosRecoveryTimeout (some env) = seconds) ∨
      ((∀ seconds, stoi env = .ok seconds → ¬ Timeout seconds) ∧
        chaosRecoveryTimeout (some env) = kDefaultRecoveryTimeout) := by
  by_cases empty : env = []
  · subst empty
    exact .inr ⟨by simp [stoi, signed], rfl⟩
  · cases read : stoi env with
    | error error => exact .inr ⟨by simp, by simp [chaosRecoveryTimeout, empty, read]⟩
    | ok parsed =>
      by_cases positive : parsed ≤ 0
      · refine .inr ⟨fun seconds found => ?_, by simp [chaosRecoveryTimeout, empty, read, positive]⟩
        cases found
        intro timeout
        exact absurd timeout.1 (by omega)
      · obtain ⟨_, _, _, _, bounded⟩ := stoi_ok read
        exact .inl ⟨parsed, rfl, ⟨by omega, bounded⟩, by simp [chaosRecoveryTimeout, empty, read, positive]⟩

private theorem Timeout.in_range (timeout : Timeout seconds) : -intMax - 1 ≤ seconds ∧ seconds ≤ intMax := by
  refine ⟨?_, timeout.2⟩
  have low := timeout.1
  unfold intMax
  omega

private theorem stoi_whole (form : IntegerForm value seconds) (timeout : Timeout seconds) :
    stoiRest value = [] ∧ stoi value = .ok seconds := by
  obtain ⟨rest, read⟩ := stoi_form form [] (by simp)
  rw [List.append_nil] at rest read
  exact ⟨rest, by rw [read, if_pos timeout.in_range]⟩

/-- The variable is read whole, with the default for everything that is no timeout, exactly
when its value does not start with another timeout that more text follows. -/
theorem timeout_is_read_whole_iff (env : Option Bytes) :
    ReadsWhole env (chaosRecoveryTimeout env) ↔ ∀ value, env = some value → ¬ CutShort value := by
  cases env with
  | none =>
    have unset : ReadsWhole none (chaosRecoveryTimeout none) :=
      ⟨by decide, by simp, fun _ => rfl⟩
    simp [unset]
  | some value =>
    simp only [Option.some.injEq, forall_eq']
    constructor
    · rintro sound ⟨whole, rest, seconds, split, nonempty, stop, form, timeout, other⟩
      obtain ⟨left, read⟩ := stoi_form form rest stop
      rw [← split, if_pos timeout.in_range] at read
      rw [← split] at left
      rcases chaosRecoveryTimeout_cases value with ⟨taken, read', _, result⟩ | ⟨none, _⟩
      · cases read.symm.trans read'
        apply other
        rw [← result]
        apply sound.otherwise
        rintro ⟨_, spelled, same, whole', timeout'⟩
        cases same
        exact nonempty (left.symm.trans (stoi_whole whole' timeout').1)
      · exact absurd timeout (none seconds read)
    · intro uncut
      rcases chaosRecoveryTimeout_cases value with ⟨seconds, read, timeout, result⟩ | ⟨none, result⟩
      · rw [result]
        refine ⟨lt_of_lt_of_le (by decide) timeout.1, ?_, ?_⟩
        · intro _ spelled given form timeout'
          cases given
          exact Except.ok.inj (read.symm.trans (stoi_whole form timeout').2)
        · intro unspelled
          by_contra other
          obtain ⟨whole, split, stop, form, _⟩ := stoi_ok read
          refine uncut ⟨whole, stoiRest value, seconds, split, ?_, stop, form, timeout, other⟩
          intro ended
          rw [ended, List.append_nil] at split
          exact unspelled ⟨value, seconds, rfl, split ▸ form, timeout⟩
      · rw [result]
        refine ⟨by decide, ?_, fun _ => rfl⟩
        intro _ spelled given form timeout
        cases given
        exact absurd timeout (none spelled (stoi_whole form timeout).2)

/-- The exponent is dropped: a thousand seconds are read as one. -/
theorem exponent_is_dropped :
    ¬ ReadsWhole (some (ascii "1e3")) (chaosRecoveryTimeout (some (ascii "1e3"))) := by
  intro sound
  have result : chaosRecoveryTimeout (some (ascii "1e3")) = 1 := by decide +kernel
  have left : stoiRest (ascii "1e3") = ascii "e3" := by decide +kernel
  have fallback := sound.otherwise (by
    rintro ⟨_, seconds, same, form, timeout⟩
    cases same
    rw [(stoi_whole form timeout).1] at left
    exact absurd left (by decide))
  rw [result] at fallback
  exact absurd fallback (by decide)

end Charybdis.Client
