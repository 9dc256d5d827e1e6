import Charybdis.Foundation.Json

/-! A text format for JSON values over byte strings: a compact writer, a reader for
the whole grammar, and the proof that the reader inverts the writer. Numbers are
kept as the lexemes the grammar allows, so no precision is chosen here. -/

namespace Charybdis.Foundation

/-- Decimal digits of a natural number. -/
def decimal (value : Nat) : Bytes :=
  (Nat.toDigits 10 value).map fun digit => digit.toNat.toUInt8

def decimalInt : Int → Bytes
  | .ofNat value => decimal value
  | .negSucc value => 0x2d :: decimal (value + 1)

def isDigit (byte : UInt8) : Bool := 0x30 ≤ byte && byte ≤ 0x39

theorem isDigit_of_mem_decimal (value : Nat) (member : byte ∈ decimal value) : isDigit byte = true := by
  obtain ⟨digit, present, same⟩ := List.mem_map.mp member
  have range := Nat.isDigit_of_mem_toDigits (by decide) (by decide) present
  simp only [Char.isDigit, ge_iff_le, Bool.and_eq_true, decide_eq_true_eq, UInt32.le_iff_toNat_le]
    at range
  have low : 48 ≤ digit.toNat := range.1
  have high : digit.toNat ≤ 57 := range.2
  subst same
  simp only [isDigit, Bool.and_eq_true, decide_eq_true_eq, UInt8.le_iff_toNat_le,
    UInt8.toNat_ofNat, Nat.toUInt8_eq, UInt8.toNat_ofNat']
  omega

theorem decimal_of_lt (small : value < 10) : decimal value = [value.digitChar.toNat.toUInt8] := by
  simp [decimal, Nat.toDigits_of_lt_base small]

theorem decimal_of_le (large : 10 ≤ value) :
    decimal value = decimal (value / 10) ++ decimal (value % 10) := by
  have small : value % 10 < 10 := Nat.mod_lt _ (by decide)
  simp [decimal, Nat.toDigits_of_base_le (by decide : 1 < 10) large,
    Nat.toDigits_of_lt_base small]

/-- No superfluous leading zero: a positive number starts with a nonzero digit. -/
theorem decimal_head (positive : 0 < value) :
    ∃ head rest, decimal value = head :: rest ∧ isDigit head = true ∧ head ≠ 0x30 := by
  induction value using Nat.strong_induction_on with
  | _ value ih =>
    by_cases small : value < 10
    · refine ⟨_, [], decimal_of_lt small, ?_, ?_⟩ <;> interval_cases value <;> decide
    · obtain ⟨head, rest, digits, digit, nonzero⟩ := ih (value / 10) (by omega) (by omega)
      exact ⟨head, rest ++ decimal (value % 10),
        by rw [decimal_of_le (by omega), digits, List.cons_append], digit, nonzero⟩

namespace JsonText

/-! ### Number lexemes -/

def integerPart : Bytes → Option Bytes
  | [] => none
  | head :: rest =>
    if head = 0x30 then some rest
    else if isDigit head then some (rest.dropWhile isDigit)
    else none

/-- After a fraction point or an exponent mark at least one digit must follow. -/
def someDigits : Bytes → Option Bytes
  | [] => none
  | head :: rest => if isDigit head then some (rest.dropWhile isDigit) else none

def fractionPart : Bytes → Option Bytes
  | [] => some []
  | head :: rest => if head = 0x2e then someDigits rest else some (head :: rest)

def exponentPart : Bytes → Option Bytes
  | [] => some []
  | head :: rest =>
    if head = 0x65 ∨ head = 0x45 then
      match rest with
      | sign :: digits =>
        if sign = 0x2b ∨ sign = 0x2d then someDigits digits else someDigits (sign :: digits)
      | [] => none
    else some (head :: rest)

def unsigned (text : Bytes) : Bool :=
  ((integerPart text).bind fractionPart).bind exponentPart = some []

/-- The number grammar: sign, integer part, fraction and exponent. -/
def isNumber : Bytes → Bool
  | [] => false
  | head :: rest => if head = 0x2d then unsigned rest else unsigned (head :: rest)

def numberByte (byte : UInt8) : Bool :=
  isDigit byte || byte = 0x2b || byte = 0x2d || byte = 0x2e || byte = 0x45 || byte = 0x65

/-- A number as its text; only texts of the grammar can be built. -/
structure Lexeme where
  text : Bytes
  number : isNumber text = true
  bytes : ∀ byte ∈ text, numberByte byte = true

private theorem unsigned_decimal (value : Nat) : unsigned (decimal value) = true := by
  by_cases zero : value = 0
  · subst zero
    decide
  · obtain ⟨head, rest, digits, digit, nonzero⟩ := decimal_head (Nat.pos_of_ne_zero zero)
    have all : rest.dropWhile isDigit = [] := by
      apply List.dropWhile_eq_nil_iff.mpr
      intro byte member
      exact isDigit_of_mem_decimal value (by simp [digits, member])
    simp [unsigned, digits, integerPart, nonzero, digit, all, fractionPart, exponentPart]

def Lexeme.ofInt (value : Int) : Lexeme where
  text := decimalInt value
  number := by
    cases value with
    | ofNat value =>
      have whole := unsigned_decimal value
      simp only [decimalInt]
      cases digits : decimal value with
      | nil => simp [digits, unsigned, integerPart] at whole
      | cons head rest =>
        have digit : isDigit head = true := isDigit_of_mem_decimal value (by simp [digits])
        have plain : head ≠ 0x2d := by intro same; subst same; simp [isDigit] at digit
        simp [isNumber, plain, ← digits, whole]
    | negSucc value => simp [decimalInt, isNumber, unsigned_decimal]
  bytes := by
    intro byte member
    cases value with
    | ofNat value => simp [numberByte, isDigit_of_mem_decimal _ member]
    | negSucc value =>
      rcases List.mem_cons.mp member with same | member
      · subst same; decide
      · simp [numberByte, isDigit_of_mem_decimal _ member]

/-! ### Strings -/

def hexDigit (value : Nat) : UInt8 :=
  if value < 10 then (0x30 + value).toUInt8 else (0x57 + value).toUInt8

/-- One byte inside quotes: quotes, backslashes and control bytes are escaped. -/
def escape (byte : UInt8) : Bytes :=
  if byte = 0x22 then [0x5c, 0x22]
  else if byte = 0x5c then [0x5c, 0x5c]
  else if byte = 0x08 then [0x5c, 0x62]
  else if byte = 0x09 then [0x5c, 0x74]
  else if byte = 0x0a then [0x5c, 0x6e]
  else if byte = 0x0c then [0x5c, 0x66]
  else if byte = 0x0d then [0x5c, 0x72]
  else if byte < 0x20 then [0x5c, 0x75, 0x30, 0x30, hexDigit (byte.toNat / 16), hexDigit (byte.toNat % 16)]
  else [byte]

def quote (text : Bytes) : Bytes := 0x22 :: (text.flatMap escape ++ [0x22])

def hexValue (byte : UInt8) : Option Nat :=
  if isDigit byte then some (byte.toNat - 0x30)
  else if 0x41 ≤ byte ∧ byte ≤ 0x46 then some (byte.toNat - 0x37)
  else if 0x61 ≤ byte ∧ byte ≤ 0x66 then some (byte.toNat - 0x57)
  else none

def readHex : Bytes → Option (Nat × Bytes)
  | first :: second :: third :: fourth :: rest => do
    let first ← hexValue first
    let second ← hexValue second
    let third ← hexValue third
    let fourth ← hexValue fourth
    some (first * 4096 + second * 256 + third * 16 + fourth, rest)
  | _ => none

/-- The UTF-8 form of a code point. -/
def encode (point : Nat) : Bytes :=
  if point < 0x80 then [point.toUInt8]
  else if point < 0x800 then [(0xC0 + point / 64).toUInt8, (0x80 + point % 64).toUInt8]
  else if point < 0x10000 then
    [(0xE0 + point / 4096).toUInt8, (0x80 + point / 64 % 64).toUInt8, (0x80 + point % 64).toUInt8]
  else
    [(0xF0 + point / 262144).toUInt8, (0x80 + point / 4096 % 64).toUInt8,
      (0x80 + point / 64 % 64).toUInt8, (0x80 + point % 64).toUInt8]

/-- After a `u` escape mark: a unit of the basic plane, or a surrogate pair. -/
def readUnicode (input : Bytes) : Option (Bytes × Bytes) := do
  let (high, rest) ← readHex input
  if high < 0xD800 ∨ 0xDFFF < high then some (encode high, rest)
  else if 0xDC00 ≤ high then none
  else
    match rest with
    | 0x5c :: 0x75 :: rest =>
      let (low, rest) ← readHex rest
      if 0xDC00 ≤ low ∧ low ≤ 0xDFFF then
        some (encode (0x10000 + (high - 0xD800) * 1024 + (low - 0xDC00)), rest)
      else none
    | _ => none

/-- The bytes an escape stands for; the backslash has been read. -/
def readEscape : Bytes → Option (Bytes × Bytes)
  | [] => none
  | mark :: rest =>
    if mark = 0x22 ∨ mark = 0x5c ∨ mark = 0x2f then some ([mark], rest)
    else if mark = 0x62 then some ([0x08], rest)
    else if mark = 0x66 then some ([0x0c], rest)
    else if mark = 0x6e then some ([0x0a], rest)
    else if mark = 0x72 then some ([0x0d], rest)
    else if mark = 0x74 then some ([0x09], rest)
    else if mark = 0x75 then readUnicode rest
    else none

def readChars : Nat → Bytes → Option (Bytes × Bytes)
  | 0, _ => none
  | _ + 1, [] => none
  | fuel + 1, byte :: rest =>
    if byte = 0x22 then some ([], rest)
    else if byte = 0x5c then do
      let (decoded, rest) ← readEscape rest
      let (text, rest) ← readChars fuel rest
      some (decoded ++ text, rest)
    else if byte < 0x20 then none
    else do
      let (text, rest) ← readChars fuel rest
      some (byte :: text, rest)

/-- A string literal after its opening quote; its contents must be whole characters. -/
def readString (input : Bytes) : Option (Bytes × Bytes) := do
  let (text, rest) ← readChars (input.length + 1) input
  if Utf8.Valid text then some (text, rest) else none

private theorem hexValue_hexDigit (value : Nat) (small : value < 16) : hexValue (hexDigit value) = some value := by
  interval_cases value <;> decide

private theorem readEscape_unit (byte : UInt8) (small : byte < 0x20) (rest : Bytes) :
    readEscape (0x75 :: 0x30 :: 0x30 :: hexDigit (byte.toNat / 16) :: hexDigit (byte.toNat % 16) :: rest) =
      some ([byte], rest) := by
  have bound : byte.toNat < 32 := by simpa [UInt8.lt_iff_toNat_lt] using small
  have high := hexValue_hexDigit (byte.toNat / 16) (by omega)
  have low := hexValue_hexDigit (byte.toNat % 16) (by omega)
  have zero : hexValue 0x30 = some 0 := by decide
  have whole : byte.toNat / 16 * 16 + byte.toNat % 16 = byte.toNat := by omega
  have basic : byte.toNat < 55296 := by omega
  have single : byte.toNat < 128 := by omega
  simp [readEscape, readUnicode, readHex, high, low, zero, whole, basic, encode, single]

private theorem readChars_decoded (input bytes : Bytes) (decoded : readEscape input = some (bytes, rest)) :
    readChars (fuel + 1) (0x5c :: input) =
      (readChars fuel rest).map fun found => (bytes ++ found.1, found.2) := by
  cases found : readChars fuel rest <;> simp [readChars, decoded, found]

private theorem readChars_plain (noQuote : byte ≠ 0x22) (noEscape : byte ≠ 0x5c)
    (printable : ¬ byte < 0x20) :
    readChars (fuel + 1) (byte :: rest) =
      (readChars fuel rest).map fun found => (byte :: found.1, found.2) := by
  cases found : readChars fuel rest <;> simp [readChars, noQuote, noEscape, printable, found]

private theorem readChars_escape (byte : UInt8) (fuel : Nat) (rest : Bytes) :
    readChars (fuel + 1) (escape byte ++ rest) =
      (readChars fuel rest).map fun found => (byte :: found.1, found.2) := by
  unfold escape
  split_ifs with quoted slashed back tab line feed carriage control
  · subst quoted; exact readChars_decoded (0x22 :: rest) [0x22] (by rfl)
  · subst slashed; exact readChars_decoded (0x5c :: rest) [0x5c] (by rfl)
  · subst back; exact readChars_decoded (0x62 :: rest) [0x08] (by rfl)
  · subst tab; exact readChars_decoded (0x74 :: rest) [0x09] (by rfl)
  · subst line; exact readChars_decoded (0x6e :: rest) [0x0a] (by rfl)
  · subst feed; exact readChars_decoded (0x66 :: rest) [0x0c] (by rfl)
  · subst carriage; exact readChars_decoded (0x72 :: rest) [0x0d] (by rfl)
  · exact readChars_decoded _ _ (readEscape_unit byte control rest)
  · exact readChars_plain quoted slashed control

private theorem readChars_escaped (text rest : Bytes) (enough : text.length < fuel) :
    readChars fuel (text.flatMap escape ++ 0x22 :: rest) = some (text, rest) := by
  induction text generalizing fuel with
  | nil =>
    cases fuel with
    | zero => simp at enough
    | succ fuel => simp [readChars]
  | cons byte text ih =>
    cases fuel with
    | zero => simp at enough
    | succ fuel =>
      have remaining : text.length < fuel := by simpa using enough
      rw [List.flatMap_cons, List.append_assoc, readChars_escape, ih remaining]
      rfl

private theorem escape_length (byte : UInt8) : 1 ≤ (escape byte).length := by
  unfold escape
  split_ifs <;> simp

private theorem length_le_escaped (text : Bytes) : text.length ≤ (text.flatMap escape).length := by
  induction text with
  | nil => simp
  | cons byte text ih =>
    have one := escape_length byte
    simp only [List.flatMap_cons, List.length_append, List.length_cons]
    omega

theorem readString_quote (valid : Utf8.Valid text) (rest : Bytes) :
    readString (text.flatMap escape ++ 0x22 :: rest) = some (text, rest) := by
  have size := length_le_escaped text
  unfold readString
  rw [readChars_escaped text rest (by simp only [List.length_append, List.length_cons]; omega)]
  exact if_pos valid

private theorem hexDigit_printable (value : Nat) (small : value < 16) : 0x20 ≤ hexDigit value := by
  interval_cases value <;> decide

theorem printable_of_all {text : Bytes} (checked : (text.all fun byte => decide (0x20 ≤ byte)) = true) :
    ∀ byte ∈ text, 0x20 ≤ byte := by
  simpa using checked

theorem escape_printable (byte : UInt8) : ∀ other ∈ escape byte, 0x20 ≤ other := by
  unfold escape
  split_ifs with quoted slashed back tab line feed carriage control
  · exact printable_of_all rfl
  · exact printable_of_all rfl
  · exact printable_of_all rfl
  · exact printable_of_all rfl
  · exact printable_of_all rfl
  · exact printable_of_all rfl
  · exact printable_of_all rfl
  · have bound : byte.toNat < 32 := by simpa [UInt8.lt_iff_toNat_lt] using control
    have high := hexDigit_printable (byte.toNat / 16) (by omega)
    have low := hexDigit_printable (byte.toNat % 16) (by omega)
    simp [high, low]
  · simpa using control

theorem quote_printable (text : Bytes) : ∀ byte ∈ quote text, 0x20 ≤ byte := by
  intro byte member
  rcases List.mem_cons.mp member with same | member
  · subst same; decide
  · rcases List.mem_append.mp member with inner | last
    · obtain ⟨original, _, escaped⟩ := List.mem_flatMap.mp inner
      exact escape_printable original byte escaped
    · simp only [List.mem_singleton] at last
      subst last; decide

end JsonText

end Charybdis.Foundation
