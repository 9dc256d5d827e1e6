import Charybdis.Foundation.JsonCodec

/-! The client reads and writes JSON through nlohmann::json, which is not part of the
repository. Its text interface is a parameter that carries its documented laws. -/

namespace Charybdis.Client

open Foundation

/-- The nlohmann exceptions the client can meet, by class and documented number. -/
inductive JsonError where
  | parseError
  | outOfRange
  | typeError (number : Nat)
  deriving DecidableEq

/-- `dump` in its strict mode refuses exactly the values with a string that is not UTF-8. -/
abbrev WellEncoded (value : Json Bytes ν) : Prop := value.Strings Utf8.Valid

/-- Values that survive serialisation: no number that JSON cannot spell, and members
in the order of the ordered map that holds them. -/
abbrev Faithful (finite : ν → Prop) (value : Json Bytes ν) : Prop :=
  value.All (fun _ => True) finite Json.Sorted

structure Nlohmann (ν : Type) where
  dump : Json Bytes ν → Except JsonError Bytes
  parse : Bytes → Except JsonError (Json Bytes ν)
  integer : Int → ν
  finite : ν → Prop
  finite_integer : ∀ value, finite (integer value)
  dump_ok : ∀ value, (∃ text, dump value = .ok text) ↔ WellEncoded value
  dump_error : ∀ value error, dump value = .error error → error = .typeError 316
  dump_printable : ∀ value text, dump value = .ok text → ∀ byte ∈ text, 0x20 ≤ byte
  parse_error : ∀ text error, parse text = .error error → error = .parseError ∨ error = .outOfRange
  parse_faithful : ∀ text value, parse text = .ok value → Faithful finite value
  parse_dump : ∀ value text, Faithful finite value → dump value = .ok text → parse text = .ok value

namespace Nlohmann

theorem dump_of_wellEncoded (json : Nlohmann ν) (encoded : WellEncoded value) :
    ∃ text, json.dump value = .ok text :=
  (json.dump_ok value).mpr encoded

/-- The laws hold together: the reader and writer of the text format keep them all. -/
def text : Nlohmann JsonText.Lexeme where
  dump := fun value =>
    if value.allStrings fun string => Utf8.Valid string then .ok (JsonText.write value)
    else .error (.typeError 316)
  parse := fun text =>
    match JsonText.read text with
    | some value => .ok value
    | none => .error .parseError
  integer := JsonText.Lexeme.ofInt
  finite := fun _ => True
  finite_integer := fun _ => trivial
  dump_ok := by
    intro value
    have check := Json.allStrings_iff (fun string => decide (Utf8.Valid string)) value
    simp only [decide_eq_true_eq] at check
    by_cases valid : (value.allStrings fun string => Utf8.Valid string) = true
    · simp [valid, check.mp valid]
    · simp [valid, mt check.mpr valid]
  dump_error := by
    intro value error failed
    split at failed <;> cases failed
    rfl
  dump_printable := by
    intro value text dumped
    split at dumped <;> cases dumped
    exact JsonText.write_printable value
  parse_error := by
    intro text error failed
    split at failed <;> cases failed
    exact .inl rfl
  parse_faithful := by
    intro text value parsed
    split at parsed <;> cases parsed
    rename_i found
    exact (JsonText.read_readable found).mono (fun _ _ => trivial) (fun _ _ => trivial)
      fun _ named => named.1
  parse_dump := by
    intro value text faithful dumped
    split at dumped <;> cases dumped
    rename_i valid
    have encoded := (Json.allStrings_iff (fun string => decide (Utf8.Valid string)) value).mp valid
    simp only [decide_eq_true_eq] at encoded
    have readable : JsonText.Readable value :=
      (faithful.and encoded).mono (fun _ both => both.2) (fun _ _ => trivial) fun _ both => both
    simp [JsonText.read_write readable]

/-- The decimal exponent a number literal is written with, zero if it has none or a negative one. -/
def writtenExponent (lexeme : JsonText.Lexeme) : Nat :=
  match lexeme.text.dropWhile fun byte => byte ≠ 0x65 && byte ≠ 0x45 with
  | [] => 0
  | _ :: exponent =>
    if exponent.head? = some 0x2d then 0
    else (exponent.filter isDigit).foldl (fun value digit => value * 10 + (digit.toNat - 0x30)) 0

private theorem writtenExponent_ofInt (value : Int) : writtenExponent (JsonText.Lexeme.ofInt value) = 0 := by
  have plain : (decimalInt value).dropWhile (fun byte => byte ≠ 0x65 && byte ≠ 0x45) = [] := by
    apply List.dropWhile_eq_nil_iff.mpr
    intro byte member
    have digits {value : Nat} (inside : byte ∈ decimal value) : (byte ≠ 0x65 && byte ≠ 0x45) = true := by
      have digit := isDigit_of_mem_decimal value inside
      by_contra marked
      have cases : byte = 0x65 ∨ byte = 0x45 := by simpa [or_iff_not_imp_left] using marked
      rcases cases with same | same <;> subst same <;> simp [isDigit] at digit
    cases value with
    | ofNat value => exact digits member
    | negSucc value =>
      rcases List.mem_cons.mp member with same | inside
      · subst same
        decide
      · exact digits inside
  simp only [writtenExponent, JsonText.Lexeme.ofInt, plain]

/-- The same text format for a reader that throws `out_of_range` on literals such as
`1e999`: here, on all with an exponent beyond the range of `double`. -/
def rangeChecked : Nlohmann JsonText.Lexeme where
  dump := text.dump
  parse := fun input =>
    match JsonText.read input with
    | some value =>
      if value.allNumbers fun lexeme => writtenExponent lexeme < 309 then .ok value
      else .error .outOfRange
    | none => .error .parseError
  integer := JsonText.Lexeme.ofInt
  finite := fun lexeme => writtenExponent lexeme < 309
  finite_integer := fun value => by simp [writtenExponent_ofInt]
  dump_ok := text.dump_ok
  dump_error := text.dump_error
  dump_printable := text.dump_printable
  parse_error := by
    intro input error failed
    split at failed
    · split at failed <;> cases failed
      exact .inr rfl
    · cases failed
      exact .inl rfl
  parse_faithful := by
    intro input value parsed
    split at parsed
    · split at parsed <;> cases parsed
      rename_i found small
      have numbers := (Json.allNumbers_iff _ value).mp small
      simp only [decide_eq_true_eq] at numbers
      exact ((JsonText.read_readable found).and numbers).mono (fun _ _ => trivial)
        (fun _ both => both.2) fun _ both => both.1.1
    · cases parsed
  parse_dump := by
    intro value input faithful dumped
    have whole := text.parse_dump value input
      (faithful.mono (fun _ _ => trivial) (fun _ _ => trivial) fun _ sorted => sorted) dumped
    have small : (value.allNumbers fun lexeme => writtenExponent lexeme < 309) = true := by
      apply (Json.allNumbers_iff _ value).mpr
      simpa using faithful.mono (fun _ _ => trivial) (fun _ small => small) fun _ _ => trivial
    cases found : JsonText.read input with
    | none => simp [text, found] at whole
    | some other =>
      simp only [text, found, Except.ok.injEq] at whole
      simp [whole, small]

end Nlohmann

/-- `value(key, "")`: the string member, the empty string where there is none, and an
exception on anything but an object or on a member of another type. -/
def valueString (key : Bytes) : Json Bytes ν → Except JsonError Bytes
  | .object members =>
    match members.lookup key with
    | none => .ok []
    | some (.string text) => .ok text
    | some _ => .error (.typeError 302)
  | _ => .error (.typeError 306)

/-- `contains(key)`, which is false of anything but an object. -/
def containsKey (key : Bytes) : Json Bytes ν → Bool
  | .object members => (members.lookup key).isSome
  | _ => false

/-- `value(key, fallback)` of a whole JSON value. -/
def valueJson (key : Bytes) (fallback : Json Bytes ν) : Json Bytes ν → Except JsonError (Json Bytes ν)
  | .object members => .ok ((members.lookup key).getD fallback)
  | _ => .error (.typeError 306)

/-- An object whose member of this name, if it has one, is a string. -/
def TextOrAbsent (key : Bytes) (value : Json Bytes ν) : Prop :=
  ∃ members, value = .object members ∧
    ∀ member, members.lookup key = some member → ∃ text, member = .string text

theorem valueString_ok_iff : (∃ text, valueString key value = .ok text) ↔ TextOrAbsent key value := by
  constructor
  · intro ⟨text, read⟩
    cases value with
    | object members =>
      refine ⟨members, rfl, ?_⟩
      intro member found
      cases member with
      | string text => exact ⟨text, rfl⟩
      | null | boolean _ | number _ | array _ | object _ => simp [valueString, found] at read
    | null | boolean _ | number _ | string _ | array _ => cases read
  · intro ⟨members, shape, texts⟩
    subst shape
    cases found : members.lookup key with
    | none => exact ⟨[], by simp [valueString, found]⟩
    | some member =>
      obtain ⟨text, rfl⟩ := texts member found
      exact ⟨text, by simp [valueString, found]⟩

end Charybdis.Client
