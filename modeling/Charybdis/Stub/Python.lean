import Charybdis.Foundation.Dictionary
import Charybdis.Foundation.Json

/-! The part of Python the stub's handlers run on: strings of code points, JSON values,
`int`, truth values, and the path of a parsed URL. -/

namespace Charybdis.Stub

open Foundation

/-- A string as its code points; lone surrogates are allowed. -/
abbrev PyStr := List Nat

def py (text : String) : PyStr := text.toList.map Char.toNat

/-- `text in texts`. -/
instance decidableIn (text : PyStr) (texts : List PyStr) : Decidable (text ∈ texts) := inferInstance

/-- An `int`, or a `float` as its IEEE 754 bits. -/
inductive PyNumber where
  | int (value : Int)
  | float (bits : UInt64)
  deriving DecidableEq

abbrev PyJson := Json PyStr PyNumber

/-- The exceptions the handlers can end in. -/
inductive PyError where
  | valueError
  | typeError
  | overflowError
  | attributeError
  | recursionError
  deriving DecidableEq

/-! ### `int` -/

/-- Code points of the zeros of the decimal digit ranges; each range has ten digits. -/
def decimalZeros : List Nat :=
  [0x30, 0x660, 0x6f0, 0x7c0, 0x966, 0x9e6, 0xa66, 0xae6, 0xb66, 0xbe6, 0xc66, 0xce6, 0xd66, 0xde6,
   0xe50, 0xed0, 0xf20, 0x1040, 0x1090, 0x17e0, 0x1810, 0x1946, 0x19d0, 0x1a80, 0x1a90, 0x1b50, 0x1bb0,
   0x1c40, 0x1c50, 0xa620, 0xa8d0, 0xa900, 0xa9d0, 0xa9f0, 0xaa50, 0xabf0, 0xff10, 0x104a0, 0x10d30,
   0x11066, 0x110f0, 0x11136, 0x111d0, 0x112f0, 0x11450, 0x114d0, 0x11650, 0x116c0, 0x11730, 0x118e0,
   0x11950, 0x11c50, 0x11d50, 0x11da0, 0x11f50, 0x16a60, 0x16ac0, 0x16b50, 0x1d7ce, 0x1d7d8, 0x1d7e2,
   0x1d7ec, 0x1d7f6, 0x1e140, 0x1e2f0, 0x1e4f0, 0x1e950, 0x1fbf0]

def digitValue (point : Nat) : Option Nat :=
  (decimalZeros.find? fun first => first ≤ point ∧ point < first + 10).map (point - ·)

/-- The white space `int` strips; the ASCII separators 0x1c to 0x1f are not among it. -/
def isIntSpace (point : Nat) : Bool :=
  point ∈ [0x09, 0x0a, 0x0b, 0x0c, 0x0d, 0x20, 0x85, 0xa0, 0x1680, 0x2028, 0x2029, 0x202f, 0x205f, 0x3000] ||
    (0x2000 ≤ point && point ≤ 0x200a)

/-- Digits with single underscores between them, most significant first. -/
def digitsOf : PyStr → Option (List Nat)
  | [] => none
  | [last] => (digitValue last).map fun digit => [digit]
  | point :: next :: rest => do
    let digit ← digitValue point
    if next = 0x5f then return digit :: (← digitsOf rest)
    else return digit :: (← digitsOf (next :: rest))

def signOf : PyStr → Int × PyStr
  | 0x2b :: rest => (1, rest)
  | 0x2d :: rest => (-1, rest)
  | text => (1, text)

/-- `sys.get_int_max_str_digits()`. -/
def maxStrDigits : Nat := 4300

def intOfString (text : PyStr) : Except PyError Int :=
  let (sign, body) := signOf ((text.dropWhile isIntSpace).rdropWhile isIntSpace)
  match digitsOf body with
  | none => .error .valueError
  | some digits =>
    if digits.length > maxStrDigits then .error .valueError
    else .ok (sign * (digits.foldl (fun value digit => value * 10 + digit) 0 : Nat))

/-- Truncation towards zero; infinities overflow and NaNs are refused. -/
def intOfFloat (bits : UInt64) : Except PyError Int :=
  let exponent := (bits.toNat / 2 ^ 52) % 2 ^ 11
  let fraction := bits.toNat % 2 ^ 52
  let sign : Int := if bits.toNat / 2 ^ 63 = 1 then -1 else 1
  if exponent = 2 ^ 11 - 1 then .error (if fraction = 0 then .overflowError else .valueError)
  else
    let significand := if exponent = 0 then fraction else fraction + 2 ^ 52
    let scale := max exponent 1
    .ok (sign * (significand * 2 ^ scale / 2 ^ 1075 : Nat))

/-- `int(value)` on a value that came from a JSON text. -/
def pyInt : PyJson → Except PyError Int
  | .number (.int value) => .ok value
  | .number (.float bits) => intOfFloat bits
  | .boolean value => .ok value.toNat
  | .string text => intOfString text
  | .null | .array _ | .object _ => .error .typeError

example : pyInt (.string (py " +1_500\n")) = .ok 1500 := by decide

/-- `if value:`. -/
def truthy : PyJson → Bool
  | .null => false
  | .boolean value => value
  | .number (.int value) => value ≠ 0
  | .number (.float bits) => bits.toNat % 2 ^ 63 ≠ 0
  | .string text => !text.isEmpty
  | .array items => !items.isEmpty
  | .object members => !members.isEmpty

/-! ### What is taken as given -/

inductive LoadsFailure where
  /-- `JSONDecodeError` or `UnicodeDecodeError`, which `_parse_body` handles. -/
  | decode
  | raised (error : PyError)

/-- The parts of the runtime that are not the repository's and stay uninterpreted:
the JSON codec, the identifier source, `urlsplit`'s checks of a network location and the
longest sleep the platform's clock can express. -/
structure Runtime where
  loads : Bytes → Except LoadsFailure PyJson
  /-- The text `json.dumps` writes of a value it can write. -/
  jsonText : PyJson → Bytes
  /-- How deep `json.dumps` can recurse; the stub's own responses nest three levels. -/
  maxNesting : Nat
  nesting : 3 ≤ maxNesting
  uuid4 : Nat → PyStr
  validNetloc : PyStr → Bool
  sleepLimitMs : Nat

/-- `json.dumps`: it recurses once for each level of nesting, and the interpreter limits that. -/
def Runtime.dumps (runtime : Runtime) (value : PyJson) : Except PyError Bytes :=
  if value.depth ≤ runtime.maxNesting then .ok (runtime.jsonText value) else .error .recursionError

/-! ### `urlparse(url).path` -/

def isAsciiAlpha (point : Nat) : Bool :=
  (0x41 ≤ point && point ≤ 0x5a) || (0x61 ≤ point && point ≤ 0x7a)

def isSchemeChar (point : Nat) : Bool :=
  isAsciiAlpha point || (0x30 ≤ point && point ≤ 0x39) || point ∈ [0x2b, 0x2d, 0x2e]

def asciiLower (point : Nat) : Nat :=
  if 0x41 ≤ point ∧ point ≤ 0x5a then point + 0x20 else point

/-- Code points before the first `mark`, all of them where there is none. -/
def before (mark : Nat) (text : PyStr) : PyStr := text.takeWhile (· ≠ mark)

/-- The scheme in lower case, and what follows its colon. -/
def splitScheme (url : PyStr) : PyStr × PyStr :=
  let name := before 0x3a url
  if name.length < url.length ∧ name.head?.any isAsciiAlpha = true ∧ name.all isSchemeChar = true then
    (name.map asciiLower, url.drop (name.length + 1))
  else ([], url)

def isNetlocEnd (point : Nat) : Bool := point ∈ [0x2f, 0x3f, 0x23]

def splitNetloc (url : PyStr) : PyStr × PyStr :=
  if (py "//").isPrefixOf url then
    ((url.drop 2).takeWhile fun point => !isNetlocEnd point,
     (url.drop 2).dropWhile fun point => !isNetlocEnd point)
  else ([], url)

def usesParams : List PyStr :=
  ["", "ftp", "hdl", "prospero", "http", "imap", "https", "shttp", "rtsp", "rtsps", "rtspu", "sip", "sips",
   "mms", "sftp", "tel"].map py

/-- Parameters are cut off the last segment only. -/
def dropParams (path : PyStr) : PyStr :=
  path.rdropWhile (· ≠ 0x2f) ++ before 0x3b (path.rtakeWhile (· ≠ 0x2f))

def urlparsePath (runtime : Runtime) (url : PyStr) : Except PyError PyStr :=
  let cleaned := (url.dropWhile (· ≤ 0x20)).filter fun point => point ∉ [0x09, 0x0a, 0x0d]
  let (scheme, rest) := splitScheme cleaned
  let (netloc, rest) := splitNetloc rest
  if netloc ≠ [] ∧ runtime.validNetloc netloc = false then .error .valueError
  else
    let path := before 0x3f (before 0x23 rest)
    .ok (if scheme ∈ usesParams then dropParams path else path)

/-- `urlparse(self.path).path.rstrip("/")`. -/
def route (runtime : Runtime) (path : PyStr) : Except PyError PyStr :=
  (urlparsePath runtime path).map fun path => path.rdropWhile (· = 0x2f)

/-- A path under `/v1/` names no network location, so it always parses. -/
theorem route_of_rooted (runtime : Runtime) (rest : PyStr) :
    ∃ path, route runtime (py "/v1/" ++ rest) = .ok path := by
  let cleaned := rest.filter fun point => point ∉ [0x09, 0x0a, 0x0d]
  have kept : (((py "/v1/" ++ rest).dropWhile (· ≤ 0x20)).filter fun point => point ∉ [0x09, 0x0a, 0x0d]) =
      py "/v1/" ++ cleaned := by
    have head : (py "/v1/" ++ rest).dropWhile (· ≤ 0x20) = py "/v1/" ++ rest := rfl
    rw [head, List.filter_append]
    rfl
  have noScheme : splitScheme (py "/v1/" ++ cleaned) = ([], py "/v1/" ++ cleaned) := by
    have head : (before 0x3a (py "/v1/" ++ cleaned)).head?.any isAsciiAlpha = false := rfl
    simp only [splitScheme, head, Bool.false_eq_true, false_and, and_false, ↓reduceIte]
  have noNetloc : splitNetloc (py "/v1/" ++ cleaned) = ([], py "/v1/" ++ cleaned) := rfl
  simp only [route, urlparsePath, kept, noScheme, noNetloc, ne_eq, not_true_eq_false, false_and,
    ↓reduceIte, Except.map]
  exact ⟨_, rfl⟩

end Charybdis.Stub
