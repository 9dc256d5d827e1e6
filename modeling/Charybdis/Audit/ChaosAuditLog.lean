import Charybdis.Client.HttpTestClient

/-! The audit log: one JSON line per event, appended to a byte sink. -/

namespace Charybdis.Audit

open Foundation Client

/-- A `system_clock` reading, as the calendar fields of `gmtime_r` and the milliseconds
left over. -/
structure UtcReading where
  year : Int
  month : Nat
  day : Nat
  hour : Nat
  minute : Nat
  second : Nat
  millis : Int

def zeroPadded (width : Nat) (text : Bytes) : Bytes :=
  List.replicate (width - text.length) 0x30 ++ text

def dateText (now : UtcReading) : Bytes :=
  decimalInt now.year ++ ascii "-" ++ zeroPadded 2 (decimal now.month) ++ ascii "-" ++
    zeroPadded 2 (decimal now.day) ++ ascii "T" ++ zeroPadded 2 (decimal now.hour) ++ ascii ":" ++
    zeroPadded 2 (decimal now.minute) ++ ascii ":" ++ zeroPadded 2 (decimal now.second)

/-- `strftime` writes nothing when the date and its NUL do not fit 24 characters. -/
def iso8601UtcNow (now : UtcReading) : Bytes :=
  if (dateText now).length + 1 > 24 then ascii "1970-01-01T00:00:00.000Z"
  else dateText now ++ ascii "." ++ zeroPadded 3 (decimalInt now.millis) ++ ascii "Z"

/-- A variable that is set to the empty string counts as unset. -/
def nonempty (setting : Option Bytes) : Option Bytes :=
  setting.filter fun value => !value.isEmpty

def currentRequester (env : Environment) : Bytes :=
  ((nonempty (env .chaosAuditRequester)).or (nonempty (env .user))).getD (ascii "unknown")

section Emission

variable (json : Nlohmann ν) (env : Environment) (now : UtcReading) (sink : Bytes)

/-- The record is serialised before anything reaches the stream. -/
def writeLine (record : Json Bytes ν) : Except JsonError Bytes := do
  let text ← json.dump record
  return sink ++ text ++ [0x0a]

def injectMembers (action faultType faultId target : Bytes) (httpStatus : Int)
    (responseBody : Json Bytes ν) : List (Bytes × Json Bytes ν) :=
  [(ascii "schema_version", .number (json.integer 1)),
   (ascii "timestamp", .string (iso8601UtcNow now)),
   (ascii "action", .string action),
   (ascii "fault_type", .string faultType),
   (ascii "fault_id", .string faultId),
   (ascii "target", .string target),
   (ascii "status", .number (json.integer httpStatus)),
   (ascii "requester", .string (currentRequester env)),
   (ascii "details", responseBody)]

def emit (action faultType target : Bytes) (httpStatus : Int) (responseBody : Json Bytes ν) :
    Except JsonError Bytes := do
  let faultId ← valueString (ascii "id") responseBody
  writeLine json sink
    (.objectOf (injectMembers json env now action faultType faultId target httpStatus responseBody))

def emitRemove (faultType faultId target : Bytes) (httpStatus : Int) (responseBody : Json Bytes ν) :
    Except JsonError Bytes :=
  writeLine json sink (.objectOf
    (injectMembers json env now (ascii "remove") faultType faultId target httpStatus responseBody))

def filterRejectMembers (faultType attemptedSubject configuredPrefix : Bytes) :
    List (Bytes × Json Bytes ν) :=
  [(ascii "schema_version", .number (json.integer 2)),
   (ascii "timestamp", .string (iso8601UtcNow now)),
   (ascii "action", .string (ascii "filter_reject")),
   (ascii "fault_type", .string faultType),
   (ascii "attempted_subject", .string attemptedSubject),
   (ascii "configured_prefix", .string configuredPrefix),
   (ascii "requester", .string (currentRequester env))]

def emitFilterReject (faultType attemptedSubject configuredPrefix : Bytes) : Except JsonError Bytes :=
  writeLine json sink
    (.objectOf (filterRejectMembers json env now faultType attemptedSubject configuredPrefix))

def logInject (faultType target : Bytes) (httpStatus : Int) (responseBody : Json Bytes ν) :
    Except JsonError Bytes :=
  emit json env now sink (ascii "inject") faultType target httpStatus responseBody

def logRemove (faultType faultId target : Bytes) (httpStatus : Int) (responseBody : Json Bytes ν) :
    Except JsonError Bytes :=
  emitRemove json env now sink faultType faultId target httpStatus responseBody

def logFilterReject (faultType attemptedSubject configuredPrefix : Bytes) : Except JsonError Bytes :=
  emitFilterReject json env now sink faultType attemptedSubject configuredPrefix

end Emission

/-! ### Timestamps are plain text -/

private theorem ascii_decimal (member : byte ∈ decimal value) : byte < 0x80 := by
  have digit := isDigit_of_mem_decimal _ member
  simp only [isDigit, Bool.and_eq_true, decide_eq_true_eq, UInt8.le_iff_toNat_le] at digit
  rw [UInt8.lt_iff_toNat_lt]
  exact lt_of_le_of_lt digit.2 (by decide)

private theorem ascii_decimalInt (member : byte ∈ decimalInt value) : byte < 0x80 := by
  cases value with
  | ofNat value => exact ascii_decimal member
  | negSucc value =>
    rcases List.mem_cons.mp member with same | member
    · subst same
      decide
    · exact ascii_decimal member

private theorem ascii_zeroPadded (plain : ∀ byte ∈ text, byte < 0x80)
    (member : byte ∈ zeroPadded width text) : byte < 0x80 := by
  rcases List.mem_append.mp member with padding | member
  · rw [List.eq_of_mem_replicate padding]
    decide
  · exact plain byte member

theorem iso8601UtcNow_valid (now : UtcReading) : Utf8.Valid (iso8601UtcNow now) := by
  have number : ∀ value, Utf8.Valid (decimalInt value) := fun _ =>
    Utf8.valid_of_ascii fun _ => ascii_decimalInt
  have two : ∀ value, Utf8.Valid (zeroPadded 2 (decimal value)) := fun _ =>
    Utf8.valid_of_ascii fun _ => ascii_zeroPadded fun _ => ascii_decimal
  have three : Utf8.Valid (zeroPadded 3 (decimalInt now.millis)) :=
    Utf8.valid_of_ascii fun _ => ascii_zeroPadded fun _ => ascii_decimalInt
  have dash : Utf8.Valid (ascii "-") := by decide
  have colon : Utf8.Valid (ascii ":") := by decide
  have date : Utf8.Valid (dateText now) :=
    ((((((((((number now.year).append dash).append (two now.month)).append dash).append
      (two now.day)).append (by decide)).append (two now.hour)).append colon).append
      (two now.minute)).append colon).append (two now.second)
  unfold iso8601UtcNow
  split
  · decide
  · exact ((date.append (by decide)).append three).append (by decide)

/-! ### What a written line holds -/

/-- One line was appended, and it reads back as an object with the given members. -/
def Recorded (json : Nlohmann ν) (sink : Bytes) (emission : Except JsonError Bytes)
    (fields : List (Bytes × Json Bytes ν)) : Prop :=
  ∃ line members, emission = .ok (sink ++ line ++ [0x0a]) ∧ 0x0a ∉ line ∧
    json.parse line = .ok (.object members) ∧ ∀ field ∈ fields, members.lookup field.1 = some field.2

section Lines

variable {json : Nlohmann ν} {pairs fields : List (Bytes × Json Bytes ν)}

theorem writeLine_ok (written : writeLine json sink record = .ok after) :
    ∃ text, json.dump record = .ok text ∧ after = sink ++ text ++ [0x0a] := by
  cases dumped : json.dump record with
  | error error => simp [writeLine, dumped, bind, Except.bind] at written
  | ok text =>
    refine ⟨text, rfl, ?_⟩
    simpa [writeLine, dumped, bind, Except.bind, pure, Except.pure, eq_comm] using written

/-- Whatever was written is one line that reads back. -/
theorem recorded_of_writeLine (distinct : (pairs.map Prod.fst).Nodup)
    (faithful : ∀ pair ∈ pairs, Faithful json.finite pair.2) (given : fields ⊆ pairs)
    (written : writeLine json sink (.objectOf pairs) = .ok after) : Recorded json sink (.ok after) fields := by
  obtain ⟨text, dumped, same⟩ := writeLine_ok written
  have round : json.parse text = .ok (.objectOf pairs) :=
    json.parse_dump _ text (Json.all_objectOf (fun _ sorted _ => sorted) faithful) dumped
  refine ⟨text, _, congrArg _ same, ?_, round, ?_⟩
  · intro newline
    exact absurd (json.dump_printable _ text dumped _ newline) (by decide)
  · intro field member
    obtain ⟨members, same, found⟩ :=
      Json.mem_objectOf distinct field.1 field.2 (given member)
    cases same
    exact found

/-- A record goes out as one line exactly when all its strings are UTF-8. -/
theorem writeLine_recorded_iff (distinct : (pairs.map Prod.fst).Nodup)
    (named : ∀ name ∈ pairs.map Prod.fst, Utf8.Valid name)
    (faithful : ∀ pair ∈ pairs, Faithful json.finite pair.2) (given : fields ⊆ pairs) (sink : Bytes) :
    Recorded json sink (writeLine json sink (.objectOf pairs)) fields ↔
      ∀ pair ∈ pairs, WellEncoded pair.2 := by
  constructor
  · intro ⟨_, _, written, _⟩ pair member
    obtain ⟨text, dumped, _⟩ := writeLine_ok written
    have encoded : WellEncoded (Json.objectOf pairs) := (json.dump_ok _).mp ⟨text, dumped⟩
    obtain ⟨members, same, found⟩ := Json.mem_objectOf distinct pair.1 pair.2 member
    rw [same, WellEncoded, Json.Strings, Json.all_object] at encoded
    obtain ⟨_, _, split, _⟩ := List.lookup_eq_some_iff.mp found
    exact encoded.2 pair (by simp [split])
  · intro encoded
    have whole : WellEncoded (Json.objectOf pairs) :=
      Json.all_objectOf (fun _ _ inside name member => named name (inside name member)) encoded
    obtain ⟨text, dumped⟩ := json.dump_of_wellEncoded whole
    have written : writeLine json sink (.objectOf pairs) = .ok (sink ++ text ++ [0x0a]) := by
      simp [writeLine, dumped, bind, Except.bind, pure, Except.pure]
    rw [written]
    exact recorded_of_writeLine distinct faithful given written

end Lines

end Charybdis.Audit
