import Charybdis.Foundation.JsonText

namespace Charybdis.Foundation.JsonText

abbrev Value := Json Bytes Lexeme

mutual

/-- Compact text of a value. -/
def write : Value → Bytes
  | .null => ascii "null"
  | .boolean true => ascii "true"
  | .boolean false => ascii "false"
  | .number lexeme => lexeme.text
  | .string text => quote text
  | .array items => 0x5b :: (writeItems items ++ [0x5d])
  | .object members => 0x7b :: (writeMembers members ++ [0x7d])

def writeItems : List Value → Bytes
  | [] => []
  | [item] => write item
  | item :: next :: rest => write item ++ 0x2c :: writeItems (next :: rest)

def writeMembers : List (Bytes × Value) → Bytes
  | [] => []
  | [(name, value)] => quote name ++ 0x3a :: write value
  | (name, value) :: next :: rest =>
    quote name ++ 0x3a :: (write value ++ 0x2c :: writeMembers (next :: rest))

end

def isSpace (byte : UInt8) : Bool := byte = 0x20 || byte = 0x09 || byte = 0x0a || byte = 0x0d

def skip (input : Bytes) : Bytes := input.dropWhile isSpace

def readNumber (input : Bytes) : Option (Value × Bytes) :=
  if number : isNumber (input.takeWhile numberByte) = true then
    some (.number ⟨input.takeWhile numberByte, number, fun _ member => List.mem_takeWhile_imp member⟩,
      input.dropWhile numberByte)
  else none

def readKeyword (word : Bytes) (value : Value) (input : Bytes) : Option (Value × Bytes) :=
  if word.isPrefixOf input then some (value, input.drop word.length) else none

def readScalar (byte : UInt8) (rest : Bytes) : Option (Value × Bytes) :=
  if byte = 0x22 then (readString rest).map fun found => (.string found.1, found.2)
  else if byte = 0x6e then readKeyword (ascii "null") .null (byte :: rest)
  else if byte = 0x74 then readKeyword (ascii "true") (.boolean true) (byte :: rest)
  else if byte = 0x66 then readKeyword (ascii "false") (.boolean false) (byte :: rest)
  else readNumber (byte :: rest)

/-- A member name and the colon after it. -/
def readName : Bytes → Option (Bytes × Bytes)
  | [] => none
  | byte :: rest =>
    if byte = 0x22 then do
      let (name, rest) ← readString rest
      match skip rest with
      | [] => none
      | byte :: rest => if byte = 0x3a then some (name, rest) else none
    else none

mutual

/-- One value, after any white space; each level of nesting and each element
costs one unit of fuel. -/
def readValue : Nat → Bytes → Option (Value × Bytes)
  | 0, _ => none
  | fuel + 1, input =>
    match skip input with
    | [] => none
    | byte :: rest =>
      if byte = 0x5b then
        if (skip rest).head? = some 0x5d then some (.array [], (skip rest).tail)
        else (readItems fuel rest).map fun found => (.array found.1, found.2)
      else if byte = 0x7b then
        if (skip rest).head? = some 0x7d then some (.object [], (skip rest).tail)
        else (readMembers fuel rest).map fun found => (Json.objectOf found.1, found.2)
      else readScalar byte rest

/-- Array elements up to and including the closing bracket. -/
def readItems : Nat → Bytes → Option (List Value × Bytes)
  | 0, _ => none
  | fuel + 1, input => do
    let (item, rest) ← readValue fuel input
    match skip rest with
    | [] => none
    | byte :: rest =>
      if byte = 0x2c then (readItems fuel rest).map fun found => (item :: found.1, found.2)
      else if byte = 0x5d then some ([item], rest)
      else none

/-- Object members up to and including the closing brace. -/
def readMembers : Nat → Bytes → Option (List (Bytes × Value) × Bytes)
  | 0, _ => none
  | fuel + 1, input => do
    let (name, rest) ← readName (skip input)
    let (value, rest) ← readValue fuel rest
    match skip rest with
    | [] => none
    | byte :: rest =>
      if byte = 0x2c then (readMembers fuel rest).map fun found => ((name, value) :: found.1, found.2)
      else if byte = 0x7d then some ([(name, value)], rest)
      else none

end

/-- A whole text: one value and nothing but white space around it. -/
def read (text : Bytes) : Option Value := do
  let (value, rest) ← readValue (text.length + 1) text
  if skip rest = [] then some value else none

/-! ### The reader inverts the writer -/

/-- What the writer can say so that the reader gets the value back: whole
characters, and the members of every object in the order an ordered map has. -/
def Readable (value : Value) : Prop :=
  value.All Utf8.Valid (fun _ => True) fun names => Json.Sorted names ∧ ∀ name ∈ names, Utf8.Valid name

/-- The rest of the input cannot be taken for more of a number. -/
def Stops (rest : Bytes) : Prop := ∀ byte ∈ rest.head?, numberByte byte = false

theorem skip_cons (byte : UInt8) (solid : isSpace byte = false) (rest : Bytes) :
    skip (byte :: rest) = byte :: rest := by
  simp [skip, solid]

private theorem lexeme_head (lexeme : Lexeme) :
    ∃ byte rest, lexeme.text = byte :: rest ∧ numberByte byte = true := by
  cases shape : lexeme.text with
  | nil => simpa [shape, isNumber] using lexeme.number
  | cons byte rest => exact ⟨byte, rest, rfl, lexeme.bytes byte (by simp [shape])⟩

private theorem write_head (value : Value) :
    ∃ byte rest, write value = byte :: rest ∧ isSpace byte = false ∧ byte ≠ 0x5d := by
  cases value with
  | null => exact ⟨_, _, rfl, by decide, by decide⟩
  | boolean value => cases value <;> exact ⟨_, _, rfl, by decide, by decide⟩
  | number lexeme =>
    obtain ⟨byte, rest, shape, numeric⟩ := lexeme_head lexeme
    refine ⟨byte, rest, by simpa [write] using shape, ?_, ?_⟩
    · cases space : isSpace byte with
      | false => rfl
      | true =>
        simp only [isSpace, Bool.or_eq_true, decide_eq_true_eq] at space
        rcases space with ((same | same) | same) | same <;> subst same <;> revert numeric <;> decide
    · rintro rfl
      revert numeric
      decide
  | string text => exact ⟨0x22, _, rfl, by decide, by decide⟩
  | array items => exact ⟨0x5b, _, by rw [write], by decide, by decide⟩
  | object members => exact ⟨0x7b, _, by rw [write], by decide, by decide⟩

private theorem readNumber_write (lexeme : Lexeme) (stops : Stops rest) :
    readNumber (lexeme.text ++ rest) = some (.number lexeme, rest) := by
  have tail : rest.takeWhile numberByte = [] ∧ rest.dropWhile numberByte = rest := by
    cases rest with
    | nil => simp
    | cons byte rest => simp [stops byte (by simp)]
  have taken : (lexeme.text ++ rest).takeWhile numberByte = lexeme.text := by
    rw [List.takeWhile_append_of_pos lexeme.bytes, tail.1, List.append_nil]
  have dropped : (lexeme.text ++ rest).dropWhile numberByte = rest := by
    rw [List.dropWhile_append_of_pos lexeme.bytes, tail.2]
  simp only [readNumber, taken, dropped]
  exact dif_pos lexeme.number

private theorem readScalar_number (lexeme : Lexeme) (stops : Stops rest) (fuel : Nat) :
    readValue (fuel + 1) (lexeme.text ++ rest) = some (.number lexeme, rest) := by
  obtain ⟨byte, tail, shape, numeric⟩ := lexeme_head lexeme
  have read := readNumber_write lexeme stops
  rw [shape, List.cons_append] at read ⊢
  have others : isSpace byte = false ∧ byte ≠ 0x5b ∧ byte ≠ 0x7b ∧ byte ≠ 0x22 ∧ byte ≠ 0x6e ∧
      byte ≠ 0x74 ∧ byte ≠ 0x66 := by
    refine ⟨?_, ?_, ?_, ?_, ?_, ?_, ?_⟩
    · obtain ⟨other, rest', shape', solid, _⟩ := write_head (.number lexeme)
      rw [write, shape] at shape'
      exact (List.cons.inj shape').1 ▸ solid
    all_goals rintro rfl; revert numeric; decide
  obtain ⟨solid, others⟩ := others
  simp only [readValue, skip_cons _ solid, others, readScalar, ↓reduceIte, read]

private theorem readName_quote (valid : Utf8.Valid name) (rest : Bytes) :
    readName (quote name ++ 0x3a :: rest) = some (name, rest) := by
  have text := readString_quote valid (0x3a :: rest)
  simp [readName, quote, text, skip_cons 0x3a (by decide)]

private theorem objectOf_sorted {members : List (Bytes × Value)}
    (sorted : Json.Sorted (members.map Prod.fst)) : Json.objectOf members = .object members := by
  have build : ∀ done : List (Bytes × Value), Json.Sorted ((done ++ members).map Prod.fst) →
      members.foldl (fun members pair => Json.insertMember pair.1 pair.2 members) done =
        done ++ members := by
    clear sorted
    induction members with
    | nil => simp
    | cons member rest ih =>
      intro done ordered
      have last : ∀ other ∈ done.map Prod.fst, other < member.1 := by
        intro other present
        simp only [Json.Sorted, List.map_append, List.pairwise_append] at ordered
        exact ordered.2.2 other present member.1 (by simp)
      rw [List.foldl_cons, Json.insertMember_last member.2 last, ih]
      · simp
      · simpa using ordered
  simp [Json.objectOf, build [] (by simpa using sorted)]

/-! Reading after writing, for values, nonempty element lists and nonempty member
lists; the fuel bounds the text still to read, and the induction is on it. -/

private def ReadsValues (fuel : Nat) : Prop := ∀ value rest, Readable value →
  (write value).length ≤ fuel → Stops rest → readValue fuel (write value ++ rest) = some (value, rest)

private def ReadsItems (fuel : Nat) : Prop := ∀ items rest, items ≠ [] →
  (∀ item ∈ items, Readable item) → (writeItems items).length < fuel →
    readItems fuel (writeItems items ++ 0x5d :: rest) = some (items, rest)

private def ReadsMembers (fuel : Nat) : Prop := ∀ members rest, members ≠ [] →
  (∀ member ∈ members, Utf8.Valid member.1 ∧ Readable member.2) →
    (writeMembers members).length < fuel →
      readMembers fuel (writeMembers members ++ 0x7d :: rest) = some (members, rest)

private theorem stops_comma (rest : Bytes) : Stops (0x2c :: rest) := by
  intro byte found
  cases found
  decide

private theorem stops_bracket (rest : Bytes) : Stops (0x5d :: rest) := by
  intro byte found
  cases found
  decide

private theorem stops_brace (rest : Bytes) : Stops (0x7d :: rest) := by
  intro byte found
  cases found
  decide

private theorem readsItems_succ (values : ReadsValues fuel) (items : ReadsItems fuel) :
    ReadsItems (fuel + 1) := by
  intro list rest nonempty readable size
  cases list with
  | nil => exact absurd rfl nonempty
  | cons item list =>
    have own : Readable item := readable item (by simp)
    cases list with
    | nil =>
      have first := values item (0x5d :: rest) own (by simp only [writeItems] at size; omega)
        (stops_bracket rest)
      simp [writeItems, readItems, first, skip_cons 0x5d (by decide)]
    | cons next list =>
      simp only [writeItems, List.length_append, List.length_cons] at size
      have first := values item (0x2c :: (writeItems (next :: list) ++ 0x5d :: rest)) own (by omega)
        (stops_comma _)
      have others := items (next :: list) rest (by simp)
        (fun other member => readable other (List.mem_cons_of_mem _ member)) (by omega)
      simp [writeItems, readItems, first, others, skip_cons 0x2c (by decide)]

private theorem readsMembers_succ (values : ReadsValues fuel) (members : ReadsMembers fuel) :
    ReadsMembers (fuel + 1) := by
  intro list rest nonempty readable size
  cases list with
  | nil => exact absurd rfl nonempty
  | cons member list =>
    obtain ⟨name, value⟩ := member
    obtain ⟨valid, own⟩ := readable (name, value) (by simp)
    have opening : ∀ tail, skip (quote name ++ tail) = quote name ++ tail :=
      fun tail => skip_cons _ (by decide) _
    cases list with
    | nil =>
      simp only [writeMembers, List.length_append, List.length_cons] at size
      have label := readName_quote valid (write value ++ 0x7d :: rest)
      have body := values value (0x7d :: rest) own (by omega) (stops_brace rest)
      simp [writeMembers, readMembers, opening, label, body, skip_cons 0x7d (by decide)]
    | cons next list =>
      simp only [writeMembers, List.length_append, List.length_cons] at size
      have label := readName_quote valid
        (write value ++ 0x2c :: (writeMembers (next :: list) ++ 0x7d :: rest))
      have body := values value (0x2c :: (writeMembers (next :: list) ++ 0x7d :: rest)) own (by omega)
        (stops_comma _)
      have others := members (next :: list) rest (by simp)
        (fun other member => readable other (List.mem_cons_of_mem _ member)) (by omega)
      simp [writeMembers, readMembers, opening, label, body, others,
        skip_cons 0x2c (by decide)]

private theorem readsValues_array (items : ReadsItems fuel) (readable : ∀ item ∈ list, Readable item)
    (size : (write (.array list)).length ≤ fuel + 1) (rest : Bytes) :
    readValue (fuel + 1) (write (.array list) ++ rest) = some (.array list, rest) := by
  cases list with
  | nil => simp [write, writeItems, readValue, skip_cons 0x5b (by decide),
      skip_cons 0x5d (by decide)]
  | cons item list =>
    simp only [write, List.length_cons, List.length_append] at size
    have body := items (item :: list) rest (by simp) readable (by omega)
    have unclosed : (skip (writeItems (item :: list) ++ 0x5d :: rest)).head? ≠ some 0x5d := by
      obtain ⟨byte, tail, shape, solid, plain⟩ := write_head item
      have start : ∃ tail, writeItems (item :: list) = byte :: tail := by
        cases list <;> simp [writeItems, shape]
      obtain ⟨tail, start⟩ := start
      simp [start, skip_cons _ solid, plain]
    simp [write, readValue, skip_cons 0x5b (by decide), unclosed, body]

private theorem readsValues_object (members : ReadsMembers fuel)
    (readable : Readable (.object list)) (size : (write (.object list)).length ≤ fuel + 1)
    (rest : Bytes) :
    readValue (fuel + 1) (write (.object list) ++ rest) = some (.object list, rest) := by
  obtain ⟨⟨sorted, valid⟩, each⟩ := Json.all_object.mp readable
  have solid : isSpace 0x7b = false := by decide
  cases list with
  | nil => simp [write, writeMembers, readValue, skip_cons _ solid, skip_cons 0x7d (by decide)]
  | cons member list =>
    simp only [write, List.length_cons, List.length_append] at size
    have body := members (member :: list) rest (by simp)
      (fun other present => ⟨valid other.1 (List.mem_map.mpr ⟨other, present, rfl⟩), each other present⟩)
      (by omega)
    have start : ∃ tail, writeMembers (member :: list) = 0x22 :: tail := by
      cases list <;> simp [writeMembers, quote]
    obtain ⟨tail, start⟩ := start
    have unclosed : (skip (writeMembers (member :: list) ++ 0x7d :: rest)).head? ≠ some 0x7d := by
      simp [start, skip_cons 0x22 (by decide)]
    simp [write, readValue, skip_cons _ solid, unclosed, body, objectOf_sorted sorted]

private theorem readsValues_succ (items : ReadsItems fuel) (members : ReadsMembers fuel) :
    ReadsValues (fuel + 1) := by
  intro value rest readable size stops
  cases value with
  | null => rfl
  | boolean value => cases value <;> rfl
  | number lexeme => simpa [write] using readScalar_number lexeme stops fuel
  | string text =>
    have body := readString_quote (Json.all_string.mp readable) rest
    simp [write, quote, readValue, readScalar, skip_cons 0x22 (by decide), body]
  | array list =>
    refine readsValues_array items ?_ size rest
    cases readable with
    | array each => exact each
  | object list => exact readsValues_object members readable size rest

private theorem reads_write (fuel : Nat) :
    ReadsValues fuel ∧ ReadsItems fuel ∧ ReadsMembers fuel := by
  induction fuel with
  | zero =>
    refine ⟨fun value rest _ size _ => ?_, fun _ _ _ _ size => ?_, fun _ _ _ _ size => ?_⟩
    · obtain ⟨byte, tail, shape, _⟩ := write_head value
      simp [shape] at size
    · exact absurd size (Nat.not_lt_zero _)
    · exact absurd size (Nat.not_lt_zero _)
  | succ fuel ih =>
    obtain ⟨values, items, members⟩ := ih
    exact ⟨readsValues_succ items members, readsItems_succ values items,
      readsMembers_succ values members⟩

/-- The round trip: the reader gives back what was written. -/
theorem read_write (readable : Readable value) : read (write value) = some value := by
  have whole := (reads_write ((write value).length + 1)).1 value [] readable (by omega)
    (by simp [Stops])
  rw [List.append_nil] at whole
  simp [read, whole, skip]

/-! ### Written text is printable, and what is read is readable -/

private theorem numberByte_printable (numeric : numberByte byte = true) : 0x20 ≤ byte := by
  simp only [numberByte, isDigit, Bool.or_eq_true, Bool.and_eq_true, decide_eq_true_eq] at numeric
  rcases numeric with ((((digit | same) | same) | same) | same) | same
  · exact UInt8.le_trans (by decide) digit.1
  all_goals subst same; decide

mutual

theorem write_printable : (value : Value) → ∀ byte ∈ write value, 0x20 ≤ byte
  | .null => printable_of_all (by decide)
  | .boolean true => printable_of_all (by decide)
  | .boolean false => printable_of_all (by decide)
  | .number lexeme => by
    intro byte member
    rw [write] at member
    exact numberByte_printable (lexeme.bytes byte member)
  | .string text => by
    rw [write]
    exact quote_printable text
  | .array items => by
    have inner := writeItems_printable items
    simp only [write, List.forall_mem_cons, List.forall_mem_append]
    exact ⟨by decide, inner, by decide, nofun⟩
  | .object members => by
    have inner := writeMembers_printable members
    simp only [write, List.forall_mem_cons, List.forall_mem_append]
    exact ⟨by decide, inner, by decide, nofun⟩

private theorem writeItems_printable : (items : List Value) → ∀ byte ∈ writeItems items, 0x20 ≤ byte
  | [] => by simp [writeItems]
  | [item] => by
    rw [writeItems]
    exact write_printable item
  | item :: next :: rest => by
    have first := write_printable item
    have others := writeItems_printable (next :: rest)
    simp only [writeItems, List.forall_mem_cons, List.forall_mem_append]
    exact ⟨first, by decide, others⟩

private theorem writeMembers_printable :
    (members : List (Bytes × Value)) → ∀ byte ∈ writeMembers members, 0x20 ≤ byte
  | [] => by simp [writeMembers]
  | [(name, value)] => by
    have label := quote_printable name
    have body := write_printable value
    simp only [writeMembers, List.forall_mem_cons, List.forall_mem_append]
    exact ⟨label, by decide, body⟩
  | (name, value) :: next :: rest => by
    have label := quote_printable name
    have body := write_printable value
    have others := writeMembers_printable (next :: rest)
    simp only [writeMembers, List.forall_mem_cons, List.forall_mem_append]
    exact ⟨label, by decide, body, by decide, others⟩

end

private theorem readString_valid (found : readString input = some (text, rest)) : Utf8.Valid text := by
  simp only [readString, Option.bind_eq_bind, Option.bind_eq_some_iff] at found
  obtain ⟨chars, _, found⟩ := found
  split at found
  · rename_i valid
    cases found
    exact valid
  · cases found

private theorem readScalar_readable (found : readScalar byte input = some (value, rest)) :
    Readable value := by
  have keyword : ∀ {word : Bytes} {constant : Value} {input : Bytes}, Readable constant →
      readKeyword word constant input = some (value, rest) → Readable value := by
    intro word constant input readable found
    unfold readKeyword at found
    split at found
    · cases found
      exact readable
    · cases found
  unfold readScalar at found
  split at found
  · obtain ⟨string, read, same⟩ := Option.map_eq_some_iff.mp found
    cases same
    exact .string (readString_valid read)
  split at found
  · exact keyword .null found
  split at found
  · exact keyword .boolean found
  split at found
  · exact keyword .boolean found
  · unfold readNumber at found
    split at found
    · cases found
      exact .number trivial
    · cases found

private theorem readName_valid (found : readName input = some (name, rest)) : Utf8.Valid name := by
  cases input with
  | nil => cases found
  | cons byte input =>
    simp only [readName] at found
    split at found
    · simp only [Option.bind_eq_bind, Option.bind_eq_some_iff] at found
      obtain ⟨text, read, found⟩ := found
      split at found
      · cases found
      · split at found
        · cases found
          exact readString_valid read
        · cases found
    · cases found

private theorem readable_objectOf {members : List (Bytes × Value)}
    (each : ∀ member ∈ members, Utf8.Valid member.1 ∧ Readable member.2) :
    Readable (Json.objectOf members) := by
  refine Json.all_objectOf ?_ fun member present => (each member present).2
  intro names sorted included
  refine ⟨sorted, fun name member => ?_⟩
  obtain ⟨item, present, named⟩ := List.mem_map.mp (included name member)
  exact named ▸ (each item present).1

/-- What the three readers accept with the given fuel. -/
private structure ReadsReadable (fuel : Nat) : Prop where
  values : ∀ input value rest, readValue fuel input = some (value, rest) → Readable value
  items : ∀ input items rest, readItems fuel input = some (items, rest) → ∀ item ∈ items, Readable item
  members : ∀ input members rest, readMembers fuel input = some (members, rest) →
    ∀ member ∈ members, Utf8.Valid member.1 ∧ Readable member.2

private theorem ReadsReadable.readValue (reads : ReadsReadable fuel)
    (found : JsonText.readValue (fuel + 1) input = some (value, rest)) : Readable value := by
  simp only [JsonText.readValue] at found
  split at found
  · cases found
  split at found
  · split at found
    · cases found
      exact .array (by simp)
    · obtain ⟨list, read, same⟩ := Option.map_eq_some_iff.mp found
      cases same
      exact .array (reads.items _ _ _ read)
  split at found
  · split at found
    · cases found
      exact .object ⟨by simp [Json.Sorted], by simp⟩ (by simp)
    · obtain ⟨list, read, same⟩ := Option.map_eq_some_iff.mp found
      cases same
      exact readable_objectOf (reads.members _ _ _ read)
  · exact readScalar_readable found

private theorem ReadsReadable.readItems (reads : ReadsReadable fuel)
    (found : JsonText.readItems (fuel + 1) input = some (list, rest)) : ∀ item ∈ list, Readable item := by
  simp only [JsonText.readItems, Option.bind_eq_bind, Option.bind_eq_some_iff] at found
  obtain ⟨⟨item, after⟩, first, found⟩ := found
  have own := reads.values _ _ _ first
  split at found
  · cases found
  split at found
  · obtain ⟨others, read, same⟩ := Option.map_eq_some_iff.mp found
    cases same
    exact List.forall_mem_cons.mpr ⟨own, reads.items _ _ _ read⟩
  split at found
  · cases found
    simpa using own
  · cases found

private theorem ReadsReadable.readMembers (reads : ReadsReadable fuel)
    (found : JsonText.readMembers (fuel + 1) input = some (list, rest)) :
    ∀ member ∈ list, Utf8.Valid member.1 ∧ Readable member.2 := by
  simp only [JsonText.readMembers, Option.bind_eq_bind, Option.bind_eq_some_iff] at found
  obtain ⟨⟨name, after⟩, label, ⟨value, last⟩, body, found⟩ := found
  have own : Utf8.Valid name ∧ Readable value := ⟨readName_valid label, reads.values _ _ _ body⟩
  split at found
  · cases found
  split at found
  · obtain ⟨others, read, same⟩ := Option.map_eq_some_iff.mp found
    cases same
    exact List.forall_mem_cons.mpr ⟨own, reads.members _ _ _ read⟩
  split at found
  · cases found
    simpa using own
  · cases found

private theorem reads_readable (fuel : Nat) : ReadsReadable fuel := by
  induction fuel with
  | zero =>
    refine ⟨fun _ _ _ found => ?_, fun _ _ _ found => ?_, fun _ _ _ found => ?_⟩
    · simp [readValue] at found
    · simp [readItems] at found
    · simp [readMembers] at found
  | succ fuel ih =>
    exact ⟨fun _ _ _ => ih.readValue, fun _ _ _ => ih.readItems, fun _ _ _ => ih.readMembers⟩

/-- What the reader accepts is well formed. -/
theorem read_readable (found : read text = some value) : Readable value := by
  simp only [read, Option.bind_eq_bind, Option.bind_eq_some_iff] at found
  obtain ⟨⟨value', rest⟩, body, found⟩ := found
  split at found
  · cases found
    exact (reads_readable _).values _ _ _ body
  · cases found

end Charybdis.Foundation.JsonText
