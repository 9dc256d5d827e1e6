import Charybdis.Foundation.JsonCodec

/-! Which texts spell the inside of a JSON string, independently of the reader, and the
members of a text that is one object, each as often as it is spelled. -/

namespace Charybdis.Foundation.JsonText

/-- A text between two quotes, and the bytes it stands for. -/
inductive StringBody : Bytes → Bytes → Prop where
  | done : StringBody [] []
  | plain : byte ≠ 0x22 → byte ≠ 0x5c → ¬ byte < 0x20 → StringBody rest text →
      StringBody (byte :: rest) (byte :: text)
  | escaped : readEscape mark = some (decoded, []) → StringBody rest text →
      StringBody (0x5c :: (mark ++ rest)) (decoded ++ text)

/-- A text that can stand between quotes in a document: what it stands for is UTF-8. -/
def Quotable (spelled : Bytes) : Prop := ∃ text, StringBody spelled text ∧ Utf8.Valid text

/-- The bytes that occur after the backslash of an escape. -/
def escapeByte (byte : UInt8) : Bool :=
  (hexValue byte).isSome || (ascii "\"\\/nrtu").contains byte

/-! ### Escapes end by themselves -/

/-- A reader has taken `mark`, made of escape bytes only, whatever follows it. -/
private def Takes (reader : Bytes → Option (γ × Bytes)) (mark : Bytes) (value : γ) : Prop :=
  (∀ byte ∈ mark, escapeByte byte = true) ∧ ∀ rest, reader (mark ++ rest) = some (value, rest)

private theorem escapeByte_of_hexValue (found : hexValue byte = some digit) : escapeByte byte = true := by
  simp [escapeByte, found]

private theorem takes_readHex (found : readHex input = some (value, rest)) :
    ∃ mark, input = mark ++ rest ∧ Takes readHex mark value := by
  unfold readHex at found
  split at found
  · rename_i first second third fourth tail
    simp only [Option.bind_eq_bind, Option.bind_eq_some_iff] at found
    obtain ⟨a, ha, b, hb, c, hc, d, hd, same⟩ := found
    cases same
    refine ⟨[first, second, third, fourth], rfl, ?_, ?_⟩
    · simp [escapeByte_of_hexValue ha, escapeByte_of_hexValue hb, escapeByte_of_hexValue hc,
        escapeByte_of_hexValue hd]
    · intro rest
      simp [readHex, ha, hb, hc, hd]
  · cases found

private theorem takes_readUnicode (found : readUnicode input = some (decoded, rest)) :
    ∃ mark, input = mark ++ rest ∧ Takes readUnicode mark decoded := by
  simp only [readUnicode, Option.bind_eq_bind, Option.bind_eq_some_iff] at found
  obtain ⟨⟨high, after⟩, first, found⟩ := found
  obtain ⟨mark, split, plain, reads⟩ := takes_readHex first
  split at found
  · rename_i basic
    cases found
    exact ⟨mark, split, plain, fun rest => by simp [readUnicode, reads, basic]⟩
  · rename_i surrogate
    split at found
    · cases found
    · rename_i leading
      split at found
      · rename_i others tail
        simp only [Option.bind_eq_some_iff] at found
        obtain ⟨⟨low, last⟩, second, found⟩ := found
        obtain ⟨mark', split', plain', reads'⟩ := takes_readHex second
        split at found
        · rename_i paired
          obtain ⟨same, same'⟩ := Prod.mk.inj (Option.some.inj found)
          subst same same'
          have whole : after = 0x5c :: 0x75 :: (mark' ++ last) := split' ▸ tail
          refine ⟨mark ++ 0x5c :: 0x75 :: mark', by simp [split, whole], ?_, ?_⟩
          · intro byte member
            simp only [List.mem_append, List.mem_cons] at member
            rcases member with inside | same | same | inside
            · exact plain byte inside
            · subst same; decide
            · subst same; decide
            · exact plain' byte inside
          · intro rest
            simp [readUnicode, reads, reads', surrogate, leading, paired]
        · cases found
      · cases found

private theorem takes_readEscape (found : readEscape input = some (decoded, rest)) :
    ∃ mark, input = mark ++ rest ∧ Takes readEscape mark decoded := by
  cases input with
  | nil => cases found
  | cons mark tail =>
    by_cases unicode : mark = 0x75
    · subst unicode
      have unit (other : Bytes) : readEscape (0x75 :: other) = readUnicode other := by simp [readEscape]
      rw [unit] at found
      obtain ⟨digits, split, plain, reads⟩ := takes_readUnicode found
      refine ⟨0x75 :: digits, by simp [split], ?_, ?_⟩
      · rw [List.forall_mem_cons]
        exact ⟨by decide, plain⟩
      · intro rest
        rw [List.cons_append, unit, reads]
    · have single : ∃ decoded, escapeByte mark = true ∧
          ∀ other, readEscape (mark :: other) = some (decoded, other) := by
        simp only [readEscape] at found ⊢
        split_ifs at found ⊢ with same
        · rcases same with same | same | same <;> subst same <;> exact ⟨_, by decide, fun _ => rfl⟩
        all_goals subst mark; exact ⟨_, by decide, fun _ => rfl⟩
      obtain ⟨decoded', plain, reads⟩ := single
      cases (reads tail).symm.trans found
      exact ⟨[mark], rfl, by simpa using plain, fun rest => reads rest⟩

/-! ### Bodies -/

theorem StringBody.append (first : StringBody spelled text) (second : StringBody others text') :
    StringBody (spelled ++ others) (text ++ text') := by
  induction first with
  | done => exact second
  | plain noQuote noEscape printable _ ih => exact .plain noQuote noEscape printable ih
  | escaped read _ ih =>
    simp only [List.cons_append, List.append_assoc]
    exact .escaped read ih

/-- Printable text without quotes and backslashes spells itself. -/
theorem stringBody_plain {text : Bytes}
    (checked : (text.all fun byte => decide (byte ≠ 0x22 ∧ byte ≠ 0x5c ∧ ¬ byte < 0x20)) = true) :
    StringBody text text := by
  induction text with
  | nil => exact .done
  | cons byte rest ih =>
    simp only [List.all_cons, Bool.and_eq_true, decide_eq_true_eq] at checked
    exact .plain checked.1.1 checked.1.2.1 checked.1.2.2 (ih checked.2)

/-- A body can be cut before a byte that occurs in no escape. -/
theorem StringBody.cut (body : StringBody (spelled ++ byte :: others) text)
    (outside : escapeByte byte = false) :
    ∃ first second, text = first ++ second ∧ StringBody spelled first ∧ StringBody (byte :: others) second := by
  generalize whole : spelled ++ byte :: others = input at body
  induction body generalizing spelled with
  | done => simp at whole
  | @plain head rest text noQuote noEscape printable inner ih =>
    cases spelled with
    | nil =>
      rw [List.nil_append] at whole
      exact ⟨[], _, rfl, .done, whole ▸ .plain noQuote noEscape printable inner⟩
    | cons start spelled =>
      obtain ⟨same, continued⟩ := List.cons.inj whole
      subst same
      obtain ⟨first, second, split, before, after⟩ := ih continued
      exact ⟨start :: first, second, by simp [split], .plain noQuote noEscape printable before, after⟩
  | @escaped mark decoded rest text read inner ih =>
    obtain ⟨mark', sameMark, marks, _⟩ := takes_readEscape read
    rw [List.append_nil] at sameMark
    subst sameMark
    -- the byte is no part of the escape, so the whole escape comes before it
    have inside : ∀ other ∈ 0x5c :: mark, escapeByte other = true :=
      List.forall_mem_cons.mpr ⟨by decide, marks⟩
    have shape : spelled ++ byte :: others = (0x5c :: mark) ++ rest := by simpa using whole
    rcases List.append_eq_append_iff.mp shape with ⟨middle, left, right⟩ | ⟨middle, left, right⟩
    · cases middle with
      | nil =>
        rw [List.append_nil] at left
        rw [List.nil_append] at right
        obtain ⟨first, second, split, before, after⟩ := @ih [] right
        have own := StringBody.escaped read before
        rw [List.append_nil] at own
        exact ⟨decoded ++ first, second, by simp [split], left ▸ own, after⟩
      | cons head middle =>
        have same : byte = head := (List.cons.inj right).1
        have marked := inside head (left ▸ by simp)
        rw [← same, outside] at marked
        cases marked
    · obtain ⟨first, second, split, before, after⟩ := ih right.symm
      exact ⟨decoded ++ first, second, by simp [split], left ▸ .escaped read before, after⟩

theorem StringBody.newline_not_mem (body : StringBody spelled text) : 0x0a ∉ spelled := by
  induction body with
  | done => simp
  | plain _ _ printable _ ih =>
    intro member
    rcases List.mem_cons.mp member with same | member
    · subst same
      exact printable (by decide)
    · exact ih member
  | escaped read _ ih =>
    obtain ⟨mark, same, marks, _⟩ := takes_readEscape read
    rw [List.append_nil] at same
    subst same
    intro member
    simp only [List.mem_cons, List.mem_append] at member
    rcases member with same | inside | member
    · exact absurd same (by decide)
    · exact absurd (marks _ inside) (by decide)
    · exact ih member

theorem quotable_plain {text : Bytes}
    (checked : (text.all fun byte => decide (byte ≠ 0x22 ∧ byte ≠ 0x5c ∧ ¬ byte < 0x20)) = true)
    (valid : Utf8.Valid text) : Quotable text :=
  ⟨text, stringBody_plain checked, valid⟩

/-- A plain byte that occurs in no escape separates what can be quoted by itself. -/
theorem quotable_append_cons (outside : escapeByte byte = false) (printable : ¬ byte < 0x20)
    (single : byte < 0x80) : Quotable (first ++ byte :: rest) ↔ Quotable first ∧ Quotable rest := by
  have noQuote : byte ≠ 0x22 := by intro same; subst same; exact absurd outside (by decide)
  have noEscape : byte ≠ 0x5c := by intro same; subst same; exact absurd outside (by decide)
  constructor
  · rintro ⟨text, body, valid⟩
    obtain ⟨before, after, split, firstBody, lastBody⟩ := body.cut outside
    subst split
    cases lastBody with
    | plain _ _ _ restBody =>
      obtain ⟨firstValid, restValid⟩ := (Utf8.valid_append_cons single).mp valid
      exact ⟨⟨before, firstBody, firstValid⟩, _, restBody, (Utf8.valid_cons single).mp restValid⟩
    | escaped _ _ => exact absurd rfl noEscape
  · rintro ⟨⟨before, firstBody, firstValid⟩, after, restBody, restValid⟩
    exact ⟨before ++ byte :: after, firstBody.append (.plain noQuote noEscape printable restBody),
      (Utf8.valid_append_cons single).mpr ⟨firstValid, (Utf8.valid_cons single).mpr restValid⟩⟩

/-! ### The reader reads exactly the bodies -/

private theorem readChars_body (found : readChars fuel input = some (text, rest)) :
    ∃ spelled, input = spelled ++ 0x22 :: rest ∧ StringBody spelled text := by
  induction fuel generalizing input text with
  | zero => cases found
  | succ fuel ih =>
    cases input with
    | nil => cases found
    | cons byte tail =>
      simp only [readChars] at found
      split at found
      · rename_i quoted
        cases found
        exact ⟨[], by simp [quoted], .done⟩
      · rename_i noQuote
        simp only [Option.bind_eq_bind] at found
        split at found
        · rename_i slashed
          simp only [Option.bind_eq_some_iff] at found
          obtain ⟨⟨decoded, after⟩, escape, ⟨text', rest'⟩, chars, same⟩ := found
          cases same
          obtain ⟨mark, split, _, reads⟩ := takes_readEscape escape
          obtain ⟨spelled, split', body⟩ := ih chars
          subst slashed
          have own := reads []
          rw [List.append_nil] at own
          have whole : after = spelled ++ 0x22 :: rest' := split'
          exact ⟨0x5c :: (mark ++ spelled), by simp [split, whole], .escaped own body⟩
        · rename_i noEscape
          split at found
          · cases found
          · rename_i printable
            simp only [Option.bind_eq_some_iff] at found
            obtain ⟨⟨text', rest'⟩, chars, same⟩ := found
            cases same
            obtain ⟨spelled, split, body⟩ := ih chars
            exact ⟨byte :: spelled, by simp [split], .plain noQuote noEscape printable body⟩

private theorem readChars_of_body (rest : Bytes) (body : StringBody spelled text) (enough : spelled.length < fuel) :
    readChars fuel (spelled ++ 0x22 :: rest) = some (text, rest) := by
  induction body generalizing fuel with
  | done =>
    obtain ⟨fuel, rfl⟩ := Nat.exists_eq_succ_of_ne_zero (Nat.ne_of_gt enough)
    simp [readChars]
  | @plain byte others text noQuote noEscape printable _ ih =>
    obtain ⟨fuel, rfl⟩ := Nat.exists_eq_succ_of_ne_zero (Nat.ne_of_gt (Nat.lt_of_le_of_lt (Nat.zero_le _) enough))
    have remaining : others.length < fuel := by simpa using enough
    simp [readChars, noQuote, noEscape, printable, ih remaining]
  | @escaped mark decoded others text read _ ih =>
    obtain ⟨fuel, rfl⟩ := Nat.exists_eq_succ_of_ne_zero (Nat.ne_of_gt (Nat.lt_of_le_of_lt (Nat.zero_le _) enough))
    have remaining : others.length < fuel := by
      simp only [List.length_cons, List.length_append] at enough
      omega
    obtain ⟨mark', sameMark, _, reads⟩ := takes_readEscape read
    rw [List.append_nil] at sameMark
    subst sameMark
    simp [readChars, reads, ih remaining]

/-- A string literal is a quotable text and its closing quote. -/
theorem readString_iff :
    readString input = some (text, rest) ↔
      ∃ spelled, input = spelled ++ 0x22 :: rest ∧ StringBody spelled text ∧ Utf8.Valid text := by
  constructor
  · intro found
    simp only [readString, Option.bind_eq_bind, Option.bind_eq_some_iff] at found
    obtain ⟨⟨text', rest'⟩, chars, found⟩ := found
    split at found
    · rename_i valid
      cases found
      obtain ⟨spelled, split, body⟩ := readChars_body chars
      exact ⟨spelled, split, body, valid⟩
    · cases found
  · rintro ⟨spelled, split, body, valid⟩
    subst split
    have enough : spelled.length < (spelled ++ 0x22 :: rest).length + 1 := by
      simp only [List.length_append, List.length_cons]
      omega
    have chars := readChars_of_body rest body enough
    simp only [readString, chars, Option.bind_eq_bind, Option.bind_some]
    exact if_pos valid

/-! ### Objects as they are spelled -/

/-- The members of a text that is one object: no name is dropped or merged. -/
def objectMembers (text : Bytes) : Option (List (Bytes × Value)) :=
  match skip text with
  | [] => none
  | byte :: rest =>
    if byte = 0x7b then
      if (skip rest).head? = some 0x7d then
        if skip (skip rest).tail = [] then some [] else none
      else do
        let (members, rest) ← readMembers text.length rest
        if skip rest = [] then some members else none
    else none

theorem read_of_objectMembers (found : objectMembers text = some members) :
    read text = some (Json.objectOf members) := by
  unfold objectMembers at found
  split at found
  · cases found
  · rename_i byte rest start
    split at found
    · rename_i brace
      subst brace
      split at found
      · rename_i empty
        split at found
        · rename_i ended
          cases found
          simp [read, readValue, start, empty, ended, Json.objectOf]
        · cases found
      · rename_i nonempty
        simp only [Option.bind_eq_bind, Option.bind_eq_some_iff] at found
        obtain ⟨⟨members', rest'⟩, inner, found⟩ := found
        split at found
        · rename_i ended
          cases found
          have ended : skip rest' = [] := ended
          simp [read, readValue, start, nonempty, inner, ended]
        · cases found
    · cases found

private theorem readMembers_ne_nil (found : readMembers fuel input = some (members, rest)) : members ≠ [] := by
  cases fuel with
  | zero => cases found
  | succ fuel =>
    simp only [readMembers, Option.bind_eq_bind, Option.bind_eq_some_iff] at found
    obtain ⟨_, _, _, _, found⟩ := found
    split at found
    · cases found
    · split at found
      · obtain ⟨_, _, same⟩ := Option.map_eq_some_iff.mp found
        cases same
        simp
      · split at found
        · cases found
          simp
        · cases found

private theorem last_quote {body rest : Bytes} (split : body ++ [0x22, 0x7d] = spelled ++ 0x22 :: rest)
    (noQuote : 0x22 ∉ rest) : spelled = body ∧ rest = [0x7d] := by
  rcases List.append_eq_append_iff.mp split with ⟨middle, left, right⟩ | ⟨middle, left, right⟩
  · cases middle with
    | nil =>
      rw [List.append_nil] at left
      exact ⟨left, (List.cons.inj right).2.symm⟩
    | cons head middle =>
      have short := congrArg List.length right
      simp only [List.length_cons, List.length_nil, List.length_append] at short
      have empty : middle = [] := List.eq_nil_of_length_eq_zero (by omega)
      subst empty
      cases right
  · cases middle with
    | nil =>
      rw [List.append_nil] at left
      exact ⟨left.symm, (List.cons.inj right).2⟩
    | cons head middle =>
      have inside : 0x22 ∈ rest := by simp [(List.cons.inj right).2]
      exact absurd inside noQuote

private theorem noQuote_of_closing (closing : skip rest = 0x7d :: last) (ended : skip last = []) :
    0x22 ∉ rest := by
  have blank : ∀ byte ∈ last, isSpace byte = true := List.dropWhile_eq_nil_iff.mp ended
  intro member
  rw [← List.takeWhile_append_dropWhile (p := isSpace) (l := rest)] at member
  rcases List.mem_append.mp member with inside | inside
  · exact absurd (List.mem_takeWhile_imp inside) (by decide)
  · rw [show rest.dropWhile isSpace = 0x7d :: last from closing, List.mem_cons] at inside
    rcases inside with same | inside
    · exact absurd same (by decide)
    · exact absurd (blank _ inside) (by decide)

/-- An object written by hand with one string member is read as one exactly when the text
spliced between the quotes is quotable. -/
theorem objectMembers_spliced (key : StringBody label name) (valid : Utf8.Valid name) :
    objectMembers (0x7b :: 0x22 :: (label ++ 0x22 :: 0x3a :: 0x22 :: (body ++ [0x22, 0x7d]))) =
      some [member] ↔ ∃ text, member = (name, .string text) ∧ StringBody body text ∧ Utf8.Valid text := by
  have literal (rest : Bytes) : readString (label ++ 0x22 :: rest) = some (name, rest) :=
    readString_iff.mpr ⟨label, rfl, key, valid⟩
  have named (rest : Bytes) : readName (0x22 :: (label ++ 0x22 :: 0x3a :: rest)) = some (name, rest) := by
    simp [readName, literal, skip_cons 0x3a (by decide)]
  have opened (fuel : Nat) (rest : Bytes) : readValue (fuel + 1) (0x22 :: rest) =
      (readString rest).map fun found => (.string found.1, found.2) := by
    simp [readValue, skip_cons 0x22 (by decide), readScalar]
  generalize size : (label ++ 0x22 :: 0x3a :: 0x22 :: (body ++ [0x22, 0x7d])).length = fuel
  simp only [objectMembers, skip_cons 0x7b (by decide), skip_cons 0x22 (by decide), List.head?_cons,
    List.length_cons, size, if_true, Option.some.injEq, show ¬ ((0x22 : UInt8) = 0x7d) by decide, if_false]
  rw [readMembers]
  simp only [skip_cons 0x22 (by decide), named, opened, Option.bind_eq_bind, Option.bind_some]
  constructor
  · intro found
    simp only [Option.bind_eq_some_iff, Option.map_eq_some_iff] at found
    obtain ⟨⟨members, rest⟩, ⟨⟨value, after⟩, ⟨⟨text, after'⟩, read, same⟩, inner⟩, found⟩ := found
    cases same
    split at found
    · rename_i ended
      cases found
      obtain ⟨spelled, split, own, encoded⟩ := readString_iff.mp read
      split at inner
      · cases inner
      · rename_i byte last closing
        split at inner
        · obtain ⟨⟨others, _⟩, more, same⟩ := Option.map_eq_some_iff.mp inner
          have empty : others = [] := by
            have shape := congrArg Prod.fst same
            exact (List.cons.inj shape).2
          exact absurd empty (readMembers_ne_nil more)
        · split at inner
          · rename_i brace
            subst brace
            cases inner
            obtain ⟨sameBody, _⟩ := last_quote split (noQuote_of_closing closing ended)
            exact ⟨text, rfl, sameBody ▸ own, encoded⟩
          · cases inner
    · cases found
  · rintro ⟨text, same, own, encoded⟩
    subst same
    have read : readString (body ++ [0x22, 0x7d]) = some (text, [0x7d]) :=
      readString_iff.mpr ⟨body, rfl, own, encoded⟩
    simp [read, skip_cons 0x7d (by decide), show skip [] = [] from rfl]

end Charybdis.Foundation.JsonText
