import Charybdis.Scripts.ActionPins

/-! The gate on suppressed failures: the pattern the local run and the hook share, and the
suppressions it is there for. -/

namespace Charybdis.Scripts

open Foundation
open Stub (PyStr py)

/-- `[#);&|]`. -/
def isCloser (point : Nat) : Bool := point ∈ [0x23, 0x29, 0x3b, 0x26, 0x7c]

section Gate

variable (locale : Locale)

/-- `\s*#`, at the start of a line. -/
def signPattern : Pattern Nat := .chain [.many (.one locale.blank), .text (py "#"), .anything]

/-- `.*\|\|\s*true(\s*$|\s*[#);&|])`, with whatever may follow the match. -/
def suppressionPattern : Pattern Nat :=
  .chain [.anything, .text (py "||"), .many (.one locale.blank), .text (py "true"),
    .alt (.many (.one locale.blank)) (.chain [.many (.one locale.blank), .one isCloser, .anything])]

/-- Whether `^(?!\s*#).*\|\|\s*true(\s*$|\s*[#);&|])` matches a line. -/
def forbids (line : PyStr) : Bool := !(signPattern locale).accepts line && (suppressionPattern locale).accepts line

/-- The exit status of `grep -rnP` over the lines of some files. -/
def grepStatus (unreadable : Bool) (files : List (List PyStr)) : Nat :=
  if unreadable then 2 else if files.any (·.any (forbids locale)) then 0 else 1

/-- Whether `run_forbid-suppressions` succeeds: a match fails it, and so does an error of `grep`. -/
def forbidSuppressions (unreadable : Bool) (files : List (List PyStr)) : Bool :=
  let rc := grepStatus locale unreadable files
  if rc = 0 then false else if rc > 1 then false else true

theorem forbidSuppressions_iff {unreadable : Bool} {files : List (List PyStr)} :
    forbidSuppressions locale unreadable files = true ↔
      unreadable = false ∧ ∀ file ∈ files, ∀ line ∈ file, forbids locale line = false := by
  cases unreadable with
  | true => simp [forbidSuppressions, grepStatus]
  | false =>
    by_cases found : files.any (·.any (forbids locale)) = true
    · have hit := found
      simp only [List.any_eq_true] at hit
      obtain ⟨file, own, line, member, matched⟩ := hit
      simp only [forbidSuppressions, grepStatus, found, Bool.false_eq_true, if_false, if_true, false_iff]
      rintro ⟨_, clean⟩
      rw [clean file own line member] at matched
      cases matched
    · have clean := found
      simp only [List.any_eq_true, not_exists, not_and, Bool.not_eq_true] at clean
      simp only [forbidSuppressions, grepStatus, found, Bool.false_eq_true, if_false]
      simpa using clean

/-! ### Suppressions -/

/-- An `||` with `true` behind it, and what follows that. -/
def OrTrue (line after : PyStr) : Prop :=
  ∃ before gap : PyStr, line = before ++ py "||" ++ gap ++ py "true" ++ after ∧
    ∀ point ∈ gap, locale.blank point = true

/-- Whether `true` is a word where this follows it: no letter, digit, underscore, hyphen, dot or
slash continues it. -/
def EndsWord (after : PyStr) : Prop := ∀ point, after.head? = some point → isPathPoint point = false

/-- Blanks to the end of the line, or to one of the closers. -/
def Closes (after : PyStr) : Prop :=
  ∃ gap rest : PyStr, after = gap ++ rest ∧ (∀ point ∈ gap, locale.blank point = true) ∧
    (rest = [] ∨ ∃ point, rest.head? = some point ∧ isCloser point = true)

variable {locale}

private theorem signPattern_iff {line : PyStr} :
    (signPattern locale).accepts line = true ↔ locale.isComment line = true := by
  have unblank : locale.blank 0x23 = false := locale.solid_ascii (by decide) (by decide)
  rw [Pattern.accepts_iff, signPattern, Pattern.mem_chain, Locale.isComment, decide_eq_true_eq]
  constructor
  · rintro ⟨gap, _, rfl, gaps, rest⟩
    obtain ⟨_, rest, rfl, sign, _⟩ := Pattern.mem_seq.mp rest
    rw [Pattern.mem_text.mp sign, List.dropWhile_append_of_pos (Pattern.mem_many_one.mp gaps)]
    simp [py, unblank]
  · intro head
    obtain ⟨rest, split⟩ := List.head?_eq_some_iff.mp head
    refine ⟨line.takeWhile locale.blank, line.dropWhile locale.blank, List.takeWhile_append_dropWhile.symm,
      Pattern.mem_many_one.mpr fun point member => List.mem_takeWhile_imp member, ?_⟩
    rw [split]
    exact Pattern.mem_seq.mpr ⟨py "#", rest, rfl, Pattern.mem_text.mpr rfl, Pattern.mem_anything rest⟩

private theorem closes_iff {after : PyStr} :
    after ∈ (Pattern.alt (.many (.one locale.blank))
      (.chain [.many (.one locale.blank), .one isCloser, .anything])).language ↔ Closes locale after := by
  rw [Pattern.mem_alt, Pattern.mem_many_one, Pattern.mem_chain]
  constructor
  · rintro (blank | ⟨gap, _, rfl, gaps, closed⟩)
    · exact ⟨after, [], (List.append_nil after).symm, blank, .inl rfl⟩
    · obtain ⟨_, rest, rfl, ⟨point, closer, rfl⟩, _⟩ := Pattern.mem_seq.mp closed
      exact ⟨gap, point :: rest, rfl, Pattern.mem_many_one.mp gaps, .inr ⟨point, rfl, closer⟩⟩
  · rintro ⟨gap, rest, rfl, gaps, rfl | ⟨point, head, closer⟩⟩
    · exact .inl (by simpa using gaps)
    · obtain ⟨rest, rfl⟩ := List.head?_eq_some_iff.mp head
      exact .inr ⟨gap, point :: rest, rfl, Pattern.mem_many_one.mpr gaps,
        Pattern.mem_seq.mpr ⟨[point], rest, rfl, ⟨point, closer, rfl⟩, Pattern.mem_anything rest⟩⟩

private theorem suppressionPattern_iff {line : PyStr} :
    (suppressionPattern locale).accepts line = true ↔ ∃ after, OrTrue locale line after ∧ Closes locale after := by
  rw [Pattern.accepts_iff, suppressionPattern, Pattern.mem_chain]
  constructor
  · rintro ⟨before, _, rfl, _, matched⟩
    obtain ⟨_, _, rfl, bars, matched⟩ := Pattern.mem_chain.mp matched
    obtain ⟨gap, _, rfl, gaps, matched⟩ := Pattern.mem_chain.mp matched
    obtain ⟨_, after, rfl, word, ended⟩ := Pattern.mem_chain.mp matched
    rw [Pattern.mem_text.mp bars, Pattern.mem_text.mp word]
    exact ⟨after, ⟨before, gap, by simp only [List.append_assoc], Pattern.mem_many_one.mp gaps⟩, closes_iff.mp ended⟩
  · rintro ⟨after, ⟨before, gap, rfl, gaps⟩, ended⟩
    refine ⟨before, py "||" ++ (gap ++ (py "true" ++ after)), by simp only [List.append_assoc],
      Pattern.mem_anything before, ?_⟩
    refine Pattern.mem_chain.mpr ⟨_, _, rfl, Pattern.mem_text.mpr rfl, ?_⟩
    refine Pattern.mem_chain.mpr ⟨gap, _, rfl, Pattern.mem_many_one.mpr gaps, ?_⟩
    exact Pattern.mem_chain.mpr ⟨_, after, rfl, Pattern.mem_text.mpr rfl, closes_iff.mpr ended⟩

theorem forbids_iff {line : PyStr} :
    forbids locale line = true ↔
      locale.isComment line = false ∧ ∃ after, OrTrue locale line after ∧ Closes locale after := by
  rw [forbids, Bool.and_eq_true, suppressionPattern_iff, Bool.not_eq_true', ← Bool.not_eq_true, signPattern_iff,
    Bool.not_eq_true]

/-- For every line: the pattern leaves comments alone and matches what else suppresses a
failure, unless the line has suppressions and none of them is closed. -/
theorem suppression_is_caught_iff (locale : Locale) (line : PyStr) :
    ((locale.isComment line = true → forbids locale line = false) ∧
      (locale.isComment line = false → (∃ after, OrTrue locale line after ∧ EndsWord after) →
        forbids locale line = true)) ↔
    (locale.isComment line = true ∨ (∀ after, OrTrue locale line after → ¬ EndsWord after) ∨
      ∃ after, OrTrue locale line after ∧ Closes locale after) := by
  constructor
  · rintro ⟨_, caught⟩
    by_cases comment : locale.isComment line = true
    · exact .inl comment
    · rw [Bool.not_eq_true] at comment
      by_cases written : ∃ after, OrTrue locale line after ∧ EndsWord after
      · exact .inr (.inr (forbids_iff.mp (caught comment written)).2)
      · exact .inr (.inl fun after own word => written ⟨after, own, word⟩)
  · intro fine
    constructor
    · intro comment
      rw [← Bool.not_eq_true, forbids_iff]
      rintro ⟨plain, _⟩
      rw [comment] at plain
      cases plain
    · rintro plain ⟨after, own, word⟩
      rcases fine with comment | unwritten | closed
      · rw [plain] at comment
        cases comment
      · exact absurd word (unwritten after own)
      · exact forbids_iff.mpr ⟨plain, closed⟩

/-- A suppression in quotes. -/
theorem quoted_suppression_is_missed :
    let line := py "bash -c \"make || true\""
    Locale.posix.isComment line = false ∧ (∃ after, OrTrue .posix line after ∧ EndsWord after) ∧
      forbids .posix line = false := by
  intro line
  refine ⟨by decide +kernel, ⟨py "\"", ⟨py "bash -c \"make ", py " ", rfl, by decide⟩, ?_⟩, by decide +kernel⟩
  intro point quote
  cases quote
  rfl

end Gate

end Charybdis.Scripts
