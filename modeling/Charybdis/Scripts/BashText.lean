import Charybdis.Foundation.Utf8
import Charybdis.Policy.PythonText

/-! The text functions of bash that the scripts are written with: `read` loops, the expansions
that cut a value at a pattern, and the blanks of a locale. -/

namespace Charybdis.Scripts

open Foundation
open Policy (isSpace)
open Stub (PyStr py)

/-- The lines a `while read` loop has a turn for: `read` fails on what follows the last
newline, and the loop ends before its body. -/
def readLines (input : Bytes) : List Bytes := (input.splitOn 0x0a).dropLast

/-- `${text%%<stop>*}`. -/
def cutAt (stop : UInt8) (text : Bytes) : Bytes := text.takeWhile (· ≠ stop)

theorem cutAt_of_not_mem {text : Bytes} (absent : stop ∉ text) : cutAt stop text = text := by
  apply List.takeWhile_eq_self_iff.mpr
  intro byte member
  exact decide_eq_true fun same => absent (same ▸ member)

theorem cutAt_append {text : Bytes} (absent : stop ∉ text) (rest : Bytes) :
    cutAt stop (text ++ stop :: rest) = text := by
  have passed : ∀ byte ∈ text, decide (byte ≠ stop) = true :=
    fun byte member => decide_eq_true fun same => absent (same ▸ member)
  rw [cutAt, List.takeWhile_append_of_pos passed]
  simp

section Expansions

variable {α : Type} [DecidableEq α]

/-- What follows the first occurrence of a separator, which is not empty. -/
def dropThrough (separator : List α) : List α → Option (List α)
  | [] => none
  | symbol :: rest =>
    if separator.isPrefixOf (symbol :: rest) then some ((symbol :: rest).drop separator.length)
    else dropThrough separator rest

/-- `${text#*<separator>}`, which leaves a text without the separator alone. -/
def removeThrough (separator text : List α) : List α := (dropThrough separator text).getD text

/-- `${text#<symbol>}`. -/
def removeFront (symbol : α) (text : List α) : List α := if text.head? = some symbol then text.tail else text

/-- `${text%<symbol>}`. -/
def removeEnd (symbol : α) (text : List α) : List α := if text.getLast? = some symbol then text.dropLast else text

theorem dropThrough_suffix {separator text rest : List α} (found : dropThrough separator text = some rest) :
    rest <:+ text := by
  induction text with
  | nil => cases found
  | cons symbol text ih =>
    rw [dropThrough] at found
    split at found
    · cases found
      exact List.drop_suffix _ _
    · exact (ih found).trans (List.suffix_cons symbol text)

theorem dropThrough_none_iff {separator text : List α} (nonempty : separator ≠ []) :
    dropThrough separator text = none ↔ ¬ separator <:+: text := by
  induction text with
  | nil => simp [dropThrough, nonempty]
  | cons symbol text ih =>
    rw [dropThrough, List.infix_cons_iff]
    by_cases front : separator.isPrefixOf (symbol :: text) = true
    · rw [if_pos front]
      simp [List.isPrefixOf_iff_prefix.mp front]
    · rw [if_neg front, ih]
      simp [mt List.isPrefixOf_iff_prefix.mpr front]

theorem removeThrough_sub {separator text : List α} (member : symbol ∈ removeThrough separator text) :
    symbol ∈ text := by
  unfold removeThrough at member
  cases found : dropThrough separator text with
  | none => simpa [found] using member
  | some rest =>
    rw [found] at member
    exact (dropThrough_suffix found).subset member

theorem dropThrough_append {first : α} {separator text : List α} (absent : first ∉ text) (rest : List α) :
    dropThrough (first :: separator) (text ++ first :: separator ++ rest) = some rest := by
  induction text with
  | nil =>
    have front : (first :: separator).isPrefixOf (first :: (separator ++ rest)) = true :=
      List.isPrefixOf_iff_prefix.mpr ⟨rest, by simp⟩
    simp only [List.nil_append, List.cons_append, dropThrough, front, if_true]
    simp
  | cons symbol text ih =>
    rw [List.mem_cons, not_or] at absent
    have other : ¬ (first :: separator).isPrefixOf (symbol :: (text ++ first :: separator ++ rest)) = true := by
      simp [List.isPrefixOf, absent.1]
    rw [List.cons_append, List.cons_append, dropThrough, if_neg other]
    exact ih absent.2

end Expansions

/-! ### Blanks -/

/-- The class `[[:space:]]` of a locale: on ASCII it is the same in all of them, and beyond
ASCII each takes some of the spaces of Unicode. -/
structure Locale where
  blank : Nat → Bool
  ascii : ∀ point < 0x80, blank point = ((0x09 ≤ point && point ≤ 0x0d) || point == 0x20)
  unicode : ∀ point, blank point = true → isSpace point = true

private theorem isSpace_of_posix (inside : ((0x09 ≤ point && point ≤ 0x0d) || point == 0x20) = true) :
    isSpace point = true := by
  simp only [Bool.or_eq_true, Bool.and_eq_true, decide_eq_true_eq, beq_iff_eq] at inside
  simp only [isSpace, Bool.or_eq_true, Bool.and_eq_true, decide_eq_true_eq]
  omega

/-- The class of the `C` locale. -/
def Locale.posix : Locale where
  blank point := (0x09 ≤ point && point ≤ 0x0d) || point == 0x20
  ascii _ _ := rfl
  unicode _ := isSpace_of_posix

theorem Locale.solid_ascii (locale : Locale) {point : Nat} (ascii : point < 0x80)
    (solid : ((0x09 ≤ point && point ≤ 0x0d) || point == 0x20) = false) : locale.blank point = false := by
  rw [locale.ascii point ascii, solid]

theorem Locale.spaces (locale : Locale) {gap : PyStr} (blank : ∀ point ∈ gap, locale.blank point = true) :
    ∀ point ∈ gap, isSpace point = true :=
  fun point member => locale.unicode point (blank point member)

/-- Both expansions that trim a value. -/
def Locale.trim (locale : Locale) (text : PyStr) : PyStr :=
  (text.dropWhile locale.blank).rdropWhile locale.blank

/-- Whether the first point of a line that is no blank is a number sign. -/
def Locale.isComment (locale : Locale) (line : PyStr) : Bool := (line.dropWhile locale.blank).head? = some 0x23

end Charybdis.Scripts
