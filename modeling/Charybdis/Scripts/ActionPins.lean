import Charybdis.Foundation.Pattern
import Charybdis.Scripts.BashText

/-! The gate on action references: the lines it picks up, the values it reads from them, and
the rule of its header. The container attestation test checks the same references with a
pattern of its own. -/

namespace Charybdis.Scripts

open Foundation
open Policy (isSpace lstrip rstrip strip startsWith splitlines lstrip_append lstrip_solid dropPrefix?_iff isLineBreak
  trimmed splitlines_joinLines)
open Stub (PyStr py)

/-! ### The gate -/

def isHex (point : Nat) : Bool := (0x30 ≤ point && point ≤ 0x39) || (0x61 ≤ point && point ≤ 0x66)

/-- `[A-Za-z0-9_.-]`. -/
def isNamePoint (point : Nat) : Bool :=
  (0x41 ≤ point && point ≤ 0x5a) || (0x61 ≤ point && point ≤ 0x7a) || (0x30 ≤ point && point ≤ 0x39) ||
    point == 0x5f || point == 0x2e || point == 0x2d

/-- The same class with the slash. -/
def isPathPoint (point : Nat) : Bool := isNamePoint point || point == 0x2f

section Gate

variable (locale : Locale)

/-- `^[[:space:]]*(-[[:space:]]+)?uses:[[:space:]]*[^[:space:]]`. -/
def usesPattern : Pattern Nat :=
  .chain [.many (.one locale.blank), .optional (.seq (.text (py "-")) (.plus (.one locale.blank))),
    .text (py "uses:"), .many (.one locale.blank), .one fun point => !locale.blank point, .anything]

/-- Whether `grep` prints a line of a text file; a file with a NUL is a binary one. -/
def picksUp (line : PyStr) : Bool := 0x00 ∉ line && 0x0a ∉ line && (usesPattern locale).accepts line

/-- The last variable of `IFS=: read`: a colon at the end of it is dropped if it is the only one. -/
def lastField (text : PyStr) : PyStr :=
  if text.dropWhile (· ≠ 0x3a) = [0x3a] then text.takeWhile (· ≠ 0x3a) else text

/-- Surrounding quotes, each on its own: first the double ones, then the single ones. -/
def unquote (value : PyStr) : PyStr :=
  removeFront 0x27 (removeEnd 0x27 (removeFront 0x22 (removeEnd 0x22 value)))

/-- What follows `uses:`, trimmed. -/
def trimmedValue (content : PyStr) : PyStr := locale.trim (removeThrough (py "uses:") (lastField content))

def valueOf (content : PyStr) : PyStr := unquote (trimmedValue locale content)

/-- `^\./`. -/
def localPattern : Pattern Nat := .seq (.text (py "./")) .anything

/-- `^docker://[^@]+@sha256:[0-9a-f]{64}$`. -/
def dockerPattern : Pattern Nat :=
  .chain [.text (py "docker://"), .plus (.one (· ≠ 0x40)), .text (py "@sha256:"), .times (.one isHex) 64]

/-- `^<name>+/<path>+@[0-9a-f]{40}([[:space:]]+#[[:space:]]*v.+)?$`. -/
def actionPattern : Pattern Nat :=
  .chain [.plus (.one isNamePoint), .text (py "/"), .plus (.one isPathPoint), .text (py "@"),
    .times (.one isHex) 40, .optional (.chain [.plus (.one locale.blank), .text (py "#"),
      .many (.one locale.blank), .text (py "v"), .plus (.one fun _ => true)])]

/-- The variables of the scan. -/
structure PinScan where
  violations : Nat := 0
  checked : Nat := 0
  report : List PyStr := []

/-- The body of the loop over the lines of a file. -/
def PinScan.step (file : PyStr) (scan : PinScan) (entry : Nat × PyStr) : PinScan :=
  let value := valueOf locale entry.2
  -- an empty value is not even counted
  if value.isEmpty then scan
  else
    let scan := { scan with checked := scan.checked + 1 }
    if localPattern.accepts value || dockerPattern.accepts value || (actionPattern locale).accepts value then scan
    else
      { scan with
        violations := scan.violations + 1
        report := scan.report ++ [file ++ py ":" ++ py (toString entry.1) ++ py ": " ++ value] }

/-- What `grep -n` prints for a file, number and line apart. -/
def grepLines (lines : List PyStr) : List (Nat × PyStr) :=
  (lines.zipIdx 1).filterMap fun entry => if picksUp locale entry.1 then some (entry.2, entry.1) else none

/-- The scan of files, each with its name and lines. -/
def scanFiles (files : List (PyStr × List PyStr)) : PinScan :=
  files.foldl (fun scan file => (grepLines locale file.2).foldl (PinScan.step locale file.1) scan) {}

/-- Whether the script exits with 0. -/
def allPinned (files : List (PyStr × List PyStr)) : Bool := (scanFiles locale files).violations == 0

/-- Whether a line passes without a violation. -/
def passesGate (line : PyStr) : Bool := (PinScan.step locale [] {} (0, line)).violations == 0

end Gate

/-! ### Runs of the gate -/

section Runs

variable {locale : Locale}

private theorem step_violations (file : PyStr) (scan : PinScan) (entry : Nat × PyStr) :
    (PinScan.step locale file scan entry).violations =
      scan.violations + if passesGate locale entry.2 then 0 else 1 := by
  simp only [passesGate, PinScan.step]
  by_cases empty : (valueOf locale entry.2).isEmpty = true
  · simp [empty]
  · simp only [empty, Bool.false_eq_true, if_false]
    split
    · simp
    · simp

private theorem file_violations (file : PyStr) (entries : List (Nat × PyStr)) (scan : PinScan) :
    (entries.foldl (PinScan.step locale file) scan).violations =
      scan.violations + (entries.filter fun entry => !passesGate locale entry.2).length := by
  induction entries generalizing scan with
  | nil => rfl
  | cons entry entries ih =>
    rw [List.foldl_cons, ih, step_violations]
    cases passed : passesGate locale entry.2 with
    | false =>
      simp [passed]
      omega
    | true => simp [passed]

private theorem mem_grepLines {lines : List PyStr} :
    (∃ entry ∈ grepLines locale lines, entry.2 = line) ↔ line ∈ lines ∧ picksUp locale line = true := by
  simp only [grepLines, List.mem_filterMap]
  constructor
  · rintro ⟨entry, ⟨⟨other, number⟩, member, picked⟩, rfl⟩
    split at picked
    · rename_i kept
      cases picked
      exact ⟨List.fst_mem_of_mem_zipIdx member, kept⟩
    · cases picked
  · rintro ⟨member, kept⟩
    obtain ⟨index, short, rfl⟩ := List.mem_iff_getElem.mp member
    refine ⟨(1 + index, lines[index]), ⟨(lines[index], 1 + index), ?_, by rw [if_pos kept]⟩, rfl⟩
    exact List.mk_mem_zipIdx_iff_le_and_getElem?_sub.mpr (by simp [short])

/-- The script succeeds exactly when it passes every line it picks up, in every file. -/
theorem allPinned_iff {files : List (PyStr × List PyStr)} :
    allPinned locale files = true ↔
      ∀ file ∈ files, ∀ line ∈ file.2, picksUp locale line = true → passesGate locale line = true := by
  suffices run : ∀ scan : PinScan,
      (files.foldl (fun scan file => (grepLines locale file.2).foldl (PinScan.step locale file.1) scan) scan).violations
          = 0 ↔
        scan.violations = 0 ∧
          ∀ file ∈ files, ∀ line ∈ file.2, picksUp locale line = true → passesGate locale line = true by
    rw [allPinned, beq_iff_eq]
    exact (run {}).trans ⟨And.right, fun all => ⟨rfl, all⟩⟩
  induction files with
  | nil => simp
  | cons file files ih =>
    intro scan
    have own : (grepLines locale file.2).filter (fun entry => !passesGate locale entry.2) = [] ↔
        ∀ line ∈ file.2, picksUp locale line = true → passesGate locale line = true := by
      rw [List.filter_eq_nil_iff]
      constructor
      · intro passed line member picked
        obtain ⟨entry, inside, rfl⟩ := mem_grepLines.mpr ⟨member, picked⟩
        simpa using passed entry inside
      · intro passed entry inside
        obtain ⟨member, picked⟩ := mem_grepLines.mp ⟨entry, inside, rfl⟩
        simp [passed _ member picked]
    rw [List.foldl_cons, ih, file_violations, Nat.add_eq_zero_iff, List.length_eq_zero_iff, own, List.forall_mem_cons,
      and_assoc]

end Runs

/-! ### The attestation test -/

/-- What `(?:-\s+)?` leaves of a stripped line. -/
def afterDash : PyStr → PyStr
  | 0x2d :: point :: rest => if isSpace point then lstrip rest else 0x2d :: point :: rest
  | text => text

/-- The groups of `(\S+)\s*#?\s*(.*)$`; every repetition stops at a point it cannot take, so
none gives back. -/
def refAndComment (rest : PyStr) : Option (PyStr × PyStr) :=
  let ref := rest.takeWhile fun point => !isSpace point
  let tail := lstrip (rest.dropWhile fun point => !isSpace point)
  if ref.isEmpty then none else some (ref, lstrip ((tail.dropPrefix? (py "#")).getD tail))

/-- `re.match(r"(?:-\s+)?uses:\s*(\S+)\s*#?\s*(.*)$", stripped)`. -/
def pinGroups (stripped : PyStr) : Option (PyStr × PyStr) :=
  ((afterDash stripped).dropPrefix? (py "uses:")).bind fun rest => refAndComment (lstrip rest)

/-- `re.fullmatch(r"[0-9a-f]{40}", text)`. -/
def isSha (text : PyStr) : Bool := text.length == 40 && text.all isHex

/-- Whether a match is left out of `unpinned`. -/
def pinned : Option (PyStr × PyStr) → Bool
  | none => true
  | some (ref, comment) =>
    startsWith (py "./") ref || (isSha (ref.rtakeWhile (· ≠ 0x40)) && startsWith (py "v") comment)

/-- The body of the loop over the lines. -/
def passesTest (line : PyStr) : Bool := pinned (pinGroups (strip line))

/-- `test_every_release_workflow_action_ref_is_sha_pinned` on the text of the workflow. -/
def releaseWorkflowPinned (text : PyStr) : Bool := (splitlines text).all passesTest

/-! ### The rule -/

/-- A docker reference pinned by its digest; the name of an image has no `@`. -/
def DockerPinned (value : PyStr) : Prop :=
  ∃ image digest : PyStr, value = py "docker://" ++ image ++ py "@sha256:" ++ digest ∧ image ≠ [] ∧ 0x40 ∉ image ∧
    digest.length = 64 ∧ ∀ point ∈ digest, isHex point = true

/-- `owner/repo` with an optional path, pinned by a commit and followed by a comment with a tag. -/
def ActionPinned (locale : Locale) (value : PyStr) : Prop :=
  ∃ owner repo path sha gap lead tag : PyStr,
    value = owner ++ py "/" ++ repo ++ path ++ py "@" ++ sha ++ gap ++ py "#" ++ lead ++ py "v" ++ tag ∧
      (owner ≠ [] ∧ ∀ point ∈ owner, isNamePoint point = true) ∧
      (repo ≠ [] ∧ ∀ point ∈ repo, isNamePoint point = true) ∧
      ((∀ point ∈ path, isPathPoint point = true) ∧ (path = [] ∨ py "/" <+: path)) ∧
      isSha sha = true ∧
      (gap ≠ [] ∧ ∀ point ∈ gap, locale.blank point = true) ∧ (∀ point ∈ lead, locale.blank point = true) ∧ tag ≠ []

/-! ### What the test passes -/

/-- A reference the pattern of the test takes for pinned: the word in front ends in a commit,
and a tag stands behind it, whatever the number sign. -/
def LooselyPinned (rest : PyStr) : Prop :=
  ∃ ref gap hash lead tag : PyStr, rest = ref ++ gap ++ hash ++ lead ++ py "v" ++ tag ∧
    (∀ point ∈ ref, isSpace point = false) ∧ isSha (ref.rtakeWhile (· ≠ 0x40)) = true ∧
    (gap ≠ [] ∧ ∀ point ∈ gap, isSpace point = true) ∧ (hash = [] ∨ hash = py "#") ∧
    ∀ point ∈ lead, isSpace point = true

private theorem takeWhile_solid {ref : PyStr} (solid : ∀ point ∈ ref, isSpace point = false)
    (stops : ∀ point, rest.head? = some point → isSpace point = true) :
    ((ref ++ rest).takeWhile fun point => !isSpace point) = ref ∧
      ((ref ++ rest).dropWhile fun point => !isSpace point) = rest := by
  have passed : ∀ point ∈ ref, (!isSpace point) = true := fun point member => by simp [solid point member]
  rw [List.takeWhile_append_of_pos passed, List.dropWhile_append_of_pos passed]
  cases rest with
  | nil => simp
  | cons point rest => simp [stops point rfl]

private theorem solid_of_isSha {text : PyStr} (sha : isSha text = true) : text ≠ [] := by
  intro empty
  subst text
  cases sha

private theorem refAndComment_tagged {ref gap hash lead tag : PyStr} (full : ref ≠ [])
    (solid : ∀ point ∈ ref, isSpace point = false) (apart : gap ≠ [])
    (spaces : ∀ point ∈ gap, isSpace point = true) (sign : hash = [] ∨ hash = py "#")
    (blank : ∀ point ∈ lead, isSpace point = true) :
    refAndComment (ref ++ (gap ++ (hash ++ (lead ++ (py "v" ++ tag))))) = some (ref, py "v" ++ tag) := by
  have stops : ∀ point, (gap ++ (hash ++ (lead ++ (py "v" ++ tag)))).head? = some point → isSpace point = true := by
    cases gap with
    | nil => exact absurd rfl apart
    | cons first gap =>
      intro point same
      cases same
      exact spaces _ List.mem_cons_self
  obtain ⟨taken, left⟩ := takeWhile_solid solid stops
  have letter : lstrip (py "v" ++ tag) = py "v" ++ tag := lstrip_solid rfl tag
  simp only [refAndComment, taken, left, List.isEmpty_iff, full, if_false, lstrip_append spaces]
  rcases sign with rfl | rfl
  · have unsigned : (py "v" ++ tag).dropPrefix? (py "#") = none := rfl
    rw [List.nil_append, lstrip_append blank, letter, unsigned, Option.getD_none, letter]
  · have signed : lstrip (py "#" ++ (lead ++ (py "v" ++ tag))) = py "#" ++ (lead ++ (py "v" ++ tag)) :=
      lstrip_solid rfl _
    rw [signed, dropPrefix?_iff.mpr rfl, Option.getD_some, lstrip_append blank, letter]

private theorem looselyPinned_of_comment {rest : PyStr}
    (sha : isSha ((rest.takeWhile fun point => !isSpace point).rtakeWhile (· ≠ 0x40)) = true)
    (tagged : startsWith (py "v") (lstrip (((lstrip (rest.dropWhile fun point => !isSpace point)).dropPrefix?
      (py "#")).getD (lstrip (rest.dropWhile fun point => !isSpace point)))) = true) :
    LooselyPinned rest := by
  generalize word : (rest.takeWhile fun point => !isSpace point) = ref at sha
  generalize behind : (rest.dropWhile fun point => !isSpace point) = tail at tagged
  have whole : rest = ref ++ tail := by rw [← word, ← behind, List.takeWhile_append_dropWhile]
  have solid : ∀ point ∈ ref, isSpace point = false := by
    intro point member
    rw [← word] at member
    simpa using List.mem_takeWhile_imp member
  have parted : tail = tail.takeWhile isSpace ++ lstrip tail := List.takeWhile_append_dropWhile.symm
  have apart : tail.takeWhile isSpace ≠ [] := by
    intro none
    cases tail with
    | nil => cases tagged
    | cons point tail =>
      have stopped := List.head_dropWhile_not (fun point => !isSpace point) (l := rest) (by simp [behind])
      simp only [behind, List.head_cons, Bool.not_eq_false'] at stopped
      simp [stopped] at none
  obtain ⟨hash, sign, later, split⟩ : ∃ hash, (hash = [] ∨ hash = py "#") ∧ ∃ later, lstrip tail = hash ++ later ∧
      startsWith (py "v") (lstrip later) = true := by
    cases found : (lstrip tail).dropPrefix? (py "#") with
    | none =>
      rw [found] at tagged
      exact ⟨[], .inl rfl, lstrip tail, rfl, tagged⟩
    | some later =>
      rw [found] at tagged
      exact ⟨py "#", .inr rfl, later, dropPrefix?_iff.mp found, tagged⟩
  obtain ⟨tag, named⟩ := List.isPrefixOf_iff_prefix.mp split.2
  have led : later = later.takeWhile isSpace ++ (py "v" ++ tag) := by
    rw [named]
    exact List.takeWhile_append_dropWhile.symm
  refine ⟨ref, tail.takeWhile isSpace, hash, later.takeWhile isSpace, tag, ?_, solid, sha,
    ⟨apart, fun point member => List.mem_takeWhile_imp member⟩, sign, fun point member => List.mem_takeWhile_imp member⟩
  calc rest = ref ++ (tail.takeWhile isSpace ++ (hash ++ (later.takeWhile isSpace ++ (py "v" ++ tag)))) := by
        rw [← led, ← split.1, ← parted, whole]
    _ = ref ++ tail.takeWhile isSpace ++ hash ++ later.takeWhile isSpace ++ py "v" ++ tag := by
        simp only [List.append_assoc]

theorem pinned_iff {rest : PyStr} (stripped : lstrip rest = rest) :
    pinned (refAndComment rest) = true ↔ rest = [] ∨ py "./" <+: rest ∨ LooselyPinned rest := by
  constructor
  · intro passed
    by_cases empty : (rest.takeWhile fun point => !isSpace point).isEmpty = true
    · left
      cases rest with
      | nil => rfl
      | cons point rest =>
        rw [List.isEmpty_iff, List.takeWhile_eq_nil_iff] at empty
        by_cases space : isSpace point = true
        · have shorter := congrArg List.length stripped
          have short := (List.dropWhile_suffix isSpace (l := rest)).length_le
          simp only [lstrip, List.dropWhile_cons, space, if_true, List.length_cons] at shorter
          omega
        · exact absurd (by simpa using space) (empty (by simp))
    · simp only [refAndComment, empty, Bool.false_eq_true, if_false, pinned, Bool.or_eq_true, Bool.and_eq_true]
        at passed
      rcases passed with own | ⟨sha, tagged⟩
      · exact .inr (.inl ((List.isPrefixOf_iff_prefix.mp own).trans (List.takeWhile_prefix _)))
      · exact .inr (.inr (looselyPinned_of_comment sha tagged))
  · rintro (rfl | ⟨more, rfl⟩ | ⟨ref, gap, hash, lead, tag, rfl, solid, sha, ⟨apart, spaces⟩, sign, blank⟩)
    · rfl
    · have own : ((py "./" ++ more).takeWhile fun point => !isSpace point) =
          py "./" ++ more.takeWhile fun point => !isSpace point := rfl
      simp only [refAndComment, own, pinned]
      rfl
    · have full : ref ≠ [] := by
        rintro rfl
        exact solid_of_isSha sha rfl
      simp only [List.append_assoc, refAndComment_tagged full solid apart spaces sign blank, pinned, sha,
        Bool.true_and, Bool.or_eq_true]
      exact .inr rfl

/-- To the test the line refers to no action, to nothing or a local path, or to a tagged commit. -/
def TestTakes (line : PyStr) : Prop :=
  ∀ rest, (afterDash (strip line)).dropPrefix? (py "uses:") = some rest →
    lstrip rest = [] ∨ py "./" <+: lstrip rest ∨ LooselyPinned (lstrip rest)

theorem passesTest_iff : passesTest line = true ↔ TestTakes line := by
  rw [passesTest, pinGroups, TestTakes]
  cases (afterDash (strip line)).dropPrefix? (py "uses:") with
  | none => simp [pinned]
  | some rest =>
    have stripped : lstrip (lstrip rest) = lstrip rest := List.dropWhile_idempotent isSpace rest
    rw [Option.bind_some, pinned_iff stripped]
    simp

theorem releaseWorkflowPinned_iff : releaseWorkflowPinned text = true ↔ ∀ line ∈ splitlines text, TestTakes line := by
  simp only [releaseWorkflowPinned, List.all_eq_true, passesTest_iff]

theorem releaseWorkflowPinned_line (full : line ≠ []) (unbroken : ∀ point ∈ line, isLineBreak point = false) :
    releaseWorkflowPinned line = passesTest line := by
  have clean : ∀ other ∈ [line], ∀ point ∈ other, isLineBreak point = false := by simpa using unbroken
  have single : splitlines line = trimmed [line] := by
    rw [← splitlines_joinLines clean]
    rfl
  rw [trimmed, if_neg (by simpa using full)] at single
  simp [releaseWorkflowPinned, single]

/-! ### The shape of a line -/

section Lines

variable {locale : Locale}

/-- The indent in front of `uses:`, with or without the dash of a list. -/
def Indent (locale : Locale) (front : PyStr) : Prop :=
  ∃ lead item : PyStr, front = lead ++ item ∧ (∀ point ∈ lead, locale.blank point = true) ∧
    (item = [] ∨ ∃ gap, item = py "-" ++ gap ∧ gap ≠ [] ∧ ∀ point ∈ gap, locale.blank point = true)

theorem Indent.clean (indent : Indent locale front) {point : Nat} (ascii : point < 0x80)
    (solid : ((0x09 ≤ point && point ≤ 0x0d) || point == 0x20) = false) (other : point ≠ 0x2d) : point ∉ front := by
  have unblank := locale.solid_ascii ascii solid
  have outside {gap : PyStr} (blank : ∀ point ∈ gap, locale.blank point = true) : point ∉ gap :=
    fun member => by simp [blank point member] at unblank
  obtain ⟨lead, item, rfl, leads, rfl | ⟨gap, rfl, _, gaps⟩⟩ := indent
  · simpa using outside leads
  · simp [py, outside leads, outside gaps, other]

/-- A line that is picked up has `uses:` behind its indent and a value behind that. -/
theorem picksUp_split (picked : picksUp locale line = true) :
    ∃ front gap point rest, line = front ++ py "uses:" ++ (gap ++ point :: rest) ∧ Indent locale front ∧
      (∀ point ∈ gap, locale.blank point = true) ∧ locale.blank point = false := by
  simp only [picksUp, Bool.and_eq_true, Pattern.accepts_iff] at picked
  obtain ⟨lead, _, rfl, leads, matched⟩ := Pattern.mem_chain.mp picked.2
  obtain ⟨item, _, rfl, items, matched⟩ := Pattern.mem_chain.mp matched
  obtain ⟨_, _, rfl, key, matched⟩ := Pattern.mem_chain.mp matched
  obtain ⟨gap, _, rfl, gaps, matched⟩ := Pattern.mem_chain.mp matched
  obtain ⟨_, rest, rfl, ⟨point, solid, rfl⟩, _⟩ := Pattern.mem_chain.mp matched
  refine ⟨lead ++ item, gap, point, rest, ?_, ⟨lead, item, rfl, Pattern.mem_many_one.mp leads, ?_⟩,
    Pattern.mem_many_one.mp gaps, by simpa using solid⟩
  · rw [Pattern.mem_text.mp key]
    simp
  rw [Pattern.mem_optional, Pattern.mem_seq] at items
  rcases items with none | ⟨_, more, same, dash, mores⟩
  · exact .inl none
  · rw [Pattern.mem_text] at dash
    obtain ⟨full, blank⟩ := Pattern.mem_plus_one.mp mores
    exact .inr ⟨more, by rw [same, dash], full, blank⟩

/-- The text behind `uses:`. -/
def behindUses (line : PyStr) : PyStr := removeThrough (py "uses:") line

private theorem behindUses_append (indent : Indent locale front) (tail : PyStr) :
    behindUses (front ++ py "uses:" ++ tail) = tail := by
  have found : dropThrough (py "uses:") (front ++ py "uses:" ++ tail) = some tail :=
    dropThrough_append (indent.clean (by decide) (by decide) (by decide)) tail
  rw [behindUses, removeThrough, found, Option.getD_some]

private theorem lastField_append (indent : Indent locale front) {tail : PyStr} (full : tail ≠ []) :
    lastField (front ++ py "uses:" ++ tail) = front ++ py "uses:" ++ tail := by
  have clean : 0x3a ∉ front := indent.clean (by decide) (by decide) (by decide)
  have passed : ∀ point ∈ front ++ py "uses", decide (point ≠ 0x3a) = true := by
    intro point member
    rcases List.mem_append.mp member with inside | inside
    · exact decide_eq_true fun same => clean (same ▸ inside)
    · have letters : ∀ point ∈ py "uses", decide (point ≠ 0x3a) = true := by decide
      exact letters point inside
  have split : front ++ py "uses:" ++ tail = (front ++ py "uses") ++ (0x3a :: tail) := by
    simp [py]
  have rest : (front ++ py "uses:" ++ tail).dropWhile (· ≠ 0x3a) = 0x3a :: tail := by
    rw [split, List.dropWhile_append_of_pos passed]
    simp
  rw [lastField, rest, if_neg]
  simpa using full

theorem trimmedValue_eq (picked : picksUp locale line = true) :
    trimmedValue locale line = locale.trim (behindUses line) := by
  obtain ⟨front, gap, point, rest, rfl, indent, _, _⟩ := picksUp_split picked
  rw [trimmedValue, lastField_append indent (by simp), behindUses]

theorem behindUses_eq (picked : picksUp locale line = true) :
    ∃ gap back, behindUses line = gap ++ (trimmedValue locale line ++ back) ∧
      (∀ point ∈ gap, locale.blank point = true) ∧ trimmedValue locale line ≠ [] := by
  rw [trimmedValue_eq picked]
  obtain ⟨front, gap, point, rest, rfl, indent, gaps, solid⟩ := picksUp_split picked
  have trimmed : locale.trim (gap ++ point :: rest) = point :: rest.rdropWhile locale.blank := by
    rw [Locale.trim, List.dropWhile_append_of_pos gaps, List.dropWhile_cons_of_neg (by simp [solid])]
    exact rdropWhile_append_solid solid [] rest
  rw [behindUses_append indent, trimmed]
  refine ⟨gap, rest.rtakeWhile locale.blank, ?_, gaps, List.cons_ne_nil _ _⟩
  rw [List.cons_append, List.rdropWhile_append_rtakeWhile]

/-- The test reads the reference behind the same `uses:`. -/
theorem passesTest_eq (picked : picksUp locale line = true) :
    passesTest line = pinned (refAndComment (lstrip (rstrip (behindUses line)))) := by
  obtain ⟨front, gap, point, rest, rfl, indent, _, _⟩ := picksUp_split picked
  rw [behindUses_append indent]
  generalize gap ++ point :: rest = tail
  obtain ⟨lead, item, rfl, leads, items⟩ := indent
  have ended (front : PyStr) : rstrip (front ++ (py "uses:" ++ tail)) = front ++ (py "uses:" ++ rstrip tail) := by
    have colon : (front ++ py "uses" ++ 0x3a :: tail).rdropWhile isSpace =
        front ++ py "uses" ++ 0x3a :: tail.rdropWhile isSpace := rdropWhile_append_solid rfl _ tail
    simpa [py, rstrip] using colon
  have key : (py "uses:" ++ rstrip tail).dropPrefix? (py "uses:") = some (rstrip tail) := dropPrefix?_iff.mpr rfl
  suffices read : afterDash (strip (lead ++ item ++ py "uses:" ++ tail)) = py "uses:" ++ rstrip tail by
    rw [passesTest, pinGroups, read, key, Option.bind_some]
  rw [strip, List.append_assoc, List.append_assoc, lstrip_append (locale.spaces leads)]
  rcases items with rfl | ⟨more, rfl, full, mores⟩
  · have start : lstrip ([] ++ (py "uses:" ++ tail)) = [] ++ (py "uses:" ++ tail) := lstrip_solid rfl _
    rw [start, ended]
    rfl
  · have start : lstrip (py "-" ++ more ++ (py "uses:" ++ tail)) = py "-" ++ more ++ (py "uses:" ++ tail) :=
      lstrip_solid rfl _
    rw [start, ended]
    cases more with
    | nil => exact absurd rfl full
    | cons first more =>
      have space : isSpace first = true := locale.spaces mores first List.mem_cons_self
      have start : lstrip (py "uses:" ++ rstrip tail) = py "uses:" ++ rstrip tail := lstrip_solid rfl _
      show (if isSpace first then lstrip (more ++ (py "uses:" ++ rstrip tail)) else _) = _
      have others : ∀ point ∈ more, isSpace point = true :=
        fun point member => locale.spaces mores point (List.mem_cons_of_mem _ member)
      rw [if_pos space, lstrip_append others, start]

end Lines

end Charybdis.Scripts
