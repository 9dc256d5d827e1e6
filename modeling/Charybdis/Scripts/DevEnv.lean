import Charybdis.Foundation.Pattern
import Charybdis.Foundation.Utf8

/-! The sanitizer of `PATH`: what it takes out, and what becomes of a path that is sanitized
again, as it is when one build entrypoint calls another. -/

namespace Charybdis.Scripts

open Foundation

/-- The variables the sanitizer looks at besides `PATH`. -/
structure BuildSettings where
  allowForeignEnv : Option Bytes := none
  condaPrefix : Option Bytes := none

/-- The path a sanitizer leaves, and the lines it writes to the standard error stream. -/
structure Sanitized where
  path : Option Bytes
  report : List Bytes := []

section Sanitizer

variable (settings : BuildSettings)

/-- `"${CONDA_PREFIX:-}/bin"`. -/
def prefixBin : Bytes := settings.condaPrefix.getD [] ++ ascii "/bin"

/-- The patterns of the `case` before the last one. -/
def envPattern : Pattern UInt8 :=
  .alt (.chain [.anything, .text (ascii "/envs/"), .anything, .text (ascii "/bin")])
    (.alt (.chain [.anything, .text (ascii "/envs/bin")])
      (.alt (.chain [.anything, .text (ascii "/conda/bin")])
        (.alt (.chain [.anything, .text (ascii "/condabin")])
          (.alt (.chain [.anything, .text (ascii "/miniconda"), .anything, .text (ascii "/bin")])
            (.chain [.anything, .text (ascii "/anaconda"), .anything, .text (ascii "/bin")])))))

def isForeign (entry : Bytes) : Bool := envPattern.accepts entry || entry = prefixBin settings

/-- What `${cleaned[*]:-…}` falls back to. -/
def systemPath : Bytes := ascii "/usr/local/bin:/usr/bin:/bin"

/-- The entries the loop does not skip: the fields of the unquoted `${PATH:-}`, each of them
expanded to the files it matches where it is a pattern. -/
def pathEntries (expand : Bytes → List Bytes) (path : Option Bytes) : List Bytes :=
  (((path.getD []).splitOn 0x3a).flatMap expand).filter (· ≠ [])

/-- What `echo` takes for its options. -/
def isEchoOption : Bytes → Bool
  | 0x2d :: letters => letters ≠ [] && letters.all (· ∈ ascii "neE")
  | _ => false

/-- `$(echo "<word>")`. -/
def echoed (word : Bytes) : Bytes := if isEchoOption word then [] else word.rdropWhile (· = 0x0a)

/-- The warning around the entries that are removed. -/
def foreignReport (removed : List Bytes) : List Bytes :=
  ascii "WARNING: removed foreign conda/pixi entries from PATH:" :: removed.map (ascii "  " ++ ·) ++
    [ascii "The project must be built with the system toolchain; mixing a",
      ascii "conda-forge GCC C++ runtime with the system compiler produces",
      ascii "undefined-reference link errors from libgtest.a.",
      ascii "Set CHARYBDIS_ALLOW_FOREIGN_ENV=1 to bypass this sanitizer.",
      ascii "See CONTRIBUTING.md for details."]

/-- `_charybdis_sanitize_path`. -/
def sanitizePath (expand : Bytes → List Bytes) (path : Option Bytes) : Sanitized :=
  if settings.allowForeignEnv = some (ascii "1") then { path }
  else
    let cleaned := (pathEntries expand path).filter fun entry => !isForeign settings entry
    let removed := (pathEntries expand path).filter (isForeign settings)
    if removed = [] then { path }
    else
      let joined := [0x3a].intercalate cleaned
      { path := some (echoed (if joined = [] then systemPath else joined)), report := foreignReport removed }

end Sanitizer

/-! ### Paths without surprises -/

/-- The bytes that make a word a pattern. -/
def globBytes : Bytes := ascii "*?[\\"

/-- A word that is no pattern is left as it is. -/
def Literal (expand : Bytes → List Bytes) : Prop :=
  ∀ word, (∀ byte ∈ word, byte ∉ globBytes) → expand word = [word]

/-- The directories of a path. -/
def fieldsOf (path : Bytes) : List Bytes := (path.splitOn 0x3a).filter (· ≠ [])

/-- No pattern, no newline, and no directory that `echo` takes for an option. -/
structure PlainPath (path : Bytes) : Prop where
  literal : ∀ byte ∈ path, byte ∉ globBytes
  oneLine : 0x0a ∉ path
  options : ∀ field ∈ fieldsOf path, isEchoOption field = false

def systemDirs : List Bytes := [ascii "/usr/local/bin", ascii "/usr/bin", ascii "/bin"]

def keptFields (settings : BuildSettings) (path : Bytes) : List Bytes :=
  (fieldsOf path).filter fun field => !isForeign settings field

/-- Every directory there is gets removed, and one of those that take their place is to be
removed the next time. -/
structure Stranded (settings : BuildSettings) (path : Bytes) : Prop where
  some : fieldsOf path ≠ []
  foreign : ∀ field ∈ fieldsOf path, isForeign settings field = true
  fallback : prefixBin settings ∈ systemDirs

section Fields

variable {path : Bytes} {fields : List Bytes}

private theorem mem_splitOn {field : Bytes} (member : field ∈ path.splitOn 0x3a) :
    0x3a ∉ field ∧ ∀ byte ∈ field, byte ∈ path := by
  induction path generalizing field with
  | nil =>
    rw [List.splitOn_nil, List.mem_singleton] at member
    subst member
    simp
  | cons byte rest ih =>
    rw [List.splitOn_cons_eq_if_modifyHead] at member
    split at member
    · rcases List.mem_cons.mp member with rfl | later
      · simp
      · exact ⟨(ih later).1, fun other inside => List.mem_cons_of_mem _ ((ih later).2 other inside)⟩
    · rename_i other
      obtain ⟨first, others, split⟩ := List.exists_cons_of_ne_nil (List.splitOn_ne_nil 0x3a rest)
      rw [split, List.modifyHead_cons] at member
      rcases List.mem_cons.mp member with rfl | later
      · have own := ih (split ▸ List.mem_cons_self : first ∈ rest.splitOn 0x3a)
        have different : (0x3a : UInt8) ≠ byte := fun same => other (beq_iff_eq.mpr same.symm)
        refine ⟨by simp [different, own.1], List.forall_mem_cons.mpr ⟨List.mem_cons_self, ?_⟩⟩
        exact fun symbol inside => List.mem_cons_of_mem _ (own.2 symbol inside)
      · have own := ih (split ▸ List.mem_cons_of_mem _ later : field ∈ rest.splitOn 0x3a)
        exact ⟨own.1, fun symbol inside => List.mem_cons_of_mem _ (own.2 symbol inside)⟩

theorem mem_fieldsOf (member : field ∈ fieldsOf path) :
    field ≠ [] ∧ 0x3a ∉ field ∧ ∀ byte ∈ field, byte ∈ path := by
  obtain ⟨inside, nonempty⟩ := List.mem_filter.mp member
  exact ⟨of_decide_eq_true nonempty, mem_splitOn inside⟩

theorem pathEntries_eq_fieldsOf (literal : Literal expand) (plain : ∀ byte ∈ path, byte ∉ globBytes) :
    pathEntries expand (some path) = fieldsOf path := by
  have alone : ∀ field ∈ path.splitOn 0x3a, expand field = [field] := fun field member =>
    literal field fun byte inside => plain byte ((mem_splitOn member).2 byte inside)
  rw [pathEntries, Option.getD_some, List.flatMap_congr alone, List.flatMap_singleton', fieldsOf]

theorem fieldsOf_join (solid : ∀ field ∈ fields, field ≠ [] ∧ 0x3a ∉ field) (full : fields ≠ []) :
    fieldsOf ([0x3a].intercalate fields) = fields := by
  rw [fieldsOf, List.splitOn_intercalate 0x3a (fun field member => (solid field member).2) full]
  exact List.filter_eq_self.mpr fun field member => decide_eq_true (solid field member).1

private theorem mem_join (member : byte ∈ [0x3a].intercalate fields) :
    byte = 0x3a ∨ ∃ field ∈ fields, byte ∈ field := by
  induction fields with
  | nil => cases member
  | cons first rest ih =>
    cases rest with
    | nil =>
      rw [List.intercalate_singleton] at member
      exact .inr ⟨first, List.mem_cons_self, member⟩
    | cons second later =>
      rw [List.intercalate_cons_cons, List.mem_append, List.mem_append, List.mem_singleton] at member
      rcases member with (own | colon) | rest
      · exact .inr ⟨first, List.mem_cons_self, own⟩
      · exact .inl colon
      · exact (ih rest).imp_right fun ⟨field, inside, own⟩ => ⟨field, List.mem_cons_of_mem _ inside, own⟩

private theorem colon_not_mem_option {word : Bytes} (option : isEchoOption word = true) : 0x3a ∉ word := by
  unfold isEchoOption at option
  split at option
  · simp only [Bool.and_eq_true, List.all_eq_true, decide_eq_true_eq] at option
    intro colon
    rcases List.mem_cons.mp colon with same | inside
    · cases same
    · exact absurd (option.2 _ inside) (by decide)
  · cases option

theorem PlainPath.echoed (plain : PlainPath path) (option : isEchoOption path = false) : echoed path = path := by
  rw [Scripts.echoed, if_neg (by simp [option])]
  refine List.rdropWhile_eq_self_iff.mpr fun nonempty last => plain.oneLine ?_
  rw [← of_decide_eq_true last]
  exact List.getLast_mem nonempty

theorem PlainPath.join (plain : PlainPath path) (inside : ∀ field ∈ fields, field ∈ fieldsOf path)
    (full : fields ≠ []) :
    PlainPath ([0x3a].intercalate fields) ∧ fieldsOf ([0x3a].intercalate fields) = fields ∧
      isEchoOption ([0x3a].intercalate fields) = false := by
  have same : fieldsOf ([0x3a].intercalate fields) = fields := by
    refine fieldsOf_join (fun field member => ?_) full
    have solid := mem_fieldsOf (inside field member)
    exact ⟨solid.1, solid.2.1⟩
  refine ⟨⟨fun byte member => ?_, fun newline => ?_, ?_⟩, same, ?_⟩
  · rcases mem_join member with colon | ⟨field, listed, own⟩
    · rw [colon]
      decide
    · exact plain.literal byte ((mem_fieldsOf (inside field listed)).2.2 byte own)
  · rcases mem_join newline with colon | ⟨field, listed, own⟩
    · cases colon
    · exact plain.oneLine ((mem_fieldsOf (inside field listed)).2.2 _ own)
  · rw [same]
    exact fun field member => plain.options field (inside field member)
  · cases fields with
    | nil => exact absurd rfl full
    | cons first rest =>
      cases rest with
      | nil =>
        rw [List.intercalate_singleton]
        exact plain.options first (inside first List.mem_cons_self)
      | cons second later =>
        refine Bool.eq_false_iff.mpr fun option => colon_not_mem_option option ?_
        rw [List.intercalate_cons_cons]
        simp

end Fields

/-! ### Sanitizing again -/

section Again

variable {settings : BuildSettings} {expand : Bytes → List Bytes} {path : Bytes}

private theorem systemPath_plain : PlainPath systemPath where
  literal := by decide +kernel
  oneLine := by decide
  options := by decide

private theorem fieldsOf_systemPath : fieldsOf systemPath = systemDirs := by
  decide

private theorem foreign_systemDir (member : field ∈ systemDirs) :
    isForeign settings field = true ↔ field = prefixBin settings := by
  have outside : ∀ field ∈ systemDirs, envPattern.accepts field = false := by decide
  rw [isForeign, outside field member, Bool.false_or, decide_eq_true_eq]

/-- What the sanitizer makes of the directories. -/
private def nextFields (settings : BuildSettings) (path : Bytes) : List Bytes :=
  if fieldsOf path ≠ [] ∧ keptFields settings path = [] then systemDirs else keptFields settings path

private theorem removed_eq_nil_iff : (fieldsOf path).filter (isForeign settings) = [] ↔
    ∀ field ∈ fieldsOf path, isForeign settings field = false := by
  simp only [List.filter_eq_nil_iff, Bool.not_eq_true]

private theorem keptFields_of_clean (clean : ∀ field ∈ fieldsOf path, isForeign settings field = false) :
    keptFields settings path = fieldsOf path :=
  List.filter_eq_self.mpr fun field member => by rw [clean field member]; rfl

private theorem sanitize_clean (literal : Literal expand) (plain : PlainPath path)
    (clean : ∀ field ∈ fieldsOf path, isForeign settings field = false) :
    (sanitizePath settings expand (some path)).path = some path := by
  unfold sanitizePath
  split
  · rfl
  · simp only [pathEntries_eq_fieldsOf literal plain.literal, removed_eq_nil_iff.mpr clean, ↓reduceIte]

private theorem sanitize_fields (on : settings.allowForeignEnv ≠ some (ascii "1")) (literal : Literal expand)
    (plain : PlainPath path) : ∃ next, (sanitizePath settings expand (some path)).path = some next ∧
      PlainPath next ∧ fieldsOf next = nextFields settings path := by
  by_cases clean : ∀ field ∈ fieldsOf path, isForeign settings field = false
  · refine ⟨path, sanitize_clean literal plain clean, plain, ?_⟩
    unfold nextFields
    rw [keptFields_of_clean clean, if_neg fun both => both.1 both.2]
  · have removed : (fieldsOf path).filter (isForeign settings) ≠ [] := mt removed_eq_nil_iff.mp clean
    have full : fieldsOf path ≠ [] := fun none => removed (by rw [none]; rfl)
    unfold sanitizePath
    rw [if_neg on]
    simp only [pathEntries_eq_fieldsOf literal plain.literal, if_neg removed]
    have listed : ∀ field ∈ keptFields settings path, field ∈ fieldsOf path :=
      fun _ member => List.mem_of_mem_filter member
    by_cases none : keptFields settings path = []
    · refine ⟨systemPath, ?_, systemPath_plain, ?_⟩
      · rw [show (fieldsOf path).filter _ = _ from none]
        exact congrArg some (systemPath_plain.echoed (by decide))
      · rw [fieldsOf_systemPath, nextFields, if_pos ⟨full, none⟩]
    · obtain ⟨again, same, option⟩ := plain.join listed none
      have solid : [0x3a].intercalate (keptFields settings path) ≠ [] := by
        intro empty
        rw [empty] at same
        exact none (same.symm.trans (by decide))
      refine ⟨[0x3a].intercalate (keptFields settings path), ?_, again, ?_⟩
      · rw [show (fieldsOf path).filter (fun entry => !isForeign settings entry) = keptFields settings path from rfl,
          if_neg solid, again.echoed option]
      · rw [same, nextFields, if_neg fun both => none both.2]

private theorem keptFields_eq_nil_iff : keptFields settings path = [] ↔
    ∀ field ∈ fieldsOf path, isForeign settings field = true := by
  simp only [keptFields, List.filter_eq_nil_iff, Bool.not_eq_true', Bool.not_eq_false]

private theorem nextFields_clean_iff : (∀ field ∈ nextFields settings path, isForeign settings field = false) ↔
    ¬ Stranded settings path := by
  unfold nextFields
  split
  · rename_i emptied
    obtain ⟨full, none⟩ := emptied
    have foreign := keptFields_eq_nil_iff.mp none
    constructor
    · intro clean stranded
      have own := (foreign_systemDir stranded.fallback).mpr rfl
      rw [clean _ stranded.fallback] at own
      cases own
    · intro free field member
      refine Bool.eq_false_iff.mpr fun own => free ⟨full, foreign, ?_⟩
      rw [← (foreign_systemDir member).mp own]
      exact member
  · rename_i left
    refine iff_of_true (fun field member => ?_) fun stranded => ?_
    · have own := List.of_mem_filter member
      rwa [Bool.not_eq_true'] at own
    · exact left ⟨stranded.some, keptFields_eq_nil_iff.mpr stranded.foreign⟩

private theorem exists_clean (some : nextFields settings path ≠ []) :
    ∃ field ∈ nextFields settings path, isForeign settings field = false := by
  unfold nextFields at some ⊢
  split
  · -- the three fallbacks are not all the one directory below the prefix
    by_cases own : ascii "/usr/bin" = prefixBin settings
    · refine ⟨ascii "/bin", by decide, Bool.eq_false_iff.mpr fun foreign => ?_⟩
      have second := (foreign_systemDir (by decide)).mp foreign
      exact absurd (own.trans second.symm) (by decide)
    · refine ⟨ascii "/usr/bin", by decide, Bool.eq_false_iff.mpr fun foreign => ?_⟩
      exact own ((foreign_systemDir (by decide)).mp foreign)
  · rename_i left
    rw [if_neg left] at some
    obtain ⟨field, member⟩ := List.exists_mem_of_ne_nil _ some
    have own := List.of_mem_filter member
    rw [Bool.not_eq_true'] at own
    exact ⟨field, member, own⟩

private theorem sanitize_changes (on : settings.allowForeignEnv ≠ some (ascii "1")) (literal : Literal expand)
    (plain : PlainPath path) (member : field ∈ fieldsOf path) (foreign : isForeign settings field = true) :
    (sanitizePath settings expand (some path)).path ≠ some path := by
  obtain ⟨next, sanitized, _, fields⟩ := sanitize_fields on literal plain
  rw [sanitized]
  intro same
  rw [Option.some.inj same] at fields
  have same : nextFields settings path = keptFields settings path := by
    unfold nextFields
    refine if_neg fun emptied => ?_
    obtain ⟨other, inside, clean⟩ := exists_clean (fields ▸ emptied.1)
    rw [keptFields_eq_nil_iff.mp emptied.2 other (fields ▸ inside)] at clean
    cases clean
  rw [fields, same] at member
  have own := List.of_mem_filter member
  rw [foreign] at own
  cases own

/-- Sanitizing keeps the directories of a path that are not foreign, in their order. The result
is clean, and is left alone the next time, unless every directory was foreign and one of the
fallbacks is foreign as well: without a conda prefix that is `/bin`. The result of a second
sanitization is clean in any case. -/
theorem sanitizePath_settles (settings : BuildSettings) (expand : Bytes → List Bytes) (path : Bytes)
    (on : settings.allowForeignEnv ≠ some (ascii "1")) (literal : Literal expand) (plain : PlainPath path) :
    let again := fun path => (sanitizePath settings expand path).path
    let once := again (some path)
    pathEntries expand once =
      (if fieldsOf path ≠ [] ∧ keptFields settings path = [] then systemDirs else keptFields settings path) ∧
    ((∀ entry ∈ pathEntries expand once, isForeign settings entry = false) ↔ ¬ Stranded settings path) ∧
    (again once = once ↔ ¬ Stranded settings path) ∧ again (again once) = again once := by
  intro again once
  obtain ⟨next, sanitized, nextPlain, fields⟩ := sanitize_fields on literal plain
  have first : once = some next := sanitized
  have directories : pathEntries expand once = nextFields settings path := by
    rw [first, pathEntries_eq_fieldsOf literal nextPlain.literal, fields]
  refine ⟨directories, by rw [directories]; exact nextFields_clean_iff, ?_, ?_⟩
  · rw [first, ← nextFields_clean_iff, ← fields]
    constructor
    · intro same field member
      exact Bool.eq_false_iff.mpr fun foreign => sanitize_changes on literal nextPlain member foreign same
    · exact sanitize_clean literal nextPlain
  · obtain ⟨last, lastSanitized, lastPlain, lastFields⟩ := sanitize_fields on literal nextPlain
    have second : again once = some last := by rw [first]; exact lastSanitized
    rw [second]
    refine sanitize_clean literal lastPlain ?_
    rw [lastFields]
    refine nextFields_clean_iff.mpr fun stranded => ?_
    obtain ⟨field, member, clean⟩ := exists_clean (fields ▸ stranded.some)
    rw [stranded.foreign field (fields ▸ member)] at clean
    cases clean

end Again

/-! ### A path that is sanitized twice -/

theorem singleton_literal : Literal List.singleton := fun _ _ => rfl

/-- Without a conda prefix `/bin` is foreign, and the second run takes it out of what the first
one fell back to. -/
theorem fallback_is_not_kept :
    let again := fun path => (sanitizePath {} List.singleton path).path
    again (again (some (ascii "/opt/conda/bin:/bin"))) ≠ again (some (ascii "/opt/conda/bin:/bin")) := by
  have plain : PlainPath (ascii "/opt/conda/bin:/bin") :=
    ⟨by decide +kernel, by decide +kernel, by decide +kernel⟩
  have settles := sanitizePath_settles {} List.singleton (ascii "/opt/conda/bin:/bin") (by simp) singleton_literal plain
  exact mt settles.2.2.1.mp (not_not.mpr ⟨by decide, by decide, by decide⟩)

end Charybdis.Scripts
