import Charybdis.Foundation.JsonString

/-! Where the audit log goes: the value of `CHAOS_AUDIT_LOG`, the file system, and the
warning a construction may leave on the standard error stream. -/

namespace Charybdis.Audit

open Foundation

/-- What the constructor asks the file system: the canonical form of a path, unless that
fails, and whether a path can be opened for appending. -/
structure FileSystem where
  weaklyCanonical : Bytes → Option Bytes
  opens : Bytes → Bool

/-- The file that is open, if any, and the text `path()` returns. -/
structure ChaosAuditLog where
  file : Option Bytes := none
  path : Bytes := []

/-- One of the components of the path is the parent directory. -/
def traverses (dest : Bytes) : Bool := (dest.splitOn 0x2f).contains (ascii "..")

def openPath (files : FileSystem) (dest : Bytes) : Bytes := (files.weaklyCanonical dest).getD dest

/-- The literals the constructor writes around a warning. -/
def warningLine (text : Bytes) : Bytes :=
  ascii "\x7b\"chaos_audit_warning\":\"" ++ text ++ ascii "\"\x7d"

def embeddedNulWarning : Bytes := ascii "CHAOS_AUDIT_LOG contains embedded NUL; falling back to stderr"

def traversalWarning : Bytes :=
  ascii "CHAOS_AUDIT_LOG rejects parent-directory traversal; falling back to stderr"

/-- The path goes into the line byte for byte. -/
def openWarning (path : Bytes) : Bytes :=
  ascii "failed to open CHAOS_AUDIT_LOG=" ++ path ++ ascii "; falling back to stderr"

/-- The constructor: the object, and what it wrote to the standard error stream. -/
def ChaosAuditLog.make (files : FileSystem) : Option Bytes → ChaosAuditLog × Bytes
  | none => ({}, [])
  | some dest =>
    if dest = [] ∨ dest = ascii "-" ∨ dest = ascii "stderr" then ({}, [])
    -- no value of an environment variable holds a NUL
    else if 0x00 ∈ dest then ({}, warningLine embeddedNulWarning ++ [0x0a])
    else if traverses dest then ({}, warningLine traversalWarning ++ [0x0a])
    else if files.opens (openPath files dest) then
      ({ file := some (openPath files dest), path := dest }, [])
    else ({}, warningLine (openWarning (openPath files dest)) ++ [0x0a])

/-- The values that name a file. -/
def NamesFile (dest : Bytes) : Prop := dest ≠ [] ∧ dest ≠ ascii "-" ∧ dest ≠ ascii "stderr"

/-- The constructor gets as far as opening a file, and the file system refuses. -/
def FailsToOpen (files : FileSystem) (dest : Bytes) : Prop :=
  NamesFile dest ∧ 0x00 ∉ dest ∧ traverses dest = false ∧ files.opens (openPath files dest) = false

/-- A single line that is an object with one member, the warning. -/
def OneWarning (written : Bytes) : Prop :=
  ∃ line value, written = line ++ [0x0a] ∧ 0x0a ∉ line ∧
    JsonText.objectMembers line = some [(ascii "chaos_audit_warning", value)]

/-- What a construction leaves behind: nothing or one warning, a warning exactly when a
file was named and is not open, and the name kept exactly when records go to the file. -/
structure SoundConstruction (files : FileSystem) (dest : Option Bytes)
    (made : ChaosAuditLog × Bytes) : Prop where
  oneWarning : made.2 = [] ∨ OneWarning made.2
  warned : made.2 ≠ [] ↔ (∃ value, dest = some value ∧ NamesFile value) ∧ made.1.file = none
  unnamed : made.2 ≠ [] → made.1.path = []
  kept : ∀ value, dest = some value → value ≠ [] →
    (made.1.path = value ↔ made.1.file = some (openPath files value))

/-! ### The warning lines -/

private theorem stringBody_key :
    JsonText.StringBody (ascii "chaos_audit_warning") (ascii "chaos_audit_warning") :=
  JsonText.stringBody_plain (by decide)

private theorem oneWarning_iff (text : Bytes) :
    OneWarning (warningLine text ++ [0x0a]) ↔ JsonText.Quotable text := by
  have shape : warningLine text =
      0x7b :: 0x22 :: (ascii "chaos_audit_warning" ++ 0x22 :: 0x3a :: 0x22 :: (text ++ [0x22, 0x7d])) := by
    have opening : ascii "\x7b\"chaos_audit_warning\":\"" =
        0x7b :: 0x22 :: (ascii "chaos_audit_warning" ++ [0x22, 0x3a, 0x22]) := by decide +kernel
    rw [warningLine, opening]
    simp [show ascii "\"\x7d" = [0x22, 0x7d] from rfl]
  have read (value : JsonText.Value) :
      JsonText.objectMembers (warningLine text) = some [(ascii "chaos_audit_warning", value)] ↔
        ∃ decoded, (ascii "chaos_audit_warning", value) = (ascii "chaos_audit_warning", .string decoded) ∧
          JsonText.StringBody text decoded ∧ Utf8.Valid decoded := by
    rw [shape]
    exact JsonText.objectMembers_spliced stringBody_key (by decide)
  constructor
  · rintro ⟨line, value, written, _, members⟩
    have same : warningLine text = line := by simpa using written
    subst same
    obtain ⟨decoded, _, body, valid⟩ := (read value).mp members
    exact ⟨decoded, body, valid⟩
  · rintro ⟨decoded, body, valid⟩
    refine ⟨warningLine text, .string decoded, rfl, ?_, (read _).mpr ⟨decoded, rfl, body, valid⟩⟩
    simp only [warningLine, List.mem_append, not_or]
    exact ⟨⟨by decide, body.newline_not_mem⟩, by decide⟩

private theorem quotable_openWarning (path : Bytes) :
    JsonText.Quotable (openWarning path) ↔ JsonText.Quotable path := by
  have shape : openWarning path =
      ascii "failed to open CHAOS_AUDIT_LOG" ++ 0x3d :: (path ++ 0x3b :: ascii " falling back to stderr") := by
    have opening : ascii "failed to open CHAOS_AUDIT_LOG=" =
        ascii "failed to open CHAOS_AUDIT_LOG" ++ [0x3d] := by decide +kernel
    rw [openWarning, opening]
    simp [show ascii "; falling back to stderr" = 0x3b :: ascii " falling back to stderr" from rfl]
  have start : JsonText.Quotable (ascii "failed to open CHAOS_AUDIT_LOG") :=
    JsonText.quotable_plain (by decide) (by decide)
  have ending : JsonText.Quotable (ascii " falling back to stderr") :=
    JsonText.quotable_plain (by decide) (by decide)
  rw [shape, JsonText.quotable_append_cons (by decide) (by decide) (by decide),
    JsonText.quotable_append_cons (by decide) (by decide) (by decide)]
  simp [start, ending]

/-! ### Constructions -/

private theorem sound_warned (names : NamesFile value) :
    SoundConstruction files (some value) ({}, warningLine text ++ [0x0a]) ↔ JsonText.Quotable text := by
  rw [← oneWarning_iff]
  constructor
  · intro sound
    exact sound.oneWarning.resolve_left (by simp)
  intro warning
  refine ⟨.inr warning, by simpa using names, fun _ => rfl, ?_⟩
  intro other same nonempty
  simp [Ne.symm nonempty]

private theorem sound_silent (unnamed : ∀ value, dest = some value → ¬ NamesFile value) :
    SoundConstruction files dest ({}, []) := by
  refine ⟨.inl rfl, ?_, fun _ => rfl, ?_⟩
  · constructor
    · intro written
      exact absurd rfl written
    · rintro ⟨⟨value, given, names⟩, _⟩
      exact absurd names (unnamed value given)
  · intro value _ nonempty
    simp [Ne.symm nonempty]

private theorem sound_opened (files : FileSystem) (dest : Bytes) :
    SoundConstruction files (some dest) ({ file := some (openPath files dest), path := dest }, []) := by
  refine ⟨.inl rfl, by simp, by simp, ?_⟩
  intro value given _
  cases given
  simp

/-- A construction leaves one well-formed warning or none, whatever the variable holds and
however opening ends, unless the path that was tried cannot be quoted. -/
theorem construction_is_sound_iff (files : FileSystem) (dest : Option Bytes) :
    SoundConstruction files dest (ChaosAuditLog.make files dest) ↔
      ∀ value, dest = some value → FailsToOpen files value → JsonText.Quotable (openPath files value) := by
  cases dest with
  | none =>
    have silent : SoundConstruction files none ({}, []) := sound_silent (by simp)
    simpa [ChaosAuditLog.make] using silent
  | some dest =>
    simp only [Option.some.injEq, forall_eq']
    by_cases names : NamesFile dest
    · have named : ¬ (dest = [] ∨ dest = ascii "-" ∨ dest = ascii "stderr") := by
        simpa [NamesFile] using names
      rw [ChaosAuditLog.make, if_neg named]
      by_cases nul : 0x00 ∈ dest
      · rw [if_pos nul, sound_warned names]
        have fixed : JsonText.Quotable embeddedNulWarning :=
          JsonText.quotable_plain (by decide) (by decide)
        exact ⟨fun _ fails => absurd nul fails.2.1, fun _ => fixed⟩
      · rw [if_neg nul]
        by_cases parent : traverses dest = true
        · rw [if_pos parent, sound_warned names]
          have fixed : JsonText.Quotable traversalWarning :=
            JsonText.quotable_plain (by decide) (by decide)
          refine ⟨fun _ fails => ?_, fun _ => fixed⟩
          rw [fails.2.2.1] at parent
          cases parent
        · rw [if_neg parent]
          by_cases opened : files.opens (openPath files dest) = true
          · rw [if_pos opened]
            refine ⟨fun _ fails => ?_, fun _ => sound_opened files dest⟩
            rw [fails.2.2.2] at opened
            cases opened
          · rw [if_neg opened, sound_warned names, quotable_openWarning]
            have fails : FailsToOpen files dest :=
              ⟨names, nul, Bool.not_eq_true _ ▸ parent, Bool.not_eq_true _ ▸ opened⟩
            exact ⟨fun quotable _ => quotable, fun quotable => quotable fails⟩
    · have unnamed : dest = [] ∨ dest = ascii "-" ∨ dest = ascii "stderr" := by
        by_contra other
        push Not at other
        exact names other
      rw [ChaosAuditLog.make, if_pos unnamed]
      refine ⟨fun _ fails => absurd fails.1 names, fun _ => sound_silent ?_⟩
      intro value given
      cases given
      exact names

/-- Nothing can be opened here, and every path is canonical. -/
def readOnlyFiles : FileSystem := ⟨some, fun _ => false⟩

/-- A quote in the path ends the warning; what follows it is a second member. -/
theorem path_forges_a_member :
    ¬ SoundConstruction readOnlyFiles (some (ascii "/x/\",\"action\":\"inject"))
      (ChaosAuditLog.make readOnlyFiles (some (ascii "/x/\",\"action\":\"inject"))) := by
  intro sound
  have warning := sound.oneWarning
  have written : (ChaosAuditLog.make readOnlyFiles (some (ascii "/x/\",\"action\":\"inject"))).2 =
      warningLine (openWarning (ascii "/x/\",\"action\":\"inject")) ++ [0x0a] := by decide +kernel
  have members : (JsonText.objectMembers (warningLine (openWarning (ascii "/x/\",\"action\":\"inject")))).map
      List.length = some 2 := by decide +kernel
  rw [written] at warning
  rcases warning with silent | ⟨line, value, same, _, single⟩
  · simp at silent
  · have whole : warningLine (openWarning (ascii "/x/\",\"action\":\"inject")) = line := by simpa using same
    rw [whole, single] at members
    cases members

end Charybdis.Audit
