import Charybdis.Client.Nlohmann

namespace Charybdis.Client

open Foundation

/-- The environment variables the client and its audit log read. -/
inductive EnvVar where
  | agamemnonUrl
  | charybdisSubjectPrefix
  | charybdisSubjectFilterDisabled
  | chaosAuditRequester
  | user
  deriving DecidableEq

/-- `getenv`: a variable is unset, or set to a possibly empty string. -/
abbrev Environment := EnvVar → Option Bytes

inductive ChaosError where
  | subjectFilterViolation (what : Bytes)
  | subjectFilterConfigError (what : Bytes)
  | json (error : JsonError)
  deriving DecidableEq

/-- The shipped build-time default, `CHARYBDIS_SUBJECT_PREFIX_DEFAULT`. -/
def kDefaultSubjectPrefix : Bytes := ascii "hi.test."

def subjectFilterDisabled (env : Environment) : Bool :=
  env .charybdisSubjectFilterDisabled = some (ascii "1")

def subjectPrefix (env : Environment) : Bytes :=
  (env .charybdisSubjectPrefix).getD kDefaultSubjectPrefix

def subjectAllowed (subject configured : Bytes) : Bool :=
  !configured.isEmpty && !subject.isEmpty && configured.isPrefixOf subject

def emptyPrefixMessage : Bytes :=
  ascii "CHARYBDIS_SUBJECT_PREFIX is empty but CHARYBDIS_SUBJECT_FILTER_DISABLED is not set " ++
    [0xE2, 0x80, 0x94] ++
    ascii " set CHARYBDIS_SUBJECT_FILTER_DISABLED=1 to explicitly disable the subject filter"

def mismatchMessage (faultType subject configured : Bytes) : Bytes :=
  ascii "Charybdis subject filter: " ++ faultType ++ ascii " target must match prefix '" ++
    configured ++ ascii "', got '" ++ subject ++ ascii "'"

def requireSubjectAllowed (env : Environment) (faultType subject : Bytes) : Except ChaosError Unit :=
  if subjectFilterDisabled env then .ok ()
  else
    let configured := subjectPrefix env
    if configured.isEmpty then .error (.subjectFilterConfigError emptyPrefixMessage)
    else if !subjectAllowed subject configured then
      .error (.subjectFilterViolation (mismatchMessage faultType subject configured))
    else .ok ()

theorem subjectAllowed_iff :
    subjectAllowed subject configured = true ↔
      configured ≠ [] ∧ subject ≠ [] ∧ configured <+: subject := by
  simp [subjectAllowed, and_assoc]

/-- The guard lets a subject through exactly when the filter is off or the subject
starts with the configured prefix. -/
theorem requireSubjectAllowed_ok_iff :
    requireSubjectAllowed env faultType subject = .ok () ↔
      subjectFilterDisabled env = true ∨ subjectAllowed subject (subjectPrefix env) = true := by
  unfold requireSubjectAllowed
  by_cases disabled : subjectFilterDisabled env = true
  · simp [disabled]
  · by_cases empty : subjectPrefix env = []
    · simp [disabled, empty, subjectAllowed]
    · by_cases allowed : subjectAllowed subject (subjectPrefix env) = true
      · simp [allowed, empty]
      · simp [disabled, empty, allowed]

end Charybdis.Client
