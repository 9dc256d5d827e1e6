import Charybdis.Client.SubjectFilter
import Charybdis.Foundation.SubjectPattern

/-! What a subject that passed the filter can reach once the server reads it as a pattern. -/

namespace Charybdis.Client

open Foundation

/-- The matching rules of the message server: tokens between dots, `*` for one token, a
final `>` for one or more. -/
def subjectMatches (subject concrete : Bytes) : Bool :=
  SubjectPattern.textMatches 0x2e 0x2a 0x3e subject concrete

example : subjectMatches (ascii "hi.*.>") (ascii "hi.test.a.b") = true := by decide +kernel

example : subjectMatches (ascii "hi.test.>") (ascii "hi.test") = false := by decide +kernel

/-- A filtered subject reaches nothing that does not start with the configured text,
wherever in a token that text ends. The empty text allows no subject at all. -/
theorem allowed_subject_is_confined (configured subject concrete : Bytes) (noAny : 0x2a ∉ configured)
    (noRest : 0x3e ∉ configured) (allowed : subjectAllowed subject configured = true)
    (matched : subjectMatches subject concrete = true) : configured <+: concrete := by
  obtain ⟨_, _, starts⟩ := subjectAllowed_iff.mp allowed
  exact SubjectPattern.stem_of_textMatches noAny noRest starts matched

/-- The configured text ends inside a token and the subject goes on with wildcards. -/
theorem wildcards_keep_half_a_token :
    subjectAllowed (ascii "hi.test.*.>") (ascii "hi.te") = true ∧
      subjectMatches (ascii "hi.test.*.>") (ascii "hi.test.task.7") = true ∧
      ascii "hi.te" <+: ascii "hi.test.task.7" := by
  have allowed : subjectAllowed (ascii "hi.test.*.>") (ascii "hi.te") = true := by decide
  have matched : subjectMatches (ascii "hi.test.*.>") (ascii "hi.test.task.7") = true := by decide +kernel
  exact ⟨allowed, matched,
    allowed_subject_is_confined (ascii "hi.te") _ _ (by decide) (by decide) allowed matched⟩

end Charybdis.Client
