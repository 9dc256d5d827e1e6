import Charybdis.Client.BreakerHistory

/-! The language of the queue-starve gate: which bodies go out on the guarded path, and
what the others are refused with. -/

namespace Charybdis.Client

open Foundation

variable {ω ν : Type} {json : Nlohmann ν} {client : HttpTestClient} {env : Environment}

/-- The value is an object with this non-empty string as its subject. -/
def HasSubject (value : Json Bytes ν) (subject : Bytes) : Prop :=
  ∃ members, value = .object members ∧ members.lookup (ascii "subject") = some (.string subject) ∧ subject ≠ []

def SubjectPermitted (env : Environment) (subject : Bytes) : Prop :=
  subjectFilterDisabled env = true ∨ subjectPrefix env ≠ [] ∧ subjectPrefix env <+: subject

/-- The filter is on and has nothing to compare with. -/
def Unconfigured (env : Environment) : Prop :=
  subjectFilterDisabled env = false ∧ subjectPrefix env = []

/-- The documented language of the gate. -/
def InLanguage (json : Nlohmann ν) (env : Environment) (body : Bytes) : Prop :=
  ∃ value subject, json.parse body = .ok value ∧ HasSubject value subject ∧ SubjectPermitted env subject

/-- The refusals the gate is meant to make: a configuration error where a subject was given
and there is no prefix, a violation everywhere else. -/
def ProperRefusal (json : Nlohmann ν) (env : Environment) (body : Bytes) (error : ChaosError) : Prop :=
  let unchecked := Unconfigured env ∧ ∃ value subject, json.parse body = .ok value ∧ HasSubject value subject
  (unchecked ∧ ∃ what, error = .subjectFilterConfigError what) ∨
    (¬ unchecked ∧ ∃ what, error = .subjectFilterViolation what)

/-- The call is not stopped before its retry loop, which makes its result. -/
def ReachesRetryLoop (client : HttpTestClient) (json : Nlohmann ν) (around : Surroundings ω)
    (env : Environment) (call : Call ν) (session : Session ω) : Prop :=
  ∃ request, client.request json env call = .ok request ∧
    let ran := runWithRetry json client.retry client.breakerCfg around request session
    client.perform json around env call session = ⟨.ok ran.response, ran.session, ran.events⟩

/-- What `post_raw` on the guarded path should do with a body. -/
structure KeepsLanguage (client : HttpTestClient) (json : Nlohmann ν) (around : Surroundings ω)
    (env : Environment) (body contentType : Bytes) (session : Session ω) : Prop where
  accepted : ReachesRetryLoop client json around env (.postRaw queueStarvePath body contentType) session ↔
    InLanguage json env body
  /-- A refusal leaves the breaker, the clock and the wire as they were. -/
  refused : ¬ InLanguage json env body → ∃ error,
    client.perform json around env (.postRaw queueStarvePath body contentType) session =
      ⟨.error error, session, []⟩ ∧ ProperRefusal json env body error

/-! ### The gate itself -/

theorem hasSubject_iff {value : Json Bytes ν} :
    HasSubject value subject ↔ queueStarveSubject value = subject ∧ subject ≠ [] := by
  constructor
  · intro ⟨members, shape, found, nonempty⟩
    exact ⟨by simp [shape, queueStarveSubject, found], nonempty⟩
  · intro ⟨read, nonempty⟩
    unfold queueStarveSubject at read
    split at read
    · rename_i members
      split at read
      · rename_i found
        exact ⟨members, rfl, read ▸ found, nonempty⟩
      · exact absurd read.symm nonempty
    · exact absurd read.symm nonempty

theorem enforceQueueStarveSubject_cases (env : Environment) (subject : Bytes) :
    (subject = [] ∧ enforceQueueStarveSubject env subject = .error (.subjectFilterViolation missingSubjectMessage)) ∨
    (subject ≠ [] ∧ SubjectPermitted env subject ∧ enforceQueueStarveSubject env subject = .ok ()) ∨
    (subject ≠ [] ∧ ¬ SubjectPermitted env subject ∧ Unconfigured env ∧
      enforceQueueStarveSubject env subject = .error (.subjectFilterConfigError emptyPrefixMessage)) ∨
    (subject ≠ [] ∧ ¬ SubjectPermitted env subject ∧ ¬ Unconfigured env ∧
      ∃ what, enforceQueueStarveSubject env subject = .error (.subjectFilterViolation what)) := by
  by_cases missing : subject = []
  · exact .inl ⟨missing, by simp [enforceQueueStarveSubject, missing]⟩
  · have checked : enforceQueueStarveSubject env subject =
        requireSubjectAllowed env (ascii "queue-starve") subject := by
      simp [enforceQueueStarveSubject, missing]
    rw [checked]
    right
    by_cases disabled : subjectFilterDisabled env = true
    · left
      exact ⟨missing, .inl disabled, by simp [requireSubjectAllowed, disabled]⟩
    · by_cases empty : subjectPrefix env = []
      · right; left
        refine ⟨missing, ?_, ⟨by simpa using disabled, empty⟩, by simp [requireSubjectAllowed, disabled, empty]⟩
        simp [SubjectPermitted, disabled, empty]
      · by_cases starts : subjectPrefix env <+: subject
        · left
          refine ⟨missing, .inr ⟨empty, starts⟩, ?_⟩
          exact requireSubjectAllowed_ok_iff.mpr (.inr (subjectAllowed_iff.mpr ⟨empty, missing, starts⟩))
        · right; right
          refine ⟨missing, ?_, fun unconfigured => empty unconfigured.2, ?_⟩
          · simp [SubjectPermitted, disabled, starts]
          · refine ⟨mismatchMessage (ascii "queue-starve") subject (subjectPrefix env), ?_⟩
            have foreign : subjectAllowed subject (subjectPrefix env) = false := by
              apply Bool.eq_false_iff.mpr
              exact fun allowed => starts (subjectAllowed_iff.mp allowed).2.2
            simp [requireSubjectAllowed, disabled, empty, foreign]

private theorem enforced_parsed (env : Environment) {body : Bytes} {value : Json Bytes ν}
    (parsed : json.parse body = .ok value) :
    (InLanguage json env body ∧ enforceQueueStarveSubject env (queueStarveSubject value) = .ok ()) ∨
    (¬ InLanguage json env body ∧ ∃ error,
      enforceQueueStarveSubject env (queueStarveSubject value) = .error error ∧
        ProperRefusal json env body error) := by
  have subjects {other : Json Bytes ν} {subject : Bytes} (again : json.parse body = .ok other)
      (has : HasSubject other subject) : queueStarveSubject value = subject ∧ subject ≠ [] := by
    cases parsed.symm.trans again
    exact hasSubject_iff.mp has
  rcases enforceQueueStarveSubject_cases env (queueStarveSubject value) with
    ⟨missing, refused⟩ | ⟨given, permitted, passed⟩ | ⟨given, foreign, unconfigured, refused⟩ |
      ⟨given, foreign, configured, what, refused⟩
  · refine .inr ⟨?_, _, refused, .inr ⟨?_, _, rfl⟩⟩
    · intro ⟨other, subject, again, has, _⟩
      obtain ⟨same, nonempty⟩ := subjects again has
      exact nonempty (same.symm.trans missing)
    · intro ⟨_, other, subject, again, has⟩
      obtain ⟨same, nonempty⟩ := subjects again has
      exact nonempty (same.symm.trans missing)
  · exact .inl ⟨⟨value, _, parsed, hasSubject_iff.mpr ⟨rfl, given⟩, permitted⟩, passed⟩
  · refine .inr ⟨?_, _, refused, .inl ⟨⟨unconfigured, value, _, parsed, hasSubject_iff.mpr ⟨rfl, given⟩⟩, _, rfl⟩⟩
    intro ⟨other, subject, again, has, permitted⟩
    exact foreign ((subjects again has).1 ▸ permitted)
  · refine .inr ⟨?_, _, refused, .inr ⟨fun unchecked => configured unchecked.1, _, rfl⟩⟩
    intro ⟨other, subject, again, has, permitted⟩
    exact foreign ((subjects again has).1 ▸ permitted)

/-- Everything the gate can do with a body: besides the documented outcomes, it lets the
parser's `out_of_range` through. -/
theorem postRawGate_cases (json : Nlohmann ν) (env : Environment) (body : Bytes) :
    (json.parse body ≠ .error .outOfRange ∧ InLanguage json env body ∧
      postRawGate json env queueStarvePath body = .ok ()) ∨
    (json.parse body ≠ .error .outOfRange ∧ ¬ InLanguage json env body ∧ ∃ error,
      postRawGate json env queueStarvePath body = .error error ∧ ProperRefusal json env body error) ∨
    (json.parse body = .error .outOfRange ∧ ¬ InLanguage json env body ∧
      postRawGate json env queueStarvePath body = .error (.json .outOfRange)) := by
  cases parsed : json.parse body with
  | ok value =>
    have gate : postRawGate json env queueStarvePath body =
        enforceQueueStarveSubject env (queueStarveSubject value) := by
      simp [postRawGate, parsed]
    rw [gate]
    rcases enforced_parsed env parsed with ⟨inside, passed⟩ | ⟨outside, refused⟩
    · exact .inl ⟨nofun, inside, passed⟩
    · exact .inr (.inl ⟨nofun, outside, refused⟩)
  | error failure =>
    have unread (value : Json Bytes ν) : json.parse body ≠ .ok value := by
      intro other
      cases parsed.symm.trans other
    have outside : ¬ InLanguage json env body := fun ⟨value, _, other, _⟩ => unread value other
    right
    rcases json.parse_error body failure parsed with malformed | large
    · subst malformed
      refine .inl ⟨nofun, outside, .subjectFilterViolation rawBodyMessage, by simp [postRawGate, parsed], ?_⟩
      exact .inr ⟨fun ⟨_, value, _, other, _⟩ => unread value other, _, rfl⟩
    · subst large
      exact .inr ⟨rfl, outside, by simp [postRawGate, parsed]⟩

/-! ### The calls behind the gate -/

private theorem request_postRaw (path body contentType : Bytes) :
    client.request json env (.postRaw path body contentType) =
      (postRawGate json env path body).map fun _ =>
        { host := client.host, port := client.port, method := .post, path, body,
          contentType := some contentType } := by
  simp only [HttpTestClient.request, HttpTestClient.postRawRequest]
  cases postRawGate json env path body <;> rfl

/-- `post` with a value is `post_raw` with its text, wherever the text reads back as the value. -/
theorem request_post_eq {path text : Bytes} {value : Json Bytes ν} (dumped : json.dump value = .ok text)
    (back : json.parse text = .ok value) :
    client.request json env (.post path value) =
      client.request json env (.postRaw path text (ascii "application/json")) := by
  have gates : postRawGate json env path text = postGate env path value := by
    simp only [postRawGate, postGate, back]
  rw [request_postRaw]
  cases gate : postGate env path value with
  | error error =>
    rw [gates, gate]
    simp only [HttpTestClient.request, HttpTestClient.postRequest, gate]
    rfl
  | ok _ =>
    rw [gate] at gates
    simp only [HttpTestClient.request, HttpTestClient.postRequest, HttpTestClient.postRawRequest, gate, dumped,
      gates, Except.mapError, Except.map, bind, Except.bind, pure, Except.pure]

/-- A call reaches its retry loop unless the checks before it throw. -/
theorem reachesRetryLoop_iff (around : Surroundings ω) (call : Call ν) (session : Session ω) :
    ReachesRetryLoop client json around env call session ↔
      ∃ request, client.request json env call = .ok request := by
  constructor
  · intro ⟨request, sent, _⟩
    exact ⟨request, sent⟩
  · intro ⟨request, sent⟩
    exact ⟨request, sent, by simp [HttpTestClient.perform, sent]⟩

theorem reaches_postRaw_iff (around : Surroundings ω) (body contentType : Bytes) (session : Session ω) :
    ReachesRetryLoop client json around env (.postRaw queueStarvePath body contentType) session ↔
      postRawGate json env queueStarvePath body = .ok () := by
  rw [reachesRetryLoop_iff, request_postRaw]
  cases postRawGate json env queueStarvePath body <;> simp [Except.map]

private theorem perform_postRaw_refused (around : Surroundings ω) {body : Bytes} (contentType : Bytes)
    (session : Session ω) (refused : postRawGate json env queueStarvePath body = .error error) :
    client.perform json around env (.postRaw queueStarvePath body contentType) session =
      ⟨.error error, session, []⟩ := by
  simp [HttpTestClient.perform, request_postRaw, refused, Except.map]

private theorem breaks_language_of_escaped {failure : JsonError} {around : Surroundings ω}
    {body contentType : Bytes} {session : Session ω}
    (escaped : postRawGate json env queueStarvePath body = .error (.json failure)) :
    ¬ KeepsLanguage client json around env body contentType session := by
  intro keeps
  have outside : ¬ InLanguage json env body := by
    intro inside
    have passed := (reaches_postRaw_iff around body contentType session).mp (keeps.accepted.mpr inside)
    cases escaped.symm.trans passed
  obtain ⟨error, thrown, proper⟩ := keeps.refused outside
  rw [perform_postRaw_refused around contentType session escaped] at thrown
  cases thrown
  rcases proper with ⟨_, _, kind⟩ | ⟨_, _, kind⟩ <;> cases kind

/-- The gate keeps to its language on every body but those with a number that `double`
cannot hold, on which the parser's own exception escapes. A value passes it exactly when
its text does. -/
theorem raw_gate_keeps_its_language_iff {ω ν : Type} (json : Nlohmann ν) (client : HttpTestClient)
    (around : Surroundings ω) (env : Environment) (body contentType : Bytes) (session : Session ω) :
    (KeepsLanguage client json around env body contentType session ↔ json.parse body ≠ .error .outOfRange) ∧
      ∀ value : Json Bytes ν, WellEncoded value →
        (∀ text, json.dump value = .ok text → json.parse text = .ok value) →
        ∃ text, json.dump value = .ok text ∧
          (ReachesRetryLoop client json around env (.post queueStarvePath value) session ↔
            ReachesRetryLoop client json around env (.postRaw queueStarvePath text contentType) session) := by
  constructor
  · rcases postRawGate_cases json env body with
      ⟨small, inside, passed⟩ | ⟨small, outside, error, refused, proper⟩ | ⟨large, _, escaped⟩
    · refine ⟨fun _ => small, fun _ => ⟨?_, fun outside => absurd inside outside⟩⟩
      rw [reaches_postRaw_iff]
      exact ⟨fun _ => inside, fun _ => passed⟩
    · refine ⟨fun _ => small, fun _ => ⟨?_, fun _ => ?_⟩⟩
      · rw [reaches_postRaw_iff, refused]
        exact ⟨nofun, fun inside => absurd inside outside⟩
      · exact ⟨error, perform_postRaw_refused around contentType session refused, proper⟩
    · exact ⟨fun keeps => absurd keeps (breaks_language_of_escaped escaped), fun small => absurd large small⟩
  · intro value encoded back
    obtain ⟨text, dumped⟩ := json.dump_of_wellEncoded encoded
    refine ⟨text, dumped, ?_⟩
    rw [reachesRetryLoop_iff, reachesRetryLoop_iff, request_post_eq dumped (back text dumped),
      request_postRaw, request_postRaw]
    cases postRawGate json env queueStarvePath text <;> simp [Except.map]

/-! ### A number too large for the parser -/

/-- A subject of the test namespace, next to a number that `double` cannot hold. -/
def overflowingBody : Bytes := ascii "\x7b\"subject\":\"hi.test.x\",\"n\":1e999\x7d"

def gateClient : HttpTestClient := { host := ascii "localhost", port := 8080 }

/-- The parser refuses it with an exception of its own, and the gate does not convert that. -/
theorem overflowing_body_escapes_the_gate :
    ¬ KeepsLanguage gateClient Nlohmann.rangeChecked scripted (fun _ => none) overflowingBody
      (ascii "application/json") { wire := [] } :=
  breaks_language_of_escaped (show postRawGate Nlohmann.rangeChecked (fun _ => none) queueStarvePath
    overflowingBody = .error (.json .outOfRange) by decide +kernel)

/-- A subject of the test namespace passes as a value and as the text of one. -/
theorem namespaced_subject_passes_both_ways :
    let value : Json Bytes JsonText.Lexeme := .object [(ascii "subject", .string (ascii "hi.test.x"))]
    ∃ text, Nlohmann.rangeChecked.dump value = .ok text ∧
      (ReachesRetryLoop gateClient Nlohmann.rangeChecked scripted (fun _ => none)
          (.post queueStarvePath value) { wire := [] } ↔
        ReachesRetryLoop gateClient Nlohmann.rangeChecked scripted (fun _ => none)
          (.postRaw queueStarvePath text []) { wire := [] }) := by
  intro value
  have encoded : WellEncoded value := (Nlohmann.rangeChecked.dump_ok value).mp ⟨_, rfl⟩
  have faithful : Faithful Nlohmann.rangeChecked.finite value := by
    refine .object (List.pairwise_singleton ..) ?_
    intro member present
    cases List.mem_singleton.mp present
    exact .string trivial
  exact (raw_gate_keeps_its_language_iff Nlohmann.rangeChecked gateClient scripted (fun _ => none) [] []
    { wire := [] }).2 value encoded fun text => Nlohmann.rangeChecked.parse_dump value text faithful

end Charybdis.Client
