import Charybdis.Client.HttpTestClient

/-! The language of base URLs: which strings the constructor refuses, which it reads,
and which it silently replaces by its default endpoint. -/

namespace Charybdis.Client

open Foundation

/-- A base URL spells a host and the digits of a port. -/
structure UrlForm (url host digits : Bytes) : Prop where
  scheme : url = ascii "http://" ++ (host ++ 0x3a :: digits) ∨
    url = ascii "https://" ++ (host ++ 0x3a :: digits)
  hostNonempty : host ≠ []
  colonFree : 0x3a ∉ host
  digitsNonempty : digits ≠ []
  digitsDecimal : ∀ digit ∈ digits, isDigit digit = true

private theorem hostPort_iff :
    hostPort rest = some (host, digits) ↔
      rest = host ++ 0x3a :: digits ∧ host ≠ [] ∧ 0x3a ∉ host ∧ digits ≠ [] ∧
        ∀ digit ∈ digits, isDigit digit = true := by
  constructor
  · intro parsed
    unfold hostPort at parsed
    split at parsed
    · cases parsed
    · rename_i colon tail after
      split at parsed
      · rename_i shape
        have parts : rest.takeWhile notColon = host ∧ tail = digits := by simpa using parsed
        obtain ⟨taken, same⟩ := parts
        subst same
        have isColon : colon = 0x3a := by
          have stopped := List.head_dropWhile_not notColon (l := rest) (by simp [after])
          simpa [after, notColon] using stopped
        refine ⟨?_, taken ▸ shape.1, ?_, shape.2.1, by simpa using shape.2.2⟩
        · rw [← isColon, ← after, ← taken, List.takeWhile_append_dropWhile]
        · intro inside
          have kept := List.mem_takeWhile_imp (taken ▸ inside)
          simp [notColon] at kept
      · cases parsed
  · rintro ⟨same, nonempty, colonFree, digitsNonempty, digitsDecimal⟩
    subst same
    have plain : ∀ byte ∈ host, notColon byte = true := by
      intro byte member
      simp only [notColon, decide_eq_true_eq]
      intro isColon
      exact colonFree (isColon ▸ member)
    have before : (host ++ 0x3a :: digits).takeWhile notColon = host := by
      rw [List.takeWhile_append_of_pos plain]
      simp [notColon]
    have after : (host ++ 0x3a :: digits).dropWhile notColon = 0x3a :: digits := by
      rw [List.dropWhile_append_of_pos plain]
      simp [notColon]
    have all : digits.all isDigit = true := List.all_eq_true.mpr digitsDecimal
    simp only [hostPort, before, after, all, nonempty, digitsNonempty, ne_eq, not_false_eq_true,
      and_self, if_true]

/-- The expression of the constructor matches exactly the URLs of the form, in one way. -/
theorem urlMatch_iff : urlMatch url = some (host, digits) ↔ UrlForm url host digits := by
  simp only [urlMatch, Option.bind_eq_some_iff, hostPort_iff, stripScheme_iff]
  constructor
  · rintro ⟨rest, scheme, same, nonempty, colonFree, digitsNonempty, digitsDecimal⟩
    exact ⟨same ▸ scheme, nonempty, colonFree, digitsNonempty, digitsDecimal⟩
  · intro form
    exact ⟨_, form.scheme, rfl, form.hostNonempty, form.colonFree, form.digitsNonempty, form.digitsDecimal⟩

theorem UrlForm.unique (form : UrlForm url host digits) (other : UrlForm url host' digits') :
    host' = host ∧ digits' = digits := by
  have same := (urlMatch_iff.mpr other).symm.trans (urlMatch_iff.mpr form)
  simpa using same

theorem urlMatch_none_iff : urlMatch url = none ↔ ¬ ∃ host digits, UrlForm url host digits := by
  simp only [← urlMatch_iff, Option.eq_none_iff_forall_ne_some, ne_eq, Prod.forall, not_exists]

private theorem digitsValue_append (digits : Bytes) (digit : UInt8) :
    digitsValue (digits ++ [digit]) = digitsValue digits * 10 + (digit.toNat - 0x30) := by
  simp [digitsValue]

theorem digitsValue_decimal (value : Nat) : digitsValue (decimal value) = value := by
  induction value using Nat.strong_induction_on with
  | _ value ih =>
    by_cases small : value < 10
    · rw [decimal_of_lt small]
      interval_cases value <;> rfl
    · have last : value % 10 < 10 := Nat.mod_lt _ (by decide)
      have digit : (value % 10).digitChar.toNat.toUInt8.toNat - 0x30 = value % 10 := by
        generalize value % 10 = digit at last
        interval_cases digit <;> rfl
      rw [decimal_of_le (by omega), decimal_of_lt last, digitsValue_append, ih _ (by omega), digit]
      omega

private theorem make_cases (baseUrl : Bytes) (retry : RetryPolicy) (breakerCfg : CircuitBreakerConfig)
    {timeouts : TimeoutConfig} (connection : 0 ≤ timeouts.connectionTimeoutSec)
    (read : 0 ≤ timeouts.readTimeoutSec) :
    ((¬ ∃ host digits, UrlForm baseUrl host digits) ∧
      HttpTestClient.make baseUrl retry breakerCfg timeouts =
        .ok { host := ascii "localhost", port := 8080, retry, breakerCfg, timeouts }) ∨
    (∃ host digits, UrlForm baseUrl host digits ∧
      ((digitsValue digits < 1 ∨ 65535 < digitsValue digits) ∧
        (∃ error, HttpTestClient.make baseUrl retry breakerCfg timeouts = .error error) ∨
      (1 ≤ digitsValue digits ∧ digitsValue digits ≤ 65535) ∧
        HttpTestClient.make baseUrl retry breakerCfg timeouts =
          .ok { host, port := digitsValue digits, retry, breakerCfg, timeouts })) := by
  cases matched : urlMatch baseUrl with
  | none =>
    refine .inl ⟨urlMatch_none_iff.mp matched, ?_⟩
    simp [HttpTestClient.make, matched, not_lt.mpr connection, not_lt.mpr read]
  | some parts =>
    obtain ⟨host, digits⟩ := parts
    refine .inr ⟨host, digits, urlMatch_iff.mp matched, ?_⟩
    simp only [HttpTestClient.make, matched, not_lt.mpr connection, not_lt.mpr read, if_false]
    by_cases range : 1 ≤ digitsValue digits ∧ digitsValue digits ≤ 65535
    · have fits : ¬ (digitsValue digits : Int) > intMax := by unfold intMax; omega
      have valid : ¬ ((digitsValue digits : Int) < 1 ∨ (digitsValue digits : Int) > 65535) := by omega
      exact .inr ⟨range, by simp only [fits, valid, if_false]⟩
    · refine .inl ⟨by omega, ?_⟩
      have invalid : (digitsValue digits : Int) < 1 ∨ (digitsValue digits : Int) > 65535 := by omega
      by_cases large : (digitsValue digits : Int) > intMax
      · exact ⟨_, by rw [if_pos large]⟩
      · exact ⟨_, by rw [if_neg large, if_pos invalid]⟩

private theorem make_timeout (baseUrl : Bytes) (retry : RetryPolicy) (breakerCfg : CircuitBreakerConfig)
    (timeouts : TimeoutConfig)
    (negative : timeouts.connectionTimeoutSec < 0 ∨ timeouts.readTimeoutSec < 0) :
    ∃ error, HttpTestClient.make baseUrl retry breakerCfg timeouts = .error error := by
  by_cases connection : timeouts.connectionTimeoutSec < 0
  · exact ⟨_, by rw [HttpTestClient.make, if_pos connection]⟩
  · have read := negative.resolve_left connection
    exact ⟨_, by rw [HttpTestClient.make, if_neg connection, if_pos read]⟩

/-- Construction throws exactly on a negative timeout or a port out of range; otherwise
the endpoint is the one the URL spells, or the default one if it spells none. A URL
printed from a host and a port is read back as these. -/
theorem make_accepts_grammar (retry : RetryPolicy) (breakerCfg : CircuitBreakerConfig)
    (timeouts : TimeoutConfig) :
    (∀ baseUrl, (∃ error, HttpTestClient.make baseUrl retry breakerCfg timeouts = .error error) ↔
      timeouts.connectionTimeoutSec < 0 ∨ timeouts.readTimeoutSec < 0 ∨
      ∃ host digits, UrlForm baseUrl host digits ∧
        (digitsValue digits < 1 ∨ 65535 < digitsValue digits)) ∧
    (∀ baseUrl client, HttpTestClient.make baseUrl retry breakerCfg timeouts = .ok client →
      (∀ host digits, UrlForm baseUrl host digits →
        client.host = host ∧ client.port = digitsValue digits ∧
        ∀ host' digits', UrlForm baseUrl host' digits' → host' = host ∧ digits' = digits) ∧
      ((¬ ∃ host digits, UrlForm baseUrl host digits) →
        client.host = ascii "localhost" ∧ client.port = 8080)) ∧
    (0 ≤ timeouts.connectionTimeoutSec → 0 ≤ timeouts.readTimeoutSec →
      ∀ (host : Bytes) (port : Nat), host ≠ [] → 0x3a ∉ host → 1 ≤ port → port ≤ 65535 →
        HttpTestClient.make (ascii "http://" ++ host ++ ascii ":" ++ decimal port) retry breakerCfg
          timeouts = .ok { host, port, retry, breakerCfg, timeouts }) := by
  refine ⟨?_, ?_, ?_⟩
  · intro baseUrl
    constructor
    · rintro ⟨error, thrown⟩
      by_contra sound
      push Not at sound
      obtain ⟨connection, read, range⟩ := sound
      rcases make_cases baseUrl retry breakerCfg connection read with
        ⟨_, constructed⟩ | ⟨host, digits, form, ⟨invalid, _⟩ | ⟨_, constructed⟩⟩
      · rw [constructed] at thrown
        cases thrown
      · have valid := range host digits form
        omega
      · rw [constructed] at thrown
        cases thrown
    · intro reason
      by_cases negative : timeouts.connectionTimeoutSec < 0 ∨ timeouts.readTimeoutSec < 0
      · exact make_timeout baseUrl retry breakerCfg timeouts negative
      · push Not at negative
        obtain ⟨host, digits, form, invalid⟩ :=
          (reason.resolve_left (not_lt.mpr negative.1)).resolve_left (not_lt.mpr negative.2)
        rcases make_cases baseUrl retry breakerCfg negative.1 negative.2 with
          ⟨formless, _⟩ | ⟨host', digits', form', ⟨_, thrown⟩ | ⟨valid, _⟩⟩
        · exact absurd ⟨host, digits, form⟩ formless
        · exact thrown
        · obtain ⟨_, same⟩ := form.unique form'
          subst same
          omega
  · intro baseUrl client constructed
    have sound : 0 ≤ timeouts.connectionTimeoutSec ∧ 0 ≤ timeouts.readTimeoutSec := by
      by_contra negative
      obtain ⟨error, thrown⟩ := make_timeout baseUrl retry breakerCfg timeouts (by omega)
      rw [thrown] at constructed
      cases constructed
    rcases make_cases baseUrl retry breakerCfg sound.1 sound.2 with
      ⟨formless, made⟩ | ⟨host, digits, form, ⟨_, error, thrown⟩ | ⟨_, made⟩⟩
    · cases made.symm.trans constructed
      exact ⟨fun host digits form => absurd ⟨host, digits, form⟩ formless, fun _ => ⟨rfl, rfl⟩⟩
    · cases thrown.symm.trans constructed
    · cases made.symm.trans constructed
      refine ⟨?_, fun formless => absurd ⟨host, digits, form⟩ formless⟩
      intro host' digits' form'
      obtain ⟨rfl, rfl⟩ := form.unique form'
      exact ⟨rfl, rfl, fun _ _ => form'.unique⟩
  · intro connection read host port nonempty colonFree low high
    have form : UrlForm (ascii "http://" ++ host ++ ascii ":" ++ decimal port) host (decimal port) := by
      refine ⟨.inl (by simp; rfl), nonempty, colonFree, ?_, fun digit => isDigit_of_mem_decimal port⟩
      obtain ⟨head, rest, digits, _⟩ := decimal_head low
      simp [digits]
    rcases make_cases _ retry breakerCfg connection read with
      ⟨formless, _⟩ | ⟨host', digits', form', ⟨invalid, _⟩ | ⟨_, made⟩⟩
    · exact absurd ⟨host, decimal port, form⟩ formless
    · obtain ⟨_, same⟩ := form.unique form'
      subst same
      rw [digitsValue_decimal] at invalid
      omega
    · obtain ⟨rfl, rfl⟩ := form.unique form'
      rw [made, digitsValue_decimal]

/-- The last port there is, behind a host that holds a slash. -/
theorem last_port_is_kept :
    HttpTestClient.make (ascii "http://" ++ ascii "a/b" ++ ascii ":" ++ decimal 65535) {} {} {} =
      .ok { host := ascii "a/b", port := (65535 : Nat) } :=
  (make_accepts_grammar {} {} {}).2.2 (by decide) (by decide) (ascii "a/b") 65535 (by decide) (by decide)
    (by decide) (by decide)

end Charybdis.Client
