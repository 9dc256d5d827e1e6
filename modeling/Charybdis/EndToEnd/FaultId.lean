import Charybdis.EndToEnd.Wire

/-! The identifiers of faults on their way through a URL: what the client deletes under the id
it was told is what the stub holds under that id. -/

namespace Charybdis.EndToEnd

open Foundation Client Stub

def faultUrl (faultId : Bytes) : Bytes := ascii "/v1/chaos/" ++ faultId

/-- Characters that stand for themselves in a URL path: letters, digits, hyphens. -/
def isPlain (point : Nat) : Bool :=
  isAsciiAlpha point || (0x30 ≤ point && point ≤ 0x39) || point = 0x2d

/-- An identifier that fits into a path as it is, as those of `uuid4` do. -/
def UrlSafe (faultId : PyStr) : Prop :=
  faultId ≠ [] ∧ faultId.length ≤ 65000 ∧ ∀ point ∈ faultId, isPlain point = true

instance (faultId : PyStr) : Decidable (UrlSafe faultId) := inferInstanceAs (Decidable (_ ∧ _ ∧ _))

def idBytes (faultId : PyStr) : Bytes := faultId.map Nat.toUInt8

/-- The client reads the id of a fault out of the record the stub writes of it, where it can
read that text at all: both ends speak JSON. -/
def IdsComeBack (runtime : Runtime) (json : Nlohmann ν) : Prop :=
  ∀ count chaosType fields value,
    json.parse (runtime.jsonText (jsonOf (newFault (runtime.uuid4 count) chaosType fields))) = .ok value →
      valueString (ascii "id") value = .ok (idBytes (runtime.uuid4 count))

section Identifiers

private theorem plain_bounds (plain : isPlain point = true) :
    0x2d ≤ point ∧ point ≤ 0x7a ∧ point ≠ 0x2f ∧ point ≠ 0x3a ∧ point ≠ 0x3b ∧ point ≠ 0x3f := by
  simp only [isPlain, isAsciiAlpha, Bool.or_eq_true, Bool.and_eq_true, decide_eq_true_eq] at plain
  omega

private theorem prefix_points :
    ∀ point ∈ chaosPrefix, 0x2d ≤ point ∧ point ≤ 0x7a ∧ point ≠ 0x3b ∧ point ≠ 0x3f := by
  decide

theorem latin1_idBytes (plain : ∀ point ∈ faultId, isPlain point = true) : latin1 (idBytes faultId) = faultId := by
  rw [latin1, idBytes, List.map_map]
  refine (List.map_congr_left fun point member => ?_).trans (List.map_id _)
  have small := (plain_bounds (plain point member)).2.1
  simp only [Function.comp_apply, id_eq]
  exact Nat.mod_eq_of_lt (by omega)

theorem idBytes_injective (first : ∀ point ∈ faultId, isPlain point = true)
    (second : ∀ point ∈ other, isPlain point = true) (same : idBytes faultId = idBytes other) : faultId = other := by
  rw [← latin1_idBytes first, ← latin1_idBytes second, same]

theorem route_faultUrl (runtime : Runtime) (safe : UrlSafe faultId) :
    route runtime (chaosPrefix ++ faultId) = .ok (chaosPrefix ++ faultId) := by
  obtain ⟨nonempty, _, plain⟩ := safe
  have points : ∀ point ∈ chaosPrefix ++ faultId, 0x2d ≤ point ∧ point ≤ 0x7a ∧ point ≠ 0x3b ∧ point ≠ 0x3f := by
    intro point member
    rcases List.mem_append.mp member with early | late
    · exact prefix_points point early
    · have bounds := plain_bounds (plain point late)
      exact ⟨bounds.1, bounds.2.1, bounds.2.2.2.2.1, bounds.2.2.2.2.2⟩
  have head : (chaosPrefix ++ faultId).dropWhile (· ≤ 0x20) = chaosPrefix ++ faultId := rfl
  have clean : (chaosPrefix ++ faultId).filter (fun point => point ∉ [0x09, 0x0a, 0x0d]) = chaosPrefix ++ faultId := by
    apply List.filter_eq_self.mpr
    intro point member
    have bounds := points point member
    simp only [List.mem_cons, List.not_mem_nil, or_false, decide_eq_true_eq]
    omega
  have noScheme : splitScheme (chaosPrefix ++ faultId) = ([], chaosPrefix ++ faultId) := by
    have start : (before 0x3a (chaosPrefix ++ faultId)).head?.any isAsciiAlpha = false := rfl
    simp only [splitScheme, start, Bool.false_eq_true, false_and, and_false, ↓reduceIte]
  have noNetloc : splitNetloc (chaosPrefix ++ faultId) = ([], chaosPrefix ++ faultId) := rfl
  have whole (mark : Nat) (absent : ∀ point ∈ chaosPrefix ++ faultId, point ≠ mark) :
      before mark (chaosPrefix ++ faultId) = chaosPrefix ++ faultId := by
    apply List.takeWhile_eq_self_iff.mpr
    simpa using absent
  have noHash := whole 0x23 fun point member => by have := points point member; omega
  have noQuery := whole 0x3f fun point member => (points point member).2.2.2
  have noParams : dropParams (chaosPrefix ++ faultId) = chaosPrefix ++ faultId := by
    have kept : before 0x3b ((chaosPrefix ++ faultId).rtakeWhile (· ≠ 0x2f)) =
        (chaosPrefix ++ faultId).rtakeWhile (· ≠ 0x2f) := by
      apply List.takeWhile_eq_self_iff.mpr
      intro point member
      have inside := (List.rtakeWhile_suffix _ _).subset member
      simpa using (points point inside).2.2.1
    rw [dropParams, kept, List.rdropWhile_append_rtakeWhile]
  have noSlash : (chaosPrefix ++ faultId).rdropWhile (· = 0x2f) = chaosPrefix ++ faultId := by
    obtain ⟨front, last, same⟩ := (List.eq_nil_or_concat' faultId).resolve_left nonempty
    have other := (plain_bounds (plain last (same ▸ by simp))).2.2.1
    rw [same, ← List.append_assoc]
    exact List.rdropWhile_concat_neg _ _ _ (by simpa using other)
  simp only [route, urlparsePath, head, clean, noScheme, noNetloc, noHash, noQuery, noParams, ne_eq,
    not_true_eq_false, false_and, ↓reduceIte, ite_self, Except.map, noSlash]

private theorem latin1_faultUrl (plain : ∀ point ∈ faultId, isPlain point = true) :
    latin1 (faultUrl (idBytes faultId)) = chaosPrefix ++ faultId := by
  rw [faultUrl, latin1, List.map_append]
  exact congrArg (chaosPrefix ++ ·) (latin1_idBytes plain)

private theorem requestLine_fits (short : faultId.length ≤ 65000) :
    (methodName .delete ++ ascii " " ++ faultUrl (idBytes faultId) ++ ascii " HTTP/1.1\r\n").length ≤
      maxRequestLine := by
  have own : (idBytes faultId).length = faultId.length := List.length_map _
  have verb : (methodName .delete).length = 6 := by decide
  have space : (ascii " ").length = 1 := by decide
  have path : (ascii "/v1/chaos/").length = 10 := by decide
  have version : (ascii " HTTP/1.1\r\n").length = 11 := by decide
  rw [List.length_append, List.length_append, List.length_append, faultUrl, List.length_append, verb, space, path,
    version, own, maxRequestLine]
  omega

private theorem requestTarget_faultUrl (safe : UrlSafe faultId) :
    requestTarget .delete (faultUrl (idBytes faultId)) = .ok (chaosPrefix ++ faultId) := by
  obtain ⟨_, short, plain⟩ := safe
  have visible : faultUrl (idBytes faultId) ≠ [] := List.append_ne_nil_of_left_ne_nil (by decide) _
  have noSpace : (latin1 (faultUrl (idBytes faultId))).any isLatinSpace = false := by
    rw [latin1_faultUrl plain, List.any_eq_false]
    intro point member
    have bounds : 0x2d ≤ point ∧ point ≤ 0x7a := by
      rcases List.mem_append.mp member with early | late
      · exact ⟨(prefix_points point early).1, (prefix_points point early).2.1⟩
      · exact ⟨(plain_bounds (plain point late)).1, (plain_bounds (plain point late)).2.1⟩
    simp only [isLatinSpace, Bool.or_eq_true, Bool.and_eq_true, decide_eq_true_eq]
    omega
  rw [requestTarget, if_neg (Nat.not_lt.mpr (requestLine_fits short)), if_neg (by simp [visible, noSpace]),
    latin1_faultUrl plain]
  rfl

theorem wireNames_deletion (runtime : Runtime) (client : HttpTestClient) (safe : UrlSafe faultId) :
    wireNames runtime { host := client.host, port := client.port, method := .delete,
                        path := faultUrl (idBytes faultId) } = some faultId := by
  let arrived : Stub.Request :=
    { method := .delete, path := chaosPrefix ++ faultId, contentLength := .length (0 : Nat) }
  have arrives : received { host := client.host, port := client.port, method := .delete,
                            path := faultUrl (idBytes faultId) } = .ok arrived := by
    simp only [received, requestTarget_faultUrl safe]
    rfl
  exact wireNames_iff.mpr ⟨arrived, arrives, named_iff.mpr ⟨rfl, route_faultUrl runtime safe⟩⟩

end Identifiers

end Charybdis.EndToEnd
