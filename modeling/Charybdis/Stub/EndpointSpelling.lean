import Charybdis.Foundation.FoldedLines
import Charybdis.Stub.Python

/-! Which request targets the router takes for an endpoint: the endpoint itself, with control
characters, a scheme and a network location before it, and with slashes, parameters, a query
and a fragment behind it. -/

namespace Charybdis.Stub

open Foundation

variable {runtime : Runtime} {endpoint target url front scheme host slashes params tail rest : PyStr}

/-- A rooted path whose last segment is not empty, without a mark that ends a path. -/
structure IsEndpoint (endpoint : PyStr) : Prop where
  rooted : ∃ second more, endpoint = 0x2f :: second :: more ∧ second ≠ 0x2f
  plain : ∀ point ∈ endpoint, point ∉ [0x3f, 0x23, 0x3b]
  whole : endpoint.getLast? ≠ some 0x2f

/-! ### The parts of a spelling -/

/-- A scheme as it is written, and as it is read. -/
inductive SchemeText : PyStr → PyStr → Prop where
  | absent : SchemeText [] []
  | named {name : PyStr} (letter : name.head?.any isAsciiAlpha = true)
      (plain : name.all isSchemeChar = true) : SchemeText (name ++ [0x3a]) (name.map asciiLower)

/-- A network location behind its two slashes; it may be empty. -/
inductive HostText (runtime : Runtime) : PyStr → Prop where
  | absent : HostText runtime []
  | named {netloc : PyStr} (plain : ∀ point ∈ netloc, isNetlocEnd point = false)
      (valid : netloc = [] ∨ runtime.validNetloc netloc = true) : HostText runtime (py "//" ++ netloc)

/-- Parameters, which only some schemes have. -/
inductive ParamsText (scheme : PyStr) : PyStr → Prop where
  | absent : ParamsText scheme []
  | cut {more : PyStr} (known : scheme ∈ usesParams) (plain : ∀ point ∈ more, isNetlocEnd point = false) :
      ParamsText scheme (0x3b :: more)

/-- A query, a fragment or both. -/
def TailText (tail : PyStr) : Prop := ∀ point ∈ tail.head?, point = 0x3f ∨ point = 0x23

/-- The target is the endpoint with what the router takes off it. -/
inductive Spells (runtime : Runtime) (endpoint : PyStr) : PyStr → Prop where
  | parts {lead front scheme host slashes params tail : PyStr} (controls : ∀ point ∈ lead, point ≤ 0x20)
      (schemed : SchemeText front scheme) (hosted : HostText runtime host)
      (slashed : ∀ point ∈ slashes, point = 0x2f) (cut : ParamsText scheme params) (ends : TailText tail) :
      Spells runtime endpoint (lead ++ (front ++ (host ++ (endpoint ++ slashes ++ params ++ tail))))

/-! ### One part at a time -/

theorem splitScheme_cases (url : PyStr) :
    ∃ front, url = front ++ (splitScheme url).2 ∧ SchemeText front (splitScheme url).1 := by
  by_cases named : (before 0x3a url).length < url.length ∧ (before 0x3a url).head?.any isAsciiAlpha = true ∧
      (before 0x3a url).all isSchemeChar = true
  · have same : splitScheme url = ((before 0x3a url).map asciiLower, url.drop ((before 0x3a url).length + 1)) :=
      if_pos named
    obtain ⟨short, letter, plain⟩ := named
    rw [same]
    refine ⟨before 0x3a url ++ [0x3a], ?_, .named letter plain⟩
    have whole : before 0x3a url ++ url.dropWhile (· ≠ 0x3a) = url := List.takeWhile_append_dropWhile
    generalize before 0x3a url = name at *
    cases colon : url.dropWhile (· ≠ 0x3a) with
    | nil =>
      rw [colon, List.append_nil] at whole
      exact absurd short (by simp [whole])
    | cons mark more =>
      have stopped := List.head?_dropWhile_not (fun point => decide (point ≠ 0x3a)) url
      rw [colon] at stopped
      have isMark : mark = 0x3a := by simpa using stopped
      rw [colon, isMark] at whole
      have behind : url.drop (name.length + 1) = more := by simp [← whole]
      rw [behind, List.append_assoc]
      exact whole.symm
  · have same : splitScheme url = ([], url) := if_neg named
    exact ⟨[], by rw [same]; rfl, by rw [same]; exact .absent⟩

theorem splitScheme_append (schemed : SchemeText front scheme) (rooted : rest.head? = some 0x2f) :
    splitScheme (front ++ rest) = (scheme, rest) := by
  cases schemed with
  | absent =>
    obtain ⟨more, rfl⟩ := List.head?_eq_some_iff.mp rooted
    have head : (before 0x3a (0x2f :: more)).head?.any isAsciiAlpha = false := rfl
    simp [splitScheme, head]
  | @named name letter plain =>
    have noColon : ∀ point ∈ name, decide (point ≠ 0x3a) = true := by
      intro point member
      refine decide_eq_true fun colon => ?_
      have inName := List.all_eq_true.mp plain point member
      simp [colon, isSchemeChar, isAsciiAlpha] at inName
    have taken : before 0x3a (name ++ [0x3a] ++ rest) = name := by
      rw [before, List.append_assoc, List.takeWhile_append_of_pos noColon]
      simp
    simp only [splitScheme, taken, letter, plain]
    simp

theorem splitNetloc_cases (valid : (splitNetloc url).1 ≠ [] → runtime.validNetloc (splitNetloc url).1 = true) :
    ∃ host, url = host ++ (splitNetloc url).2 ∧ HostText runtime host := by
  unfold splitNetloc at valid ⊢
  split at valid
  · rename_i slashed
    rw [if_pos slashed]
    obtain ⟨more, rfl⟩ := List.isPrefixOf_iff_prefix.mp slashed
    have behind : (py "//" ++ more).drop 2 = more := rfl
    rw [behind] at valid ⊢
    refine ⟨py "//" ++ more.takeWhile fun point => !isNetlocEnd point, ?_, .named ?_ ?_⟩
    · rw [List.append_assoc, List.takeWhile_append_dropWhile]
    · intro point member
      simpa using List.mem_takeWhile_imp member
    · exact or_iff_not_imp_left.mpr valid
  · rename_i plain
    rw [if_neg plain]
    exact ⟨[], rfl, .absent⟩

theorem splitNetloc_append (hosted : HostText runtime host) {second : Nat} (other : second ≠ 0x2f) :
    ∃ netloc, splitNetloc (host ++ 0x2f :: second :: rest) = (netloc, 0x2f :: second :: rest) ∧
      (netloc = [] ∨ runtime.validNetloc netloc = true) := by
  cases hosted with
  | absent =>
    refine ⟨[], ?_, .inl rfl⟩
    have single : (py "//").isPrefixOf (0x2f :: second :: rest) = false := by
      simp [py, List.isPrefixOf, other.symm]
    simp [splitNetloc, single]
  | @named netloc plain valid =>
    refine ⟨netloc, ?_, valid⟩
    have slashed : (py "//").isPrefixOf (py "//" ++ netloc ++ 0x2f :: second :: rest) = true :=
      List.isPrefixOf_iff_prefix.mpr ⟨netloc ++ 0x2f :: second :: rest, (List.append_assoc ..).symm⟩
    have behind : (py "//" ++ netloc ++ 0x2f :: second :: rest).drop 2 = netloc ++ 0x2f :: second :: rest := rfl
    have inside : ∀ point ∈ netloc, (!isNetlocEnd point) = true := fun point member => by simp [plain point member]
    have stops : (!isNetlocEnd 0x2f) = false := rfl
    simp only [splitNetloc, slashed, ↓reduceIte, behind]
    rw [List.takeWhile_append_of_pos inside, List.dropWhile_append_of_pos inside,
      List.takeWhile_cons_of_neg (by simp [stops]), List.dropWhile_cons_of_neg (by simp [stops]), List.append_nil]

/-- The path of what follows the network location. -/
def pathPart (rest : PyStr) : PyStr := before 0x3f (before 0x23 rest)

theorem pathPart_eq (rest : PyStr) : pathPart rest = rest.takeWhile fun point => decide (point ∉ [0x3f, 0x23]) := by
  rw [pathPart, before, before, List.takeWhile_takeWhile]
  congr 1
  funext point
  simp [Bool.decide_and]

theorem pathPart_cases (rest : PyStr) :
    ∃ tail, rest = pathPart rest ++ tail ∧ TailText tail ∧ ∀ point ∈ pathPart rest, point ∉ [0x3f, 0x23] := by
  rw [pathPart_eq]
  refine ⟨rest.dropWhile fun point => decide (point ∉ [0x3f, 0x23]), List.takeWhile_append_dropWhile.symm, ?_, ?_⟩
  · intro point first
    have stopped := List.head?_dropWhile_not (fun point => decide (point ∉ [0x3f, 0x23])) rest
    rw [first] at stopped
    simpa [or_comm, or_iff_not_imp_left] using stopped
  · intro point member
    simpa using List.mem_takeWhile_imp member

theorem pathPart_append (plain : ∀ point ∈ front, point ∉ [0x3f, 0x23]) (ends : TailText tail) :
    pathPart (front ++ tail) = front := by
  rw [pathPart_eq, List.takeWhile_append_of_pos fun point member => decide_eq_true (plain point member)]
  cases tail with
  | nil => simp
  | cons mark more =>
    have stops := ends mark rfl
    rw [List.takeWhile_cons_of_neg (by simpa [or_iff_not_imp_left] using stops), List.append_nil]

/-! ### Parameters and trailing slashes -/

/-- Parameters start at the first semicolon behind the last slash. -/
theorem dropParams_cases (path : PyStr) :
    ∃ params, path = dropParams path ++ params ∧
      (params = [] ∨ ∃ more, params = 0x3b :: more ∧ 0x2f ∉ more) := by
  refine ⟨(path.rtakeWhile (· ≠ 0x2f)).dropWhile (· ≠ 0x3b), ?_, ?_⟩
  · rw [dropParams, before, List.append_assoc, List.takeWhile_append_dropWhile, List.rdropWhile_append_rtakeWhile]
  · cases marked : (path.rtakeWhile (· ≠ 0x2f)).dropWhile (· ≠ 0x3b) with
    | nil => exact .inl rfl
    | cons mark more =>
      have stopped := List.head?_dropWhile_not (fun point => decide (point ≠ 0x3b)) (path.rtakeWhile (· ≠ 0x2f))
      rw [marked] at stopped
      refine .inr ⟨more, by simpa using stopped, fun slash => ?_⟩
      have member : 0x2f ∈ path.rtakeWhile (· ≠ 0x2f) :=
        (List.dropWhile_suffix _).subset (marked ▸ List.mem_cons_of_mem _ slash)
      simpa using List.mem_rtakeWhile_imp member

theorem dropParams_segment (front : PyStr) {segment : PyStr} (single : 0x2f ∉ segment) :
    dropParams (front ++ 0x2f :: segment) = front ++ 0x2f :: before 0x3b segment := by
  have inside : segment.rdropWhile (· ≠ 0x2f) = [] :=
    List.rdropWhile_eq_nil_iff.mpr fun point member => decide_eq_true fun slash => single (slash ▸ member)
  have kept : (front ++ 0x2f :: segment).rdropWhile (· ≠ 0x2f) = front ++ [0x2f] := by
    rw [rdropWhile_append_solid (by simp), inside]
  have whole := @List.rdropWhile_append_rtakeWhile _ (fun point => decide (point ≠ 0x2f)) (front ++ 0x2f :: segment)
  rw [kept, List.append_assoc] at whole
  have last : (front ++ 0x2f :: segment).rtakeWhile (· ≠ 0x2f) = segment := by
    simpa using List.append_cancel_left whole
  rw [dropParams, kept, last, List.append_assoc]
  rfl

theorem dropParams_append (slash : 0x2f ∈ front) (plain : 0x3b ∉ front)
    (shape : params = [] ∨ ∃ more, params = 0x3b :: more ∧ 0x2f ∉ more) : dropParams (front ++ params) = front := by
  obtain ⟨behind, ahead, reversed, single⟩ := List.eq_append_cons_of_mem (List.mem_reverse.mpr slash)
  have split : front = ahead.reverse ++ 0x2f :: behind.reverse := by
    rw [← List.reverse_reverse front, reversed]
    simp
  have noMark : ∀ point ∈ behind.reverse, decide (point ≠ 0x3b) = true := fun point member =>
    decide_eq_true fun mark => plain (split ▸ List.mem_append_right _ (List.mem_cons_of_mem _ (mark ▸ member)))
  have cut : before 0x3b (behind.reverse ++ params) = behind.reverse := by
    rw [before, List.takeWhile_append_of_pos noMark]
    rcases shape with rfl | ⟨more, rfl, _⟩ <;> simp
  have still : 0x2f ∉ behind.reverse ++ params := by
    rcases shape with rfl | ⟨more, rfl, none⟩
    · simpa using single
    · simp [single, none]
  rw [split, List.append_assoc, List.cons_append, dropParams_segment _ still, cut]

private theorem rstrip_append (whole : front.getLast? ≠ some 0x2f) (slashed : ∀ point ∈ slashes, point = 0x2f) :
    (front ++ slashes).rdropWhile (· = 0x2f) = front := by
  have dropped : slashes.reverse.dropWhile (fun point => decide (point = 0x2f)) = [] := by
    simpa [List.dropWhile_eq_nil_iff] using slashed
  have stays : front.rdropWhile (· = 0x2f) = front := by
    rw [List.rdropWhile_eq_self_iff]
    intro full
    simpa [List.getLast?_eq_some_getLast full] using whole
  rw [List.rdropWhile, List.reverse_append, List.dropWhile_append, dropped]
  simpa [List.rdropWhile] using stays

/-- The path without parameters and final slashes. -/
def strippedPath (scheme path : PyStr) : PyStr :=
  (if scheme ∈ usesParams then dropParams path else path).rdropWhile (· = 0x2f)

theorem strippedPath_cases (scheme : PyStr) {path : PyStr} (plain : ∀ point ∈ path, point ∉ [0x3f, 0x23]) :
    ∃ slashes params, path = strippedPath scheme path ++ slashes ++ params ∧
      (∀ point ∈ slashes, point = 0x2f) ∧ ParamsText scheme params := by
  have slashed (kept : PyStr) : ∀ point ∈ kept.rtakeWhile (· = 0x2f), point = 0x2f := fun point member => by
    simpa using List.mem_rtakeWhile_imp member
  unfold strippedPath
  split
  · rename_i known
    obtain ⟨params, whole, shape⟩ := dropParams_cases path
    refine ⟨(dropParams path).rtakeWhile (· = 0x2f), params, ?_, slashed _, ?_⟩
    · rw [List.rdropWhile_append_rtakeWhile]
      exact whole
    · rcases shape with rfl | ⟨more, rfl, single⟩
      · exact .absent
      · refine .cut known fun point member => ?_
        have unmarked := plain point (whole ▸ List.mem_append_right _ (List.mem_cons_of_mem _ member))
        have noSlash : point ≠ 0x2f := fun slash => single (slash ▸ member)
        simpa [isNetlocEnd, noSlash] using unmarked
  · refine ⟨path.rtakeWhile (· = 0x2f), [], ?_, slashed _, .absent⟩
    rw [List.append_nil, List.rdropWhile_append_rtakeWhile]

theorem strippedPath_append (known : IsEndpoint endpoint) (slashed : ∀ point ∈ slashes, point = 0x2f)
    (cut : ParamsText scheme params) : strippedPath scheme (endpoint ++ slashes ++ params) = endpoint := by
  have rooted : 0x2f ∈ endpoint ++ slashes := by
    obtain ⟨second, more, rfl, _⟩ := known.rooted
    simp
  have unmarked : 0x3b ∉ endpoint ++ slashes := fun member => by
    rcases List.mem_append.mp member with inside | behind
    · exact known.plain _ inside (by decide)
    · exact absurd (slashed _ behind) (by decide)
  have dropped : (if scheme ∈ usesParams then dropParams (endpoint ++ slashes ++ params)
      else endpoint ++ slashes ++ params) = endpoint ++ slashes := by
    cases cut with
    | absent =>
      split
      · exact dropParams_append rooted unmarked (.inl rfl)
      · exact List.append_nil _
    | @cut more named plain =>
      rw [if_pos named]
      refine dropParams_append rooted unmarked (.inr ⟨more, rfl, fun slash => ?_⟩)
      exact absurd (plain _ slash) (by decide)
  rw [strippedPath, dropped]
  exact rstrip_append known.whole slashed

/-! ### The router -/

private theorem route_eq (runtime : Runtime) (clean : ∀ point ∈ target, point ∉ [0x09, 0x0a, 0x0d]) :
    let split := splitScheme (target.dropWhile (· ≤ 0x20))
    let located := splitNetloc split.2
    route runtime target = if located.1 ≠ [] ∧ runtime.validNetloc located.1 = false then .error .valueError
      else .ok (strippedPath split.1 (pathPart located.2)) := by
  intro split located
  have kept : ((target.dropWhile (· ≤ 0x20)).filter fun point => point ∉ [0x09, 0x0a, 0x0d]) =
      target.dropWhile (· ≤ 0x20) := by
    refine List.filter_eq_self.mpr fun point member => decide_eq_true (clean point ?_)
    exact (List.dropWhile_suffix _).subset member
  simp only [route, urlparsePath, kept]
  split <;> rfl

theorem Spells.of_route (clean : ∀ point ∈ target, point ∉ [0x09, 0x0a, 0x0d])
    (routed : route runtime target = .ok endpoint) : Spells runtime endpoint target := by
  have lead : target = target.takeWhile (· ≤ 0x20) ++ target.dropWhile (· ≤ 0x20) :=
    List.takeWhile_append_dropWhile.symm
  have controls : ∀ point ∈ target.takeWhile (· ≤ 0x20), point ≤ 0x20 := fun point member => by
    simpa using List.mem_takeWhile_imp member
  obtain ⟨front, behindControls, schemed⟩ := splitScheme_cases (target.dropWhile (· ≤ 0x20))
  have read := route_eq runtime clean
  rw [routed] at read
  dsimp only at read
  generalize splitScheme (target.dropWhile (· ≤ 0x20)) = split at *
  split at read
  · cases read
  · rename_i valid
    obtain ⟨host, behindScheme, hosted⟩ := @splitNetloc_cases runtime split.2 fun full => by simpa [full] using valid
    obtain ⟨tail, behindHost, ends, plain⟩ := pathPart_cases (splitNetloc split.2).2
    obtain ⟨slashes, params, path, slashed, cut⟩ := strippedPath_cases split.1 plain
    have same : strippedPath split.1 (pathPart (splitNetloc split.2).2) = endpoint := by
      injection read.symm
    rw [same] at path
    rw [lead, behindControls, behindScheme, behindHost, path]
    exact .parts controls schemed hosted slashed cut ends

private theorem spelling_plain (known : IsEndpoint endpoint) (slashed : ∀ point ∈ slashes, point = 0x2f)
    (cut : ParamsText scheme params) : ∀ point ∈ endpoint ++ slashes ++ params, point ∉ [0x3f, 0x23] := by
  intro point member
  rcases List.mem_append.mp member with before | after
  · rcases List.mem_append.mp before with inside | slash
    · have unmarked := known.plain point inside
      simp_all
    · simp [slashed point slash]
  · cases cut with
    | absent => cases after
    | cut _ plain =>
      rcases List.mem_cons.mp after with rfl | inside
      · decide
      · have unmarked := plain point inside
        simp_all [isNetlocEnd]

private theorem spelling_head (schemed : SchemeText front scheme) (hosted : HostText runtime host)
    (rooted : rest.head? = some 0x2f) :
    ∃ first, (front ++ (host ++ rest)).head? = some first ∧ 0x20 < first := by
  cases schemed with
  | absent =>
    cases hosted with
    | absent => exact ⟨0x2f, rooted, by decide⟩
    | named _ _ => exact ⟨0x2f, rfl, by decide⟩
  | @named name letter _ =>
    cases name with
    | nil => cases letter
    | cons first _ =>
      refine ⟨first, rfl, ?_⟩
      have alpha : isAsciiAlpha first = true := letter
      simp [isAsciiAlpha] at alpha
      omega

theorem Spells.route (known : IsEndpoint endpoint) (clean : ∀ point ∈ target, point ∉ [0x09, 0x0a, 0x0d])
    (spells : Spells runtime endpoint target) : route runtime target = .ok endpoint := by
  cases spells with
  | @parts lead front scheme host slashes params tail controls schemed hosted slashed cut ends =>
    have read := route_eq runtime clean
    obtain ⟨second, more, shape, other⟩ := known.rooted
    have rooted : endpoint ++ slashes ++ params ++ tail = 0x2f :: second :: (more ++ slashes ++ params ++ tail) := by
      simp [shape]
    have slash : (endpoint ++ slashes ++ params ++ tail).head? = some 0x2f := by rw [rooted]; rfl
    have noScheme : (host ++ (endpoint ++ slashes ++ params ++ tail)).head? = some 0x2f := by
      cases hosted with
      | absent => exact slash
      | named _ _ => rfl
    obtain ⟨first, head, high⟩ := spelling_head schemed hosted slash
    have bare : (lead ++ (front ++ (host ++ (endpoint ++ slashes ++ params ++ tail)))).dropWhile (· ≤ 0x20) =
        front ++ (host ++ (endpoint ++ slashes ++ params ++ tail)) := by
      rw [List.dropWhile_append_of_pos fun point member => by simpa using controls point member]
      obtain ⟨body, same⟩ := List.head?_eq_some_iff.mp head
      rw [same, List.dropWhile_cons_of_neg (by simpa using high)]
    obtain ⟨netloc, located, valid⟩ :=
      @splitNetloc_append runtime host (more ++ slashes ++ params ++ tail) hosted second other
    rw [← rooted] at located
    have plain := spelling_plain known slashed cut
    dsimp only at read
    rw [bare, splitScheme_append schemed noScheme, located] at read
    rw [read, if_neg, pathPart_append plain ends, strippedPath_append known slashed cut]
    rintro ⟨full, invalid⟩
    simp [valid.resolve_left full] at invalid

theorem route_iff (known : IsEndpoint endpoint) (clean : ∀ point ∈ target, point ∉ [0x09, 0x0a, 0x0d]) :
    Stub.route runtime target = .ok endpoint ↔ Spells runtime endpoint target :=
  ⟨Spells.of_route clean, Spells.route known clean⟩

end Charybdis.Stub
