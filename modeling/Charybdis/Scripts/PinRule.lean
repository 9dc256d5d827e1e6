import Charybdis.Scripts.ActionPins

/-! The gate on action references against its rule: the shapes its patterns accept, and where
it agrees with the test. -/

namespace Charybdis.Scripts

open Foundation
open Policy (isSpace lstrip rstrip lstrip_append lstrip_solid splitlines isLineBreak)
open Stub (PyStr py)

/-! ### The shapes the gate accepts -/

section Shapes

variable {locale : Locale}

/-- A path in a repository, or what looks like one, pinned by a commit. -/
def Reference (text : PyStr) : Prop :=
  ∃ owner path sha : PyStr, text = owner ++ py "/" ++ path ++ py "@" ++ sha ∧
    (owner ≠ [] ∧ ∀ point ∈ owner, isNamePoint point = true) ∧
    (path ≠ [] ∧ ∀ point ∈ path, isPathPoint point = true) ∧ isSha sha = true

/-- Blanks and a comment with a tag. -/
def TagComment (locale : Locale) (text : PyStr) : Prop :=
  ∃ gap lead tag : PyStr, text = gap ++ py "#" ++ lead ++ py "v" ++ tag ∧
    (gap ≠ [] ∧ ∀ point ∈ gap, locale.blank point = true) ∧ (∀ point ∈ lead, locale.blank point = true) ∧ tag ≠ []

def Commented (locale : Locale) (value : PyStr) : Prop :=
  ∃ reference comment : PyStr, value = reference ++ comment ∧ Reference reference ∧ TagComment locale comment

/-- Whether the first slash is followed by another one, where the repository should be. -/
def LacksRepo (value : PyStr) : Prop := py "//" <+: value.dropWhile (· ≠ 0x2f)

theorem localPattern_iff : localPattern.accepts value = true ↔ py "./" <+: value := by
  rw [Pattern.accepts_iff, localPattern, Pattern.mem_seq]
  constructor
  · rintro ⟨_, rest, rfl, dot, _⟩
    rw [Pattern.mem_text.mp dot]
    exact List.prefix_append _ _
  · rintro ⟨rest, rfl⟩
    exact ⟨py "./", rest, rfl, Pattern.mem_text.mpr rfl, Pattern.mem_anything rest⟩

theorem dockerPattern_iff : dockerPattern.accepts value = true ↔ DockerPinned value := by
  rw [Pattern.accepts_iff, dockerPattern, Pattern.mem_chain]
  constructor
  · rintro ⟨_, _, rfl, scheme, matched⟩
    obtain ⟨image, _, rfl, images, matched⟩ := Pattern.mem_chain.mp matched
    obtain ⟨_, digest, rfl, mark, digests⟩ := Pattern.mem_chain.mp matched
    obtain ⟨full, plain⟩ := Pattern.mem_plus_one.mp images
    obtain ⟨long, hex⟩ := Pattern.mem_times_one.mp digests
    refine ⟨image, digest, ?_, full, fun inside => by simpa using plain _ inside, long, hex⟩
    rw [Pattern.mem_text.mp scheme, Pattern.mem_text.mp mark]
    simp only [List.append_assoc]
  · rintro ⟨image, digest, rfl, full, plain, long, hex⟩
    refine ⟨py "docker://", image ++ (py "@sha256:" ++ digest), by simp only [List.append_assoc],
      Pattern.mem_text.mpr rfl, ?_⟩
    refine Pattern.mem_chain.mpr ⟨image, _, rfl, Pattern.mem_plus_one.mpr ⟨full, fun point inside => ?_⟩, ?_⟩
    · exact decide_eq_true fun same => plain (same ▸ inside)
    · exact Pattern.mem_seq.mpr ⟨_, digest, rfl, Pattern.mem_text.mpr rfl, Pattern.mem_times_one.mpr ⟨long, hex⟩⟩

theorem isSha_iff : isSha text = true ↔ text ∈ (Pattern.times (.one isHex) 40).language := by
  simp [isSha, Pattern.mem_times_one]

private theorem trailer_iff {trailer : PyStr} :
    trailer ∈ (Pattern.chain [.plus (.one locale.blank), .text (py "#"), .many (.one locale.blank), .text (py "v"),
      .plus (.one fun _ => true)]).language ↔
      TagComment locale trailer := by
  rw [Pattern.mem_chain]
  constructor
  · rintro ⟨gap, _, rfl, gaps, matched⟩
    obtain ⟨_, _, rfl, sign, matched⟩ := Pattern.mem_chain.mp matched
    obtain ⟨lead, _, rfl, leads, matched⟩ := Pattern.mem_chain.mp matched
    obtain ⟨_, tag, rfl, letter, tags⟩ := Pattern.mem_chain.mp matched
    refine ⟨gap, lead, tag, ?_, Pattern.mem_plus_one.mp gaps, Pattern.mem_many_one.mp leads,
      (Pattern.mem_plus_one.mp tags).1⟩
    rw [Pattern.mem_text.mp sign, Pattern.mem_text.mp letter]
    simp only [List.append_assoc]
  · rintro ⟨gap, lead, tag, rfl, gaps, leads, full⟩
    refine ⟨gap, py "#" ++ (lead ++ (py "v" ++ tag)), by simp only [List.append_assoc],
      Pattern.mem_plus_one.mpr gaps, ?_⟩
    refine Pattern.mem_chain.mpr ⟨_, _, rfl, Pattern.mem_text.mpr rfl, ?_⟩
    refine Pattern.mem_chain.mpr ⟨lead, _, rfl, Pattern.mem_many_one.mpr leads, ?_⟩
    exact Pattern.mem_seq.mpr ⟨_, tag, rfl, Pattern.mem_text.mpr rfl, Pattern.mem_plus_one.mpr ⟨full, fun _ _ => rfl⟩⟩

theorem actionPattern_iff :
    (actionPattern locale).accepts value = true ↔ Reference value ∨ Commented locale value := by
  rw [Pattern.accepts_iff, actionPattern, Pattern.mem_chain]
  constructor
  · rintro ⟨owner, _, rfl, owners, matched⟩
    obtain ⟨_, _, rfl, slash, matched⟩ := Pattern.mem_chain.mp matched
    obtain ⟨path, _, rfl, paths, matched⟩ := Pattern.mem_chain.mp matched
    obtain ⟨_, _, rfl, mark, matched⟩ := Pattern.mem_chain.mp matched
    obtain ⟨sha, trailer, rfl, shas, trailers⟩ := Pattern.mem_chain.mp matched
    have reference : Reference (owner ++ py "/" ++ path ++ py "@" ++ sha) :=
      ⟨owner, path, sha, rfl, Pattern.mem_plus_one.mp owners, Pattern.mem_plus_one.mp paths, isSha_iff.mpr shas⟩
    have whole : owner ++ (py "/" ++ (path ++ (py "@" ++ (sha ++ trailer)))) =
        owner ++ py "/" ++ path ++ py "@" ++ sha ++ trailer := by simp only [List.append_assoc]
    rw [Pattern.mem_text.mp slash, Pattern.mem_text.mp mark, whole]
    rcases Pattern.mem_optional.mp trailers with rfl | trailers
    · left
      rwa [List.append_nil]
    · exact .inr ⟨_, trailer, rfl, reference, trailer_iff.mp trailers⟩
  · intro shape
    obtain ⟨reference, trailer, rfl, ⟨owner, path, sha, rfl, owners, paths, shas⟩, trailers⟩ : ∃ reference trailer,
        value = reference ++ trailer ∧ Reference reference ∧ (trailer = [] ∨ TagComment locale trailer) := by
      rcases shape with own | ⟨reference, trailer, same, own, comment⟩
      · exact ⟨value, [], (List.append_nil value).symm, own, .inl rfl⟩
      · exact ⟨reference, trailer, same, own, .inr comment⟩
    refine ⟨owner, py "/" ++ (path ++ (py "@" ++ (sha ++ trailer))), by simp only [List.append_assoc],
      Pattern.mem_plus_one.mpr owners, ?_⟩
    refine Pattern.mem_chain.mpr ⟨_, _, rfl, Pattern.mem_text.mpr rfl, ?_⟩
    refine Pattern.mem_chain.mpr ⟨path, _, rfl, Pattern.mem_plus_one.mpr paths, ?_⟩
    refine Pattern.mem_chain.mpr ⟨_, _, rfl, Pattern.mem_text.mpr rfl, ?_⟩
    refine Pattern.mem_chain.mpr ⟨sha, trailer, rfl, isSha_iff.mp shas, ?_⟩
    exact Pattern.mem_optional.mpr (trailers.imp_right trailer_iff.mpr)

theorem passesGate_iff {line : PyStr} :
    passesGate locale line = true ↔
      valueOf locale line = [] ∨ py "./" <+: valueOf locale line ∨ DockerPinned (valueOf locale line) ∨
        Reference (valueOf locale line) ∨ Commented locale (valueOf locale line) := by
  rw [← localPattern_iff, ← dockerPattern_iff, ← actionPattern_iff, ← List.isEmpty_iff]
  simp only [passesGate, PinScan.step]
  by_cases empty : (valueOf locale line).isEmpty = true
  · simp [empty]
  · rw [if_neg empty]
    split
    · rename_i taken
      simp only [Bool.or_eq_true, or_assoc] at taken
      simp [taken]
    · rename_i refused
      simp only [Bool.or_eq_true, or_assoc] at refused
      simp [empty, refused]

end Shapes

/-! ### Rule and gate -/

section Agreement

variable {locale : Locale}

/-- The rule of the header. -/
def Rule (locale : Locale) (value : PyStr) : Prop :=
  py "./" <+: value ∨ DockerPinned value ∨ ActionPinned locale value

def IsDocker (value : PyStr) : Prop := py "docker://" <+: value

/-- Whether the value is written with a quote in front. -/
def Quoted (locale : Locale) (line : PyStr) : Prop :=
  (trimmedValue locale line).head? = some 0x22 ∨ (trimmedValue locale line).head? = some 0x27

/-- A line only the test takes: no tagged reference, but each line that it is to Python refers
to nothing, a local path or a tagged commit to the eyes of the test. -/
structure OnlyTestTakes (locale : Locale) (line : PyStr) : Prop where
  plain : ¬ IsDocker (valueOf locale line)
  unquoted : ¬ Quoted locale line
  refused : ¬ Commented locale (valueOf locale line)
  taken : ∀ piece ∈ splitlines line, TestTakes piece

/-- A line only the gate takes: it has a line break that is none to `grep`, and one of the lines
that it is to Python refers to something that is not pinned. -/
structure BreaksUp (locale : Locale) (line : PyStr) : Prop where
  plain : ¬ IsDocker (valueOf locale line)
  unquoted : ¬ Quoted locale line
  taken : py "./" <+: valueOf locale line ∨ Commented locale (valueOf locale line)
  broken : ∃ point ∈ line, isLineBreak point = true
  refused : ∃ piece ∈ splitlines line, ¬ TestTakes piece

private theorem path_of_name (name : isNamePoint point = true) : isPathPoint point = true := by
  simp [isPathPoint, name]

private theorem name_of_hex (hex : isHex point = true) : isNamePoint point = true := by
  simp only [isHex, Bool.or_eq_true, Bool.and_eq_true, decide_eq_true_eq] at hex
  simp only [isNamePoint, Bool.or_eq_true, Bool.and_eq_true, decide_eq_true_eq, beq_iff_eq]
  omega

private theorem solid_of_path (path : isPathPoint point = true) : isSpace point = false := by
  rw [Bool.eq_false_iff]
  intro space
  simp only [isPathPoint, isNamePoint, Bool.or_eq_true, Bool.and_eq_true, decide_eq_true_eq, beq_iff_eq] at path
  simp only [isSpace, Bool.or_eq_true, Bool.and_eq_true, decide_eq_true_eq, beq_iff_eq] at space
  omega

private theorem hex_of_isSha (sha : isSha text = true) : ∀ point ∈ text, isHex point = true :=
  (Pattern.mem_times_one.mp (isSha_iff.mp sha)).2

theorem Reference.clean (reference : Reference text) : ∀ point ∈ text, isPathPoint point = true ∨ point = 0x40 := by
  obtain ⟨owner, path, sha, rfl, ⟨_, owners⟩, ⟨_, paths⟩, shas⟩ := reference
  intro point member
  simp only [List.mem_append, or_assoc] at member
  rcases member with inside | inside | inside | inside | inside
  · exact .inl (path_of_name (owners point inside))
  · rw [List.mem_singleton.mp inside]
    exact .inl rfl
  · exact .inl (paths point inside)
  · exact .inr (List.mem_singleton.mp inside)
  · exact .inl (path_of_name (name_of_hex (hex_of_isSha shas point inside)))

theorem Reference.solid (reference : Reference text) : ∀ point ∈ text, isSpace point = false := by
  intro point member
  rcases reference.clean point member with path | rfl
  · exact solid_of_path path
  · rfl

/-- The commit is what follows the last `@`. -/
theorem Reference.sha (reference : Reference text) : isSha (text.rtakeWhile (· ≠ 0x40)) = true := by
  obtain ⟨owner, path, sha, rfl, _, _, shas⟩ := reference
  have plain : ∀ point ∈ sha.reverse, decide (point ≠ 0x40) = true := by
    intro point member
    refine decide_eq_true fun same => ?_
    rw [same] at member
    cases hex_of_isSha shas _ (List.mem_reverse.mp member)
  have last : (owner ++ py "/" ++ path ++ py "@" ++ sha).rtakeWhile (· ≠ 0x40) = sha := by
    rw [List.rtakeWhile, List.reverse_append, List.takeWhile_append_of_pos plain]
    simp [py]
  rwa [last]

private theorem not_dockerPinned (reference : Reference text) (rest : PyStr) : ¬ DockerPinned (text ++ rest) := by
  rintro ⟨image, digest, same, _⟩
  obtain ⟨owner, path, sha, rfl, ⟨_, owners⟩, _, _⟩ := reference
  have named := congrArg (List.dropWhile isNamePoint) same
  simp only [List.append_assoc, List.dropWhile_append_of_pos owners] at named
  cases congrArg List.head? named

private theorem not_dockerPinned_of_commented (commented : Commented locale value) : ¬ DockerPinned value := by
  obtain ⟨_, comment, rfl, reference, _⟩ := commented
  exact not_dockerPinned reference comment

private theorem isDocker_of_dockerPinned (docker : DockerPinned value) : IsDocker value := by
  obtain ⟨image, digest, rfl, _⟩ := docker
  exact ⟨image ++ (py "@sha256:" ++ digest), by simp only [List.append_assoc]⟩

private theorem not_actionPinned (reference : Reference value) : ¬ ActionPinned locale value := by
  rintro ⟨owner, repo, path, sha, gap, lead, tag, rfl, _⟩
  have sign := reference.clean 0x23 (by simp [py])
  revert sign
  decide

/-- A tagged reference keeps the rule when it names a repository. -/
theorem actionPinned_iff : ActionPinned locale value ↔ Commented locale value ∧ ¬ LacksRepo value := by
  have skipped {owner : PyStr} (owners : ∀ point ∈ owner, isNamePoint point = true) (rest : PyStr) :
      (owner ++ (py "/" ++ rest)).dropWhile (· ≠ 0x2f) = py "/" ++ rest := by
    have passed : ∀ point ∈ owner, decide (point ≠ 0x2f) = true := by
      intro point member
      refine decide_eq_true fun same => ?_
      cases same ▸ owners point member
    rw [List.dropWhile_append_of_pos passed]
    rfl
  constructor
  · rintro ⟨owner, repo, path, sha, gap, lead, tag, rfl, owners, ⟨full, repos⟩, ⟨paths, _⟩, shas, trailer⟩
    refine ⟨⟨owner ++ py "/" ++ (repo ++ path) ++ py "@" ++ sha, gap ++ py "#" ++ lead ++ py "v" ++ tag,
      by simp only [List.append_assoc], ⟨owner, repo ++ path, sha, rfl, owners, ⟨by simp [full], ?_⟩, shas⟩,
      ⟨gap, lead, tag, rfl, trailer⟩⟩, ?_⟩
    · intro point member
      rcases List.mem_append.mp member with inside | inside
      · exact path_of_name (repos point inside)
      · exact paths point inside
    · rintro ⟨more, doubled⟩
      simp only [List.append_assoc, skipped owners.2] at doubled
      cases repo with
      | nil => exact full rfl
      | cons first repo =>
        have slash : 0x2f = first := (List.cons.inj (List.cons.inj doubled).2).1
        cases slash ▸ repos first List.mem_cons_self
  · rintro ⟨⟨_, _, rfl, ⟨owner, path, sha, rfl, owners, ⟨full, paths⟩, shas⟩, ⟨gap, lead, tag, rfl, trailer⟩⟩, single⟩
    have parted : path = path.takeWhile isNamePoint ++ path.dropWhile isNamePoint :=
      List.takeWhile_append_dropWhile.symm
    have slash : path.dropWhile isNamePoint = [] ∨ py "/" <+: path.dropWhile isNamePoint := by
      cases rest : path.dropWhile isNamePoint with
      | nil => exact .inl rfl
      | cons first rest' =>
        have member : first ∈ path := (List.dropWhile_suffix isNamePoint).subset (rest ▸ List.mem_cons_self)
        have stopped := List.head_dropWhile_not isNamePoint (l := path) (by simp [rest])
        simp only [rest, List.head_cons] at stopped
        have solidus : first = 0x2f := by simpa [isPathPoint, stopped] using paths first member
        exact .inr ⟨rest', by rw [solidus]; rfl⟩
    refine ⟨owner, path.takeWhile isNamePoint, path.dropWhile isNamePoint, sha, gap, lead, tag, ?_, owners,
      ⟨?_, fun point member => List.mem_takeWhile_imp member⟩,
      ⟨fun point member => paths point ((List.dropWhile_suffix isNamePoint).subset member), slash⟩, shas, trailer⟩
    · conv_lhs => rw [parted]
      simp only [List.append_assoc]
    · intro nameless
      rw [nameless, List.nil_append] at parted
      rw [← parted] at slash
      rcases slash with empty | ⟨more, rfl⟩
      · exact full empty
      · apply single
        simp only [LacksRepo, List.append_assoc, skipped owners.2]
        exact ⟨_, rfl⟩

/-! ### Unquoted values -/

private theorem removeEnd_split (point : Nat) (text : PyStr) : ∃ back, text = removeEnd point text ++ back := by
  by_cases last : text.getLast? = some point
  · obtain ⟨front, rfl⟩ := List.getLast?_eq_some_iff.mp last
    exact ⟨[point], by simp [removeEnd]⟩
  · exact ⟨[], by simp [removeEnd, last]⟩

private theorem removeFront_of_head {point : Nat} {text : PyStr} (other : text.head? ≠ some point) :
    removeFront point text = text := by
  rw [removeFront, if_neg other]

/-- Without a quote in front, `unquote` only shortens the value. -/
theorem trimmedValue_unquoted (unquoted : ¬ Quoted locale line) :
    ∃ back, trimmedValue locale line = valueOf locale line ++ back := by
  rw [valueOf]
  rw [Quoted, not_or] at unquoted
  generalize trimmedValue locale line = text at unquoted
  obtain ⟨back, double⟩ := removeEnd_split 0x22 text
  obtain ⟨back', single⟩ := removeEnd_split 0x27 (removeEnd 0x22 text)
  have kept {point : Nat} {front rest : PyStr} (head : front.head? = some point) :
      (front ++ rest).head? = some point := by
    rw [List.head?_append, head]
    rfl
  have first : removeFront 0x22 (removeEnd 0x22 text) = removeEnd 0x22 text := by
    refine removeFront_of_head fun head => unquoted.1 ?_
    rw [double]
    exact kept head
  have second : removeFront 0x27 (removeEnd 0x27 (removeEnd 0x22 text)) = removeEnd 0x27 (removeEnd 0x22 text) := by
    refine removeFront_of_head fun head => unquoted.2 ?_
    rw [double, single]
    exact kept (kept head)
  refine ⟨back' ++ back, ?_⟩
  rw [unquote, first, second, ← List.append_assoc, ← single]
  exact double

private theorem behindUses_stripped (picked : picksUp locale line = true) (unquoted : ¬ Quoted locale line)
    (shape : valueOf locale line = first :: middle ++ last :: back) (solid : isSpace first = false)
    (solidToo : isSpace last = false) :
    ∃ more, lstrip (rstrip (behindUses line)) = first :: middle ++ last :: more := by
  obtain ⟨gap, rest, whole, gaps, _⟩ := behindUses_eq picked
  obtain ⟨quotes, value⟩ := trimmedValue_unquoted unquoted
  refine ⟨rstrip (back ++ quotes ++ rest), ?_⟩
  have spread : behindUses line = (gap ++ first :: middle) ++ last :: (back ++ quotes ++ rest) := by
    rw [whole, value, shape]
    simp
  have ended : rstrip (behindUses line) = gap ++ (first :: (middle ++ last :: rstrip (back ++ quotes ++ rest))) := by
    rw [spread, rstrip, rdropWhile_append_solid solidToo]
    simp [rstrip]
  rw [ended, lstrip_append (locale.spaces gaps), lstrip_solid solid]
  rfl

private theorem passesTest_picked_iff (picked : picksUp locale line = true) :
    passesTest line = true ↔ lstrip (rstrip (behindUses line)) = [] ∨
      py "./" <+: lstrip (rstrip (behindUses line)) ∨ LooselyPinned (lstrip (rstrip (behindUses line))) := by
  rw [passesTest_eq picked]
  exact pinned_iff (List.dropWhile_idempotent isSpace _)

private theorem passesTest_of_local (picked : picksUp locale line = true) (unquoted : ¬ Quoted locale line)
    (own : py "./" <+: valueOf locale line) : passesTest line = true := by
  obtain ⟨back, shape⟩ := own
  have spelled : valueOf locale line = 0x2e :: [] ++ 0x2f :: back := shape.symm
  obtain ⟨more, read⟩ := behindUses_stripped picked unquoted spelled rfl rfl
  exact (passesTest_picked_iff picked).mpr (.inr (.inl ⟨more, read.symm⟩))

private theorem passesTest_of_commented (picked : picksUp locale line = true) (unquoted : ¬ Quoted locale line)
    (commented : Commented locale (valueOf locale line)) : passesTest line = true := by
  obtain ⟨reference, _, value, own, gap, lead, tag, rfl, ⟨apart, gaps⟩, leads, _⟩ := commented
  cases reference with
  | nil => cases own.sha
  | cons first reference =>
    have shape : valueOf locale line = first :: (reference ++ gap ++ py "#" ++ lead) ++ 0x76 :: tag := by
      rw [value]
      simp [py]
    obtain ⟨more, read⟩ := behindUses_stripped picked unquoted shape (own.solid first List.mem_cons_self) rfl
    refine (passesTest_picked_iff picked).mpr (.inr (.inr ⟨first :: reference, gap, py "#", lead, more, ?_, own.solid,
      own.sha, ⟨apart, locale.spaces gaps⟩, .inr rfl, locale.spaces leads⟩))
    rw [read]
    simp [py]

private theorem pinned_of_taken (picked : picksUp locale line = true) (plain : ¬ IsDocker (valueOf locale line))
    (unquoted : ¬ Quoted locale line) (whole : ¬ BreaksUp locale line)
    (taken : py "./" <+: valueOf locale line ∨ Commented locale (valueOf locale line)) :
    releaseWorkflowPinned line = true := by
  have passes : passesTest line = true := by
    rcases taken with own | commented
    · exact passesTest_of_local picked unquoted own
    · exact passesTest_of_commented picked unquoted commented
  by_contra refused
  have piece : ∃ piece ∈ splitlines line, ¬ TestTakes piece := by
    simpa only [releaseWorkflowPinned_iff, not_forall, exists_prop] using refused
  refine whole ⟨plain, unquoted, taken, ?_, piece⟩
  by_contra unbroken
  have full : line ≠ [] := by
    rintro rfl
    obtain ⟨_, _, _, _, same, _⟩ := picksUp_split picked
    simp at same
  rw [releaseWorkflowPinned_line full fun point member => by
    simpa using fun breaks : isLineBreak point = true => unbroken ⟨point, member, breaks⟩] at refused
  exact refused passes

/-- For every line that is picked up: the gate keeps the rule, and the test agrees on plain
references, unless the value is empty, the line breaks up for the test or, without being a
local path, lacks its comment, lacks its repository, or is taken by the test alone. -/
theorem gate_keeps_rule_iff (locale : Locale) {line : PyStr} (picked : picksUp locale line = true) :
    ((passesGate locale line = true ↔ Rule locale (valueOf locale line)) ∧
      (¬ IsDocker (valueOf locale line) → ¬ Quoted locale line →
        (passesGate locale line = true ↔ releaseWorkflowPinned line = true))) ↔
    valueOf locale line ≠ [] ∧ ¬ BreaksUp locale line ∧ (py "./" <+: valueOf locale line ∨
      (¬ Reference (valueOf locale line) ∧
        ¬ (Commented locale (valueOf locale line) ∧ LacksRepo (valueOf locale line)) ∧
        ¬ OnlyTestTakes locale line)) := by
  rw [passesGate_iff]
  constructor
  · rintro ⟨rule, agree⟩
    have full : valueOf locale line ≠ [] := by
      intro empty
      have none := rule.mp (.inl empty)
      rw [empty] at none
      rcases none with ⟨_, own⟩ | docker | action
      · cases own
      · obtain ⟨_, own⟩ := isDocker_of_dockerPinned docker
        cases own
      · obtain ⟨⟨_, _, same, reference, _⟩, _⟩ := actionPinned_iff.mp action
        rw [(List.append_eq_nil_iff.mp same.symm).1] at reference
        cases reference.sha
    have whole : ¬ BreaksUp locale line := by
      intro breaks
      obtain ⟨piece, member, refused⟩ := breaks.refused
      have taken := (agree breaks.plain breaks.unquoted).mp
        (breaks.taken.elim (fun own => .inr (.inl own)) fun commented => .inr (.inr (.inr (.inr commented))))
      exact refused (releaseWorkflowPinned_iff.mp taken piece member)
    refine ⟨full, whole, or_iff_not_imp_left.mpr fun other => ?_⟩
    have bare : ¬ Reference (valueOf locale line) := by
      intro reference
      rcases rule.mp (.inr (.inr (.inr (.inl reference)))) with own | docker | action
      · exact other own
      · exact not_dockerPinned reference [] (by rwa [List.append_nil])
      · exact not_actionPinned reference action
    refine ⟨bare, ?_, ?_⟩
    · rintro ⟨commented, lacking⟩
      rcases rule.mp (.inr (.inr (.inr (.inr commented)))) with own | docker | action
      · exact other own
      · exact not_dockerPinned_of_commented commented docker
      · exact (actionPinned_iff.mp action).2 lacking
    · intro only
      rcases (agree only.plain only.unquoted).mpr (releaseWorkflowPinned_iff.mpr only.taken) with
        empty | own | docker | reference | commented
      · exact full empty
      · exact other own
      · exact only.plain (isDocker_of_dockerPinned docker)
      · exact bare reference
      · exact only.refused commented
  · rintro ⟨full, whole, own | ⟨bare, named, joint⟩⟩
    · exact ⟨iff_of_true (.inr (.inl own)) (.inl own), fun plain unquoted =>
        iff_of_true (.inr (.inl own)) (pinned_of_taken picked plain unquoted whole (.inl own))⟩
    · have commented_iff : Commented locale (valueOf locale line) ↔ ActionPinned locale (valueOf locale line) :=
        ⟨fun commented => actionPinned_iff.mpr ⟨commented, fun lacking => named ⟨commented, lacking⟩⟩,
          fun action => (actionPinned_iff.mp action).1⟩
      refine ⟨by simp only [full, bare, commented_iff, Rule, false_or], fun plain unquoted => ?_⟩
      constructor
      · rintro (empty | own | docker | reference | commented)
        · exact absurd empty full
        · exact pinned_of_taken picked plain unquoted whole (.inl own)
        · exact absurd (isDocker_of_dockerPinned docker) plain
        · exact absurd reference bare
        · exact pinned_of_taken picked plain unquoted whole (.inr commented)
      · intro taken
        refine .inr (.inr (.inr (.inr ?_)))
        by_contra refused
        exact joint ⟨plain, unquoted, refused, releaseWorkflowPinned_iff.mp taken⟩

/-- With a tag in a comment, a plain reference keeps the rule. -/
theorem tagged_reference_keeps_rule :
    let line := py "      - uses: actions/checkout@de0fac2e4500dabe0009e67214ff5f5447ce83dd  # v6.0.2"
    (passesGate .posix line = true ↔ Rule .posix (valueOf .posix line)) ∧
      (¬ IsDocker (valueOf .posix line) → ¬ Quoted .posix line →
        (passesGate .posix line = true ↔ releaseWorkflowPinned line = true)) := by
  intro line
  have value : valueOf .posix line = py "actions/checkout@de0fac2e4500dabe0009e67214ff5f5447ce83dd  # v6.0.2" := by
    decide +kernel
  have bare : ¬ Reference (valueOf .posix line) := by
    intro reference
    have sign := reference.clean 0x23 (by rw [value]; decide +kernel)
    revert sign
    decide
  have commented : Commented .posix (valueOf .posix line) := by
    refine (actionPattern_iff.mp ?_).resolve_left bare
    rw [value]
    decide +kernel
  have unbroken : ¬ ∃ point ∈ line, isLineBreak point = true := by decide +kernel
  refine (gate_keeps_rule_iff .posix (by decide +kernel)).mpr
    ⟨by rw [value]; decide +kernel, fun breaks => unbroken breaks.broken, .inr ⟨bare, ?_, ?_⟩⟩
  · rintro ⟨_, lacking⟩
    rw [LacksRepo, value, ← List.isPrefixOf_iff_prefix] at lacking
    revert lacking
    decide +kernel
  · exact fun only => only.refused commented

/-- Without the comment the gate is content, the rule and the test are not. -/
theorem comment_is_not_required :
    let line := py "uses: actions/checkout@de0fac2e4500dabe0009e67214ff5f5447ce83dd"
    picksUp .posix line = true ∧ passesGate .posix line = true ∧ ¬ Rule .posix (valueOf .posix line) ∧
      ¬ IsDocker (valueOf .posix line) ∧ ¬ Quoted .posix line ∧ releaseWorkflowPinned line = false := by
  intro line
  have value : valueOf .posix line = py "actions/checkout@de0fac2e4500dabe0009e67214ff5f5447ce83dd" := by
    decide +kernel
  have trimmed : trimmedValue .posix line = py "actions/checkout@de0fac2e4500dabe0009e67214ff5f5447ce83dd" := by
    decide +kernel
  have plain : ¬ IsDocker (valueOf .posix line) := by
    rw [IsDocker, value, ← List.isPrefixOf_iff_prefix]
    decide +kernel
  have reference : Reference (valueOf .posix line) := by
    refine ⟨py "actions", py "checkout", py "de0fac2e4500dabe0009e67214ff5f5447ce83dd", value, ?_⟩
    decide +kernel
  refine ⟨by decide +kernel, by decide +kernel, ?_, plain, ?_, by decide +kernel⟩
  · rintro (own | docker | action)
    · rw [value, ← List.isPrefixOf_iff_prefix] at own
      revert own
      decide +kernel
    · exact plain (isDocker_of_dockerPinned docker)
    · exact not_actionPinned reference action
  · rw [Quoted, trimmed]
    decide +kernel

end Agreement

end Charybdis.Scripts
