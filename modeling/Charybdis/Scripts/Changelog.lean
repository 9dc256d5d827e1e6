import Charybdis.Foundation.Dictionary
import Charybdis.Scripts.BashText

/-! The changelog generator: the log git prints, the loop that sorts its subjects into
buckets, and the fragment the buckets are replayed into. -/

namespace Charybdis.Scripts

open Foundation

/-! ### The script -/

/-- The types with their headings, in the order they are replayed in. -/
def sections : List (Bytes × Bytes) :=
  [(ascii "feat", ascii "### Added"), (ascii "fix", ascii "### Fixed"),
   (ascii "perf", ascii "### Performance"), (ascii "refactor", ascii "### Changed"),
   (ascii "docs", ascii "### Documentation"), (ascii "chore", ascii "### Maintenance"),
   (ascii "ci", ascii "### CI"), (ascii "test", ascii "### Tests"), (ascii "build", ascii "### Build")]

def isTab (byte : UInt8) : Bool := byte = 0x09

/-- The second variable of `IFS=$'\t' read -r _hash subject`: tabs around the line and
between its fields are dropped. -/
def subjectField (line : Bytes) : Bytes :=
  ((((line.dropWhile isTab).dropWhile fun byte => !isTab byte).dropWhile isTab).rdropWhile isTab)

/-- The type a subject starts with: up to the first colon, then up to the first parenthesis,
without blanks. -/
def commitType (subject : Bytes) : Bytes := (cutAt 0x28 (cutAt 0x3a subject)).filter (· ≠ 0x20)

def bullet (text : Bytes) : Bytes := ascii "- " ++ text ++ [0x0a]

abbrev Buckets := Dict Bytes Bytes

/-- `${buckets[<key>]:-}`. -/
def bucketOf (buckets : Buckets) (key : Bytes) : Bytes := (buckets.get? key).getD []

def appendBullet (buckets : Buckets) (key text : Bytes) : Buckets :=
  buckets.set key (bucketOf buckets key ++ bullet text)

/-- The body of the loop. -/
def recordSubject (buckets : Buckets) (subject : Bytes) : Buckets :=
  if (sections.lookup (commitType subject)).isSome then
    appendBullet buckets (commitType subject) (removeThrough (ascii ": ") subject)
  else appendBullet buckets (ascii "other") subject

/-- A section of the output, if its bucket is not empty. -/
def sectionText (heading bucket : Bytes) : Bytes :=
  if bucket = [] then [] else heading ++ [0x0a] ++ bucket ++ [0x0a]

/-- The script on the output of `git log`. -/
def generateChangelog (log : Bytes) : Bytes :=
  let buckets := ((readLines log).map subjectField).foldl recordSubject .empty
  let output := sections.flatMap (fun entry => sectionText entry.2 (bucketOf buckets entry.1)) ++
    sectionText (ascii "### Other") (bucketOf buckets (ascii "other"))
  if output = [] then ascii "No significant changes." ++ [0x0a] else output

/-- A commit as `--pretty=format:"%H%x09%s"` prints it; its subject is one line and has no
byte that means something in the subscript of an array. -/
structure Commit where
  hash : Bytes
  subject : Bytes
  hexadecimal : hash ≠ [] ∧ hash.all (fun byte => (ascii "0123456789abcdef").contains byte) = true
  nonempty : subject ≠ []
  single : 0x0a ∉ subject ∧ 0x00 ∉ subject
  unsubscripted : ∀ byte ∈ subject, byte ∉ ascii "[]$\\\"'@*" ++ [0x60]

/-- The log of a range: a newline between two entries and none after the last. -/
def gitLog (commits : List Commit) : Bytes :=
  [0x0a].intercalate (commits.map fun commit => commit.hash ++ 0x09 :: commit.subject)

/-! ### What a fragment is to say -/

/-- A bullet and the section it belongs to. -/
structure Entry where
  key : Bytes
  text : Bytes

/-- The sections of a fragment in their order, by the keys of the buckets. -/
def sectionKeys : List Bytes := sections.map Prod.fst ++ [ascii "other"]

def headingOf (key : Bytes) : Bytes := (sections.lookup key).getD (ascii "### Other")

def bulletsOf (entries : List Entry) (key : Bytes) : Bytes :=
  (entries.filter fun entry => entry.key = key).flatMap fun entry => bullet entry.text

/-- The fragment with the given bullets, each section in the order they are given in. -/
def fragmentOf (entries : List Entry) : Bytes :=
  let output := sectionKeys.flatMap fun key => sectionText (headingOf key) (bulletsOf entries key)
  if output = [] then ascii "No significant changes." ++ [0x0a] else output

/-- A subject of one of the forms `type: text`, `type(scope): text` and `type(scope)!: text`. -/
def Conventional (subject type text : Bytes) : Prop :=
  subject = type ++ ascii ": " ++ text ∨
    ∃ scope, 0x3a ∉ scope ∧ (subject = type ++ ascii "(" ++ scope ++ ascii "): " ++ text ∨
      subject = type ++ ascii "(" ++ scope ++ ascii ")!: " ++ text)

/-- A bullet says its commit: in one line, under its type if it has a listed one, and whole
if there is nothing to take off. -/
structure Tells (subject : Bytes) (entry : Entry) : Prop where
  listed : entry.key ∈ sectionKeys
  single : 0x0a ∉ entry.text
  conventional : ∀ type text, type ∈ sections.map Prod.fst → Conventional subject type text →
    entry.key = type ∧ entry.text = text
  whole : ¬ ascii ": " <:+: subject → entry.text = subject

/-- One bullet for each commit, in order, and nothing else. -/
def Complete (commits : List Commit) (fragment : Bytes) : Prop :=
  ∃ entries, List.Forall₂ (fun commit entry => Tells commit.subject entry) commits entries ∧
    fragment = fragmentOf entries

/-! ### The fragment is made of the entries the loop records -/

/-- What the loop makes of a subject. -/
def entryOf (subject : Bytes) : Entry :=
  if (sections.lookup (commitType subject)).isSome then
    ⟨commitType subject, removeThrough (ascii ": ") subject⟩
  else ⟨ascii "other", subject⟩

private theorem bucketOf_append (buckets : Buckets) (key other text : Bytes) :
    bucketOf (appendBullet buckets key text) other =
      bucketOf buckets other ++ if key = other then bullet text else [] := by
  rw [bucketOf, appendBullet, Dict.get?_set]
  by_cases same : key = other
  · simp [same]
  · simp [same, Ne.symm same, bucketOf]

private theorem recordSubject_eq (buckets : Buckets) (subject : Bytes) :
    recordSubject buckets subject = appendBullet buckets (entryOf subject).key (entryOf subject).text := by
  unfold recordSubject entryOf
  split <;> rfl

private theorem bucketOf_foldl (subjects : List Bytes) (buckets : Buckets) (key : Bytes) :
    bucketOf (subjects.foldl recordSubject buckets) key =
      bucketOf buckets key ++ bulletsOf (subjects.map entryOf) key := by
  induction subjects generalizing buckets with
  | nil => simp [bulletsOf]
  | cons subject rest ih =>
    rw [List.foldl_cons, ih, recordSubject_eq, bucketOf_append, List.append_assoc]
    by_cases same : (entryOf subject).key = key
    · simp [bulletsOf, same]
    · simp [bulletsOf, same]

private theorem headingOf_section : ∀ entry ∈ sections, headingOf entry.1 = entry.2 := by decide

private theorem headingOf_other : headingOf (ascii "other") = ascii "### Other" := by decide

/-- The script writes the fragment of the entries of the lines it reads. -/
theorem generateChangelog_eq (log : Bytes) :
    generateChangelog log = fragmentOf (((readLines log).map subjectField).map entryOf) := by
  have filled (key : Bytes) : bucketOf (((readLines log).map subjectField).foldl recordSubject .empty) key =
      bulletsOf (((readLines log).map subjectField).map entryOf) key := by
    rw [bucketOf_foldl]
    rfl
  have replayed : sections.flatMap (fun entry => sectionText entry.2
        (bulletsOf (((readLines log).map subjectField).map entryOf) entry.1)) =
      (sections.map Prod.fst).flatMap fun key => sectionText (headingOf key)
        (bulletsOf (((readLines log).map subjectField).map entryOf) key) := by
    rw [List.flatMap_map]
    apply List.flatMap_congr
    intro entry member
    rw [headingOf_section entry member]
  simp only [generateChangelog, filled, replayed, fragmentOf, sectionKeys, List.flatMap_append,
    List.flatMap_singleton, headingOf_other]

/-! ### Bullets are counted by their lines -/

/-- The lines of a text that are bullets. -/
def bulletCount (text : Bytes) : Nat := (text.splitOn 0x0a).countP (ascii "- ").isPrefixOf

private theorem bulletCount_line {line : Bytes} (single : 0x0a ∉ line) (rest : Bytes) :
    bulletCount (line ++ 0x0a :: rest) =
      bulletCount rest + if (ascii "- ").isPrefixOf line = true then 1 else 0 := by
  rw [bulletCount, List.splitOn_append_cons_self_of_not_mem single, List.countP_cons]
  rfl

private theorem bulletCount_bullets {entries : List Entry} (single : ∀ entry ∈ entries, 0x0a ∉ entry.text)
    (rest : Bytes) :
    bulletCount (entries.flatMap (fun entry => bullet entry.text) ++ rest) =
      entries.length + bulletCount rest := by
  induction entries with
  | nil => simp
  | cons entry others ih =>
    have own : 0x0a ∉ ascii "- " ++ entry.text := by
      rw [List.mem_append, not_or]
      exact ⟨by decide, single entry List.mem_cons_self⟩
    have start : (ascii "- ").isPrefixOf (ascii "- " ++ entry.text) = true :=
      List.isPrefixOf_iff_prefix.mpr (List.prefix_append _ _)
    have shape : (entry :: others).flatMap (fun entry => bullet entry.text) ++ rest =
        (ascii "- " ++ entry.text) ++ 0x0a :: (others.flatMap (fun entry => bullet entry.text) ++ rest) := by
      simp [bullet]
    rw [shape, bulletCount_line own, if_pos start, ih fun other member => single other (List.mem_cons_of_mem _ member),
      List.length_cons]
    omega

private theorem headings_plain : ∀ key ∈ sectionKeys,
    0x0a ∉ headingOf key ∧ (ascii "- ").isPrefixOf (headingOf key) = false := by
  decide

private theorem bulletCount_section {entries : List Entry} {key : Bytes} (known : key ∈ sectionKeys)
    (single : ∀ entry ∈ entries, 0x0a ∉ entry.text) (rest : Bytes) :
    bulletCount (sectionText (headingOf key) (bulletsOf entries key) ++ rest) =
      (entries.filter fun entry => entry.key = key).length + bulletCount rest := by
  obtain ⟨oneLine, noBullet⟩ := headings_plain key known
  have own : ∀ entry ∈ entries.filter (fun entry => entry.key = key), 0x0a ∉ entry.text :=
    fun entry member => single entry (List.mem_filter.mp member).1
  by_cases empty : bulletsOf entries key = []
  · have none : entries.filter (fun entry => entry.key = key) = [] := by
      by_contra some
      obtain ⟨entry, others, split⟩ := List.exists_cons_of_ne_nil some
      rw [bulletsOf, split, List.flatMap_cons] at empty
      simp [bullet] at empty
    rw [sectionText, if_pos empty, none]
    simp
  · have shape : sectionText (headingOf key) (bulletsOf entries key) ++ rest =
        headingOf key ++ 0x0a :: (bulletsOf entries key ++ ([] ++ 0x0a :: rest)) := by
      simp [sectionText, empty]
    rw [shape, bulletCount_line oneLine, bulletsOf, bulletCount_bullets own, bulletCount_line (by simp),
      if_neg (by decide), if_neg (by simp [noBullet])]
    rfl

private theorem sum_indicator (keys : List Bytes) (wanted : Bytes) :
    (keys.map fun key => if key = wanted then 1 else 0).sum = keys.count wanted := by
  induction keys with
  | nil => rfl
  | cons key rest ih =>
    rw [List.map_cons, List.sum_cons, ih, List.count_cons]
    by_cases same : key = wanted
    · simp [same, Nat.add_comm]
    · simp [same]

private theorem sum_sections {entries : List Entry} (listed : ∀ entry ∈ entries, entry.key ∈ sectionKeys) :
    (sectionKeys.map fun key => (entries.filter fun entry => entry.key = key).length).sum = entries.length := by
  have distinct : sectionKeys.Nodup := by decide
  induction entries with
  | nil => simp
  | cons entry others ih =>
    have one : sectionKeys.count entry.key = 1 :=
      List.count_eq_one_of_mem distinct (listed entry List.mem_cons_self)
    have split : (sectionKeys.map fun key => ((entry :: others).filter fun entry => entry.key = key).length) =
        sectionKeys.map fun key => (if key = entry.key then 1 else 0) +
          (others.filter fun entry => entry.key = key).length := by
      apply List.map_congr_left
      intro key _
      by_cases same : entry.key = key
      · simp [same, Nat.add_comm]
      · simp [same, Ne.symm same]
    rw [split, List.sum_map_add, sum_indicator, one,
      ih fun other member => listed other (List.mem_cons_of_mem _ member),
      List.length_cons]
    omega

theorem bulletCount_fragmentOf {entries : List Entry} (listed : ∀ entry ∈ entries, entry.key ∈ sectionKeys)
    (single : ∀ entry ∈ entries, 0x0a ∉ entry.text) : bulletCount (fragmentOf entries) = entries.length := by
  have parts (keys : List Bytes) (known : keys ⊆ sectionKeys) :
      bulletCount (keys.flatMap fun key => sectionText (headingOf key) (bulletsOf entries key)) =
        (keys.map fun key => (entries.filter fun entry => entry.key = key).length).sum := by
    induction keys with
    | nil => rfl
    | cons key rest ih =>
      rw [List.flatMap_cons, bulletCount_section (known List.mem_cons_self) single,
        ih fun _ member => known (List.mem_cons_of_mem _ member), List.map_cons, List.sum_cons]
  have whole := (parts sectionKeys (List.Subset.refl _)).trans (sum_sections listed)
  unfold fragmentOf
  simp only
  split
  · rename_i empty
    rw [empty] at whole
    rw [← whole]
    decide
  · exact whole

/-! ### The end of the log -/

def logLine (commit : Commit) : Bytes := commit.hash ++ 0x09 :: commit.subject

/-- The subject a turn of the loop sees. -/
def seenSubject (commit : Commit) : Bytes := (commit.subject.dropWhile isTab).rdropWhile isTab

private theorem hash_plain (commit : Commit) : ∀ byte ∈ commit.hash, byte ≠ 0x0a ∧ isTab byte = false := by
  have digits : ∀ byte ∈ ascii "0123456789abcdef", byte ≠ 0x0a ∧ isTab byte = false := by decide +kernel
  intro byte member
  apply digits
  simpa using List.all_eq_true.mp commit.hexadecimal.2 byte member

private theorem logLine_single (commit : Commit) : 0x0a ∉ logLine commit := by
  simp only [logLine, List.mem_append, List.mem_cons, not_or]
  exact ⟨fun inside => (hash_plain commit _ inside).1 rfl, by decide, commit.single.1⟩

/-- The loop has a turn for every commit but the last. -/
theorem readLines_gitLog (nonempty : commits ≠ []) :
    readLines (gitLog commits) = (commits.map logLine).dropLast := by
  have single : ∀ line ∈ commits.map logLine, 0x0a ∉ line := by
    intro line member
    obtain ⟨commit, _, same⟩ := List.mem_map.mp member
    exact same ▸ logLine_single commit
  rw [readLines, gitLog]
  exact congrArg List.dropLast (List.splitOn_intercalate 0x0a single (by simpa using nonempty))

private theorem subjectField_logLine (commit : Commit) : subjectField (logLine commit) = seenSubject commit := by
  have digits : ∀ byte ∈ commit.hash, (!isTab byte) = true := fun byte member => by
    simp [(hash_plain commit byte member).2]
  obtain ⟨first, rest, split⟩ := List.exists_cons_of_ne_nil commit.hexadecimal.1
  have start : (logLine commit).dropWhile isTab = logLine commit := by
    have solid := (hash_plain commit first (by simp [split])).2
    simp [logLine, split, solid]
  have field : (logLine commit).dropWhile (fun byte => !isTab byte) = 0x09 :: commit.subject := by
    rw [logLine, List.dropWhile_append_of_pos digits]
    simp [isTab]
  have tab : (0x09 :: commit.subject).dropWhile isTab = commit.subject.dropWhile isTab := by simp [isTab]
  rw [subjectField, start, field, tab, seenSubject]

/-- The fragment is the one of the commits without the last. -/
theorem generateChangelog_gitLog (nonempty : commits ≠ []) :
    generateChangelog (gitLog commits) =
      fragmentOf (commits.dropLast.map fun commit => entryOf (seenSubject commit)) := by
  rw [generateChangelog_eq, readLines_gitLog nonempty, ← List.map_dropLast, List.map_map, List.map_map]
  congr 2
  funext commit
  exact congrArg entryOf (subjectField_logLine commit)

private theorem seenSubject_sub (commit : Commit) : seenSubject commit <:+: commit.subject :=
  (List.rdropWhile_prefix isTab _).isInfix.trans (List.dropWhile_suffix isTab).isInfix

private theorem entryOf_listed (subject : Bytes) : (entryOf subject).key ∈ sectionKeys := by
  unfold entryOf
  split
  · rename_i known
    obtain ⟨heading, found⟩ := Option.isSome_iff_exists.mp known
    obtain ⟨before, after, split, _⟩ := List.lookup_eq_some_iff.mp found
    simp [sectionKeys, split]
  · simp [sectionKeys]

private theorem entryOf_sub {subject : Bytes} (member : byte ∈ (entryOf subject).text) : byte ∈ subject := by
  unfold entryOf at member
  split at member
  · exact removeThrough_sub member
  · exact member

private theorem seen_single (commit : Commit) : 0x0a ∉ (entryOf (seenSubject commit)).text :=
  fun inside => commit.single.1 ((seenSubject_sub commit).subset (entryOf_sub inside))

/-! ### What is recorded is recorded right -/

private theorem types_plain : ∀ type ∈ sections.map Prod.fst,
    0x3a ∉ type ∧ 0x28 ∉ type ∧ 0x20 ∉ type ∧ (sections.lookup type).isSome = true := by
  decide

private theorem commitType_plain {type : Bytes} (paren : 0x28 ∉ type) (blank : 0x20 ∉ type)
    (start : cutAt 0x3a subject = type ∨ ∃ rest, cutAt 0x3a subject = type ++ 0x28 :: rest) :
    commitType subject = type := by
  have cut : cutAt 0x28 (cutAt 0x3a subject) = type := by
    rcases start with same | ⟨rest, same⟩
    · rw [same, cutAt_of_not_mem paren]
    · rw [same, cutAt_append paren]
  rw [commitType, cut, List.filter_eq_self]
  exact fun byte member => decide_eq_true fun same => blank (same ▸ member)

private theorem conventional_cut {type text : Bytes} (colon : 0x3a ∉ type) (shape : Conventional subject type text) :
    ∃ before, 0x3a ∉ before ∧ subject = before ++ ascii ": " ++ text ∧
      (before = type ∨ ∃ rest, before = type ++ 0x28 :: rest) := by
  rcases shape with same | ⟨scope, plain, same | same⟩
  · exact ⟨type, colon, same, .inl rfl⟩
  · refine ⟨type ++ 0x28 :: (scope ++ [0x29]), ?_, by simp [same, ascii], .inr ⟨_, rfl⟩⟩
    simp [colon, plain]
  · refine ⟨type ++ 0x28 :: (scope ++ [0x29, 0x21]), ?_, by simp [same, ascii], .inr ⟨_, rfl⟩⟩
    simp [colon, plain]

/-- The bullet of a subject that is seen as it was written. -/
theorem tells_entryOf {subject : Bytes} (single : 0x0a ∉ subject) : Tells subject (entryOf subject) where
  listed := entryOf_listed subject
  single := fun inside => single (entryOf_sub inside)
  conventional := by
    intro type text known shape
    obtain ⟨colon, paren, blank, listed⟩ := types_plain type known
    obtain ⟨before, plain, split, start⟩ := conventional_cut colon shape
    have separator : ascii ": " = [0x3a, 0x20] := by decide
    rw [separator] at split
    have cut : cutAt 0x3a subject = before := by
      rw [split, List.append_assoc, List.cons_append]
      exact cutAt_append plain _
    have found : commitType subject = type := commitType_plain paren blank (by rw [cut]; exact start)
    have body : removeThrough (ascii ": ") subject = text := by
      rw [separator, removeThrough, split, dropThrough_append plain]
      rfl
    simp [entryOf, found, listed, body]
  whole := by
    intro absent
    unfold entryOf
    split
    · rw [removeThrough, (dropThrough_none_iff (by decide)).mpr absent]
      rfl
    · rfl

/-- Of a log whose subjects neither start nor end in a tab, everything but the last commit is
told. -/
theorem others_are_told (commits : List Commit) (nonempty : commits ≠ [])
    (trimmed : ∀ commit ∈ commits, seenSubject commit = commit.subject) :
    Complete commits.dropLast (generateChangelog (gitLog commits)) := by
  refine ⟨_, ?_, generateChangelog_gitLog nonempty⟩
  rw [List.forall₂_map_right_iff, List.forall₂_same]
  intro commit member
  rw [trimmed commit (List.mem_of_mem_dropLast member)]
  exact tells_entryOf commit.single.1

/-- The last entry of the log has no newline, so no log has a bullet for each of its commits. -/
theorem last_commit_is_lost (commits : List Commit) (nonempty : commits ≠ []) :
    ¬ Complete commits (generateChangelog (gitLog commits)) := by
  rintro ⟨entries, told, same⟩
  have given : bulletCount (fragmentOf entries) = commits.length := by
    have sound : ∀ entry ∈ entries, entry.key ∈ sectionKeys ∧ 0x0a ∉ entry.text := by
      clear same nonempty
      induction told with
      | nil => simp
      | cons first _ ih => exact List.forall_mem_cons.mpr ⟨⟨first.listed, first.single⟩, ih⟩
    rw [bulletCount_fragmentOf (fun entry member => (sound entry member).1) fun entry member => (sound entry member).2,
      told.length_eq]
  have written : bulletCount (generateChangelog (gitLog commits)) = commits.length - 1 := by
    rw [generateChangelog_gitLog nonempty, bulletCount_fragmentOf, List.length_map, List.length_dropLast]
    · intro entry member
      obtain ⟨commit, _, same⟩ := List.mem_map.mp member
      exact same ▸ entryOf_listed _
    · intro entry member
      obtain ⟨commit, _, same⟩ := List.mem_map.mp member
      exact same ▸ seen_single commit
  have positive := List.length_pos_iff.mpr nonempty
  rw [same, given] at written
  omega

/-- Twenty bytes of a hash, and a subject of the first section. -/
def sampleCommit : Commit where
  hash := ascii "3f786850e387550fdab8"
  subject := ascii "feat(client): retry"
  hexadecimal := by decide +kernel
  nonempty := by decide
  single := by decide
  unsubscripted := by decide +kernel

/-- A single commit, though of a listed type, makes no significant change. -/
theorem only_commit_is_lost : ¬ Complete [sampleCommit] (generateChangelog (gitLog [sampleCommit])) := by
  rintro ⟨entries, told, same⟩
  have nothing : generateChangelog (gitLog [sampleCommit]) = ascii "No significant changes." ++ [0x0a] := by
    decide +kernel
  cases told with
  | cons first rest =>
    cases rest
    rename_i entry
    have count : bulletCount (fragmentOf [entry]) = 1 :=
      bulletCount_fragmentOf (by simpa using first.listed) (by simpa using first.single)
    have none : bulletCount (ascii "No significant changes." ++ [0x0a]) = 0 := by decide +kernel
    rw [← same, nothing, none] at count
    cases count

theorem older_commit_is_lost :
    ¬ Complete [sampleCommit, sampleCommit] (generateChangelog (gitLog [sampleCommit, sampleCommit])) :=
  last_commit_is_lost [sampleCommit, sampleCommit] (by simp)

end Charybdis.Scripts
