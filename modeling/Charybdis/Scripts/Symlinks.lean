import Charybdis.Foundation.FileTree
import Charybdis.Foundation.Utf8

/-! The check on symbolic links: every link outside of `.git` must exist and lead into the
repository. What that says about the paths one can walk from the root of the repository. -/

namespace Charybdis.Scripts

open Foundation

def segmentKind (segment : Bytes) : Segment :=
  if segment = [] ∨ segment = ascii "." then .stays else if segment = ascii ".." then .climbs else .names

/-- What `ln -s` makes of a text. -/
def symlinkTo (text : Bytes) : Node Bytes := .link (text.head? = some 0x2f) (text.splitOn 0x2f)

/-- A working tree with all that surrounds it, by physical paths. -/
abbrev Tree := FileTree segmentKind

/-- How many links the kernel follows on one path. -/
def maxLinks : Nat := 40

def pathText (path : List Bytes) : Bytes := path.flatMap fun segment => 0x2f :: segment

/-- An error of the script: one of its own, with the link and its target, or the `cd` that
ends it. -/
inductive SymlinkError where
  | escapes (link : List Bytes) (target : List Bytes)
  | broken (link : List Bytes) (target : List Bytes)
  | cannotEnter (link : List Bytes)
  deriving DecidableEq

/-- What the script says; of a failed `cd` the shell does. -/
def SymlinkError.text : SymlinkError → Option Bytes
  | .escapes link target =>
    some (ascii "ERROR: symlink escapes repo: " ++ pathText link ++ ascii " -> " ++ [0x2f].intercalate target)
  | .broken link target =>
    some (ascii "ERROR: broken symlink: " ++ pathText link ++ ascii " -> " ++ [0x2f].intercalate target)
  | .cannotEnter _ => none

/-- A path as `$(...)` captures it, without its final newlines. -/
def captured : List Bytes → List Bytes
  | [] => []
  | [last] => [last.rdropWhile (· = 0x0a)]
  | first :: next :: rest => first :: captured (next :: rest)

/-- The characters that are special to `fnmatch`. -/
def fnmatchBytes : Bytes := ascii "*?[\\"

section Script

variable (glob : Bytes → Bytes → Bool) (tree : Tree) (root : List Bytes)

def gitDir : List Bytes := root ++ [ascii ".git"]

/-- `-path "$ROOT/.git" -prune`, for one path or a directory above it; `glob` is `fnmatch`. -/
def isPruned (path : List Bytes) : Bool :=
  path.inits.any fun front => root.isPrefixOf front && glob (pathText (gitDir root)) (pathText front)

/-- `find "$ROOT" -path "$ROOT/.git" -prune -o -type l`, for one path. -/
def isFound (path : List Bytes) : Bool := root.isPrefixOf path && !isPruned glob root path

/-- The links that `find` prints, each with what `readlink` prints for it. -/
def foundLinks : List (List Bytes × Bool × List Bytes) :=
  tree.nodes.entries.filterMap fun entry =>
    match entry.2 with
    | .link absolute target => if isFound glob root entry.1 then some (entry.1, absolute, target) else none
    | _ => none

/-- `"$ROOT"|"$ROOT"/*`; below `/` the second pattern matches nothing. -/
def inRoot (resolved : List Bytes) : Bool := resolved = root || (root ≠ [] && root.isPrefixOf resolved)

/-- `$(cd "$(dirname -- "$link")" && pwd -P)`. -/
def linkDirectory (link : List Bytes) : Option (List Bytes) :=
  (walk tree.look maxLinks [] (captured link.dropLast)).bind fun reached =>
    if tree.node reached.1 = some .directory then some (captured reached.1) else none

/-- `abs`: an absolute target as it is, another behind the directory of the link. -/
def linkPath (link : List Bytes) (absolute : Bool) (target : List Bytes) : Option (List Bytes) :=
  if absolute then some (captured target) else (linkDirectory tree link).map (· ++ captured target)

/-- `$(readlink -m -- "$abs")`. -/
def resolved (path : List Bytes) : Option (List Bytes) :=
  (walk tree.lookMissing maxLinks [] path).map fun reached => captured reached.1

/-- `[ -e "$link" ]`. -/
def linkExists (link : List Bytes) : Bool := (walk tree.look maxLinks [] link).isSome

/-- One turn of the loop. A link in a circle is an error in any case: it does not exist. -/
def linkErrors (link target path : List Bytes) : List SymlinkError :=
  (if (resolved tree path).all (inRoot root) then [] else [.escapes link target]) ++
    if linkExists tree link then [] else [.broken link target]

/-- The loop; `set -e` ends it at a directory that cannot be entered. -/
def checkLinks : List (List Bytes × Bool × List Bytes) → List SymlinkError
  | [] => []
  | (link, absolute, target) :: rest =>
    match linkPath tree link absolute target with
    | none => [.cannotEnter link]
    | some path => linkErrors tree root link target path ++ checkLinks rest

def symlinkErrors : List SymlinkError := checkLinks tree root (foundLinks glob tree root)

/-- Whether the script succeeds. -/
def symlinkCheck : Bool := (symlinkErrors glob tree root).isEmpty

/-! ### Ways through the repository -/

/-- The way that the names take from the root never looks up anything in `.git`. -/
def KeepsOff (names : List Bytes) : Prop :=
  ∀ front name, front ++ [name] <+: names → ∀ place left,
    walk tree.look maxLinks root front = some (place, left) → ¬ gitDir root <+: place ++ [name]

/-- All links outside of `.git` lead somewhere, and no way through the repository that keeps
off `.git` leads out of it. -/
structure Confined : Prop where
  arrive : ∀ link absolute target, tree.node link = some (.link absolute target) → root <+: link →
    ¬ gitDir root <+: link → ∃ place left, walk tree.look maxLinks [] link = some (place, left)
  inside : ∀ names, (∀ name ∈ names, segmentKind name = .names) → KeepsOff tree root names →
    ∀ place left, walk tree.look maxLinks root names = some (place, left) → root <+: place

/-- A segment without a slash that does not end in a newline. -/
def PlainName (name : Bytes) : Prop := 0x2f ∉ name ∧ name.getLast? ≠ some 0x0a

structure PlainTree : Prop where
  names : ∀ entry ∈ tree.nodes.entries, ∀ name ∈ entry.1, PlainName name
  targets : ∀ link absolute target, tree.node link = some (.link absolute target) → ∀ name ∈ target, PlainName name

/-- A pattern without special characters matches itself alone. -/
def TakesLiterally : Prop :=
  ∀ pattern text, (∀ byte ∈ pattern, byte ∉ fnmatchBytes) → (glob pattern text = true ↔ pattern = text)

end Script

section Paths

theorem captured_of_plain {path : List Bytes} (plain : ∀ name ∈ path, PlainName name) : captured path = path := by
  induction path with
  | nil => rfl
  | cons first rest ih =>
    obtain ⟨own, others⟩ := List.forall_mem_cons.mp plain
    cases rest with
    | nil =>
      have kept : first.rdropWhile (· = 0x0a) = first := by
        rw [List.rdropWhile_eq_self_iff]
        intro nonempty newline
        apply own.2
        rw [List.getLast?_eq_some_getLast nonempty, of_decide_eq_true newline]
      rw [captured, kept]
    | cons next rest => rw [captured, ih others]

theorem pathText_injective {first second : List Bytes} (plain : ∀ name ∈ first, PlainName name)
    (plain' : ∀ name ∈ second, PlainName name) (same : pathText first = pathText second) : first = second := by
  have cut (name : Bytes) (clean : PlainName name) (rest : List Bytes) :
      (name ++ pathText rest).takeWhile (· ≠ 0x2f) = name := by
    have inside : ∀ byte ∈ name, decide (byte ≠ 0x2f) = true := fun byte member =>
      decide_eq_true fun slash => clean.1 (slash ▸ member)
    rw [List.takeWhile_append_of_pos inside]
    cases rest <;> simp [pathText]
  induction first generalizing second with
  | nil =>
    cases second with
    | nil => rfl
    | cons => simp [pathText] at same
  | cons name rest ih =>
    obtain ⟨own, others⟩ := List.forall_mem_cons.mp plain
    cases second with
    | nil => simp [pathText] at same
    | cons name' rest' =>
      obtain ⟨own', others'⟩ := List.forall_mem_cons.mp plain'
      have texts : name ++ pathText rest = name' ++ pathText rest' := by simpa [pathText] using same
      have equal : name = name' := by
        rw [← cut name own rest, texts, cut name' own' rest']
      subst equal
      rw [ih others others' (List.append_cancel_left texts)]

end Paths

section Check

variable {glob : Bytes → Bytes → Bool} {tree : Tree} {root link target place : List Bytes}

/-- With a root to be taken literally, `find` leaves out `.git` and nothing else. -/
theorem isFound_iff (literal : TakesLiterally glob) (unglobbed : ∀ name ∈ root, ∀ byte ∈ name, byte ∉ fnmatchBytes)
    (plainRoot : ∀ name ∈ root, PlainName name) (plain : ∀ name ∈ link, PlainName name) :
    isFound glob root link = true ↔ root <+: link ∧ ¬ gitDir root <+: link := by
  have whole : ∀ byte ∈ pathText (gitDir root), byte ∉ fnmatchBytes := by
    intro byte member
    simp only [pathText, gitDir, List.flatMap_append, List.mem_append, List.mem_flatMap, List.mem_cons] at member
    rcases member with ⟨name, inside, slash | own⟩ | ⟨name, inside, slash | own⟩
    · subst slash
      decide
    · exact unglobbed name inside byte own
    · subst slash
      decide
    · have dotted : ∀ byte ∈ ascii ".git", byte ∉ fnmatchBytes := by decide +kernel
      have same : name = ascii ".git" := by simpa using inside
      exact dotted byte (same ▸ own)
  have plainGit : ∀ name ∈ gitDir root, PlainName name := by
    intro name member
    rcases List.mem_append.mp member with early | last
    · exact plainRoot name early
    · rw [List.mem_singleton.mp last]
      exact ⟨by decide, by decide⟩
  have pruned : isPruned glob root link = true ↔ gitDir root <+: link := by
    simp only [isPruned, List.any_eq_true, List.mem_inits, Bool.and_eq_true, List.isPrefixOf_iff_prefix,
      literal _ _ whole]
    constructor
    · rintro ⟨front, initial, _, same⟩
      rwa [pathText_injective plainGit (fun name member => plain name (initial.subset member)) same]
    · exact fun initial => ⟨gitDir root, initial, List.prefix_append _ _, rfl⟩
  rw [isFound, Bool.and_eq_true, Bool.not_eq_true', ← Bool.not_eq_true, pruned, List.isPrefixOf_iff_prefix]

theorem inRoot_iff (nonempty : root ≠ []) : inRoot root place = true ↔ root <+: place := by
  simp only [inRoot, Bool.or_eq_true, decide_eq_true_eq, Bool.and_eq_true, List.isPrefixOf_iff_prefix, ne_eq, nonempty,
    not_false_eq_true, decide_true, true_and]
  refine ⟨?_, .inr⟩
  rintro (same | inside)
  · rw [same]
  · exact inside

theorem node_link : tree.node link = some (.link absolute target) ↔
    (link, .link absolute target) ∈ tree.nodes.entries := by
  rw [Dict.mem_entries_iff, FileTree.node]
  split
  · subst link
    refine ⟨fun same => ?_, fun listed => ?_⟩
    · cases same
    · exact absurd rfl (tree.named _ ((Dict.mem_entries_iff _).mpr listed)).1
  · rfl

theorem PlainTree.path {kept : Node Bytes} (plain : PlainTree tree) (node : tree.node link = some kept) :
    ∀ name ∈ link, PlainName name := by
  unfold FileTree.node at node
  split at node
  · subst link
    simp
  · exact plain.names _ ((Dict.mem_entries_iff _).mpr node)

theorem mem_foundLinks : (link, absolute, target) ∈ foundLinks glob tree root ↔
    tree.node link = some (.link absolute target) ∧ isFound glob root link = true := by
  rw [foundLinks, List.mem_filterMap, node_link]
  constructor
  · rintro ⟨⟨path, node⟩, listed, picked⟩
    cases node with
    | link other goal =>
      simp only [Option.ite_none_right_eq_some, Option.some.injEq, Prod.mk.injEq] at picked
      obtain ⟨found, rfl, rfl, rfl⟩ := picked
      exact ⟨listed, found⟩
    | directory => cases picked
    | file => cases picked
  · rintro ⟨listed, found⟩
    exact ⟨_, listed, if_pos found⟩

/-- The link is neither broken nor an escape, and its directory can be entered. -/
def LinkPasses (tree : Tree) (root link : List Bytes) (absolute : Bool) (target : List Bytes) : Prop :=
  (∃ path, linkPath tree link absolute target = some path ∧ (resolved tree path).all (inRoot root) = true) ∧
    linkExists tree link = true

private theorem checkLinks_nil (links : List (List Bytes × Bool × List Bytes)) : checkLinks tree root links = [] ↔
    ∀ link ∈ links, LinkPasses tree root link.1 link.2.1 link.2.2 := by
  induction links with
  | nil => simp [checkLinks]
  | cons link rest ih =>
    rw [List.forall_mem_cons, ← ih, checkLinks, LinkPasses]
    cases linkPath tree link.1 link.2.1 link.2.2 with
    | none => simp
    | some path =>
      simp only [List.append_eq_nil_iff, linkErrors]
      simp

theorem symlinkCheck_iff_links : symlinkCheck glob tree root = true ↔
    ∀ link absolute target, tree.node link = some (.link absolute target) → isFound glob root link = true →
      LinkPasses tree root link absolute target := by
  rw [symlinkCheck, List.isEmpty_iff, symlinkErrors, checkLinks_nil]
  constructor
  · exact fun each link absolute target node found => each _ (mem_foundLinks.mpr ⟨node, found⟩)
  · rintro each ⟨link, absolute, target⟩ listed
    obtain ⟨node, found⟩ := mem_foundLinks.mp listed
    exact each link absolute target node found

private theorem resolved_of_walked {fewer : Nat} (plain : PlainTree tree)
    (node : tree.node (place ++ [name]) = some (.link absolute target)) (few : fewer ≤ maxLinks)
    (walked : Walked tree.look final left fewer (if absolute then [] else place) target) :
    ∃ path, linkPath tree (place ++ [name]) absolute target = some path ∧ resolved tree path = some final := by
  have directory : tree.node place = some .directory := FileTree.physical node (by simp)
  have here := plain.path directory
  have ahead := plain.targets _ _ _ node
  have missing := walked.refines FileTree.look_refines
  have start : ∀ name ∈ (if absolute then [] else place), PlainName name := by
    cases absolute with
    | true => simp
    | false => exact here
  have there := captured_of_plain (FileTree.walked_forall plain.targets missing start ahead)
  have more := missing.more (maxLinks - fewer)
  rw [Nat.add_sub_cancel' few] at more
  have whole := more.walk
  cases absolute with
  | true =>
    rw [if_pos rfl] at whole
    refine ⟨target, by rw [linkPath, if_pos rfl, captured_of_plain ahead], ?_⟩
    rw [resolved, whole, Option.map_some, there]
  | false =>
    rw [if_neg (by simp)] at whole
    have down : walk tree.look maxLinks [] place = some (place, maxLinks) := FileTree.walk_physical directory
    refine ⟨place ++ target, ?_, ?_⟩
    · rw [linkPath, if_neg (by simp), linkDirectory, List.dropLast_concat, captured_of_plain here, down,
        Option.bind_some, if_pos directory, captured_of_plain here, captured_of_plain ahead, Option.map_some]
    · have missingDown := (walk_iff.mp down).refines FileTree.look_refines
      rw [resolved, walk_append_of missingDown.walk, whole, Option.map_some, there]

private theorem inside_step (nonempty : root ≠ []) (plain : PlainTree tree)
    (finds : ∀ link kept, tree.node link = some kept → root <+: link → ¬ gitDir root <+: link →
      isFound glob root link = true)
    (checked : symlinkCheck glob tree root = true) {between : Nat}
    (few : between ≤ maxLinks) (inside : root <+: place) (named : segmentKind name = .names)
    (off : ¬ gitDir root <+: place ++ [name]) (walked : Walked tree.look final left between place [name]) :
    root <+: final := by
  obtain ⟨_, ⟨_, same⟩ | ⟨absolute, target, fewer, node, same, onward⟩⟩ := FileTree.walked_name named walked
  · rw [same]
    exact inside.trans (List.prefix_append _ _)
  · have found := finds _ _ node (inside.trans (List.prefix_append _ _)) off
    obtain ⟨⟨path, known, leads⟩, _⟩ := symlinkCheck_iff_links.mp checked _ _ _ node found
    obtain ⟨_, again, ends⟩ := resolved_of_walked plain node (by omega) onward
    cases known.symm.trans again
    rw [ends, Option.all_some] at leads
    exact (inRoot_iff nonempty).mp leads

private theorem inside_of_check (nonempty : root ≠ []) (plain : PlainTree tree)
    (finds : ∀ link kept, tree.node link = some kept → root <+: link → ¬ gitDir root <+: link →
      isFound glob root link = true)
    (checked : symlinkCheck glob tree root = true) (names : List Bytes)
    (named : ∀ name ∈ names, segmentKind name = .names) (off : KeepsOff tree root names)
    (arrives : walk tree.look maxLinks root names = some (place, left)) : root <+: place := by
  induction names using List.reverseRecOn generalizing place left with
  | nil =>
    rw [walk_nil] at arrives
    cases arrives
    exact List.prefix_refl _
  | append_singleton front name ih =>
    obtain ⟨middle, between, first, last⟩ := FileTree.walk_concat arrives
    have sofar : root <+: middle := by
      refine ih (fun name member => named name (List.mem_append_left _ member)) (fun start next initial => ?_) first
      exact off start next (initial.trans (List.prefix_append _ _))
    exact inside_step nonempty plain finds checked (walk_iff.mp first).left_le sofar (named name (by simp))
      (off front name (List.prefix_refl _) middle between first) (walk_iff.mp last)

private theorem link_keepsOff (node : tree.node (root ++ names) = some kept)
    (off : ¬ gitDir root <+: root ++ names) : KeepsOff tree root names := by
  intro front name initial place left arrives git
  obtain ⟨rest, split⟩ := initial
  subst split
  have above : tree.node (root ++ front) = some .directory := by
    rw [List.append_assoc, ← List.append_assoc] at node
    exact FileTree.physical node (by simp)
  rw [FileTree.walk_physical above] at arrives
  cases arrives
  exact off (git.trans ⟨rest, by simp⟩)

private theorem passes_of_confined (nonempty : root ≠ []) (directory : tree.node root = some .directory)
    (plain : PlainTree tree) (confined : Confined tree root)
    (node : tree.node link = some (.link absolute target)) (under : root <+: link) (off : ¬ gitDir root <+: link) :
    LinkPasses tree root link absolute target := by
  obtain ⟨final, left, arrives⟩ := confined.arrive link absolute target node under off
  refine ⟨?_, by rw [linkExists, arrives]; rfl⟩
  obtain ⟨names, split⟩ := under
  subst split
  have named : ∀ name ∈ names, segmentKind name = .names :=
    fun name member => FileTree.named_of_node node name (List.mem_append_right _ member)
  have down : walk tree.look maxLinks [] root = some (root, maxLinks) := FileTree.walk_physical directory
  rw [walk_append_of down] at arrives
  have inside := confined.inside names named (link_keepsOff node off) final left arrives
  cases names using List.reverseRecOn with
  | nil =>
    rw [List.append_nil, directory] at node
    cases node
  | append_singleton front name _ =>
    obtain ⟨middle, between, first, last⟩ := FileTree.walk_concat arrives
    rw [← List.append_assoc] at node ⊢
    have above : tree.node (root ++ front) = some .directory := FileTree.physical node (by simp)
    rw [FileTree.walk_physical above] at first
    cases first
    obtain ⟨_, ⟨other, _⟩ | ⟨_, _, fewer, again, few, walked⟩⟩ :=
      FileTree.walked_name (named name (by simp)) (walk_iff.mp last)
    · exact absurd node (other _ _)
    · cases node.symm.trans again
      obtain ⟨path, known, ends⟩ := resolved_of_walked plain node (by omega) walked
      exact ⟨path, known, by rw [ends, Option.all_some]; exact (inRoot_iff nonempty).mpr inside⟩

/-- In a tree whose names and link targets do not end in a newline, and for a root other than
`/` without glob characters, the check passes exactly when the repository is confined. -/
theorem symlinkCheck_iff (literal : TakesLiterally glob) (plain : PlainTree tree) (nonempty : root ≠ [])
    (directory : tree.node root = some .directory)
    (unglobbed : ∀ name ∈ root, ∀ byte ∈ name, byte ∉ fnmatchBytes) :
    symlinkCheck glob tree root = true ↔ Confined tree root := by
  have found {link : List Bytes} {kept : Node Bytes} (node : tree.node link = some kept) :
      isFound glob root link = true ↔ root <+: link ∧ ¬ gitDir root <+: link :=
    isFound_iff literal unglobbed (plain.path directory) (plain.path node)
  constructor
  · intro checked
    have finds (link : List Bytes) (kept : Node Bytes) (node : tree.node link = some kept) (under : root <+: link)
        (off : ¬ gitDir root <+: link) : isFound glob root link = true := (found node).mpr ⟨under, off⟩
    refine ⟨fun link absolute target node under off => ?_, fun names named off place left =>
      inside_of_check nonempty plain finds checked names named off⟩
    obtain ⟨⟨place, left⟩, arrives⟩ := Option.isSome_iff_exists.mp
      (symlinkCheck_iff_links.mp checked _ _ _ node (finds link _ node under off)).2
    exact ⟨place, left, arrives⟩
  · intro confined
    refine symlinkCheck_iff_links.mpr fun link absolute target node listed => ?_
    obtain ⟨under, off⟩ := (found node).mp listed
    exact passes_of_confined nonempty directory plain confined node under off

end Check

/-! ### The way through `.git` -/

/-- A repository with a link to its hooks, where a link leads to `/etc`. -/
def hookedTree : Tree where
  nodes :=
    { entries :=
        [([ascii "etc"], .directory), ([ascii "repo"], .directory), ([ascii "repo", ascii ".git"], .directory),
          ([ascii "repo", ascii ".git", ascii "hooks"], .directory),
          ([ascii "repo", ascii ".git", ascii "hooks", ascii "out"], symlinkTo (ascii "/etc")),
          ([ascii "repo", ascii "hooks"], symlinkTo (ascii "./.git/hooks"))]
      distinct := by decide }
  named := by decide
  parents := by decide

private theorem hookedTree_plain : PlainTree hookedTree where
  names := by
    unfold PlainName
    decide
  targets := by
    have each : ∀ entry ∈ hookedTree.nodes.entries, ∀ absolute target, entry.2 = .link absolute target →
        ∀ name ∈ target, PlainName name := by
      intro entry member absolute target same
      simp only [hookedTree, List.mem_cons, List.not_mem_nil, or_false] at member
      rcases member with rfl | rfl | rfl | rfl | rfl | rfl <;> cases same <;> (unfold PlainName; decide)
    exact fun link absolute target node => each _ (node_link.mp node) absolute target rfl

/-- The check passes, and yet there is a way out of the repository: the links in `.git` are not
looked at, and a link that is may lead there. -/
theorem hookedTree_is_confined : Confined hookedTree [ascii "repo"] ∧
    walk hookedTree.look maxLinks [ascii "repo"] [ascii "hooks", ascii "out"] = some ([ascii "etc"], 38) := by
  have literal : TakesLiterally fun pattern text => decide (pattern = text) := fun _ _ _ => decide_eq_true_iff
  have nonempty : [ascii "repo"] ≠ [] := by simp
  have directory : hookedTree.node [ascii "repo"] = some .directory := by decide
  have unglobbed : ∀ name ∈ [ascii "repo"], ∀ byte ∈ name, byte ∉ fnmatchBytes := by decide +kernel
  exact ⟨(symlinkCheck_iff literal hookedTree_plain nonempty directory unglobbed).mp (by decide +kernel),
    by decide +kernel⟩

end Charybdis.Scripts
