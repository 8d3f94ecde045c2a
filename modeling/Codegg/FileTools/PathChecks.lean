import Codegg.Library.FileTree
import Codegg.FileTools.UnifiedDiff

/-!
# Paths that the file tools accept

A path is normalized without a look at the tree, then no part of it may be a link, and what it
leads to has to be under the workspace root. The target of a write need not exist.
-/
namespace Codegg.FileTools

open Codegg.Library FileTree

section Paths

/-- The component that a piece of a path between slashes is. -/
def component (piece : Text) : Option (Component Text) :=
  if piece = [] then none
  else if piece = ['.'] then some .current
  else if piece = ['.', '.'] then some .parent
  else some (.normal piece)

/-- A path as the system reads it. With a slash at its end it names a directory. -/
def parsePath (path : Text) : Spelling Text where
  isAbsolute := ['/'] <+: path
  components := (path.splitOn '/').filterMap component ++
    if path.getLast? = some '/' then [.current] else []

/-- What the paths of a process are read against. -/
structure Machine where
  tree : FileTree Text
  /-- How many links a path may go over. -/
  maxLinks : ℕ
  cwd : List Text
  cwd_dir : tree.IsDir cwd
  /-- Files have names of their own. -/
  own_names : ∀ loc, tree.node loc ≠ none → ∀ name ∈ loc, component name = some (.normal name)

/-- Where a path leads to, and where a write through it would put a new file. -/
def Machine.locate (m : Machine) (path : Spelling Text) : Option (List Text) :=
  m.tree.walk m.maxLinks (if path.isAbsolute then [] else m.cwd) path.components

/-- `Path::canonicalize`. An empty path leads nowhere. -/
def Machine.canonicalize (m : Machine) (path : Spelling Text) : Option (List Text) :=
  if !path.isAbsolute && path.components.isEmpty then none
  else m.tree.resolve m.maxLinks (if path.isAbsolute then [] else m.cwd) path.components

/-- The path with these names from the root. -/
def fromRoot (names : List Text) : Spelling Text := ⟨true, names.map .normal⟩

/-- `Path::symlink_metadata`. -/
def Machine.symlinkMetadata (m : Machine) (path : List Text) : Option (Node Text) :=
  match path.getLast? with
  | none => some .dir
  | some name =>
    (m.canonicalize (fromRoot path.dropLast)).bind fun parent =>
      if m.tree.IsDir parent then m.tree.node (parent ++ [name]) else none

/-- `Path::exists`. -/
def Machine.existsAt (m : Machine) (path : List Text) : Bool :=
  (m.canonicalize (fromRoot path)).isSome

end Paths

section Checks

inductive ToolError
  | missingWorkspaceRoot (context : String)
  | execution (message : String)
  | permission (message : String)
  deriving DecidableEq

def macosSystemAliases : List (List Text) :=
  [["var".toList], ["tmp".toList], ["etc".toList], ["private".toList, "var".toList],
    ["private".toList, "tmp".toList], ["private".toList, "etc".toList]]

def isMacosSystemAlias (path : List Text) : Bool := macosSystemAliases.contains path

def unresolvedWorkspaceRoot : Text := '\x00' :: "codegg:no-workspace-root".toList

/-- Paths are compared by their components. -/
def isUnresolvedWorkspaceRoot (root : Text) : Bool :=
  let path := parsePath root
  !path.isAbsolute && decide (path.components.filter (· ≠ .current) = [.normal unresolvedWorkspaceRoot])
    && !(decide (path.components.head? = some .current))

def missingRootError : ToolError :=
  .missingWorkspaceRoot "the tool was constructed without a workspace root"

def lexicallyNormalize (components : List (Component Text)) : List Text :=
  components.foldl (fun normalized component =>
    match component with
    | .current => normalized
    | .parent => normalized.dropLast
    | .normal name => normalized ++ [name]) []

/-- `Path::display` of a path from the root. -/
def display (path : List Text) : String :=
  if path = [] then "/" else String.ofList (path.flatMap ('/' :: ·))

/-- The rest of a path is checked, behind what was checked before. -/
def checkComponents (m : Machine) (checked : List Text) : List Text → Except ToolError Unit
  | [] => .ok ()
  | name :: rest =>
    let current := checked ++ [name]
    match m.symlinkMetadata current with
    | some (.link _) =>
      if isMacosSystemAlias current then checkComponents m current rest
      else .error (.permission ("symlink not allowed in path: " ++ display current))
    | _ => checkComponents m current rest

def checkPathForSymlinks (m : Machine) (path : List Text) : Except ToolError Unit :=
  checkComponents m [] path

/-- A path that is not absolute is one of the workspace. -/
def candidateOf (rootCanonical : List Text) (path : Text) : List Text :=
  let path := parsePath path
  lexicallyNormalize
    (if path.isAbsolute then path.components
    else (fromRoot rootCanonical).components ++ path.components)

def outsideError (path : Text) : ToolError :=
  .permission ("path '" ++ String.ofList path ++
    "' is outside allowed directory (not under workspace root)")

def canonicalRoot (m : Machine) (allowedRoot : Text) : Except ToolError (List Text) :=
  if isUnresolvedWorkspaceRoot allowedRoot then .error missingRootError
  else
    match m.canonicalize (parsePath allowedRoot) with
    | none => .error (.execution "invalid allowed root")
    | some root => .ok root

def validatePath (m : Machine) (path allowedRoot : Text) : Except ToolError (List Text) := do
  let rootCanonical ← canonicalRoot m allowedRoot
  let candidate := candidateOf rootCanonical path
  checkPathForSymlinks m candidate
  match m.canonicalize (fromRoot candidate) with
  | none =>
    throw (.execution ("invalid path: " ++ String.ofList path ++ " (not under workspace root or " ++
      "missing; relative paths resolve against the session workspace root)"))
  | some canonical =>
    if rootCanonical <+: canonical then return canonical else throw (outsideError path)

/-- The names of a path, from the last one on, up to one that exists. -/
def splitExisting (m : Machine) : List Text → List Text → Except ToolError (List Text × List Text)
  | [], suffix =>
    if m.existsAt [] then .ok ([], suffix) else .error (.execution "invalid path")
  | name :: reversed, suffix =>
    if m.existsAt (name :: reversed).reverse then .ok ((name :: reversed).reverse, suffix)
    else splitExisting m reversed (name :: suffix)

/-- What does not exist is put behind what does. -/
def appendSuffix (rootCanonical : List Text) (path : Text) :
    List Text → List Text → Except ToolError (List Text)
  | normalized, [] => .ok normalized
  | normalized, name :: suffix =>
    if name = ['.'] then appendSuffix rootCanonical path normalized suffix
    else
      let normalized := if name = ['.', '.'] then normalized.dropLast else normalized ++ [name]
      if rootCanonical <+: normalized then appendSuffix rootCanonical path normalized suffix
      else .error (outsideError path)

def validateTargetPath (m : Machine) (path allowedRoot : Text) : Except ToolError (List Text) := do
  let rootCanonical ← canonicalRoot m allowedRoot
  let candidate := candidateOf rootCanonical path
  checkPathForSymlinks m candidate
  let (existing, suffix) ← splitExisting m candidate.reverse []
  checkPathForSymlinks m existing
  match m.canonicalize (fromRoot existing) with
  | none => throw (.execution ("invalid path: " ++ display existing))
  | some existingCanonical =>
    if rootCanonical <+: existingCanonical then
      appendSuffix rootCanonical path existingCanonical suffix
    else throw (outsideError path)

/-- A path under the root that no link leads out of. -/
structure Contained (m : Machine) (root path : List Text) : Prop where
  inside : root <+: path
  noLinks : ∀ q, root <+: q → q ≠ root → q <+: path → ¬m.tree.IsLink q
  /-- The file and the directories on the way to it. -/
  touches : ∀ q loc, root <+: q → q <+: path → m.locate (fromRoot q) = some loc → root <+: loc

/-- Every system alias that a path goes over leads to something. -/
def AliasesResolve (m : Machine) (path : List Text) : Prop :=
  ∀ q, isMacosSystemAlias q → q <+: path → ∀ target, m.symlinkMetadata q = some (.link target) →
    m.existsAt q

end Checks

section Resolution

variable {m : Machine} {path rest loc : List Text} {name : Text}

theorem canonicalize_fromRoot :
    m.canonicalize (fromRoot path) = some loc ↔
      m.tree.walk m.maxLinks [] (path.map .normal) = some loc ∧ m.tree.node loc ≠ none := by
  simp [Machine.canonicalize, fromRoot, resolve, Option.isSome_iff_ne_none]

theorem existsAt_iff : m.existsAt path = true ↔ ∃ loc, m.canonicalize (fromRoot path) = some loc := by
  rw [Machine.existsAt, Option.isSome_iff_exists]

theorem reached_of_canonicalize (h : m.canonicalize (fromRoot path) = some loc) :
    m.tree.Reached loc :=
  walk_reached isDir_root.reached isDir_root.node_ne_none
    (canonicalize_fromRoot.1 h).1

/-- What a longer path goes over exists. -/
theorem existsAt_of_append (h : m.existsAt (path ++ rest) = true) : m.existsAt path = true := by
  obtain ⟨loc, hloc⟩ := existsAt_iff.1 h
  obtain ⟨hwalk, hnode⟩ := canonicalize_fromRoot.1 hloc
  rw [List.map_append] at hwalk
  cases hfront : m.tree.walk m.maxLinks [] (path.map .normal) with
  | none =>
    rw [walk_append_eq_none hfront] at hwalk
    cases hwalk
  | some found =>
    have hfound : m.tree.node found ≠ none := by
      intro hmissing
      rw [walk_append_missing isDir_root.node_ne_none hfront hmissing] at hwalk
      obtain ⟨ns, -, rfl⟩ := Option.map_eq_some_iff.1 hwalk
      exact hnode (node_append_eq_none hmissing ns)
    exact existsAt_iff.2 ⟨found, canonicalize_fromRoot.2 ⟨hfront, hfound⟩⟩

/-- One name further, there is what the tree has there. -/
theorem existsAt_append_name (h : m.canonicalize (fromRoot path) = some loc) {node : Node Text}
    (hnode : m.tree.node (loc ++ [name]) = some node) (hlink : node.isLink = false) :
    m.existsAt (path ++ [name]) = true := by
  obtain ⟨hwalk, hloc⟩ := canonicalize_fromRoot.1 h
  obtain ⟨left, -, hrest⟩ := walk_append_found hwalk hloc
  refine existsAt_iff.2 ⟨loc ++ [name], canonicalize_fromRoot.2 ⟨?_, by simp [hnode]⟩⟩
  rw [List.map_append, hrest, List.map_singleton, walk_found hnode hlink, walk_nil]

theorem symlinkMetadata_append (h : m.canonicalize (fromRoot path) = some loc) :
    m.symlinkMetadata (path ++ [name]) =
      if m.tree.IsDir loc then m.tree.node (loc ++ [name]) else none := by
  simp [Machine.symlinkMetadata, h]

theorem contained_of_noLinks {root : List Text} (hinside : root <+: path)
    (hlinks : ∀ q, q <+: path → ¬m.tree.IsLink q) : Contained m root path where
  inside := hinside
  noLinks q _ _ hq := hlinks q hq
  touches q loc hroot hq hloc := by
    have hsame : loc = [] ++ q := by
      refine walk_names (fun r hr => ?_) hloc
      exact hlinks r (hr.trans hq)
    rwa [hsame]

end Resolution

section Targets

variable {m : Machine} {root path p existing suffix : List Text} {allowedRoot spelled : Text}

/-- Names that are not read as something else. -/
def OwnNames (path : List Text) : Prop := ∀ name ∈ path, component name = some (.normal name)

theorem eq_of_component {piece name : Text} (h : component piece = some (.normal name)) :
    piece = name := by
  unfold component at h
  split_ifs at h
  · cases h
  · cases h
  · cases h
    rfl

theorem component_eq_normal {piece name : Text} (h : component piece = some (.normal name)) :
    component name = some (.normal name) := by
  rwa [eq_of_component h] at h

theorem ownNames_parsePath {c : Component Text} (hc : c ∈ (parsePath spelled).components)
    {name : Text} (hname : c = .normal name) : component name = some (.normal name) := by
  subst hname
  simp only [parsePath, List.mem_append, List.mem_filterMap] at hc
  obtain ⟨piece, -, hpiece⟩ | hc := hc
  · exact component_eq_normal hpiece
  · split_ifs at hc <;> simp at hc

/-- No name is new. -/
theorem mem_lexicallyNormalize {components : List (Component Text)} {name : Text}
    (h : name ∈ lexicallyNormalize components) : .normal name ∈ components := by
  unfold lexicallyNormalize at h
  induction components using List.reverseRecOn with
  | nil => simp at h
  | append_singleton components c ih =>
    rw [List.foldl_append] at h
    rw [List.mem_append, List.mem_singleton]
    cases c with
    | current => exact .inl (ih h)
    | parent => exact .inl (ih (List.mem_of_mem_dropLast h))
    | normal last =>
      obtain h | h := List.mem_append.1 h
      · exact .inl (ih h)
      · rw [List.mem_singleton.1 h]
        exact .inr rfl

/-- The names of a candidate are names of the root or of the path. -/
theorem mem_candidateOf {name : Text} (h : name ∈ candidateOf root spelled) :
    name ∈ root ∨ .normal name ∈ (parsePath spelled).components := by
  have hmem := mem_lexicallyNormalize h
  split_ifs at hmem
  · exact .inr hmem
  · rw [List.mem_append] at hmem
    obtain hmem | hmem := hmem
    · obtain ⟨name', hroot, hsame⟩ := List.mem_map.1 hmem
      cases hsame
      exact .inl hroot
    · exact .inr hmem

theorem ownNames_candidateOf (hroot : m.tree.node root ≠ none) :
    OwnNames (candidateOf root spelled) := by
  intro name hname
  obtain hname | hname := mem_candidateOf hname
  · exact m.own_names root hroot name hname
  · exact ownNames_parsePath hname rfl

/-- What a text leads to is there, and no link is on the way. -/
theorem reached_of_canonicalize_text (h : m.canonicalize (parsePath spelled) = some p) :
    m.tree.Reached p ∧ m.tree.node p ≠ none := by
  unfold Machine.canonicalize resolve at h
  by_cases hempty : (!(parsePath spelled).isAbsolute && (parsePath spelled).components.isEmpty) = true
  · rw [if_pos hempty] at h
    cases h
  · rw [if_neg hempty, Option.filter_eq_some_iff] at h
    have hstart : m.tree.IsDir (if (parsePath spelled).isAbsolute then [] else m.cwd) := by
      split_ifs
      · exact isDir_root
      · exact m.cwd_dir
    exact ⟨walk_reached hstart.reached hstart.node_ne_none h.1,
      Option.isSome_iff_ne_none.1 h.2⟩

theorem canonicalRoot_ok (h : canonicalRoot m allowedRoot = .ok root) :
    m.tree.node root ≠ none ∧ m.tree.Reached root := by
  unfold canonicalRoot at h
  split_ifs at h
  cases hroot : m.canonicalize (parsePath allowedRoot) with
  | none => simp [hroot] at h
  | some found =>
    simp only [hroot, Except.ok.injEq] at h
    subst h
    exact (reached_of_canonicalize_text hroot).symm

/-- The longest existing front of a path, and the names behind it. -/
theorem splitExisting_ok {reversed behind : List Text}
    (hbehind : ∀ name rest, behind = name :: rest → m.existsAt (reversed.reverse ++ [name]) = false)
    (h : splitExisting m reversed behind = .ok (existing, suffix)) :
    existing ++ suffix = reversed.reverse ++ behind ∧ m.existsAt existing = true ∧
      ∀ name rest, suffix = name :: rest → m.existsAt (existing ++ [name]) = false := by
  induction reversed generalizing behind with
  | nil =>
    unfold splitExisting at h
    split_ifs at h with hexists
    cases h
    exact ⟨by simp, hexists, hbehind⟩
  | cons name reversed ih =>
    unfold splitExisting at h
    split_ifs at h with hexists
    · cases h
      exact ⟨rfl, hexists, hbehind⟩
    · obtain ⟨hsplit, hrest⟩ := ih (fun name' rest hsame => by
        cases hsame
        simpa using hexists) h
      exact ⟨by simpa using hsplit, hrest⟩

theorem splitExisting_of_existsAt (h : m.existsAt path = true) (tail : List Text) :
    splitExisting m path.reverse tail = .ok (path, tail) := by
  cases hreversed : path.reverse with
  | nil =>
    have hnil : path = [] := by simpa using hreversed
    rw [hnil] at h ⊢
    simp [splitExisting, h]
  | cons name reversed =>
    have hpath : (name :: reversed).reverse = path := by rw [← hreversed, List.reverse_reverse]
    rw [splitExisting, hpath, if_pos h]

theorem appendSuffix_ok {normalized : List Text} (hown : OwnNames suffix)
    (hinside : root <+: normalized) :
    appendSuffix root spelled normalized suffix = .ok (normalized ++ suffix) := by
  induction suffix generalizing normalized with
  | nil => simp [appendSuffix]
  | cons name suffix ih =>
    have hname := hown name (by simp)
    have hcurrent : name ≠ ['.'] := by
      rintro rfl
      exact absurd hname (by decide)
    have hparent : name ≠ ['.', '.'] := by
      rintro rfl
      exact absurd hname (by decide)
    have hnext : root <+: normalized ++ [name] := hinside.trans (List.prefix_append _ _)
    rw [appendSuffix, if_neg hcurrent, if_neg hparent]
    rw [if_pos hnext, ih (fun name' hname' => hown name' (by simp [hname'])) hnext]
    simp

theorem validatePath_ok (hroot : canonicalRoot m allowedRoot = .ok root)
    (h : validatePath m spelled allowedRoot = .ok p) :
    checkPathForSymlinks m (candidateOf root spelled) = .ok () ∧
      m.canonicalize (fromRoot (candidateOf root spelled)) = some p ∧ root <+: p := by
  unfold validatePath at h
  simp only [hroot, bind, Except.bind] at h
  cases hcheck : checkPathForSymlinks m (candidateOf root spelled) with
  | error e => simp [hcheck] at h
  | ok u =>
    simp only [hcheck] at h
    cases hcanonical : m.canonicalize (fromRoot (candidateOf root spelled)) with
    | none => simp [hcanonical] at h
    | some canonical =>
      simp only [hcanonical] at h
      split_ifs at h with hinside
      · cases h
        exact ⟨rfl, rfl, hinside⟩

/-- A target is what exists of the path, where it leads to, and the names behind it. -/
theorem validateTargetPath_ok (hroot : canonicalRoot m allowedRoot = .ok root)
    (h : validateTargetPath m spelled allowedRoot = .ok p) :
    ∃ existing canonical suffix, checkPathForSymlinks m (candidateOf root spelled) = .ok () ∧
      existing ++ suffix = candidateOf root spelled ∧
      m.canonicalize (fromRoot existing) = some canonical ∧
      (∀ name rest, suffix = name :: rest → m.existsAt (existing ++ [name]) = false) ∧
      root <+: canonical ∧ p = canonical ++ suffix := by
  unfold validateTargetPath at h
  simp only [hroot, bind, Except.bind] at h
  cases hcheck : checkPathForSymlinks m (candidateOf root spelled) with
  | error e => simp [hcheck] at h
  | ok u =>
    simp only [hcheck] at h
    cases hsplit : splitExisting m (candidateOf root spelled).reverse [] with
    | error e => simp [hsplit] at h
    | ok cut =>
      obtain ⟨existing, suffix⟩ := cut
      simp only [hsplit] at h
      obtain ⟨hcut, hexists, hmissing⟩ := splitExisting_ok (by simp) hsplit
      rw [List.append_nil, List.reverse_reverse] at hcut
      cases hagain : checkPathForSymlinks m existing with
      | error e => simp [hagain] at h
      | ok u =>
        simp only [hagain] at h
        obtain ⟨canonical, hcanonical⟩ := existsAt_iff.1 hexists
        simp only [hcanonical] at h
        split_ifs at h with hinside
        · have hown : OwnNames suffix := by
            have hall : OwnNames (candidateOf root spelled) :=
              ownNames_candidateOf (canonicalRoot_ok hroot).1
            rw [← hcut] at hall
            exact fun name hname => hall name (List.mem_append_right _ hname)
          rw [appendSuffix_ok hown hinside] at h
          cases h
          exact ⟨existing, canonical, suffix, rfl, hcut, hcanonical, hmissing, hinside, rfl⟩

theorem exists_canonicalRoot (h : validateTargetPath m spelled allowedRoot = .ok p) :
    ∃ root, canonicalRoot m allowedRoot = .ok root := by
  cases hroot : canonicalRoot m allowedRoot with
  | error e => simp [validateTargetPath, hroot, bind, Except.bind] at h
  | ok root => exact ⟨root, rfl⟩

/-- What exists is the same for a read and a write. -/
theorem validateTargetPath_of_validatePath (hroot : canonicalRoot m allowedRoot = .ok root)
    (h : validatePath m spelled allowedRoot = .ok p) :
    validateTargetPath m spelled allowedRoot = .ok p := by
  obtain ⟨hcheck, hcanonical, hinside⟩ := validatePath_ok hroot h
  have hsplit := splitExisting_of_existsAt (existsAt_iff.2 ⟨p, hcanonical⟩) []
  unfold validateTargetPath
  simp only [hroot, hcheck, hsplit, hcanonical, hinside, bind, Except.bind]
  rfl

theorem contained_of_validatePath (hroot : canonicalRoot m allowedRoot = .ok root)
    (h : validatePath m spelled allowedRoot = .ok p) : Contained m root p := by
  obtain ⟨-, hcanonical, hinside⟩ := validatePath_ok hroot h
  exact contained_of_noLinks hinside fun q hq => (reached_of_canonicalize hcanonical).not_isLink hq

/-- A name that does not exist behind a path that does is the first one missing. -/
theorem eq_of_broken {front : List Text} {name : Text} (hfront : front ++ [name] <+: existing ++ suffix)
    (hexists : m.existsAt existing = true)
    (hmissing : ∀ name rest, suffix = name :: rest → m.existsAt (existing ++ [name]) = false)
    (hfound : m.existsAt front = true) (hbroken : m.existsAt (front ++ [name]) = false) :
    front = existing := by
  obtain ⟨rest, hshort⟩ | hlong :=
    List.prefix_or_prefix_of_prefix hfront (List.prefix_append existing suffix)
  · rw [← hshort] at hexists
    simp [existsAt_of_append hexists] at hbroken
  · rw [List.prefix_concat_iff] at hlong
    obtain rfl | ⟨rest, rfl⟩ := hlong
    · simp [hexists] at hbroken
    · cases rest with
      | nil => simp
      | cons first rest =>
        obtain ⟨tail, htail⟩ := hfront
        have habsent := hmissing first (rest ++ [name] ++ tail) (by simpa using htail.symm)
        have hwhole : m.existsAt ((existing ++ [first]) ++ rest) = true := by simpa using hfound
        simp [existsAt_of_append hwhole] at habsent

theorem isMacosSystemAlias_of_check {checked rest q : List Text}
    (h : checkComponents m checked rest = .ok ()) (hq : q <+: rest) (hne : q ≠ [])
    {target : Spelling Text} (htarget : m.symlinkMetadata (checked ++ q) = some (.link target)) :
    isMacosSystemAlias (checked ++ q) = true := by
  induction rest generalizing checked q with
  | nil => exact absurd (List.prefix_nil.1 hq) hne
  | cons name rest ih =>
    cases q with
    | nil => exact absurd rfl hne
    | cons first q =>
      obtain ⟨rfl, hrest⟩ := List.cons_prefix_cons.1 hq
      unfold checkComponents at h
      dsimp only at h
      by_cases hempty : q = []
      · subst hempty
        rw [htarget] at h
        split_ifs at h with halias
        exact halias
      · have hcut : checked ++ first :: q = checked ++ [first] ++ q := by simp
        rw [hcut] at htarget ⊢
        split at h
        · split_ifs at h
          exact ih h hrest hempty htarget
        · exact ih h hrest hempty htarget

/-- Behind what a path leads to, what is missing is no link. -/
theorem not_isLink_of_missing {canonical q : List Text} (hreached : m.tree.Reached canonical)
    (hnext : ∀ name rest, suffix = name :: rest → m.tree.node (canonical ++ [name]) = none)
    (hq : q <+: canonical ++ suffix) : ¬m.tree.IsLink q := by
  obtain hq | ⟨rest, rfl⟩ := List.prefix_or_prefix_of_prefix hq (List.prefix_append canonical suffix)
  · exact hreached.not_isLink hq
  · cases rest with
    | nil => exact hreached.not_isLink (by simp)
    | cons name rest =>
      obtain ⟨tail, htail⟩ := hq
      have hnone := hnext name (rest ++ tail) (by simpa using htail.symm)
      have hbehind := node_append_eq_none hnone rest
      rw [List.append_assoc] at hbehind
      exact fun hlink => hlink.node_ne_none hbehind

/-- A target is under the root, and no link leads out, exactly if no link on the way is broken. Only
a system alias is let pass. -/
theorem contained_iff (hroot : canonicalRoot m allowedRoot = .ok root)
    (h : validateTargetPath m spelled allowedRoot = .ok p) :
    Contained m root p ↔ AliasesResolve m (candidateOf root spelled) := by
  obtain ⟨existing, canonical, suffix, hcheck, hcut, hcanonical, hmissing, hinside, rfl⟩ :=
    validateTargetPath_ok hroot h
  have hreached := reached_of_canonicalize hcanonical
  constructor
  · intro hcontained q _ hq target htarget
    by_contra hbroken
    obtain rfl | ⟨front, name, hq'⟩ := List.eq_nil_or_concat q
    · simp [Machine.symlinkMetadata] at htarget
    · rw [List.concat_eq_append] at hq'
      subst hq'
      -- The broken link is the first name behind what exists.
      obtain ⟨found, hfound⟩ : ∃ found, m.canonicalize (fromRoot front) = some found := by
        by_contra hnone
        simp only [not_exists, ← Option.eq_none_iff_forall_ne_some] at hnone
        simp [Machine.symlinkMetadata, hnone] at htarget
      rw [symlinkMetadata_append hfound] at htarget
      split_ifs at htarget with hdir
      have hexists := existsAt_iff.2 ⟨_, hcanonical⟩
      rw [← hcut] at hq
      obtain rfl := eq_of_broken hq hexists hmissing (existsAt_iff.2 ⟨_, hfound⟩) (by simpa using hbroken)
      rw [hcanonical] at hfound
      cases hfound
      rw [List.prefix_append_right_inj] at hq
      have hlonger : root ≠ canonical ++ [name] := by
        rintro rfl
        have hlength := hinside.length_le
        simp at hlength
      exact hcontained.noLinks (canonical ++ [name]) (hinside.trans (List.prefix_append _ _))
        hlonger.symm ((List.prefix_append_right_inj _).2 hq) ⟨target, htarget⟩
  · intro hresolve
    have hnext : ∀ name rest, suffix = name :: rest → m.tree.node (canonical ++ [name]) = none := by
      intro name rest hsuffix
      by_contra hsome
      have habsent := hmissing name rest hsuffix
      obtain ⟨node, hnode⟩ := Option.ne_none_iff_exists'.1 hsome
      cases node with
      | file => simp [existsAt_append_name hcanonical hnode rfl] at habsent
      | dir => simp [existsAt_append_name hcanonical hnode rfl] at habsent
      | link target =>
        have hprefix : existing ++ [name] <+: candidateOf root spelled := by
          rw [← hcut, hsuffix]
          exact ⟨rest, by simp⟩
        have hdir : m.tree.IsDir canonical := m.tree.parent_dir _ _ hsome
        have hmetadata : m.symlinkMetadata (existing ++ [name]) = some (.link target) := by
          rw [symlinkMetadata_append hcanonical, if_pos hdir, hnode]
        have halias : isMacosSystemAlias ([] ++ (existing ++ [name])) = true :=
          isMacosSystemAlias_of_check hcheck hprefix (by simp) hmetadata
        rw [List.nil_append] at halias
        have hlink := hresolve _ halias hprefix target hmetadata
        simp [hlink] at habsent
    exact contained_of_noLinks (hinside.trans (List.prefix_append _ _)) fun q hq =>
      not_isLink_of_missing hreached hnext hq

/-- The file tools keep to the workspace, and a read and a write of one path name the same file,
exactly if no system alias on the way to a target is a broken link. -/
theorem targets_contained_iff (m : Machine) (spelled allowedRoot : Text) (root : List Text)
    (hroot : canonicalRoot m allowedRoot = .ok root) :
    (∀ p, validatePath m spelled allowedRoot = .ok p →
      Contained m root p ∧ validateTargetPath m spelled allowedRoot = .ok p) ∧
    ∀ p, validateTargetPath m spelled allowedRoot = .ok p →
      (Contained m root p ↔ AliasesResolve m (candidateOf root spelled)) := by
  refine ⟨fun p h => ⟨?_, ?_⟩, fun p h => ?_⟩
  · exact contained_of_validatePath hroot h
  · exact validateTargetPath_of_validatePath hroot h
  · exact contained_iff hroot h

/-- A workspace in which a name is a link to what does not exist. -/
def aliasMachine : Machine where
  tree := ofEntries [(["private".toList], .dir), (["outside".toList], .dir),
    (["private".toList, "tmp".toList], .link (parsePath "/outside/new".toList))] (by decide)
  maxLinks := 40
  cwd := []
  cwd_dir := rfl
  own_names := forall_ofEntries (by decide)

theorem targets_contained_iff_alias :
    canonicalRoot aliasMachine "/private".toList = .ok ["private".toList] ∧
    (Contained aliasMachine ["private".toList] ["private".toList, "new".toList] ↔
      AliasesResolve aliasMachine (candidateOf ["private".toList] "new".toList)) := by
  have hroot : canonicalRoot aliasMachine "/private".toList = .ok ["private".toList] := by decide
  exact ⟨hroot, (targets_contained_iff _ "new".toList _ _ hroot).2 _ (by decide +kernel)⟩

/-- A broken link with the name of a system alias leads a write out of the workspace. -/
theorem alias_escapes :
    canonicalRoot aliasMachine "/private".toList = .ok ["private".toList] ∧
    validateTargetPath aliasMachine "tmp".toList "/private".toList =
      .ok ["private".toList, "tmp".toList] ∧
    aliasMachine.locate (fromRoot ["private".toList, "tmp".toList]) =
      some ["outside".toList, "new".toList] ∧
    ¬Contained aliasMachine ["private".toList] ["private".toList, "tmp".toList] := by
  have hlocate : aliasMachine.locate (fromRoot ["private".toList, "tmp".toList]) =
      some ["outside".toList, "new".toList] := by decide
  refine ⟨by decide, by decide +kernel, hlocate, fun hcontained => ?_⟩
  have hinside := hcontained.touches _ _ hcontained.inside (List.prefix_refl _) hlocate
  revert hinside
  decide

end Targets

end Codegg.FileTools
