import Mathlib.Data.List.Basic
import Mathlib.Tactic

/-!
# A tree of files with symbolic links

A location is the list of names from the root. A path is followed component by component; a link
is replaced by its target, at most a given number of times. What is missing at the end of a path is
where a write through the path would put it.
-/
namespace Codegg.Library

inductive Component (ν : Type)
  | current
  | parent
  | normal (name : ν)
  deriving DecidableEq

/-- A path as it is written. -/
structure Spelling (ν : Type) where
  isAbsolute : Bool
  components : List (Component ν)
  deriving DecidableEq

inductive Node (ν : Type)
  | file
  | dir
  | link (target : Spelling ν)
  deriving DecidableEq

def Node.isLink {ν : Type} : Node ν → Bool
  | .link _ => true
  | _ => false

structure FileTree (ν : Type) where
  node : List ν → Option (Node ν)
  root_dir : node [] = some .dir
  /-- What is there is in a directory. -/
  parent_dir : ∀ loc name, node (loc ++ [name]) ≠ none → node loc = some .dir

namespace FileTree

variable {ν : Type} (t : FileTree ν)

def IsDir (loc : List ν) : Prop := t.node loc = some .dir

instance (loc : List ν) : Decidable (t.IsDir loc) :=
  match h : t.node loc with
  | some .dir => isTrue h
  | some .file => isFalse fun h' => by simp [IsDir, h] at h'
  | some (.link _) => isFalse fun h' => by simp [IsDir, h] at h'
  | none => isFalse fun h' => by simp [IsDir, h] at h'

def IsLink (loc : List ν) : Prop := ∃ target, t.node loc = some (.link target)

/-- The names of components that are all names. -/
def names : List (Component ν) → Option (List ν)
  | [] => some []
  | .normal name :: rest => (names rest).map (name :: ·)
  | _ :: _ => none

/-- Follow components from a directory, with something to do at a link. -/
def walkWith (follow : List ν → List (Component ν) → Option (List ν)) (loc : List ν) :
    List (Component ν) → Option (List ν)
  | [] => some loc
  | .current :: rest => if t.IsDir loc then walkWith follow loc rest else none
  | .parent :: rest => if t.IsDir loc then walkWith follow loc.dropLast rest else none
  | .normal name :: rest =>
    match t.node (loc ++ [name]) with
    | none => if t.IsDir loc then (names rest).map fun ns => loc ++ name :: ns else none
    | some (.link target) =>
      follow (if target.isAbsolute then [] else loc) (target.components ++ rest)
    | some _ => walkWith follow (loc ++ [name]) rest

-- The equations are generated here, before several proofs ask for them at once.
attribute [local grind =] walkWith

/-- Follow components from a directory, over a number of links. -/
def walk : ℕ → List ν → List (Component ν) → Option (List ν)
  | 0 => t.walkWith fun _ _ => none
  | links + 1 => t.walkWith (walk links)

/-- The location that a path leads to, where there is something. -/
def resolve (links : ℕ) (loc : List ν) (path : List (Component ν)) : Option (List ν) :=
  (t.walk links loc path).filter fun found => (t.node found).isSome

variable {t} {links : ℕ} {loc found ns' : List ν} {name : ν} {path rest : List (Component ν)}

theorem walk_nil : t.walk links loc [] = some loc := by
  cases links <;> rfl

theorem walk_current :
    t.walk links loc (.current :: rest) = if t.IsDir loc then t.walk links loc rest else none := by
  cases links <;> rfl

theorem walk_parent :
    t.walk links loc (.parent :: rest) =
      if t.IsDir loc then t.walk links loc.dropLast rest else none := by
  cases links <;> rfl

theorem walk_missing (h : t.node (loc ++ [name]) = none) :
    t.walk links loc (.normal name :: rest) =
      if t.IsDir loc then (names rest).map fun ns => loc ++ name :: ns else none := by
  cases links <;> simp [walk, walkWith, h]

theorem walk_found {node : Node ν} (h : t.node (loc ++ [name]) = some node)
    (hlink : node.isLink = false) :
    t.walk links loc (.normal name :: rest) = t.walk links (loc ++ [name]) rest := by
  cases node with
  | file => cases links <;> simp [walk, walkWith, h]
  | dir => cases links <;> simp [walk, walkWith, h]
  | link target => simp [Node.isLink] at hlink

theorem walk_link_zero {target : Spelling ν} (h : t.node (loc ++ [name]) = some (.link target)) :
    t.walk 0 loc (.normal name :: rest) = none := by
  simp [walk, walkWith, h]

theorem walk_link_succ {target : Spelling ν} (h : t.node (loc ++ [name]) = some (.link target)) :
    t.walk (links + 1) loc (.normal name :: rest) =
      t.walk links (if target.isAbsolute then [] else loc) (target.components ++ rest) := by
  simp [walk, walkWith, h]

/-- A walk goes on with the rest of its path, or with the target of a link over fewer links. -/
theorem walk_induction {P : ℕ → List ν → List (Component ν) → Prop} (hnil : ∀ links loc, P links loc [])
    (hcurrent : ∀ links loc rest, P links loc rest → P links loc (.current :: rest))
    (hparent : ∀ links loc rest, P links loc.dropLast rest → P links loc (.parent :: rest))
    (hmissing : ∀ links loc name rest, t.node (loc ++ [name]) = none →
      P links loc (.normal name :: rest))
    (hfound : ∀ links loc name rest node, t.node (loc ++ [name]) = some node → node.isLink = false →
      P links (loc ++ [name]) rest → P links loc (.normal name :: rest))
    (hstuck : ∀ loc name rest target, t.node (loc ++ [name]) = some (.link target) →
      P 0 loc (.normal name :: rest))
    (hlink : ∀ links loc name rest target, t.node (loc ++ [name]) = some (.link target) →
      P links (if target.isAbsolute then [] else loc) (target.components ++ rest) →
      P (links + 1) loc (.normal name :: rest)) (links : ℕ) (loc : List ν)
    (path : List (Component ν)) : P links loc path := by
  have hstep (links : ℕ) (hlinked : ∀ loc name rest target,
      t.node (loc ++ [name]) = some (.link target) → P links loc (.normal name :: rest)) :
      ∀ loc path, P links loc path := by
    intro loc path
    induction path generalizing loc with
    | nil => exact hnil links loc
    | cons c rest ih =>
      cases c with
      | current => exact hcurrent links loc rest (ih loc)
      | parent => exact hparent links loc rest (ih _)
      | normal name =>
        cases hnode : t.node (loc ++ [name]) with
        | none => exact hmissing links loc name rest hnode
        | some node =>
          cases node with
          | file => exact hfound links loc name rest _ hnode rfl (ih _)
          | dir => exact hfound links loc name rest _ hnode rfl (ih _)
          | link target => exact hlinked loc name rest target hnode
  induction links generalizing loc path with
  | zero => exact hstep 0 hstuck loc path
  | succ links ih =>
    exact hstep _ (fun loc name rest target hnode => hlink links loc name rest target hnode (ih _ _))
      loc path

section Invariants

theorem IsDir.node_ne_none (h : t.IsDir loc) : t.node loc ≠ none := by
  rw [IsDir] at h
  simp [h]

theorem isDir_root : t.IsDir [] := t.root_dir

theorem isDir_of_append {q : List ν} (h : t.node (loc ++ q) ≠ none) (hq : q ≠ []) : t.IsDir loc := by
  induction q using List.reverseRecOn with
  | nil => exact absurd rfl hq
  | append_singleton q name ih =>
    rw [← List.append_assoc] at h
    have hdir := t.parent_dir _ _ h
    by_cases hempty : q = []
    · rwa [hempty, List.append_nil] at hdir
    · exact ih (by simp [hdir]) hempty

/-- Nothing is behind what is missing. -/
theorem node_append_eq_none (h : t.node loc = none) (q : List ν) : t.node (loc ++ q) = none := by
  by_contra hne
  by_cases hempty : q = []
  · simp [hempty, h] at hne
  · have hdir := isDir_of_append hne hempty
    rw [IsDir, h] at hdir
    cases hdir

theorem isDir_dropLast (h : t.IsDir loc) : t.IsDir loc.dropLast := by
  obtain rfl | ⟨front, last, rfl⟩ := List.eq_nil_or_concat loc
  · exact h
  · rw [List.concat_eq_append, List.dropLast_concat]
    rw [List.concat_eq_append] at h
    exact isDir_of_append h.node_ne_none (by simp)

theorem walk_current_of_isDir (h : t.IsDir loc) :
    t.walk links loc (.current :: rest) = t.walk links loc rest := by
  rw [walk_current, if_pos h]

theorem walk_parent_of_isDir (h : t.IsDir loc) :
    t.walk links loc (.parent :: rest) = t.walk links loc.dropLast rest := by
  rw [walk_parent, if_pos h]

theorem names_append {xs ys : List (Component ν)} {ns : List ν} (h : names xs = some ns) :
    names (xs ++ ys) = (names ys).map (ns ++ ·) := by
  induction xs generalizing ns with
  | nil =>
    cases h
    simp
  | cons c xs ih =>
    cases c with
    | normal name =>
      simp only [names, Option.map_eq_some_iff] at h
      obtain ⟨ns, hns, rfl⟩ := h
      simp [names, ih hns, Function.comp_def]
    | current => simp [names] at h
    | parent => simp [names] at h

theorem names_append_eq_none {xs : List (Component ν)} (h : names xs = none)
    (ys : List (Component ν)) : names (xs ++ ys) = none := by
  induction xs with
  | nil => simp [names] at h
  | cons c xs ih =>
    cases c with
    | normal name =>
      simp only [names, Option.map_eq_none_iff] at h
      simp [names, ih h]
    | current => rfl
    | parent => rfl

/-- A walk that fails on a path fails on every longer one. -/
theorem walk_append_eq_none (h : t.walk links loc path = none) (ys : List (Component ν)) :
    t.walk links loc (path ++ ys) = none := by
  induction links, loc, path using walk_induction (t := t) with
  | hnil links loc => simp [walk_nil] at h
  | hcurrent links loc rest ih =>
    rw [walk_current] at h
    rw [List.cons_append, walk_current]
    split_ifs at h ⊢ with hdir
    · exact ih h
    · rfl
  | hparent links loc rest ih =>
    rw [walk_parent] at h
    rw [List.cons_append, walk_parent]
    split_ifs at h ⊢ with hdir
    · exact ih h
    · rfl
  | hmissing links loc name rest hnode =>
    rw [walk_missing hnode] at h
    rw [List.cons_append, walk_missing hnode]
    split_ifs at h ⊢ with hdir
    · rw [Option.map_eq_none_iff] at h ⊢
      exact names_append_eq_none h ys
    · rfl
  | hfound links loc name rest node hnode hlink ih =>
    rw [walk_found hnode hlink] at h
    rw [List.cons_append, walk_found hnode hlink]
    exact ih h
  | hstuck loc name rest target hnode => rw [List.cons_append, walk_link_zero hnode]
  | hlink links loc name rest target hnode ih =>
    rw [walk_link_succ hnode] at h
    rw [List.cons_append, walk_link_succ hnode, ← List.append_assoc]
    exact ih h

/-- Where a walk starts, it finds something or what is missing is put in a directory. -/
inductive Reached (t : FileTree ν) : List ν → Prop
  | found {loc : List ν} {node : Node ν} (h : t.node loc = some node) (hlink : node.isLink = false) :
    Reached t loc
  | missing {loc : List ν} {name : ν} (hdir : t.IsDir loc) (h : t.node (loc ++ [name]) = none)
    (ns : List ν) : Reached t (loc ++ name :: ns)

theorem IsDir.reached (h : t.IsDir loc) : t.Reached loc := .found h rfl

theorem walk_reached (hloc : t.Reached loc) (hsome : t.node loc ≠ none)
    (h : t.walk links loc path = some found) : t.Reached found := by
  induction links, loc, path using walk_induction (t := t) with
  | hnil links loc =>
    rw [walk_nil] at h
    cases h
    exact hloc
  | hcurrent links loc rest ih =>
    rw [walk_current] at h
    split_ifs at h with hdir
    exact ih hloc hsome h
  | hparent links loc rest ih =>
    rw [walk_parent] at h
    split_ifs at h with hdir
    have hparent := isDir_dropLast hdir
    exact ih hparent.reached hparent.node_ne_none h
  | hmissing links loc name rest hnode =>
    rw [walk_missing hnode] at h
    split_ifs at h with hdir
    obtain ⟨ns, -, rfl⟩ := Option.map_eq_some_iff.1 h
    exact .missing hdir hnode ns
  | hfound links loc name rest node hnode hlink ih =>
    rw [walk_found hnode hlink] at h
    exact ih (.found hnode hlink) (by simp [hnode]) h
  | hstuck loc name rest target hnode =>
    rw [walk_link_zero hnode] at h
    cases h
  | hlink links loc name rest target hnode ih =>
    rw [walk_link_succ hnode] at h
    have hdir : t.IsDir (if target.isAbsolute then [] else loc) := by
      split_ifs
      · exact isDir_root
      · exact t.parent_dir loc name (by simp [hnode])
    exact ih hdir.reached hdir.node_ne_none h

/-- A walk that finds something goes on from there, over the links that are left. -/
theorem walk_append_found (h : t.walk links loc path = some found) (hfound : t.node found ≠ none) :
    ∃ left ≤ links, ∀ ys, t.walk links loc (path ++ ys) = t.walk left found ys := by
  induction links, loc, path using walk_induction (t := t) with
  | hnil links loc =>
    rw [walk_nil] at h
    cases h
    exact ⟨links, le_rfl, fun ys => rfl⟩
  | hcurrent links loc rest ih =>
    rw [walk_current] at h
    split_ifs at h with hdir
    simpa [walk_current, hdir] using ih h
  | hparent links loc rest ih =>
    rw [walk_parent] at h
    split_ifs at h with hdir
    simpa [walk_parent, hdir] using ih h
  | hmissing links loc name rest hnode =>
    rw [walk_missing hnode] at h
    split_ifs at h with hdir
    obtain ⟨ns, -, rfl⟩ := Option.map_eq_some_iff.1 h
    have hnone : t.node (loc ++ name :: ns) = none := by
      simpa using node_append_eq_none hnode ns
    exact absurd hnone hfound
  | hfound links loc name rest node hnode hlink ih =>
    rw [walk_found hnode hlink] at h
    simpa [walk_found hnode hlink] using ih h
  | hstuck loc name rest target hnode =>
    rw [walk_link_zero hnode] at h
    cases h
  | hlink links loc name rest target hnode ih =>
    rw [walk_link_succ hnode] at h
    obtain ⟨left, hleft, hrest⟩ := ih h
    refine ⟨left, by omega, fun ys => ?_⟩
    rw [List.cons_append, walk_link_succ hnode, ← List.append_assoc, hrest]

/-- Behind what is missing, only names can be missing too. -/
theorem walk_append_missing (hloc : t.node loc ≠ none) (h : t.walk links loc path = some found)
    (hmissing : t.node found = none) (ys : List (Component ν)) :
    t.walk links loc (path ++ ys) = (names ys).map (found ++ ·) := by
  induction links, loc, path using walk_induction (t := t) with
  | hnil links loc =>
    rw [walk_nil] at h
    cases h
    exact absurd hmissing hloc
  | hcurrent links loc rest ih =>
    rw [walk_current] at h
    split_ifs at h with hdir
    rw [List.cons_append, walk_current_of_isDir hdir]
    exact ih hloc h
  | hparent links loc rest ih =>
    rw [walk_parent] at h
    split_ifs at h with hdir
    rw [List.cons_append, walk_parent_of_isDir hdir]
    exact ih (isDir_dropLast hdir).node_ne_none h
  | hmissing links loc name rest hnode =>
    rw [walk_missing hnode] at h
    split_ifs at h with hdir
    obtain ⟨ns, hns, rfl⟩ := Option.map_eq_some_iff.1 h
    rw [List.cons_append, walk_missing hnode, if_pos hdir, names_append hns]
    simp [Function.comp_def]
  | hfound links loc name rest node hnode hlink ih =>
    rw [walk_found hnode hlink] at h
    rw [List.cons_append, walk_found hnode hlink]
    exact ih (by simp [hnode]) h
  | hstuck loc name rest target hnode =>
    rw [walk_link_zero hnode] at h
    cases h
  | hlink links loc name rest target hnode ih =>
    rw [walk_link_succ hnode] at h
    rw [List.cons_append, walk_link_succ hnode, ← List.append_assoc]
    refine ih ?_ h
    split_ifs
    · exact isDir_root.node_ne_none
    · exact (show t.IsDir loc from t.parent_dir loc name (by simp [hnode])).node_ne_none

theorem isDir_of_front {q : List ν} (h : t.IsDir loc) (hq : q <+: loc) : t.IsDir q := by
  obtain ⟨rest, rfl⟩ := hq
  by_cases hempty : rest = []
  · rwa [hempty, List.append_nil] at h
  · exact isDir_of_append h.node_ne_none hempty

theorem IsDir.not_isLink (h : t.IsDir loc) : ¬t.IsLink loc := by
  rintro ⟨target, htarget⟩
  rw [IsDir, htarget] at h
  simp at h

theorem IsLink.node_ne_none (h : t.IsLink loc) : t.node loc ≠ none := by
  obtain ⟨target, htarget⟩ := h
  simp [htarget]

/-- No part of what is reached is a link. -/
theorem Reached.not_isLink (h : t.Reached found) {q : List ν} (hq : q <+: found) : ¬t.IsLink q := by
  cases h with
  | @found loc node hnode hlink =>
    obtain ⟨rest, rfl⟩ := hq
    by_cases hempty : rest = []
    · rintro ⟨target, htarget⟩
      rw [hempty, List.append_nil, htarget] at hnode
      cases hnode
      simp [Node.isLink] at hlink
    · exact (isDir_of_append (by simp [hnode]) hempty).not_isLink
  | @missing loc name hdir hnode ns =>
    have hbefore : loc ++ [name] <+: loc ++ name :: ns := ⟨ns, by simp⟩
    obtain hshort | hlong := List.prefix_or_prefix_of_prefix hq hbefore
    · rw [List.prefix_concat_iff] at hshort
      obtain rfl | hshort := hshort
      · exact fun h => h.node_ne_none hnode
      · exact (isDir_of_front hdir hshort).not_isLink
    · obtain ⟨rest, rfl⟩ := hlong
      exact fun h => h.node_ne_none (node_append_eq_none hnode rest)

/-- What is reached is in a directory. -/
theorem Reached.isDir (h : t.Reached (loc ++ [name] ++ ns')) (hloc : t.node loc ≠ none) :
    t.IsDir loc := by
  generalize hwhole : loc ++ [name] ++ ns' = whole at h
  have hprefix : loc <+: whole := ⟨[name] ++ ns', by rw [← hwhole, List.append_assoc]⟩
  cases h with
  | @found _ node hnode hlink =>
    refine isDir_of_append (q := [name] ++ ns') ?_ (by simp)
    rw [← List.append_assoc, hwhole, hnode]
    simp
  | @missing dir name' hdir hnode ns =>
    have hbefore : dir ++ [name'] <+: dir ++ name' :: ns := ⟨ns, by simp⟩
    obtain hshort | ⟨rest, rfl⟩ := List.prefix_or_prefix_of_prefix hprefix hbefore
    · rw [List.prefix_concat_iff] at hshort
      obtain rfl | hshort := hshort
      · exact absurd hnode hloc
      · exact isDir_of_front hdir hshort
    · exact absurd (node_append_eq_none hnode rest) hloc

theorem names_map_normal (ns : List ν) : names (ns.map .normal) = some ns := by
  induction ns with
  | nil => rfl
  | cons name ns ih => simp [names, ih]

/-- Names that are no links lead where they say. -/
theorem walk_names {ns : List ν} (hlinks : ∀ q, q <+: ns → ¬t.IsLink (loc ++ q))
    (h : t.walk links loc (ns.map .normal) = some found) : found = loc ++ ns := by
  induction ns generalizing loc with
  | nil =>
    rw [List.map_nil, walk_nil] at h
    cases h
    simp
  | cons name ns ih =>
    rw [List.map_cons] at h
    have hfirst := hlinks [name] ⟨ns, rfl⟩
    cases hnode : t.node (loc ++ [name]) with
    | none =>
      rw [walk_missing hnode] at h
      split_ifs at h
      rw [names_map_normal] at h
      cases h
      rfl
    | some node =>
      have hlink : node.isLink = false := by
        cases node with
        | link target => exact absurd ⟨target, hnode⟩ hfirst
        | file => rfl
        | dir => rfl
      rw [walk_found hnode hlink] at h
      have hrest := ih (fun q hq => by
        have hlater := hlinks (name :: q) (List.cons_prefix_cons.2 ⟨rfl, hq⟩)
        simpa using hlater) h
      simpa using hrest

theorem walk_names_of_found {ns : List ν} {node : Node ν} (h : t.node (loc ++ ns) = some node)
    (hlink : node.isLink = false) : t.walk links loc (ns.map .normal) = some (loc ++ ns) := by
  induction ns generalizing loc with
  | nil => simp [walk_nil]
  | cons name ns ih =>
    have hcut : loc ++ name :: ns = loc ++ [name] ++ ns := by simp
    rw [hcut] at h ⊢
    rw [List.map_cons]
    by_cases hempty : ns = []
    · rw [hempty, List.append_nil] at h ⊢
      rw [walk_found h hlink, List.map_nil, walk_nil]
    · have hdir : t.node (loc ++ [name]) = some .dir :=
        isDir_of_append (by rw [h]; simp) hempty
      rw [walk_found hdir rfl]
      exact ih h

end Invariants

section Entries

variable [DecidableEq ν]

def entryNode (entries : List (List ν × Node ν)) (loc : List ν) : Option (Node ν) :=
  if loc = [] then some .dir else entries.lookup loc

theorem mem_of_lookup {entries : List (List ν × Node ν)} (h : entries.lookup loc ≠ none) :
    ∃ entry ∈ entries, entry.1 = loc := by
  by_contra hnone
  refine h (List.lookup_eq_none_iff.2 fun entry hmem => ?_)
  simp only [bne_iff_ne]
  exact fun hsame => hnone ⟨entry, hmem, hsame.symm⟩

/-- The tree of some entries, each in a directory. -/
def ofEntries (entries : List (List ν × Node ν))
    (h : ∀ entry ∈ entries, entryNode entries entry.1.dropLast = some .dir) : FileTree ν where
  node := entryNode entries
  root_dir := rfl
  parent_dir loc name hnode := by
    rw [entryNode, if_neg (by simp)] at hnode
    obtain ⟨entry, hmem, hloc⟩ := mem_of_lookup hnode
    have hdir := h entry hmem
    rwa [hloc, List.dropLast_concat] at hdir

theorem forall_ofEntries {entries : List (List ν × Node ν)}
    {h : ∀ entry ∈ entries, entryNode entries entry.1.dropLast = some .dir} {P : ν → Prop}
    (hentries : ∀ entry ∈ entries, ∀ name ∈ entry.1, P name) :
    ∀ loc, (ofEntries entries h).node loc ≠ none → ∀ name ∈ loc, P name := by
  intro loc hloc
  by_cases hempty : loc = []
  · simp [hempty]
  · have hlookup : entryNode entries loc ≠ none := hloc
    rw [entryNode, if_neg hempty] at hlookup
    obtain ⟨entry, hmem, rfl⟩ := mem_of_lookup hlookup
    exact hentries entry hmem

end Entries

end FileTree

end Codegg.Library
