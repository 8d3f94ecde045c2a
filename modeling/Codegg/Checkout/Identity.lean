import Codegg.FileTools.PathChecks

/-!
# The identity of a path

An absolute path is folded without a look at the tree. Its longest existing front is then resolved,
and the rest put behind it. That is the place a write reaches exactly if folding leaves the place
as it is and no link on the way is broken.
-/
namespace Codegg.Checkout

open Codegg.Library

open FileTools (Text Machine parsePath fromRoot component)
open FileTree FileTools

section Identity

def foldComponent (normalized : List (Component Text)) (c : Component Text) :
    List (Component Text) :=
  match c with
  | .current => normalized
  | .parent =>
    match normalized.getLast? with
    | some (.normal _) => normalized.dropLast
    | _ => normalized ++ [.parent]
  | .normal name => normalized ++ [.normal name]

def lexicalNormalize (components : List (Component Text)) : List (Component Text) :=
  components.foldl foldComponent []

/-- `Path::canonicalize` of components from the root. -/
def canonicalizeFromRoot (m : Machine) (path : List (Component Text)) : Option (List Text) :=
  m.canonicalize ⟨true, path⟩

/-- The front of a path is given from its last component on, the tail in order. -/
def canonicalizeFront (m : Machine) (path : List (Component Text)) :
    List (Component Text) → List Text → List (Component Text)
  | reversed, tail =>
    match canonicalizeFromRoot m reversed.reverse with
    | some resolved => (resolved ++ tail).map .normal
    | none =>
      match reversed with
      | .normal name :: rest => canonicalizeFront m path rest (name :: tail)
      -- A path without a name at its end keeps its lexical form.
      | _ => path

def canonicalizeExistingPrefix (m : Machine) (path : List (Component Text)) :
    List (Component Text) :=
  canonicalizeFront m path path.reverse []

/-- A path that is not absolute is anchored at the root. -/
def canonicalIdentity (m : Machine) (path : Spelling Text) : List (Component Text) :=
  canonicalizeExistingPrefix m (lexicalNormalize path.components)

/-- No link that the components go over is broken. -/
def NoBrokenLink (m : Machine) (components : List (Component Text)) : Prop :=
  ∀ front name rest, components = front ++ .normal name :: rest →
    ∀ dir target, canonicalizeFromRoot m front = some dir →
      m.tree.node (dir ++ [name]) = some (.link target) →
        (canonicalizeFromRoot m (front ++ [.normal name])).isSome

end Identity

section Folding

variable {m : Machine}

/-- Components above the root, and names behind them. -/
def folded (above : ℕ) (names : List Text) : List (Component Text) :=
  List.replicate above .parent ++ names.map .normal

theorem getLast?_folded_nil (above : ℕ) :
    (folded above []).getLast? = if above = 0 then none else some .parent := by
  cases above <;> simp [folded, List.getLast?_replicate]

theorem foldComponent_folded (above : ℕ) (names : List Text) (c : Component Text) :
    ∃ above' names', foldComponent (folded above names) c = folded above' names' := by
  cases c with
  | current => exact ⟨above, names, rfl⟩
  | normal name => exact ⟨above, names ++ [name], by simp [foldComponent, folded]⟩
  | parent =>
    obtain rfl | ⟨front, name, rfl⟩ := List.eq_nil_or_concat names
    · refine ⟨above + 1, [], ?_⟩
      simp only [foldComponent, getLast?_folded_nil]
      split_ifs <;> simp [folded, List.replicate_succ']
    · refine ⟨above, front, ?_⟩
      simp [foldComponent, folded]

theorem lexicalNormalize_folded (components : List (Component Text)) :
    ∃ above names, lexicalNormalize components = folded above names := by
  have hfold : ∀ (cs : List (Component Text)) (above : ℕ) (names : List Text),
      ∃ above' names', cs.foldl foldComponent (folded above names) = folded above' names' := by
    intro cs
    induction cs with
    | nil => exact fun above names => ⟨above, names, rfl⟩
    | cons c cs ih =>
      intro above names
      obtain ⟨above', names', h⟩ := foldComponent_folded above names c
      rw [List.foldl_cons, h]
      exact ih above' names'
  exact hfold components 0 []

/-- There is nothing above the root. -/
theorem walk_folded (above : ℕ) (rest : List (Component Text)) (links : ℕ) :
    m.tree.walk links [] (List.replicate above .parent ++ rest) = m.tree.walk links [] rest := by
  induction above with
  | zero => rfl
  | succ above ih =>
    rw [List.replicate_succ, List.cons_append, walk_parent_of_isDir isDir_root,
      List.dropLast_nil, ih]

theorem canonicalizeFromRoot_folded (above : ℕ) (names : List Text) :
    canonicalizeFromRoot m (folded above names) = m.canonicalize (fromRoot names) := by
  simp [canonicalizeFromRoot, Machine.canonicalize, resolve, fromRoot, folded,
    walk_folded]

end Folding

section Places

variable {m : Machine} {above : ℕ} {names existing canonical suffix loc : List Text}

theorem canonicalize_root : m.canonicalize (fromRoot []) = some [] := by
  rw [canonicalize_fromRoot]
  exact ⟨walk_nil, isDir_root.node_ne_none⟩

/-- What exists of a path is resolved, and the names behind it are put behind that. -/
theorem canonicalizeFront_folded (above : ℕ) (path : List (Component Text)) {reversed tail : List Text}
    (htail : ∀ name rest, tail = name :: rest →
      m.existsAt (reversed.reverse ++ [name]) = false) :
    ∃ existing canonical suffix, existing ++ suffix = reversed.reverse ++ tail ∧
      m.canonicalize (fromRoot existing) = some canonical ∧
      (∀ name rest, suffix = name :: rest → m.existsAt (existing ++ [name]) = false) ∧
      canonicalizeFront m path (folded above reversed.reverse).reverse tail =
        (canonical ++ suffix).map .normal := by
  induction reversed generalizing tail with
  | nil =>
    refine ⟨[], [], tail, by simp, canonicalize_root, htail, ?_⟩
    unfold canonicalizeFront
    rw [List.reverse_reverse, List.reverse_nil, canonicalizeFromRoot_folded, canonicalize_root]
  | cons name reversed ih =>
    cases hfound : m.canonicalize (fromRoot (name :: reversed).reverse) with
    | some canonical =>
      refine ⟨(name :: reversed).reverse, canonical, tail, rfl, hfound, htail, ?_⟩
      unfold canonicalizeFront
      rw [List.reverse_reverse, canonicalizeFromRoot_folded, hfound]
    | none =>
      have habsent : m.existsAt (reversed.reverse ++ [name]) = false := by
        rw [List.reverse_cons] at hfound
        simp [Machine.existsAt, hfound]
      have hlonger : ∀ name' rest, name :: tail = name' :: rest →
          m.existsAt (reversed.reverse ++ [name']) = false := by
        intro name' rest hsame
        cases hsame
        exact habsent
      obtain ⟨existing, canonical, suffix, hcut, hcanonical, hmissing, hresult⟩ := ih hlonger
      refine ⟨existing, canonical, suffix, by simpa using hcut, hcanonical, hmissing, ?_⟩
      have hreversed : (folded above (name :: reversed).reverse).reverse =
          .normal name :: (folded above reversed.reverse).reverse := by
        simp [folded]
      rw [← hresult]
      conv_lhs => unfold canonicalizeFront
      rw [List.reverse_reverse, canonicalizeFromRoot_folded, hfound, hreversed]

theorem canonicalIdentity_eq {path : Spelling Text}
    (hpath : lexicalNormalize path.components = folded above names) :
    ∃ existing canonical suffix, existing ++ suffix = names ∧
      m.canonicalize (fromRoot existing) = some canonical ∧
      (∀ name rest, suffix = name :: rest → m.existsAt (existing ++ [name]) = false) ∧
      canonicalIdentity m path = (canonical ++ suffix).map .normal := by
  have hnothing : ∀ name rest, ([] : List Text) = name :: rest →
      m.existsAt (names.reverse.reverse ++ [name]) = false := by simp
  have h := canonicalizeFront_folded above (folded above names) hnothing
  simpa [canonicalIdentity, canonicalizeExistingPrefix, hpath] using h

theorem folded_eq_append {front rest : List (Component Text)} {name : Text}
    (h : folded above names = front ++ .normal name :: rest) :
    ∃ front' rest', front = folded above front' ∧ names = front' ++ name :: rest' := by
  induction above generalizing front with
  | zero =>
    obtain ⟨front', back, rfl, hfront, hback⟩ := List.map_eq_append_iff.1 h
    cases back with
    | nil => simp at hback
    | cons name' rest' =>
      rw [List.map_cons, List.cons.injEq, Component.normal.injEq] at hback
      exact ⟨front', rest', by simp [folded, hfront], by rw [hback.1]⟩
  | succ above ih =>
    cases front with
    | nil => simp [folded, List.replicate_succ] at h
    | cons c front =>
      have hcons : Component.parent :: folded above names = c :: (front ++ .normal name :: rest) := h
      obtain ⟨rfl, hrest⟩ := List.cons.inj hcons
      obtain ⟨front', rest', rfl, hnames⟩ := ih hrest
      exact ⟨front', rest', rfl, hnames⟩

/-- No link is broken on the way over some names. -/
theorem noBrokenLink_folded :
    NoBrokenLink m (folded above names) ↔ ∀ front name rest, names = front ++ name :: rest →
      ∀ dir target, m.canonicalize (fromRoot front) = some dir →
        m.tree.node (dir ++ [name]) = some (.link target) →
          m.existsAt (front ++ [name]) = true := by
  constructor
  · intro h front name rest hnames dir target hdir htarget
    have hfound := h (folded above front) name (rest.map .normal) (by simp [folded, hnames]) dir target
      (by rw [canonicalizeFromRoot_folded, hdir]) htarget
    have hcut : folded above front ++ [.normal name] = folded above (front ++ [name]) := by
      simp [folded]
    rwa [hcut, canonicalizeFromRoot_folded] at hfound
  · intro h front name rest hcomponents dir target hdir htarget
    obtain ⟨front, rest, rfl, hnames⟩ := folded_eq_append hcomponents
    rw [canonicalizeFromRoot_folded] at hdir
    have hfound := h front name rest hnames dir target hdir htarget
    have hcut : folded above front ++ [.normal name] = folded above (front ++ [name]) := by
      simp [folded]
    rwa [hcut, canonicalizeFromRoot_folded]

/-- The identity of a path is the place that a write reaches exactly if folding the path leaves
that place as it is, and no link on the folded path is broken. -/
theorem canonicalIdentity_iff {path : Spelling Text} (habsolute : path.isAbsolute = true)
    (hloc : m.locate path = some loc) :
    canonicalIdentity m path = loc.map .normal ↔
      m.locate ⟨true, lexicalNormalize path.components⟩ = some loc ∧
        NoBrokenLink m (lexicalNormalize path.components) := by
  obtain ⟨above, names, hpath⟩ := lexicalNormalize_folded path.components
  obtain ⟨existing, canonical, suffix, rfl, hcanonical, hmissing, hidentity⟩ :=
    canonicalIdentity_eq (m := m) hpath
  have hreached : m.tree.Reached loc := by
    unfold Machine.locate at hloc
    rw [habsolute] at hloc
    exact walk_reached isDir_root.reached isDir_root.node_ne_none hloc
  have hinjective : (canonical ++ suffix).map Component.normal = loc.map .normal ↔
      canonical ++ suffix = loc :=
    (List.map_injective_iff.2 fun _ _ h => Component.normal.inj h).eq_iff
  obtain ⟨hwalk, hnode⟩ := canonicalize_fromRoot.1 hcanonical
  obtain ⟨left, -, hrest⟩ := walk_append_found hwalk hnode
  have hlocate : m.locate ⟨true, folded above (existing ++ suffix)⟩ =
      m.tree.walk left canonical (suffix.map .normal) := by
    simp [Machine.locate, folded, walk_folded, hrest]
  rw [hidentity, hinjective, hpath, hlocate, noBrokenLink_folded]
  -- The name behind what exists is missing, unless it is a broken link.
  have hnext (name : Text) (rest : List Text) (hsuffix : suffix = name :: rest)
      (node : Node Text) (hname : m.tree.node (canonical ++ [name]) = some node) :
      ∃ target, node = .link target := by
    have habsent := hmissing name rest hsuffix
    cases node with
    | link target => exact ⟨target, rfl⟩
    | file => simp [existsAt_append_name hcanonical hname rfl] at habsent
    | dir => simp [existsAt_append_name hcanonical hname rfl] at habsent
  constructor
  · rintro rfl
    have hmissingName (name : Text) (rest : List Text) (hsuffix : suffix = name :: rest) :
        m.tree.node (canonical ++ [name]) = none := by
      by_contra hsome
      obtain ⟨node, hname⟩ := Option.ne_none_iff_exists'.1 hsome
      obtain ⟨target, rfl⟩ := hnext name rest hsuffix node hname
      have hprefix : canonical ++ [name] <+: canonical ++ suffix := ⟨rest, by simp [hsuffix]⟩
      exact hreached.not_isLink hprefix ⟨target, hname⟩
    constructor
    · cases suffix with
      | nil => simp [walk_nil]
      | cons name rest =>
        have hdir : m.tree.IsDir canonical := by
          have hcut : canonical ++ name :: rest = canonical ++ [name] ++ rest := by simp
          rw [hcut] at hreached
          exact hreached.isDir hnode
        rw [List.map_cons, walk_missing (hmissingName name rest rfl), if_pos hdir,
          names_map_normal]
        rfl
    · intro front name rest hnames dir target hdir htarget
      by_contra hbroken
      have hprefix : front ++ [name] <+: existing ++ suffix := ⟨rest, by simp [hnames]⟩
      obtain rfl := eq_of_broken hprefix (existsAt_iff.2 ⟨_, hcanonical⟩) hmissing
        (existsAt_iff.2 ⟨_, hdir⟩) (by simpa using hbroken)
      rw [hcanonical] at hdir
      cases hdir
      rw [List.append_cancel_left_eq] at hnames
      rw [hmissingName name rest hnames] at htarget
      cases htarget
  · rintro ⟨hwalked, hbroken⟩
    cases suffix with
    | nil =>
      rw [List.map_nil, walk_nil] at hwalked
      simpa using hwalked
    | cons name rest =>
      have hname : m.tree.node (canonical ++ [name]) = none := by
        by_contra hsome
        obtain ⟨node, hname⟩ := Option.ne_none_iff_exists'.1 hsome
        obtain ⟨target, rfl⟩ := hnext name rest rfl node hname
        have hfound := hbroken existing name rest rfl canonical target hcanonical hname
        simp [hmissing name rest rfl] at hfound
      rw [List.map_cons, walk_missing hname, names_map_normal] at hwalked
      split_ifs at hwalked
      simpa using hwalked

end Places

end Codegg.Checkout
