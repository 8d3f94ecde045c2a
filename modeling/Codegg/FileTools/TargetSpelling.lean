import Codegg.FileTools.PathChecks

/-!
# The text of a target

The text of a target names the target again: it is read as the names that it shows, no link is on
the way, and what does not exist of it is put where it was put before.
-/
namespace Codegg.FileTools

open Codegg.Library FileTree

section Texts

variable {m : Machine} {names p root : List Text} {name rest : Text}

/-- `display`, as the characters that it shows. -/
def displayText (names : List Text) : Text := names.flatMap ('/' :: ·)

theorem toList_display : (display p).toList = if p = [] then ['/'] else displayText p := by
  unfold display displayText
  split_ifs
  · rfl
  · simp

theorem splitOn_append_displayText (hname : '/' ∉ name) (hslash : ∀ n ∈ names, '/' ∉ n) :
    (name ++ displayText names).splitOn '/' = name :: names := by
  have h : ([('/' : Char)].intercalate (name :: names)).splitOn '/' = name :: names :=
    List.splitOn_intercalate '/' (by simpa using ⟨hname, hslash⟩) (by simp)
  rw [← h]
  congr 1
  clear h hslash hname
  induction names generalizing name with
  | nil => simp [displayText]
  | cons n names ih =>
    have hcut : displayText (n :: names) = '/' :: (n ++ displayText names) := by simp [displayText]
    rw [hcut, ih]
    simp [List.intercalate]

theorem splitOn_displayText (hslash : ∀ n ∈ names, '/' ∉ n) :
    (displayText names).splitOn '/' = [] :: names := by
  have hnil : '/' ∉ ([] : Text) := by simp
  simpa using splitOn_append_displayText hnil hslash

theorem filterMap_component (hown : OwnNames names) :
    names.filterMap component = names.map .normal := by
  induction names with
  | nil => rfl
  | cons name names ih =>
    have hrest := ih fun n hn => hown n (List.mem_cons_of_mem _ hn)
    simp [hown name (by simp), hrest]

theorem getLast?_displayText (hown : OwnNames names) (hslash : ∀ n ∈ names, '/' ∉ n) :
    (displayText names).getLast? ≠ some '/' := by
  induction names using List.reverseRecOn with
  | nil => simp [displayText]
  | append_singleton names name ih =>
    have hne : name ≠ [] := by
      rintro rfl
      exact absurd (hown [] (by simp)) (by decide)
    have hcut : displayText (names ++ [name]) = displayText names ++ '/' :: name := by
      simp [displayText]
    rw [hcut, List.getLast?_append, List.getLast?_cons_of_ne_nil hne]
    intro hlast
    have hsome : name.getLast? = some '/' := by
      obtain ⟨c, hc⟩ := Option.ne_none_iff_exists'.1 (List.getLast?_eq_none_iff.not.2 hne)
      rw [hc] at hlast ⊢
      simpa using hlast
    exact hslash name (by simp) (List.mem_of_getLast? hsome)

theorem not_mem_of_mem_splitOn {sep : Char} {text piece : Text} (h : piece ∈ text.splitOn sep) :
    sep ∉ piece := by
  induction text generalizing piece with
  | nil =>
    rw [List.splitOn_nil, List.mem_singleton] at h
    simp [h]
  | cons c text ih =>
    rw [List.splitOn, List.splitOnP_cons_eq_if_modifyHead] at h
    obtain ⟨first, rest, hpieces⟩ := List.exists_cons_of_ne_nil (List.splitOnP_ne_nil (· == sep) text)
    rw [List.splitOn, hpieces] at ih
    rw [hpieces] at h
    split_ifs at h with hsep
    · obtain rfl | h := List.mem_cons.1 h
      · simp
      · exact ih h
    · obtain rfl | h := List.mem_cons.1 h
      · have hne : sep ≠ c := fun hsame => hsep (by simp [hsame])
        simpa [hne] using ih List.mem_cons_self
      · exact ih (List.mem_cons_of_mem _ h)

theorem slash_not_mem_parsePath {spelled : Text}
    (h : .normal name ∈ (parsePath spelled).components) : '/' ∉ name := by
  simp only [parsePath, List.mem_append, List.mem_filterMap] at h
  obtain ⟨piece, hpiece, hname⟩ | h := h
  · rw [← eq_of_component hname]
    exact not_mem_of_mem_splitOn hpiece
  · split_ifs at h <;> simp at h

/-- A text of names is read as these names. -/
theorem parsePath_displayText (hne : names ≠ []) (hown : OwnNames names)
    (hslash : ∀ n ∈ names, '/' ∉ n) : parsePath (displayText names) = fromRoot names := by
  obtain ⟨name, rest, rfl⟩ := List.exists_cons_of_ne_nil hne
  have hstart : ['/'] <+: displayText (name :: rest) := ⟨name ++ displayText rest, by simp [displayText]⟩
  have hpieces : ((displayText (name :: rest)).splitOn '/').filterMap component =
      (name :: rest).map .normal := by
    rw [splitOn_displayText hslash, List.filterMap_cons_none (by rfl), filterMap_component hown]
  rw [parsePath, hpieces, if_neg (getLast?_displayText hown hslash)]
  simp [fromRoot, hstart]

theorem parsePath_root : parsePath ['/'] = ⟨true, [.current]⟩ := by decide

theorem isAbsolute_display (hown : OwnNames p) (hslash : ∀ n ∈ p, '/' ∉ n) :
    (parsePath (display p).toList).isAbsolute = true := by
  rw [toList_display]
  split_ifs with hempty
  · rw [parsePath_root]
  · rw [parsePath_displayText hempty hown hslash]
    rfl

theorem canonicalize_display (hown : OwnNames p) (hslash : ∀ n ∈ p, '/' ∉ n) :
    m.canonicalize (parsePath (display p).toList) = m.canonicalize (fromRoot p) := by
  rw [toList_display]
  split_ifs with hempty
  · rw [hempty, parsePath_root]
    simp [Machine.canonicalize, resolve, fromRoot, walk_current_of_isDir isDir_root]
  · rw [parsePath_displayText hempty hown hslash]

theorem lexicallyNormalize_names : lexicallyNormalize (names.map .normal) = names := by
  unfold lexicallyNormalize
  induction names using List.reverseRecOn with
  | nil => rfl
  | append_singleton names name ih => simp [ih]

theorem candidateOf_display (hown : OwnNames p) (hslash : ∀ n ∈ p, '/' ∉ n) :
    candidateOf root (display p).toList = p := by
  unfold candidateOf
  dsimp only
  rw [if_pos (isAbsolute_display hown hslash), toList_display]
  split_ifs with hempty
  · rw [hempty]
    rfl
  · rw [parsePath_displayText hempty hown hslash]
    exact lexicallyNormalize_names

end Texts

section Again

variable {m : Machine} {root p q existing canonical suffix path : List Text} {name : Text}
  {allowedRoot spelled : Text}

theorem canonicalize_of_noLinks (hlinks : ∀ q, q <+: path → ¬m.tree.IsLink q)
    (h : m.canonicalize (fromRoot path) = some canonical) : canonical = path := by
  have hwalk := (canonicalize_fromRoot.1 h).1
  have hsame : canonical = [] ++ path :=
    walk_names (fun q hq => by simpa using hlinks q hq) hwalk
  simpa using hsame

theorem canonicalize_of_node {node : Node Text} (hnode : m.tree.node path = some node)
    (hlink : node.isLink = false) : m.canonicalize (fromRoot path) = some path := by
  refine canonicalize_fromRoot.2 ⟨?_, by simp [hnode]⟩
  have hwalk : m.tree.walk m.maxLinks [] (path.map .normal) = some ([] ++ path) :=
    walk_names_of_found (by simpa using hnode) hlink
  simpa using hwalk

/-- What a path leads to leads to itself. -/
theorem canonicalize_canonical (hreached : m.tree.Reached canonical)
    (hnode : m.tree.node canonical ≠ none) : m.canonicalize (fromRoot canonical) = some canonical := by
  obtain ⟨node, hnode⟩ := Option.ne_none_iff_exists'.1 hnode
  refine canonicalize_of_node hnode ?_
  cases node with
  | file => rfl
  | dir => rfl
  | link target => exact absurd ⟨target, hnode⟩ (hreached.not_isLink (List.prefix_refl _))

theorem checkComponents_append {checked front behind : List Text}
    (h : checkComponents m checked (front ++ behind) = .ok ()) :
    checkComponents m checked front = .ok () := by
  induction front generalizing checked with
  | nil => rfl
  | cons name front ih =>
    rw [List.cons_append] at h
    unfold checkComponents at h ⊢
    dsimp only at h ⊢
    cases hmetadata : m.symlinkMetadata (checked ++ [name]) with
    | none =>
      rw [hmetadata] at h
      exact ih h
    | some node =>
      rw [hmetadata] at h
      cases node with
      | file => exact ih h
      | dir => exact ih h
      | link target =>
        split_ifs at h ⊢ with halias
        exact ih h

/-- A path without links passes. -/
theorem checkComponents_of_noLinks {checked behind : List Text}
    (h : ∀ q, q <+: behind → ∀ target, m.symlinkMetadata (checked ++ q) ≠ some (.link target)) :
    checkComponents m checked behind = .ok () := by
  induction behind generalizing checked with
  | nil => rfl
  | cons name behind ih =>
    have hrest : checkComponents m (checked ++ [name]) behind = .ok () := by
      refine ih fun q hq target => ?_
      have hlater := h (name :: q) (List.cons_prefix_cons.2 ⟨rfl, hq⟩) target
      simpa using hlater
    have hfirst := h [name] ⟨behind, rfl⟩
    unfold checkComponents
    dsimp only
    split
    · rename_i target hmetadata
      exact absurd hmetadata (hfirst target)
    · exact hrest

theorem symlinkMetadata_ne_link (hlinks : ∀ q, q <+: path → ¬m.tree.IsLink q)
    {target : Spelling Text} : m.symlinkMetadata path ≠ some (.link target) := by
  intro hmetadata
  obtain rfl | ⟨front, name, hpath⟩ := List.eq_nil_or_concat path
  · simp [Machine.symlinkMetadata] at hmetadata
  · rw [List.concat_eq_append] at hpath
    subst hpath
    cases hfront : m.canonicalize (fromRoot front) with
    | none => simp [Machine.symlinkMetadata, hfront] at hmetadata
    | some loc =>
      have hloc : loc = front := by
        refine canonicalize_of_noLinks (fun q hq => ?_) hfront
        exact hlinks q (hq.trans (List.prefix_append _ _))
      rw [symlinkMetadata_append hfront, hloc] at hmetadata
      split_ifs at hmetadata
      exact hlinks _ (List.prefix_refl _) ⟨target, hmetadata⟩

theorem checkPathForSymlinks_of_noLinks (hlinks : ∀ q, q <+: path → ¬m.tree.IsLink q) :
    checkPathForSymlinks m path = .ok () := by
  refine checkComponents_of_noLinks fun q hq target => ?_
  exact symlinkMetadata_ne_link fun r hr => hlinks r (hr.trans hq)

/-- What exists of a path is its longest front that does. -/
theorem splitExisting_eq {tail : List Text} (hexists : m.existsAt existing = true)
    (hmissing : ∀ name rest, suffix = name :: rest → m.existsAt (existing ++ [name]) = false) :
    splitExisting m (existing ++ suffix).reverse tail = .ok (existing, suffix ++ tail) := by
  induction suffix using List.reverseRecOn generalizing tail with
  | nil =>
    rw [List.append_nil]
    exact splitExisting_of_existsAt hexists tail
  | append_singleton suffix name ih =>
    have habsent : m.existsAt (existing ++ suffix ++ [name]) = false := by
      cases suffix with
      | nil => simpa using hmissing name [] rfl
      | cons first rest =>
        by_contra hwhole
        rw [Bool.not_eq_false] at hwhole
        have hcut : existing ++ first :: rest ++ [name] = (existing ++ [first]) ++ (rest ++ [name]) := by
          simp
        rw [hcut] at hwhole
        have hfirst := hmissing first (rest ++ [name]) (by simp)
        simp [existsAt_of_append hwhole] at hfirst
    have hreversed : (existing ++ (suffix ++ [name])).reverse = name :: (existing ++ suffix).reverse := by
      simp
    rw [hreversed, splitExisting]
    simp only [List.reverse_cons, List.reverse_reverse, habsent]
    rw [ih fun first rest hsuffix => hmissing first (rest ++ [name]) (by simp [hsuffix])]
    simp

/-- A path is accepted when what exists of it leads under the root. -/
theorem validateTargetPath_eq (hroot : canonicalRoot m allowedRoot = .ok root)
    (hcheck : checkPathForSymlinks m (candidateOf root spelled) = .ok ())
    (hcut : existing ++ suffix = candidateOf root spelled)
    (hcanonical : m.canonicalize (fromRoot existing) = some canonical)
    (hmissing : ∀ name rest, suffix = name :: rest → m.existsAt (existing ++ [name]) = false)
    (hinside : root <+: canonical) :
    validateTargetPath m spelled allowedRoot = .ok (canonical ++ suffix) := by
  have hsplit : splitExisting m (existing ++ suffix).reverse [] = .ok (existing, suffix ++ []) :=
    splitExisting_eq (existsAt_iff.2 ⟨_, hcanonical⟩) hmissing
  rw [hcut, List.append_nil] at hsplit
  have hfront : checkPathForSymlinks m existing = .ok () :=
    checkComponents_append (by rw [hcut]; exact hcheck)
  have hown : OwnNames suffix := by
    have hall : OwnNames (candidateOf root spelled) := ownNames_candidateOf (canonicalRoot_ok hroot).1
    rw [← hcut] at hall
    exact fun name hname => hall name (List.mem_append_right _ hname)
  unfold validateTargetPath
  simp only [hroot, hcheck, hsplit, hfront, hcanonical, hinside, bind, Except.bind]
  exact appendSuffix_ok hown hinside

/-- A link that is let pass is in a directory without links on the way to it. -/
theorem eq_of_isMacosSystemAlias (hcheck : checkPathForSymlinks m existing = .ok ())
    (halias : isMacosSystemAlias (existing ++ [name]) = true)
    (hcanonical : m.canonicalize (fromRoot existing) = some canonical) : canonical = existing := by
  have hshort : existing = [] ∨ existing = ["private".toList] := by
    have hmem : existing ++ [name] ∈ macosSystemAliases := by
      simpa [isMacosSystemAlias] using halias
    have hall : ∀ path ∈ macosSystemAliases,
        path.dropLast = [] ∨ path.dropLast = ["private".toList] := by decide
    simpa using hall _ hmem
  refine canonicalize_of_noLinks (fun q hq hlink => ?_) hcanonical
  obtain rfl | rfl := hshort
  · rw [List.prefix_nil.1 hq] at hlink
    exact isDir_root.not_isLink hlink
  · obtain rfl | hempty := List.prefix_concat_iff.1 (show q <+: [] ++ ["private".toList] from hq)
    · obtain ⟨target, htarget⟩ := hlink
      have hmetadata : m.symlinkMetadata ([] ++ ["private".toList]) = some (.link target) := by
        have hroot : m.canonicalize (fromRoot []) = some [] :=
          canonicalize_of_node isDir_root rfl
        rw [symlinkMetadata_append hroot, if_pos isDir_root]
        exact htarget
      have hallowed := isMacosSystemAlias_of_check hcheck (List.prefix_refl _) (by simp) hmetadata
      exact absurd hallowed (by decide)
    · rw [List.prefix_nil.1 hempty] at hlink
      exact isDir_root.not_isLink hlink

/-- The target of a path is the target of its own text. -/
theorem validateTargetPath_display (hroot : canonicalRoot m allowedRoot = .ok root)
    (h : validateTargetPath m spelled allowedRoot = .ok p) (hslash : ∀ n ∈ p, '/' ∉ n) :
    validateTargetPath m (display p).toList allowedRoot = .ok p := by
  obtain ⟨existing, canonical, suffix, hcheck, hcut, hcanonical, hmissing, hinside, rfl⟩ :=
    validateTargetPath_ok hroot h
  have hnode := (canonicalize_fromRoot.1 hcanonical).2
  have hreached := reached_of_canonicalize hcanonical
  have hcandidate : OwnNames (candidateOf root spelled) :=
    ownNames_candidateOf (canonicalRoot_ok hroot).1
  have hown : OwnNames (canonical ++ suffix) := by
    rw [← hcut] at hcandidate
    intro name hname
    rw [List.mem_append] at hname
    obtain hname | hname := hname
    · exact m.own_names canonical hnode name hname
    · exact hcandidate name (List.mem_append_right _ hname)
  have hsame : candidateOf root (display (canonical ++ suffix)).toList = canonical ++ suffix :=
    candidateOf_display hown hslash
  by_cases hlink : ∃ name rest, suffix = name :: rest ∧ m.tree.IsLink (canonical ++ [name])
  · -- Only a system alias is let pass, and no link is before it.
    obtain ⟨name, rest, rfl, target, htarget⟩ := hlink
    have hdir : m.tree.IsDir canonical := m.tree.parent_dir canonical name (by simp [htarget])
    have hmetadata : m.symlinkMetadata ([] ++ (existing ++ [name])) = some (.link target) := by
      rw [List.nil_append, symlinkMetadata_append hcanonical, if_pos hdir, htarget]
    have halias := isMacosSystemAlias_of_check hcheck
      (show existing ++ [name] <+: candidateOf root spelled from ⟨rest, by simp [← hcut]⟩)
      (by simp) hmetadata
    have hfront : checkPathForSymlinks m existing = .ok () :=
      checkComponents_append (by rw [hcut]; exact hcheck)
    obtain rfl := eq_of_isMacosSystemAlias hfront halias hcanonical
    refine validateTargetPath_eq hroot ?_ hsame.symm hcanonical hmissing hinside
    rwa [hsame, hcut]
  · have hnone : ∀ name rest, suffix = name :: rest → m.tree.node (canonical ++ [name]) = none := by
      intro name rest hsuffix
      by_contra hsome
      obtain ⟨node, hfound⟩ := Option.ne_none_iff_exists'.1 hsome
      have hplain : node.isLink = false := by
        cases node with
        | file => rfl
        | dir => rfl
        | link target => exact absurd ⟨name, rest, hsuffix, target, hfound⟩ hlink
      have habsent := hmissing name rest hsuffix
      simp [existsAt_append_name hcanonical hfound hplain] at habsent
    have hlinks : ∀ q, q <+: canonical ++ suffix → ¬m.tree.IsLink q :=
      fun q hq => not_isLink_of_missing hreached hnone hq
    refine validateTargetPath_eq hroot ?_ hsame.symm (canonicalize_canonical hreached hnode) ?_ hinside
    · rw [hsame]
      exact checkPathForSymlinks_of_noLinks hlinks
    · intro name rest hsuffix
      by_contra hexists
      rw [Bool.not_eq_false, existsAt_iff] at hexists
      obtain ⟨loc, hloc⟩ := hexists
      obtain rfl : loc = canonical ++ [name] := by
        refine canonicalize_of_noLinks (fun q hq => ?_) hloc
        refine hlinks q (hq.trans ?_)
        rw [hsuffix, List.prefix_append_right_inj]
        exact ⟨rest, rfl⟩
      exact (canonicalize_fromRoot.1 hloc).2 (hnone name rest hsuffix)

end Again

end Codegg.FileTools
