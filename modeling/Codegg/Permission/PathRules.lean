import Codegg.Permission.DenyRules

/-!
# Rules for some directories only

A rule that lists directories is meant for the paths in them. Both lookups compare texts: a
path is taken to be in a directory when its text begins with that of the directory, which is
also so when the last name of the directory is only the beginning of a name of the path. The
lookup on canonical rules takes a rule none of whose directories exist for one without any,
and does not look at directories when the request has no path.
-/
namespace Codegg.Permission

open CanonicalPath ToolRule

/-! ### Texts of paths -/

/-- The text of names each with a slash before it. -/
def slashed (names : List FileName) : List Char := names.flatMap fun name => '/' :: name.text

@[simp] theorem slashed_nil : slashed [] = [] := rfl

@[simp] theorem slashed_cons (name : FileName) (names : List FileName) :
    slashed (name :: names) = '/' :: name.text ++ slashed names := rfl

variable {p : CanonicalPath} {as bs : List FileName} {r : ToolRule}

theorem CanonicalPath.text_of_ne_nil (h : p.components ≠ []) :
    p.text = slashed p.components := by
  unfold text
  split
  · rename_i hnil
    exact absurd hnil h
  · rfl

/-- The names end within a name of the others: the last is a proper beginning of it. -/
def StopsWithin (as bs : List FileName) : Prop :=
  ∃ common last name rest, as = common ++ [last] ∧ bs = common ++ name :: rest ∧
    last.text <+: name.text ∧ last ≠ name

theorem StopsWithin.cons {as bs : List FileName} (h : StopsWithin as bs) (name : FileName) :
    StopsWithin (name :: as) (name :: bs) := by
  obtain ⟨common, last, other, rest, rfl, rfl, hprefix, hne⟩ := h
  exact ⟨name :: common, last, other, rest, rfl, rfl, hprefix, hne⟩

theorem FileName.ext_text {a b : FileName} (h : a.text = b.text) : a = b := by
  cases a
  cases h
  rfl

theorem head?_slashed {names : List FileName} {c : Char} (h : (slashed names).head? = some c) :
    c = '/' := by
  cases names with
  | nil => simp at h
  | cons name names => simpa using h.symm

/-- A text without slashes that begins a name and more begins the name. -/
theorem isPrefix_of_isPrefix_append {xs ys zs : List Char} (hx : '/' ∉ xs)
    (hz : ∀ c, zs.head? = some c → c = '/') (h : xs <+: ys ++ zs) : xs <+: ys := by
  induction xs generalizing ys with
  | nil => exact List.nil_prefix
  | cons x xs ih =>
    cases ys with
    | nil =>
      obtain ⟨rest, hrest⟩ := h
      have hhead : zs.head? = some x := by
        rw [List.nil_append] at hrest
        simp [← hrest]
      exact absurd (hz x hhead) fun he => hx (he ▸ List.mem_cons_self)
    | cons y ys =>
      rw [List.cons_append, List.cons_prefix_cons] at h
      rw [List.cons_prefix_cons]
      exact ⟨h.1, ih (fun hmem => hx (List.mem_cons_of_mem _ hmem)) h.2⟩

/-- A name with a slash after it that begins a name and more is that name. -/
theorem eq_of_isPrefix_append {xs ys zs rest : List Char} (hx : '/' ∉ xs) (hy : '/' ∉ ys)
    (hz : ∀ c, zs.head? = some c → c = '/') (h : xs ++ '/' :: rest <+: ys ++ zs) :
    xs = ys ∧ '/' :: rest <+: zs := by
  induction xs generalizing ys with
  | nil =>
    cases ys with
    | nil => exact ⟨rfl, h⟩
    | cons y ys =>
      rw [List.nil_append, List.cons_append, List.cons_prefix_cons] at h
      exact absurd (h.1 ▸ List.mem_cons_self) hy
  | cons x xs ih =>
    cases ys with
    | nil =>
      obtain ⟨more, hmore⟩ := h
      have hhead : zs.head? = some x := by
        rw [List.nil_append] at hmore
        simp [← hmore]
      exact absurd (hz x hhead) fun he => hx (he ▸ List.mem_cons_self)
    | cons y ys =>
      rw [List.cons_append, List.cons_append, List.cons_prefix_cons] at h
      obtain ⟨hxs, hzs⟩ := ih (fun hmem => hx (List.mem_cons_of_mem _ hmem))
        (fun hmem => hy (List.mem_cons_of_mem _ hmem)) h.2
      exact ⟨by rw [h.1, hxs], hzs⟩

theorem slashed_isPrefix_of_isPrefix (h : as <+: bs) :
    slashed as <+: slashed bs := by
  obtain ⟨rest, rfl⟩ := h
  exact ⟨slashed rest, by simp [slashed]⟩

theorem slashed_isPrefix_of_stopsWithin (h : StopsWithin as bs) :
    slashed as <+: slashed bs := by
  obtain ⟨common, last, name, rest, rfl, rfl, ⟨more, hmore⟩, -⟩ := h
  simp [slashed, ← hmore]

/-- One text begins with the other when the names do, or up to within a name. -/
theorem slashed_isPrefix_iff :
    slashed as <+: slashed bs ↔ as <+: bs ∨ StopsWithin as bs := by
  refine ⟨fun h => ?_, fun h => h.elim slashed_isPrefix_of_isPrefix
    slashed_isPrefix_of_stopsWithin⟩
  induction as generalizing bs with
  | nil => exact .inl List.nil_prefix
  | cons a as ih =>
    cases bs with
    | nil => simp at h
    | cons b bs =>
      rw [slashed_cons, slashed_cons, List.cons_append, List.cons_append,
        List.cons_prefix_cons] at h
      cases as with
      | nil =>
        have hprefix : a.text <+: b.text := isPrefix_of_isPrefix_append a.slash_not_mem
          (fun c => head?_slashed) (by simpa using h.2)
        by_cases hab : a = b
        · exact .inl ⟨bs, by simp [hab]⟩
        · exact .inr ⟨[], a, b, bs, rfl, rfl, hprefix, hab⟩
      | cons a' as =>
        rw [slashed_cons] at h
        obtain ⟨htext, hrest⟩ := eq_of_isPrefix_append a.slash_not_mem b.slash_not_mem
          (fun c => head?_slashed) h.2
        have hab := FileName.ext_text htext
        subst hab
        rcases ih (by simpa using hrest) with hnames | hwithin
        · exact .inl (List.cons_prefix_cons.mpr ⟨rfl, hnames⟩)
        · exact .inr (hwithin.cons a)

/-- The path is the directory or lies below it, name by name. -/
def CanonicalPath.Below (p dir : CanonicalPath) : Prop := dir.components <+: p.components

theorem CanonicalPath.text_isPrefix_iff {dir : CanonicalPath} :
    dir.text <+: p.text ↔ p.Below dir ∨ StopsWithin dir.components p.components := by
  by_cases hdir : dir.components = []
  · -- the root is above everything
    have hroot : dir.text = ['/'] := by simp [text, hdir]
    have hslash : ['/'] <+: p.text := by
      unfold text
      split
      · exact List.prefix_rfl
      · rename_i hne
        cases hp : p.components with
        | nil => exact absurd hp hne
        | cons name names => exact ⟨name.text ++ slashed names, rfl⟩
    simp [hroot, hslash, CanonicalPath.Below, hdir]
  · rw [text_of_ne_nil hdir, CanonicalPath.Below, ← slashed_isPrefix_iff]
    by_cases hp : p.components = []
    · cases hd : dir.components with
      | nil => exact absurd hd hdir
      | cons name names =>
        have htext : p.text = ['/'] := by simp [text, hp]
        have hne := name.ne_nil
        simp [htext, hp, hne]
    · rw [text_of_ne_nil hp]

/-! ### What a rule contributes to -/

section Lookups

variable (glob : Glob) (resolve : String → Option CanonicalPath) (tool : String)

/-- The directories of the rule that exist. -/
def ToolRule.directories (r : ToolRule) : List CanonicalPath := (r.paths.getD []).filterMap resolve

/-- The rule is for all paths, or the path is in one of its directories. -/
def ToolRule.Contains (r : ToolRule) (p : CanonicalPath) : Prop :=
  ∃ dir ∈ r.directories resolve, p.Below dir

/-- A rule with a list of directories speaks only about the paths in them, in both lookups. -/
def Confined (rules : List ToolRule) (path : Option CanonicalPath) : Prop :=
  ∀ r ∈ rules, ∀ p, path = some p → r.paths.getD [] ≠ [] →
    ((r.canonicalize resolve).applies glob tool (some p) = true → r.Contains resolve p) ∧
      ∀ args, r.applies glob tool (some p) args = true → r.Contains resolve p

/-- The rules with other levels. -/
def withLevels (levels : ℕ → PermissionLevel) (rules : List ToolRule) : List ToolRule :=
  rules.mapIdx fun i r => { r with level := levels i }

/-- The two lookups give the same level, whatever the levels of the rules are. -/
def LookupsAgree (rules : List ToolRule) (path : Option CanonicalPath) : Prop :=
  ∀ levels, findCanonicalizedToolRule glob
      (canonicalizeToolRules resolve (withLevels levels rules)) tool path =
    findToolRuleWithArgs glob (withLevels levels rules) tool path none

/-! ### The exact conditions -/

/-- The path is not in a directory of the rule, and no text suggests that it is. -/
structure ToolRule.Outside (r : ToolRule) (p : CanonicalPath) : Prop where
  exists_directory : r.directories resolve ≠ []
  not_below : ¬ r.Contains resolve p
  not_stopsWithin : ∀ dir ∈ r.directories resolve, ¬ StopsWithin dir.components p.components
  not_written : ∀ listed ∈ r.paths.getD [], ¬ listed.toList <+: p.text

/-- The test of the lookup on canonical rules lets the path through. -/
def ToolRule.directoriesAdmit (path : Option CanonicalPath) (r : ToolRule) : Bool :=
  match path with
  | some p =>
    (r.directories resolve).isEmpty || (r.directories resolve).any fun d => d.text.isPrefixOf p.text
  | none => true

/-- A rule for the tool that only one of the two tests lets through is followed by one that
both let through. -/
def Superseded (rules : List ToolRule) (path : Option CanonicalPath) : Prop :=
  ∀ before r after, rules = before ++ r :: after → r.matches glob tool = true →
    r.directoriesAdmit resolve path ≠ r.pathsAdmit path →
      ∃ r' ∈ after, r'.matches glob tool = true ∧ r'.directoriesAdmit resolve path = true ∧
        r'.pathsAdmit path = true

end Lookups

section Conditions

variable {glob : Glob} {resolve : String → Option CanonicalPath} {tool : String}
variable {rules : List ToolRule} {path : Option CanonicalPath}

theorem canonicalize_applies (r : ToolRule) :
    (r.canonicalize resolve).applies glob tool path =
      (r.matches glob tool && r.directoriesAdmit resolve path) := by
  have hname : r.tool = tool ∨ r.tool = "*" → toolNameMatches glob r.tool tool = true := by
    rintro (hsame | hany)
    · simp [toolNameMatches, hsame]
    · simp [toolNameMatches, hany]
  have happlies : (r.canonicalize resolve).applies glob tool path =
      ((r.tool = tool || r.tool = "*" || toolNameMatches glob r.tool tool) &&
        r.directoriesAdmit resolve path) := by
    cases path <;> rfl
  rw [happlies, Bool.eq_iff_iff]
  simp only [Bool.and_eq_true, Bool.or_eq_true,
    decide_eq_true_eq]
  constructor
  · rintro ⟨hsame | hmatches, hdirs⟩
    · exact ⟨hname hsame, hdirs⟩
    · exact ⟨hmatches, hdirs⟩
  · rintro ⟨hmatches, hdirs⟩
    exact ⟨.inr hmatches, hdirs⟩

theorem applies_none (r : ToolRule) :
    r.applies glob tool path none = (r.matches glob tool && r.pathsAdmit path) := by
  simp [applies]

theorem pathsAdmit_some_iff (h : r.paths.getD [] ≠ []) :
    r.pathsAdmit (some p) = true ↔ ∃ listed ∈ r.paths.getD [], listed.toList <+: p.text := by
  unfold pathsAdmit
  cases hpaths : r.paths with
  | none => simp [hpaths] at h
  | some paths =>
    cases paths with
    | nil => simp [hpaths] at h
    | cons listed paths => simp [List.isPrefixOf_iff_prefix]

theorem directoriesAdmit_some_iff :
    r.directoriesAdmit resolve (some p) = true ↔
      r.directories resolve = [] ∨ r.Contains resolve p ∨
        ∃ dir ∈ r.directories resolve, StopsWithin dir.components p.components := by
  simp only [directoriesAdmit, Bool.or_eq_true, List.isEmpty_iff, List.any_eq_true,
    List.isPrefixOf_iff_prefix, text_isPrefix_iff]
  constructor
  · rintro (hnil | ⟨dir, hdir, hbelow | hwithin⟩)
    · exact .inl hnil
    · exact .inr (.inl ⟨dir, hdir, hbelow⟩)
    · exact .inr (.inr ⟨dir, hdir, hwithin⟩)
  · rintro (hnil | ⟨dir, hdir, hbelow⟩ | ⟨dir, hdir, hwithin⟩)
    · exact .inl hnil
    · exact .inr ⟨dir, hdir, .inl hbelow⟩
    · exact .inr ⟨dir, hdir, .inr hwithin⟩

theorem confined_iff :
    Confined glob resolve tool rules path ↔
      ∀ r ∈ rules, ∀ p, path = some p → r.paths.getD [] ≠ [] → r.matches glob tool = true →
        r.Contains resolve p ∨ r.Outside resolve p := by
  constructor
  · intro h r hr p hp hne hmatches
    obtain ⟨hcanonical, hwritten⟩ := h r hr p hp hne
    by_cases hin : r.Contains resolve p
    · exact .inl hin
    · have hnot : ¬ r.directoriesAdmit resolve (some p) = true := fun hadmit =>
        hin (hcanonical (by rw [canonicalize_applies, hmatches, hadmit]; rfl))
      rw [directoriesAdmit_some_iff] at hnot
      push Not at hnot
      refine .inr ⟨hnot.1, hin, hnot.2.2, fun listed hlisted hprefix => ?_⟩
      have hadmit := (pathsAdmit_some_iff hne).mpr ⟨listed, hlisted, hprefix⟩
      exact hin (hwritten none (by rw [applies_none, hmatches, hadmit]; rfl))
  · intro h r hr p hp hne
    constructor
    · intro happlies
      rw [canonicalize_applies, Bool.and_eq_true] at happlies
      rcases h r hr p hp hne happlies.1 with hin | hout
      · exact hin
      · rcases directoriesAdmit_some_iff.mp happlies.2 with hnil | hin | ⟨dir, hdir, hwithin⟩
        · exact absurd hnil hout.exists_directory
        · exact hin
        · exact absurd hwithin (hout.not_stopsWithin dir hdir)
    · intro args happlies
      have hmatches := matches_of_applies happlies
      simp only [applies, Bool.and_eq_true] at happlies
      rcases h r hr p hp hne hmatches with hin | hout
      · exact hin
      · obtain ⟨listed, hlisted, hprefix⟩ := (pathsAdmit_some_iff hne).mp happlies.1.2
        exact absurd hprefix (hout.not_written listed hlisted)

/-! ### Agreement of the lookups -/

theorem findCanonicalizedToolRule_concat (rules : List CanonicalizedToolRule)
    (r : CanonicalizedToolRule) :
    findCanonicalizedToolRule glob (rules ++ [r]) tool path =
      if r.applies glob tool path then some r.level
      else findCanonicalizedToolRule glob rules tool path := by
  simp only [findCanonicalizedToolRule]
  split <;> simp_all

/-- Without arguments no rule is for some commands only. -/
theorem foldl_step_none (rules : List ToolRule) (found : RuleMatches) :
    (rules.foldl (RuleMatches.step glob tool path none) found).specific = found.specific := by
  induction rules generalizing found with
  | nil => rfl
  | cons r rules ih =>
    rw [List.foldl_cons, ih, RuleMatches.step]
    split
    · rfl
    · simp [isSpecific]

theorem findToolRuleWithArgs_none (rules : List ToolRule) :
    findToolRuleWithArgs glob rules tool path none =
      (rules.foldl (RuleMatches.step glob tool path none) ⟨[], none⟩).fallback := by
  simp only [findToolRuleWithArgs]
  rw [foldl_step_none, if_neg (by simp)]

theorem findToolRuleWithArgs_concat (rules : List ToolRule) (r : ToolRule) :
    findToolRuleWithArgs glob (rules ++ [r]) tool path none =
      if r.applies glob tool path none then some r.level
      else findToolRuleWithArgs glob rules tool path none := by
  rw [findToolRuleWithArgs_none, findToolRuleWithArgs_none, List.foldl_concat, RuleMatches.step]
  cases r.applies glob tool path none <;> simp [isSpecific]

theorem withLevels_concat (levels : ℕ → PermissionLevel) (rules : List ToolRule) (r : ToolRule) :
    withLevels levels (rules ++ [r]) =
      withLevels levels rules ++ [{ r with level := levels rules.length }] := by
  simp [withLevels]

/-- The level of a rule has no part in whether it applies. -/
theorem applies_withLevel (r : ToolRule) (level : PermissionLevel) :
    ({ r with level := level } : ToolRule).applies glob tool path none =
      (r.matches glob tool && r.pathsAdmit path) := by
  rw [applies_none]
  rfl

theorem canonicalize_applies_withLevel (r : ToolRule) (level : PermissionLevel) :
    (({ r with level := level } : ToolRule).canonicalize resolve).applies glob tool path =
      (r.matches glob tool && r.directoriesAdmit resolve path) := by
  rw [canonicalize_applies]
  rfl

theorem canonicalizeToolRules_concat (rules : List ToolRule) (r : ToolRule) :
    canonicalizeToolRules resolve (rules ++ [r]) =
      canonicalizeToolRules resolve rules ++ [r.canonicalize resolve] := by
  simp [canonicalizeToolRules]

/-- Each lookup on rules with one more at the end. -/
theorem findCanonicalized_withLevels_concat (levels : ℕ → PermissionLevel) (rules : List ToolRule)
    (r : ToolRule) :
    findCanonicalizedToolRule glob (canonicalizeToolRules resolve (withLevels levels (rules ++ [r])))
        tool path =
      if r.matches glob tool && r.directoriesAdmit resolve path then some (levels rules.length)
      else findCanonicalizedToolRule glob (canonicalizeToolRules resolve (withLevels levels rules))
        tool path := by
  rw [withLevels_concat, canonicalizeToolRules_concat, findCanonicalizedToolRule_concat,
    canonicalize_applies_withLevel]
  rfl

theorem findToolRule_withLevels_concat (levels : ℕ → PermissionLevel) (rules : List ToolRule)
    (r : ToolRule) :
    findToolRuleWithArgs glob (withLevels levels (rules ++ [r])) tool path none =
      if r.matches glob tool && r.pathsAdmit path then some (levels rules.length)
      else findToolRuleWithArgs glob (withLevels levels rules) tool path none := by
  rw [withLevels_concat, findToolRuleWithArgs_concat, applies_withLevel]

/-- Where a rule of a list with one more at the end stands. -/
theorem concat_eq_split {α : Type} {xs before after : List α} {x y : α}
    (h : xs ++ [x] = before ++ y :: after) :
    (after = [] ∧ xs = before ∧ y = x) ∨
      ∃ after', after = after' ++ [x] ∧ xs = before ++ y :: after' := by
  rcases List.eq_nil_or_concat after with rfl | ⟨after', last, rfl⟩
  · obtain ⟨hbefore, hlast⟩ := List.append_inj' h rfl
    exact .inl ⟨rfl, hbefore, by simpa using hlast.symm⟩
  · have hsame : xs ++ [x] = (before ++ y :: after') ++ [last] := by simp [h]
    obtain ⟨hbefore, hlast⟩ := List.append_inj' hsame rfl
    exact .inr ⟨after', by simpa using hlast.symm, hbefore⟩

/-- A last rule that both tests let through comes after all the others. -/
theorem superseded_concat_of_both (hmatches : r.matches glob tool = true)
    (hd : r.directoriesAdmit resolve path = true) (hp : r.pathsAdmit path = true) :
    Superseded glob resolve tool (rules ++ [r]) path := by
  intro before r' after heq hmatches' hdiff
  rcases concat_eq_split heq with ⟨-, -, rfl⟩ | ⟨after', rfl, -⟩
  · exact absurd (hd.trans hp.symm) hdiff
  · exact ⟨r, by simp, hmatches, hd, hp⟩

/-- A last rule that neither test lets through has no part. -/
theorem superseded_concat_of_neither (h : r.matches glob tool = true →
      r.directoriesAdmit resolve path = false ∧ r.pathsAdmit path = false) :
    Superseded glob resolve tool (rules ++ [r]) path ↔ Superseded glob resolve tool rules path := by
  constructor
  · intro hs before r' after heq hmatches hdiff
    obtain ⟨r'', hmem, hm, hd, hp⟩ := hs before r' (after ++ [r]) (by simp [heq]) hmatches hdiff
    rcases List.mem_append.mp hmem with hafter | hlast
    · exact ⟨r'', hafter, hm, hd, hp⟩
    · rw [List.mem_singleton] at hlast
      subst hlast
      simp [(h hm).1] at hd
  · intro hs before r' after heq hmatches hdiff
    rcases concat_eq_split heq with ⟨-, -, rfl⟩ | ⟨after', rfl, hrules⟩
    · exact absurd ((h hmatches).1.trans (h hmatches).2.symm) hdiff
    · obtain ⟨r'', hmem, hrest⟩ := hs before r' after' hrules hmatches hdiff
      exact ⟨r'', by simp [hmem], hrest⟩

/-- A last rule that only one test lets through. -/
theorem not_superseded_concat (hmatches : r.matches glob tool = true)
    (hdiff : r.directoriesAdmit resolve path ≠ r.pathsAdmit path) :
    ¬ Superseded glob resolve tool (rules ++ [r]) path := by
  intro h
  obtain ⟨r', hmem, -⟩ := h rules r [] rfl hmatches hdiff
  simp at hmem

theorem exists_level_of_findCanonicalized {rules : List CanonicalizedToolRule}
    {level : PermissionLevel} (h : findCanonicalizedToolRule glob rules tool path = some level) :
    ∃ r ∈ rules, r.level = level := by
  obtain ⟨r, hr, hval⟩ := List.exists_of_findSome?_eq_some h
  split at hval
  · exact ⟨r, List.mem_reverse.mp hr, Option.some.inj hval⟩
  · cases hval

theorem exists_level_of_findToolRule {rules : List ToolRule} {level : PermissionLevel}
    (h : findToolRuleWithArgs glob rules tool path none = some level) :
    ∃ r ∈ rules, r.level = level := by
  induction rules using List.reverseRecOn with
  | nil => cases h
  | append_singleton rules r ih =>
    rw [findToolRuleWithArgs_concat] at h
    split at h
    · exact ⟨r, by simp, Option.some.inj h⟩
    · obtain ⟨r', hr', hlevel⟩ := ih h
      exact ⟨r', List.mem_append_left _ hr', hlevel⟩

theorem exists_of_mem_withLevels {levels : ℕ → PermissionLevel} (h : r ∈ withLevels levels rules) :
    ∃ i < rules.length, r.level = levels i := by
  obtain ⟨i, hi, rfl⟩ := List.mem_mapIdx.mp h
  exact ⟨i, hi, rfl⟩

/-- It gives one lookup a level that the other cannot have when all other rules differ. -/
theorem not_lookupsAgree_concat (hmatches : r.matches glob tool = true)
    (hdiff : r.directoriesAdmit resolve path ≠ r.pathsAdmit path) :
    ¬ LookupsAgree glob resolve tool (rules ++ [r]) path := by
  intro h
  -- the last rule allows, and the others refuse
  obtain ⟨levels, hlevels⟩ : ∃ levels : ℕ → PermissionLevel,
      levels = fun i => if i = rules.length then .allow else .deny := ⟨_, rfl⟩
  have hlast : levels rules.length = .allow := by simp [hlevels]
  have hothers : ∀ i < rules.length, levels i ≠ .allow := by
    intro i hi
    rw [hlevels]
    simp [Nat.ne_of_lt hi]
  have hagree := h levels
  rw [findCanonicalized_withLevels_concat, findToolRule_withLevels_concat, hmatches, hlast]
    at hagree
  cases hd : r.directoriesAdmit resolve path with
  | true =>
    have hp : r.pathsAdmit path = false := by simpa [hd] using hdiff.symm
    simp only [hd, hp]
      at hagree
    obtain ⟨r', hr', hlevel⟩ := exists_level_of_findToolRule hagree.symm
    obtain ⟨i, hi, hi'⟩ := exists_of_mem_withLevels hr'
    exact hothers i hi (hi'.symm.trans hlevel)
  | false =>
    have hp : r.pathsAdmit path = true := by simpa [hd] using hdiff.symm
    simp only [hd, hp]
      at hagree
    obtain ⟨r', hr', hlevel⟩ := exists_level_of_findCanonicalized hagree
    obtain ⟨written, hmem, rfl⟩ := List.mem_map.mp hr'
    obtain ⟨i, hi, hi'⟩ := exists_of_mem_withLevels hmem
    exact hothers i hi (hi'.symm.trans hlevel)

theorem lookupsAgree_concat_of_both (hmatches : r.matches glob tool = true)
    (hd : r.directoriesAdmit resolve path = true) (hp : r.pathsAdmit path = true) :
    LookupsAgree glob resolve tool (rules ++ [r]) path := by
  intro levels
  rw [findCanonicalized_withLevels_concat, findToolRule_withLevels_concat, hmatches, hd, hp]
  rfl

theorem lookupsAgree_concat_of_neither (h : r.matches glob tool = true →
      r.directoriesAdmit resolve path = false ∧ r.pathsAdmit path = false) :
    LookupsAgree glob resolve tool (rules ++ [r]) path ↔
      LookupsAgree glob resolve tool rules path := by
  have hd : (r.matches glob tool && r.directoriesAdmit resolve path) = false := by
    cases hmatches : r.matches glob tool with
    | true => simp [(h hmatches).1]
    | false => rfl
  have hp : (r.matches glob tool && r.pathsAdmit path) = false := by
    cases hmatches : r.matches glob tool with
    | true => simp [(h hmatches).2]
    | false => rfl
  refine forall_congr' fun levels => ?_
  rw [findCanonicalized_withLevels_concat, findToolRule_withLevels_concat, hd, hp]
  simp

/-- When the two lookups agree: from the last rule on, one case for what the two tests say. -/
theorem lookupsAgree_iff :
    LookupsAgree glob resolve tool rules path ↔ Superseded glob resolve tool rules path := by
  induction rules using List.reverseRecOn with
  | nil =>
    constructor
    · intro _ before r after heq
      simp at heq
    · intro _ levels
      rfl
  | append_singleton rules r ih =>
    by_cases hneither : r.matches glob tool = true →
        r.directoriesAdmit resolve path = false ∧ r.pathsAdmit path = false
    · rw [lookupsAgree_concat_of_neither hneither, superseded_concat_of_neither hneither, ih]
    · push Not at hneither
      obtain ⟨hmatches, hsome⟩ := hneither
      by_cases hdiff : r.directoriesAdmit resolve path = r.pathsAdmit path
      · have hd : r.directoriesAdmit resolve path = true := by
          by_contra hd
          rw [Bool.not_eq_true] at hd
          exact hsome hd (hdiff ▸ hd)
        have hp : r.pathsAdmit path = true := hdiff ▸ hd
        exact iff_of_true (lookupsAgree_concat_of_both hmatches hd hp)
          (superseded_concat_of_both hmatches hd hp)
      · exact iff_of_false (not_lookupsAgree_concat hmatches hdiff)
          (not_superseded_concat hmatches hdiff)

/-- When restricted rules apply exactly inside their directories and the two lookups agree. -/
theorem confined_and_lookupsAgree_iff (glob : Glob) (resolve : String → Option CanonicalPath)
    (tool : String) (rules : List ToolRule) (path : Option CanonicalPath) :
    (Confined glob resolve tool rules path ∧ LookupsAgree glob resolve tool rules path) ↔
      (∀ r ∈ rules, ∀ p, path = some p → r.paths.getD [] ≠ [] → r.matches glob tool = true →
        r.Contains resolve p ∨ r.Outside resolve p) ∧ Superseded glob resolve tool rules path :=
  and_congr confined_iff lookupsAgree_iff

end Conditions

/-! ### A directory beside another of a longer name -/

def fileW : FileName := ⟨"w".toList, by decide, by decide⟩
def fileSrc : FileName := ⟨"src".toList, by decide, by decide⟩
def fileSrcOld : FileName := ⟨"src-old".toList, by decide, by decide⟩

/-- A file system with the one directory `/w/src`. -/
def resolveSrc (path : String) : Option CanonicalPath :=
  if path = "/w/src" then some ⟨[fileW, fileSrc]⟩ else none

/-- A rule for `/w/src` applies to `/w/src-old`. -/
theorem siblingDirectory_not_confined :
    ¬ (Confined (fun _ => none) resolveSrc "edit" [⟨"edit", .allow, some ["/w/src"], none⟩]
        (some ⟨[fileW, fileSrcOld]⟩) ∧
      LookupsAgree (fun _ => none) resolveSrc "edit" [⟨"edit", .allow, some ["/w/src"], none⟩]
        (some ⟨[fileW, fileSrcOld]⟩)) := by
  rintro ⟨h, -⟩
  have happlies : (⟨"edit", .allow, some ["/w/src"], none⟩ : ToolRule).applies (fun _ => none)
      "edit" (some ⟨[fileW, fileSrcOld]⟩) none = true := by decide
  obtain ⟨dir, hdir, hbelow⟩ :=
    (h _ List.mem_cons_self _ rfl (by simp)).2 none happlies
  have hsrc : dir = ⟨[fileW, fileSrc]⟩ := by
    simpa [ToolRule.directories, resolveSrc] using hdir
  subst hsrc
  have hnot : ¬ [fileW, fileSrc] <+: [fileW, fileSrcOld] := by decide
  exact hnot hbelow

end Codegg.Permission
