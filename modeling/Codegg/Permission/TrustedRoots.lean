import Codegg.FileTools.TargetSpelling
import Codegg.Permission.Checker

/-!
# File mutations under a trusted root

The ordinary check reads the path of a mutation against the directory of the process. When it would
ask, the target under a trusted root is found, and the rules are looked up once more for that. The
tools write to the target.
-/
namespace Codegg.Permission

open Codegg.Library FileTools PermissionChecker CanonicalPath

section Paths

/-- A machine whose files have names without a slash. -/
structure FileSystem extends Machine where
  slash_not_mem : ∀ loc, tree.node loc ≠ none → ∀ name ∈ loc, '/' ∉ name

/-- A name that a file can have. -/
def FileName.ofText (name : Text) : Option FileName :=
  if h : name ≠ [] ∧ '/' ∉ name then some ⟨name, h.1, h.2⟩ else none

def CanonicalPath.ofNames (names : List Text) : Option CanonicalPath :=
  (names.mapM FileName.ofText).map mk

/-- `canonicalize_path`. The files stay as they are, so that a cached answer is the same. -/
def canonicalizePath (m : Machine) (path : String) : Option CanonicalPath :=
  (m.canonicalize (parsePath path.toList)).bind ofNames

/-- `Path::join`. -/
def joinPath (base path : Text) : Text :=
  if (parsePath path).isAbsolute then path
  else if base = [] ∨ base.getLast? = some '/' then base ++ path
  else base ++ '/' :: path

/-- The target of a path under the first root that takes it. A path that is not absolute is one of
the first root. -/
def trustedTarget (m : Machine) (path : Text) (allowedRoots : List Text) : Option CanonicalPath :=
  let target := allowedRoots.zipIdx.findSome? fun (root, index) =>
    if !(parsePath path).isAbsolute && decide (0 < index) then none
    else
      match validateTargetPath m (joinPath root path) root with
      | .error _ => none
      | .ok target =>
        (m.canonicalize (parsePath root)).bind fun canonicalRoot =>
          if canonicalRoot <+: target then some target else none
  target.bind ofNames

/-- Surroundings with the files of a machine. -/
def Host.on (host : Host) (m : Machine) : Host :=
  { host with canonicalizePath := Permission.canonicalizePath m }

end Paths

section Checker

/-- A checker with the rules that the configuration itself states. -/
structure MutationChecker extends PermissionChecker where
  canonicalizedExplicitConfigToolRules : List CanonicalizedToolRule

namespace MutationChecker

variable (host : Host) (m : Machine) (c : MutationChecker)

def fileMutationTools : List String := ["write", "edit", "apply_patch", "replace"]

/-- The level of a target that the ordinary check would ask about. -/
def trustedLevel (tool : String) (target : CanonicalPath) : PermissionLevel :=
  let compiled := [c.canonicalizedAgentToolRules, c.canonicalizedSessionToolRules,
    c.canonicalizedExplicitConfigToolRules]
  match compiled.findSome? fun rules => findCanonicalizedToolRule host.glob rules tool
    (some target) with
  | some level => level
  | none => (c.pathLevel target).getD .allow

def checkTrustedRootMutation (tool path : String) (allowedRoots : List Text)
    (sessionId : Option String) : PermissionResult :=
  if !fileMutationTools.contains tool then .deny
  else
    let ordinary := c.check (host.on m) tool (some path) sessionId
    match ordinary with
    | .allow | .deny => ordinary
    | .ask _ =>
      match trustedTarget m path.toList allowedRoots with
      | none => ordinary
      | some target =>
        match c.getDecision (host.on m) tool (some path) none sessionId with
        | some level => .ofLevel level ⟨tool, some path, none⟩
        | none =>
          if c.policyDenies (host.on m) tool (some path) none then .deny
          else .ofLevel (c.trustedLevel host tool target) ⟨tool, some path, none⟩

end MutationChecker

/-- The rules that a checker is built from. -/
structure Rulesets where
  config : PermissionRuleset
  explicitConfig : PermissionRuleset
  session : PermissionRuleset
  agent : PermissionRuleset
  execMode : Bool

/-- A checker without stored decisions. -/
def Rulesets.checker (host : Host) (rules : Rulesets) : MutationChecker :=
  let plain := ((new host rules.config (.empty none)).withSessionRules host
    rules.session).withAgentRules host rules.agent
  { if rules.execMode then plain.withExecMode host else plain with
    canonicalizedExplicitConfigToolRules :=
      canonicalizeToolRules host.canonicalizePath rules.explicitConfig.toolRules }

/-- What a question asks about, but for the text of the path. -/
def PermissionResult.withoutPath : PermissionResult → PermissionResult
  | .allow => .allow
  | .deny => .deny
  | .ask request => .ask { request with path := none }

/-- All rules answer a mutation alike under two spellings of its path. -/
def AnsweredAlike (host : Host) (m : Machine) (root : Text) (path path' : String) : Prop :=
  ∀ (rules : Rulesets) (tool : String) (sessionId : Option String),
    ((rules.checker (host.on m)).checkTrustedRootMutation host m tool path [root]
      sessionId).withoutPath =
    ((rules.checker (host.on m)).checkTrustedRootMutation host m tool path' [root]
      sessionId).withoutPath

end Checker

section Names

variable {names : List Text} {c : CanonicalPath}

theorem ofText_eq_some {name : Text} {n : FileName} :
    FileName.ofText name = some n ↔ n.text = name := by
  unfold FileName.ofText
  constructor
  · intro h
    split_ifs at h with hname
    cases h
    rfl
  · rintro rfl
    rw [dif_pos ⟨n.ne_nil, n.slash_not_mem⟩]

theorem ofNames_eq_some :
    ofNames names = some c ↔ c.components.map FileName.text = names := by
  obtain ⟨components⟩ := c
  unfold CanonicalPath.ofNames
  simp only [Option.map_eq_some_iff, CanonicalPath.mk.injEq, exists_eq_right]
  induction names generalizing components with
  | nil => cases components <;> simp
  | cons name names ih =>
    rw [List.mapM_cons]
    cases components with
    | nil =>
      cases FileName.ofText name <;> cases names.mapM FileName.ofText <;> simp
    | cons n components =>
      simp only [Option.pure_def, Option.bind_eq_bind, Option.bind_eq_some_iff, List.map_cons,
        List.cons.injEq, Option.some.injEq]
      constructor
      · rintro ⟨n', hn', ns, hns, rfl, rfl⟩
        exact ⟨ofText_eq_some.1 hn', (ih _).1 hns⟩
      · rintro ⟨hn, hns⟩
        exact ⟨n, ofText_eq_some.2 hn, components, (ih _).2 hns, rfl, rfl⟩

theorem exists_ofNames (hown : OwnNames names) (hslash : ∀ name ∈ names, '/' ∉ name) :
    ∃ c, CanonicalPath.ofNames names = some c := by
  induction names with
  | nil => exact ⟨⟨[]⟩, rfl⟩
  | cons name names ih =>
    obtain ⟨c, hc⟩ := ih (fun n hn => hown n (List.mem_cons_of_mem _ hn))
      fun n hn => hslash n (List.mem_cons_of_mem _ hn)
    have hne : name ≠ [] := by
      rintro rfl
      exact absurd (hown [] (by simp)) (by decide)
    refine ⟨⟨⟨name, hne, hslash name (by simp)⟩ :: c.components⟩, ofNames_eq_some.2 ?_⟩
    rw [List.map_cons, ofNames_eq_some.1 hc]

/-- A canonical path is written as it is displayed. -/
theorem ofList_text (h : ofNames names = some c) :
    String.ofList c.text = display names := by
  have hnames := ofNames_eq_some.1 h
  subst hnames
  obtain ⟨components⟩ := c
  cases components with
  | nil => rfl
  | cons n components => simp [text, display, List.flatMap_map]

theorem splitOn_text (c : CanonicalPath) :
    (c.text.splitOn '/').filter (· ≠ []) = c.components.map FileName.text := by
  obtain ⟨components⟩ := c
  cases components with
  | nil => decide
  | cons n components =>
    have hslash : ∀ name ∈ (n :: components).map FileName.text, '/' ∉ name := by
      intro name hname
      obtain ⟨n', -, rfl⟩ := List.mem_map.1 hname
      exact n'.slash_not_mem
    have htext : text ⟨n :: components⟩ =
        displayText ((n :: components).map FileName.text) := by
      simp [text, displayText, List.flatMap_map]
    rw [htext, splitOn_displayText hslash, List.filter_cons_of_neg (by simp), List.filter_eq_self]
    intro name hname
    obtain ⟨n', -, rfl⟩ := List.mem_map.1 hname
    simpa using n'.ne_nil

theorem text_injective : Function.Injective text := by
  intro c c' h
  have hname : Function.Injective FileName.text := by
    rintro ⟨text, _, _⟩ ⟨text', _, _⟩ rfl
    rfl
  have hnames : c.components.map FileName.text = c'.components.map FileName.text := by
    rw [← splitOn_text, ← splitOn_text, h]
  exact congrArg CanonicalPath.mk (List.map_injective_iff.2 hname hnames)

end Names

section Targets

variable {fs : FileSystem} {root : Text} {path : String} {t : List Text}

theorem slash_not_mem_target (h : validateTargetPath fs.toMachine (joinPath root path.toList)
    root = .ok t) :
    ∀ name ∈ t, '/' ∉ name := by
  obtain ⟨rootCanonical, hroot⟩ := exists_canonicalRoot h
  obtain ⟨existing, canonical, suffix, -, hcut, hcanonical, -, -, rfl⟩ :=
    validateTargetPath_ok hroot h
  intro name hname
  obtain hname | hname := List.mem_append.1 hname
  · exact fs.slash_not_mem canonical (canonicalize_fromRoot.1 hcanonical).2 name hname
  · have hcandidate : name ∈ candidateOf rootCanonical (joinPath root path.toList) := by
      rw [← hcut]
      exact List.mem_append_right _ hname
    obtain hname | hname := mem_candidateOf hcandidate
    · exact fs.slash_not_mem rootCanonical (canonicalRoot_ok hroot).1 name hname
    · exact slash_not_mem_parsePath hname

theorem ownNames_target (h : validateTargetPath fs.toMachine (joinPath root path.toList)
    root = .ok t) :
    OwnNames t := by
  obtain ⟨rootCanonical, hroot⟩ := exists_canonicalRoot h
  obtain ⟨existing, canonical, suffix, -, hcut, hcanonical, -, -, rfl⟩ :=
    validateTargetPath_ok hroot h
  intro name hname
  obtain hname | hname := List.mem_append.1 hname
  · exact fs.own_names canonical (canonicalize_fromRoot.1 hcanonical).2 name hname
  · have hown : OwnNames (candidateOf rootCanonical (joinPath root path.toList)) :=
      ownNames_candidateOf (canonicalRoot_ok hroot).1
    refine hown name ?_
    rw [← hcut]
    exact List.mem_append_right _ hname

theorem trustedTarget_singleton
    (h : validateTargetPath fs.toMachine (joinPath root path.toList) root = .ok t) :
    trustedTarget fs.toMachine path.toList [root] = ofNames t := by
  obtain ⟨rootCanonical, hroot⟩ := exists_canonicalRoot h
  obtain ⟨existing, canonical, suffix, -, -, -, -, hinside, rfl⟩ := validateTargetPath_ok hroot h
  have hresolved : fs.canonicalize (parsePath root) = some rootCanonical := by
    unfold canonicalRoot at hroot
    split_ifs at hroot
    cases hcanonical : fs.canonicalize (parsePath root) with
    | none => simp [hcanonical] at hroot
    | some found => simpa [hcanonical] using hroot
  have hunder : rootCanonical <+: canonical ++ suffix := hinside.trans (List.prefix_append _ _)
  simp [trustedTarget, h, hresolved, hunder]

/-- The text of a target has the same target. -/
theorem trustedTarget_display
    (h : validateTargetPath fs.toMachine (joinPath root path.toList) root = .ok t) :
    trustedTarget fs.toMachine (display t).toList [root] = ofNames t := by
  obtain ⟨rootCanonical, hroot⟩ := exists_canonicalRoot h
  have habsolute := isAbsolute_display (ownNames_target h) (slash_not_mem_target h)
  have hagain := validateTargetPath_display hroot h (slash_not_mem_target h)
  refine trustedTarget_singleton ?_
  rwa [joinPath, if_pos habsolute]

/-- What a path leads to has a text that leads to it. -/
theorem canonicalizePath_text {c : CanonicalPath}
    (h : canonicalizePath fs.toMachine path = some c) :
    canonicalizePath fs.toMachine (String.ofList c.text) = some c := by
  obtain ⟨names, hnames, hc⟩ := Option.bind_eq_some_iff.1 h
  obtain ⟨hreached, hnode⟩ := reached_of_canonicalize_text hnames
  have hshown := canonicalize_display (m := fs.toMachine) (p := names)
    (fun name hname => fs.own_names names hnode name hname)
    fun name hname => fs.slash_not_mem names hnode name hname
  rw [ofList_text hc, canonicalizePath, hshown, canonicalize_canonical hreached hnode]
  exact hc

end Targets

section Levels

variable (host : Host) (c : PermissionChecker) {tool path path' : String}
  {sessionId : Option String}

/-- The level of the ordinary check, without stored decisions. -/
def PermissionChecker.ordinaryLevel (tool path : String) : PermissionLevel :=
  if c.policyDenies host tool (some path) none then .deny
  else (c.effectiveToolRule host tool (some path)).getD (c.pathOrDefaultLevel host (some path))

variable {host c}

theorem check_eq_ofLevel (hfree : (toolCategoryForName tool).isPermissionFree = false)
    (hnone : c.getDecision host tool (some path) none sessionId = none) :
    c.check host tool (some path) sessionId =
      .ofLevel (c.ordinaryLevel host tool path) ⟨tool, some path, none⟩ := by
  unfold check ordinaryLevel
  rw [hfree, hnone]
  cases c.policyDenies host tool (some path) none with
  | true => simp [PermissionResult.ofLevel]
  | false => cases c.effectiveToolRule host tool (some path) <;> simp

/-- The ordinary check knows a path by what it leads to. -/
theorem ordinaryLevel_congr (h : host.canonicalizePath path = host.canonicalizePath path') :
    c.ordinaryLevel host tool path = c.ordinaryLevel host tool path' := by
  have hrequest : requestPath host (some path) =
      requestPath host (some path') := by
    simp [requestPath, h]
  have hrule : c.effectiveToolRule host tool (some path) =
      c.effectiveToolRule host tool (some path') := by
    rw [effectiveToolRule, hrequest]
    rfl
  have hdefault : c.pathOrDefaultLevel host (some path) =
      c.pathOrDefaultLevel host (some path') := by
    unfold pathOrDefaultLevel
    dsimp only
    rw [h]
  have hdenies : c.policyDenies host tool (some path) none =
      c.policyDenies host tool (some path') none := by
    have heffective : c.effectivePolicyDenies host tool (some path) none =
        c.effectivePolicyDenies host tool (some path') none := by
      simp [effectivePolicyDenies, hrule, hdefault]
    have hconfigured : c.configuredPolicyDenies host tool (some path) none =
        c.configuredPolicyDenies host tool (some path') none := by
      unfold configuredPolicyDenies
      rw [hrequest]
    rw [policyDenies, heffective, hconfigured]
    rfl
  rw [ordinaryLevel, hdenies, hrule, hdefault]
  rfl

end Levels

section Alike

variable {host : Host} {fs : FileSystem} {root : Text} {path : String} {t : List Text}

open MutationChecker

theorem not_isPermissionFree {tool : String} (h : tool ∈ fileMutationTools) :
    (toolCategoryForName tool).isPermissionFree = false := by
  have hall : ∀ tool ∈ fileMutationTools, (toolCategoryForName tool).isPermissionFree = false := by
    decide
  exact hall tool h

@[simp] theorem getDecision_checker (rules : Rulesets) (built asked : Host) (tool : String)
    (path scope sessionId : Option String) :
    (rules.checker built).getDecision asked tool path scope sessionId = none := by
  have hstore : (rules.checker built).store = .empty none := by
    unfold Rulesets.checker
    cases rules.execMode <;> rfl
  rw [getDecision, hstore]
  exact PermissionStore.getDecisionScoped_run none [] tool path scope sessionId

/-- What a mutation is answered, from the levels of the ordinary check and of the target. -/
def settledLevel (ordinary trusted : PermissionLevel) : PermissionLevel :=
  match ordinary with
  | .ask => trusted
  | level => level

theorem iff_of_settledLevel {denied denied' : Prop} [Decidable denied] [Decidable denied']
    {trusted : PermissionLevel} {request : PermissionRequest}
    (h : PermissionResult.ofLevel (settledLevel (if denied then .deny else .allow) trusted)
        request =
      .ofLevel (settledLevel (if denied' then .deny else .allow) trusted) request) :
    denied ↔ denied' := by
  by_cases hd : denied <;> by_cases hd' : denied' <;>
    simp [hd, hd', settledLevel, PermissionResult.ofLevel] at h ⊢

theorem checkTrustedRootMutation_eq (rules : Rulesets) {tool : String}
    (htool : tool ∈ fileMutationTools)
    {target : CanonicalPath} {sessionId : Option String}
    (htarget : trustedTarget fs.toMachine path.toList [root] = some target) :
    ((rules.checker (host.on fs.toMachine)).checkTrustedRootMutation host fs.toMachine
      tool path [root]
        sessionId).withoutPath =
      .ofLevel (settledLevel
          ((rules.checker (host.on fs.toMachine)).ordinaryLevel (host.on fs.toMachine) tool path)
          ((rules.checker (host.on fs.toMachine)).trustedLevel host tool target))
        ⟨tool, none, none⟩ := by
  generalize hchecker : rules.checker (host.on fs.toMachine) = c
  have hnone (scope : Option String) :
      c.getDecision (host.on fs.toMachine) tool (some path) scope sessionId = none := by
    rw [← hchecker, getDecision_checker]
  have hcheck := check_eq_ofLevel (not_isPermissionFree htool) (hnone none)
  have hmem : fileMutationTools.contains tool = true := by simpa using htool
  rw [checkTrustedRootMutation, hmem, hcheck]
  cases hlevel : c.ordinaryLevel (host.on fs.toMachine) tool path with
  | allow => rfl
  | deny => rfl
  | ask =>
    have hdenies : c.policyDenies (host.on fs.toMachine) tool (some path) none = false := by
      by_contra hdenied
      rw [Bool.not_eq_false] at hdenied
      simp [ordinaryLevel, hdenied] at hlevel
    simp only [htarget, hnone, hdenies]
    cases c.trustedLevel host tool target <;> rfl

theorem answeredAlike_of_eq {path' : String} {target : CanonicalPath}
    (htarget : trustedTarget fs.toMachine path.toList [root] = some target)
    (htarget' : trustedTarget fs.toMachine path'.toList [root] = some target)
    (h : canonicalizePath fs.toMachine path = canonicalizePath fs.toMachine path') :
    AnsweredAlike host fs.toMachine root path path' := by
  intro rules tool sessionId
  by_cases htool : tool ∈ fileMutationTools
  · rw [checkTrustedRootMutation_eq rules htool htarget,
      checkTrustedRootMutation_eq rules htool htarget',
      ordinaryLevel_congr h]
  · simp [checkTrustedRootMutation, htool]

/-- The rules of an agent that may do all but what a rule denies. -/
def denyRules (paths : List String) : Rulesets where
  config := .initial
  explicitConfig := .initial
  session := .initial
  agent := ⟨.allow, [⟨"*", .deny, some paths, none⟩], []⟩
  execMode := false

/-- Whether the rules that deny some paths deny a path. -/
def Denied (host : Host) (paths : List String) (c : CanonicalPath) : Prop :=
  paths.filterMap host.canonicalizePath = [] ∨
    ∃ rulePath ∈ paths.filterMap host.canonicalizePath, rulePath.text <+: c.text

theorem findCanonicalizedToolRule_denyRules (host : Host) (paths : List String) (tool : String)
    (c : CanonicalPath) [Decidable (Denied host paths c)] :
    findCanonicalizedToolRule host.glob
        ((denyRules paths).checker host).canonicalizedAgentToolRules tool (some c) =
      if Denied host paths c then some .deny else none := by
  have hrules : ((denyRules paths).checker host).canonicalizedAgentToolRules =
      [⟨"*", .deny, paths.filterMap host.canonicalizePath⟩] := rfl
  have happlies : CanonicalizedToolRule.applies host.glob tool (some c)
      ⟨"*", .deny, paths.filterMap host.canonicalizePath⟩ = true ↔ Denied host paths c := by
    simp only [CanonicalizedToolRule.applies, Denied, decide_true, Bool.or_true, Bool.true_or,
      Bool.true_and, Bool.or_eq_true, List.isEmpty_iff, List.any_eq_true,
      List.isPrefixOf_iff_prefix]
  rw [hrules, findCanonicalizedToolRule]
  by_cases hdenied : Denied host paths c
  · simp [happlies.2 hdenied, hdenied]
  · have hno := Bool.not_eq_true _ ▸ mt happlies.1 hdenied
    simp [hno, hdenied]

open Classical in
/-- A path that is denied is denied, and all others are let pass. -/
theorem ordinaryLevel_denyRules (host : Host) (paths : List String) (tool path : String) :
    ((denyRules paths).checker host).ordinaryLevel host tool path =
      if ∃ c, host.canonicalizePath path = some c ∧ Denied host paths c then .deny else .allow := by
  have hagent : ((denyRules paths).checker host).agentRules.default = .allow := rfl
  have hlegacy : ((denyRules paths).checker host).legacyExecMode = false := rfl
  have hdefault : ((denyRules paths).checker host).effectiveDefault = .allow := rfl
  have hrequest : requestPath host (some path) =
      (host.canonicalizePath path).map some := rfl
  cases hpath : host.canonicalizePath path with
  | none =>
    have hrule : ((denyRules paths).checker host).effectiveToolRule host tool
        (some path) = none := by
      rw [effectiveToolRule, hrequest, hpath]
      rfl
    have hlevel : ((denyRules paths).checker host).pathOrDefaultLevel host (some path) =
        .allow := by
      unfold pathOrDefaultLevel
      dsimp only
      rw [hpath]
      exact hdefault
    simp [ordinaryLevel, policyDenies,
      effectivePolicyDenies, hrule, hlevel, hlegacy]
  | some c =>
    have hrule : ((denyRules paths).checker host).effectiveToolRule host tool (some path) =
        some (if Denied host paths c then .deny else .allow) := by
      rw [effectiveToolRule, hrequest, hpath, Option.map_some]
      dsimp only
      rw [findCanonicalizedToolRule_denyRules]
      by_cases hdenied : Denied host paths c <;> simp [firstTier, hagent, hdenied]
    by_cases hdenied : Denied host paths c <;>
      simp [ordinaryLevel, policyDenies,
        effectivePolicyDenies, hrule, hlegacy, hdenied]

/-- Under the rules that deny one path, two spellings differ if exactly one of them is denied. -/
theorem exists_denyRules {path' : String} (host : Host)
    (h : canonicalizePath fs.toMachine path ≠ canonicalizePath fs.toMachine path') :
    ∃ paths, ¬((∃ c, (host.on fs.toMachine).canonicalizePath path = some c ∧
        Denied (host.on fs.toMachine) paths c) ↔
      ∃ c, (host.on fs.toMachine).canonicalizePath path' = some c ∧
        Denied (host.on fs.toMachine) paths c) := by
  change ∃ paths, ¬((∃ c, canonicalizePath fs.toMachine path = some c ∧ _) ↔
    ∃ c, canonicalizePath fs.toMachine path' = some c ∧ _)
  cases hpath : canonicalizePath fs.toMachine path with
  | none =>
    obtain ⟨c', hc'⟩ := Option.ne_none_iff_exists'.1 fun hnone => h (hpath.trans hnone.symm)
    exact ⟨[], by simp [hc', Denied]⟩
  | some c =>
    cases hpath' : canonicalizePath fs.toMachine path' with
    | none => exact ⟨[], by simp [Denied]⟩
    | some c' =>
      have hne : c ≠ c' := fun hsame => h (by rw [hpath, hpath', hsame])
      have hdenied {rule : CanonicalPath} {p : String}
          (hrule : canonicalizePath fs.toMachine p = some rule)
          (d : CanonicalPath) : Denied (host.on fs.toMachine) [String.ofList rule.text] d ↔
            rule.text <+: d.text := by
        have hresolved : (host.on fs.toMachine).canonicalizePath (String.ofList rule.text) =
            some rule :=
          canonicalizePath_text hrule
        simp [Denied, hresolved]
      by_cases hunder : c.text <+: c'.text
      · have hover : ¬c'.text <+: c.text := fun hover =>
          hne (text_injective (hunder.eq_of_length (le_antisymm hunder.length_le hover.length_le)))
        refine ⟨[String.ofList c'.text], ?_⟩
        simp [hdenied hpath', hover]
      · refine ⟨[String.ofList c.text], ?_⟩
        simp [hdenied hpath, hunder]

/-- A mutation is decided for the file that is written exactly if the process reads the path as the
path of the target. -/
theorem answeredAlike_iff (fs : FileSystem) (host : Host) (root : Text) (path : String)
    (t : List Text)
    (h : validateTargetPath fs.toMachine (joinPath root path.toList) root = .ok t) :
    AnsweredAlike host fs.toMachine root path (display t) ↔
      canonicalizePath fs.toMachine path = canonicalizePath fs.toMachine (display t) := by
  obtain ⟨target, htarget⟩ := exists_ofNames (ownNames_target h) (slash_not_mem_target h)
  have hpath := (trustedTarget_singleton h).trans htarget
  have hshown := (trustedTarget_display h).trans htarget
  constructor
  · intro halike
    by_contra hdiffer
    obtain ⟨paths, hpaths⟩ := exists_denyRules host hdiffer
    have hsame := halike (denyRules paths) "write" none
    rw [checkTrustedRootMutation_eq _ (by decide) hpath,
      checkTrustedRootMutation_eq _ (by decide) hshown, ordinaryLevel_denyRules,
      ordinaryLevel_denyRules] at hsame
    classical exact hpaths (iff_of_settledLevel hsame)
  · exact answeredAlike_of_eq hpath hshown

/-- A workspace with one file, in a process that runs elsewhere. -/
def secretFiles (cwd : List Text) (h : FileTree.IsDir (FileTree.ofEntries
    [(["ws".toList], Node.dir), (["ws".toList, "secret".toList], .file)] (by decide)) cwd) :
    FileSystem where
  tree := FileTree.ofEntries [(["ws".toList], .dir), (["ws".toList, "secret".toList], .file)]
    (by decide)
  maxLinks := 40
  cwd := cwd
  cwd_dir := h
  own_names := FileTree.forall_ofEntries (by decide)
  slash_not_mem := FileTree.forall_ofEntries (by decide)

theorem answeredAlike_iff_secret :
    AnsweredAlike bareHost (secretFiles ["ws".toList] rfl).toMachine "/ws".toList "./secret"
        (display ["ws".toList, "secret".toList]) ↔
      canonicalizePath (secretFiles ["ws".toList] rfl).toMachine "./secret" =
        canonicalizePath (secretFiles ["ws".toList] rfl).toMachine
          (display ["ws".toList, "secret".toList]) :=
  answeredAlike_iff (secretFiles ["ws".toList] rfl) bareHost "/ws".toList "./secret" _
    (by decide +kernel)

/-- A rule that denies the target is skipped for a path of the workspace when the process does not
run there. -/
theorem secret_written :
    validateTargetPath (secretFiles [] rfl).toMachine (joinPath "/ws".toList "secret".toList)
        "/ws".toList = .ok ["ws".toList, "secret".toList] ∧
    ((denyRules ["/ws/secret"]).checker (bareHost.on
        (secretFiles [] rfl).toMachine)).checkTrustedRootMutation bareHost
      (secretFiles [] rfl).toMachine "write" "secret" ["/ws".toList] none = .allow ∧
    ((denyRules ["/ws/secret"]).checker (bareHost.on
        (secretFiles [] rfl).toMachine)).checkTrustedRootMutation bareHost
      (secretFiles [] rfl).toMachine "write" (display ["ws".toList, "secret".toList]) ["/ws".toList]
        none = .deny ∧
    ¬AnsweredAlike bareHost (secretFiles [] rfl).toMachine "/ws".toList "secret"
      (display ["ws".toList, "secret".toList]) := by
  have hallowed : ((denyRules ["/ws/secret"]).checker (bareHost.on
      (secretFiles [] rfl).toMachine)).checkTrustedRootMutation bareHost
      (secretFiles [] rfl).toMachine "write" "secret" ["/ws".toList] none = .allow := by
    decide +kernel
  have hdenied : ((denyRules ["/ws/secret"]).checker (bareHost.on
      (secretFiles [] rfl).toMachine)).checkTrustedRootMutation bareHost
      (secretFiles [] rfl).toMachine "write" (display ["ws".toList, "secret".toList]) ["/ws".toList]
        none = .deny := by
    decide +kernel
  refine ⟨by decide +kernel, hallowed, hdenied, fun halike => ?_⟩
  have hsame := halike (denyRules ["/ws/secret"]) "write" none
  cases hsame

end Alike

end Codegg.Permission
