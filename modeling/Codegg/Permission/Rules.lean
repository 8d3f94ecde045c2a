import Mathlib.Tactic
import Codegg.Permission.Decision

/-!
# Permission rules and their lookup

A tool rule gives a level to the tools that its name covers, for all paths or for the paths
in a list of directories, and for all commands or for those that match a pattern. Within one
list of rules the last that applies decides. There are two lookups: one on rules whose
directories were made canonical when the checker was built, and one on the rules as written,
which also looks at the command.
-/
namespace Codegg.Permission

/-- The name of a file or directory. -/
structure FileName where
  text : List Char
  ne_nil : text ≠ []
  slash_not_mem : '/' ∉ text
  deriving DecidableEq

/-- An absolute path without `.`, `..` and links, as `canonicalize` gives it. -/
structure CanonicalPath where
  components : List FileName
  deriving DecidableEq

/-- `to_string_lossy`. -/
def CanonicalPath.text (p : CanonicalPath) : List Char :=
  match p.components with
  | [] => ['/']
  | components => components.flatMap fun name => '/' :: name.text

/-- A glob that compiles gives a test. -/
abbrev Glob := String → Option (String → Bool)

structure ToolRule where
  tool : String
  level : PermissionLevel
  paths : Option (List String)
  bashPatterns : Option (List String)

structure PathRule where
  pattern : String
  level : PermissionLevel

structure PermissionRuleset where
  default : PermissionLevel
  toolRules : List ToolRule
  pathRules : List PathRule

/-- `PermissionRuleset::default()`. -/
def PermissionRuleset.initial : PermissionRuleset := ⟨.ask, [], []⟩

structure CanonicalizedToolRule where
  tool : String
  level : PermissionLevel
  paths : List CanonicalPath

variable (glob : Glob)

/-- Whether the name of a rule covers a tool. -/
def toolNameMatches (pattern toolName : String) : Bool :=
  if pattern = "*" then true
  else if pattern = toolName then true
  else
    match glob pattern with
    | some isMatch => isMatch toolName
    | none => false

def ToolRule.matches (r : ToolRule) (toolName : String) : Bool :=
  toolNameMatches glob r.tool toolName

def ToolRule.matchesBashCommand (r : ToolRule) (command : String) : Bool :=
  match r.bashPatterns with
  | none => true
  | some [] => true
  | some patterns =>
    patterns.any fun pattern =>
      pattern = "*" ||
        match glob pattern with
        | some isMatch => isMatch command
        | none => pattern = command

/-! ### Rules made canonical -/

/-- Listed paths that cannot be resolved are left out. -/
def ToolRule.canonicalize (resolve : String → Option CanonicalPath) (r : ToolRule) :
    CanonicalizedToolRule where
  tool := r.tool
  level := r.level
  paths := (r.paths.getD []).filterMap resolve

def canonicalizeToolRules (resolve : String → Option CanonicalPath) (rules : List ToolRule) :
    List CanonicalizedToolRule :=
  rules.map (ToolRule.canonicalize resolve)

/-- Whether a rule decides for a tool and a path. -/
def CanonicalizedToolRule.applies (tool : String) (canonicalPath : Option CanonicalPath)
    (r : CanonicalizedToolRule) : Bool :=
  (r.tool = tool || r.tool = "*" || toolNameMatches glob r.tool tool) &&
    match canonicalPath with
    | some canonical =>
      r.paths.isEmpty || r.paths.any fun rulePath => rulePath.text.isPrefixOf canonical.text
    | none => true

def findCanonicalizedToolRule (rules : List CanonicalizedToolRule) (tool : String)
    (canonicalPath : Option CanonicalPath) : Option PermissionLevel :=
  rules.reverse.findSome? fun r =>
    if r.applies glob tool canonicalPath then some r.level else none

/-! ### Rules as written -/

/-- Whether the paths of a rule let a request through. -/
def ToolRule.pathsAdmit (canonicalPath : Option CanonicalPath) (r : ToolRule) : Bool :=
  match r.paths with
  | none => true
  | some [] => true
  | some paths =>
    match canonicalPath with
    | some canonical => paths.any fun rulePath => rulePath.toList.isPrefixOf canonical.text
    | none => false

/-- Whether a rule decides for a request. -/
def ToolRule.applies (tool : String) (canonicalPath : Option CanonicalPath)
    (args : Option String) (r : ToolRule) : Bool :=
  r.matches glob tool && r.pathsAdmit canonicalPath &&
    match args with
    | some command => r.matchesBashCommand glob command
    | none => true

/-- A rule for some commands only. -/
def ToolRule.isSpecific (args : Option String) (r : ToolRule) : Bool :=
  args.isSome &&
    match r.bashPatterns with
    | some patterns => !patterns.isEmpty && !patterns.any (· = "*")
    | none => false

def PermissionLevel.severity : PermissionLevel → ℕ
  | .deny => 2
  | .ask => 1
  | .allow => 0

/-- The most severe level of a list. -/
def mostSevere : List PermissionLevel → Option PermissionLevel
  | [] => none
  | level :: levels =>
    match mostSevere levels with
    | none => some level
    | some other => if other.severity < level.severity then some level else some other

structure RuleMatches where
  specific : List PermissionLevel
  fallback : Option PermissionLevel

/-- One rule of the loop. -/
def RuleMatches.step (tool : String) (canonicalPath : Option CanonicalPath)
    (args : Option String) (found : RuleMatches) (r : ToolRule) : RuleMatches :=
  if !r.applies glob tool canonicalPath args then found
  else if r.isSpecific args then { found with specific := found.specific ++ [r.level] }
  else { found with fallback := some r.level }

def findToolRuleWithArgs (rules : List ToolRule) (tool : String)
    (canonicalPath : Option CanonicalPath) (args : Option String) : Option PermissionLevel :=
  let found := rules.foldl (RuleMatches.step glob tool canonicalPath args) ⟨[], none⟩
  if !found.specific.isEmpty then mostSevere found.specific else found.fallback

/-! ### What the lookups find -/

variable {glob} {tool : String} {path : Option CanonicalPath} {args : Option String}

theorem toolNameMatches_of_applies {r : CanonicalizedToolRule}
    (h : r.applies glob tool path = true) : toolNameMatches glob r.tool tool = true := by
  simp only [CanonicalizedToolRule.applies, Bool.and_eq_true, Bool.or_eq_true,
    decide_eq_true_eq] at h
  rcases h.1 with (rfl | hany) | hname
  · simp [toolNameMatches]
  · simp [toolNameMatches, hany]
  · exact hname

theorem findCanonicalizedToolRule_eq_none {rules : List CanonicalizedToolRule}
    (h : ∀ r ∈ rules, toolNameMatches glob r.tool tool = false) :
    findCanonicalizedToolRule glob rules tool path = none := by
  rw [findCanonicalizedToolRule, List.findSome?_eq_none_iff]
  intro r hr
  have hname := h r (List.mem_reverse.mp hr)
  rw [if_neg]
  intro happlies
  simp [toolNameMatches_of_applies happlies] at hname

theorem findCanonicalizedToolRule_eq_some {rules : List CanonicalizedToolRule}
    {level : PermissionLevel} (hex : ∃ r ∈ rules, r.applies glob tool path = true)
    (hlevel : ∀ r ∈ rules, r.applies glob tool path = true → r.level = level) :
    findCanonicalizedToolRule glob rules tool path = some level := by
  have hsome : (findCanonicalizedToolRule glob rules tool path).isSome = true := by
    obtain ⟨r, hr, happlies⟩ := hex
    rw [findCanonicalizedToolRule, List.isSome_findSome?]
    simp only [List.any_eq_true, List.mem_reverse]
    exact ⟨r, hr, by simp [happlies]⟩
  obtain ⟨found, hfound⟩ := Option.isSome_iff_exists.mp hsome
  obtain ⟨r, hr, hval⟩ := List.exists_of_findSome?_eq_some hfound
  split at hval
  · rename_i happlies
    rw [hfound, ← Option.some.inj hval, hlevel r (List.mem_reverse.mp hr) happlies]
  · cases hval

theorem ToolRule.matches_of_applies {r : ToolRule} (h : r.applies glob tool path args = true) :
    r.matches glob tool = true := by
  simp only [ToolRule.applies, Bool.and_eq_true] at h
  exact h.1.1

/-- The loop over rules that say nothing for some commands only, and all say the same. -/
theorem RuleMatches.foldl_step_eq {rules : List ToolRule} (level : PermissionLevel)
    (hlevel : ∀ r ∈ rules, r.applies glob tool path args = true →
      r.level = level ∧ r.isSpecific args = false) (found : RuleMatches) :
    rules.foldl (RuleMatches.step glob tool path args) found =
      { found with
        fallback :=
          if rules.any (fun r => r.applies glob tool path args) then some level
          else found.fallback } := by
  induction rules generalizing found with
  | nil => simp
  | cons r rules ih =>
    have hrest := ih fun r' hr' => hlevel r' (List.mem_cons_of_mem _ hr')
    rw [List.foldl_cons, hrest, RuleMatches.step]
    cases happlies : r.applies glob tool path args with
    | false => simp [happlies]
    | true =>
      obtain ⟨hl, hspecific⟩ := hlevel r List.mem_cons_self happlies
      simp [happlies, hspecific, hl]

theorem findToolRuleWithArgs_eq {rules : List ToolRule} (level : PermissionLevel)
    (hlevel : ∀ r ∈ rules, r.applies glob tool path args = true →
      r.level = level ∧ r.isSpecific args = false) :
    findToolRuleWithArgs glob rules tool path args =
      if rules.any (fun r => r.applies glob tool path args) then some level else none := by
  simp [findToolRuleWithArgs, RuleMatches.foldl_step_eq level hlevel]

variable (glob)

/-- Globs that do not compile are left out. -/
def compilePathRules (rules : List PathRule) : List ((String → Bool) × PermissionLevel) :=
  rules.filterMap fun rule => (glob rule.pattern).map fun isMatch => (isMatch, rule.level)

end Codegg.Permission
