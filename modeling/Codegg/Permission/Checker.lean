import Codegg.Permission.Rules
import Codegg.Permission.Scopes
import Codegg.Permission.Store

/-!
# The permission checker

Rules come from the agent, the session and the configuration, in this order of precedence.
A request is answered by a rule that denies it, by the stored decisions, by the first rule
that speaks about the tool, by the first path rule that covers its path, for a shell command
by its risky patterns, and last by the default.
-/
namespace Codegg.Permission

inductive ToolCategory
  | readOnly
  | safeMutating
  | mutating
  | shellExec
  deriving DecidableEq, Repr

def ToolCategory.isPermissionFree (category : ToolCategory) : Bool :=
  match category with
  | .readOnly | .safeMutating => true
  | .mutating | .shellExec => false

def readOnlyTools : List String :=
  ["read", "glob", "grep", "list", "webfetch", "websearch", "codesearch", "lsp", "diff",
    "security", "skill", "tool_search", "plan_enter", "plan_exit", "repo_search", "repo_fetch",
    "repo_map", "research", "research_search", "batch_fetch", "security_search",
    "evidence_bundle", "mcp_resource_search", "mcp_resource_read", "memory_search",
    "memory_get", "context_read", "extension_search"]

def safeMutatingTools : List String :=
  ["extension_install_request", "todowrite", "todoread", "question", "invalid"]

def shellExecTools : List String := ["bash", "terminal", "test", "python_script", "job", "ci_watch"]

def toolCategoryForName (name : String) : ToolCategory :=
  if readOnlyTools.contains name then .readOnly
  else if safeMutatingTools.contains name then .safeMutating
  else if shellExecTools.contains name then .shellExec
  else .mutating

structure PermissionRequest where
  tool : String
  path : Option String
  args : Option (List (String × String))
  deriving DecidableEq, Repr

inductive PermissionResult
  | allow
  | deny
  | ask (request : PermissionRequest)
  deriving DecidableEq, Repr

/-- What answers a question with the given level. -/
def PermissionResult.ofLevel (level : PermissionLevel) (request : PermissionRequest) :
    PermissionResult :=
  match level with
  | .allow => .allow
  | .deny => .deny
  | .ask => .ask request

theorem PermissionResult.ofLevel_eq_allow {level : PermissionLevel}
    {request : PermissionRequest} : ofLevel level request = .allow ↔ level = .allow := by
  cases level <;> simp [ofLevel]

/-- What the checker uses of its surroundings. The answers about paths are those of one
moment: the file system, or an answer cached for a second. -/
structure Host where
  glob : Glob
  canonicalizePath : String → Option CanonicalPath
  sha256 : Sha256
  destructiveMatch : String → Option String
  findAskPattern : String → Option String
  mac : Mac
  signatureKey : Option Key

/-- Surroundings without files, globs, risky patterns or a signing key. -/
def bareHost : Host where
  glob _ := none
  canonicalizePath _ := none
  sha256 _ := []
  destructiveMatch _ := none
  findAskPattern _ := none
  mac := ⟨fun _ _ => [0], fun _ _ => List.cons_ne_nil _ _⟩
  signatureKey := none

structure PermissionChecker where
  configRules : PermissionRuleset
  sessionRules : PermissionRuleset
  agentRules : PermissionRuleset
  store : PermissionStore
  compiledGlobs : List ((String → Bool) × PermissionLevel)
  canonicalizedConfigToolRules : List CanonicalizedToolRule
  canonicalizedSessionToolRules : List CanonicalizedToolRule
  canonicalizedAgentToolRules : List CanonicalizedToolRule
  legacyExecMode : Bool

namespace PermissionChecker

variable (host : Host)

/-! ### Building a checker -/

/-- A checker for the configuration's rules and a store that was read from a file. -/
def new (configRules : PermissionRuleset) (store : PermissionStore) : PermissionChecker where
  configRules := configRules
  sessionRules := .initial
  agentRules := .initial
  store := store
  compiledGlobs := compilePathRules host.glob configRules.pathRules
  canonicalizedConfigToolRules :=
    canonicalizeToolRules host.canonicalizePath configRules.toolRules
  canonicalizedSessionToolRules := []
  canonicalizedAgentToolRules := []
  legacyExecMode := false

def effectivePathRules (c : PermissionChecker) : List PathRule :=
  c.agentRules.pathRules ++ c.sessionRules.pathRules ++ c.configRules.pathRules

def withSessionRules (c : PermissionChecker) (rules : PermissionRuleset) : PermissionChecker :=
  let c := { c with sessionRules := rules }
  { c with
    compiledGlobs := compilePathRules host.glob c.effectivePathRules
    canonicalizedSessionToolRules :=
      canonicalizeToolRules host.canonicalizePath c.sessionRules.toolRules }

def withAgentRules (c : PermissionChecker) (rules : PermissionRuleset) : PermissionChecker :=
  let c := { c with agentRules := rules }
  { c with
    compiledGlobs := compilePathRules host.glob c.effectivePathRules
    canonicalizedAgentToolRules :=
      canonicalizeToolRules host.canonicalizePath c.agentRules.toolRules }

/-- The session rules of a run without anybody to ask. -/
def execRules : PermissionRuleset where
  default := .allow
  toolRules := ["bash", "edit", "task", "todowrite"].map fun tool => ⟨tool, .allow, none, none⟩
  pathRules := []

def withExecMode (c : PermissionChecker) : PermissionChecker :=
  { c.withSessionRules host execRules with legacyExecMode := true }

/-! ### The rules in force -/

variable (c : PermissionChecker)

def effectiveDefault : PermissionLevel :=
  if c.agentRules.default ≠ .ask then c.agentRules.default
  else if c.sessionRules.default ≠ .ask then c.sessionRules.default
  else c.configRules.default

/-- The first tier that speaks about a tool; a default other than `ask` speaks for its tier. -/
def firstTier (agent session config : Option PermissionLevel) : Option PermissionLevel :=
  match agent with
  | some level => some level
  | none =>
    if c.agentRules.default ≠ .ask then some c.agentRules.default
    else
      match session with
      | some level => some level
      | none => if c.sessionRules.default ≠ .ask then some c.sessionRules.default else config

/-- The path of a request made canonical; `none` when it does not exist. -/
def requestPath (path : Option String) : Option (Option CanonicalPath) :=
  match path with
  | some p => (host.canonicalizePath p).map some
  | none => some none

def effectiveToolRule (tool : String) (path : Option String) : Option PermissionLevel :=
  match requestPath host path with
  | none => none
  | some canonicalPath =>
    c.firstTier (findCanonicalizedToolRule host.glob c.canonicalizedAgentToolRules tool canonicalPath)
      (findCanonicalizedToolRule host.glob c.canonicalizedSessionToolRules tool canonicalPath)
      (findCanonicalizedToolRule host.glob c.canonicalizedConfigToolRules tool canonicalPath)

def effectiveToolRuleWithArgs (tool : String) (path args : Option String) :
    Option PermissionLevel :=
  match requestPath host path with
  | none => none
  | some canonicalPath =>
    c.firstTier (findToolRuleWithArgs host.glob c.agentRules.toolRules tool canonicalPath args)
      (findToolRuleWithArgs host.glob c.sessionRules.toolRules tool canonicalPath args)
      (findToolRuleWithArgs host.glob c.configRules.toolRules tool canonicalPath args)

/-- The level of the first path rule that covers a path. -/
def pathLevel (canonical : CanonicalPath) : Option PermissionLevel :=
  (c.compiledGlobs.find? fun rule => rule.1 (String.ofList canonical.text)).map (·.2)

/-- The level of the first path rule for a request, or the default. -/
def pathOrDefaultLevel (path : Option String) : PermissionLevel :=
  match path with
  | some p =>
    match host.canonicalizePath p with
    | some canonical => (c.pathLevel canonical).getD c.effectiveDefault
    | none => c.effectiveDefault
  | none => c.effectiveDefault

def effectivePolicyDenies (tool : String) (path args : Option String) : Bool :=
  let toolLevel :=
    if args.isSome then c.effectiveToolRuleWithArgs host tool path args
    else c.effectiveToolRule host tool path
  match toolLevel with
  | some level => level = .deny
  | none => c.pathOrDefaultLevel host path = .deny

def configuredPolicyDenies (tool : String) (path args : Option String) : Bool :=
  match requestPath host path with
  | none => c.configRules.default = .deny
  | some canonicalPath =>
    match findToolRuleWithArgs host.glob c.configRules.toolRules tool canonicalPath args with
    | some level => level = .deny
    | none => c.configRules.default = .deny

def policyDenies (tool : String) (path args : Option String) : Bool :=
  c.effectivePolicyDenies host tool path args ||
    (c.legacyExecMode && c.configuredPolicyDenies host tool path args)

/-! ### Requests -/

def getDecision (tool : String) (path scope sessionId : Option String) : Option PermissionLevel :=
  c.store.getDecisionScoped host.mac host.signatureKey tool path scope sessionId

/-- A request without looking at its arguments. -/
def check (tool : String) (path sessionId : Option String) : PermissionResult :=
  if (toolCategoryForName tool).isPermissionFree then
    if c.getDecision host tool path none sessionId = some .deny then .deny else .allow
  else if c.policyDenies host tool path none then .deny
  else
    match c.getDecision host tool path none sessionId with
    | some level => .ofLevel level ⟨tool, path, none⟩
    | none =>
      match c.effectiveToolRule host tool path with
      | some level => .ofLevel level ⟨tool, path, none⟩
      | none => .ofLevel (c.pathOrDefaultLevel host path) ⟨tool, path, none⟩

/-- What the stored decisions say about the scopes of a request. -/
inductive ScopeAnswer
  | granted
  | denied
  | asked
  | unresolved
  deriving DecidableEq

/-- The loop over the scopes: the first that is denied or asked about ends it. -/
def answerScopes (decision : String → Option PermissionLevel) (unresolved : Bool) :
    List String → ScopeAnswer
  | [] => if unresolved then .unresolved else .granted
  | scope :: scopes =>
    match decision scope with
    | some .allow => answerScopes decision unresolved scopes
    | some .deny => .denied
    | some .ask => .asked
    | none => answerScopes decision true scopes

/-- The level that the path of a request settles; for a path that does not exist, the
default. -/
def pathFallback (path : Option String) : Option PermissionLevel :=
  match path with
  | some p =>
    match host.canonicalizePath p with
    | some canonical => c.pathLevel canonical
    | none => some c.effectiveDefault
  | none => none

/-- The end of a request that no stored decision and no tool rule answers. -/
def fallback (tool : String) (path args : Option String) : PermissionResult :=
  let request : PermissionRequest := ⟨tool, path, args.map fun a => [("command", a)]⟩
  match c.pathFallback host path with
  | some level => .ofLevel level request
  | none =>
    match toolCategoryForName tool, args with
    | .shellExec, some cmd =>
      match host.destructiveMatch cmd with
      | some pattern =>
        .ask ⟨tool, path, some [("command", cmd), ("destructive_pattern", pattern)]⟩
      | none =>
        match host.findAskPattern cmd with
        | some pattern => .ask ⟨tool, path, some [("command", cmd), ("ask_pattern", pattern)]⟩
        | none => .allow
    | _, _ => .ofLevel c.effectiveDefault request

/-- A request with the command or subcommand it runs. -/
def checkWithArgs (tool : String) (path args sessionId : Option String) : PermissionResult :=
  let request : PermissionRequest := ⟨tool, path, args.map fun a => [("command", a)]⟩
  if c.policyDenies host tool path args then .deny
  else
    match answerScopes (fun scope => c.getDecision host tool path (some scope) sessionId) false
        (requestScopes host.sha256 tool args) with
    | .granted => .allow
    | .denied => .deny
    | .asked => .ask request
    | .unresolved =>
      match c.effectiveToolRuleWithArgs host tool path args with
      | some level => .ofLevel level request
      | none => c.fallback host tool path args

end PermissionChecker

end Codegg.Permission
