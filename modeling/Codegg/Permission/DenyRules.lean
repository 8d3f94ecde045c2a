import Codegg.Permission.Checker

/-!
# Rules that refuse a tool outright

A tier of rules refuses a tool when every rule it has for the tool refuses it, with no
directories and no command patterns. The tiers above it are passed over when they have no
rule for the tool and their default is to ask.
-/
namespace Codegg.Permission

open ToolRule

variable {glob : Glob} {tool : String}

/-- There is no rule for the tool. -/
def Silent (glob : Glob) (tool : String) (rules : List ToolRule) : Prop :=
  ∀ r ∈ rules, r.matches glob tool = false

/-- There is a rule for the tool, and every one refuses it without any restriction. -/
structure Refuses (glob : Glob) (tool : String) (rules : List ToolRule) : Prop where
  exists_rule : ∃ r ∈ rules, r.matches glob tool = true
  level : ∀ r ∈ rules, r.matches glob tool = true → r.level = .deny
  paths : ∀ r ∈ rules, r.matches glob tool = true → r.paths.getD [] = []
  bashPatterns : ∀ r ∈ rules, r.matches glob tool = true → r.bashPatterns.getD [] = []

/-! ### The two lookups -/

variable {rules : List ToolRule} {path : Option String} {canonicalPath : Option CanonicalPath}

theorem Silent.canonicalized (h : Silent glob tool rules) (resolve : String → Option CanonicalPath)
    (path : Option CanonicalPath) :
    findCanonicalizedToolRule glob (canonicalizeToolRules resolve rules) tool path = none := by
  refine findCanonicalizedToolRule_eq_none fun r hr => ?_
  obtain ⟨written, hwritten, rfl⟩ := List.mem_map.mp hr
  exact h written hwritten

theorem Refuses.canonicalized (h : Refuses glob tool rules)
    (resolve : String → Option CanonicalPath) (path : Option CanonicalPath) :
    findCanonicalizedToolRule glob (canonicalizeToolRules resolve rules) tool path =
      some .deny := by
  refine findCanonicalizedToolRule_eq_some ?_ ?_
  · obtain ⟨r, hr, hmatches⟩ := h.exists_rule
    refine ⟨r.canonicalize resolve, List.mem_map_of_mem hr, ?_⟩
    have hname : toolNameMatches glob r.tool tool = true := hmatches
    cases path <;>
      simp [CanonicalizedToolRule.applies, canonicalize, h.paths r hr hmatches, hname]
  · intro r hr happlies
    obtain ⟨written, hwritten, rfl⟩ := List.mem_map.mp hr
    exact h.level written hwritten (toolNameMatches_of_applies happlies)

theorem Silent.withArgs (h : Silent glob tool rules) (path : Option CanonicalPath)
    (args : Option String) :
    findToolRuleWithArgs glob rules tool path args = none := by
  have hnone : ∀ r ∈ rules, ¬ r.applies glob tool path args = true := by
    intro r hr happlies
    simpa [h r hr] using matches_of_applies happlies
  rw [findToolRuleWithArgs_eq .deny fun r hr happlies => absurd happlies (hnone r hr)]
  simpa using hnone

theorem ToolRule.unrestricted_applies {r : ToolRule} (hmatches : r.matches glob tool = true)
    (hpaths : r.paths.getD [] = []) (hpatterns : r.bashPatterns.getD [] = [])
    (path : Option CanonicalPath) (args : Option String) :
    r.applies glob tool path args = true ∧ r.isSpecific args = false := by
  have hadmit : r.pathsAdmit path = true := by
    unfold pathsAdmit
    cases h : r.paths with
    | none => rfl
    | some paths =>
      have : paths = [] := by simpa [h] using hpaths
      simp [this]
  cases hp : r.bashPatterns with
  | none =>
    constructor
    · cases args <;> simp [applies, hmatches, hadmit, matchesBashCommand, hp]
    · simp [isSpecific, hp]
  | some patterns =>
    have : patterns = [] := by simpa [hp] using hpatterns
    subst this
    constructor
    · cases args <;> simp [applies, hmatches, hadmit, matchesBashCommand, hp]
    · simp [isSpecific, hp]

theorem Refuses.withArgs (h : Refuses glob tool rules) (path : Option CanonicalPath)
    (args : Option String) :
    findToolRuleWithArgs glob rules tool path args = some .deny := by
  have hrule : ∀ r ∈ rules, r.matches glob tool = true →
      r.applies glob tool path args = true ∧ r.isSpecific args = false := fun r hr hmatches =>
    unrestricted_applies hmatches (h.paths r hr hmatches) (h.bashPatterns r hr hmatches)
      path args
  have hall : ∀ r ∈ rules, r.applies glob tool path args = true →
      r.level = .deny ∧ r.isSpecific args = false := by
    intro r hr happlies
    have hmatches := matches_of_applies happlies
    exact ⟨h.level r hr hmatches, (hrule r hr hmatches).2⟩
  obtain ⟨r, hr, hmatches⟩ := h.exists_rule
  rw [findToolRuleWithArgs_eq .deny hall, if_pos]
  exact List.any_eq_true.mpr ⟨r, hr, (hrule r hr hmatches).1⟩

/-! ### The tiers of a checker -/

namespace PermissionChecker

/-- The canonical rules are those of the written ones, each tier made canonical at a moment
of its own. -/
structure WellBuilt (c : PermissionChecker) : Prop where
  config : ∃ resolve,
    c.canonicalizedConfigToolRules = canonicalizeToolRules resolve c.configRules.toolRules
  session : ∃ resolve,
    c.canonicalizedSessionToolRules = canonicalizeToolRules resolve c.sessionRules.toolRules
  agent : ∃ resolve,
    c.canonicalizedAgentToolRules = canonicalizeToolRules resolve c.agentRules.toolRules

/-- The checkers that can be built, with whatever decisions were stored since. -/
inductive Built : PermissionChecker → Prop
  | new (host : Host) (rules : PermissionRuleset) (store : PermissionStore) :
      Built (.new host rules store)
  | withSessionRules {c} (host : Host) (rules : PermissionRuleset) (h : Built c) :
      Built (c.withSessionRules host rules)
  | withAgentRules {c} (host : Host) (rules : PermissionRuleset) (h : Built c) :
      Built (c.withAgentRules host rules)
  | withExecMode {c} (host : Host) (h : Built c) : Built (c.withExecMode host)
  | withStore {c} (store : PermissionStore) (h : Built c) : Built { c with store := store }

theorem Built.wellBuilt {c : PermissionChecker} (h : Built c) : c.WellBuilt := by
  induction h with
  | new host rules store => exact ⟨⟨host.canonicalizePath, rfl⟩, ⟨fun _ => none, rfl⟩,
      ⟨fun _ => none, rfl⟩⟩
  | withSessionRules host rules _ ih => exact ⟨ih.config, ⟨host.canonicalizePath, rfl⟩, ih.agent⟩
  | withAgentRules host rules _ ih => exact ⟨ih.config, ih.session, ⟨host.canonicalizePath, rfl⟩⟩
  | withExecMode host _ ih => exact ⟨ih.config, ⟨host.canonicalizePath, rfl⟩, ih.agent⟩
  | withStore store _ ih => exact ⟨ih.config, ih.session, ih.agent⟩

/-- The first tier with a rule for the tool. -/
inductive RefusingTier (glob : Glob) (tool : String) (c : PermissionChecker) : Prop
  | agent (h : Refuses glob tool c.agentRules.toolRules)
  | session (ha : Silent glob tool c.agentRules.toolRules)
      (h : Refuses glob tool c.sessionRules.toolRules)
  | config (ha : Silent glob tool c.agentRules.toolRules)
      (hs : Silent glob tool c.sessionRules.toolRules)
      (h : Refuses glob tool c.configRules.toolRules)

/-- The tiers above the first with a rule for the tool leave it to the lower ones. -/
inductive RefusedByTier (glob : Glob) (tool : String) (c : PermissionChecker) : Prop
  | agent (h : Refuses glob tool c.agentRules.toolRules)
  | session (ha : Silent glob tool c.agentRules.toolRules) (hagent : c.agentRules.default = .ask)
      (h : Refuses glob tool c.sessionRules.toolRules)
  | config (ha : Silent glob tool c.agentRules.toolRules) (hagent : c.agentRules.default = .ask)
      (hs : Silent glob tool c.sessionRules.toolRules)
      (hsession : c.sessionRules.default = .ask)
      (h : Refuses glob tool c.configRules.toolRules)

variable {host : Host} {c : PermissionChecker}

theorem RefusedByTier.effectiveToolRule (h : RefusedByTier host.glob tool c) (hb : c.WellBuilt)
    (hpath : requestPath host path = some canonicalPath) :
    c.effectiveToolRule host tool path = some .deny := by
  obtain ⟨resolveC, hconfig⟩ := hb.config
  obtain ⟨resolveS, hsession⟩ := hb.session
  obtain ⟨resolveA, hagent⟩ := hb.agent
  simp only [PermissionChecker.effectiveToolRule, hpath, firstTier, hconfig, hsession, hagent]
  cases h with
  | agent h => simp [h.canonicalized]
  | session ha hdefault h => simp [ha.canonicalized, hdefault, h.canonicalized]
  | config ha hdefault hs hdefault' h =>
    simp [ha.canonicalized, hdefault, hs.canonicalized, hdefault', h.canonicalized]

theorem RefusedByTier.effectiveToolRuleWithArgs (h : RefusedByTier host.glob tool c)
    (hpath : requestPath host path = some canonicalPath) (args : Option String) :
    c.effectiveToolRuleWithArgs host tool path args = some .deny := by
  simp only [PermissionChecker.effectiveToolRuleWithArgs, hpath, firstTier]
  cases h with
  | agent h => simp [h.withArgs]
  | session ha hdefault h => simp [ha.withArgs, hdefault, h.withArgs]
  | config ha hdefault hs hdefault' h =>
    simp [ha.withArgs, hdefault, hs.withArgs, hdefault', h.withArgs]

theorem RefusedByTier.policyDenies (h : RefusedByTier host.glob tool c) (hb : c.WellBuilt)
    (hpath : requestPath host path = some canonicalPath) (args : Option String) :
    c.policyDenies host tool path args = true := by
  rw [PermissionChecker.policyDenies, effectivePolicyDenies]
  cases args with
  | none => simp [h.effectiveToolRule hb hpath]
  | some a => simp [h.effectiveToolRuleWithArgs hpath]

/-- A tool that is refused outright is refused for every path that exists and for no path,
whatever was stored. -/
theorem refusedByTier_denies (hb : Built c) (hfree : (toolCategoryForName tool).isPermissionFree = false)
    (h : RefusedByTier host.glob tool c) (path : Option String)
    (hpath : requestPath host path ≠ none) (sessionId : Option String) :
    c.check host tool path sessionId = .deny ∧
      ∀ args, c.checkWithArgs host tool path args sessionId = .deny := by
  obtain ⟨canonicalPath, hcanonical⟩ := Option.ne_none_iff_exists'.mp hpath
  have hdenies := h.policyDenies hb.wellBuilt hcanonical
  constructor
  · simp [check, hfree, hdenies]
  · simp [checkWithArgs, hdenies]

/-! ### A refusal under a permissive agent -/

/-- Surroundings with one file. -/
def oneFileHost : Host :=
  { bareHost with
    canonicalizePath p := if p = "/a" then some ⟨[⟨['a'], by decide, by decide⟩]⟩ else none }

variable (host : Host)

/-- The session refuses `write`, and the agent's default is `default`. -/
def refusingWrite (default : PermissionLevel) : PermissionChecker :=
  ((new host .initial ⟨[], none⟩).withSessionRules host
    ⟨.ask, [⟨"write", .deny, none, none⟩], []⟩).withAgentRules host ⟨default, [], []⟩

theorem refusingWrite_built (default : PermissionLevel) : Built (refusingWrite host default) :=
  ((Built.new host .initial ⟨[], none⟩).withSessionRules host _).withAgentRules host _

theorem refuses_write : Refuses bareHost.glob "write" [⟨"write", .deny, none, none⟩] where
  exists_rule := ⟨_, List.mem_singleton_self _, by decide⟩
  level r hr _ := by rw [List.mem_singleton.mp hr]
  paths r hr _ := by rw [List.mem_singleton.mp hr]; rfl
  bashPatterns r hr _ := by rw [List.mem_singleton.mp hr]; rfl

theorem refusingWrite_refused :
    (refusingWrite oneFileHost .ask).check oneFileHost "write" (some "/a") none = .deny ∧
      ∀ args, (refusingWrite oneFileHost .ask).checkWithArgs oneFileHost "write" (some "/a") args
        none = .deny := by
  have hrefused : RefusedByTier oneFileHost.glob "write" (refusingWrite oneFileHost .ask) :=
    .session (by simp [Silent, refusingWrite, withAgentRules]) rfl refuses_write
  exact refusedByTier_denies (refusingWrite_built oneFileHost .ask) (by decide) hrefused (some "/a")
    (by decide) none

/-- The agent's default comes before the rules of the session. -/
theorem agentDefault_before_sessionRules :
    ¬ ∀ (c : PermissionChecker) (tool : String) (path sessionId : Option String), Built c →
      (toolCategoryForName tool).isPermissionFree = false → RefusingTier bareHost.glob tool c →
        c.check bareHost tool path sessionId = .deny ∧
          ∀ args, c.checkWithArgs bareHost tool path args sessionId = .deny := by
  intro h
  have hdeny := (h (refusingWrite bareHost .allow) "write" none none (refusingWrite_built _ .allow)
    (by decide) (.session (by simp [Silent, refusingWrite, withAgentRules]) refuses_write)).1
  cases hdeny

end PermissionChecker

end Codegg.Permission
