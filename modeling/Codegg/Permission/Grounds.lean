import Codegg.Permission.Checker

/-!
# What an answer of the checker rests on

A request with at least one scope is allowed only on some ground, and against a stored
refusal only by narrower grants. A request without any scope passes the loop over its scopes
as if all of them were granted.
-/
namespace Codegg.Permission.PermissionChecker

variable {host : Host} {c : PermissionChecker}
variable {tool : String} {path args sessionId : Option String}

/-! ### The loop over the scopes -/

section Scopes

variable {decision : String → Option PermissionLevel}

theorem answerScopes_eq_granted {unresolved : Bool} {scopes : List String} :
    answerScopes decision unresolved scopes = .granted ↔
      unresolved = false ∧ ∀ scope ∈ scopes, decision scope = some .allow := by
  induction scopes generalizing unresolved with
  | nil => cases unresolved <;> simp [answerScopes]
  | cons scope scopes ih =>
    rw [answerScopes]
    split
    · rename_i h
      simp [ih, h]
    · rename_i h
      simp [h]
    · rename_i h
      simp [h]
    · rename_i h
      simp [ih, h]

/-- The loop ends undecided only when no decision was found for one of the scopes. -/
theorem exists_none_of_answerScopes {scopes : List String}
    (h : answerScopes decision false scopes = .unresolved) :
    ∃ scope ∈ scopes, decision scope = none := by
  induction scopes with
  | nil => simp [answerScopes] at h
  | cons scope scopes ih =>
    rw [answerScopes] at h
    split at h
    · obtain ⟨scope', hmem, hnone⟩ := ih h
      exact ⟨scope', List.mem_cons_of_mem _ hmem, hnone⟩
    · cases h
    · cases h
    · rename_i hnone
      exact ⟨scope, List.mem_cons_self, hnone⟩

end Scopes

/-! ### Grounds -/

/-- The first path rule that covers the path of a request. -/
def pathRuleLevel (host : Host) (c : PermissionChecker) (path : Option String) :
    Option PermissionLevel :=
  (path.bind host.canonicalizePath).bind c.pathLevel

/-- Something that speaks for a request. -/
inductive Ground (host : Host) (c : PermissionChecker) (tool : String)
    (path args sessionId : Option String) : Prop
  | scopes (hne : requestScopes host.sha256 tool args ≠ [])
      (h : ∀ scope ∈ requestScopes host.sha256 tool args,
        c.getDecision host tool path (some scope) sessionId = some .allow)
  | broad (h : c.getDecision host tool path none sessionId = some .allow)
  | toolRule (h : c.effectiveToolRuleWithArgs host tool path args = some .allow)
  | pathRule (h : c.pathRuleLevel host path = some .allow)
  | default (h : c.effectiveDefault = .allow)
  | harmless (cmd : String) (hargs : args = some cmd)
      (hshell : toolCategoryForName tool = .shellExec)
      (hdestructive : host.destructiveMatch cmd = none) (hask : host.findAskPattern cmd = none)

/-- A stored decision for exactly one of the scopes of a request allows it. -/
def NarrowerAllow (host : Host) (c : PermissionChecker) (tool : String)
    (path args sessionId : Option String) : Prop :=
  ∃ scope ∈ requestScopes host.sha256 tool args,
    c.store.exactDecision host.mac host.signatureKey tool path (some scope) sessionId =
      some .allow

/-- Allowed only on a ground, and against a stored refusal only by a narrower grant. -/
def AllowGrounded (host : Host) (c : PermissionChecker) (tool : String)
    (path args sessionId : Option String) : Prop :=
  c.checkWithArgs host tool path args sessionId = .allow →
    Ground host c tool path args sessionId ∧
      (c.getDecision host tool path none sessionId = some .deny →
        NarrowerAllow host c tool path args sessionId)

theorem ground_of_pathFallback (h : c.pathFallback host path = some .allow) :
    Ground host c tool path args sessionId := by
  unfold pathFallback at h
  split at h
  · rename_i p
    split at h
    · rename_i canonical hcanonical
      exact .pathRule (by simp [pathRuleLevel, hcanonical, h])
    · exact .default (Option.some.inj h)
  · cases h

theorem ground_of_fallback (h : c.fallback host tool path args = .allow) :
    Ground host c tool path args sessionId := by
  simp only [fallback] at h
  split at h
  · rename_i level hlevel
    rw [PermissionResult.ofLevel_eq_allow] at h
    exact ground_of_pathFallback (h ▸ hlevel)
  · split at h
    · rename_i cmd hshell
      split at h
      · cases h
      · rename_i hdestructive
        split at h
        · cases h
        · rename_i hask
          exact .harmless cmd rfl hshell hdestructive hask
    · exact .default (PermissionResult.ofLevel_eq_allow.mp h)

/-- With a scope, an answer of `allow` has a ground. -/
theorem allowGrounded_of_scopes (hne : requestScopes host.sha256 tool args ≠ []) :
    AllowGrounded host c tool path args sessionId := by
  intro hallow
  simp only [checkWithArgs] at hallow
  by_cases hdenies : c.policyDenies host tool path args = true
  · simp [hdenies] at hallow
  rw [if_neg hdenies] at hallow
  split at hallow
  · rename_i hgranted
    have hall := (answerScopes_eq_granted.mp hgranted).2
    refine ⟨.scopes hne hall, fun hdeny => ?_⟩
    obtain ⟨scope, hscope⟩ := List.exists_mem_of_ne_nil _ hne
    have hlevel := hall scope hscope
    -- the decision without a scope refuses, so the one that allows has the scope
    rw [getDecision, PermissionStore.getDecisionScoped_some, ← getDecision, hdeny] at hlevel
    refine ⟨scope, hscope, ?_⟩
    cases hexact : c.store.exactDecision host.mac host.signatureKey tool path (some scope)
        sessionId with
    | none => simp [hexact] at hlevel
    | some level => simpa [hexact] using hlevel
  · cases hallow
  · cases hallow
  · rename_i hunresolved
    constructor
    · split at hallow
      · rename_i level hrule
        rw [PermissionResult.ofLevel_eq_allow] at hallow
        exact .toolRule (hallow ▸ hrule)
      · exact ground_of_fallback hallow
    · intro hdeny
      -- a refusal without a scope leaves no scope undecided
      obtain ⟨scope, -, hnone⟩ := exists_none_of_answerScopes hunresolved
      rw [getDecision, PermissionStore.getDecisionScoped_some, ← getDecision, hdeny] at hnone
      simp at hnone

theorem checkWithArgs_of_no_scope (hnil : requestScopes host.sha256 tool args = [])
    (hdenies : c.policyDenies host tool path args = false) :
    c.checkWithArgs host tool path args sessionId = .allow := by
  simp [checkWithArgs, hnil, hdenies, answerScopes]

/-- When an answer of `allow` has its ground. -/
theorem allowGrounded_iff :
    AllowGrounded host c tool path args sessionId ↔
      requestScopes host.sha256 tool args ≠ [] ∨ c.policyDenies host tool path args = true ∨
        (Ground host c tool path args sessionId ∧
          c.getDecision host tool path none sessionId ≠ some .deny) := by
  constructor
  · intro h
    by_cases hnil : requestScopes host.sha256 tool args = []
    · by_cases hdenies : c.policyDenies host tool path args = true
      · exact .inr (.inl hdenies)
      have hallow : c.checkWithArgs host tool path args sessionId = .allow :=
        checkWithArgs_of_no_scope hnil (Bool.eq_false_iff.mpr hdenies)
      obtain ⟨hground, hbroad⟩ := h hallow
      refine .inr (.inr ⟨hground, fun hdeny => ?_⟩)
      obtain ⟨scope, hscope, -⟩ := hbroad hdeny
      simp [hnil] at hscope
    · exact .inl hnil
  · rintro (hne | hdenies | ⟨hground, hbroad⟩)
    · exact allowGrounded_of_scopes hne
    · intro hallow
      simp [checkWithArgs, hdenies] at hallow
    · exact fun _ => ⟨hground, fun hdeny => absurd hdeny hbroad⟩

/-! ### A stored refusal that is not consulted -/

/-- A checker with no rules and one stored refusal of all git calls. -/
def refusingGit : PermissionChecker :=
  .new bareHost .initial ⟨[⟨"git", none, none, .deny, 1700000000, "", none⟩], none⟩

/-- A subcommand without a letter has no scope, and is allowed although git is refused. -/
theorem refusedGit_allowed :
    refusingGit.checkWithArgs bareHost "git" none (some "?") none = .allow ∧
      refusingGit.getDecision bareHost "git" none none none = some .deny ∧
      ¬ AllowGrounded bareHost refusingGit "git" none (some "?") none := by
  have hallow : refusingGit.checkWithArgs bareHost "git" none (some "?") none = .allow := by
    decide
  have hdeny : refusingGit.getDecision bareHost "git" none none none = some .deny := by decide
  refine ⟨hallow, hdeny, fun h => ?_⟩
  obtain ⟨scope, hscope, -⟩ := (h hallow).2 hdeny
  have hnil : requestScopes bareHost.sha256 "git" (some "?") = [] := by decide
  simp [hnil] at hscope

end Codegg.Permission.PermissionChecker
