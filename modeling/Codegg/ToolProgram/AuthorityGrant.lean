import Codegg.Library.SeparatedFields
import Codegg.ToolProgram.IrDigest

/-!
# Authority grants

The record of the decision that admitted a tool program, and the digest over its fields.
The fields are written one after the other with a bar between them, an absent one as an
empty text, and hashed. The hash is a parameter.
-/
namespace Codegg.ToolProgram

open Codegg.Library

@[ext] structure ToolAuthorityGrant where
  schemaVersion : UInt16
  grantId : String
  principalRef : String
  workspaceId : String
  workspacePathPolicyId : String
  sessionId : Option String
  agentId : Option String
  turnId : Option String
  permissionMode : Option String
  policyRevision : String
  allowedCallerClass : String
  allowedEffectClass : String
  manifestDigest : String
  sourceDigest : String
  irDigest : String
  contractDigest : String
  contractSnapshotJson : String
  issuedAt : Int64
  expiresAt : Option Int64
  revokedAt : Option Int64
  decisionDigest : String
  deriving DecidableEq

variable {g h : ToolAuthorityGrant}

namespace ToolAuthorityGrant

/-- The text of an instant that may be absent. -/
def instantText (instant : Option Int64) : String := (instant.map (·.toInt.repr)).getD ""

/-- The sixteen texts of a grant, in the order in which they are written. -/
def texts (g : ToolAuthorityGrant) : List String :=
  [g.grantId, g.principalRef, g.workspaceId, g.workspacePathPolicyId, g.sessionId.getD "",
    g.agentId.getD "", g.turnId.getD "", g.permissionMode.getD "", g.policyRevision,
    g.allowedCallerClass, g.allowedEffectClass, g.manifestDigest, g.sourceDigest, g.irDigest,
    g.contractDigest, g.contractSnapshotJson]

/-- What is hashed. -/
def digestFields (g : ToolAuthorityGrant) : String :=
  "|".intercalate ([g.schemaVersion.toNat.repr] ++ g.texts ++
    [g.issuedAt.toInt.repr, instantText g.expiresAt, instantText g.revokedAt])

def computeDigest (sha : List UInt8 → String) (g : ToolAuthorityGrant) : String :=
  sha (textBytes g.digestFields)

def verifyIntegrity (sha : List UInt8 → String) (g : ToolAuthorityGrant) : Bool :=
  decide (computeDigest sha g = g.decisionDigest)

/-- The optional texts. -/
def optionalTexts (g : ToolAuthorityGrant) : List (Option String) :=
  [g.sessionId, g.agentId, g.turnId, g.permissionMode]

/-- No text holds the separator, and every optional text is given and not empty. -/
def Plain (g : ToolAuthorityGrant) : Prop :=
  (∀ text ∈ g.texts, '|' ∉ text.toList) ∧ ∀ text ∈ g.optionalTexts, text.getD "" ≠ ""

/-! ### The fields that are hashed -/

theorem digestFields_toList (g : ToolAuthorityGrant) :
    g.digestFields.toList = ['|'].intercalate ([g.schemaVersion.toNat.repr.toList] ++
      g.texts.map String.toList ++ [g.issuedAt.toInt.repr.toList, (instantText g.expiresAt).toList,
        (instantText g.revokedAt).toList]) := by
  unfold digestFields
  simp

theorem computeDigest_eq_iff {sha : List UInt8 → String} (hsha : Function.Injective sha) :
    computeDigest sha h = computeDigest sha g ↔ h.digestFields = g.digestFields :=
  ⟨fun heq => textBytes_inj (hsha heq), fun heq => by rw [computeDigest, heq, computeDigest]⟩

theorem bar_not_mem_intRepr (n : ℤ) : '|' ∉ n.repr.toList := by
  intro h
  rcases mem_intRepr h with h | h
  · exact absurd h (by decide)
  · exact absurd h (by decide)

theorem bar_not_mem_instantText (instant : Option Int64) : '|' ∉ (instantText instant).toList := by
  cases instant with
  | none => simp [instantText]
  | some n => exact bar_not_mem_intRepr n.toInt

theorem instantText_injective : Function.Injective instantText := by
  intro a b h
  cases a with
  | none =>
    cases b with
    | none => rfl
    | some n => exact absurd h.symm (intRepr_ne_empty n.toInt)
  | some m =>
    cases b with
    | none => exact absurd h (intRepr_ne_empty m.toInt)
    | some n => exact congrArg some (Int64.toInt_inj.mp (intRepr_injective h))

/-! ### Grants with other texts -/

/-- The grant with other texts, the optional ones given. -/
def withTexts (g : ToolAuthorityGrant) : List String → ToolAuthorityGrant
  | [grantId, principalRef, workspaceId, workspacePathPolicyId, sessionId, agentId, turnId,
      permissionMode, policyRevision, allowedCallerClass, allowedEffectClass, manifestDigest,
      sourceDigest, irDigest, contractDigest, contractSnapshotJson] =>
    { g with
      grantId, principalRef, workspaceId, workspacePathPolicyId, sessionId := some sessionId
      agentId := some agentId, turnId := some turnId, permissionMode := some permissionMode
      policyRevision, allowedCallerClass, allowedEffectClass, manifestDigest, sourceDigest
      irDigest, contractDigest, contractSnapshotJson }
  | _ => g

theorem texts_withTexts (g : ToolAuthorityGrant) {ts : List String} (h : ts.length = 16) :
    (g.withTexts ts).texts = ts := by
  match ts, h with
  | [_, _, _, _, _, _, _, _, _, _, _, _, _, _, _, _], _ => rfl

theorem withTexts_rest (g : ToolAuthorityGrant) (ts : List String) :
    (g.withTexts ts).schemaVersion = g.schemaVersion ∧ (g.withTexts ts).issuedAt = g.issuedAt ∧
      (g.withTexts ts).expiresAt = g.expiresAt ∧ (g.withTexts ts).revokedAt = g.revokedAt := by
  unfold withTexts
  split <;> exact ⟨rfl, rfl, rfl, rfl⟩

/-- An optional text that is absent or empty, given the other way. -/
def respell (text : Option String) : Option String := if text.isSome then none else some ""

theorem respell_ne (text : Option String) : respell text ≠ text := by
  cases text <;> simp [respell]

theorem getD_respell {text : Option String} (h : text.getD "" = "") :
    (respell text).getD "" = text.getD "" := by
  rw [h]
  cases text <;> rfl

theorem optional_eq {text other : Option String} (h : text.getD "" = other.getD "")
    (hgiven : other.getD "" ≠ "") : text = other := by
  cases other with
  | none => exact absurd rfl hgiven
  | some s =>
    cases text with
    | none => exact absurd h.symm hgiven
    | some t => exact congrArg some h

/-! ### What the digest binds -/

/-- The fields of a grant that are hashed, of one whose texts can be told apart. -/
theorem eq_of_digestFields (hplain : g.Plain) (heq : h.digestFields = g.digestFields) :
    { h with decisionDigest := g.decisionDigest } = g := by
  obtain ⟨hbars, hgiven⟩ := hplain
  have hlists := congrArg String.toList heq.symm
  rw [digestFields_toList, digestFields_toList] at hlists
  have hfields := intercalate_inj (by simp [texts]) (by
    intro field hfield
    simp only [List.cons_append, List.nil_append, List.mem_cons, List.mem_append, List.mem_map,
      List.not_mem_nil, or_false] at hfield
    rcases hfield with rfl | ⟨text, htext, rfl⟩ | rfl | rfl | rfl
    · exact fun hbar => absurd (isDigit_of_mem_natRepr hbar) (by decide)
    · exact hbars text htext
    · exact bar_not_mem_intRepr _
    · exact bar_not_mem_instantText _
    · exact bar_not_mem_instantText _) hlists
  simp only [texts, List.map_cons, List.map_nil, List.cons_append, List.nil_append,
    List.cons.injEq, String.toList_inj, and_true] at hfields
  obtain ⟨hschema, hgrant, hprincipal, hworkspace, hpath, hsession, hagent, hturn, hmode,
    hpolicy, hcaller, heffect, hmanifest, hsource, hir, hcontract, hsnapshot, hissued, hexpires,
    hrevoked⟩ := hfields
  simp only [optionalTexts, List.mem_cons, List.not_mem_nil, or_false, forall_eq_or_imp,
    forall_eq] at hgiven
  obtain ⟨hsession', hagent', hturn', hmode'⟩ := hgiven
  exact ToolAuthorityGrant.ext (UInt16.toNat_inj.mp (natRepr_injective hschema.symm)) hgrant.symm
    hprincipal.symm hworkspace.symm hpath.symm (optional_eq hsession.symm hsession')
    (optional_eq hagent.symm hagent') (optional_eq hturn.symm hturn')
    (optional_eq hmode.symm hmode') hpolicy.symm hcaller.symm heffect.symm hmanifest.symm
    hsource.symm hir.symm hcontract.symm hsnapshot.symm
    (Int64.toInt_inj.mp (intRepr_injective hissued.symm)) (instantText_injective hexpires.symm)
    (instantText_injective hrevoked.symm) rfl

/-- A bar inside a text can be read as one between two. -/
theorem exists_other_texts {text : String} (htext : text ∈ g.texts) (hbar : '|' ∈ text.toList) :
    ∃ h : ToolAuthorityGrant, h.digestFields = g.digestFields ∧ h.texts ≠ g.texts := by
  obtain ⟨others, hlength, hne, hsame⟩ := exists_moved
    (show 2 ≤ (g.texts.map String.toList).length by simp [texts]) (List.mem_map_of_mem htext) hbar
  have hback : (others.map String.ofList).map String.toList = others := by simp
  have htexts : (g.withTexts (others.map String.ofList)).texts = others.map String.ofList :=
    texts_withTexts g (by simpa [texts] using hlength)
  obtain ⟨hschema, hissued, hexpires, hrevoked⟩ := withTexts_rest g (others.map String.ofList)
  refine ⟨g.withTexts (others.map String.ofList), String.toList_injective ?_, fun h => hne ?_⟩
  · rw [digestFields_toList, digestFields_toList, htexts, hback, hschema, hissued, hexpires,
      hrevoked, hsame]
  · rw [← htexts.symm.trans h, hback]

/-- An optional text that is absent hashes like an empty one. -/
theorem optional_given (hbinds : ∀ h : ToolAuthorityGrant, h.digestFields = g.digestFields →
      { h with decisionDigest := g.decisionDigest } = g) :
    ∀ text ∈ g.optionalTexts, text.getD "" ≠ "" := by
  intro text htext hempty
  simp only [optionalTexts, List.mem_cons, List.not_mem_nil, or_false] at htext
  rcases htext with rfl | rfl | rfl | rfl
  · have hsame := hbinds { g with sessionId := respell g.sessionId }
      (by simp [digestFields, texts, getD_respell hempty])
    exact respell_ne _ (congrArg sessionId hsame)
  · have hsame := hbinds { g with agentId := respell g.agentId }
      (by simp [digestFields, texts, getD_respell hempty])
    exact respell_ne _ (congrArg agentId hsame)
  · have hsame := hbinds { g with turnId := respell g.turnId }
      (by simp [digestFields, texts, getD_respell hempty])
    exact respell_ne _ (congrArg turnId hsame)
  · have hsame := hbinds { g with permissionMode := respell g.permissionMode }
      (by simp [digestFields, texts, getD_respell hempty])
    exact respell_ne _ (congrArg permissionMode hsame)

/-- The digest of a grant determines its fields exactly if no text holds a bar and no optional
text is absent or empty. -/
theorem grant_digest_binds_iff {sha : List UInt8 → String} (hsha : Function.Injective sha)
    (g : ToolAuthorityGrant) :
    (∀ h : ToolAuthorityGrant, computeDigest sha h = computeDigest sha g →
      { h with decisionDigest := g.decisionDigest } = g) ↔ g.Plain := by
  simp only [computeDigest_eq_iff hsha]
  constructor
  · intro hbinds
    refine ⟨fun text htext hbar => ?_, optional_given hbinds⟩
    obtain ⟨h, hsame, hne⟩ := exists_other_texts htext hbar
    rw [← hbinds h hsame] at hne
    exact hne rfl
  · exact fun hplain h => eq_of_digestFields hplain

/-- A grant that carries the digest of a plain one passes the check exactly if it is that grant or
two texts have the same digest. -/
theorem verifyIntegrity_iff_eq {sha : List UInt8 → String} (hplain : g.Plain)
    (hissued : g.verifyIntegrity sha = true) (hcarried : h.decisionDigest = g.decisionDigest) :
    h.verifyIntegrity sha = true ↔
      h = g ∨ h.digestFields ≠ g.digestFields ∧ computeDigest sha h = computeDigest sha g := by
  have hg : computeDigest sha g = g.decisionDigest := of_decide_eq_true hissued
  rw [verifyIntegrity, decide_eq_true_iff, hcarried, ← hg]
  constructor
  · intro hsame
    by_cases hfields : h.digestFields = g.digestFields
    · have hgrant := eq_of_digestFields hplain hfields
      rw [← hcarried] at hgrant
      exact .inl hgrant
    · exact .inr ⟨hfields, hsame⟩
  · rintro (rfl | ⟨-, hsame⟩)
    · rfl
    · exact hsame

/-- A grant with some texts. -/
def grantOf (principalRef workspaceId : String) (agentId : Option String) :
    ToolAuthorityGrant where
  schemaVersion := 1
  grantId := "grant"
  principalRef := principalRef
  workspaceId := workspaceId
  workspacePathPolicyId := "policy"
  sessionId := some "session"
  agentId := agentId
  turnId := some "turn"
  permissionMode := some "default"
  policyRevision := "1"
  allowedCallerClass := "program"
  allowedEffectClass := "read"
  manifestDigest := "sha256:0"
  sourceDigest := "sha256:1"
  irDigest := "sha256:2"
  contractDigest := "sha256:3"
  contractSnapshotJson := "{}"
  issuedAt := 1000
  expiresAt := some 2000
  revokedAt := none
  decisionDigest := ""

/-- The digest of a grant for `ada`, carried by a grant for anyone. -/
def issuedFor (principalRef : String) : ToolAuthorityGrant :=
  { grantOf principalRef "repo" (some "agent") with
    decisionDigest := computeDigest bytesText (grantOf "ada" "repo" (some "agent")) }

theorem forged_principal_fails : (issuedFor "ada").verifyIntegrity bytesText = true ∧
    ¬(issuedFor "eve").verifyIntegrity bytesText = true := by
  have hplain : (issuedFor "ada").Plain := by constructor <;> decide +kernel
  have hissued : (issuedFor "ada").verifyIntegrity bytesText = true := by
    simp only [verifyIntegrity, computeDigest, digestFields, texts, issuedFor, decide_true]
  have hcarried : (issuedFor "eve").decisionDigest = (issuedFor "ada").decisionDigest := rfl
  refine ⟨hissued, fun hforged => ?_⟩
  rcases (verifyIntegrity_iff_eq hplain hissued hcarried).mp hforged with h | ⟨hne, hsame⟩
  · exact absurd (congrArg principalRef h) (by decide)
  · exact hne ((computeDigest_eq_iff bytesText_injective).mp hsame)

theorem grant_digest_binds_plainGrant :
    (∀ h : ToolAuthorityGrant,
      computeDigest bytesText h = computeDigest bytesText (grantOf "ada" "repo" (some "agent")) →
        { h with decisionDigest := "" } = grantOf "ada" "repo" (some "agent")) ↔
      (grantOf "ada" "repo" (some "agent")).Plain :=
  grant_digest_binds_iff bytesText_injective (grantOf "ada" "repo" (some "agent"))

/-- A bar moved from the workspace to the principal, and an agent that is absent or empty. -/
theorem moved_bar_same_digest :
    (∀ sha, computeDigest sha (grantOf "ada" "x|repo" none) =
        computeDigest sha (grantOf "ada|x" "repo" (some ""))) ∧
      (grantOf "ada" "x|repo" none).workspaceId ≠ (grantOf "ada|x" "repo" (some "")).workspaceId ∧
      (grantOf "ada" "x|repo" none).agentId ≠ (grantOf "ada|x" "repo" (some "")).agentId := by
  have hfields : (grantOf "ada" "x|repo" none).digestFields =
      (grantOf "ada|x" "repo" (some "")).digestFields := by
    decide +kernel
  refine ⟨fun sha => ?_, by decide, by decide⟩
  rw [computeDigest, hfields, computeDigest]

end ToolAuthorityGrant

end Codegg.ToolProgram
