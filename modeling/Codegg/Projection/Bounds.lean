import Codegg.Library.BoundedList
import Codegg.Projection.Dto

/-!
# Bounded records

For each record of a snapshot, that its texts are within their byte limits and its
collections within their caps, and that `normalise` establishes this from what it leaves
alone: the identifiers, and the texts that no limit is applied to.
-/
namespace Codegg.Projection

open Codegg.Library

/-- Within the limit of any text field. -/
abbrev Text (s : String) : Prop := Fits maxProjectionStringBytes s

abbrev TextOpt (s : Option String) : Prop := FitsOpt maxProjectionStringBytes s

/-- Within the limit of a summary. -/
abbrev Summary (s : String) : Prop := Fits maxProjectionRunSummaryBytes s

abbrev SummaryOpt (s : Option String) : Prop := FitsOpt maxProjectionRunSummaryBytes s

theorem Fits.of_append_left {n : ℕ} {a b : String} (h : Fits n (a ++ b)) : Fits n a := by
  have hle : a.utf8ByteSize + b.utf8ByteSize ≤ n := by
    rw [← String.utf8ByteSize_append]
    exact h
  exact (Nat.le_add_right _ _).trans hle

theorem Fits.of_append_right {n : ℕ} {a b : String} (h : Fits n (a ++ b)) : Fits n b := by
  have hle : a.utf8ByteSize + b.utf8ByteSize ≤ n := by
    rw [← String.utf8ByteSize_append]
    exact h
  exact (Nat.le_add_left _ _).trans hle

theorem FitsOpt.or {n : ℕ} {a b : Option String} (ha : FitsOpt n a) (hb : FitsOpt n b) :
    FitsOpt n (a.or b) := by
  cases a with
  | none => exact hb
  | some _ => exact ha

/-- A text that is cut when it is too long fits in any case. -/
theorem text_boundInline (text : String) : Text (boundInline text) := by
  rw [boundInline]
  have hcut := truncateStr_le text maxProjectionStringBytes
  split
  · exact hcut
  · rename_i hshort
    by_cases hfits : text.utf8ByteSize ≤ maxProjectionStringBytes
    · exact hfits
    · exact (not_lt.mp hshort).trans hcut

/-!
## Sessions
-/

structure SessionSummaryProjection.Bounded (s : SessionSummaryProjection) : Prop where
  sessionId : Text s.sessionId
  projectId : Text s.projectId
  workspaceId : Text s.workspaceId
  title : Text s.title
  status : Text s.status
  selectedModel : TextOpt s.selectedModel
  selectedAgent : TextOpt s.selectedAgent
  recentSummary : SummaryOpt s.recentSummary

/-- The identifiers, which `normalise` leaves alone. -/
structure SessionSummaryProjection.IdsFit (s : SessionSummaryProjection) : Prop where
  sessionId : Text s.sessionId
  projectId : Text s.projectId
  workspaceId : Text s.workspaceId

theorem SessionSummaryProjection.bounded_normalise {s : SessionSummaryProjection}
    (h : s.IdsFit) : s.normalise.Bounded where
  sessionId := h.sessionId
  projectId := h.projectId
  workspaceId := h.workspaceId
  title := fits_truncateStr _ _
  status := fits_truncateStr _ _
  selectedModel := fitsOpt_map_truncateStr _ _
  selectedAgent := fitsOpt_map_truncateStr _ _
  recentSummary := fitsOpt_map_truncateStr _ _

structure WorkspaceSummaryProjection.Bounded (w : WorkspaceSummaryProjection) : Prop where
  workspaceId : Text w.workspaceId
  canonicalRoot : Text w.canonicalRoot
  displayName : Text w.displayName
  overall : Text w.health.overall
  catalogState : Text w.health.catalogState
  workspaceState : Text w.health.workspaceState
  assetsState : Text w.health.assetsState
  servicesState : Text w.health.servicesState
  diagnostics : ∀ d ∈ w.health.diagnostics, Text d

/-!
## Turns
-/

structure MessageProjection.Bounded (m : MessageProjection) : Prop where
  messageId : Text m.messageId
  parentTurnId : Text m.parentTurnId
  text : Text m.text
  toolCallId : TextOpt m.toolCallId

structure MessageProjection.IdsFit (m : MessageProjection) : Prop where
  messageId : Text m.messageId
  parentTurnId : Text m.parentTurnId
  toolCallId : TextOpt m.toolCallId

theorem MessageProjection.bounded_normalise {m : MessageProjection} (h : m.IdsFit) :
    m.normalise.Bounded := by
  have hcut := truncateStr_le m.text maxProjectionStringBytes
  rw [MessageProjection.normalise]
  split
  · exact ⟨h.messageId, h.parentTurnId, hcut, h.toolCallId⟩
  · rename_i hshort
    exact ⟨h.messageId, h.parentTurnId, (not_lt.mp hshort).trans hcut, h.toolCallId⟩

def ToolArgumentProjection.Bounded : ToolArgumentProjection → Prop
  | .inline arguments => Text arguments
  | .summary text => Text text
  | .truncatedArguments _ preview => Text preview
  | .handle id _ => Text id

def ToolOutputProjection.Bounded : ToolOutputProjection → Prop
  | .pending => True
  | .inline output => Text output
  | .summary text => Text text
  | .truncatedOutput _ preview => Text preview
  | .handle id _ => Text id

/-- The texts `normalise` leaves alone. -/
def ToolArgumentProjection.RestFits : ToolArgumentProjection → Prop
  | .truncatedArguments _ preview => Text preview
  | .handle id _ => Text id
  | _ => True

def ToolOutputProjection.RestFits : ToolOutputProjection → Prop
  | .truncatedOutput _ preview => Text preview
  | .handle id _ => Text id
  | _ => True

theorem ToolArgumentProjection.bounded_normalise {a : ToolArgumentProjection}
    (h : a.RestFits) : a.normalise.Bounded := by
  cases a with
  | inline text => exact text_boundInline text
  | summary text => exact fits_truncateStr _ _
  | truncatedArguments | handle => exact h

theorem ToolOutputProjection.bounded_normalise {o : ToolOutputProjection} (h : o.RestFits) :
    o.normalise.Bounded := by
  cases o with
  | pending => trivial
  | inline text => exact text_boundInline text
  | summary text => exact fits_truncateStr _ _
  | truncatedOutput | handle => exact h

structure ToolProjection.Bounded (t : ToolProjection) : Prop where
  toolId : Text t.toolId
  toolName : Text t.toolName
  arguments : t.arguments.Bounded
  output : t.output.Bounded

structure ToolProjection.RestFits (t : ToolProjection) : Prop where
  toolId : Text t.toolId
  arguments : t.arguments.RestFits
  output : t.output.RestFits

theorem ToolProjection.bounded_normalise {t : ToolProjection} (h : t.RestFits) :
    t.normalise.Bounded where
  toolId := h.toolId
  toolName := fits_truncateStr _ _
  arguments := ToolArgumentProjection.bounded_normalise h.arguments
  output := ToolOutputProjection.bounded_normalise h.output

structure PermissionProjection.Bounded (p : PermissionProjection) : Prop where
  permissionId : Text p.permissionId
  tool : Text p.tool
  path : TextOpt p.path

theorem PermissionProjection.bounded_normalise {p : PermissionProjection}
    (h : Text p.permissionId) : p.normalise.Bounded :=
  ⟨h, fits_truncateStr _ _, fitsOpt_map_truncateStr _ _⟩

structure QuestionProjection.Bounded (q : QuestionProjection) : Prop where
  questionId : Text q.questionId
  header : TextOpt q.header
  prompt : Text q.prompt

theorem QuestionProjection.bounded_normalise {q : QuestionProjection}
    (h : Text q.questionId) : q.normalise.Bounded :=
  ⟨h, fitsOpt_map_truncateStr _ _, fits_truncateStr _ _⟩

structure AgentTreeNodeProjection.Bounded (n : AgentTreeNodeProjection) : Prop where
  childInstanceId : Text n.childInstanceId
  originatingTurnId : TextOpt n.originatingTurnId
  agent : Text n.agent
  description : Text n.description
  resultSummary : SummaryOpt n.resultSummary
  displayName : FitsOpt maxProjectionDisplayNameBytes n.displayName
  profile : FitsOpt maxProjectionDescriptorBytes n.profile
  usefulness : FitsOpt maxProjectionDescriptorBytes n.usefulness
  runId : TextOpt n.runId

theorem AgentTreeNodeProjection.bounded_normalise (n : AgentTreeNodeProjection) :
    n.normalise.Bounded where
  childInstanceId := fits_truncateStr _ _
  originatingTurnId := fitsOpt_map_truncateStr _ _
  agent := fits_truncateStr _ _
  description := fits_truncateStr _ _
  resultSummary := fitsOpt_map_truncateStr _ _
  displayName := fitsOpt_map_truncateStr _ _
  profile := fitsOpt_map_truncateStr _ _
  usefulness := fitsOpt_map_truncateStr _ _
  runId := fitsOpt_map_truncateStr _ _

structure TurnProjection.Bounded (t : TurnProjection) : Prop where
  turnId : Text t.turnId
  stopReason : TextOpt t.stopReason
  error : TextOpt t.error
  messages : Within maxProjectionMessages MessageProjection.Bounded t.messages
  tools : Within maxProjectionRecentTools ToolProjection.Bounded t.tools
  pendingPermissions : Within maxProjectionPendingPermissions PermissionProjection.Bounded
    t.pendingPermissions
  pendingQuestions : Within maxProjectionPendingQuestions QuestionProjection.Bounded
    t.pendingQuestions
  agentTree : Within maxProjectionSubagents AgentTreeNodeProjection.Bounded t.agentTree

/-- What the pass over a whole turn leaves alone: how many records it has, their
identifiers, and the agent tree. -/
structure TurnProjection.RestFits (t : TurnProjection) : Prop where
  turnId : Text t.turnId
  messages : Within maxProjectionMessages MessageProjection.IdsFit t.messages
  tools : Within maxProjectionRecentTools ToolProjection.RestFits t.tools
  pendingPermissions : Within maxProjectionPendingPermissions (fun p => Text p.permissionId)
    t.pendingPermissions
  pendingQuestions : Within maxProjectionPendingQuestions (fun q => Text q.questionId)
    t.pendingQuestions
  agentTree : Within maxProjectionSubagents AgentTreeNodeProjection.Bounded t.agentTree

theorem TurnProjection.bounded_normalise {t : TurnProjection} (h : t.RestFits) :
    t.normalise.Bounded where
  turnId := h.turnId
  stopReason := fitsOpt_map_truncateStr _ _
  error := fitsOpt_map_truncateStr _ _
  messages := h.messages.map fun _ _ => MessageProjection.bounded_normalise
  tools := h.tools.map fun _ _ => ToolProjection.bounded_normalise
  pendingPermissions := h.pendingPermissions.map fun _ _ => PermissionProjection.bounded_normalise
  pendingQuestions := h.pendingQuestions.map fun _ _ => QuestionProjection.bounded_normalise
  agentTree := h.agentTree

/-!
## Delegated runs
-/

structure AgentRunSummary.Bounded (r : AgentRunSummary) : Prop where
  runId : Text r.runId
  taskId : Text r.taskId
  projectId : Text r.projectId
  repositoryId : TextOpt r.repositoryId
  workspaceId : Text r.workspaceId
  jobId : TextOpt r.jobId
  parentRunId : TextOpt r.parentRunId
  agent : Text r.agent
  status : Text r.status
  worktreeId : TextOpt r.worktreeId
  branch : TextOpt r.branch
  baseCommit : TextOpt r.baseCommit
  resultCommit : TextOpt r.resultCommit
  validationSummary : SummaryOpt r.validationSummary
  groupId : TextOpt r.groupId
  terminalSummary : SummaryOpt r.terminalSummary
  controlStatus : Text r.controlStatus
  progress : SummaryOpt r.progress
  failureClass : TextOpt r.failureClass
  transcript : ∀ t ∈ r.transcript, t.isWithinBounds = true

theorem AgentRunSummary.bounded_normalise {r : AgentRunSummary} (h : TextOpt r.worktreeId) :
    r.normalise.Bounded where
  runId := fits_truncateStr _ _
  taskId := fits_truncateStr _ _
  projectId := fits_truncateStr _ _
  repositoryId := fitsOpt_map_truncateStr _ _
  workspaceId := fits_truncateStr _ _
  jobId := fitsOpt_map_truncateStr _ _
  parentRunId := fitsOpt_map_truncateStr _ _
  agent := fits_truncateStr _ _
  status := fits_truncateStr _ _
  worktreeId := h
  branch := fitsOpt_map_truncateStr _ _
  baseCommit := fitsOpt_map_truncateStr _ _
  resultCommit := fitsOpt_map_truncateStr _ _
  validationSummary := fitsOpt_map_truncateStr _ _
  groupId := fitsOpt_map_truncateStr _ _
  terminalSummary := fitsOpt_map_truncateStr _ _
  controlStatus := fits_truncateStr _ _
  progress := fitsOpt_map_truncateStr _ _
  failureClass := fitsOpt_map_truncateStr _ _
  transcript t ht := by
    have hkept : r.transcript.filter AgentRunTranscriptProjection.isWithinBounds = some t := ht
    rw [Option.filter_eq_some_iff] at hkept
    exact hkept.2

structure WorktreeSummaryProjection.Bounded (w : WorktreeSummaryProjection) : Prop where
  worktreeId : Text w.worktreeId
  ownerRunId : TextOpt w.ownerRunId
  branch : TextOpt w.branch
  baseCommit : TextOpt w.baseCommit
  state : Text w.state
  health : Text w.health

theorem WorktreeSummaryProjection.bounded_normalise (w : WorktreeSummaryProjection) :
    w.normalise.Bounded :=
  ⟨fits_truncateStr _ _, fitsOpt_map_truncateStr _ _, fitsOpt_map_truncateStr _ _,
    fitsOpt_map_truncateStr _ _, fits_truncateStr _ _, fits_truncateStr _ _⟩

structure WorkstreamClaimProjection.Bounded (c : WorkstreamClaimProjection) : Prop where
  claimId : Text c.claimId
  projectId : Text c.projectId
  workspaceId : Text c.workspaceId
  groupId : Text c.groupId
  kind : Text c.kind
  target : Text c.target
  state : Text c.state
  ownerKind : Text c.ownerKind
  ownerId : Text c.ownerId

structure WorkstreamDependencyProjection.Bounded (d : WorkstreamDependencyProjection) : Prop where
  claimId : Text d.claimId
  prerequisiteKind : Text d.prerequisiteKind
  prerequisiteId : Text d.prerequisiteId

/-- The workstream claims and dependencies of a group; there is no cap for them. -/
structure AgentRunGroupSummaryProjection.ClaimsFit (g : AgentRunGroupSummaryProjection) :
    Prop where
  workstreamClaims : ∀ c ∈ g.workstreamClaims, c.Bounded
  workstreamDependencies : ∀ d ∈ g.workstreamDependencies, d.Bounded

structure AgentRunGroupSummaryProjection.Bounded (g : AgentRunGroupSummaryProjection) : Prop
    extends g.ClaimsFit where
  groupId : Text g.groupId
  ownerRunId : Text g.ownerRunId
  ownerKind : Text g.ownerKind
  ownerSessionId : TextOpt g.ownerSessionId
  ownerTurnId : TextOpt g.ownerTurnId
  status : Text g.status
  joinPolicy : Text g.joinPolicy
  memberRunIds : Within maxProjectionAgentRuns Text g.memberRunIds
  winnerRunId : TextOpt g.winnerRunId

/-- A list of identifiers that is cut to a cap and whose elements are cut. -/
theorem within_take_map_truncateStr (cap : ℕ) (l : List String) :
    Within cap Text ((l.take cap).map (truncateStr · maxProjectionStringBytes)) where
  length_le := by simp
  all x hx := by
    obtain ⟨y, -, rfl⟩ := List.mem_map.mp hx
    exact fits_truncateStr _ _

theorem AgentRunGroupSummaryProjection.bounded_normalise {g : AgentRunGroupSummaryProjection}
    (h : g.ClaimsFit) : g.normalise.Bounded where
  workstreamClaims := h.workstreamClaims
  workstreamDependencies := h.workstreamDependencies
  groupId := fits_truncateStr _ _
  ownerRunId := fits_truncateStr _ _
  ownerKind := fits_truncateStr _ _
  ownerSessionId := fitsOpt_map_truncateStr _ _
  ownerTurnId := fitsOpt_map_truncateStr _ _
  status := fits_truncateStr _ _
  joinPolicy := fits_truncateStr _ _
  memberRunIds := within_take_map_truncateStr _ _
  winnerRunId := fitsOpt_map_truncateStr _ _

structure ConvergenceSummaryProjection.Bounded (c : ConvergenceSummaryProjection) : Prop where
  convergenceId : Text c.convergenceId
  ownerSummary : Text c.ownerSummary
  status : Text c.status
  producerRunIds : Within maxProjectionAgentRuns Text c.producerRunIds
  verifierRunId : TextOpt c.verifierRunId
  verdictKind : TextOpt c.verdictKind
  verdictSummary : SummaryOpt c.verdictSummary
  terminalReasonClass : TextOpt c.terminalReasonClass
  selectedRunId : TextOpt c.selectedRunId
  selectedResultCommit : TextOpt c.selectedResultCommit

theorem ConvergenceSummaryProjection.bounded_normalise (c : ConvergenceSummaryProjection) :
    c.normalise.Bounded where
  convergenceId := fits_truncateStr _ _
  ownerSummary := fits_truncateStr _ _
  status := fits_truncateStr _ _
  producerRunIds := within_take_map_truncateStr _ _
  verifierRunId := fitsOpt_map_truncateStr _ _
  verdictKind := fitsOpt_map_truncateStr _ _
  verdictSummary := fitsOpt_map_truncateStr _ _
  terminalReasonClass := fitsOpt_map_truncateStr _ _
  selectedRunId := fitsOpt_map_truncateStr _ _
  selectedResultCommit := fitsOpt_map_truncateStr _ _

/-!
## Runs, jobs and programs
-/

structure RunProjection.Bounded (r : RunProjection) : Prop where
  runId : Text r.runId
  kind : Text r.kind
  command : Text r.command
  status : Text r.status
  summary : Summary r.summary
  jobId : TextOpt r.jobId
  logDir : TextOpt r.logDir

theorem RunProjection.bounded_normalise {r : RunProjection} (hrun : Text r.runId)
    (hjob : TextOpt r.jobId) : r.normalise.Bounded :=
  ⟨hrun, fits_truncateStr _ _, fits_truncateStr _ _, fits_truncateStr _ _, fits_truncateStr _ _,
    hjob, fitsOpt_map_truncateStr _ _⟩

structure ShellRunProjection.Bounded (r : ShellRunProjection) : Prop where
  runId : Text r.runId
  command : Text r.command
  cwd : Text r.cwd
  origin : Text r.origin
  status : Text r.status

theorem ShellRunProjection.bounded_normalise {r : ShellRunProjection} (h : Text r.runId) :
    r.normalise.Bounded :=
  ⟨h, fits_truncateStr _ _, fits_truncateStr _ _, fits_truncateStr _ _, fits_truncateStr _ _⟩

structure ToolContractProjection.Bounded (c : ToolContractProjection) : Prop where
  name : Text c.name
  callerPolicy : Text c.callerPolicy
  effectClass : Text c.effectClass
  idempotency : Text c.idempotency
  implementationId : Text c.implementationId

theorem ToolContractProjection.bounded_normalise (c : ToolContractProjection) :
    c.normalise.Bounded :=
  ⟨fits_truncateStr _ _, fits_truncateStr _ _, fits_truncateStr _ _, fits_truncateStr _ _,
    fits_truncateStr _ _⟩

structure PluginCatalogueEntryProjection.Bounded (e : PluginCatalogueEntryProjection) : Prop where
  pluginId : Text e.pluginId
  name : Text e.name
  version : Text e.version
  trust : Text e.trust
  runtimeKind : Text e.runtimeKind
  sourcePath : TextOpt e.sourcePath

theorem PluginCatalogueEntryProjection.bounded_normalise (e : PluginCatalogueEntryProjection) :
    e.normalise.Bounded :=
  ⟨fits_truncateStr _ _, fits_truncateStr _ _, fits_truncateStr _ _, fits_truncateStr _ _,
    fits_truncateStr _ _, fitsOpt_map_truncateStr _ _⟩

structure WorkPlanItemProjection.Bounded (i : WorkPlanItemProjection) : Prop where
  itemId : Text i.itemId
  description : Text i.description
  status : Text i.status
  blocker : TextOpt i.blocker
  nextAction : TextOpt i.nextAction

/-- The texts of a plan and of the items that are kept; nothing cuts them. -/
structure WorkPlanProjection.TextsFit (w : WorkPlanProjection) : Prop where
  planId : Text w.planId
  status : Text w.status
  objectivePreview : Text w.objectivePreview
  currentPhase : TextOpt w.currentPhase
  currentItemId : TextOpt w.currentItemId
  assessment : Text w.assessment
  items : ∀ i ∈ w.items.take maxProjectionWorkPlanItems, i.Bounded

structure WorkPlanProjection.Bounded (w : WorkPlanProjection) : Prop where
  planId : Text w.planId
  status : Text w.status
  objectivePreview : Text w.objectivePreview
  currentPhase : TextOpt w.currentPhase
  currentItemId : TextOpt w.currentItemId
  assessment : Text w.assessment
  items : Within maxProjectionWorkPlanItems WorkPlanItemProjection.Bounded w.items

structure TestStateProjection.Bounded (t : TestStateProjection) : Prop where
  status : Text t.status
  command : Text t.command
  summary : TextOpt t.summary

structure JobProjection.Bounded (j : JobProjection) : Prop where
  jobId : Text j.jobId
  workspaceId : Text j.workspaceId
  kind : Text j.kind
  state : Text j.state
  summary : Summary j.summary
  sessionId : TextOpt j.sessionId
  turnId : TextOpt j.turnId
  activeAttemptId : TextOpt j.activeAttemptId
  errorClass : TextOpt j.errorClass

structure JobProjection.IdsFit (j : JobProjection) : Prop where
  jobId : Text j.jobId
  workspaceId : Text j.workspaceId
  sessionId : TextOpt j.sessionId
  turnId : TextOpt j.turnId
  activeAttemptId : TextOpt j.activeAttemptId

theorem JobProjection.bounded_normalise {j : JobProjection} (h : j.IdsFit) :
    j.normalise.Bounded where
  jobId := h.jobId
  workspaceId := h.workspaceId
  kind := fits_truncateStr _ _
  state := fits_truncateStr _ _
  summary := fits_truncateStr _ _
  sessionId := h.sessionId
  turnId := h.turnId
  activeAttemptId := h.activeAttemptId
  errorClass := fitsOpt_map_truncateStr _ _

structure ToolProgramSummary.Bounded (p : ToolProgramSummary) : Prop where
  programId : Text p.programId
  jobId : Text p.jobId
  state : Text p.state
  phase : TextOpt p.phase
  language : Text p.language
  parentTurnId : TextOpt p.parentTurnId
  parentAgentId : TextOpt p.parentAgentId
  failureClass : TextOpt p.failureClass
  terminalHandle : TextOpt p.terminalHandle
  lastProgress : TextOpt p.lastProgress

structure ToolProgramSummary.IdsFit (p : ToolProgramSummary) : Prop where
  programId : Text p.programId
  jobId : Text p.jobId
  parentTurnId : TextOpt p.parentTurnId
  parentAgentId : TextOpt p.parentAgentId

theorem ToolProgramSummary.bounded_normalise {p : ToolProgramSummary} (h : p.IdsFit) :
    p.normalise.Bounded where
  programId := h.programId
  jobId := h.jobId
  state := fits_truncateStr _ _
  phase := fitsOpt_map_truncateStr _ _
  language := fits_truncateStr _ _
  parentTurnId := h.parentTurnId
  parentAgentId := h.parentAgentId
  failureClass := fitsOpt_map_truncateStr _ _
  terminalHandle := fitsOpt_map_truncateStr _ _
  lastProgress := fitsOpt_map_truncateStr _ _

theorem ToolProgramSummary.Bounded.idsFit {p : ToolProgramSummary} (h : p.Bounded) : p.IdsFit :=
  ⟨h.programId, h.jobId, h.parentTurnId, h.parentAgentId⟩

end Codegg.Projection
