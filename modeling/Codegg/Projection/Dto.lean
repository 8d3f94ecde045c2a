import Codegg.Projection.Limits

/-!
# Projection records

The bounded records a session snapshot is made of. `normalise` is the pass each record's
own module applies to a freshly received value: it cuts texts to their limits. Identifiers
and some other texts are left as they come.

Timestamps are integers, counters and sequence numbers naturals.
-/
namespace Codegg.Projection

/-- Who may see a record; `pub` is the class `Public`. -/
inductive VisibilityClass
  | pub
  | clientLocal
  | internal
  | sensitive
  deriving DecidableEq

structure WorkspaceHealthProjection where
  overall : String := ""
  catalogState : String := ""
  workspaceState : String := ""
  assetsState : String := ""
  servicesState : String := ""
  diagnostics : List String := []

structure WorkspaceSummaryProjection where
  workspaceId : String
  canonicalRoot : String
  displayName : String
  createdAt : ℤ
  lastOpenedAt : ℤ
  archivedAt : Option ℤ
  activeSessions : ℕ
  servicesActive : Bool
  activeLeases : ℕ
  configRevision : ℕ
  health : WorkspaceHealthProjection

structure SessionSummaryProjection where
  sessionId : String
  projectId : String
  workspaceId : String
  title : String
  status : String
  selectedModel : Option String
  selectedAgent : Option String
  hasActiveTurn : Bool
  pendingPermissionCount : ℕ
  pendingQuestionCount : ℕ
  inputTokens : Option ℕ
  outputTokens : Option ℕ
  activeSubagents : ℕ
  timeCreatedAt : Option ℤ
  timeUpdatedAt : Option ℤ
  recentSummary : Option String

def SessionSummaryProjection.normalise (s : SessionSummaryProjection) : SessionSummaryProjection :=
  { s with
    title := truncateStr s.title maxProjectionStringBytes
    status := truncateStr s.status maxProjectionStringBytes
    selectedModel := s.selectedModel.map (truncateStr · maxProjectionStringBytes)
    selectedAgent := s.selectedAgent.map (truncateStr · maxProjectionStringBytes)
    recentSummary := s.recentSummary.map (truncateStr · maxProjectionRunSummaryBytes) }

inductive TurnStatus
  | starting
  | active
  | awaitingPermission
  | awaitingQuestion
  | completing
  | completed
  | failed
  | cancelled
  deriving DecidableEq

inductive MessageRole
  | user
  | assistant
  | tool
  | system
  | reasoning
  deriving DecidableEq

structure MessageProjection where
  messageId : String
  parentTurnId : String
  role : MessageRole
  text : String
  toolCallId : Option String
  visibility : VisibilityClass
  createdAt : ℤ
  truncated : Bool

def MessageProjection.normalise (m : MessageProjection) : MessageProjection :=
  let bounded := truncateStr m.text maxProjectionStringBytes
  if bounded.utf8ByteSize < m.text.utf8ByteSize then { m with text := bounded, truncated := true }
  else m

inductive ToolStatus
  | started
  | completed
  | failed
  | cancelled
  deriving DecidableEq

inductive ToolArgumentProjection
  | inline (arguments : String)
  | summary (summary : String)
  | truncatedArguments (originalBytes : ℕ) (preview : String)
  | handle (handle : String) (byteLength : ℕ)

inductive ToolOutputProjection
  | pending
  | inline (output : String)
  | summary (summary : String)
  | truncatedOutput (originalBytes : ℕ) (preview : String)
  | handle (handle : String) (byteLength : ℕ)

structure ToolProjection where
  toolId : String
  toolName : String
  status : ToolStatus
  arguments : ToolArgumentProjection
  output : ToolOutputProjection
  visibility : VisibilityClass
  startedAt : Option ℤ
  completedAt : Option ℤ
  durationMs : Option ℕ

/-- An inline text is replaced when the truncated one is shorter. -/
def boundInline (text : String) : String :=
  let bounded := truncateStr text maxProjectionStringBytes
  if bounded.utf8ByteSize < text.utf8ByteSize then bounded else text

def ToolArgumentProjection.normalise : ToolArgumentProjection → ToolArgumentProjection
  | .inline arguments => .inline (boundInline arguments)
  | .summary text => .summary (truncateStr text maxProjectionStringBytes)
  | .truncatedArguments bytes preview => .truncatedArguments bytes preview
  | .handle id byteLength => .handle id byteLength

def ToolOutputProjection.normalise : ToolOutputProjection → ToolOutputProjection
  | .pending => .pending
  | .inline output => .inline (boundInline output)
  | .summary text => .summary (truncateStr text maxProjectionStringBytes)
  | .truncatedOutput bytes preview => .truncatedOutput bytes preview
  | .handle id byteLength => .handle id byteLength

def ToolProjection.normalise (t : ToolProjection) : ToolProjection :=
  { t with
    toolName := truncateStr t.toolName maxProjectionStringBytes
    arguments := t.arguments.normalise
    output := t.output.normalise }

inductive PermissionStatus
  | pending
  | allowed
  | denied
  deriving DecidableEq

structure PermissionProjection where
  permissionId : String
  tool : String
  path : Option String
  status : PermissionStatus
  createdAt : ℤ
  resolvedAt : Option ℤ

def PermissionProjection.normalise (p : PermissionProjection) : PermissionProjection :=
  { p with
    tool := truncateStr p.tool maxProjectionStringBytes
    path := p.path.map (truncateStr · maxProjectionStringBytes) }

structure QuestionProjection where
  questionId : String
  header : Option String
  prompt : String
  status : PermissionStatus
  createdAt : ℤ
  resolvedAt : Option ℤ

def QuestionProjection.normalise (q : QuestionProjection) : QuestionProjection :=
  { q with
    prompt := truncateStr q.prompt maxProjectionStringBytes
    header := q.header.map (truncateStr · maxProjectionStringBytes) }

inductive AgentTreeStatus
  | running
  | completed
  | failed
  deriving DecidableEq

structure AgentTreeNodeProjection where
  childInstanceId : String
  originatingTurnId : Option String
  taskId : ℕ
  agent : String
  description : String
  status : AgentTreeStatus
  parentTaskId : Option ℕ
  createdAt : ℤ
  completedAt : Option ℤ
  resultSummary : Option String
  displayName : Option String
  profile : Option String
  usefulness : Option String
  runId : Option String

def AgentTreeNodeProjection.normalise (n : AgentTreeNodeProjection) : AgentTreeNodeProjection :=
  { n with
    childInstanceId := truncateStr n.childInstanceId maxProjectionStringBytes
    originatingTurnId := n.originatingTurnId.map (truncateStr · maxProjectionStringBytes)
    agent := truncateStr n.agent maxProjectionStringBytes
    description := truncateStr n.description maxProjectionStringBytes
    resultSummary := n.resultSummary.map (truncateStr · maxProjectionRunSummaryBytes)
    displayName := n.displayName.map (truncateStr · maxProjectionDisplayNameBytes)
    profile := n.profile.map (truncateStr · maxProjectionDescriptorBytes)
    usefulness := n.usefulness.map (truncateStr · maxProjectionDescriptorBytes)
    runId := n.runId.map (truncateStr · maxProjectionStringBytes) }

structure TurnProjection where
  turnId : String
  status : TurnStatus
  startedAt : ℤ
  updatedAt : ℤ
  stopReason : Option String
  error : Option String
  messages : List MessageProjection
  tools : List ToolProjection
  pendingPermissions : List PermissionProjection
  pendingQuestions : List QuestionProjection
  agentTree : List AgentTreeNodeProjection
  subagentCount : ℕ
  inputTokens : Option ℕ
  outputTokens : Option ℕ
  cachedTokens : Option ℕ
  reasoningTokens : Option ℕ
  contextLimit : Option ℕ

/-- The pass over a whole turn. It leaves the agent tree alone and cuts no collection. -/
def TurnProjection.normalise (t : TurnProjection) : TurnProjection :=
  { t with
    stopReason := t.stopReason.map (truncateStr · maxProjectionStringBytes)
    error := t.error.map (truncateStr · maxProjectionStringBytes)
    messages := t.messages.map MessageProjection.normalise
    tools := t.tools.map ToolProjection.normalise
    pendingPermissions := t.pendingPermissions.map PermissionProjection.normalise
    pendingQuestions := t.pendingQuestions.map QuestionProjection.normalise }

inductive AgentRunTranscriptRole
  | orchestrator
  | internal

inductive AgentRunTranscriptKind
  | modelMessage
  | toolCall
  | toolResult
  | terminalNote

structure AgentRunTranscriptEntryProjection where
  ordinal : ℤ
  role : AgentRunTranscriptRole
  kind : AgentRunTranscriptKind
  body : String
  byteLen : ℤ
  createdAt : ℤ

structure AgentRunTranscriptTruncation where
  nextOrdinal : ℤ
  omittedEntries : ℤ
  recordingStopped : Bool

inductive AgentRunTranscriptProjection
  | absent
  | complete (entries : List AgentRunTranscriptEntryProjection)
  | truncated (entries : List AgentRunTranscriptEntryProjection)
      (truncation : AgentRunTranscriptTruncation)

namespace AgentRunTranscriptProjection

def entries : AgentRunTranscriptProjection → List AgentRunTranscriptEntryProjection
  | absent => []
  | complete entries => entries
  | truncated entries _ => entries

def bodyBytes (t : AgentRunTranscriptProjection) : ℕ :=
  (t.entries.map fun entry => entry.body.utf8ByteSize).sum

def isWithinBounds (t : AgentRunTranscriptProjection) : Bool :=
  t.bodyBytes ≤ maxProjectionTranscriptBytes ∧ t.entries.length ≤ maxProjectionTranscriptRows

end AgentRunTranscriptProjection

structure AgentRunTranscriptWatermarkProjection where
  runId : String
  ordinal : ℤ
  recordingStopped : Bool

structure AgentRunSummary where
  runId : String := ""
  taskId : String := ""
  projectId : String := ""
  repositoryId : Option String := none
  workspaceId : String := ""
  jobId : Option String := none
  parentRunId : Option String := none
  agent : String := ""
  status : String := ""
  depth : ℕ := 0
  worktreeId : Option String := none
  readOnlyWorktree : Bool := false
  branch : Option String := none
  baseCommit : Option String := none
  resultCommit : Option String := none
  validationSummary : Option String := none
  groupId : Option String := none
  attentionRequired : Bool := false
  terminalSummary : Option String := none
  controlStatus : String := ""
  progress : Option String := none
  failureClass : Option String := none
  updatedAt : ℤ := 0
  transcript : Option AgentRunTranscriptProjection := none

/-- A transcript over its bound is dropped, not shortened; the worktree id is left alone. -/
def AgentRunSummary.normalise (r : AgentRunSummary) : AgentRunSummary :=
  { r with
    runId := truncateStr r.runId maxProjectionStringBytes
    taskId := truncateStr r.taskId maxProjectionStringBytes
    projectId := truncateStr r.projectId maxProjectionStringBytes
    repositoryId := r.repositoryId.map (truncateStr · maxProjectionStringBytes)
    workspaceId := truncateStr r.workspaceId maxProjectionStringBytes
    jobId := r.jobId.map (truncateStr · maxProjectionStringBytes)
    parentRunId := r.parentRunId.map (truncateStr · maxProjectionStringBytes)
    agent := truncateStr r.agent maxProjectionStringBytes
    status := truncateStr r.status maxProjectionStringBytes
    branch := r.branch.map (truncateStr · maxProjectionStringBytes)
    baseCommit := r.baseCommit.map (truncateStr · maxProjectionStringBytes)
    resultCommit := r.resultCommit.map (truncateStr · maxProjectionStringBytes)
    validationSummary := r.validationSummary.map (truncateStr · maxProjectionRunSummaryBytes)
    groupId := r.groupId.map (truncateStr · maxProjectionStringBytes)
    terminalSummary := r.terminalSummary.map (truncateStr · maxProjectionRunSummaryBytes)
    controlStatus := truncateStr r.controlStatus maxProjectionStringBytes
    progress := r.progress.map (truncateStr · maxProjectionRunSummaryBytes)
    failureClass := r.failureClass.map (truncateStr · maxProjectionStringBytes)
    transcript := r.transcript.filter AgentRunTranscriptProjection.isWithinBounds }

structure WorktreeSummaryProjection where
  worktreeId : String
  ownerRunId : Option String
  branch : Option String
  baseCommit : Option String
  state : String
  health : String
  dirty : Bool
  conflicted : Bool
  retainedForAttention : Bool
  updatedAt : ℤ

def WorktreeSummaryProjection.normalise (w : WorktreeSummaryProjection) :
    WorktreeSummaryProjection :=
  { w with
    worktreeId := truncateStr w.worktreeId maxProjectionStringBytes
    ownerRunId := w.ownerRunId.map (truncateStr · maxProjectionStringBytes)
    branch := w.branch.map (truncateStr · maxProjectionStringBytes)
    baseCommit := w.baseCommit.map (truncateStr · maxProjectionStringBytes)
    state := truncateStr w.state maxProjectionStringBytes
    health := truncateStr w.health maxProjectionStringBytes }

structure WorkstreamClaimProjection where
  claimId : String
  projectId : String
  workspaceId : String
  groupId : String
  kind : String
  target : String
  state : String
  ownerKind : String
  ownerId : String
  version : ℕ
  leaseGeneration : ℕ
  leaseExpiresAt : Option ℤ
  updatedAt : ℤ

structure WorkstreamDependencyProjection where
  claimId : String
  prerequisiteKind : String
  prerequisiteId : String
  createdAt : ℤ

structure AgentRunGroupSummaryProjection where
  groupId : String
  ownerRunId : String
  ownerKind : String
  ownerSessionId : Option String
  ownerTurnId : Option String
  status : String
  joinPolicy : String
  memberRunIds : List String
  successful : ℕ
  failed : ℕ
  active : ℕ
  winnerRunId : Option String
  cancelRemainingOnSatisfaction : Bool
  updatedAt : ℤ
  workstreamClaims : List WorkstreamClaimProjection
  workstreamDependencies : List WorkstreamDependencyProjection
  workstreamClaimsUpdatedAt : Option ℤ

/-- The workstream claims and dependencies are left as they come. -/
def AgentRunGroupSummaryProjection.normalise (g : AgentRunGroupSummaryProjection) :
    AgentRunGroupSummaryProjection :=
  { g with
    groupId := truncateStr g.groupId maxProjectionStringBytes
    ownerRunId := truncateStr g.ownerRunId maxProjectionStringBytes
    ownerKind := truncateStr g.ownerKind maxProjectionStringBytes
    ownerSessionId := g.ownerSessionId.map (truncateStr · maxProjectionStringBytes)
    ownerTurnId := g.ownerTurnId.map (truncateStr · maxProjectionStringBytes)
    status := truncateStr g.status maxProjectionStringBytes
    joinPolicy := truncateStr g.joinPolicy maxProjectionStringBytes
    memberRunIds := (g.memberRunIds.take maxProjectionAgentRuns).map
      (truncateStr · maxProjectionStringBytes)
    winnerRunId := g.winnerRunId.map (truncateStr · maxProjectionStringBytes) }

structure ConvergenceSummaryProjection where
  convergenceId : String
  ownerSummary : String
  status : String
  cycleOrdinal : ℕ
  maxCycles : ℕ
  remainingCycles : ℕ
  producerRunIds : List String
  producerCompleted : ℕ
  producerFailed : ℕ
  producerCancelled : ℕ
  producerActive : ℕ
  verifierRunId : Option String
  verdictKind : Option String
  verdictSummary : Option String
  awaitingDecision : Bool
  terminalReasonClass : Option String
  selectedRunId : Option String
  selectedResultCommit : Option String
  lastFindingCount : ℕ

def ConvergenceSummaryProjection.normalise (c : ConvergenceSummaryProjection) :
    ConvergenceSummaryProjection :=
  { c with
    convergenceId := truncateStr c.convergenceId maxProjectionStringBytes
    ownerSummary := truncateStr c.ownerSummary maxProjectionStringBytes
    status := truncateStr c.status maxProjectionStringBytes
    producerRunIds := (c.producerRunIds.take maxProjectionAgentRuns).map
      (truncateStr · maxProjectionStringBytes)
    verifierRunId := c.verifierRunId.map (truncateStr · maxProjectionStringBytes)
    verdictKind := c.verdictKind.map (truncateStr · maxProjectionStringBytes)
    verdictSummary := c.verdictSummary.map (truncateStr · maxProjectionRunSummaryBytes)
    terminalReasonClass := c.terminalReasonClass.map (truncateStr · maxProjectionStringBytes)
    selectedRunId := c.selectedRunId.map (truncateStr · maxProjectionStringBytes)
    selectedResultCommit := c.selectedResultCommit.map (truncateStr · maxProjectionStringBytes) }

structure RunProjection where
  runId : String
  kind : String
  command : String
  status : String
  summary : String
  jobId : Option String
  logDir : Option String
  startedAt : ℤ
  completedAt : Option ℤ
  artifactCount : ℕ
  pinned : Bool

def RunProjection.normalise (r : RunProjection) : RunProjection :=
  { r with
    kind := truncateStr r.kind maxProjectionStringBytes
    command := truncateStr r.command maxProjectionStringBytes
    status := truncateStr r.status maxProjectionStringBytes
    summary := truncateStr r.summary maxProjectionRunSummaryBytes
    logDir := r.logDir.map (truncateStr · maxProjectionStringBytes) }

structure ShellRunProjection where
  runId : String
  command : String
  cwd : String
  origin : String
  status : String
  startedAtMs : Option ℤ
  completedAtMs : Option ℤ
  exitCode : Option ℤ

def ShellRunProjection.normalise (r : ShellRunProjection) : ShellRunProjection :=
  { r with
    command := truncateStr r.command maxProjectionStringBytes
    cwd := truncateStr r.cwd maxProjectionStringBytes
    origin := truncateStr r.origin maxProjectionStringBytes
    status := truncateStr r.status maxProjectionStringBytes }

structure ToolContractProjection where
  name : String
  callerPolicy : String
  effectClass : String
  idempotency : String
  implementationId : String

def ToolContractProjection.normalise (c : ToolContractProjection) : ToolContractProjection where
  name := truncateStr c.name maxProjectionStringBytes
  callerPolicy := truncateStr c.callerPolicy maxProjectionStringBytes
  effectClass := truncateStr c.effectClass maxProjectionStringBytes
  idempotency := truncateStr c.idempotency maxProjectionStringBytes
  implementationId := truncateStr c.implementationId maxProjectionStringBytes

structure PluginCatalogueEntryProjection where
  pluginId : String
  name : String
  version : String
  enabled : Bool
  trust : String
  runtimeKind : String
  commandCount : ℕ
  hookCount : ℕ
  diagnosticCount : ℕ
  hasError : Bool
  sourcePath : Option String

def PluginCatalogueEntryProjection.normalise (e : PluginCatalogueEntryProjection) :
    PluginCatalogueEntryProjection :=
  { e with
    pluginId := truncateStr e.pluginId maxProjectionStringBytes
    name := truncateStr e.name maxProjectionStringBytes
    version := truncateStr e.version maxProjectionStringBytes
    trust := truncateStr e.trust maxProjectionStringBytes
    runtimeKind := truncateStr e.runtimeKind maxProjectionStringBytes
    sourcePath := e.sourcePath.map (truncateStr · maxProjectionStringBytes) }

structure WorkPlanItemProjection where
  itemId : String
  description : String
  status : String
  blocker : Option String
  nextAction : Option String

structure WorkPlanProjection where
  planId : String
  revision : ℤ
  status : String
  objectivePreview : String
  currentPhase : Option String
  currentItemId : Option String
  totalItems : ℕ
  actionableCount : ℕ
  blockedCount : ℕ
  inProgressCount : ℕ
  assessment : String
  updatedAtMs : ℤ
  items : List WorkPlanItemProjection

structure TestStateProjection where
  status : String
  command : String
  summary : Option String

structure JobProjection where
  jobId : String
  workspaceId : String
  kind : String
  state : String
  summary : String
  sessionId : Option String
  turnId : Option String
  activeAttemptId : Option String
  errorClass : Option String
  updatedAt : ℤ

def JobProjection.normalise (j : JobProjection) : JobProjection :=
  { j with
    kind := truncateStr j.kind maxProjectionStringBytes
    state := truncateStr j.state maxProjectionStringBytes
    summary := truncateStr j.summary maxProjectionRunSummaryBytes
    errorClass := j.errorClass.map (truncateStr · maxProjectionStringBytes) }

structure ArtifactHandleProjection where
  artifactId : String
  kind : String
  byteLength : ℕ
  runId : Option String
  createdAt : ℤ
  preview : Option String

inductive FileChangeProjection
  | created (path : String)
  | modified (path : String)
  | deleted (path : String)
  | renamed (source target : String)

namespace FileChangeProjection

def path : FileChangeProjection → String
  | created path => path
  | modified path => path
  | deleted path => path
  | renamed _ target => target

def normalise : FileChangeProjection → FileChangeProjection
  | created path => created (truncateStr path maxProjectionStringBytes)
  | modified path => modified (truncateStr path maxProjectionStringBytes)
  | deleted path => deleted (truncateStr path maxProjectionStringBytes)
  | renamed source target =>
      renamed (truncateStr source maxProjectionStringBytes)
        (truncateStr target maxProjectionStringBytes)

end FileChangeProjection

structure ToolProgramSummary where
  programId : String
  jobId : String
  state : String
  phase : Option String
  language : String
  parentTurnId : Option String
  parentAgentId : Option String
  callsCompleted : ℕ
  childJobsRunning : ℕ
  submittedAt : ℤ
  startedAt : Option ℤ
  completedAt : Option ℤ
  failureClass : Option String
  terminalHandle : Option String
  lastProgress : Option String

def ToolProgramSummary.normalise (p : ToolProgramSummary) : ToolProgramSummary :=
  { p with
    state := truncateStr p.state maxProjectionStringBytes
    phase := p.phase.map (truncateStr · maxProjectionStringBytes)
    language := truncateStr p.language maxProjectionStringBytes
    failureClass := p.failureClass.map (truncateStr · maxProjectionStringBytes)
    terminalHandle := p.terminalHandle.map (truncateStr · maxProjectionStringBytes)
    lastProgress := p.lastProgress.map (truncateStr · maxProjectionStringBytes) }

end Codegg.Projection
