import Codegg.Projection.Event
import Codegg.Projection.Snapshot

/-!
# The canonical reducer

One input at a time is applied to a snapshot. An input of an unsupported version, of
another session or at or below the snapshot's sequence number is answered before its
payload is looked at. The payload of any other input changes the snapshot variant by
variant; impossible transitions leave a diagnostic. The snapshot advances to the input's
sequence number unless the payload asks for a resync.
-/
namespace Codegg.Projection

open Codegg.Library

def projectionProtocolVersion : ℕ := 1
def projectionProtocolVersionMin : ℕ := 1

inductive ReducerError
  | unsupportedProtocolVersion (envelopeVersion supportedMin supportedMax : ℕ)
  | sequenceRegression (envelopeSeq snapshotSeq : ℕ)
  | scopeMismatch (envelopeSession : Option String) (snapshotSession : String)

inductive ApplyOutcome
  | applied
  | duplicate
  | scopeMismatch
  | reconciled
  | resyncRequired (fromEventSeq currentSeq : UInt64)
  | error (err : ReducerError)

structure ReducerEventInput where
  protocolVersion : ℕ
  eventSeq : ℕ
  timestampMs : ℤ
  sessionId : Option String
  turnId : Option String
  payload : ProjectionEvent

def ProjectionEnvelope.toInput (env : ProjectionEnvelope) : ReducerEventInput where
  protocolVersion := env.protocolVersion
  eventSeq := env.eventSeq
  timestampMs := env.timestampMs
  sessionId := env.sessionId
  turnId := env.turnId
  payload := env.payload

structure ReducerConfig where
  minVersion : ℕ := projectionProtocolVersionMin
  maxVersion : ℕ := projectionProtocolVersion
  allowReplays : Bool := false
  allowMultiSession : Bool := false

/-- The outcome of an input and the snapshot after it. -/
abbrev Reduction := ApplyOutcome × SessionProjectionSnapshot

/-- The snapshot moves to the input's sequence number. -/
def ApplyOutcome.advances : ApplyOutcome → Bool
  | .applied => true
  | .reconciled => true
  | _ => false

namespace ProjectionReducer

variable (s : SessionProjectionSnapshot) (input : ReducerEventInput)

def recordDiagnostic (code message : String) : Reduction :=
  (.reconciled, s.pushDiagnostic {
    code := code
    message := message
    atMs := input.timestampMs
    sessionId := input.sessionId
    turnId := input.turnId })

/-- Continue with the active turn, or record that there is none. -/
def onActiveTurn (code message : String) (f : TurnProjection → Reduction) : Reduction :=
  match s.activeTurn with
  | none => recordDiagnostic s input code message
  | some turn => f turn

def touchSession (time : ℤ) : SessionProjectionSnapshot :=
  { s with primarySession := { s.primarySession with timeUpdatedAt := some time } }

def sessionActivated (summary : SessionSummaryProjection) : Reduction :=
  let summary := summary.normalise
  if summary.sessionId = s.primarySessionId then (.applied, { s with primarySession := summary })
  else (.applied, s.upsertSecondary summary)

def turnStarted (turn : TurnProjection) : Reduction :=
  let s := match s.activeTurn with
    | some prev => s.pushRecentTurn prev
    | none => s
  (.applied, { s with
    primarySession := { s.primarySession with
      hasActiveTurn := true
      timeUpdatedAt := some input.timestampMs }
    activeTurn := some turn.normalise })

def messageAppended (message : MessageProjection) : Reduction :=
  onActiveTurn s input "orphan_message" "MessageAppended without an active turn" fun turn =>
    (.applied, { s with
      activeTurn := some { turn with
        messages := pushBounded maxProjectionMessages turn.messages message.normalise } })

/-- The delta is appended to the message without looking at the message's own length. -/
def reasoningAppended (messageId delta : String) : Reduction :=
  onActiveTurn s input "orphan_reasoning" "ReasoningAppended without an active turn" fun turn =>
    let bounded := truncateStr delta maxProjectionStringBytes
    match updateFirst (fun m => m.messageId == messageId)
        (fun m => { m with text := m.text ++ bounded, visibility := .internal }) turn.messages with
    | some messages => (.applied, { s with activeTurn := some { turn with messages := messages } })
    | none =>
      let message : MessageProjection := {
        messageId := messageId
        parentTurnId := turn.turnId
        role := .reasoning
        text := bounded
        toolCallId := none
        visibility := .internal
        createdAt := input.timestampMs
        truncated := false }
      (.applied, { s with
        activeTurn := some { turn with
          messages := pushBounded maxProjectionMessages turn.messages message.normalise } })

def toolStarted (tool : ToolProjection) : Reduction :=
  onActiveTurn s input "orphan_tool_started" "ToolStarted without an active turn" fun turn =>
    (.applied, { s with
      activeTurn := some { turn with
        tools := pushBounded maxProjectionRecentTools turn.tools tool.normalise } })

/-- A tool known only from its result. -/
def reconciledTool (toolId : String) (status : ToolStatus) (output : ToolOutputProjection)
    (completedAt : ℤ) (durationMs : Option ℕ) : ToolProjection :=
  { toolId := toolId
    toolName := ""
    status := status
    arguments := .summary ""
    output := output
    visibility := .pub
    startedAt := none
    completedAt := some completedAt
    durationMs := durationMs : ToolProjection }.normalise

/-- Only inline output is cut when a tool completes. -/
def boundOutput : ToolOutputProjection → ToolOutputProjection
  | .inline text => .inline (boundInline text)
  | output => output

def completedTool (output : ToolOutputProjection) (success : Bool) (durationMs : ℕ)
    (completedAt : ℤ) (slot : ToolProjection) : ToolProjection :=
  { slot with
    status := if success then .completed else .failed
    output := boundOutput output
    completedAt := some completedAt
    durationMs := some durationMs }

def toolCompleted (toolId : String) (output : ToolOutputProjection) (success : Bool)
    (durationMs : ℕ) (completedAt : ℤ) : Reduction :=
  onActiveTurn s input "orphan_tool_completed" "ToolCompleted without an active turn" fun turn =>
    match updateFirst (fun t => t.toolId == toolId)
        (completedTool output success durationMs completedAt) turn.tools with
    | some tools => (.applied, { s with activeTurn := some { turn with tools := tools } })
    | none => (.reconciled, { s with
        activeTurn := some { turn with
          tools := pushBounded maxProjectionRecentTools turn.tools
            (reconciledTool toolId (if success then .completed else .failed) (boundOutput output)
              completedAt (some durationMs)) } })

def failureSummary (error : String) : ToolOutputProjection :=
  .summary ("error: " ++ clipStr error maxProjectionStringBytes)

def failedTool (error : String) (completedAt : ℤ) (slot : ToolProjection) : ToolProjection :=
  { slot with
    status := .failed
    output := failureSummary error
    completedAt := some completedAt }

def toolFailed (toolId error : String) (completedAt : ℤ) : Reduction :=
  onActiveTurn s input "orphan_tool_failed" "ToolFailed without an active turn" fun turn =>
    match updateFirst (fun t => t.toolId == toolId) (failedTool error completedAt) turn.tools with
    | some tools => (.applied, { s with activeTurn := some { turn with tools := tools } })
    | none => (.reconciled, { s with
        activeTurn := some { turn with
          tools := pushBounded maxProjectionRecentTools turn.tools
            (reconciledTool toolId .failed (failureSummary error) completedAt none) } })

/-- The turn with its permissions and the session's count of the pending ones. -/
def setPermissions (turn : TurnProjection) (permissions : List PermissionProjection)
    (status : TurnStatus) : SessionProjectionSnapshot :=
  { s with
    primarySession := { s.primarySession with
      pendingPermissionCount := (permissions.filter fun p => p.status == .pending).length }
    activeTurn := some { turn with pendingPermissions := permissions, status := status } }

def permissionPending (permission : PermissionProjection) : Reduction :=
  onActiveTurn s input "orphan_permission_pending" "PermissionPending without an active turn"
    fun turn => (.applied, setPermissions s turn
      (pushBounded maxProjectionPendingPermissions turn.pendingPermissions permission.normalise)
      .awaitingPermission)

def permissionResolved (permissionId : String) (status : PermissionStatus) (resolvedAt : ℤ) :
    Reduction :=
  onActiveTurn s input "orphan_permission_resolved" "PermissionResolved without an active turn"
    fun turn =>
      let permissions := (updateFirst (fun p => p.permissionId == permissionId)
        (fun p => { p with status := status, resolvedAt := some resolvedAt })
        turn.pendingPermissions).getD turn.pendingPermissions
      (.applied, setPermissions s turn permissions
        (if permissions.all fun p => p.status != .pending then .active else turn.status))

def setQuestions (turn : TurnProjection) (questions : List QuestionProjection)
    (status : TurnStatus) : SessionProjectionSnapshot :=
  { s with
    primarySession := { s.primarySession with
      pendingQuestionCount := (questions.filter fun q => q.status == .pending).length }
    activeTurn := some { turn with pendingQuestions := questions, status := status } }

def questionPending (question : QuestionProjection) : Reduction :=
  onActiveTurn s input "orphan_question_pending" "QuestionPending without an active turn"
    fun turn => (.applied, setQuestions s turn
      (pushBounded maxProjectionPendingQuestions turn.pendingQuestions question.normalise)
      .awaitingQuestion)

def questionResolved (questionId : String) (status : PermissionStatus) (resolvedAt : ℤ) :
    Reduction :=
  onActiveTurn s input "orphan_question_resolved" "QuestionResolved without an active turn"
    fun turn =>
      let questions := (updateFirst (fun q => q.questionId == questionId)
        (fun q => { q with status := status, resolvedAt := some resolvedAt })
        turn.pendingQuestions).getD turn.pendingQuestions
      (.applied, setQuestions s turn questions
        (if questions.all fun q => q.status != .pending then .active else turn.status))

/-- The active turn is over and joins the recent ones. -/
def closeTurn (turn : TurnProjection) (time : ℤ) : SessionProjectionSnapshot :=
  { s with
    primarySession := { s.primarySession with
      hasActiveTurn := false
      timeUpdatedAt := some time }
    activeTurn := none }.pushRecentTurn turn

def turnCompleted (turnId stopReason : String) (completedAt : ℤ)
    (inputTokens outputTokens cachedTokens reasoningTokens contextLimit : Option ℕ) : Reduction :=
  onActiveTurn s input "orphan_turn_completed" "TurnCompleted without an active turn" fun turn =>
    if turn.turnId ≠ turnId then
      recordDiagnostic s input "turn_id_mismatch" "TurnCompleted referenced an unknown turn"
    else
      (.applied, closeTurn s { turn with
        inputTokens := inputTokens.or turn.inputTokens
        outputTokens := outputTokens.or turn.outputTokens
        cachedTokens := cachedTokens.or turn.cachedTokens
        reasoningTokens := reasoningTokens.or turn.reasoningTokens
        contextLimit := contextLimit.or turn.contextLimit
        status := .completed
        stopReason := some (clipStr stopReason maxProjectionStringBytes) } completedAt)

def turnFailed (turnId message : String) (failedAt : ℤ) : Reduction :=
  onActiveTurn s input "orphan_turn_failed" "TurnFailed without an active turn" fun turn =>
    if turn.turnId ≠ turnId then
      recordDiagnostic s input "turn_id_mismatch" "TurnFailed referenced an unknown turn"
    else
      (.applied, closeTurn s { turn with
        status := .failed
        error := some (clipStr message maxProjectionStringBytes) } failedAt)

def countRunningSubagents : SessionProjectionSnapshot :=
  { s with
    primarySession := { s.primarySession with
      activeSubagents := (s.subagents.filter fun n => n.status == .running).length } }

/-- A started child joins the tree of the turn it names, when that turn is active. -/
def attachToTurn (node : AgentTreeNodeProjection) (turn : TurnProjection) : TurnProjection :=
  if node.originatingTurnId = some turn.turnId then
    { turn with
      agentTree := upsert maxProjectionSubagents
        (fun item => item.childInstanceId == node.childInstanceId) (fun _ => node) turn.agentTree
        node }
  else turn

def subagentStarted (node : AgentTreeNodeProjection) : Reduction :=
  let node := node.normalise
  if node.childInstanceId.isEmpty then
    -- recorded before children had an identity: kept in the turn's tree only
    (.applied, { s with
      activeTurn := s.activeTurn.map fun turn => { turn with
        agentTree := pushBounded maxProjectionSubagents turn.agentTree node } })
  else
    match s.upsertSubagent node with
    | none => recordDiagnostic s input "session_subagent_capacity"
        "Session-owned child capacity is full of live instances"
    | some s =>
      (.applied, countRunningSubagents { s with
        activeTurn := s.activeTurn.map (attachToTurn node) })

def subagentProgress (childInstanceId : String) (taskId : ℕ) (message : String) : Reduction :=
  let description := truncateStr message maxProjectionStringBytes
  let updated :=
    if childInstanceId.isEmpty then none
    else updateFirst (fun n => n.childInstanceId == childInstanceId)
      (fun n => if n.status = .running then { n with description := description } else n)
      s.subagents
  match updated with
  | some subagents => (.applied, { s with subagents := subagents })
  | none =>
    match s.activeTurn with
    | some turn =>
      match updateFirst (fun n => n.taskId == taskId && n.childInstanceId.isEmpty)
          (fun n => { n with description := description }) turn.agentTree with
      | some tree => (.applied, { s with activeTurn := some { turn with agentTree := tree } })
      | none => recordDiagnostic s input "unknown_subagent_progress"
          "SubagentProgress referenced an unknown child instance"
    | none => recordDiagnostic s input "orphan_subagent_progress"
        "SubagentProgress without a correlated child instance"

/-- Only a running node takes a result. -/
def setSubagentTerminal (status : AgentTreeStatus) (summary : String) (time : ℤ)
    (node : AgentTreeNodeProjection) : AgentTreeNodeProjection :=
  if node.status = .running then
    { node with
      status := status
      resultSummary := some (truncateStr summary maxProjectionStringBytes)
      completedAt := some time }
  else node

/-- The nodes a terminal event names in a turn's tree. -/
def namesNode (childInstanceId : String) (taskId : ℕ) (node : AgentTreeNodeProjection) : Bool :=
  if childInstanceId.isEmpty then node.childInstanceId.isEmpty && node.taskId == taskId
  else node.childInstanceId == childInstanceId

def updateTree (childInstanceId : String) (taskId : ℕ)
    (f : AgentTreeNodeProjection → AgentTreeNodeProjection) (turn : TurnProjection) :
    Option TurnProjection :=
  (updateFirst (namesNode childInstanceId taskId) f turn.agentTree).map fun tree =>
    { turn with agentTree := tree }

/-- The node is updated among the session's children and in the tree of every turn. -/
def updateSubagentTerminal (childInstanceId : String) (taskId : ℕ)
    (f : AgentTreeNodeProjection → AgentTreeNodeProjection) : Bool × SessionProjectionSnapshot :=
  let subagents :=
    if childInstanceId.isEmpty then none
    else updateFirst (fun n => n.childInstanceId == childInstanceId) f s.subagents
  let update := updateTree childInstanceId taskId f
  (subagents.isSome || s.activeTurn.any (fun t => (update t).isSome) ||
      s.recentTurns.any (fun t => (update t).isSome),
    { s with
      subagents := subagents.getD s.subagents
      activeTurn := s.activeTurn.map fun t => (update t).getD t
      recentTurns := s.recentTurns.map fun t => (update t).getD t })

def subagentTerminal (childInstanceId : String) (taskId : ℕ) (status : AgentTreeStatus)
    (summary : String) (time : ℤ) (code message : String) : Reduction :=
  let r := updateSubagentTerminal s childInstanceId taskId (setSubagentTerminal status summary time)
  if r.1 then (.applied, countRunningSubagents r.2) else recordDiagnostic r.2 input code message

def subagentCompleted (childInstanceId : String) (taskId : ℕ) (resultSummary : String)
    (completedAt : ℤ) : Reduction :=
  subagentTerminal s input childInstanceId taskId .completed resultSummary completedAt
    "unknown_subagent_completed" "SubagentCompleted referenced an unknown child instance"

def subagentFailed (childInstanceId : String) (taskId : ℕ) (error : String) (failedAt : ℤ) :
    Reduction :=
  subagentTerminal s input childInstanceId taskId .failed error failedAt
    "unknown_subagent_failed" "SubagentFailed referenced an unknown child instance"

def liveRunStatuses : List String :=
  ["created", "queued", "preparing", "running", "waiting", "cancelling"]

def countLiveRuns : SessionProjectionSnapshot :=
  { s with
    primarySession := { s.primarySession with
      activeSubagents := (s.agentRuns.filter fun r => liveRunStatuses.contains r.status).length } }

def agentRunUpserted (run : AgentRunSummary) : Reduction :=
  (.applied, countLiveRuns (s.upsertAgentRun run))

def agentRunProgress (runId : String) (status : Option String) (progress : String) (time : ℤ) :
    Reduction :=
  match updateFirst (fun r => r.runId == runId) (fun r => { r with
      status := (status.map (truncateStr · maxProjectionStringBytes)).getD r.status
      progress := some (truncateStr progress maxProjectionStringBytes)
      updatedAt := time }) s.agentRuns with
  | some runs => (.applied, { s with agentRuns := runs })
  | none => recordDiagnostic s input "unknown_agent_run_progress"
      "AgentRunProgress referenced an unknown durable run"

def agentRunTerminal (runId status terminalSummary : String)
    (resultCommit validationSummary : Option String) (attentionRequired : Bool)
    (completedAt : ℤ) : Reduction :=
  let existing := (s.agentRuns.find? fun r => r.runId == runId).getD
    { runId := runId, status := "created" }
  (.applied, countLiveRuns (s.upsertAgentRun { existing with
    status := truncateStr status maxProjectionStringBytes
    terminalSummary := some (truncateStr terminalSummary maxProjectionRunSummaryBytes)
    resultCommit := resultCommit.map (truncateStr · maxProjectionStringBytes)
    validationSummary := validationSummary.map (truncateStr · maxProjectionRunSummaryBytes)
    attentionRequired := attentionRequired
    updatedAt := completedAt }))

def agentRunControlUpdated (runId controlStatus : String) (cancellationRequested : Bool)
    (time : ℤ) : Reduction :=
  match updateFirst (fun r => r.runId == runId) (fun r => { r with
      controlStatus := truncateStr controlStatus maxProjectionStringBytes
      attentionRequired := r.attentionRequired || cancellationRequested
      updatedAt := time }) s.agentRuns with
  | some runs => (.applied, { s with agentRuns := runs })
  | none => recordDiagnostic s input "unknown_agent_run_control"
      "AgentRunControlUpdated referenced an unknown durable run"

/-- The session's recent summary with one line for a changed file. -/
def recentWithFile (recent : String) (change : FileChangeProjection) (time : ℤ) : String :=
  (if recent.isEmpty then recent else recent ++ "\n") ++
    ("file:" ++ change.normalise.path ++ " t=" ++ toString time)

def fileChanged (change : FileChangeProjection) (time : ℤ) : Reduction :=
  (.applied, { s with
    primarySession := { s.primarySession with
      recentSummary := some (truncateStr
        (recentWithFile (s.primarySession.recentSummary.getD "") change time)
        maxProjectionStringBytes) } })

def runStarted (run : RunProjection) : Reduction :=
  (.applied, touchSession (s.pushRun run.normalise) input.timestampMs)

/-- Change the run with an id, or record that it is unknown. -/
def updateRun (runId code message : String) (f : RunProjection → RunProjection) : Reduction :=
  match updateFirst (fun r => r.runId == runId) f s.runs with
  | some runs => (.applied, { s with runs := runs })
  | none => recordDiagnostic s input code message

def runProgress (runId message : String) (time : ℤ) : Reduction :=
  updateRun s input runId "unknown_run_progress" "RunProgress referenced an unknown run" fun r =>
    { r with
      summary := truncateStr message maxProjectionStringBytes
      startedAt := min r.startedAt time }

/-- A full list of runs loses its oldest one before the artifact's run is looked up. -/
def runArtifactCreated (artifact : ArtifactHandleProjection) : Reduction :=
  let runs := if maxProjectionRuns ≤ s.runs.length then s.runs.drop 1 else s.runs
  (.applied, { s with
    runs := (updateFirst
      (fun r => r.runId == artifact.runId.getD "" || artifact.runId.isNone)
      (fun r => { r with artifactCount := min (r.artifactCount + 1) (2 ^ 64 - 1) }) runs).getD
      runs })

def runCompleted (runId status summary : String) (completedAt : ℤ) : Reduction :=
  updateRun s input runId "unknown_run_completed" "RunCompleted referenced an unknown run" fun r =>
    { r with
      status := truncateStr status maxProjectionStringBytes
      summary := truncateStr summary maxProjectionRunSummaryBytes
      completedAt := some completedAt }

def runDenied (runId reason : String) (time : ℤ) : Reduction :=
  updateRun s input runId "unknown_run_denied" "RunDenied referenced an unknown run" fun r =>
    { r with
      status := "denied"
      summary := truncateStr reason maxProjectionStringBytes
      completedAt := some time }

def tokenUsageUpdated (inputTokens outputTokens : Option ℕ) : Reduction :=
  (.applied, { s with
    primarySession := { s.primarySession with
      inputTokens := inputTokens
      outputTokens := outputTokens }
    activeTurn := s.activeTurn.map fun turn => { turn with
      inputTokens := inputTokens
      outputTokens := outputTokens } })

def modelSelected (model : String) : Reduction :=
  (.applied, { s with
    primarySession := { s.primarySession with
      selectedModel := some (truncateStr model maxProjectionStringBytes)
      timeUpdatedAt := some input.timestampMs } })

def agentSelected (agent : String) : Reduction :=
  (.applied, { s with
    primarySession := { s.primarySession with
      selectedAgent := some (truncateStr agent maxProjectionStringBytes)
      timeUpdatedAt := some input.timestampMs } })

/-- The completion names the outcome; the command is the one the start recorded. -/
def testRunCompleted (status summary : String) : Reduction :=
  (.applied, s.setTestState {
    status := status
    command := (s.testState.map (·.command)).getD ""
    summary := some summary })

def diagnostic (code message : String) : Reduction :=
  (.reconciled, s.pushDiagnostic {
    code := clipStr code maxProjectionStringBytes
    message := clipStr message maxProjectionStringBytes
    atMs := input.timestampMs
    sessionId := input.sessionId
    turnId := input.turnId })

/-- The snapshot gets a diagnostic although the input is not applied. -/
def resyncRequired (fromEventSeq currentSeq : UInt64) : Reduction :=
  (.resyncRequired fromEventSeq currentSeq, s.pushDiagnostic {
    code := "resync_required"
    message := "from=" ++ toString fromEventSeq.toNat ++ " current=" ++ toString currentSeq.toNat
    atMs := input.timestampMs })

def unknownMessage (variantName notice : String) : String :=
  clipStr variantName 64 ++ ": " ++ clipStr notice maxProjectionStringBytes

def unknown (variantName notice : String) : Reduction :=
  (.reconciled, s.pushDiagnostic {
    code := "unknown_variant"
    message := unknownMessage variantName notice
    atMs := input.timestampMs
    sessionId := input.sessionId
    turnId := input.turnId })

def programMessage (programId jobId : String) : String := "program=" ++ programId ++ " job=" ++ jobId

/-- A tool program's lifecycle event is also recorded as a diagnostic of the session. -/
def traceProgram (code message : String) (time : ℤ) : SessionProjectionSnapshot :=
  touchSession (s.pushDiagnostic {
    code := code
    message := message
    atMs := time
    sessionId := input.sessionId }) input.timestampMs

def toolProgramSubmitted (programId jobId : String) (submittedAt : ℤ) : Reduction :=
  (.applied, traceProgram s input "tool_program_submitted" (programMessage programId jobId)
    submittedAt)

def submittedProgram (programId jobId : String) (submittedAt : ℤ) : ToolProgramSummary where
  programId := programId
  jobId := jobId
  state := "submitted"
  phase := none
  language := "restricted_python"
  parentTurnId := none
  parentAgentId := none
  callsCompleted := 0
  childJobsRunning := 0
  submittedAt := submittedAt
  startedAt := none
  completedAt := none
  failureClass := none
  terminalHandle := none
  lastProgress := none

/-- Change the recorded program, or a freshly submitted one when it is unknown. -/
def advanceProgram (programId jobId : String) (time : ℤ)
    (f : ToolProgramSummary → ToolProgramSummary) : SessionProjectionSnapshot :=
  s.upsertToolProgram (f ((s.toolPrograms.find? fun p => p.programId == programId).getD
    (submittedProgram programId jobId time))).normalise

def terminalProgram (status summary : String) (completedAt : ℤ) (p : ToolProgramSummary) :
    ToolProgramSummary :=
  { p with
    state := truncateStr status maxProjectionStringBytes
    completedAt := some completedAt
    lastProgress := some (truncateStr summary maxProjectionStringBytes)
    terminalHandle := some p.jobId }

def terminalMessage (programId jobId status summary : String) : String :=
  programMessage programId jobId ++ " status=" ++ status ++ " summary=" ++ clipStr summary 128

def toolProgramTerminal (programId jobId status summary : String) (completedAt : ℤ) : Reduction :=
  (.applied, traceProgram
    (advanceProgram s programId jobId completedAt (terminalProgram status summary completedAt))
    input "tool_program_terminal" (terminalMessage programId jobId status summary) completedAt)

def toolProgramAdmitted (programId jobId : String) (admittedAt : ℤ) : Reduction :=
  (.applied, traceProgram
    (advanceProgram s programId jobId admittedAt fun p => { p with state := "admitted" })
    input "tool_program_admitted" (programMessage programId jobId) admittedAt)

def toolProgramStarted (programId jobId : String) (startedAt : ℤ) : Reduction :=
  (.applied, traceProgram
    (advanceProgram s programId jobId startedAt fun p =>
      { p with state := "running", startedAt := some startedAt })
    input "tool_program_started" (programMessage programId jobId) startedAt)

/-- Change a recorded program, or record that it is unknown. -/
def updateProgram (programId code message : String) (f : ToolProgramSummary → ToolProgramSummary) :
    Reduction :=
  match updateFirst (fun p => p.programId == programId) (fun p => (f p).normalise)
      s.toolPrograms with
  | some programs => (.applied, { s with toolPrograms := programs })
  | none => recordDiagnostic s input code message

def toolProgramProgress (programId message : String) (callsCompleted : ℕ) : Reduction :=
  updateProgram s input programId "unknown_tool_program_progress"
    "ToolProgramProgress referenced an unknown program" fun p => { p with
      callsCompleted := callsCompleted
      lastProgress := some (truncateStr message maxProjectionStringBytes) }

def toolProgramWaitingForCall (programId toolName : String) : Reduction :=
  updateProgram s input programId "unknown_tool_program_waiting"
    "ToolProgramWaitingForCall referenced an unknown program" fun p => { p with
      phase := some ("waiting_for_call:" ++ truncateStr toolName 64) }

def toolProgramWaitingForJob (programId : String) : Reduction :=
  updateProgram s input programId "unknown_tool_program_waiting_job"
    "ToolProgramWaitingForJob referenced an unknown program" fun p => { p with
      phase := some "waiting_for_child_job"
      childJobsRunning := min (p.childJobsRunning + 1) (2 ^ 32 - 1) }

def toolProgramRetryBackoff (programId : String) (attempt backoffMs : ℕ) (reason : String) :
    Reduction :=
  updateProgram s input programId "unknown_tool_program_retry"
    "ToolProgramRetryBackoff referenced an unknown program" fun p => { p with
      state := "retry_backoff"
      phase := some ("attempt=" ++ toString attempt ++ " backoff=" ++ toString backoffMs ++
        "ms reason=" ++ truncateStr reason 128) }

def applyPayload : Reduction :=
  match input.payload with
  | .sessionActivated summary => sessionActivated s summary
  | .turnStarted turn => turnStarted s input turn
  | .messageAppended message => messageAppended s input message
  | .reasoningAppended messageId delta => reasoningAppended s input messageId delta
  | .toolStarted tool => toolStarted s input tool
  | .toolCompleted toolId output success durationMs completedAt =>
      toolCompleted s input toolId output success durationMs completedAt
  | .toolFailed toolId error completedAt => toolFailed s input toolId error completedAt
  | .permissionPending permission => permissionPending s input permission
  | .permissionResolved permissionId status resolvedAt =>
      permissionResolved s input permissionId status resolvedAt
  | .lspDiagnosticsUpdated => recordDiagnostic s input "project_scoped_event_on_session_stream"
      "LspDiagnosticsUpdated belongs to the project projection stream"
  | .questionPending question => questionPending s input question
  | .questionResolved questionId status resolvedAt =>
      questionResolved s input questionId status resolvedAt
  | .turnCompleted turnId stopReason completedAt inputTokens outputTokens cachedTokens
      reasoningTokens contextLimit =>
      turnCompleted s input turnId stopReason completedAt inputTokens outputTokens cachedTokens
        reasoningTokens contextLimit
  | .turnFailed turnId message failedAt => turnFailed s input turnId message failedAt
  | .subagentStarted node => subagentStarted s input node
  | .subagentProgress childInstanceId taskId message _ =>
      subagentProgress s input childInstanceId taskId message
  | .subagentCompleted childInstanceId taskId resultSummary completedAt =>
      subagentCompleted s input childInstanceId taskId resultSummary completedAt
  | .subagentFailed childInstanceId taskId error failedAt =>
      subagentFailed s input childInstanceId taskId error failedAt
  | .agentRunUpserted run => agentRunUpserted s run
  | .agentRunProgress runId status progress time =>
      agentRunProgress s input runId status progress time
  | .agentRunTerminal runId status terminalSummary resultCommit validationSummary
      attentionRequired completedAt =>
      agentRunTerminal s runId status terminalSummary resultCommit validationSummary
        attentionRequired completedAt
  | .agentRunControlUpdated runId controlStatus cancellationRequested time =>
      agentRunControlUpdated s input runId controlStatus cancellationRequested time
  | .agentRunTranscriptAdvanced runId ordinal recordingStopped _ =>
      (.applied, s.upsertTranscriptWatermark ⟨runId, ordinal, recordingStopped⟩)
  | .worktreeUpserted worktree => (.applied, s.upsertWorktree worktree)
  | .agentRunGroupUpserted group => (.applied, s.upsertRunGroup group)
  | .convergenceUpserted convergence => (.applied, s.upsertConvergence convergence)
  | .fileChanged change time => fileChanged s change time
  | .runStarted run => runStarted s input run
  | .runProgress runId message time => runProgress s input runId message time
  | .runArtifactCreated artifact => runArtifactCreated s artifact
  | .runCompleted runId status summary completedAt =>
      runCompleted s input runId status summary completedAt
  | .runDenied runId reason time => runDenied s input runId reason time
  | .jobUpserted job => (.applied, s.upsertJob job.normalise)
  | .jobRemoved jobId => (.applied, { s with jobs := s.jobs.filter fun j => j.jobId != jobId })
  | .tokenUsageUpdated inputTokens outputTokens => tokenUsageUpdated s inputTokens outputTokens
  | .modelSelected model _ => modelSelected s input model
  | .agentSelected agent _ => agentSelected s input agent
  | .shellRunUpserted run _ => (.applied, s.upsertShellRun run)
  | .toolContractsUpdated contracts _ => (.applied, s.setToolContracts contracts)
  | .pluginCatalogueUpdated entries _ => (.applied, s.setPluginCatalogue entries)
  | .workPlanUpdated plan _ => (.applied, s.setWorkPlan plan)
  | .testRunStarted command _ => (.applied, s.setTestState ⟨"running", command, none⟩)
  | .testRunCompleted status summary _ => testRunCompleted s status summary
  | .diagnostic code message => diagnostic s input code message
  | .resyncRequired fromEventSeq currentSeq => resyncRequired s input fromEventSeq currentSeq
  | .unknown variantName notice => unknown s input variantName notice
  | .toolProgramSubmitted programId jobId submittedAt =>
      toolProgramSubmitted s input programId jobId submittedAt
  | .toolProgramTerminal programId jobId status summary completedAt =>
      toolProgramTerminal s input programId jobId status summary completedAt
  | .toolProgramAdmitted programId jobId admittedAt =>
      toolProgramAdmitted s input programId jobId admittedAt
  | .toolProgramStarted programId jobId _ startedAt =>
      toolProgramStarted s input programId jobId startedAt
  | .toolProgramProgress programId _ message callsCompleted _ =>
      toolProgramProgress s input programId message callsCompleted
  | .toolProgramWaitingForCall programId _ _ toolName _ =>
      toolProgramWaitingForCall s input programId toolName
  | .toolProgramWaitingForJob programId _ _ _ => toolProgramWaitingForJob s input programId
  | .toolProgramRetryBackoff programId _ attempt backoffMs reason _ =>
      toolProgramRetryBackoff s input programId attempt backoffMs reason

def versionSupported (config : ReducerConfig) (version : ℕ) : Bool :=
  config.minVersion ≤ version && version ≤ config.maxVersion

def checkScope (config : ReducerConfig) : Bool :=
  match input.sessionId with
  | some sid => sid == s.primarySessionId ||
      (config.allowMultiSession && s.secondarySessions.any fun other => other.sessionId == sid)
  | none => false

/-- The text of the diagnostic about a foreign input; `debug` is the `{:?}` form of an
optional text. -/
def scopeMessage (debug : Option String → String) (sessionId : Option String)
    (primarySessionId : String) : String :=
  "ignoring event for session " ++ debug sessionId ++ " in snapshot of session " ++ primarySessionId

/-- A payload that took effect moves the snapshot to the input's sequence number and time. -/
def stamp (r : Reduction) : Reduction :=
  if r.1.advances then
    (r.1, { r.2 with eventSeq := input.eventSeq, generatedAtMs := input.timestampMs })
  else r

def apply (debug : Option String → String) (config : ReducerConfig) : Reduction :=
  if ¬ versionSupported config input.protocolVersion then
    (.error (.unsupportedProtocolVersion input.protocolVersion config.minVersion
      config.maxVersion), s)
  else if ¬ checkScope s input config then
    (.scopeMismatch, s.pushDiagnostic {
      code := "scope_mismatch"
      message := scopeMessage debug input.sessionId s.primarySessionId
      atMs := input.timestampMs })
  else if input.eventSeq ≤ s.eventSeq ∧ ¬ config.allowReplays then
    if input.eventSeq = s.eventSeq then (.duplicate, s)
    else (.error (.sequenceRegression input.eventSeq s.eventSeq), s)
  else if input.eventSeq ≤ s.eventSeq then (.duplicate, s)
  else stamp input (applyPayload s input)

section Frame

variable {s : SessionProjectionSnapshot} {input : ReducerEventInput}

/-!
## What a payload leaves alone

Every payload but the resync signal takes effect, and none changes whose session the
snapshot is about.
-/

structure Steady (s : SessionProjectionSnapshot) (r : Reduction) : Prop where
  advances : r.1.advances = true
  primarySessionId : r.2.primarySessionId = s.primarySessionId
  eventSeq : r.2.eventSeq = s.eventSeq

theorem Steady.recordDiagnostic (code message : String) :
    Steady s (recordDiagnostic s input code message) := ⟨rfl, rfl, rfl⟩

theorem Steady.onActiveTurn {code message : String} {f : TurnProjection → Reduction}
    (hf : ∀ turn, Steady s (f turn)) : Steady s (onActiveTurn s input code message f) := by
  rw [ProjectionReducer.onActiveTurn]
  split
  · exact .recordDiagnostic _ _
  · exact hf _

theorem Steady.updateRun {runId code message : String} {f : RunProjection → RunProjection} :
    Steady s (updateRun s input runId code message f) := by
  rw [ProjectionReducer.updateRun]
  split
  · exact ⟨rfl, rfl, rfl⟩
  · exact .recordDiagnostic _ _

theorem Steady.updateProgram {programId code message : String}
    {f : ToolProgramSummary → ToolProgramSummary} :
    Steady s (updateProgram s input programId code message f) := by
  rw [ProjectionReducer.updateProgram]
  split
  · exact ⟨rfl, rfl, rfl⟩
  · exact .recordDiagnostic _ _

/-- Inserting a child changes nothing but the children. -/
theorem upsertSubagent_eq {node : AgentTreeNodeProjection} {s' : SessionProjectionSnapshot}
    (h : s.upsertSubagent node = some s') : ∃ l, s' = { s with subagents := l } := by
  rw [SessionProjectionSnapshot.upsertSubagent] at h
  split at h
  · exact ⟨_, (Option.some.inj h).symm⟩
  · split at h
    · split at h
      · exact ⟨_, (Option.some.inj h).symm⟩
      · cases h
    · exact ⟨_, (Option.some.inj h).symm⟩

theorem applyPayload_steady (h : input.payload.isResyncRequired = false) :
    Steady s (applyPayload s input) := by
  rw [applyPayload]
  cases hp : input.payload with
  | resyncRequired => simp [hp, ProjectionEvent.isResyncRequired] at h
  | sessionActivated => dsimp only [sessionActivated]; split <;> exact ⟨rfl, rfl, rfl⟩
  | turnStarted => dsimp only [turnStarted]; cases s.activeTurn <;> exact ⟨rfl, rfl, rfl⟩
  | messageAppended | toolStarted | permissionPending | permissionResolved | questionPending
  | questionResolved => exact .onActiveTurn fun turn => ⟨rfl, rfl, rfl⟩
  | reasoningAppended =>
    refine .onActiveTurn fun turn => ?_
    dsimp only
    split <;> exact ⟨rfl, rfl, rfl⟩
  | toolCompleted | toolFailed =>
    refine .onActiveTurn fun turn => ?_
    split <;> exact ⟨rfl, rfl, rfl⟩
  | turnCompleted | turnFailed =>
    refine .onActiveTurn fun turn => ?_
    split
    · exact .recordDiagnostic _ _
    · exact ⟨rfl, rfl, rfl⟩
  | subagentStarted node =>
    dsimp only [subagentStarted]
    split
    · exact ⟨rfl, rfl, rfl⟩
    · split
      · exact .recordDiagnostic _ _
      · rename_i hup
        obtain ⟨l, rfl⟩ := upsertSubagent_eq hup
        exact ⟨rfl, rfl, rfl⟩
  | subagentProgress =>
    dsimp only [subagentProgress]
    split
    · exact ⟨rfl, rfl, rfl⟩
    · split
      · split
        · exact ⟨rfl, rfl, rfl⟩
        · exact .recordDiagnostic _ _
      · exact .recordDiagnostic _ _
  | subagentCompleted | subagentFailed =>
    dsimp only [subagentCompleted, subagentFailed, subagentTerminal]
    split <;> exact ⟨rfl, rfl, rfl⟩
  | agentRunProgress | agentRunControlUpdated =>
    dsimp only [agentRunProgress, agentRunControlUpdated]
    split
    · exact ⟨rfl, rfl, rfl⟩
    · exact .recordDiagnostic _ _
  | runProgress | runCompleted | runDenied => exact .updateRun
  | toolProgramProgress | toolProgramWaitingForCall | toolProgramWaitingForJob
  | toolProgramRetryBackoff => exact .updateProgram
  | _ => exact ⟨rfl, rfl, rfl⟩

theorem applyPayload_of_resync {a b : UInt64} (h : input.payload = .resyncRequired a b) :
    applyPayload s input = resyncRequired s input a b := by
  rw [applyPayload, h]

variable {debug : Option String → String} {config : ReducerConfig}

/-- Everything an application can do: refuse the input, skip it, note that it is foreign, or
run its payload. -/
theorem apply_cases :
    (∃ e, apply s input debug config = (.error e, s)) ∨
    (input.eventSeq ≤ s.eventSeq ∧ apply s input debug config = (.duplicate, s)) ∨
    (checkScope s input config = false ∧ apply s input debug config =
      (.scopeMismatch, s.pushDiagnostic {
        code := "scope_mismatch"
        message := scopeMessage debug input.sessionId s.primarySessionId
        atMs := input.timestampMs })) ∨
    (versionSupported config input.protocolVersion = true ∧ checkScope s input config = true ∧
      s.eventSeq < input.eventSeq ∧
      apply s input debug config = stamp input (applyPayload s input)) := by
  rw [apply]
  split
  · exact .inl ⟨_, rfl⟩
  · rename_i hversion
    split
    · rename_i hscope
      exact .inr (.inr (.inl ⟨by simpa using hscope, rfl⟩))
    · rename_i hscope
      split
      · rename_i hseq
        split
        · exact .inr (.inl ⟨hseq.1, rfl⟩)
        · exact .inl ⟨_, rfl⟩
      · split
        · rename_i hseq
          exact .inr (.inl ⟨hseq, rfl⟩)
        · exact .inr (.inr (.inr ⟨by simpa using hversion, by simpa using hscope, by omega, rfl⟩))

theorem apply_of_next (hversion : versionSupported config input.protocolVersion = true)
    (hscope : checkScope s input config = true) (hseq : s.eventSeq < input.eventSeq) :
    apply s input debug config = stamp input (applyPayload s input) := by
  have hle : ¬ input.eventSeq ≤ s.eventSeq := by omega
  simp [apply, hversion, hscope, hle]

/-- The input advances the snapshot: it takes effect and the snapshot now stands at its
sequence number. -/
theorem stamp_advances (s : SessionProjectionSnapshot) (input : ReducerEventInput)
    (h : input.payload.isResyncRequired = false) :
    (stamp input (applyPayload s input)).1.advances = true ∧
      (stamp input (applyPayload s input)).2.eventSeq = input.eventSeq ∧
      (stamp input (applyPayload s input)).2.primarySessionId = s.primarySessionId := by
  have hsteady : Steady s (applyPayload s input) := applyPayload_steady h
  rw [stamp, if_pos hsteady.advances]
  exact ⟨hsteady.advances, rfl, hsteady.primarySessionId⟩

/-- An application that takes effect leaves the snapshot at the input's sequence number, any
other one where it was. -/
theorem apply_eventSeq (s : SessionProjectionSnapshot) (input : ReducerEventInput)
    (debug : Option String → String) (config : ReducerConfig) :
    (apply s input debug config).2.eventSeq =
      if (apply s input debug config).1.advances then input.eventSeq else s.eventSeq := by
  rcases @apply_cases s input debug config with ⟨e, h⟩ | ⟨-, h⟩ | ⟨-, h⟩ | ⟨-, -, -, h⟩
  · rw [h]
    rfl
  · rw [h]
    rfl
  · rw [h]
    rfl
  · rw [h]
    cases hp : input.payload.isResyncRequired with
    | false =>
      obtain ⟨hadvances, hseq, -⟩ := stamp_advances s input hp
      rw [hadvances, if_pos rfl, hseq]
    | true =>
      cases hpayload : input.payload with
      | resyncRequired a b =>
        rw [applyPayload_of_resync hpayload]
        rfl
      | _ => simp [hpayload, ProjectionEvent.isResyncRequired] at hp

end Frame

end ProjectionReducer

end Codegg.Projection
