import Codegg.Projection.Replay

/-!
# The headless reference consumer

A client that is handed the daemon's responses and keeps one session's snapshot with a
cursor. Snapshots are stripped of what is not public when they are installed; events that
are not public move the cursor without being applied; a gap asks for a resync.

Two ghost fields record, for the statements about whole runs, the snapshot installed last
and the events taken in since then. No operation reads them.
-/
namespace Codegg.Projection

open Codegg.Library

inductive HeadlessConnectionState
  | disconnected
  | connected
  | attached
  | resyncRequired
  deriving DecidableEq

inductive HeadlessEventOutcome
  | applied (cursor : ProjectionCursor)
  | duplicate (cursor : ProjectionCursor)
  | reconciled (cursor : ProjectionCursor)
  | ignoredNonPublic (eventSeq : ℕ)
  | resyncRequired (reason : ProjectionResyncReason) (cursor : ProjectionCursor)
  | error (err : ReducerError)

structure HeadlessReplayOutcome where
  applied : ℕ
  duplicates : ℕ
  reconciled : ℕ
  nextCursor : Option ProjectionCursor

inductive HeadlessConsumerError
  | notConnected
  | unsupportedCapabilities
  | notAttached
  | invalidSnapshotBundle
  | streamMismatch
  | invalidResponse
  | unsafeArtifactHandle
  | foreignArtifactHandle
  | invalidArtifactRange
  | artifactTooLarge
  | artifactHandleMismatch

/-- The part of an artifact handle the consumer checks. -/
structure ProjectionArtifactHandleDto where
  handleId : String
  projectId : String
  sourceRecordId : String

/-- The part of an artifact read the consumer checks. -/
structure ProjectionArtifactReadResponse where
  handleId : String
  start : ℕ
  stop : ℕ
  content : String

/-- An artifact read that failed clears the last one whatever the reason. -/
inductive ProjectionArtifactReadOutcome
  | ok (response : ProjectionArtifactReadResponse)
  | failed

/-- The responses a consumer accepts; all others are invalid to it. -/
inductive CoreResponse
  | projectionCapabilitiesResponse (supported : Bool) (projectionVersion : ℕ)
  | projectionSubscribed (subscriptionId : ProjectionSubscriptionId)
      (descriptor : ProjectionStreamDescriptor) (snapshot : ProjectionSnapshotBundle)
      (cursor : ProjectionCursor)
  | projectionReplay (subscriptionId : Option ProjectionSubscriptionId)
      (batch : ProjectionReplayBatch)
  | projectionResyncRequired (reason : ProjectionResyncReason)
      (descriptor : Option ProjectionStreamDescriptor) (snapshot : Option ProjectionSnapshotBundle)
  | projectionArtifactList (handles : List ProjectionArtifactHandleDto)
  | projectionArtifactRead (outcome : ProjectionArtifactReadOutcome)
  | other

structure HeadlessProjectionConsumer where
  capabilities : ProjectionCapabilities
  negotiatedVersion : Option ℕ
  connectionState : HeadlessConnectionState
  sessionId : Option String
  descriptor : Option ProjectionStreamDescriptor
  subscriptionId : Option ProjectionSubscriptionId
  snapshot : Option SessionProjectionSnapshot
  cursor : Option ProjectionCursor
  lastResyncReason : Option ProjectionResyncReason
  diagnostics : List String
  artifactHandles : List ProjectionArtifactHandleDto
  lastArtifact : Option ProjectionArtifactReadResponse
  /-- ghost: the snapshot installed last -/
  installed : Option SessionProjectionSnapshot
  /-- ghost: the events taken in since, the oldest first -/
  absorbed : List ProjectionEnvelope

def maxHeadlessDiagnostics : ℕ := 32
def maxProjectionArtifacts : ℕ := 32
def maxStreamIdLength : ℕ := 128
def maxReadBytes : ℕ := 64 * 1024

namespace HeadlessProjectionConsumer

def withCapabilities (capabilities : ProjectionCapabilities) : HeadlessProjectionConsumer where
  capabilities := capabilities
  negotiatedVersion := none
  connectionState := .disconnected
  sessionId := none
  descriptor := none
  subscriptionId := none
  snapshot := none
  cursor := none
  lastResyncReason := none
  diagnostics := []
  artifactHandles := []
  lastArtifact := none
  installed := none
  absorbed := []

/-- A step of the consumer: its answer and the consumer after it. -/
abbrev Answer (α : Type) := Except HeadlessConsumerError α × HeadlessProjectionConsumer

def answering {α β : Type} (f : α → β) (a : Answer α) : Answer β := (a.1.map f, a.2)

/-!
## Visibility
-/

def publicMessage (m : MessageProjection) : Bool := m.visibility == .pub
def publicTool (t : ToolProjection) : Bool := t.visibility == .pub

/-- The payload may be applied. The result of a tool is public when the tool is. -/
def eventIsPublic (event : ProjectionEvent) (snapshot : Option SessionProjectionSnapshot) : Bool :=
  let toolIsPublic := fun toolId : String =>
    match snapshot.bind (·.activeTurn) with
    | none => false
    | some turn => (turn.tools.find? fun t => t.toolId == toolId).any publicTool
  match event with
  | .reasoningAppended _ _ => false
  | .unknown _ _ => false
  | .messageAppended message => publicMessage message
  | .toolStarted tool => publicTool tool
  | .toolCompleted toolId _ _ _ _ => toolIsPublic toolId
  | .toolFailed toolId _ _ => toolIsPublic toolId
  | .diagnostic _ _ => false
  | _ => true

def sanitizeOutput : ToolOutputProjection → ToolOutputProjection
  | .inline output =>
      if maxProjectionStringBytes < output.utf8ByteSize then
        .inline (truncateStr output maxProjectionStringBytes)
      else .inline output
  | output => output

def sanitizeTool (t : ToolProjection) : ToolProjection := { t with output := sanitizeOutput t.output }

def sanitizeTurn (turn : TurnProjection) : TurnProjection :=
  { turn with
    messages := turn.messages.filter publicMessage
    tools := (turn.tools.filter publicTool).map sanitizeTool }

def sanitizeSnapshot (s : SessionProjectionSnapshot) : SessionProjectionSnapshot :=
  { s with
    activeTurn := s.activeTurn.map sanitizeTurn
    recentTurns := s.recentTurns.map sanitizeTurn
    diagnostics := [] }

/-!
## The connection
-/

variable (c : HeadlessProjectionConsumer)

def pushDiagnostic (diagnostic : String) : HeadlessProjectionConsumer :=
  { c with diagnostics := pushBounded maxHeadlessDiagnostics c.diagnostics diagnostic }

def refuseConnection (diagnostic : String) : Answer ℕ :=
  (.error .unsupportedCapabilities,
    { c with connectionState := .disconnected }.pushDiagnostic diagnostic)

def connect (daemon : ProjectionCapabilities) : Answer ℕ :=
  match ProjectionCapabilities.negotiate c.capabilities daemon with
  | none => c.refuseConnection "no compatible projection version"
  | some version =>
    if ¬ supportedVersion version then
      c.refuseConnection "negotiated projection version is unsupported"
    else if ¬ daemon.supportsIncrementalEvents ∨ ¬ c.capabilities.supportsIncrementalEvents then
      c.refuseConnection "incremental projection events are unsupported"
    else
      (.ok version, { c with
        negotiatedVersion := some version
        connectionState := .connected
        lastResyncReason := none })

def connectFromResponse (supported : Bool) (projectionVersion : ℕ) : Answer ℕ :=
  if supported then
    c.connect { minVersion := projectionVersion, maxVersion := projectionVersion }
  else c.refuseConnection "daemon does not support session projections"

/-- The cursor and the snapshot are kept for a resume request. -/
def disconnect : HeadlessProjectionConsumer :=
  { c with connectionState := .disconnected, subscriptionId := none, lastArtifact := none }

/-!
## Snapshots and events
-/

def singleSnapshot : ProjectionSnapshotBundle →
    Except HeadlessConsumerError SessionProjectionSnapshot
  | .one snapshot => .ok snapshot
  | .boundedSessionList => .error .invalidSnapshotBundle
  | .lspDiagnostics => .error .invalidSnapshotBundle

/-- The descriptor is of the snapshot's session and of the negotiated version. -/
def validStream (descriptor : ProjectionStreamDescriptor) (snapshot : SessionProjectionSnapshot) :
    Bool :=
  descriptor.kind == .session && descriptor.sessionId == some snapshot.primarySessionId &&
    descriptor.projectId == snapshot.projectId &&
    descriptor.projectionVersion == c.negotiatedVersion.getD descriptor.projectionVersion

def acceptSubscribed (subscriptionId : ProjectionSubscriptionId)
    (descriptor : ProjectionStreamDescriptor) (bundle : ProjectionSnapshotBundle)
    (cursor : ProjectionCursor) : Answer Unit :=
  match singleSnapshot bundle with
  | .error e => (.error e, c)
  | .ok snapshot =>
    if ¬ c.validStream descriptor snapshot then (.error .streamMismatch, c)
    else if cursor.streamId ≠ descriptor.streamId ∨
        cursor.projectionVersion ≠ descriptor.projectionVersion then
      (.error .streamMismatch, c)
    else
      let snapshot := { sanitizeSnapshot snapshot with eventSeq := cursor.eventSeq }
      (.ok (), { c with
        sessionId := some snapshot.primarySessionId
        descriptor := some descriptor
        subscriptionId := some subscriptionId
        snapshot := some snapshot
        cursor := some cursor
        connectionState := .attached
        lastResyncReason := none
        installed := some snapshot
        absorbed := [] })

def envelopeMatchesDescriptor (envelope : ProjectionEnvelope)
    (descriptor : ProjectionStreamDescriptor) : Bool :=
  envelope.scope == .session && envelope.sessionId == descriptor.sessionId &&
    envelope.protocolVersion == descriptor.projectionVersion

/-- The event is behind the consumer: the cursor stands at it and it is recorded as taken in. -/
def moveTo (cursor : ProjectionCursor) (envelope : ProjectionEnvelope)
    (snapshot : Option SessionProjectionSnapshot) : HeadlessProjectionConsumer :=
  { c with
    snapshot := snapshot
    cursor := some { cursor with eventSeq := envelope.eventSeq }
    absorbed := c.absorbed ++ [envelope] }

/-- The snapshot after an event that is not public: only its position changes. -/
def skipEvent (envelope : ProjectionEnvelope) (s : SessionProjectionSnapshot) :
    SessionProjectionSnapshot :=
  { s with eventSeq := envelope.eventSeq, generatedAtMs := envelope.timestampMs }

def demandResync (reason : ProjectionResyncReason) : HeadlessProjectionConsumer :=
  { c with lastResyncReason := some reason, connectionState := .resyncRequired }

/-- The consumer after the reducer has answered. -/
def settleEvent (cursor : ProjectionCursor) (envelope : ProjectionEnvelope) :
    Reduction → HeadlessEventOutcome × HeadlessProjectionConsumer
  | (.applied, s) =>
      (.applied { cursor with eventSeq := envelope.eventSeq }, c.moveTo cursor envelope (some s))
  | (.duplicate, s) => (.duplicate cursor, { c with snapshot := some s })
  | (.reconciled, s) =>
      (.reconciled { cursor with eventSeq := envelope.eventSeq }, c.moveTo cursor envelope (some s))
  | (.scopeMismatch, s) => (.resyncRequired .scopeMismatch cursor, { c with snapshot := some s })
  | (.resyncRequired _ _, s) =>
      (.resyncRequired .historyGap cursor, { c with snapshot := some s }.demandResync .historyGap)
  | (.error e, s) => (.error e, { c with snapshot := some s })

variable (debug : Option String → String)

def applyEvent (envelope : ProjectionEnvelope) : HeadlessEventOutcome × HeadlessProjectionConsumer :=
  match c.cursor with
  | none => (.error (.scopeMismatch envelope.sessionId "<unattached>"), c)
  | some cursor =>
  match c.descriptor with
  | none => (.error (.scopeMismatch envelope.sessionId "<no stream>"), c)
  | some descriptor =>
  if ¬ envelopeMatchesDescriptor envelope descriptor then
    (.resyncRequired .streamMismatch cursor, c.demandResync .streamMismatch)
  else if envelope.eventSeq ≤ cursor.eventSeq then (.duplicate cursor, c)
  else if envelope.eventSeq ≠ cursor.eventSeq + 1 then
    (.resyncRequired .historyGap cursor, c.demandResync .historyGap)
  else if ¬ eventIsPublic envelope.payload c.snapshot then
    (.ignoredNonPublic envelope.eventSeq,
      c.moveTo cursor envelope (c.snapshot.map (skipEvent envelope)))
  else
  match c.snapshot with
  | none => (.error (.scopeMismatch envelope.sessionId "<no snapshot>"), c)
  | some snapshot =>
  c.settleEvent cursor envelope (ProjectionReducer.apply snapshot envelope.toInput debug {})

/-- The events of a batch one after another, up to the first that asks for a resync. -/
def replayEvents (counts : HeadlessReplayOutcome) (c : HeadlessProjectionConsumer) :
    List ProjectionEnvelope → Answer HeadlessReplayOutcome
  | [] => (.ok counts, { c with connectionState := .attached })
  | event :: events =>
    match c.applyEvent debug event with
    | (.applied _, c) => replayEvents { counts with applied := counts.applied + 1 } c events
    | (.duplicate _, c) =>
        replayEvents { counts with duplicates := counts.duplicates + 1 } c events
    | (.ignoredNonPublic _, c) =>
        replayEvents { counts with duplicates := counts.duplicates + 1 } c events
    | (.reconciled _, c) =>
        replayEvents { counts with reconciled := counts.reconciled + 1 } c events
    | (.resyncRequired reason _, c) =>
        (.ok { counts with nextCursor := none }, { c with lastResyncReason := some reason })
    | (.error _, c) => (.error .invalidResponse, c)

/-- The batch's own snapshot replaces the held one before any event is looked at. -/
def installBatchSnapshot (batch : ProjectionReplayBatch) : Answer Unit :=
  match batch.snapshot with
  | none => (.ok (), c)
  | some bundle =>
    match singleSnapshot bundle with
    | .error e => (.error e, c)
    | .ok snapshot =>
      let snapshot := sanitizeSnapshot snapshot
      if ¬ c.validStream batch.descriptor snapshot then (.error .streamMismatch, c)
      else
        (.ok (), { c with
          snapshot := some snapshot
          descriptor := some batch.descriptor
          sessionId := some snapshot.primarySessionId
          cursor := some {
            streamId := batch.descriptor.streamId
            eventSeq := snapshot.eventSeq
            projectionVersion := batch.descriptor.projectionVersion }
          installed := some snapshot
          absorbed := [] })

def acceptReplay (batch : ProjectionReplayBatch) : Answer HeadlessReplayOutcome :=
  match c.installBatchSnapshot batch with
  | (.error e, c) => (.error e, c)
  | (.ok (), c) =>
    if c.descriptor ≠ some batch.descriptor then (.error .streamMismatch, c)
    else if c.snapshot.isNone ∨ c.cursor.isNone then (.error .notAttached, c)
    else replayEvents debug
      { applied := 0, duplicates := 0, reconciled := 0, nextCursor := batch.nextCursor } c
      batch.events

/-!
## Artifacts and responses
-/

def isSafeOpaqueId (value : String) : Bool :=
  !value.isEmpty && value.utf8ByteSize ≤ maxStreamIdLength &&
    value.toList.all fun ch => ch.isAlphanum || ch == '-' || ch == '_'

/-- The handle's identifiers cannot name a path. -/
def safeHandle (handle : ProjectionArtifactHandleDto) : Bool :=
  let source := handle.sourceRecordId.toList
  isSafeOpaqueId handle.handleId && !source.tails.any (fun t => ['.', '.'].isPrefixOf t) &&
    !source.contains '/' && !source.contains '\\'

/-- The handles up to the cap, each once, or the first reason to refuse them. -/
def collectHandles (projectId : String) (safe : List ProjectionArtifactHandleDto) :
    List ProjectionArtifactHandleDto →
    Except HeadlessConsumerError (List ProjectionArtifactHandleDto)
  | [] => .ok safe
  | handle :: handles =>
    if handle.projectId ≠ projectId then .error .foreignArtifactHandle
    else if ¬ safeHandle handle ∨ handle.handleId ∈ safe.map (·.handleId) then
      .error .unsafeArtifactHandle
    else if safe.length + 1 = maxProjectionArtifacts then .ok (safe ++ [handle])
    else collectHandles projectId (safe ++ [handle]) handles

def acceptArtifactHandles (handles : List ProjectionArtifactHandleDto) : Answer Unit :=
  match c.snapshot with
  | none => (.error .notAttached, c)
  | some snapshot =>
    match collectHandles snapshot.projectId [] handles with
    | .error e => (.error e, c)
    | .ok safe => (.ok (), { c with artifactHandles := safe })

def acceptArtifactOutcome : ProjectionArtifactReadOutcome → Answer Unit
  | .failed => (.ok (), { c with lastArtifact := none })
  | .ok response =>
    if ¬ c.artifactHandles.any (fun handle => handle.handleId == response.handleId) then
      (.error .artifactHandleMismatch, c)
    else if response.stop < response.start ∨ maxReadBytes < response.stop - response.start ∨
        maxReadBytes < response.content.utf8ByteSize then (.error .artifactTooLarge, c)
    else (.ok (), { c with lastArtifact := some response })

/-- The position a resync response installs its snapshot at. -/
def bundleSeq : ProjectionSnapshotBundle → ℕ
  | .one snapshot => snapshot.eventSeq
  | .boundedSessionList => 0
  | .lspDiagnostics => 0

def acceptResync (reason : ProjectionResyncReason)
    (descriptor : Option ProjectionStreamDescriptor) (bundle : Option ProjectionSnapshotBundle) :
    Answer Unit :=
  let c := c.demandResync reason
  match descriptor, bundle with
  | some descriptor, some bundle =>
    match c.subscriptionId with
    | none => (.error .invalidResponse, c)
    | some subscriptionId => c.acceptSubscribed subscriptionId descriptor bundle {
        streamId := descriptor.streamId
        eventSeq := bundleSeq bundle
        projectionVersion := descriptor.projectionVersion }
  | _, _ => (.ok (), c)

def acceptResponse : CoreResponse → Answer (Option HeadlessReplayOutcome)
  | .projectionCapabilitiesResponse supported version =>
      answering (fun _ => none) (c.connectFromResponse supported version)
  | .projectionSubscribed subscriptionId descriptor snapshot cursor =>
      answering (fun _ => none) (c.acceptSubscribed subscriptionId descriptor snapshot cursor)
  | .projectionReplay subscriptionId batch =>
      answering some
        (acceptReplay { c with subscriptionId := subscriptionId.or c.subscriptionId } debug batch)
  | .projectionResyncRequired reason descriptor snapshot =>
      answering (fun _ => none) (c.acceptResync reason descriptor snapshot)
  | .projectionArtifactList handles => answering (fun _ => none) (c.acceptArtifactHandles handles)
  | .projectionArtifactRead outcome => answering (fun _ => none) (c.acceptArtifactOutcome outcome)
  | .other => (.error .invalidResponse, c)

/-- The calls a transport makes on a consumer. -/
inductive Call
  | connect (daemon : ProjectionCapabilities)
  | acceptSubscribed (subscriptionId : ProjectionSubscriptionId)
      (descriptor : ProjectionStreamDescriptor) (bundle : ProjectionSnapshotBundle)
      (cursor : ProjectionCursor)
  | acceptResponse (response : CoreResponse)
  | acceptReplay (batch : ProjectionReplayBatch)
  | applyEvent (envelope : ProjectionEnvelope)
  | disconnect

/-- The consumer after a call. -/
def perform : Call → HeadlessProjectionConsumer
  | .connect daemon => (c.connect daemon).2
  | .acceptSubscribed subscriptionId descriptor bundle cursor =>
      (c.acceptSubscribed subscriptionId descriptor bundle cursor).2
  | .acceptResponse response => (c.acceptResponse debug response).2
  | .acceptReplay batch => (c.acceptReplay debug batch).2
  | .applyEvent envelope => (c.applyEvent debug envelope).2
  | .disconnect => c.disconnect

def run (calls : List Call) : HeadlessProjectionConsumer :=
  calls.foldl (fun c call => c.perform debug call) c

end HeadlessProjectionConsumer

end Codegg.Projection
