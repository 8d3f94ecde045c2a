import Codegg.Projection.Reducer

/-!
# Streams, cursors and replay batches

What the daemon and its projection clients exchange about a stream: its descriptor, a
position in it, the bundle of a fresh snapshot, and a batch of replayed events.
-/
namespace Codegg.Projection

abbrev ProjectionStreamId := String
abbrev ProjectionSubscriptionId := String

inductive ProjectionStreamKind
  | session
  | project
  deriving DecidableEq

structure ProjectionStreamDescriptor where
  streamId : ProjectionStreamId
  kind : ProjectionStreamKind
  projectId : String
  workspaceId : Option String
  sessionId : Option String
  projectionVersion : ℕ
  retentionFloorSeq : ℕ
  highWaterSeq : ℕ
  latestCheckpointSeq : Option ℕ
  deriving DecidableEq

structure ProjectionCursor where
  streamId : ProjectionStreamId
  eventSeq : ℕ
  projectionVersion : ℕ
  deriving DecidableEq

/-- The snapshots sent on subscribe or resync. What the bundles for other consumers hold is
left out. -/
inductive ProjectionSnapshotBundle
  | one (snapshot : SessionProjectionSnapshot)
  | boundedSessionList
  | lspDiagnostics

/-- Replayed events; the batch's own sequence bounds are not read by its consumers. -/
structure ProjectionReplayBatch where
  descriptor : ProjectionStreamDescriptor
  events : List ProjectionEnvelope
  snapshot : Option ProjectionSnapshotBundle
  nextCursor : Option ProjectionCursor

inductive ProjectionResyncReason
  | historyExpired
  | historyGap
  | cursorAhead
  | streamMismatch
  | scopeMismatch
  | versionMismatch
  | snapshotUnavailable
  | subscriberLagged
  deriving DecidableEq

inductive ProjectionSubscriptionState
  | initializing
  | live
  | resyncRequired
  | closed
  deriving DecidableEq

structure ProjectionAck where
  subscriptionId : ProjectionSubscriptionId
  cursor : ProjectionCursor

structure ProjectionSubscriptionStatus where
  id : ProjectionSubscriptionId
  scope : ProjectionStreamKind
  lastDeliveredSeq : ℕ
  lastAckedSeq : ℕ
  state : ProjectionSubscriptionState
  lagCount : ℕ

structure ProjectionCapabilities where
  minVersion : ℕ := projectionProtocolVersionMin
  maxVersion : ℕ := projectionProtocolVersion
  supportsIncrementalEvents : Bool := true
  supportsUnknownFields : Bool := true

/-- The highest version both sides support. -/
def ProjectionCapabilities.negotiate (client daemon : ProjectionCapabilities) : Option ℕ :=
  let lo := max client.minVersion daemon.minVersion
  let hi := min client.maxVersion daemon.maxVersion
  if hi < lo then none else some hi

/-- The version is one this build interoperates with. -/
def supportedVersion (version : ℕ) : Bool :=
  projectionProtocolVersionMin ≤ version && version ≤ projectionProtocolVersion

/-!
## A sample stream

Used where a statement is shown at a concrete run.
-/

def sampleDescriptor : ProjectionStreamDescriptor where
  streamId := "session-s"
  kind := .session
  projectId := "p"
  workspaceId := some "w"
  sessionId := some "s"
  projectionVersion := 1
  retentionFloorSeq := 0
  highWaterSeq := 0
  latestCheckpointSeq := none

def sampleSnapshot : SessionProjectionSnapshot := .empty "s" "p" "w"

def sampleEnvelope (eventSeq : ℕ) (payload : ProjectionEvent) : ProjectionEnvelope where
  protocolVersion := 1
  eventSeq := eventSeq
  timestampMs := 0
  sessionId := some "s"
  turnId := none
  scope := .session
  payload := payload

/-- The `{:?}` form of an optional text without characters that need an escape. -/
def plainDebug : Option String → String
  | none => "None"
  | some s => "Some(\"" ++ s ++ "\")"

end Codegg.Projection
