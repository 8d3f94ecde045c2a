import Codegg.Projection.Replay

/-!
# The projection client controller

The state machine every frontend uses: a negotiated mode, a list of subscription records and
one snapshot for each stream. Snapshots are replaced on installation and otherwise only
changed by the canonical reducer.
-/
namespace Codegg.Projection

open Codegg.Library

structure ControllerDiagnostic where
  code : String
  message : String

inductive ProjectionMode
  | projectionPrimary
  | rawCompatibility
  | unsupported
  deriving DecidableEq

inductive ControllerApplyOutcome
  | applied (lastSeq : ℕ)
  | duplicate (lastSeq : ℕ)
  | scopeMismatch (envelopeSession : Option String) (snapshotSession : String)
  | reconciled (lastSeq : ℕ) (diagnostic : ControllerDiagnostic)
  | resyncRequested (reason : ProjectionResyncReason) (lastSeq envelopeSeq : ℕ)
  | error (err : ReducerError)

inductive ControllerSubscribeFailure
  | unsupportedMode
  | invalidRequest
  | subscriptionLimitExceeded
  | versionMismatch
  | streamMismatch
  | notFound

inductive ControllerSubscribeOutcome
  | subscribed (subscriptionId : ProjectionSubscriptionId)
      (descriptor : ProjectionStreamDescriptor) (snapshot : SessionProjectionSnapshot)
  | replay (subscriptionId : ProjectionSubscriptionId) (descriptor : ProjectionStreamDescriptor)
      (batch : List ProjectionEnvelope) (snapshot : Option ProjectionSnapshotBundle)
  | failed (reason : ControllerSubscribeFailure)

structure SubscriptionRecord where
  subscriptionId : ProjectionSubscriptionId
  descriptor : ProjectionStreamDescriptor
  state : ProjectionSubscriptionState
  lastDeliveredSeq : ℕ
  lastAckedSeq : ℕ
  pendingAck : ℕ

/-- The record's stream, the key of its snapshot. -/
def SubscriptionRecord.streamId (r : SubscriptionRecord) : ProjectionStreamId :=
  r.descriptor.streamId

structure ProjectionClientController where
  capabilities : ProjectionCapabilities
  negotiatedVersion : Option ℕ
  mode : ProjectionMode
  fallbackReason : Option String
  subscriptions : List SubscriptionRecord
  snapshots : ProjectionStreamId → Option SessionProjectionSnapshot
  diagnostics : List ControllerDiagnostic
  lastResyncReason : Option ProjectionResyncReason
  reconnectEpoch : ℕ
  ackCadence : ℕ

def maxControllerSubscriptions : ℕ := 16
def maxControllerDiagnostics : ℕ := 32
def defaultAckCadence : ℕ := 16

namespace ProjectionClientController

def new (capabilities : ProjectionCapabilities) : ProjectionClientController where
  capabilities := capabilities
  negotiatedVersion := none
  mode := .unsupported
  fallbackReason := none
  subscriptions := []
  snapshots := fun _ => none
  diagnostics := []
  lastResyncReason := none
  reconnectEpoch := 0
  ackCadence := defaultAckCadence

variable (c : ProjectionClientController)

def pushDiagnostic (code message : String) : ProjectionClientController :=
  let diagnostics := c.diagnostics ++ [⟨code, message⟩]
  { c with diagnostics := diagnostics.drop (diagnostics.length - maxControllerDiagnostics) }

def negotiate (daemon : Option ProjectionCapabilities) : ProjectionClientController :=
  match daemon with
  | none =>
    { c with
      negotiatedVersion := none
      mode := .unsupported
      fallbackReason := some "no projection capabilities advertised" }.pushDiagnostic
      "unsupported" "daemon capabilities absent"
  | some daemon =>
    match ProjectionCapabilities.negotiate c.capabilities daemon with
    | some version =>
      if supportedVersion version then
        { c with
          negotiatedVersion := some version
          mode := .projectionPrimary
          fallbackReason := none }
      else
        let reason := "negotiated version " ++ toString version ++ " outside supported range"
        { c with
          negotiatedVersion := some version
          mode := .unsupported
          fallbackReason := some reason }.pushDiagnostic "version_mismatch" reason
    | none =>
      { c with
        negotiatedVersion := none
        mode := .unsupported
        fallbackReason := some "no overlapping projection version" }.pushDiagnostic
        "version_mismatch" "no overlapping projection version between client and daemon"

def enterRawCompatibility (reason : String) : ProjectionClientController :=
  { c with
    mode := .rawCompatibility
    fallbackReason := some reason
    subscriptions := []
    snapshots := fun _ => none
    negotiatedVersion := none }

def onReconnect : ProjectionClientController :=
  { c with
    reconnectEpoch := min (c.reconnectEpoch + 1) (2 ^ 64 - 1)
    subscriptions := []
    snapshots := fun _ => none
    diagnostics := []
    lastResyncReason := none
    negotiatedVersion := none
    mode := .unsupported
    fallbackReason := some "reconnect pending renegotiation" }

/-- A live record that has delivered and acknowledged all of its snapshot. -/
def freshRecord (subscriptionId : ProjectionSubscriptionId)
    (descriptor : ProjectionStreamDescriptor) (lastSeq : ℕ) : SubscriptionRecord where
  subscriptionId := subscriptionId
  descriptor := descriptor
  state := .live
  lastDeliveredSeq := lastSeq
  lastAckedSeq := lastSeq
  pendingAck := 0

def holdsStream (streamId : ProjectionStreamId) : Bool :=
  c.subscriptions.any fun r => r.streamId == streamId

def installSubscription (subscriptionId : ProjectionSubscriptionId)
    (descriptor : ProjectionStreamDescriptor) (snapshot : SessionProjectionSnapshot) :
    ControllerSubscribeOutcome × ProjectionClientController :=
  if c.mode ≠ .projectionPrimary then (.failed .unsupportedMode, c)
  else if maxControllerSubscriptions ≤ c.subscriptions.length then
    (.failed .subscriptionLimitExceeded,
      c.pushDiagnostic "subscription_limit_exceeded" descriptor.streamId)
  else if c.holdsStream descriptor.streamId then
    (.failed .streamMismatch, c.pushDiagnostic "duplicate_subscription" descriptor.streamId)
  else
    (.subscribed subscriptionId descriptor snapshot, { c with
      subscriptions := c.subscriptions ++ [freshRecord subscriptionId descriptor snapshot.eventSeq]
      snapshots := Function.update c.snapshots descriptor.streamId (some snapshot) })

variable (debug : Option String → String)

/-- The events applied in order; there is no result when the reducer rejects one. -/
def replayAll (current : SessionProjectionSnapshot) :
    List ProjectionEnvelope → Option SessionProjectionSnapshot
  | [] => some current
  | envelope :: events =>
    match ProjectionReducer.apply current envelope.toInput debug {} with
    | (.applied, s) => replayAll s events
    | (.duplicate, s) => replayAll s events
    | (.reconciled, s) => replayAll s events
    | (.scopeMismatch, _) => none
    | (.resyncRequired _ _, _) => none
    | (.error _, _) => none

/-- The snapshot of a bundle takes the place of what the events led to. -/
def chooseSnapshot (current : SessionProjectionSnapshot) :
    Option ProjectionSnapshotBundle → SessionProjectionSnapshot
  | some (.one snapshot) => snapshot
  | _ => current

def noteBundle (bundle : Option ProjectionSnapshotBundle) : ProjectionClientController :=
  match bundle with
  | some .lspDiagnostics => c.pushDiagnostic "lsp_diagnostics_bundle_ignored"
      "LspDiagnostics ignored in install_replay"
  | some .boundedSessionList => c.pushDiagnostic "replay_list_bundle_ignored"
      "BoundedSessionList ignored in install_replay"
  | _ => c

/-- A record with the subscription's id is replaced; neither the number of subscriptions nor
the stream is checked, and the replaced record's snapshot stays. -/
def installReplay (subscriptionId : ProjectionSubscriptionId)
    (descriptor : ProjectionStreamDescriptor) (events : List ProjectionEnvelope)
    (snapshot : Option ProjectionSnapshotBundle) (initial : SessionProjectionSnapshot) :
    ControllerSubscribeOutcome × ProjectionClientController :=
  if c.mode ≠ .projectionPrimary then (.failed .unsupportedMode, c)
  else
    match replayAll debug initial events with
    | none => (.failed .invalidRequest,
        c.pushDiagnostic "replay_reducer_failure" "projection replay rejected")
    | some current =>
      let current := chooseSnapshot current snapshot
      (.replay subscriptionId descriptor events none, { c.noteBundle snapshot with
        subscriptions := (c.subscriptions.filter fun r => r.subscriptionId != subscriptionId) ++
          [freshRecord subscriptionId descriptor current.eventSeq]
        snapshots := Function.update c.snapshots descriptor.streamId (some current) })

/-- The subscription of an id: the first record that has it. -/
def record (subscriptionId : ProjectionSubscriptionId) : Option SubscriptionRecord :=
  c.subscriptions.find? fun r => r.subscriptionId == subscriptionId

/-- Change the first record with an id. -/
def updateRecord (subscriptionId : ProjectionSubscriptionId)
    (f : SubscriptionRecord → SubscriptionRecord) : ProjectionClientController :=
  { c with
    subscriptions := (updateFirst (fun r => r.subscriptionId == subscriptionId) f
      c.subscriptions).getD c.subscriptions }

def requestsResync (reason : ProjectionResyncReason) (lastSeq envelopeSeq : ℕ) :
    ControllerApplyOutcome × ProjectionClientController :=
  (.resyncRequested reason lastSeq envelopeSeq, { c with lastResyncReason := some reason })

/-- The envelope is not of the record's session stream. -/
def offSession (r : SubscriptionRecord) (envelope : ProjectionEnvelope) : Bool :=
  r.descriptor.kind == .session &&
    (envelope.scope != .session || envelope.sessionId != r.descriptor.sessionId)

def delivered (lastSeq : ℕ) (r : SubscriptionRecord) : SubscriptionRecord :=
  { r with lastDeliveredSeq := lastSeq, pendingAck := min (r.pendingAck + 1) (2 ^ 64 - 1) }

/-- The controller after the reducer has answered; `c` already holds the reducer's snapshot. -/
def settleEnvelope (subscriptionId : ProjectionSubscriptionId) (r : SubscriptionRecord)
    (envelope : ProjectionEnvelope) (primarySessionId : String) :
    ApplyOutcome → ControllerApplyOutcome × ProjectionClientController
  | .applied => (.applied envelope.eventSeq,
      c.updateRecord subscriptionId (delivered envelope.eventSeq))
  | .duplicate => (.duplicate r.lastDeliveredSeq, c)
  | .scopeMismatch => (.scopeMismatch envelope.sessionId primarySessionId, c)
  | .reconciled =>
      let diagnostic : ControllerDiagnostic :=
        ⟨"reconciled", "event_seq " ++ toString envelope.eventSeq⟩
      (.reconciled envelope.eventSeq diagnostic,
        (c.updateRecord subscriptionId (delivered envelope.eventSeq)).pushDiagnostic
          diagnostic.code diagnostic.message)
  | .resyncRequired fromEventSeq currentSeq =>
      (c.updateRecord subscriptionId fun r => { r with state := .resyncRequired }).requestsResync
        .historyGap currentSeq.toNat fromEventSeq.toNat
  | .error (.unsupportedProtocolVersion _ _ _) =>
      c.requestsResync .versionMismatch r.lastDeliveredSeq envelope.eventSeq
  | .error err => (.error err, c)

/-- An envelope that is newer than the last one delivered goes to the reducer, whether or not
it is the next one. -/
def applyEnvelopeOnStream (subscriptionId : ProjectionSubscriptionId)
    (streamId : ProjectionStreamId) (envelope : ProjectionEnvelope) :
    ControllerApplyOutcome × ProjectionClientController :=
  if c.mode ≠ .projectionPrimary then
    (.error (.unsupportedProtocolVersion envelope.protocolVersion projectionProtocolVersionMin
      projectionProtocolVersion), c)
  else
  match c.record subscriptionId with
  | none => (.error (.scopeMismatch envelope.sessionId "<unknown subscription>"),
      c.pushDiagnostic "unknown_subscription" subscriptionId)
  | some r =>
  if envelope.protocolVersion ≠ c.negotiatedVersion.getD envelope.protocolVersion then
    c.requestsResync .versionMismatch r.lastDeliveredSeq envelope.eventSeq
  else if r.streamId ≠ streamId then
    c.requestsResync .streamMismatch r.lastDeliveredSeq envelope.eventSeq
  else if offSession r envelope then
    c.requestsResync .streamMismatch r.lastDeliveredSeq envelope.eventSeq
  else if envelope.eventSeq ≤ r.lastDeliveredSeq then (.duplicate r.lastDeliveredSeq, c)
  else
  match c.snapshots r.streamId with
  | none => c.requestsResync .snapshotUnavailable r.lastDeliveredSeq envelope.eventSeq
  | some snapshot =>
  let answer := ProjectionReducer.apply snapshot envelope.toInput debug {}
  settleEnvelope
    { c with snapshots := Function.update c.snapshots r.streamId (some answer.2) }
    subscriptionId r envelope answer.2.primarySessionId answer.1

def requestResync (subscriptionId : ProjectionSubscriptionId) (reason : ProjectionResyncReason) :
    ProjectionClientController :=
  { c with lastResyncReason := some reason }.updateRecord subscriptionId fun r =>
    { r with state := .resyncRequired }

def acked (r : SubscriptionRecord) : SubscriptionRecord :=
  { r with lastAckedSeq := r.lastDeliveredSeq, pendingAck := 0 }

def ackOf (subscriptionId : ProjectionSubscriptionId) (r : SubscriptionRecord) : ProjectionAck where
  subscriptionId := subscriptionId
  cursor := {
    streamId := r.streamId
    eventSeq := r.lastDeliveredSeq
    projectionVersion := r.descriptor.projectionVersion }

def tryAck (subscriptionId : ProjectionSubscriptionId) :
    Option ProjectionAck × ProjectionClientController :=
  match c.record subscriptionId with
  | none => (none, c)
  | some r =>
    if r.pendingAck < c.ackCadence then (none, c)
    else (some (ackOf subscriptionId r), c.updateRecord subscriptionId acked)

def forceAck (subscriptionId : ProjectionSubscriptionId) :
    Option ProjectionAck × ProjectionClientController :=
  match c.record subscriptionId with
  | none => (none, c)
  | some r => (some (ackOf subscriptionId r), c.updateRecord subscriptionId acked)

def unsubscribe (subscriptionId : ProjectionSubscriptionId) :
    Option ProjectionSubscriptionStatus × ProjectionClientController :=
  match c.record subscriptionId with
  | none => (none, c)
  | some r =>
    (some {
      id := r.subscriptionId
      scope := r.descriptor.kind
      lastDeliveredSeq := r.lastDeliveredSeq
      lastAckedSeq := r.lastAckedSeq
      state := .closed
      lagCount := 0 }, { c with
      subscriptions := c.subscriptions.eraseP fun r => r.subscriptionId == subscriptionId
      snapshots := Function.update c.snapshots r.streamId none })

/-- The operations a frontend performs on its controller. -/
inductive Operation
  | negotiate (daemon : Option ProjectionCapabilities)
  | installSubscription (subscriptionId : ProjectionSubscriptionId)
      (descriptor : ProjectionStreamDescriptor) (snapshot : SessionProjectionSnapshot)
  | installReplay (subscriptionId : ProjectionSubscriptionId)
      (descriptor : ProjectionStreamDescriptor) (events : List ProjectionEnvelope)
      (snapshot : Option ProjectionSnapshotBundle) (initial : SessionProjectionSnapshot)
  | applyEnvelopeOnStream (subscriptionId : ProjectionSubscriptionId)
      (streamId : ProjectionStreamId) (envelope : ProjectionEnvelope)
  | requestResync (subscriptionId : ProjectionSubscriptionId) (reason : ProjectionResyncReason)
  | tryAck (subscriptionId : ProjectionSubscriptionId)
  | forceAck (subscriptionId : ProjectionSubscriptionId)
  | unsubscribe (subscriptionId : ProjectionSubscriptionId)
  | enterRawCompatibility (reason : String)
  | onReconnect

/-- The controller after an operation. -/
def perform : Operation → ProjectionClientController
  | .negotiate daemon => c.negotiate daemon
  | .installSubscription subscriptionId descriptor snapshot =>
      (c.installSubscription subscriptionId descriptor snapshot).2
  | .installReplay subscriptionId descriptor events snapshot initial =>
      (c.installReplay debug subscriptionId descriptor events snapshot initial).2
  | .applyEnvelopeOnStream subscriptionId streamId envelope =>
      (c.applyEnvelopeOnStream debug subscriptionId streamId envelope).2
  | .requestResync subscriptionId reason => c.requestResync subscriptionId reason
  | .tryAck subscriptionId => (c.tryAck subscriptionId).2
  | .forceAck subscriptionId => (c.forceAck subscriptionId).2
  | .unsubscribe subscriptionId => (c.unsubscribe subscriptionId).2
  | .enterRawCompatibility reason => c.enterRawCompatibility reason
  | .onReconnect => c.onReconnect

end ProjectionClientController

end Codegg.Projection
