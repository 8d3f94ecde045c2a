import Codegg.Projection.Replay
import Codegg.Library.SortedMap
import Mathlib.Data.String.Basic

/-!
# The replay store and its service

Streams of projection events in the database: their publication in one transaction, the
pages that are read from them, their pruning, and the two reads by which a client resumes
from a cursor. Columns that none of this reads are left out.
-/
namespace Codegg.Projection

open Codegg.Library

/-- The JSON library on envelopes. -/
structure Json where
  encode : ProjectionEnvelope → Option String
  decode : String → Option ProjectionEnvelope

/-- What was written is read back. -/
def Json.RoundTrips (json : Json) : Prop :=
  ∀ envelope text, json.encode envelope = some text → json.decode text = some envelope

structure ProjectionReplayRow where
  eventSeq : ℕ
  payloadJson : String
  payloadBytes : ℕ
  deriving DecidableEq

inductive StreamLifecycle
  | active
  | invalidated
  | rebound
  deriving DecidableEq

/-- A stream with its events in the order of their sequence numbers. -/
structure ProjectionStream where
  descriptor : ProjectionStreamDescriptor
  nextSeq : ℕ
  lifecycle : StreamLifecycle
  events : List ProjectionReplayRow
  deriving DecidableEq

/-- Put a row in its place; the sequence number must be free. -/
def ProjectionStream.insertRow (st : ProjectionStream) (row : ProjectionReplayRow) :
    Option ProjectionStream :=
  if st.events.any fun r => decide (r.eventSeq = row.eventSeq) then none
  else
    some { st with
      events := st.events.filter (fun r => decide (r.eventSeq < row.eventSeq)) ++
        row :: st.events.filter fun r => decide (row.eventSeq < r.eventSeq) }

structure ProjectionReplayStore where
  streams : SortedMap ProjectionStreamId ProjectionStream

namespace ProjectionReplayStore

def empty : ProjectionReplayStore := ⟨.empty⟩

/-- The stream with that identifier, whatever its lifecycle. -/
def stream (s : ProjectionReplayStore) (id : ProjectionStreamId) : Option ProjectionStream :=
  s.streams.get? id

/-- The event rows of a stream. -/
def rows (s : ProjectionReplayStore) (id : ProjectionStreamId) : List ProjectionReplayRow :=
  ((s.stream id).map (·.events)).getD []

def update (s : ProjectionReplayStore) (id : ProjectionStreamId)
    (f : ProjectionStream → ProjectionStream) : ProjectionReplayStore :=
  ⟨s.streams.modify id f⟩

theorem stream_update (s : ProjectionReplayStore) (id id' : ProjectionStreamId)
    (f : ProjectionStream → ProjectionStream) :
    (s.update id f).stream id' = if id' = id then (s.stream id).map f else s.stream id' :=
  SortedMap.get?_modify _ _ _ _

/-! ### Streams -/

/-- Insert a stream, unless there is one with that identifier. -/
def insertStream (s : ProjectionReplayStore) (id : ProjectionStreamId)
    (kind : ProjectionStreamKind) (projectId : String) (workspaceId sessionId : Option String) :
    ProjectionReplayStore :=
  match s.stream id with
  | some _ => s
  | none =>
    ⟨s.streams.insert id
      { descriptor :=
          { streamId := id
            kind := kind
            projectId := projectId
            workspaceId := workspaceId
            sessionId := sessionId
            projectionVersion := 1
            retentionFloorSeq := 0
            highWaterSeq := 0
            latestCheckpointSeq := none }
        nextSeq := 1
        lifecycle := .active
        events := [] }⟩

def setLifecycle (s : ProjectionReplayStore) (id : ProjectionStreamId)
    (lifecycle : StreamLifecycle) : ProjectionReplayStore :=
  s.update id fun st => { st with lifecycle := lifecycle }

def lookupStreamById (s : ProjectionReplayStore) (id : ProjectionStreamId) :
    Option ProjectionStreamDescriptor :=
  (s.stream id).bind fun st => if st.lifecycle = .active then some st.descriptor else none

def loadActiveStreams (s : ProjectionReplayStore) : List ProjectionStreamDescriptor :=
  (s.streams.values.filter fun st => decide (st.lifecycle = .active)).map (·.descriptor)

/-! ### Publication -/

def nextEventSeqTx (s : ProjectionReplayStore) (id : ProjectionStreamId) :
    Option (ℕ × ProjectionReplayStore) :=
  (s.stream id).map fun st =>
    (st.nextSeq, s.update id fun st => { st with nextSeq := st.nextSeq + 1 })

def insertEventTx (json : Json) (s : ProjectionReplayStore) (id : ProjectionStreamId)
    (eventSeq : ℕ) (envelope : ProjectionEnvelope) : Option ProjectionReplayStore := do
  let payloadJson ← json.encode envelope
  let st ← s.stream id
  let st ← st.insertRow ⟨eventSeq, payloadJson, payloadJson.utf8ByteSize⟩
  return s.update id fun _ => st

def updateHighWaterTx (s : ProjectionReplayStore) (id : ProjectionStreamId) (eventSeq : ℕ) :
    ProjectionReplayStore :=
  s.update id fun st => { st with descriptor := { st.descriptor with highWaterSeq := eventSeq } }

/-- Persist one event under the next number of its stream. -/
def persistEvent (json : Json) (s : ProjectionReplayStore) (id : ProjectionStreamId)
    (projection : ProjectionEnvelope) : Option (ProjectionReplayStore × ProjectionEnvelope) := do
  let (eventSeq, s) ← s.nextEventSeqTx id
  let envelope := { projection with eventSeq := eventSeq }
  let s ← s.insertEventTx json id eventSeq envelope
  return (s.updateHighWaterTx id eventSeq, envelope)

/-- The body of the publication transaction, with what it persisted. -/
def persistEvents (json : Json) (s : ProjectionReplayStore) :
    List (ProjectionStreamId × ProjectionEnvelope) →
      Option (ProjectionReplayStore × List (ProjectionStreamId × ProjectionEnvelope))
  | [] => some (s, [])
  | (id, projection) :: projections => do
    let (s, envelope) ← s.persistEvent json id projection
    let (s, persisted) ← persistEvents json s projections
    return (s, (id, envelope) :: persisted)

/-- Publish some events, each in the stream resolved for it, or none of them. -/
def publish (json : Json) (s : ProjectionReplayStore)
    (projections : List (ProjectionStreamId × ProjectionEnvelope)) :
    ProjectionReplayStore × List (ProjectionStreamId × ProjectionEnvelope) :=
  (s.persistEvents json projections).getD (s, [])

/-! ### Pages -/

/-- The rows that fit, and the first in any case. -/
def pageRows (maxBytes : ℕ) : ℕ → List ProjectionReplayRow → List ProjectionReplayRow →
    List ProjectionReplayRow
  | _, result, [] => result
  | totalBytes, result, row :: rows =>
    let totalBytes := totalBytes + row.payloadBytes
    if totalBytes > maxBytes ∧ !result.isEmpty then result
    else pageRows maxBytes totalBytes (result ++ [row]) rows

/-- The limit of a query; one that is negative as a 64-bit integer is none. -/
def limitRows (maxCount : ℕ) (rows : List ProjectionReplayRow) : List ProjectionReplayRow :=
  if maxCount < 2 ^ 63 then rows.take maxCount else rows

def eventsAfter (s : ProjectionReplayStore) (id : ProjectionStreamId)
    (fromSeq maxCount maxBytes : ℕ) : List ProjectionReplayRow :=
  pageRows maxBytes 0 []
    (limitRows maxCount ((s.rows id).filter fun r => decide (fromSeq < r.eventSeq)))

/-! ### Pruning -/

/-- The first statement of a pruning. -/
def deleteBefore (s : ProjectionReplayStore) (id : ProjectionStreamId) (retentionFloorSeq : ℕ) :
    ProjectionReplayStore :=
  s.update id fun st =>
    { st with events := st.events.filter fun r => !decide (r.eventSeq < retentionFloorSeq) }

/-- The second. -/
def setRetentionFloor (s : ProjectionReplayStore) (id : ProjectionStreamId)
    (retentionFloorSeq : ℕ) : ProjectionReplayStore :=
  s.update id fun st =>
    { st with descriptor := { st.descriptor with retentionFloorSeq := retentionFloorSeq } }

end ProjectionReplayStore

structure RetentionPolicy where
  sessionMaxEvents : ℕ
  projectMaxEvents : ℕ

/-- The floor that a maintenance tick prunes a stream to, if it has too many events. -/
def RetentionPolicy.newFloor (policy : RetentionPolicy) (desc : ProjectionStreamDescriptor)
    (eventCount : ℕ) : Option ℕ :=
  let maxEvents :=
    match desc.kind with
    | .session => policy.sessionMaxEvents
    | .project => policy.projectMaxEvents
  if eventCount > maxEvents then
    some (max (desc.highWaterSeq - maxEvents + 1) (desc.retentionFloorSeq + (eventCount - maxEvents)))
  else none

/-! ### Resuming -/

def maxReplayEvents : ℕ := 512
def maxReplayBytes : ℕ := 1024 * 1024

/-- What a resume knows of its subscription. -/
structure ReplaySubscription where
  streamId : ProjectionStreamId
  projectionVersion : ℕ

inductive ResumeOutcome
  | replayed (events : List ProjectionEnvelope) (currentHighWater : ℕ)
    (nextCursor : ProjectionCursor)
  | empty (currentHighWater : ℕ) (nextCursor : ProjectionCursor)
  | resync (reason : ProjectionResyncReason) (descriptor : Option ProjectionStreamDescriptor)
    (requestedCursor : Option ProjectionCursor)

/-- The first read: the row of the stream. It answers, or the events are read next. -/
def resumeLookup (sub : ReplaySubscription) (cursor : ProjectionCursor)
    (s : ProjectionReplayStore) : Except ResumeOutcome ProjectionStreamDescriptor :=
  if sub.streamId ≠ cursor.streamId then .error (.resync .streamMismatch none (some cursor))
  else
    match s.lookupStreamById cursor.streamId with
    | none => .error (.resync .streamMismatch none (some cursor))
    | some desc =>
      if desc.highWaterSeq = cursor.eventSeq then
        .error (.empty desc.highWaterSeq
          ⟨cursor.streamId, desc.highWaterSeq, desc.projectionVersion⟩)
      else if cursor.eventSeq > desc.highWaterSeq then
        .error (.resync .cursorAhead (some desc) (some cursor))
      else if cursor.eventSeq < desc.retentionFloorSeq then
        .error (.resync .historyExpired (some desc) (some cursor))
      else if sub.projectionVersion ≠ desc.projectionVersion then
        .error (.resync .versionMismatch (some desc) (some cursor))
      else .ok desc

/-- The answer from the rows of the second read. -/
def resumeRows (json : Json) (cursor : ProjectionCursor) (desc : ProjectionStreamDescriptor)
    (events : List ProjectionReplayRow) : ResumeOutcome :=
  let lastSeq := (events.getLast?.map (·.eventSeq)).getD cursor.eventSeq
  let envelopes := events.filterMap fun row => json.decode row.payloadJson
  if envelopes.isEmpty ∧ cursor.eventSeq < desc.highWaterSeq then
    .resync .historyGap (some desc) (some cursor)
  else
    .replayed envelopes desc.highWaterSeq ⟨cursor.streamId, lastSeq, desc.projectionVersion⟩

/-- The second read: the events after the cursor. -/
def resumeEvents (json : Json) (cursor : ProjectionCursor) (desc : ProjectionStreamDescriptor)
    (s : ProjectionReplayStore) : ResumeOutcome :=
  resumeRows json cursor desc
    (s.eventsAfter cursor.streamId cursor.eventSeq maxReplayEvents maxReplayBytes)

end Codegg.Projection
