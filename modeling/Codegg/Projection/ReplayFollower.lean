import Codegg.Projection.ReplayHistory

/-!
# Following a stream

A client follows a stream from a cursor by one resume after the other, while events are
published, streams come and go, and maintenance ticks prune, with every statement of the
database a step of its own. It misses nothing exactly if no resume reads the events of the
stream when pruning has deleted the next one and left later ones.
-/
namespace Codegg.Projection

open Codegg.Library

/-! ### Maintenance -/

/-- What a maintenance tick does next with the first of its streams. -/
inductive TickPhase
  | count
  | delete (newFloor : ℕ)
  | setFloor (newFloor : ℕ)

/-- A maintenance tick with the streams that it has not finished. -/
structure MaintenanceTick where
  streams : List ProjectionStreamDescriptor
  phase : TickPhase

def MaintenanceTick.start (s : ProjectionReplayStore) : MaintenanceTick :=
  ⟨s.loadActiveStreams, .count⟩

/-- The next statement of a tick. -/
def MaintenanceTick.next (policy : RetentionPolicy) (s : ProjectionReplayStore) :
    MaintenanceTick → ProjectionReplayStore × MaintenanceTick
  | ⟨[], phase⟩ => (s, ⟨[], phase⟩)
  | ⟨desc :: streams, .count⟩ =>
    let events := s.eventsAfter desc.streamId desc.retentionFloorSeq (2 ^ 64 - 1) (2 ^ 64 - 1)
    match policy.newFloor desc events.length with
    | some newFloor => (s, ⟨desc :: streams, .delete newFloor⟩)
    | none => (s, ⟨streams, .count⟩)
  | ⟨desc :: streams, .delete newFloor⟩ =>
    (s.deleteBefore desc.streamId newFloor, ⟨desc :: streams, .setFloor newFloor⟩)
  | ⟨desc :: streams, .setFloor newFloor⟩ =>
    (s.setRetentionFloor desc.streamId newFloor, ⟨streams, .count⟩)

/-! ### The system -/

/-- An answer to the client, with the sequence number it had asked from and all that had been
published by then. -/
structure Answer where
  asked : ℕ
  published : List (ProjectionStreamId × ProjectionEnvelope)
  outcome : ResumeOutcome

def ResumeOutcome.events : ResumeOutcome → List ProjectionEnvelope
  | replayed events _ _ => events
  | _ => []

/-- Where the client asks from after an answer. -/
def ResumeOutcome.cursor (cursor : ProjectionCursor) : ResumeOutcome → ProjectionCursor
  | replayed _ _ nextCursor => nextCursor
  | empty _ nextCursor => nextCursor
  | resync _ _ _ => cursor

structure ReplaySystem where
  store : ProjectionReplayStore
  ticks : List MaintenanceTick
  /-- All that was ever published, in order. -/
  published : List (ProjectionStreamId × ProjectionEnvelope)
  sub : ReplaySubscription
  cursor : ProjectionCursor
  /-- The stream as a resume in progress has read it. -/
  looked : Option ProjectionStreamDescriptor
  answers : List Answer

inductive ReplayAction
  | publish (projections : List (ProjectionStreamId × ProjectionEnvelope))
  | insertStream (id : ProjectionStreamId) (kind : ProjectionStreamKind) (projectId : String)
    (workspaceId sessionId : Option String)
  | setLifecycle (id : ProjectionStreamId) (lifecycle : StreamLifecycle)
  | startTick
  | nextOfTick (i : ℕ)
  | lookup
  | readEvents

namespace ReplaySystem

def initial (sub : ReplaySubscription) (cursor : ProjectionCursor) : ReplaySystem where
  store := .empty
  ticks := []
  published := []
  sub := sub
  cursor := cursor
  looked := none
  answers := []

/-- The client gets an answer. -/
def answer (σ : ReplaySystem) (outcome : ResumeOutcome) : ReplaySystem :=
  { σ with
    cursor := outcome.cursor σ.cursor
    looked := none
    answers := σ.answers ++ [⟨σ.cursor.eventSeq, σ.published, outcome⟩] }

/-- The first step of a resume, unless one is in progress. -/
def lookup (σ : ReplaySystem) : ReplaySystem :=
  match σ.looked with
  | some _ => σ
  | none =>
    match resumeLookup σ.sub σ.cursor σ.store with
    | .error outcome => σ.answer outcome
    | .ok desc => { σ with looked := some desc }

/-- The second. -/
def readEvents (json : Json) (σ : ReplaySystem) : ReplaySystem :=
  match σ.looked with
  | none => σ
  | some desc => σ.answer (resumeEvents json σ.cursor desc σ.store)

def step (json : Json) (policy : RetentionPolicy) (σ : ReplaySystem) :
    ReplayAction → ReplaySystem
  | .publish projections =>
    let (store, persisted) := σ.store.publish json projections
    { σ with store := store, published := σ.published ++ persisted }
  | .insertStream id kind projectId workspaceId sessionId =>
    { σ with store := σ.store.insertStream id kind projectId workspaceId sessionId }
  | .setLifecycle id lifecycle => { σ with store := σ.store.setLifecycle id lifecycle }
  | .startTick => { σ with ticks := σ.ticks ++ [.start σ.store] }
  | .nextOfTick i =>
    match σ.ticks[i]? with
    | none => σ
    | some tick =>
      let (store, tick) := tick.next policy σ.store
      { σ with store := store, ticks := σ.ticks.set i tick }
  | .lookup => σ.lookup
  | .readEvents => σ.readEvents json

def run (json : Json) (policy : RetentionPolicy) (σ : ReplaySystem)
    (actions : List ReplayAction) : ReplaySystem :=
  actions.foldl (step json policy) σ

/-! ### What the client is promised -/

/-- The events of the stream that is followed. -/
def log (σ : ReplaySystem) : List ProjectionEnvelope := logOf σ.published σ.cursor.streamId

/-- All events the client was sent. -/
def delivered (σ : ReplaySystem) : List ProjectionEnvelope := σ.answers.flatMap (·.outcome.events)

/-- The client that started from `start` was sent the events from there to its cursor, each once
and in order; each page goes on where it was asked from; and when it was told that there is
nothing more, it had been sent all that was published. -/
structure Faithful (start : ℕ) (σ : ReplaySystem) : Prop where
  delivered_eq : σ.delivered =
    σ.log.filter fun e => decide (start < e.eventSeq) && decide (e.eventSeq ≤ σ.cursor.eventSeq)
  replayed : ∀ a ∈ σ.answers, ∀ events highWater next,
    a.outcome = .replayed events highWater next →
      Numbered (·.eventSeq) (a.asked + 1) events ∧ next.eventSeq = a.asked + events.length
  empty : ∀ a ∈ σ.answers, ∀ highWater next, a.outcome = .empty highWater next →
    ∀ e, (σ.cursor.streamId, e) ∈ a.published → start < e.eventSeq → e ∈ σ.delivered

/-- The event after the cursor is still there, or no later one is. -/
def NextHeld (σ : ReplaySystem) : Prop :=
  (∃ row ∈ σ.store.rows σ.cursor.streamId, row.eventSeq = σ.cursor.eventSeq + 1) ∨
    ∀ row ∈ σ.store.rows σ.cursor.streamId, row.eventSeq ≤ σ.cursor.eventSeq

/-- So it is whenever a resume reads the events. -/
def ReadsHeld (json : Json) (policy : RetentionPolicy) : ReplaySystem → List ReplayAction → Prop
  | _, [] => True
  | σ, action :: actions =>
    (action = .readEvents → σ.looked.isSome → σ.NextHeld) ∧
      ReadsHeld json policy (σ.step json policy action) actions

end ReplaySystem

end Codegg.Projection
