import Mathlib.Data.List.Sort
import Codegg.Library.Numbered

/-!
# The event log

Events get their sequence numbers from a counter. Then each is pushed on a bounded ring, stored
in the database if it is important, and sent to the subscribers. Other publishers take their
steps in between.
-/
namespace Codegg.CoreEvents

section Events

inductive CoreEventKind
  | turnStarted
  | turnCompleted
  | turnFailed
  | toolStarted
  | toolCompleted
  | permissionPending
  | questionPending
  | subagentStarted
  | subagentCompleted
  | subagentFailed
  | agentRunUpserted
  | agentRunTerminal
  | agentRunControlUpdated
  | worktreeUpserted
  | agentRunGroupUpserted
  | sessionUpdated
  | assetRefreshCompleted
  | backgroundJobCompleted
  | error
  /-- A delta, a snapshot or another event that is not stored. -/
  | other (eventType : String)
  deriving DecidableEq

structure CoreEvent where
  kind : CoreEventKind
  payloadJson : String
  deriving DecidableEq

def shouldPersist (event : CoreEvent) : Bool :=
  match event.kind with
  | .other _ => false
  | _ => true

structure Envelope where
  eventSeq : ℕ
  timestampMs : ℤ
  sessionId : Option String
  turnId : Option String
  payload : CoreEvent
  deriving DecidableEq

structure EventFilter where
  sessionId : Option String
  includeGlobal : Bool

def eventMatchesFilter (filter : EventFilter) (event : Envelope) : Bool :=
  match filter.sessionId, filter.includeGlobal with
  | some sid, true => event.sessionId = some sid ∨ event.sessionId = none
  | some sid, false => event.sessionId = some sid
  | none, _ => event.sessionId = none

/-- A row of `core_event_log`. -/
structure CoreEventRow where
  eventSeq : ℕ
  sessionId : Option String
  turnId : Option String
  payload : CoreEvent
  deriving DecidableEq

/-- What an event is but for the time. -/
def Envelope.row (event : Envelope) : CoreEventRow where
  eventSeq := event.eventSeq
  sessionId := event.sessionId
  turnId := event.turnId
  payload := event.payload

/-- The time that SQLite gives a row has no offset, so it is not read as RFC 3339. -/
def CoreEventRow.envelope (row : CoreEventRow) : Envelope where
  eventSeq := row.eventSeq
  timestampMs := 0
  sessionId := row.sessionId
  turnId := row.turnId
  payload := row.payload

end Events

section Log

/-- How far a publisher is. -/
inductive Phase
  | sequenced
  | pushed
  | inserted
  deriving DecidableEq

structure EventLog where
  capacity : ℕ
  nextSeq : ℕ
  ring : List Envelope
  /-- The rows, if there is a database. -/
  rows : Option (List CoreEventRow)
  publishing : List (Envelope × Phase)

def EventLog.new (capacity : ℕ) (hasPool : Bool) : EventLog where
  capacity
  nextSeq := 1
  ring := []
  rows := if hasPool then some [] else none
  publishing := []

namespace EventLog

variable (log : EventLog)

/-- `next_seq.fetch_add(1)`. -/
def fetchSeq (timestampMs : ℤ) (sessionId turnId : Option String) (payload : CoreEvent) :
    Envelope × EventLog :=
  let envelope : Envelope := ⟨log.nextSeq, timestampMs, sessionId, turnId, payload⟩
  (envelope, { log with
    nextSeq := log.nextSeq + 1
    publishing := log.publishing ++ [(envelope, .sequenced)] })

def pushRing (envelope : Envelope) : List Envelope :=
  (if log.capacity ≤ log.ring.length then log.ring.tail else log.ring) ++ [envelope]

/-- `INSERT OR IGNORE`: a row with the number stays as it is. -/
def insertRow (rows : List CoreEventRow) (row : CoreEventRow) : List CoreEventRow :=
  if row.eventSeq ∈ rows.map CoreEventRow.eventSeq then rows else rows ++ [row]

/-- Only numbers in the range of SQLite's integers are stored. -/
def persists (envelope : Envelope) : Bool :=
  shouldPersist envelope.payload && decide (envelope.eventSeq < 2 ^ 63)

def persist (envelope : Envelope) : Option (List CoreEventRow) :=
  if persists envelope then log.rows.map (insertRow · envelope.row) else log.rows

def saturatingSucc (n : ℕ) : ℕ := min (n + 1) (2 ^ 64 - 1)

def currentSeq : ℕ := log.nextSeq - 1

/-- The rows that a query selects, in the order of their numbers. -/
def selectRows (rows : List CoreEventRow) (selects : CoreEventRow → Bool) : List CoreEventRow :=
  (rows.filter selects).insertionSort fun r r' => r.eventSeq ≤ r'.eventSeq

/-- The condition of the query for a filter. -/
def rowMatchesFilter (filter : EventFilter) (row : CoreEventRow) : Bool :=
  match filter.sessionId, filter.includeGlobal with
  | some sid, true => row.sessionId = some sid ∨ row.sessionId = none
  | some sid, false => row.sessionId = some sid
  | none, _ => row.sessionId = none

def replayFromDb (rows : List CoreEventRow) (fromEventSeq : ℕ) (filter : EventFilter) :
    List Envelope :=
  if fromEventSeq < 2 ^ 63 then
    ((selectRows rows fun row =>
        decide (fromEventSeq < row.eventSeq) && rowMatchesFilter filter row).map
      CoreEventRow.envelope).filter (eventMatchesFilter filter)
  else []

/-- What the ring still has of the events after a number. -/
def ringEvents (fromEventSeq : ℕ) (filter : EventFilter) : List Envelope :=
  (log.ring.filter fun event => fromEventSeq < event.eventSeq).filter (eventMatchesFilter filter)

def replayFrom (fromEventSeq : ℕ) (filter : EventFilter) : List Envelope :=
  let ringEvents := log.ringEvents fromEventSeq filter
  if ringEvents.head?.any fun first => first.eventSeq ≤ saturatingSucc fromEventSeq then ringEvents
  else
    match log.rows with
    | some rows => replayFromDb rows fromEventSeq filter
    | none => ringEvents

def dbCoversFrom (rows : List CoreEventRow) (fromEventSeq : ℕ) : Bool :=
  match (rows.map CoreEventRow.eventSeq).min?, (rows.map CoreEventRow.eventSeq).max? with
  | some lo, some hi =>
    let need := min (fromEventSeq + 1) (2 ^ 63 - 1)
    decide (fromEventSeq < 2 ^ 63) && decide (lo ≤ need) && decide (need ≤ hi)
  | _, _ => false

def coversFrom (fromEventSeq : ℕ) : Bool :=
  if log.currentSeq ≤ fromEventSeq then true
  else if log.ring.head?.any fun front => front.eventSeq ≤ saturatingSucc fromEventSeq then true
  else
    match log.rows with
    | some rows => dbCoversFrom rows fromEventSeq
    | none => false

end EventLog

end Log

section Runs

/-- A log and the events that were given a number in it, in the order of their numbers. -/
structure History where
  log : EventLog
  published : List Envelope

/-- A step of a publisher. Those of different publishers come in any order. -/
inductive Step : History → History → Prop
  | fetchSeq (h : History) (timestampMs : ℤ) (sessionId turnId : Option String)
    (payload : CoreEvent) :
    Step h ⟨(h.log.fetchSeq timestampMs sessionId turnId payload).2,
      h.published ++ [(h.log.fetchSeq timestampMs sessionId turnId payload).1]⟩
  | push (h : History) (before after : List (Envelope × Phase)) (envelope : Envelope)
    (hat : h.log.publishing = before ++ (envelope, .sequenced) :: after) :
    Step h { h with log := { h.log with
      ring := h.log.pushRing envelope
      publishing := before ++ (envelope, .pushed) :: after } }
  | insert (h : History) (before after : List (Envelope × Phase)) (envelope : Envelope)
    (hat : h.log.publishing = before ++ (envelope, .pushed) :: after) :
    Step h { h with log := { h.log with
      rows := h.log.persist envelope
      publishing := before ++ (envelope, .inserted) :: after } }
  /-- The subscribers get the event, and `publish` returns. -/
  | send (h : History) (before after : List (Envelope × Phase)) (envelope : Envelope)
    (hat : h.log.publishing = before ++ (envelope, .inserted) :: after) :
    Step h { h with log := { h.log with publishing := before ++ after } }

/-- The histories that publishers can bring about. -/
inductive Reachable (capacity : ℕ) (hasPool : Bool) : History → Prop
  | new : Reachable capacity hasPool ⟨.new capacity hasPool, []⟩
  | step {h h' : History} (hreach : Reachable capacity hasPool h) (hstep : Step h h') :
    Reachable capacity hasPool h'

end Runs

end Codegg.CoreEvents
