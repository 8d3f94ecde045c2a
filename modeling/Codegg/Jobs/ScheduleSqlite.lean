import Codegg.Jobs.Schedule

/-!
# The SQLite schedule store

The tables `schedule` and `schedule_occurrence`, and the operations of the store as the
SQL statements they send. Instants are stored in whole milliseconds, and the cursor
that the next run is computed from is the one that is about to be stored. Columns that
hold an enumeration or a JSON text are given by the value they encode.
-/
namespace Codegg.Jobs

open Codegg.Library DateTime InMemoryScheduleStore

namespace DateTime

/-- `timestamp_millis`, which rounds down. -/
def timestampMillis (d : DateTime) : ℤ := d.secs * 1000 + d.nanos / 1000000

/-- `from_timestamp_millis` -/
def fromTimestampMillis (ms : ℤ) : Option DateTime :=
  if h : -8334601228800 ≤ ms / 1000 ∧ ms / 1000 ≤ 8210266876799 then
    some ⟨ms / 1000, (ms % 1000).toNat * 1000000, h.1, h.2⟩
  else none

end DateTime

structure ScheduleRow where
  id : ScheduleId
  kind : ScheduleKind
  state : ScheduleState
  overlapPolicy : OverlapPolicy
  missedRunPolicy : MissedRunPolicy
  nextRunAt : Option ℤ
  lastOccurrenceAt : Option ℤ
  timeCreated : ℤ
  timeUpdated : ℤ

structure ScheduleOccurrenceRow where
  scheduleId : ScheduleId
  scheduledFor : ℤ
  jobId : Option JobId
  status : OccurrenceStatus
  timeCreated : ℤ

/-- A record as it is read at some time. -/
def rowToSchedule (readAt : DateTime) (row : ScheduleRow) : ScheduleRecord where
  scheduleId := row.id
  kind := row.kind
  state := row.state
  overlapPolicy := row.overlapPolicy
  missedRunPolicy := row.missedRunPolicy
  nextRunAt := row.nextRunAt.bind fromTimestampMillis
  lastOccurrenceAt := row.lastOccurrenceAt.bind fromTimestampMillis
  createdAt := (fromTimestampMillis row.timeCreated).getD readAt
  updatedAt := (fromTimestampMillis row.timeUpdated).getD readAt

structure SqliteScheduleStore where
  schedule : SortedMap ScheduleId ScheduleRow
  occurrence : SortedMap (ScheduleId ×ₗ ℤ) ScheduleOccurrenceRow
  /-- The primary key of `schedule`. -/
  keyed : ∀ id row, schedule.get? id = some row → row.id = id

namespace SqliteScheduleStore

def empty : SqliteScheduleStore where
  schedule := .empty
  occurrence := .empty
  keyed := fun _ _ h => by cases h

def newRow (fresh : ScheduleId) (template : ScheduleTemplate) (now : DateTime) : ScheduleRow where
  id := fresh
  kind := template.kind
  state := .active
  overlapPolicy := template.overlapPolicy
  missedRunPolicy := template.missedRunPolicy
  nextRunAt := some
    (template.nextRunAt.getD ((computeNextRun template.kind now none).getD now)).timestampMillis
  lastOccurrenceAt := none
  timeCreated := now.timestampMillis
  timeUpdated := now.timestampMillis

/-- `INSERT INTO schedule`; an identifier that is taken is a storage error, which leaves the
table as it was. -/
def create (db : SqliteScheduleStore) (fresh : ScheduleId) (template : ScheduleTemplate)
    (now : DateTime) : Option SqliteScheduleStore :=
  match db.schedule.get? fresh with
  | some _ => none
  | none => some
    { schedule := db.schedule.insert fresh (newRow fresh template now)
      occurrence := db.occurrence
      keyed := by
        intro id row h
        rw [SortedMap.get?_insert] at h
        split at h
        · next hid =>
          cases h
          exact hid.symm
        · exact db.keyed id row h }

/-- `UPDATE schedule SET … WHERE id = ?`, of columns that are not the key. -/
def update (db : SqliteScheduleStore) (id : ScheduleId) (f : ScheduleRow → ScheduleRow)
    (hf : ∀ row, (f row).id = row.id) : SqliteScheduleStore where
  schedule := db.schedule.modify id f
  occurrence := db.occurrence
  keyed := by
    intro k row h
    rw [SortedMap.get?_modify] at h
    split at h
    · next hid =>
      obtain ⟨row', hrow', rfl⟩ := Option.map_eq_some_iff.mp h
      rw [hf, db.keyed id row' hrow', hid]
    · exact db.keyed k row h

/-- Read the record, refuse a terminal one, write the state and read it again. -/
def setState (db : SqliteScheduleStore) (id : ScheduleId) (state : ScheduleState)
    (now : DateTime) : Except ScheduleError (SqliteScheduleStore × ScheduleRecord) :=
  match db.schedule.get? id with
  | none => .error (.scheduleNotFound id)
  | some existing =>
    if (rowToSchedule now existing).state.isTerminal then .error (.terminal id existing.state)
    else
      let db' := db.update id
        (fun row => { row with state := state, timeUpdated := now.timestampMillis }) fun _ => rfl
      match db'.schedule.get? id with
      | none => .error (.scheduleNotFound id)
      | some row => .ok (db', rowToSchedule now row)

def delete (db : SqliteScheduleStore) (id : ScheduleId) : SqliteScheduleStore where
  schedule := db.schedule.filterKeys fun k => !decide (k = id)
  occurrence := db.occurrence.filterKeys fun k => !decide ((ofLex k).1 = id)
  keyed := by
    intro k row h
    rw [SortedMap.get?_filterKeys] at h
    split at h
    · exact db.keyed k row h
    · cases h

/-- `state = 'active' AND next_run_at IS NOT NULL AND next_run_at <= ?` -/
def isDue (now : DateTime) (row : ScheduleRow) : Bool :=
  decide (row.state = .active) && row.nextRunAt.any fun t => decide (t ≤ now.timestampMillis)

/-- The due schedules and the occurrences each one owes. -/
def planDue (db : SqliteScheduleStore) (now : DateTime) (running : ScheduleId → ℕ) :
    List SchedulePlan :=
  (db.schedule.values.filter (isDue now)).map fun row =>
    let schedule := rowToSchedule now row
    { schedule := schedule
      targets := missedRunTargets schedule.kind schedule.lastOccurrenceAt now
        schedule.missedRunPolicy
      running := running schedule.scheduleId }

/-- `INSERT OR IGNORE INTO schedule_occurrence`, for an occurrence that was not refused. -/
def recordOccurrence (id : ScheduleId) (now : DateTime)
    (occurrence : SortedMap (ScheduleId ×ₗ ℤ) ScheduleOccurrenceRow)
    (d : DateTime × OccurrenceOutcome) : SortedMap (ScheduleId ×ₗ ℤ) ScheduleOccurrenceRow :=
  if d.2.isFailed then occurrence
  else
    let claim := claimOf id d
    occurrence.upsert (toLex (id, d.1.secs)) fun old =>
      old.getD ⟨id, d.1.secs, claim.jobId, claim.status, now.timestampMillis⟩

/-- A row after its outcome has been committed. -/
def commitRow (o : ScheduleOutcome) (now : DateTime) (row : ScheduleRow) : ScheduleRow :=
  let last := newLast
    (row.lastOccurrenceAt.bind fromTimestampMillis) o.lastDecided
  let next := nextHorizon o.kind now last o.firstFailed
  { row with
    lastOccurrenceAt := last.map timestampMillis
    nextRunAt := next.map timestampMillis
    state :=
      match o.kind with
      | .oneShot _ => if next.isNone then .completed else row.state
      | .interval _ _ => row.state
    timeUpdated := now.timestampMillis }

def commitOutcome (now : DateTime) (db : SqliteScheduleStore) (o : ScheduleOutcome) :
    SqliteScheduleStore :=
  { db.update o.scheduleId (commitRow o now) fun _ => rfl with
    occurrence := o.decided.foldl (recordOccurrence o.scheduleId now) db.occurrence }

/-- Record the decided occurrences and advance the cursors, in one transaction. -/
def commitOutcomes (db : SqliteScheduleStore) (outcomes : List ScheduleOutcome)
    (now : DateTime) : SqliteScheduleStore × List ClaimedOccurrence :=
  (outcomes.foldl (commitOutcome now) db,
    outcomes.flatMap fun o => o.decided.map (claimOf o.scheduleId))

/-- One tick. -/
def claimDue (db : SqliteScheduleStore) (now : DateTime) (running : ScheduleId → ℕ)
    (materialize : Materializer) : SqliteScheduleStore × List ClaimedOccurrence :=
  db.commitOutcomes ((db.planDue now running).map (materializePlan materialize)) now

end SqliteScheduleStore

end Codegg.Jobs
