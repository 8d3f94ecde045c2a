import Mathlib.Data.Prod.Lex
import Codegg.Jobs.Record

/-!
# Schedules

The schedule store in memory and its tick: the due schedules and the occurrences that
each owes are planned, the occurrences materialized, and the outcomes committed together
with the cursors of the schedules. Job templates, workspaces and labels are not read by
any of this and are left out.
-/
namespace Codegg.Jobs

open Codegg.Library

/-! ### Instants -/

/-- A sum or product of two 64-bit integers in a release build. -/
def i64 (x : ℤ) : ℤ := Int.bmod x (2 ^ 64)

/-- An instant of the clock library, in whole seconds and nanoseconds. -/
structure DateTime where
  secs : ℤ
  nanos : ℕ
  le_secs : -8334601228800 ≤ secs
  secs_le : secs ≤ 8210266876799
  deriving DecidableEq

namespace DateTime

theorem ext_of {a b : DateTime} (hs : a.secs = b.secs) (hn : a.nanos = b.nanos) : a = b := by
  cases a
  cases hs
  cases hn
  rfl

instance : LinearOrder DateTime :=
  LinearOrder.lift' (fun d : DateTime => toLex (d.secs, d.nanos)) fun a b h => by
    have hpair := toLex.injective h
    exact ext_of (congrArg Prod.fst hpair) (congrArg Prod.snd hpair)

theorem le_iff {a b : DateTime} :
    a ≤ b ↔ a.secs < b.secs ∨ a.secs = b.secs ∧ a.nanos ≤ b.nanos := Prod.Lex.le_iff

theorem lt_iff {a b : DateTime} :
    a < b ↔ a.secs < b.secs ∨ a.secs = b.secs ∧ a.nanos < b.nanos := Prod.Lex.lt_iff

/-- The instant of a timestamp, if the clock library has it. -/
def fromTimestamp (secs : ℤ) : Option DateTime :=
  if h : -8334601228800 ≤ secs ∧ secs ≤ 8210266876799 then some ⟨secs, 0, h.1, h.2⟩ else none

end DateTime

/-! ### Records -/

inductive ScheduleState
  | active | paused | completed | archived
  deriving DecidableEq, Repr

/-- No state leads out of it. -/
def ScheduleState.isTerminal : ScheduleState → Bool
  | completed | archived => true
  | active | paused => false

inductive ScheduleKind
  | oneShot (runAt : DateTime)
  /-- The period is in whole seconds; no more of it is read. -/
  | interval (every : UInt64) (anchor : DateTime)

inductive OverlapPolicy
  | skipIfRunning | queueOne | allow
  deriving DecidableEq, Repr

inductive MissedRunPolicy
  | skip
  | runOnceNow
  | catchUpBounded (maxOccurrences : ℕ)
  deriving DecidableEq, Repr

structure ScheduleRecord where
  scheduleId : ScheduleId
  kind : ScheduleKind
  state : ScheduleState
  overlapPolicy : OverlapPolicy
  missedRunPolicy : MissedRunPolicy
  nextRunAt : Option DateTime
  lastOccurrenceAt : Option DateTime
  createdAt : DateTime
  updatedAt : DateTime

structure ScheduleTemplate where
  kind : ScheduleKind
  overlapPolicy : OverlapPolicy
  missedRunPolicy : MissedRunPolicy
  nextRunAt : Option DateTime

inductive ScheduleError
  | scheduleNotFound (id : ScheduleId)
  | terminal (id : ScheduleId) (state : ScheduleState)
  deriving DecidableEq, Repr

inductive OccurrenceStatus
  | pending | queued | skipped | suppressed | failed
  deriving DecidableEq, Repr

structure ClaimedOccurrence where
  scheduleId : ScheduleId
  scheduledFor : DateTime
  jobId : Option JobId
  status : OccurrenceStatus
  failureCode : Option String

inductive MaterializerError
  | jobStore (message : String)
  | invalidTemplate (message : String)
  | refused (code : String)

def MaterializerError.code : MaterializerError → String
  | jobStore _ => "job_store_error"
  | invalidTemplate _ => "invalid_template"
  | refused code => code

/-- What turns an occurrence of a schedule into a job. -/
abbrev Materializer := ScheduleRecord → DateTime → Except MaterializerError JobId

/-! ### Occurrences -/

/-- The next run of a schedule; `last` is the last occurrence that was decided. -/
def computeNextRun (kind : ScheduleKind) (now : DateTime) (last : Option DateTime) :
    Option DateTime :=
  match kind with
  | .oneShot runAt => if last.isSome then none else some runAt
  | .interval every anchor =>
    if every.toNat = 0 then none
    else
      let everySecs := i64 every.toNat
      let base := (last.map (·.secs)).getD anchor.secs
      let next :=
        if now.secs ≤ base then base
        else
          i64 (base +
            i64 (Int.tdiv (i64 (i64 (i64 (now.secs - base) + everySecs) - 1)) everySecs * everySecs))
      DateTime.fromTimestamp next

/-- The instants at which an interval has an occurrence from `start` to `now`. -/
def intervalCandidates (start everySecs now : ℤ) : List DateTime :=
  if start > now then []
  else
    let count := i64 (Int.tdiv (i64 (now - start)) everySecs + 1)
    (List.range count.toNat).filterMap fun (i : ℕ) =>
      DateTime.fromTimestamp (i64 (start + i64 ((i : ℤ) * everySecs)))

/-- The occurrences that should run now. -/
def missedRunTargets (kind : ScheduleKind) (lastFired : Option DateTime) (now : DateTime)
    (policy : MissedRunPolicy) : List DateTime :=
  let candidates :=
    match kind with
    | .oneShot runAt =>
      if lastFired.isSome then [] else if runAt ≤ now then [runAt] else []
    | .interval every anchor =>
      let everySecs := i64 every.toNat
      if everySecs = 0 then []
      else
        let start := (lastFired.map fun d => i64 (d.secs + everySecs)).getD anchor.secs
        let out := intervalCandidates start everySecs now.secs
        match policy with
        | .catchUpBounded maxOccurrences =>
          if out.length > maxOccurrences then out.drop (out.length - maxOccurrences) else out
        | _ => out
  match policy with
  | .skip => []
  | .runOnceNow => candidates.getLast?.toList
  | .catchUpBounded _ => candidates

/-! ### Materializing -/

/-- What the tick decided about an occurrence. -/
inductive OccurrenceOutcome
  | queued (job : JobId)
  | skipped
  | failed (code : String)

def OccurrenceOutcome.isFailed : OccurrenceOutcome → Bool
  | failed _ => true
  | _ => false

structure SchedulePlan where
  schedule : ScheduleRecord
  targets : List DateTime
  /-- How many of the schedule's jobs are running. -/
  running : ℕ

structure ScheduleOutcome where
  scheduleId : ScheduleId
  kind : ScheduleKind
  decided : List (DateTime × OccurrenceOutcome)

namespace ScheduleOutcome

def lastDecided (o : ScheduleOutcome) : Option DateTime :=
  (o.decided.reverse.find? fun d => !d.2.isFailed).map (·.1)

def firstFailed (o : ScheduleOutcome) : Option DateTime :=
  (o.decided.find? fun d => d.2.isFailed).map (·.1)

end ScheduleOutcome

def shouldSkip (overlap : OverlapPolicy) (running : ℕ) : Bool :=
  match overlap with
  | .skipIfRunning => decide (running > 0)
  | .queueOne => decide (running > 0)
  | .allow => false

/-- Decide about the targets in order; a refusal ends it. -/
def decideTargets (materialize : Materializer) (schedule : ScheduleRecord) :
    List DateTime → ℕ → List (DateTime × OccurrenceOutcome)
  | [], _ => []
  | target :: targets, running =>
    if shouldSkip schedule.overlapPolicy running then
      (target, .skipped) :: decideTargets materialize schedule targets running
    else
      match materialize schedule target with
      | .ok job =>
        (target, .queued job) :: decideTargets materialize schedule targets (running + 1)
      | .error e => [(target, .failed e.code)]

def materializePlan (materialize : Materializer) (plan : SchedulePlan) : ScheduleOutcome where
  scheduleId := plan.schedule.scheduleId
  kind := plan.schedule.kind
  decided := decideTargets materialize plan.schedule plan.targets plan.running

/-- The next horizon of a schedule after a tick, which is not past a refused occurrence. -/
def nextHorizon (kind : ScheduleKind) (now : DateTime) (lastDecided firstFailed : Option DateTime) :
    Option DateTime :=
  let next := computeNextRun kind now lastDecided
  match firstFailed with
  | some failedAt =>
    match next with
    | some candidate => if candidate < failedAt then some candidate else some failedAt
    | none => some failedAt
  | none => next

/-! ### The store -/

structure OccurrenceRow where
  scheduleId : ScheduleId
  scheduledFor : DateTime
  jobId : Option JobId
  status : OccurrenceStatus
  timeCreated : DateTime

structure InMemoryScheduleStore where
  schedules : SortedMap ScheduleId ScheduleRecord
  occurrences : SortedMap (ScheduleId ×ₗ ℤ) OccurrenceRow
  /-- A record is kept under its own identifier. -/
  keyed : ∀ id r, schedules.get? id = some r → r.scheduleId = id

namespace InMemoryScheduleStore

def empty : InMemoryScheduleStore where
  schedules := .empty
  occurrences := .empty
  keyed := fun _ _ h => by cases h

/-- Put a record under its identifier. -/
def put (s : InMemoryScheduleStore) (r : ScheduleRecord) : InMemoryScheduleStore where
  schedules := s.schedules.insert r.scheduleId r
  occurrences := s.occurrences
  keyed := by
    intro id r' h
    rw [SortedMap.get?_insert] at h
    split at h
    · next hid =>
      cases h
      exact hid.symm
    · exact s.keyed id r' h

def newRecord (fresh : ScheduleId) (template : ScheduleTemplate) (now : DateTime) :
    ScheduleRecord where
  scheduleId := fresh
  kind := template.kind
  state := .active
  overlapPolicy := template.overlapPolicy
  missedRunPolicy := template.missedRunPolicy
  nextRunAt := some (template.nextRunAt.getD ((computeNextRun template.kind now none).getD now))
  lastOccurrenceAt := none
  createdAt := now
  updatedAt := now

/-- Create a schedule under a fresh identifier. -/
def create (s : InMemoryScheduleStore) (fresh : ScheduleId) (template : ScheduleTemplate)
    (now : DateTime) : InMemoryScheduleStore :=
  s.put (newRecord fresh template now)

/-- Pause, resume, complete or archive a schedule. -/
def setState (s : InMemoryScheduleStore) (id : ScheduleId) (state : ScheduleState)
    (now : DateTime) : Except ScheduleError (InMemoryScheduleStore × ScheduleRecord) :=
  match s.schedules.get? id with
  | none => .error (.scheduleNotFound id)
  | some record =>
    if record.state.isTerminal then .error (.terminal id record.state)
    else
      let updated := { record with state := state, updatedAt := now }
      .ok (s.put updated, updated)

/-- Remove a schedule and its occurrences. -/
def delete (s : InMemoryScheduleStore) (id : ScheduleId) : InMemoryScheduleStore where
  schedules := s.schedules.filterKeys fun k => !decide (k = id)
  occurrences := s.occurrences.filterKeys fun k => !decide ((ofLex k).1 = id)
  keyed := by
    intro k r h
    rw [SortedMap.get?_filterKeys] at h
    split at h
    · exact s.keyed k r h
    · cases h

/-- Whether a schedule is due. -/
def isDue (now : DateTime) (r : ScheduleRecord) : Bool :=
  decide (r.state = .active) && r.nextRunAt.any fun t => decide (t ≤ now)

/-- The due schedules and the occurrences that each owes. -/
def planDue (s : InMemoryScheduleStore) (now : DateTime) (running : ScheduleId → ℕ) :
    List SchedulePlan :=
  (s.schedules.values.filter (isDue now)).map fun schedule =>
    { schedule := schedule
      targets := missedRunTargets schedule.kind schedule.lastOccurrenceAt now
        schedule.missedRunPolicy
      running := running schedule.scheduleId }

/-- What the caller is told of a decision. -/
def claimOf (id : ScheduleId) (d : DateTime × OccurrenceOutcome) : ClaimedOccurrence :=
  match d.2 with
  | .queued job => ⟨id, d.1, some job, .queued, none⟩
  | .skipped => ⟨id, d.1, none, .skipped, none⟩
  | .failed code => ⟨id, d.1, none, .failed, some code⟩

/-- Record an occurrence that was not refused, unless it is on record already. -/
def recordOccurrence (id : ScheduleId) (now : DateTime)
    (occurrences : SortedMap (ScheduleId ×ₗ ℤ) OccurrenceRow) (d : DateTime × OccurrenceOutcome) :
    SortedMap (ScheduleId ×ₗ ℤ) OccurrenceRow :=
  if d.2.isFailed then occurrences
  else
    let claim := claimOf id d
    occurrences.upsert (toLex (id, d.1.secs)) fun old =>
      old.getD ⟨id, d.1, claim.jobId, claim.status, now⟩

/-- The cursor after an outcome: it only advances. -/
def newLast (stored planned : Option DateTime) : Option DateTime :=
  match stored, planned with
  | some stored, some planned => some (max stored planned)
  | none, planned => planned
  | stored, none => stored

/-- A schedule after its outcome has been committed. -/
def commitRecord (o : ScheduleOutcome) (now : DateTime) (r : ScheduleRecord) : ScheduleRecord :=
  let next := nextHorizon o.kind now o.lastDecided o.firstFailed
  { r with
    lastOccurrenceAt := newLast r.lastOccurrenceAt o.lastDecided
    nextRunAt := next
    updatedAt := now
    state :=
      match r.kind with
      | .oneShot _ => if next.isNone then .completed else r.state
      | .interval _ _ => r.state }

def commitOutcome (now : DateTime) (s : InMemoryScheduleStore) (o : ScheduleOutcome) :
    InMemoryScheduleStore where
  schedules := s.schedules.modify o.scheduleId (commitRecord o now)
  occurrences := o.decided.foldl (recordOccurrence o.scheduleId now) s.occurrences
  keyed := by
    intro id r h
    rw [SortedMap.get?_modify] at h
    split at h
    · next hid =>
      obtain ⟨r', hr', rfl⟩ := Option.map_eq_some_iff.mp h
      exact (s.keyed o.scheduleId r' hr').trans hid.symm
    · exact s.keyed id r h

/-- Record the decided occurrences and advance the cursors. -/
def commitOutcomes (s : InMemoryScheduleStore) (outcomes : List ScheduleOutcome) (now : DateTime) :
    InMemoryScheduleStore × List ClaimedOccurrence :=
  (outcomes.foldl (commitOutcome now) s,
    outcomes.flatMap fun o => o.decided.map (claimOf o.scheduleId))

/-- One tick. -/
def claimDue (s : InMemoryScheduleStore) (now : DateTime) (running : ScheduleId → ℕ)
    (materialize : Materializer) : InMemoryScheduleStore × List ClaimedOccurrence :=
  s.commitOutcomes ((s.planDue now running).map (materializePlan materialize)) now

/-! ### Runs of ticks -/

/-- When a tick happens, and how many jobs each schedule has running then. -/
structure Tick where
  now : DateTime
  running : ScheduleId → ℕ

/-- Ticks one after the other, with all they claimed. -/
def ticks (materialize : Materializer) (s : InMemoryScheduleStore) :
    List Tick → InMemoryScheduleStore × List ClaimedOccurrence
  | [] => (s, [])
  | t :: ts =>
    let (s', claimed) := s.claimDue t.now t.running materialize
    let (s'', others) := ticks materialize s' ts
    (s'', claimed ++ others)

end InMemoryScheduleStore

/-- The instants of the occurrences of a schedule that became jobs, in order. -/
def materializedTimes (id : ScheduleId) (claimed : List ClaimedOccurrence) : List DateTime :=
  (claimed.filter fun c => decide (c.scheduleId = id) && decide (c.status = .queued)).map
    (·.scheduledFor)

end Codegg.Jobs
