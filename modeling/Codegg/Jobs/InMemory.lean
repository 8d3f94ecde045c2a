import Codegg.Jobs.Record
import Codegg.Library.Worklist

/-!
# The in-memory job store

Three tables behind one lock, so an operation is a computation on the whole store.
Every operation carries the clock value it reads and, where it draws a random id, that
id. Hash maps are read in key order; no result depends on it.

The `history` is not part of the program. It records each overwriting of a record by
one in another state, so that the changes made inside one operation can be spoken of.
-/
namespace Codegg.Jobs

open Codegg.Library

/-- A record replaced by one in another state. -/
inductive StateChange where
  | job (id : JobId) (source target : JobState)
  | attempt (id : AttemptId) (source target : AttemptState)
  deriving DecidableEq, Repr

structure Inner where
  jobs : SortedMap JobId JobRecord
  attempts : SortedMap AttemptId JobAttempt
  attemptsByJob : SortedMap JobId (List AttemptId)
  history : List StateChange

namespace Inner

def empty : Inner := ⟨SortedMap.empty, SortedMap.empty, SortedMap.empty, []⟩

def insertJob (s : Inner) (id : JobId) (job : JobRecord) : Inner where
  jobs := s.jobs.insert id job
  attempts := s.attempts
  attemptsByJob := s.attemptsByJob
  history := match s.jobs.get? id with
    | some old => if old.state = job.state then s.history
        else s.history ++ [.job id old.state job.state]
    | none => s.history

def insertAttempt (s : Inner) (id : AttemptId) (attempt : JobAttempt) : Inner where
  jobs := s.jobs
  attempts := s.attempts.insert id attempt
  attemptsByJob := s.attemptsByJob
  history := match s.attempts.get? id with
    | some old => if old.state = attempt.state then s.history
        else s.history ++ [.attempt id old.state attempt.state]
    | none => s.history

def attemptIds (s : Inner) (id : JobId) : List AttemptId := (s.attemptsByJob.get? id).getD []

def pushAttempt (s : Inner) (job : JobId) (id : AttemptId) : Inner :=
  { s with attemptsByJob := s.attemptsByJob.upsert job (fun ids => ids.getD [] ++ [id]) }

end Inner

abbrev StoreM := EStateM JobStoreError Inner

namespace InMemoryJobStore

def findJob (id : JobId) : StoreM JobRecord := do
  match (← get).jobs.get? id with
  | some job => pure job
  | none => throw (.jobNotFound id)

def findAttempt (id : AttemptId) : StoreM JobAttempt := do
  match (← get).attempts.get? id with
  | some attempt => pure attempt
  | none => throw (.attemptNotFound id)

/-- `validate_state_transition`, with the job's id filled in on error. -/
def validateStateTransition (id : JobId) (source target : JobState) : StoreM Unit :=
  if target ∈ jobStateTransitions source then pure ()
  else throw (.invalidTransition id source target)

def validateAttemptTransition (id : AttemptId) (source target : AttemptState) : StoreM Unit :=
  if target ∈ attemptStateTransitions source then pure ()
  else throw (.invalidAttemptTransition id source target)

def putJob (id : JobId) (job : JobRecord) : StoreM Unit := modify (·.insertJob id job)

def putAttempt (id : AttemptId) (attempt : JobAttempt) : StoreM Unit :=
  modify (·.insertAttempt id attempt)

def createJob (spec : NewJob) (fresh : JobId) (now : Timestamp) : StoreM JobRecord := do
  let id := newJobId fresh spec.source
  match (← get).jobs.get? id with
  | some existing => pure existing
  | none =>
      let record := spec.toRecord id now
      putJob id record
      pure record

def setJobLabels (id : JobId) (labels : List (String × String)) : StoreM JobRecord := do
  let job ← findJob id
  let updated := { job with labels := labels }
  putJob id updated
  pure updated

def enqueue (id : JobId) (now : Timestamp) : StoreM JobRecord := do
  let job ← findJob id
  validateStateTransition id job.state .queued
  let updated := { job with state := .queued, updatedAt := now }
  putJob id updated
  pure updated

/-- The attempt a job starts with, in both stores but for the heartbeat. -/
def newAttempt (attemptId : AttemptId) (job : JobId) (sequence : ℕ)
    (generation : DaemonGeneration) (heartbeat : Option Timestamp) (now : Timestamp) :
    JobAttempt where
  attemptId := attemptId
  jobId := job
  sequence := sequence
  state := .created
  daemonGeneration := generation
  executor := none
  runId := none
  heartbeatAt := heartbeat
  startedAt := none
  completedAt := none
  error := none
  createdAt := now
  updatedAt := now
  remoteHandle := none
  sourceSubject := none

/-- `begin_attempt_locked` -/
def beginAttempt (id : JobId) (generation : DaemonGeneration) (fresh : AttemptId)
    (now : Timestamp) : StoreM JobAttempt := do
  let job ← findJob id
  failIf (job.state = .running) (.jobAlreadyRunning id (job.currentAttemptId.getD ""))
  failIf job.state.isTerminal (.alreadyTerminal id job.state)
  validateStateTransition id job.state .running
  -- `attempt_count + 1` on a `u32`
  failIf (2 ^ 32 ≤ job.attemptCount + 1) .overflow
  let attempt := newAttempt fresh id (job.attemptCount + 1) generation none now
  putAttempt fresh attempt
  modify (·.pushAttempt id fresh)
  putJob id { job with
    state := .running
    attemptCount := job.attemptCount + 1
    currentAttemptId := some fresh
    updatedAt := now }
  pure attempt

def markAttemptRunning (id : AttemptId) (now : Timestamp) : StoreM Unit := do
  let attempt ← findAttempt id
  if attempt.state = .running then
    pure ()
  else do
    validateAttemptTransition id attempt.state .running
    putAttempt id { attempt with
      state := .running
      startedAt := some now
      heartbeatAt := some now
      updatedAt := now }

def setAttemptExecutor (id : AttemptId) (executor : String) (now : Timestamp) : StoreM Unit := do
  let attempt ← findAttempt id
  putAttempt id { attempt with executor := some executor, updatedAt := now }

def setAttemptRemoteHandle (id : AttemptId) (handle : Option RemoteExecutionHandle)
    (now : Timestamp) : StoreM Unit := do
  let attempt ← findAttempt id
  putAttempt id { attempt with remoteHandle := handle, updatedAt := now }

/-- `jsonLen` is the length of the serialized record. -/
def setAttemptSourceSubjectStarted (jsonLen : ExecutionSubjectProvenance → ℕ) (id : AttemptId)
    (provenance : ExecutionSubjectProvenance) (now : Timestamp) : StoreM Unit := do
  failIf (!provenance.validateStarted ||
    decide (ExecutionSubjectProvenance.maxSerializedBytes < jsonLen provenance)) (.conflict id)
  let attempt ← findAttempt id
  failIf (attempt.sourceSubject.any (· != provenance)) (.conflict id)
  putAttempt id { attempt with sourceSubject := some provenance, updatedAt := now }

def sealAttemptSourceSubject (id : AttemptId) (provenance : ExecutionSubjectProvenance)
    (now : Timestamp) : StoreM Unit := do
  failIf (!provenance.validateSealed) (.conflict id)
  let attempt ← findAttempt id
  match attempt.sourceSubject with
  | none => throw (.conflict id)
  | some started =>
      failIf (started.captured ≠ provenance.captured ∨ started.sealed.isSome ∨
        provenance.disposition = .started) (.conflict id)
      putAttempt id { attempt with sourceSubject := some provenance, updatedAt := now }

def recordHeartbeat (id : AttemptId) (at' : Timestamp) : StoreM Unit := do
  let attempt ← findAttempt id
  failIf attempt.state.isTerminal (.invalidAttemptTransition id attempt.state .running)
  putAttempt id { attempt with heartbeatAt := some at', updatedAt := at' }

def finishedAttempt (attempt : JobAttempt) (completion : AttemptCompletion) (now : Timestamp) :
    JobAttempt :=
  { attempt with
    state := completion.state
    runId := completion.runId.or attempt.runId
    completedAt := some now
    heartbeatAt := some now
    error := completion.error.or attempt.error
    updatedAt := now }

def advancedRecord (job : JobRecord) (state : JobState) (now : Timestamp) : JobRecord :=
  { job with
    state := state
    currentAttemptId := if state.isTerminal then none else job.currentAttemptId
    updatedAt := now
    terminalAt := if state.isTerminal then some now else job.terminalAt }

def finishAttempt (completion : AttemptCompletion) (now : Timestamp) : StoreM JobRecord := do
  let attempt ← findAttempt completion.attemptId
  validateAttemptTransition completion.attemptId attempt.state completion.state
  let job ← findJob attempt.jobId
  -- the attempt is written before the job's transition is checked
  putAttempt completion.attemptId (finishedAttempt attempt completion now)
  let newJobState := completion.state.jobState job.state
  validateStateTransition job.jobId job.state newJobState
  let updated := advancedRecord job newJobState now
  putJob updated.jobId updated
  pure updated

def cancelledRecord (job : JobRecord) (reason : CancelReason) (now : Timestamp) : JobRecord :=
  { job with
    state := .cancelled
    cancelRequestedAt := some now
    cancelReason := some reason.reason
    terminalAt := some now
    updatedAt := now }

def cancelRequestedRecord (job : JobRecord) (reason : CancelReason) (now : Timestamp) :
    JobRecord :=
  { job with
    cancelRequestedAt := some now
    cancelReason := some reason.reason
    updatedAt := now }

def requestCancel (id : JobId) (reason : CancelReason) (now : Timestamp) :
    StoreM CancelResult := do
  let job ← findJob id
  match job.state with
  | .scheduled | .queued | .blocked =>
      validateStateTransition id job.state .cancelled
      putJob id (cancelledRecord job reason now)
      pure ⟨id, .cancelled, true⟩
  | .running =>
      putJob id (cancelRequestedRecord job reason now)
      pure ⟨id, .requested, false⟩
  | .completed | .failed | .cancelled | .timedOut | .expired | .interrupted =>
      pure ⟨id, .alreadyTerminal, true⟩

def retryJob (id : JobId) (generation : DaemonGeneration) (prior : AttemptId)
    (fresh : AttemptId) (now : Timestamp) : StoreM JobAttempt := do
  let job ← findJob id
  let priorAttempt ← findAttempt prior
  failIf (priorAttempt.jobId ≠ id) (.conflict id)
  failIf (job.state ∉ [JobState.failed, .timedOut, .interrupted])
    (.invalidTransition id job.state .queued)
  failIf (job.retryPolicy.maxAttempts ≤ job.attemptCount) (.invalidPayload
    ("max attempts " ++ toString job.retryPolicy.maxAttempts ++ " exhausted"))
  failIf (!job.idempotency.isRetryEligible && job.idempotency != .conditional) (.invalidPayload
    ("idempotency " ++ job.idempotency.debugName ++ " is not auto-retry eligible"))
  validateStateTransition id job.state .queued
  putJob id { job with state := .queued, updatedAt := now }
  beginAttempt id generation fresh now

def blockJob (id : JobId) (now : Timestamp) : StoreM JobRecord := do
  let job ← findJob id
  validateStateTransition id job.state .blocked
  let updated := { job with state := .blocked, updatedAt := now }
  putJob id updated
  pure updated

/-! ### Recovery -/

/-- The attempts recovery interrupts: not terminal and of another generation. -/
def staleAttempts (s : Inner) (current : DaemonGeneration) : List AttemptId :=
  (s.attempts.toList.filter fun p =>
    p.2.daemonGeneration != current && !p.2.state.isTerminal).map Prod.fst

/-- The store and the jobs touched so far. -/
structure Recovering where
  store : Inner
  touched : List JobId
  interrupted : ℕ

def interruptAttempt (now : Timestamp) (r : Recovering) (id : AttemptId) : Recovering :=
  match r.store.attempts.get? id with
  | none => r
  | some attempt =>
      { store := r.store.insertAttempt id { attempt with
          state := .interrupted
          completedAt := some now
          updatedAt := now }
        touched := if attempt.jobId ∈ r.touched then r.touched else r.touched ++ [attempt.jobId]
        interrupted := r.interrupted + 1 }

/-- The store and the counts of requeued and terminal jobs so far. -/
structure Requeuing where
  store : Inner
  requeued : ℕ
  terminals : ℕ

def requeuedRecord (job : JobRecord) (now : Timestamp) : JobRecord :=
  { job with
    state := .queued
    currentAttemptId := none
    cancelRequestedAt := none
    cancelReason := none
    updatedAt := now }

def settledRecord (job : JobRecord) (state : JobState) (now : Timestamp) : JobRecord :=
  { job with
    state := state
    currentAttemptId := none
    terminalAt := some now
    updatedAt := now }

def recoverJob (policy : RecoveryPolicy) (now : Timestamp) (r : Requeuing) (id : JobId) :
    Requeuing :=
  match r.store.jobs.get? id with
  | none => r
  | some job =>
      if job.wantsRequeue policy now ∧
          (job.state = .interrupted ∨ .interrupted ∈ jobStateTransitions job.state) then
        -- the stale job is parked on `Interrupted` and leaves it by the edge to `Queued`
        let parked := if job.state = .interrupted then r.store
          else r.store.insertJob id { job with state := .interrupted, updatedAt := now }
        { r with
          store := parked.insertJob id (requeuedRecord job now)
          requeued := r.requeued + 1 }
      else if job.cancelRequestedAt.isSome then
        if .cancelled ∈ jobStateTransitions job.state then
          { r with
            store := r.store.insertJob id (settledRecord job .cancelled now)
            terminals := r.terminals + 1 }
        else r
      else if .failed ∈ jobStateTransitions job.state then
        { r with
          store := r.store.insertJob id (settledRecord job .failed now)
          terminals := r.terminals + 1 }
      else r

def recoverGeneration (current : DaemonGeneration) (policy : RecoveryPolicy)
    (now : Timestamp) : StoreM RecoveryReport := do
  let s ← get
  let r := (staleAttempts s current).foldl (interruptAttempt now) ⟨s, [], 0⟩
  let q := r.touched.foldl (recoverJob policy now) ⟨r.store, 0, 0⟩
  set q.store
  pure ⟨r.interrupted, q.requeued, q.terminals⟩

/-! ### Descendants -/

/-- The children of a job, oldest first, then by id. -/
def childrenByAge (s : Inner) (current : JobId) : List JobRecord :=
  (s.jobs.values.filter fun job => job.parentJobId == some current).mergeSort
    fun left right => decide (left.createdAt < right.createdAt) ||
      (left.createdAt == right.createdAt && decide (left.jobId ≤ right.jobId))

def childIds (s : Inner) (current : JobId) : List JobId :=
  ((childrenByAge s current).map JobRecord.jobId).reverse

/-- The descendants of a job in the order they are found. Every job enters the stack at
most once, so the fuel is not exhausted. -/
def descendants (s : Inner) (root : JobId) : List JobId :=
  Worklist.search (childIds s) root (s.jobs.toList.length + 1) ⟨[root], []⟩

/-- The store and the count of cancelled jobs so far. -/
structure Cancelling where
  store : Inner
  cancelled : ℕ

def cancelDescendant (reason : CancelReason) (now : Timestamp) (r : Cancelling) (id : JobId) :
    Cancelling :=
  match r.store.jobs.get? id with
  | none => r
  | some job =>
      match job.state with
      | .scheduled | .queued | .blocked =>
          ⟨r.store.insertJob id (cancelledRecord job reason now), r.cancelled + 1⟩
      | .running =>
          ⟨r.store.insertJob id (cancelRequestedRecord job reason now), r.cancelled + 1⟩
      | _ => r

def cancelDescendants (parent : JobId) (reason : CancelReason) (now : Timestamp) :
    StoreM ℕ := do
  let s ← get
  let r := (descendants s parent).foldl (cancelDescendant reason now) ⟨s, 0⟩
  set r.store
  pure r.cancelled

/-! ### Reads -/

def listAttempts (s : Inner) (id : JobId) : List JobAttempt :=
  ((s.attemptIds id).filterMap s.attempts.get?).mergeSort
    fun left right => decide (left.sequence ≤ right.sequence)

/-! ### Runs -/

def perform (jsonLen : ExecutionSubjectProvenance → ℕ) : Operation → StoreM Answer
  | .createJob spec fresh now => .job <$> createJob spec fresh now
  | .setJobLabels id labels => .job <$> setJobLabels id labels
  | .enqueue id now => .job <$> enqueue id now
  | .beginAttempt id generation fresh now => .attempt <$> beginAttempt id generation fresh now
  | .markAttemptRunning id now => (fun _ => .done) <$> markAttemptRunning id now
  | .setAttemptExecutor id executor now =>
      (fun _ => .done) <$> setAttemptExecutor id executor now
  | .setAttemptRemoteHandle id handle now =>
      (fun _ => .done) <$> setAttemptRemoteHandle id handle now
  | .setAttemptSourceSubjectStarted id provenance now =>
      (fun _ => .done) <$> setAttemptSourceSubjectStarted jsonLen id provenance now
  | .sealAttemptSourceSubject id provenance now =>
      (fun _ => .done) <$> sealAttemptSourceSubject id provenance now
  | .recordHeartbeat id at' => (fun _ => .done) <$> recordHeartbeat id at'
  | .finishAttempt completion now => .job <$> finishAttempt completion now
  | .requestCancel id reason now => .cancel <$> requestCancel id reason now
  | .retryJob id generation prior fresh now =>
      .attempt <$> retryJob id generation prior fresh now
  | .blockJob id now => .job <$> blockJob id now
  | .recoverGeneration current policy now => .report <$> recoverGeneration current policy now
  | .cancelDescendants parent reason now => .count <$> cancelDescendants parent reason now

/-- The store after a sequence of operations, whatever each of them answered. -/
def run (jsonLen : ExecutionSubjectProvenance → ℕ) (s : Inner) (ops : List Operation) : Inner :=
  ops.foldl (fun s op => finalState (perform jsonLen op s)) s

end InMemoryJobStore

end Codegg.Jobs
