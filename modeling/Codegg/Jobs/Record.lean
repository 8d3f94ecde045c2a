import Codegg.Library.SortedMap
import Codegg.Library.StateError
import Mathlib.Data.String.Basic

/-!
# Jobs and attempts

The records of the durable job control plane, the two transition tables, and the
errors and results shared by the stores. Times are nanoseconds since the epoch and
identifiers are their text. A payload and a resource request are never read by a
store, so they are kept as the text they are persisted as.
-/
namespace Codegg.Jobs

open Codegg.Library

abbrev JobId := String
abbrev AttemptId := String
abbrev ScheduleId := String
abbrev DaemonGeneration := String
abbrev Timestamp := ℤ

inductive JobKind where
  | agentTurn | subagent | build | test | lint | format | shell | managedProcess
  | python | gitRead | gitMutation | research | maintenance | toolProgram | unsupported
  deriving DecidableEq, Repr

inductive ExecutionTarget where
  | local
  | eggworkNode (nodeId : String)
  deriving DecidableEq, Repr

inductive JobSource where
  | interactive
  | scheduled (scheduleId : ScheduleId) (occurrence : Timestamp)
  | agentDelegated
  | retry (priorAttemptId : AttemptId)
  | maintenance
  | api
  deriving DecidableEq, Repr

inductive JobPriority where
  | urgent | interactive | normal | background | maintenance
  deriving DecidableEq, Repr

structure RetryPolicy where
  maxAttempts : ℕ
  deriving DecidableEq, Repr

inductive FailureClass where
  | transient | timeout | cancelled | permission | validation | execution | unknown
  deriving DecidableEq, Repr

inductive IdempotencyClass where
  | readOnly | safeRepeat | conditional | nonIdempotent | destructive
  deriving DecidableEq, Repr

def IdempotencyClass.isRetryEligible : IdempotencyClass → Bool
  | .readOnly | .safeRepeat => true
  | _ => false

/-- The name that the standard `Debug` output prints in error texts. -/
def IdempotencyClass.debugName : IdempotencyClass → String
  | .readOnly => "ReadOnly"
  | .safeRepeat => "SafeRepeat"
  | .conditional => "Conditional"
  | .nonIdempotent => "NonIdempotent"
  | .destructive => "Destructive"

inductive JobState where
  | scheduled | queued | running | completed | failed | cancelled | timedOut
  | interrupted | blocked | expired
  deriving DecidableEq, Repr

def JobState.isTerminal : JobState → Bool
  | .completed | .failed | .cancelled | .timedOut | .expired => true
  | _ => false

inductive AttemptState where
  | created | admitted | running | completed | failed | cancelled | timedOut | interrupted
  deriving DecidableEq, Repr

def AttemptState.isTerminal : AttemptState → Bool
  | .completed | .failed | .cancelled | .timedOut | .interrupted => true
  | _ => false

/-- The job states a given state may transition into. -/
def jobStateTransitions : JobState → List JobState
  | .scheduled => [.queued, .cancelled, .expired]
  | .queued => [.running, .cancelled, .expired, .blocked]
  | .running => [.completed, .failed, .cancelled, .timedOut, .interrupted]
  | .completed => []
  | .failed => [.queued]
  | .cancelled => []
  | .timedOut => [.queued]
  | .interrupted => [.queued]
  | .blocked => [.queued, .cancelled, .expired]
  | .expired => []

/-- The attempt states a given state may transition into. -/
def attemptStateTransitions : AttemptState → List AttemptState
  | .created => [.admitted, .running, .failed, .cancelled, .interrupted]
  | .admitted => [.running, .failed, .cancelled, .interrupted]
  | .running => [.completed, .failed, .cancelled, .timedOut, .interrupted]
  | .completed => []
  | .failed => []
  | .cancelled => []
  | .timedOut => []
  | .interrupted => []

structure JobErrorRecord where
  failureClass : FailureClass
  message : String
  transient : Bool
  deriving DecidableEq, Repr

/-- The submission of a new job. -/
structure NewJob where
  workspaceId : String
  sessionId : Option String
  turnId : Option String
  kind : JobKind
  source : JobSource
  priority : JobPriority
  payload : String
  resourceRequest : String
  timeout : Option ℕ
  retryPolicy : RetryPolicy
  idempotency : IdempotencyClass
  notBefore : Option Timestamp
  deadline : Option Timestamp
  scheduleId : Option ScheduleId
  dependsOn : List JobId
  parentJobId : Option JobId
  parentAttemptId : Option AttemptId
  parentCallId : Option String
  parentProgramId : Option String
  parentInstructionSequence : Option ℕ
  relationKind : Option String
  target : ExecutionTarget
  deriving DecidableEq, Repr

/-- A persisted job: its submission and what the stores add to it. -/
structure JobRecord extends NewJob where
  jobId : JobId
  state : JobState
  currentAttemptId : Option AttemptId
  attemptCount : ℕ
  createdAt : Timestamp
  updatedAt : Timestamp
  terminalAt : Option Timestamp
  cancelRequestedAt : Option Timestamp
  cancelReason : Option String
  labels : List (String × String)
  deriving DecidableEq, Repr

/-! ### Source provenance of an attempt -/

inductive ExecutionSubjectState where
  | clean | dirty
  deriving DecidableEq, Repr

structure ExecutionSubjectRevision where
  schemaVersion : ℕ
  repositoryIdentity : String
  revision : String
  state : ExecutionSubjectState
  dirtyDigest : Option String
  eggplanDirtyDigest : Option String
  deriving DecidableEq, Repr

def isLowerHex (c : Char) : Bool :=
  c.isDigit || (decide ('a' ≤ c) && decide (c ≤ 'f'))

def isValidEggplanDirtyDigest (value : String) : Bool :=
  let chars := value.toList
  "sha256:".toList.isPrefixOf chars &&
    (chars.drop 7).length == 64 && (chars.drop 7).all isLowerHex

def ExecutionSubjectRevision.validate (r : ExecutionSubjectRevision) : Bool :=
  (r.schemaVersion == 2 || r.schemaVersion == 1) &&
  (!r.repositoryIdentity.isEmpty && decide (r.repositoryIdentity.utf8ByteSize ≤ 256) &&
    ("codegg-workspace:".toList.isPrefixOf r.repositoryIdentity.toList ||
      "repository:".toList.isPrefixOf r.repositoryIdentity.toList) &&
    !r.repositoryIdentity.toList.contains '/' && !r.repositoryIdentity.toList.contains '\\' &&
    (r.revision.utf8ByteSize == 40 || r.revision.utf8ByteSize == 64) &&
    r.revision.toList.all isLowerHex) &&
  match r.state with
  | .clean => r.dirtyDigest.isNone && r.eggplanDirtyDigest.isNone
  | .dirty =>
      r.dirtyDigest.any (fun d => d.utf8ByteSize == 64 && d.toList.all isLowerHex) &&
        match r.eggplanDirtyDigest with
        | none => true
        | some digest => r.schemaVersion != 1 && isValidEggplanDirtyDigest digest

inductive ExecutionSubjectDisposition where
  | started | stable | drifted | unavailable
  deriving DecidableEq, Repr

inductive ExecutionSubjectSealKind where
  | liveExecutionEnd | snapshotMaterialized
  deriving DecidableEq, Repr

inductive ExecutionSubjectUnavailableReason where
  | notGit | legacyMissingProvenance | captureFailed | boundsExceeded | unsafePath
  | materializationIncomplete
  deriving DecidableEq, Repr

structure ExecutionSubjectMaterialization where
  manifestDigest : String
  complete : Bool
  skippedNonRegular : ℕ
  skippedOversize : ℕ
  deriving DecidableEq, Repr

def ExecutionSubjectMaterialization.hasDigest (m : ExecutionSubjectMaterialization) : Bool :=
  m.manifestDigest.utf8ByteSize == 64 && m.manifestDigest.toList.all isLowerHex

structure ExecutionSubjectProvenance where
  schemaVersion : ℕ
  captured : Option ExecutionSubjectRevision
  sealed : Option ExecutionSubjectRevision
  disposition : ExecutionSubjectDisposition
  sealKind : ExecutionSubjectSealKind
  unavailableReason : Option ExecutionSubjectUnavailableReason
  materialization : Option ExecutionSubjectMaterialization
  deriving DecidableEq, Repr

namespace ExecutionSubjectProvenance

def maxSerializedBytes : ℕ := 4096

def validateStarted (p : ExecutionSubjectProvenance) : Bool :=
  p.schemaVersion == 1 && p.disposition == .started && p.sealed.isNone &&
    p.materialization.isNone && p.captured.all ExecutionSubjectRevision.validate &&
    (p.captured.isSome || p.unavailableReason.isSome)

def validateSealed (p : ExecutionSubjectProvenance) : Bool :=
  p.schemaVersion == 1 && p.disposition != .started &&
  p.captured.all ExecutionSubjectRevision.validate &&
  p.sealed.all ExecutionSubjectRevision.validate &&
  match p.disposition with
  | .stable =>
      p.captured.isSome && p.captured == p.sealed && p.unavailableReason.isNone &&
        p.materialization.all fun m =>
          m.hasDigest && m.complete && m.skippedNonRegular == 0 && m.skippedOversize == 0
  | .drifted => p.captured.isSome && p.sealed.isSome && p.captured != p.sealed
  | .unavailable =>
      p.unavailableReason.isSome &&
        (p.sealed.isNone || (p.unavailableReason == some .materializationIncomplete &&
          p.captured == p.sealed)) &&
        p.materialization.all fun m =>
          m.hasDigest &&
            (!m.complete || (m.skippedNonRegular == 0 && m.skippedOversize == 0))
  | .started => false

end ExecutionSubjectProvenance

structure RemoteExecutionHandle where
  schemaVersion : ℕ
  nodeId : String
  executionId : String
  generation : ℕ
  leaseId : String
  deriving DecidableEq, Repr

structure JobAttempt where
  attemptId : AttemptId
  jobId : JobId
  sequence : ℕ
  state : AttemptState
  daemonGeneration : DaemonGeneration
  executor : Option String
  runId : Option String
  heartbeatAt : Option Timestamp
  startedAt : Option Timestamp
  completedAt : Option Timestamp
  error : Option JobErrorRecord
  createdAt : Timestamp
  updatedAt : Timestamp
  remoteHandle : Option RemoteExecutionHandle
  sourceSubject : Option ExecutionSubjectProvenance
  deriving DecidableEq, Repr

/-! ### Requests, results and errors -/

structure CancelReason where
  requestedBy : String
  reason : String
  deriving DecidableEq, Repr

inductive CancelOutcome where
  | cancelled | requested | alreadyTerminal
  deriving DecidableEq, Repr

structure CancelResult where
  jobId : JobId
  state : CancelOutcome
  terminal : Bool
  deriving DecidableEq, Repr

structure RecoveryPolicy where
  requeueReadOnly : Bool := true
  requeueSafeRepeat : Bool := true
  requeueConditional : Bool := false
  requeueNonIdempotent : Bool := false
  requeueDestructive : Bool := false
  deriving DecidableEq, Repr

def RecoveryPolicy.requeues (policy : RecoveryPolicy) : IdempotencyClass → Bool
  | .readOnly => policy.requeueReadOnly
  | .safeRepeat => policy.requeueSafeRepeat
  | .conditional => policy.requeueConditional
  | .nonIdempotent => policy.requeueNonIdempotent
  | .destructive => policy.requeueDestructive

structure RecoveryReport where
  interruptedAttempts : ℕ
  requeuedJobs : ℕ
  terminalJobs : ℕ
  deriving DecidableEq, Repr

structure AttemptCompletion where
  attemptId : AttemptId
  state : AttemptState
  error : Option JobErrorRecord
  runId : Option String
  deriving DecidableEq, Repr

inductive JobStoreError where
  | storage (message : String)
  | jobNotFound (job : String)
  | attemptNotFound (attempt : String)
  | invalidTransition (job : String) (source target : JobState)
  | invalidAttemptTransition (attempt : String) (source target : AttemptState)
  | jobAlreadyRunning (job attempt : String)
  | alreadyTerminal (job : String) (state : JobState)
  | invalidPayload (message : String)
  | conflict (id : String)
  /-- Not an error value of the source: the panic of an overflowing `u32` counter. -/
  | overflow
  deriving DecidableEq, Repr

/-- The durable id of a job that is about to be created. A scheduled job's id is
derived from its occurrence in milliseconds; every other job takes the random id. -/
def newJobId (fresh : JobId) : JobSource → JobId
  | .scheduled scheduleId occurrence =>
      "occ-" ++ scheduleId ++ "-" ++ toString (occurrence / 1000000)
  | _ => fresh

def NewJob.toRecord (spec : NewJob) (id : JobId) (now : Timestamp) : JobRecord where
  toNewJob := spec
  jobId := id
  state := .queued
  currentAttemptId := none
  attemptCount := 0
  createdAt := now
  updatedAt := now
  terminalAt := none
  cancelRequestedAt := none
  cancelReason := none
  labels := []

/-- The job state a finished attempt leads to; a non-terminal completion keeps the
state the job has. -/
def AttemptState.jobState (job : JobState) : AttemptState → JobState
  | .completed => .completed
  | .failed => .failed
  | .cancelled => .cancelled
  | .timedOut => .timedOut
  | .interrupted => .interrupted
  | .created | .admitted | .running => job

/-- Whether recovery puts a stale job back into the queue. -/
def JobRecord.wantsRequeue (job : JobRecord) (policy : RecoveryPolicy) (now : Timestamp) : Bool :=
  let resumableToolProgram :=
    job.kind == .toolProgram && job.idempotency.isRetryEligible &&
      job.deadline.any (fun deadline => decide (now < deadline))
  policy.requeues job.idempotency && job.cancelRequestedAt.isNone &&
    (decide (job.attemptCount < job.retryPolicy.maxAttempts) || resumableToolProgram)

/-! ### Operations -/

/-- A call of a store, with the clock value it reads and the random id it draws. -/
inductive Operation where
  | createJob (spec : NewJob) (fresh : JobId) (now : Timestamp)
  | setJobLabels (id : JobId) (labels : List (String × String))
  | enqueue (id : JobId) (now : Timestamp)
  | beginAttempt (id : JobId) (generation : DaemonGeneration) (fresh : AttemptId)
      (now : Timestamp)
  | markAttemptRunning (id : AttemptId) (now : Timestamp)
  | setAttemptExecutor (id : AttemptId) (executor : String) (now : Timestamp)
  | setAttemptRemoteHandle (id : AttemptId) (handle : Option RemoteExecutionHandle)
      (now : Timestamp)
  | setAttemptSourceSubjectStarted (id : AttemptId) (provenance : ExecutionSubjectProvenance)
      (now : Timestamp)
  | sealAttemptSourceSubject (id : AttemptId) (provenance : ExecutionSubjectProvenance)
      (now : Timestamp)
  | recordHeartbeat (id : AttemptId) (at' : Timestamp)
  | finishAttempt (completion : AttemptCompletion) (now : Timestamp)
  | requestCancel (id : JobId) (reason : CancelReason) (now : Timestamp)
  | retryJob (id : JobId) (generation : DaemonGeneration) (prior : AttemptId)
      (fresh : AttemptId) (now : Timestamp)
  | blockJob (id : JobId) (now : Timestamp)
  | recoverGeneration (current : DaemonGeneration) (policy : RecoveryPolicy) (now : Timestamp)
  | cancelDescendants (parent : JobId) (reason : CancelReason) (now : Timestamp)
  deriving DecidableEq, Repr

/-- What a call returns. -/
inductive Answer where
  | job (record : JobRecord)
  | attempt (record : JobAttempt)
  | done
  | cancel (result : CancelResult)
  | report (report : RecoveryReport)
  | count (n : ℕ)
  deriving DecidableEq, Repr

/-- The attempt id an operation draws. -/
def Operation.freshAttempt : Operation → Option AttemptId
  | .beginAttempt _ _ fresh _ => some fresh
  | .retryJob _ _ _ fresh _ => some fresh
  | _ => none

end Codegg.Jobs
