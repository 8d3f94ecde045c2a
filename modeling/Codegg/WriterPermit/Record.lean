import Mathlib.Tactic
import Codegg.Library.ByteText

/-!
# Writer permits

A writer permit is the right to write to one checkout. Its record is a row with the checkout
as its key. The record names the owner with a token that only the owner knows, counts its
changes in a revision, and remembers the request that the owner was granted.
-/
namespace Codegg.WriterPermit

open Codegg.Library

inductive WriterPermitState
  | available
  | held
  | releasing
  | quarantined
  deriving DecidableEq, Repr

def WriterPermitState.holdsOwner : WriterPermitState → Bool
  | .held | .releasing => true
  | .available | .quarantined => false

inductive WriterPermitOperation
  | nativeFileWrite
  | nativeGitMutation
  | processSpawn
  | managedServiceWrite
  | projectLocalStateWrite
  deriving DecidableEq, Repr

def WriterPermitOperation.asStr : WriterPermitOperation → String
  | .nativeFileWrite => "native_file_write"
  | .nativeGitMutation => "native_git_mutation"
  | .processSpawn => "process_spawn"
  | .managedServiceWrite => "managed_service_write"
  | .projectLocalStateWrite => "project_local_state_write"

inductive WriterPermitQuarantineReason
  | daemonRestart
  | abortedOperation
  | incompleteEffects
  | processTreeUncertain
  | leaseExpired
  | ownershipChanged
  | conflictingEffect
  | operatorHold
  deriving DecidableEq, Repr

structure WriterPermitScope where
  projectId : String
  repositoryId : Option String
  workspaceId : String
  worktreeId : String
  leaseGeneration : UInt64
  groupId : Option String
  principalId : String
  agentRunId : Option String
  attemptId : Option String
  deriving DecidableEq

/-- An optional identity in a fingerprint. -/
def orDash (value : Option String) : String := value.getD "-"

def WriterPermitScope.fingerprint (s : WriterPermitScope) : String :=
  "project=" ++ s.projectId ++ "|repo=" ++ orDash s.repositoryId ++ "|workspace=" ++
    s.workspaceId ++ "|worktree=" ++ s.worktreeId ++ "|generation=" ++
    s.leaseGeneration.toNat.repr ++ "|group=" ++ orDash s.groupId ++ "|principal=" ++
    s.principalId ++ "|run=" ++ orDash s.agentRunId ++ "|attempt=" ++ orDash s.attemptId

structure WriterPermitOwner where
  principalId : String
  agentRunId : Option String
  groupId : Option String
  attemptId : Option String
  token : String
  deriving DecidableEq

structure WriterPermitQuarantine where
  reason : WriterPermitQuarantineReason
  detail : String
  quarantinedAtMs : ℤ
  deriving DecidableEq

structure WriterPermitRecord where
  worktreeId : String
  projectId : String
  repositoryId : Option String
  workspaceId : String
  leaseGeneration : UInt64
  groupId : Option String
  state : WriterPermitState
  owner : Option WriterPermitOwner
  operation : Option WriterPermitOperation
  revision : ℕ
  idempotencyKey : Option String
  requestFingerprint : Option String
  leaseExpiresAtMs : Option ℤ
  quarantine : Option WriterPermitQuarantine
  acquiredAtMs : Option ℤ
  updatedAtMs : ℤ
  deriving DecidableEq

inductive QuiescenceEvidence
  | settled
  | noEffect
  | unproven (reason : WriterPermitQuarantineReason)
  deriving DecidableEq, Repr

def QuiescenceEvidence.unprovenReason :
    QuiescenceEvidence → Option WriterPermitQuarantineReason
  | .unproven reason => some reason
  | .settled | .noEffect => none

def QuiescenceEvidence.isProven : QuiescenceEvidence → Bool
  | .settled | .noEffect => true
  | .unproven _ => false

theorem QuiescenceEvidence.isProven_of_unprovenReason {e : QuiescenceEvidence}
    (h : e.unprovenReason = none) : e.isProven = true := by
  cases e with
  | settled => rfl
  | noEffect => rfl
  | unproven reason => simp [unprovenReason] at h

inductive WriterPermitError
  | storage (message : String)
  | notFound
  | held
  | quarantined
  | notOwner
  | staleRevision
  | idempotencyConflict
  | staleLeaseGeneration
  | invalidScope
  | capacity
  | invalidTransition
  | unprovenQuiescence (reason : WriterPermitQuarantineReason)
  deriving DecidableEq, Repr

/-! ### Requests -/

structure AcquireWriterPermit where
  scope : WriterPermitScope
  operation : WriterPermitOperation
  idempotencyKey : String
  leaseExpiresAtMs : Option ℤ

structure BeginReleaseWriterPermit where
  worktreeId : String
  ownerToken : String
  expectedRevision : ℕ
  expectedLeaseGeneration : UInt64

structure WriterPermitTransfer where
  principalId : String
  agentRunId : Option String
  groupId : Option String
  attemptId : Option String
  operation : WriterPermitOperation
  idempotencyKey : String
  leaseExpiresAtMs : Option ℤ

structure CompleteReleaseWriterPermit where
  worktreeId : String
  ownerToken : String
  expectedRevision : ℕ
  expectedLeaseGeneration : UInt64
  evidence : QuiescenceEvidence
  transfer : Option WriterPermitTransfer

structure QuarantineWriterPermit where
  worktreeId : String
  ownerToken : Option String
  expectedRevision : Option ℕ
  reason : WriterPermitQuarantineReason
  detail : String

structure OperatorReleaseWriterPermit where
  worktreeId : String
  expectedRevision : ℕ
  reason : String
  evidence : QuiescenceEvidence

/-! ### What the operations write -/

def defaultWriterPermitLeaseMs : ℤ := 15 * 60 * 1000
def maxWriterPermitsPerProject : ℕ := 4096
def maxWriterPermitOperationBytes : ℕ := 64
def maxWriterPermitDetailBytes : ℕ := 512
def maxWriterPermitIdempotencyBytes : ℕ := 128
def maxWriterPermitAttemptBytes : ℕ := 128
def maxWriterPermitFingerprintBytes : ℕ := 1024

def truncateDetail (detail : String) : String :=
  if detail.utf8ByteSize ≤ maxWriterPermitDetailBytes then detail
  else bytePrefix detail maxWriterPermitDetailBytes

namespace WriterPermitRecord

/-- The row of a permit that is granted, `revision` being the one before. -/
def granted (now : ℤ) (token : String) (request : AcquireWriterPermit) (revision : ℕ) :
    WriterPermitRecord where
  worktreeId := request.scope.worktreeId
  projectId := request.scope.projectId
  repositoryId := request.scope.repositoryId
  workspaceId := request.scope.workspaceId
  leaseGeneration := request.scope.leaseGeneration
  groupId := request.scope.groupId
  state := .held
  owner := some
    { principalId := request.scope.principalId
      agentRunId := request.scope.agentRunId
      groupId := request.scope.groupId
      attemptId := request.scope.attemptId
      token := token }
  operation := some request.operation
  revision := revision + 1
  idempotencyKey := some request.idempotencyKey
  requestFingerprint := some request.scope.fingerprint
  leaseExpiresAtMs := request.leaseExpiresAtMs.or (some (now + defaultWriterPermitLeaseMs))
  quarantine := none
  acquiredAtMs := some now
  updatedAtMs := now

def begun (now : ℤ) (r : WriterPermitRecord) : WriterPermitRecord :=
  { r with state := .releasing, revision := r.revision + 1, updatedAtMs := now }

def parked (now : ℤ) (reason : WriterPermitQuarantineReason) (detail : String)
    (r : WriterPermitRecord) : WriterPermitRecord :=
  { r with
    state := .quarantined
    revision := r.revision + 1
    quarantine := some ⟨reason, detail, now⟩
    updatedAtMs := now }

def freed (now : ℤ) (r : WriterPermitRecord) : WriterPermitRecord :=
  { r with
    state := .available
    owner := none
    operation := none
    revision := r.revision + 1
    idempotencyKey := none
    requestFingerprint := none
    leaseExpiresAtMs := none
    quarantine := none
    acquiredAtMs := none
    updatedAtMs := now }

end WriterPermitRecord

namespace WriterPermitTransfer

def owner (t : WriterPermitTransfer) (token : String) : WriterPermitOwner where
  principalId := t.principalId
  agentRunId := t.agentRunId
  groupId := t.groupId
  attemptId := t.attemptId
  token := token

def fingerprint (t : WriterPermitTransfer) : String :=
  "transfer|principal=" ++ t.principalId ++ "|run=" ++ orDash t.agentRunId ++ "|group=" ++
    orDash t.groupId ++ "|attempt=" ++ orDash t.attemptId

/-- The row of a permit that is handed to a successor. -/
def apply (t : WriterPermitTransfer) (now : ℤ) (token : String) (r : WriterPermitRecord) :
    WriterPermitRecord :=
  { r with
    state := .held
    owner := some (t.owner token)
    operation := some t.operation
    revision := r.revision + 1
    idempotencyKey := some t.idempotencyKey
    requestFingerprint := some t.fingerprint
    leaseExpiresAtMs := t.leaseExpiresAtMs.or (some (now + defaultWriterPermitLeaseMs))
    acquiredAtMs := some now
    updatedAtMs := now }

end WriterPermitTransfer

/-! ### Constraints of the table -/

/-- SQL's `length`: the characters before the first NUL. -/
def sqlLength (s : String) : ℕ := (s.toList.takeWhile (· ≠ '\x00')).length

/-- The CHECK constraints on a row. -/
def WriterPermitRecord.checked (r : WriterPermitRecord) : Bool :=
  1 ≤ r.leaseGeneration.toInt64 &&
    r.owner.all (fun o => o.attemptId.all (fun a => sqlLength a ≤ 128) && sqlLength o.token ≤ 64) &&
    r.operation.all (fun o => sqlLength o.asStr ≤ 64) &&
    r.idempotencyKey.all (fun k => 1 ≤ sqlLength k && sqlLength k ≤ 128) &&
    r.requestFingerprint.all (fun f => sqlLength f ≤ 1024) &&
    r.quarantine.all fun q => sqlLength q.detail ≤ 512

end Codegg.WriterPermit
