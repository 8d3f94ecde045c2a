import Codegg.Library.SortedMap
import Codegg.WriterPermit.Record
import Mathlib.Data.String.Basic

/-!
# The store of writer permits

Each operation is one transaction on the table of permits. It reads the row of a checkout,
refuses the request or changes the row, and a refusal leaves the table as it is. A change is
an update with its conditions repeated in the statement, and must change one row.
-/
namespace Codegg.WriterPermit

open Codegg.Library WriterPermitRecord

/-- The rows by checkout. -/
abbrev Table := SortedMap String WriterPermitRecord

abbrev Outcome (α : Type) := Except WriterPermitError (α × Table)

/-- `UPDATE … WHERE worktree_id = ? AND …`, with the number of rows it changes. -/
def Table.update (t : Table) (worktreeId : String) (guard : WriterPermitRecord → Bool)
    (set : WriterPermitRecord → WriterPermitRecord) : Outcome ℕ :=
  match t.get? worktreeId with
  | none => .ok (0, t)
  | some r =>
    if guard r then
      if (set r).checked then .ok (1, t.insert worktreeId (set r))
      else .error (.storage "CHECK constraint failed")
    else .ok (0, t)

/-- An update that must change one row, and the record to answer with. -/
def Table.updateOne (t : Table) (worktreeId : String) (guard : WriterPermitRecord → Bool)
    (set : WriterPermitRecord → WriterPermitRecord) (record : WriterPermitRecord) :
    Outcome WriterPermitRecord :=
  match t.update worktreeId guard set with
  | .error e => .error e
  | .ok (affected, t') => if affected ≠ 1 then .error .staleRevision else .ok (record, t')

def Table.insertRow (t : Table) (r : WriterPermitRecord) : Except WriterPermitError Table :=
  match t.get? r.worktreeId with
  | some _ => .error (.storage "UNIQUE constraint failed: writer_permit.worktree_id")
  | none =>
    if r.checked then .ok (t.insert r.worktreeId r)
    else .error (.storage "CHECK constraint failed")

/-- `assert_owner`. -/
def WriterPermitRecord.ownedBy (token : String) (r : WriterPermitRecord) : Bool :=
  match r.owner with
  | some owner => owner.token = token
  | none => false

def validIdempotencyKey (key : String) : Bool :=
  !key.isEmpty && key.utf8ByteSize ≤ maxWriterPermitIdempotencyBytes

/-! ### The operations -/

section Operations

variable (now : ℤ) (token : String) (t : Table)

/-- What an acquisition checks before it opens its transaction. -/
def AcquireWriterPermit.valid (request : AcquireWriterPermit) : Bool :=
  validIdempotencyKey request.idempotencyKey && request.scope.leaseGeneration ≠ 0 &&
    request.operation.asStr.utf8ByteSize ≤ maxWriterPermitOperationBytes &&
    request.scope.attemptId.all (·.utf8ByteSize ≤ maxWriterPermitAttemptBytes) &&
    request.scope.fingerprint.utf8ByteSize ≤ maxWriterPermitFingerprintBytes

/-- The permits of a project that somebody holds. -/
def Table.live (projectId : String) : ℕ :=
  t.values.countP fun r => r.projectId = projectId && r.state.holdsOwner

/-- The second half of an acquisition: nobody holds the permit, and `expectedRevision` is the
revision of its row if there is one. -/
def acquireFree (request : AcquireWriterPermit) (expectedRevision : Option ℕ) :
    Outcome WriterPermitRecord :=
  if maxWriterPermitsPerProject ≤ t.live request.scope.projectId then .error .capacity
  else
    let updated := t.update request.scope.worktreeId
      (fun r => r.state = .available && r.revision = expectedRevision.getD 0)
      (fun r => .granted now token request r.revision)
    match updated with
    | .error e => .error e
    | .ok (affected, t') =>
      if affected = 0 && expectedRevision.isSome then .error .staleRevision
      else
        let inserted :=
          if affected = 0 then t'.insertRow (.granted now token request 0) else .ok t'
        match inserted with
        | .error e => .error e
        | .ok t'' =>
          match t''.get? request.scope.worktreeId with
          | none => .error .notFound
          | some record => .ok (record, t'')

def acquire (request : AcquireWriterPermit) : Outcome WriterPermitRecord :=
  if !request.valid then .error .invalidScope
  else
    match t.get? request.scope.worktreeId with
    | none => acquireFree now token t request none
    | some row =>
      match row.state with
      | .quarantined => .error .quarantined
      | .held | .releasing =>
        if row.idempotencyKey = some request.idempotencyKey then
          if row.requestFingerprint = some request.scope.fingerprint then .ok (row, t)
          else .error .idempotencyConflict
        else if row.leaseGeneration ≠ request.scope.leaseGeneration then
          .error .staleLeaseGeneration
        else .error .held
      | .available => acquireFree now token t request (some row.revision)

def beginRelease (request : BeginReleaseWriterPermit) : Outcome WriterPermitRecord :=
  match t.get? request.worktreeId with
  | none => .error .notFound
  | some record =>
    if !record.ownedBy request.ownerToken then .error .notOwner
    else if record.revision ≠ request.expectedRevision ||
        record.leaseGeneration ≠ request.expectedLeaseGeneration then .error .staleRevision
    else if record.state ≠ .held then .error .invalidTransition
    else
      t.updateOne request.worktreeId
        (fun r => r.revision = request.expectedRevision &&
          r.leaseGeneration = request.expectedLeaseGeneration && r.state = .held &&
          r.ownedBy request.ownerToken)
        (begun now) (record.begun now)

def completeRelease (request : CompleteReleaseWriterPermit) : Outcome WriterPermitRecord :=
  match t.get? request.worktreeId with
  | none => .error .notFound
  | some record =>
    if !record.ownedBy request.ownerToken then .error .notOwner
    else if record.revision ≠ request.expectedRevision ||
        record.leaseGeneration ≠ request.expectedLeaseGeneration then .error .staleRevision
    else if record.state ≠ .releasing then .error .invalidTransition
    else
      let guard := fun r : WriterPermitRecord => r.revision = request.expectedRevision &&
        r.leaseGeneration = request.expectedLeaseGeneration && r.state = .releasing &&
        r.ownedBy request.ownerToken
      match request.evidence.unprovenReason with
      | some reason =>
        let park := parked now reason
          (truncateDetail "release evidence was unproven")
        t.updateOne request.worktreeId guard park (park record)
      | none =>
        match request.transfer with
        | some transfer =>
          if !validIdempotencyKey transfer.idempotencyKey then .error .invalidScope
          else
            -- the record to answer with keeps the key and the fingerprint it was read with
            t.updateOne request.worktreeId guard (transfer.apply now token)
              { transfer.apply now token record with
                idempotencyKey := record.idempotencyKey
                requestFingerprint := record.requestFingerprint }
        | none =>
          t.updateOne request.worktreeId guard (freed now)
            { record.freed now with quarantine := record.quarantine }

def quarantine (request : QuarantineWriterPermit) : Outcome WriterPermitRecord :=
  match t.get? request.worktreeId with
  | none => .error .notFound
  | some record =>
    if !request.ownerToken.all (fun token => record.ownedBy token) then .error .notOwner
    else if !request.expectedRevision.all (fun expected => record.revision = expected) then
      .error .staleRevision
    else if record.state = .quarantined then .ok (record, t)
    else
      let park := parked now request.reason (truncateDetail request.detail)
      t.updateOne request.worktreeId (fun r => r.revision = record.revision) park (park record)

def operatorRelease (request : OperatorReleaseWriterPermit) : Outcome WriterPermitRecord :=
  match request.evidence.unprovenReason with
  | some reason => .error (.unprovenQuiescence reason)
  | none =>
    match t.get? request.worktreeId with
    | none => .error .notFound
    | some record =>
      if record.revision ≠ request.expectedRevision then .error .staleRevision
      else if record.state ≠ .quarantined then .error .invalidTransition
      else
        t.updateOne request.worktreeId
          (fun r => r.revision = request.expectedRevision && r.state = .quarantined)
          (freed now) (record.freed now)

/-- The row of a permit that was live at a restart. -/
def WriterPermitRecord.orphaned (r : WriterPermitRecord) : WriterPermitRecord :=
  r.parked now .daemonRestart "permit was live when the daemon restarted"

/-- The loop over the rows that were live. -/
def reconcileRows : List WriterPermitRecord → Table → Outcome (List WriterPermitRecord)
  | [], t => .ok ([], t)
  | row :: rows, t =>
    match t.update row.worktreeId (fun r => r.revision = row.revision && r.state.holdsOwner)
        (orphaned now) with
    | .error e => .error e
    | .ok (affected, t') =>
      match reconcileRows rows t' with
      | .error e => .error e
      | .ok (records, t'') =>
        .ok ((if affected = 1 then row.orphaned now else row) :: records, t'')

def reconcileAfterRestart : Outcome (List WriterPermitRecord) :=
  reconcileRows now (t.values.filter fun r => r.state.holdsOwner) t

end Operations

/-! ### Runs -/

inductive Call
  | acquire (request : AcquireWriterPermit)
  | beginRelease (request : BeginReleaseWriterPermit)
  | completeRelease (request : CompleteReleaseWriterPermit)
  | quarantine (request : QuarantineWriterPermit)
  | operatorRelease (request : OperatorReleaseWriterPermit)
  | reconcileAfterRestart

/-- A transaction of some actor: the call, the time it reads, the token that it would mint,
and whether the storage lets it commit. -/
structure Step where
  call : Call
  now : ℤ
  token : String
  commits : Bool

def Step.perform (step : Step) (t : Table) : Outcome (List WriterPermitRecord) :=
  let outcome : Outcome (List WriterPermitRecord) :=
    match step.call with
    | .acquire request => (acquire step.now step.token t request).map fun r => ([r.1], r.2)
    | .beginRelease request => (beginRelease step.now t request).map fun r => ([r.1], r.2)
    | .completeRelease request =>
      (completeRelease step.now step.token t request).map fun r => ([r.1], r.2)
    | .quarantine request => (quarantine step.now t request).map fun r => ([r.1], r.2)
    | .operatorRelease request => (operatorRelease step.now t request).map fun r => ([r.1], r.2)
    | .reconcileAfterRestart => reconcileAfterRestart step.now t
  if step.commits then outcome else .error (.storage "database is locked")

/-- The table after a transaction; one that fails is rolled back. -/
def Step.next (step : Step) (t : Table) : Table :=
  match step.perform t with
  | .ok (_, t') => t'
  | .error _ => t

/-- The table after the transactions of a list, in the order in which they are serialized. -/
def run (steps : List Step) : Table := steps.foldl (fun t step => step.next t) SortedMap.empty

end Codegg.WriterPermit
