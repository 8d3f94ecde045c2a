import Codegg.Library.SignedWord
import Codegg.Library.StateError
import Codegg.PromptQueue.Entry

/-!
# The queue store

The operations as the SQL statements they send. Each runs in a transaction that holds
SQLite's write lock from its first statement on, so transactions take effect one after
the other; one that fails leaves the database as it was. A table lists its rows in the
order of their rowids, which is that of the insertions; an `UPDATE` of a column of an
index first collects the rowids it selects, then visits the rows in that order.
-/
namespace Codegg.PromptQueue

open Codegg.Library

abbrev QueueM := EStateM UserPromptQueueError QueueDatabase

instance : Rollback QueueDatabase := ⟨fun db _ => db⟩

/-! ### Single statements -/

/-- `SELECT … WHERE p ORDER BY ordinal ASC` -/
def selectOrdered (p : UserPromptQueueEntryRecord → Bool) (table : EntryTable) :
    List UserPromptQueueEntryRecord :=
  (table.rows.filter p).insertionSort fun a b => a.ordinal ≤ b.ordinal

/-- An `UPDATE` of columns that are no keys; the result is the number of rows changed. -/
def update (p : UserPromptQueueEntryRecord → Bool) (u : EntryUpdate) : QueueM ℕ := fun db =>
  .ok (db.entries.affected p) { db with entries := db.entries.updateWhere p u }

/-- Statements that are checked against the keys; a clash is a storage error. -/
def storeEntries : Option EntryTable → QueueM Unit
  | some entries => modify fun db => { db with entries := entries }
  | none => throw .storage

def expireRow (nowMs : ℤ) : EntryUpdate where
  apply r := { r with status := .expired, updatedAtMs := nowMs }
  ident_apply _ := rfl
  slot_apply _ := rfl

def claimRow (nowMs : ℤ) : EntryUpdate where
  apply r := { r with status := .delivering, updatedAtMs := nowMs }
  ident_apply _ := rfl
  slot_apply _ := rfl

def deliverRow (turnId : String) (nowMs : ℤ) : EntryUpdate where
  apply r := { r with
    status := .delivered, deliveredTurnId := some turnId, deliveredAtMs := some nowMs
    updatedAtMs := nowMs, failureReason := none }
  ident_apply _ := rfl
  slot_apply _ := rfl

def failRow (reason : String) (nowMs : ℤ) : EntryUpdate where
  apply r := { r with status := .failed, failureReason := some reason, updatedAtMs := nowMs }
  ident_apply _ := rfl
  slot_apply _ := rfl

/-- Back to `pending`, for a release as for a retry. -/
def returnRow (nowMs : ℤ) : EntryUpdate where
  apply r := { r with status := .pending, updatedAtMs := nowMs, failureReason := none }
  ident_apply _ := rfl
  slot_apply _ := rfl

def editRow (text : String) (textBytes : ℕ) (runAtMs : Option ℤ) (nowMs : ℤ) : EntryUpdate where
  apply r := { r with
    text := text, textBytes := textBytes, runAtMs := runAtMs, updatedAtMs := nowMs }
  ident_apply _ := rfl
  slot_apply _ := rfl

def sweepExpired (sessionId : String) (nowMs : ℤ) : QueueM ℕ :=
  update (·.isOverdueAt sessionId nowMs) (expireRow nowMs)

/-- `WHERE id = ? AND status = ?` -/
def hasStatus (entryId : String) (status : UserPromptQueueStatus)
    (r : UserPromptQueueEntryRecord) : Bool :=
  decide (r.id = entryId) && decide (r.status = status)

/-- `WHERE id = ? AND session_id = ? AND status = 'pending'` -/
def pendingIn (sessionId entryId : String) (r : UserPromptQueueEntryRecord) : Bool :=
  decide (r.id = entryId) && r.ownedBy sessionId && decide (r.status = .pending)

def loadEntry (entryId : String) : QueueM (Option UserPromptQueueEntryRecord) := do
  return (← get).entries.get? entryId

/-! ### Ownership and capacity -/

def ownershipIn (db : QueueDatabase) (sessionId : String) : UserPromptQueueOwnership :=
  match db.owners sessionId with
  | some record => .owned record
  | none => if db.entries.rows.any (·.ownedBy sessionId) then .unowned else .absent

def resolveOwnership (sessionId : String) : QueueM UserPromptQueueOwnership := do
  return ownershipIn (← get) sessionId

/-- The gate of all mutations but `add`. -/
def ownedGate (caller : String) : UserPromptQueueOwnership → QueueM Unit
  | .owned record => failIf (record.ownerPrincipal ≠ caller) .notQueueOwner
  | .absent => throw .notFound
  | .unowned => throw .queueUnowned

def authorizeOwnedQueue (caller sessionId : String) : QueueM Unit := do
  ownedGate caller (← resolveOwnership sessionId)

def setOwner (record : UserPromptQueueOwnerRecord) : QueueM Unit :=
  modify fun db => { db with owners := Function.update db.owners record.sessionId (some record) }

def insertOwner (caller sessionId : String) (nowMs : ℤ) : QueueM Unit :=
  setOwner ⟨sessionId, caller, 0, nowMs, nowMs⟩

def checkCapacityIn (sessionId : String) (nowMs : ℤ) : QueueM Unit := do
  let table := (← get).entries
  failIf (maxPending ≤ table.affected (·.isLiveAt sessionId nowMs)) (.tooManyEntries maxPending)
  failIf (maxRetainedPerSession ≤ table.affected (·.ownedBy sessionId))
    (.tooManyEntries maxRetainedPerSession)

/-! ### Lists -/

/-- The operable set. -/
def operableRows (sessionId : String) (nowMs : ℤ) (table : EntryTable) :
    List UserPromptQueueEntryRecord :=
  (selectOrdered (·.isOperableAt sessionId nowMs) table).take maxRetainedPerSession

/-- The live set, including what is being delivered. -/
def projectedRows (sessionId : String) (nowMs : ℤ) (table : EntryTable) :
    List UserPromptQueueEntryRecord :=
  (selectOrdered (·.isLiveAt sessionId nowMs) table).take maxRetainedPerSession

def listLiveIn (sessionId : String) (nowMs : ℤ) : QueueM (List UserPromptQueueLiveEntry) := do
  return (operableRows sessionId nowMs (← get).entries).map liveFrom

def listProjectedIn (sessionId : String) (nowMs : ℤ) :
    QueueM (List UserPromptQueueLiveEntry) := do
  return (projectedRows sessionId nowMs (← get).entries).map liveFrom

def listLive (sessionId : String) (nowMs : ℤ) : QueueM (List UserPromptQueueLiveEntry) :=
  transaction do
    liftExcept (validateSessionId sessionId)
    let _ ← sweepExpired sessionId nowMs
    listProjectedIn sessionId nowMs

/-- Why a mutation does not act on the entry it names. -/
def refusalFor (existing : Option UserPromptQueueEntryRecord) (sessionId : String) (nowMs : ℤ) :
    UserPromptQueueError :=
  match existing with
  | none => .notFound
  | some row =>
    if row.sessionId ≠ sessionId then .notFound
    else if row.status = .delivering then .delivering
    else if row.expiresAtMs ≤ nowMs then .expired
    else if row.status ≠ .pending then .expired
    else .notFound

/-! ### Renumbering -/

/-- Fold the desired order of the operable entries into the live order; the other live
entries keep their rank. -/
def mergeOperableIntoLive : List UserPromptQueueLiveEntry → List String →
    Except UserPromptQueueError (List String)
  | [], [] => .ok []
  | [], _ :: _ => .error .orderMismatch
  | entry :: live, desired =>
    if entry.status.isOperable then
      match desired with
      | [] => .error .orderMismatch
      | id :: desired => (mergeOperableIntoLive live desired).map (id :: ·)
    else (mergeOperableIntoLive live desired).map (entry.id :: ·)

/-- `ordinal = ordinal + ?` -/
def displaceRow (r : UserPromptQueueEntryRecord) : UserPromptQueueEntryRecord :=
  { r with ordinal := r.ordinal + renumberBandOffset }

/-- `ordinal = ? … AND session_id = ?` -/
def placeRow (sessionId : String) (ordinal : ℕ) (r : UserPromptQueueEntryRecord) :
    UserPromptQueueEntryRecord :=
  if r.sessionId = sessionId then { r with ordinal := ordinal } else r

abbrev RowChange :=
  String × (UserPromptQueueEntryRecord → UserPromptQueueEntryRecord)

def displacements (sessionId : String) (table : EntryTable) : List RowChange :=
  (table.rows.filter (·.ownedBy sessionId)).map fun r => (r.id, displaceRow)

def denseTargets (sessionId : String) (merged : List String) : List RowChange :=
  merged.zipIdx.map fun target => (target.1, placeRow sessionId target.2)

def moveRows (changes : EntryTable → List RowChange) : QueueM Unit := do
  let db ← get
  storeEntries (db.entries.setRows? (changes db.entries))

def renumberDense (sessionId : String) (nowMs : ℤ) (desiredOperable : List String) :
    QueueM Unit := do
  let live ← listProjectedIn sessionId nowMs
  let merged ← liftExcept (mergeOperableIntoLive live desiredOperable)
  moveRows (displacements sessionId)
  moveRows fun _ => denseTargets sessionId merged

/-- Exactly the operable entries, each once. -/
def isPermutation (live : List UserPromptQueueLiveEntry) (target : List String) : Bool :=
  decide (live.length = target.length) && decide target.Nodup &&
    target.all fun id => live.any fun entry => decide (entry.id = id)

/-! ### Mutations of the owner -/

/-- `COALESCE(MAX(ordinal), -1) + 1` -/
def nextOrdinal (sessionId : String) (table : EntryTable) : ℕ :=
  (((table.rows.filter (·.ownedBy sessionId)).map (·.ordinal + 1)).max?).getD 0

def insertEntry (row : UserPromptQueueEntryRecord) : QueueM Unit := do
  let db ← get
  storeEntries (db.entries.insert? row)

/-- A second `add` of an identity gives the entry that is there, if it is this
session's and still waiting. -/
def converge (existing : UserPromptQueueEntryRecord) (sessionId : String) (nowMs : ℤ) :
    Except UserPromptQueueError UserPromptQueueEntryRecord :=
  if existing.sessionId ≠ sessionId then
    .error (.invalid "id" "entry identity is already used by another session")
  else if existing.status = .pending ∧ nowMs < existing.expiresAtMs then .ok existing
  else if existing.status = .delivering then .error .delivering
  else .error .expired

/-- The gate of `add`, which may also start a queue that never existed. -/
def addGate (caller : String) : UserPromptQueueOwnership → QueueM Unit
  | .owned record => failIf (record.ownerPrincipal ≠ caller) .notQueueOwner
  | .unowned => throw .queueUnowned
  | .absent => pure ()

def adoptAbsent (caller sessionId : String) (nowMs : ℤ) : UserPromptQueueOwnership → QueueM Unit
  | .absent => insertOwner caller sessionId nowMs
  | _ => pure ()

/-- `INSERT … ON CONFLICT(id) DO NOTHING`, and the row that is there afterwards. -/
def insertOrConverge (row : UserPromptQueueEntryRecord) (sessionId : String) (nowMs : ℤ) :
    Option UserPromptQueueEntryRecord → QueueM UserPromptQueueEntryRecord
  | some existing => liftExcept (converge existing sessionId nowMs)
  | none => do
    insertEntry row
    return row

def newEntry (sessionId entryId text : String) (ordinal textBytes : ℕ) (runAtMs : Option ℤ)
    (nowMs expiresAtMs : ℤ) : UserPromptQueueEntryRecord where
  id := entryId
  sessionId := sessionId
  ordinal := ordinal
  text := text
  textBytes := textBytes
  status := .pending
  failureReason := none
  createdAtMs := nowMs
  updatedAtMs := nowMs
  expiresAtMs := expiresAtMs
  deliveredTurnId := none
  deliveredAtMs := none
  runAtMs := runAtMs

def add (caller sessionId entryId text : String) (runAtMs : Option ℤ) (nowMs : ℤ) :
    QueueM UserPromptQueueLiveEntry := transaction do
  liftExcept (validatePrincipal caller)
  let textBytes ← liftExcept (validateEntry entryId sessionId text)
  liftExcept (validateRunAt runAtMs (saturatingAdd nowMs ttlMs))
  let ownership ← resolveOwnership sessionId
  addGate caller ownership
  checkCapacityIn sessionId nowMs
  adoptAbsent caller sessionId nowMs ownership
  let table := (← get).entries
  let row := newEntry sessionId entryId text (nextOrdinal sessionId table) textBytes runAtMs nowMs
    (saturatingAdd nowMs ttlMs)
  let record ← insertOrConverge row sessionId nowMs (table.get? entryId)
  return liveFrom record

/-- Rows an edit may change. -/
def editable (sessionId entryId : String) (nowMs : ℤ) (r : UserPromptQueueEntryRecord) : Bool :=
  pendingIn sessionId entryId r && decide (nowMs < r.expiresAtMs)

/-- The due time is checked against the stored expiry, and only for an entry that would
really be edited. -/
def dueTimeGate (sessionId : String) (runAtMs : Option ℤ) (nowMs : ℤ) :
    Option UserPromptQueueEntryRecord → Except UserPromptQueueError Unit
  | some row =>
    if row.isOperableAt sessionId nowMs then validateRunAt runAtMs row.expiresAtMs else .ok ()
  | none => .ok ()

def edit (caller sessionId entryId text : String) (runAtMs : Option ℤ) (nowMs : ℤ) :
    QueueM UserPromptQueueLiveEntry := transaction do
  liftExcept (validatePrincipal caller)
  let textBytes ← liftExcept (validateEntry entryId sessionId text)
  authorizeOwnedQueue caller sessionId
  let _ ← sweepExpired sessionId nowMs
  liftExcept (dueTimeGate sessionId runAtMs nowMs (← loadEntry entryId))
  let updated ← update (editable sessionId entryId nowMs) (editRow text textBytes runAtMs nowMs)
  let existing ← loadEntry entryId
  failIf (updated = 0) (refusalFor existing sessionId nowMs)
  liftExcept ((existing.map liveFrom).elim (.error UserPromptQueueError.notFound) .ok)

/-- `DELETE`; the result is the number of rows removed. -/
def deleteRows (p : UserPromptQueueEntryRecord → Bool) : QueueM ℕ := fun db =>
  .ok (db.entries.affected p) { db with entries := db.entries.deleteWhere p }

def delete (caller sessionId entryId : String) (nowMs : ℤ) :
    QueueM (List UserPromptQueueLiveEntry) := transaction do
  liftExcept (validatePrincipal caller)
  liftExcept (validateEntryId entryId)
  liftExcept (validateSessionId sessionId)
  authorizeOwnedQueue caller sessionId
  let _ ← sweepExpired sessionId nowMs
  let deleted ← deleteRows (pendingIn sessionId entryId)
  let existing ← loadEntry entryId
  failIf (deleted = 0) (refusalFor existing sessionId nowMs)
  let survivors ← listLiveIn sessionId nowMs
  renumberDense sessionId nowMs (survivors.map (·.id))
  listProjectedIn sessionId nowMs

def reorder (caller sessionId : String) (entryIds : List String) (nowMs : ℤ) :
    QueueM (List UserPromptQueueLiveEntry) := transaction do
  liftExcept (validatePrincipal caller)
  liftExcept (validateSessionId sessionId)
  liftExcept (entryIds.forM validateEntryId)
  authorizeOwnedQueue caller sessionId
  let _ ← sweepExpired sessionId nowMs
  let live ← listLiveIn sessionId nowMs
  failIf (isPermutation live entryIds = false) .orderMismatch
  renumberDense sessionId nowMs entryIds
  listProjectedIn sessionId nowMs

def adopt (caller sessionId : String) (nowMs : ℤ) : QueueM UserPromptQueueOwnerRecord :=
  transaction do
    liftExcept (validatePrincipal caller)
    liftExcept (validateSessionId sessionId)
    match ← resolveOwnership sessionId with
    | .owned record => do
      failIf (record.ownerPrincipal ≠ caller) .notQueueOwner
      return record
    | .absent | .unowned => do
      insertOwner caller sessionId nowMs
      liftExcept (((← get).owners sessionId).elim (.error UserPromptQueueError.notFound) .ok)

def transfer (caller recipient : String) (expectedRevision : ℕ) (sessionId : String) (nowMs : ℤ) :
    QueueM UserPromptQueueOwnerRecord := transaction do
  liftExcept (validatePrincipal caller)
  liftExcept (validatePrincipal recipient)
  liftExcept (validateSessionId sessionId)
  match ← resolveOwnership sessionId with
  | .absent => throw .notFound
  | .unowned => throw .queueUnowned
  | .owned current => do
    failIf (current.ownerPrincipal ≠ caller) .notQueueOwner
    failIf (current.revision ≠ min expectedRevision (2 ^ 63 - 1))
      (.ownerRevisionConflict expectedRevision current.revision)
    let moved := { current with
      ownerPrincipal := recipient, revision := current.revision + 1, updatedAtMs := nowMs }
    setOwner moved
    return moved

/-! ### Delivery -/

structure UserPromptQueueDeliveryClaim where
  entry : UserPromptQueueEntryRecord
  ownerPrincipal : String
  ownerRevision : ℕ
  deriving DecidableEq, Repr

inductive UserPromptQueueDeliveryResolution where
  | delivered (turnId : String)
  | retry
  | failed (reason : String)
  deriving DecidableEq, Repr

/-- What a claim may take. -/
def isClaimable (sessionId : String) (nowMs : ℤ) (r : UserPromptQueueEntryRecord) : Bool :=
  r.ownedBy sessionId && decide (r.status = .pending) && decide (nowMs < r.expiresAtMs) &&
    r.isDueAt nowMs

/-- Take the candidate: the `UPDATE` is guarded on its identity still being `pending`. -/
def takeCandidate (sessionId : String) (nowMs : ℤ) (owner : UserPromptQueueOwnerRecord)
    (candidate : UserPromptQueueEntryRecord) : QueueM (Option UserPromptQueueDeliveryClaim) := do
  let claimed ← update (pendingIn sessionId candidate.id) (claimRow nowMs)
  let entry ← loadEntry candidate.id
  return if claimed = 0 then none
    else entry.map fun entry => ⟨entry, owner.ownerPrincipal, owner.revision⟩

def claimNextForDelivery (sessionId : String) (nowMs : ℤ) :
    QueueM (Option UserPromptQueueDeliveryClaim) := transaction do
  liftExcept (validateSessionId sessionId)
  let db ← get
  match db.owners sessionId with
  | none => return none
  | some owner =>
    match (selectOrdered (isClaimable sessionId nowMs) db.entries).head? with
    | none => return none
    | some candidate => takeCandidate sessionId nowMs owner candidate

/-- One guarded `UPDATE` on the row of an identity; the result says whether it matched. -/
def settle (entryId : String) (status : UserPromptQueueStatus) (u : EntryUpdate) :
    QueueM Bool := do
  let updated ← update (hasStatus entryId status) u
  return decide (updated = 1)

def markDelivered (entryId turnId : String) (nowMs : ℤ) : QueueM Bool := transaction do
  liftExcept (validateEntryId entryId)
  liftExcept (validateTurnId turnId)
  settle entryId .delivering (deliverRow turnId nowMs)

def markSteerDelivered (caller sessionId entryId turnId : String) (nowMs : ℤ) : QueueM Unit :=
  transaction do
    liftExcept (validatePrincipal caller)
    liftExcept (validateEntryId entryId)
    liftExcept (validateSessionId sessionId)
    liftExcept (validateTurnId turnId)
    authorizeOwnedQueue caller sessionId
    let _ ← sweepExpired sessionId nowMs
    let settled ← update (pendingIn sessionId entryId) (deliverRow turnId nowMs)
    let existing ← loadEntry entryId
    failIf (settled = 0) (refusalFor existing sessionId nowMs)

def markDeliveryFailed (entryId reason : String) (nowMs : ℤ) : QueueM Bool := transaction do
  liftExcept (validateEntryId entryId)
  let reason ← liftExcept (boundedReason reason)
  settle entryId .delivering (failRow reason nowMs)

def releaseDelivery (entryId : String) (nowMs : ℤ) : QueueM Bool := transaction do
  liftExcept (validateEntryId entryId)
  settle entryId .delivering (returnRow nowMs)

def retryFailed (entryId : String) (nowMs : ℤ) : QueueM Bool := transaction do
  liftExcept (validateEntryId entryId)
  settle entryId .failed (returnRow nowMs)

def resolveStrandedDelivery (entryId : String) (resolution : UserPromptQueueDeliveryResolution)
    (nowMs : ℤ) : QueueM Bool := transaction do
  liftExcept (validateEntryId entryId)
  match resolution with
  | .delivered turnId => settle entryId .delivering (deliverRow turnId nowMs)
  | .retry => settle entryId .delivering (returnRow nowMs)
  | .failed reason =>
    let reason ← liftExcept (boundedReason reason)
    settle entryId .delivering (failRow reason nowMs)

/-! ### Runs -/

/-- A request to the store by any caller. -/
inductive Operation where
  | add (caller sessionId entryId text : String) (runAtMs : Option ℤ) (nowMs : ℤ)
  | edit (caller sessionId entryId text : String) (runAtMs : Option ℤ) (nowMs : ℤ)
  | delete (caller sessionId entryId : String) (nowMs : ℤ)
  | reorder (caller sessionId : String) (entryIds : List String) (nowMs : ℤ)
  | adopt (caller sessionId : String) (nowMs : ℤ)
  | transfer (caller recipient : String) (expectedRevision : ℕ) (sessionId : String) (nowMs : ℤ)
  | listLive (sessionId : String) (nowMs : ℤ)
  | claim (sessionId : String) (nowMs : ℤ)
  | markDelivered (entryId turnId : String) (nowMs : ℤ)
  | markSteerDelivered (caller sessionId entryId turnId : String) (nowMs : ℤ)
  | markDeliveryFailed (entryId reason : String) (nowMs : ℤ)
  | releaseDelivery (entryId : String) (nowMs : ℤ)
  | retryFailed (entryId : String) (nowMs : ℤ)
  | resolveStranded (entryId : String) (resolution : UserPromptQueueDeliveryResolution)
      (nowMs : ℤ)

inductive Response where
  | entry (entry : UserPromptQueueLiveEntry)
  | projection (entries : List UserPromptQueueLiveEntry)
  | owner (record : UserPromptQueueOwnerRecord)
  | claim (claim : Option UserPromptQueueDeliveryClaim)
  | flag (changed : Bool)
  | done
  deriving DecidableEq, Repr

def perform : Operation → QueueM Response
  | .add caller sessionId entryId text runAtMs nowMs =>
    .entry <$> add caller sessionId entryId text runAtMs nowMs
  | .edit caller sessionId entryId text runAtMs nowMs =>
    .entry <$> edit caller sessionId entryId text runAtMs nowMs
  | .delete caller sessionId entryId nowMs =>
    .projection <$> delete caller sessionId entryId nowMs
  | .reorder caller sessionId entryIds nowMs =>
    .projection <$> reorder caller sessionId entryIds nowMs
  | .adopt caller sessionId nowMs => .owner <$> adopt caller sessionId nowMs
  | .transfer caller recipient expectedRevision sessionId nowMs =>
    .owner <$> transfer caller recipient expectedRevision sessionId nowMs
  | .listLive sessionId nowMs => .projection <$> listLive sessionId nowMs
  | .claim sessionId nowMs => .claim <$> claimNextForDelivery sessionId nowMs
  | .markDelivered entryId turnId nowMs => .flag <$> markDelivered entryId turnId nowMs
  | .markSteerDelivered caller sessionId entryId turnId nowMs =>
    (fun _ => .done) <$> markSteerDelivered caller sessionId entryId turnId nowMs
  | .markDeliveryFailed entryId reason nowMs => .flag <$> markDeliveryFailed entryId reason nowMs
  | .releaseDelivery entryId nowMs => .flag <$> releaseDelivery entryId nowMs
  | .retryFailed entryId nowMs => .flag <$> retryFailed entryId nowMs
  | .resolveStranded entryId resolution nowMs =>
    .flag <$> resolveStrandedDelivery entryId resolution nowMs

/-- The database after an operation, whether it succeeded or not. -/
def after (db : QueueDatabase) (op : Operation) : QueueDatabase := finalState (perform op db)

/-- The database after operations of any callers, in the order they commit. -/
def run (db : QueueDatabase) (ops : List Operation) : QueueDatabase := ops.foldl after db

/-- The entry a claim hands out, if the operation is a claim that succeeds. -/
def claimed (db : QueueDatabase) (op : Operation) : Option UserPromptQueueEntryRecord :=
  match perform op db with
  | .ok (.claim (some claim)) _ => some claim.entry
  | _ => none

end Codegg.PromptQueue
