import Codegg.Documents.Service

/-!
# The client's optimistic replica

The controller applies an edit to its own buffer at once and queues it as a pending change.
A flush sends the pending changes one after another, each until it is answered; an insertion
that continues the last pending one is merged into it. Save, resync and reconnect wait for
one answer at a time, under a lock that a flush takes too; only local edits come between.
-/
namespace Codegg.Documents

open Codegg.Library

def maxPendingTransactions : ℕ := 128

def maxPendingInsertBytes : ℕ := 4 * 1024 * 1024

inductive DocumentState where
  | closed
  | opening
  | synced
  | dirtyLocal
  | flushing
  | resyncRequired
  | conflict
  | readOnly
  | disconnected
  | goneWithLocalDraft
  deriving Repr, DecidableEq

inductive DocumentControllerError where
  | transport (message : String)
  | response
  | edit (e : DocumentError)
  | lifecycleBusy
  | readOnly
  | queueFull
  | queueBytes
  | resyncRequired
  | conflict
  deriving Repr, DecidableEq

inductive ControllerLifecycle where
  | idle
  | saving
  | resyncing
  | reconnecting
  deriving Repr, DecidableEq

structure PendingChange where
  id : String
  baseRevision : ℕ
  transaction : TextTransaction
  dto : DocumentTransactionDto
  baseSnapshot : DocumentSnapshot
  resultingSnapshot : DocumentSnapshot
  deriving Repr, DecidableEq

structure Attachment where
  projectId : String
  documentId : String
  writerLease : Option String
  daemonRevision : ℕ
  buffer : DocumentBuffer
  pending : List PendingChange
  pendingBytes : ℕ
  inFlight : Option String
  dirty : Bool
  conflicted : Bool
  deriving Repr, DecidableEq

/-- The operation that holds the operation lock, with the answer it waits for. -/
inductive Operation where
  | idle
  | flushing
  | change (id : String)
  | save (savedLocalSeq : ℕ) (prior : DocumentState)
  | resync (prior : DocumentState)
  | reconnect (wantsWriter : Bool) (prior : DocumentState)
  | reconnectWriter (snapshot : DocumentSnapshotDto) (prior : DocumentState)
  deriving Repr, DecidableEq

structure DocumentController where
  attachment : Attachment
  state : DocumentState
  lifecycle : ControllerLifecycle
  localEditSeq : ℕ
  networkEnabled : Bool
  operation : Operation
  deriving Repr, DecidableEq

/-- The position of the last element that passes a test. -/
def rposition {α : Type*} (f : α → Bool) : List α → Option ℕ
  | [] => none
  | x :: xs =>
    match rposition f xs with
    | some i => some (i + 1)
    | none => if f x then some 0 else none

def transactionToDto (tx : TextTransaction) : DocumentTransactionDto := tx

namespace Attachment

/-- The insertion of a transaction that is one insertion. -/
def insertionOf (tx : TextTransaction) : Option (ℕ × Rope) :=
  match tx.edits with
  | [edit] => if edit.range.start = edit.range.stop then some (edit.range.start, edit.insert)
    else none
  | _ => none

/-- The last pending change, where an insertion continues it and it is not in flight. -/
def mergeTarget (a : Attachment) (tx : TextTransaction) : Option PendingChange :=
  a.pending.getLast?.filter fun last =>
    a.inFlight ≠ some last.id &&
      match insertionOf last.transaction, insertionOf tx with
      | some (start, insert), some (offset, _) => offset = start + byteLen insert
      | _, _ => false

/-- The pending change with the insertion of a transaction appended to its own. -/
def mergeInto (last : PendingChange) (tx : TextTransaction) (resulting : DocumentSnapshot) :
    PendingChange :=
  let merged : TextTransaction :=
    match insertionOf last.transaction, insertionOf tx with
    | some (start, insert), some (_, more) => TextTransaction.insertAt start (insert ++ more)
    | _, _ => last.transaction
  { last with
    transaction := merged
    dto := transactionToDto merged
    resultingSnapshot := resulting }

def applyLocal (a : Attachment) (tx : TextTransaction) (id : String) :
    Except DocumentControllerError (String × Attachment) :=
  if a.writerLease = none then .error .readOnly
  else if maxPendingTransactions ≤ a.pending.length then .error .queueFull
  else if maxDocumentEdits < tx.edits.length then .error (.edit .tooManyEdits)
  else if maxDocumentInsertBytes < tx.inserted then .error (.edit .tooMuchInsertedText)
  else if maxPendingInsertBytes < a.pendingBytes + tx.inserted then .error .queueBytes
  else
    match a.buffer.apply tx protocolLimits with
    | .error e => .error (.edit e)
    | .ok (applied, buffer) =>
      let a' := { a with
        buffer := buffer
        pendingBytes := a.pendingBytes + tx.inserted
        dirty := true }
      match a.mergeTarget tx with
      | some last =>
        .ok (last.id, { a' with
          pending := a.pending.dropLast ++ [mergeInto last tx applied.snapshot] })
      | none =>
        let change : PendingChange :=
          { id := id
            baseRevision := a.daemonRevision + a.pending.length
            transaction := tx
            dto := transactionToDto tx
            baseSnapshot := a.buffer.snapshot
            resultingSnapshot := applied.snapshot }
        .ok (id, { a' with pending := a.pending ++ [change] })

/-- The queue without its first change. -/
def popFront (a : Attachment) (id : String) : Attachment :=
  match a.pending with
  | [] => a
  | p :: rest => { a with
      pending := rest
      pendingBytes := if p.id = id then a.pendingBytes - p.transaction.inserted
        else a.pendingBytes }

/-- The last pending change whose result the snapshot is. -/
def accepted (a : Attachment) (snapshot : DocumentSnapshotDto) : Option ℕ :=
  rposition (fun p => p.baseRevision + 1 = snapshot.revision ∧
    snapshot.text = p.resultingSnapshot.text) a.pending

def dropAccepted (a : Attachment) (n : ℕ) : Attachment :=
  { a with
    pending := a.pending.drop n
    pendingBytes := a.pendingBytes - ((a.pending.take n).map fun p => p.transaction.inserted).sum }

/-- The queue that a snapshot leaves. -/
def resolvePending (a : Attachment) (snapshot : DocumentSnapshotDto) : Option Attachment :=
  if a.pending = [] then some a
  else
    match a.accepted snapshot with
    | some i => some (a.dropAccepted (i + 1))
    | none =>
      if a.pending.head?.any fun p => p.baseRevision = snapshot.revision ∧
          snapshot.text = p.baseSnapshot.text then some a
      else none

/-- The snapshot of the daemon taken over. The queue is cut before the size is checked. -/
def installSnapshot (a : Attachment) (snapshot : DocumentSnapshotDto) :
    Except DocumentControllerError Unit × Attachment :=
  if snapshot.documentId ≠ a.documentId ∨ snapshot.projectId ≠ a.projectId then
    (.error .resyncRequired, a)
  else
    match a.resolvePending snapshot with
    | none => (.error .resyncRequired, a)
    | some a =>
      if maxDocumentTextBytes < byteLen snapshot.text then (.error .response, a)
      else
        (.ok (), { a with
          buffer := if a.pending = [] then DocumentBuffer.new snapshot.text else a.buffer
          daemonRevision := snapshot.revision
          dirty := snapshot.dirty || !a.pending.isEmpty
          conflicted := snapshot.conflicted })

/-- The state shown once the lifecycle guard of an operation is let go. -/
def restoredState (a : Attachment) (prior : DocumentState) : DocumentState :=
  if a.conflicted then .conflict
  else if a.dirty || !a.pending.isEmpty then .dirtyLocal
  else prior

end Attachment

namespace DocumentController

/-- What an operation does next: it ends, or it sends a request and waits. -/
structure Turn where
  result : Option (Except DocumentControllerError Unit)
  request : Option CoreRequest
  controller : DocumentController
  deriving Repr, DecidableEq

/-- The operation ends, lets the lock go and shows a state. -/
def release (c : DocumentController) (result : Except DocumentControllerError Unit)
    (state : DocumentState) : Turn where
  result := some result
  request := none
  controller := { c with state := state, operation := .idle }

/-- An operation with a lifecycle guard ends. -/
def finish (c : DocumentController) (result : Except DocumentControllerError Unit)
    (state : DocumentState) : Turn :=
  release { c with lifecycle := .idle } result state

/-- The operation sends a request. -/
def await (c : DocumentController) (operation : Operation) (request : CoreRequest) : Turn where
  result := none
  request := some request
  controller := { c with operation := operation }

variable (c : DocumentController)

def applyLocal (tx : TextTransaction) (id : String) :
    Except DocumentControllerError String × DocumentController :=
  if tx.edits = [] then (.ok id, c)
  else if c.lifecycle ≠ .idle ∧ c.lifecycle ≠ .saving then (.error .lifecycleBusy, c)
  else
    match c.attachment.applyLocal tx id with
    | .error e => (.error e, c)
    | .ok (id, a) =>
      (.ok id, { c with
        attachment := a
        localEditSeq := c.localEditSeq + 1
        state := if c.lifecycle = .idle then .dirtyLocal else c.state })

/-- The head of the flush loop: the first pending change is sent. -/
def flush : Turn :=
  let a := c.attachment
  if a.conflicted then release c (.error .conflict) .conflict
  else
    match a.pending, a.writerLease with
    | [], _ => release c (.ok ()) (if a.dirty then .dirtyLocal else .synced)
    | _ :: _, none => release c (.error .readOnly) c.state
    | p :: _, some lease =>
      await { c with attachment := { a with inFlight := some p.id }, state := .flushing }
        (.change p.id)
        (.documentChange
          { projectId := a.projectId
            documentId := a.documentId
            writerLease := lease
            baseRevision := p.baseRevision
            changeId := p.id
            transaction := p.dto })

def onChange (id : String) : Except String CoreResponse → Turn
  | .error message =>
    let a := { c.attachment with inFlight := none }
    release { c with attachment := a, networkEnabled := false } (.error (.transport message))
      .disconnected
  | .ok (.documentChanged revision) =>
    let a := { c.attachment with inFlight := none }
    { result := none
      request := none
      controller := { c with
        attachment := { a.popFront id with daemonRevision := revision }
        operation := .flushing } }
  | .ok _ =>
    let a := { c.attachment with inFlight := none }
    release { c with attachment := a, networkEnabled := false } (.error .response) .resyncRequired

/-- The part of `save` after its flush. -/
def save : Turn :=
  let a := c.attachment
  if a.conflicted then release c (.error .conflict) c.state
  else
    match a.writerLease with
    | none => release c (.error .readOnly) c.state
    | some lease =>
      await { c with lifecycle := .saving, state := .flushing } (.save c.localEditSeq c.state)
        (.documentSave a.projectId a.documentId lease a.daemonRevision)

def onSave (savedLocalSeq : ℕ) : Except String CoreResponse → Turn
  | .error message =>
    finish { c with networkEnabled := false } (.error (.transport message)) .disconnected
  | .ok (.documentSaved revision _) =>
    let a := { c.attachment with daemonRevision := revision }
    if c.localEditSeq = savedLocalSeq ∧ a.pending = [] then
      finish { c with attachment := { a with dirty := false } } (.ok ()) .synced
    else
      finish { c with attachment := { a with dirty := true } } (.ok ()) .dirtyLocal
  | .ok (.error .documentDiskConflict) =>
    let a := { c.attachment with conflicted := true }
    finish { c with attachment := a } (.error .response) .conflict
  | .ok _ =>
    finish { c with networkEnabled := false } (.error .response) .resyncRequired

def resync : Turn :=
  let a := c.attachment
  await { c with lifecycle := .resyncing, state := .opening } (.resync c.state)
    (.documentSnapshotGet a.projectId a.documentId)

/-- The state after a resync that took over a snapshot. -/
def resyncedState (a : Attachment) : DocumentState :=
  if a.conflicted then .conflict
  else if a.writerLease = none then .readOnly
  else if a.dirty then .dirtyLocal
  else .synced

def onResync (prior : DocumentState) : Except String CoreResponse → Turn
  | .error message => finish c (.error (.transport message)) prior
  | .ok (.documentSnapshot snapshot _) =>
    match c.attachment.installSnapshot snapshot with
    | (.error e, a) => finish { c with attachment := a } (.error e) (a.restoredState prior)
    | (.ok (), a) =>
      finish { c with attachment := a, networkEnabled := true } (.ok ()) (resyncedState a)
  | .ok _ => finish c (.error .response) .goneWithLocalDraft

def reconnect : Turn :=
  await { c with lifecycle := .reconnecting, state := .opening }
    (.reconnect c.attachment.writerLease.isSome c.state) .documentOpen

/-- The state after a reconnect that took over a snapshot. -/
def reconnectedState (a : Attachment) : DocumentState :=
  if a.conflicted then .conflict
  else if a.writerLease = none then .readOnly
  else if a.pending = [] ∧ a.dirty = false then .synced
  else .dirtyLocal

/-- The end of a reconnect, with the lease it got. -/
def reattach (snapshot : DocumentSnapshotDto) (lease : Option String) : Turn :=
  match { c.attachment with writerLease := lease }.installSnapshot snapshot with
  | (.error e, a) =>
    finish { c with attachment := a } (.error e)
      (if e = .resyncRequired then .resyncRequired else .disconnected)
  | (.ok (), a) =>
    finish { c with attachment := a, networkEnabled := true } (.ok ()) (reconnectedState a)

def onReconnect (wantsWriter : Bool) (prior : DocumentState) : Except String CoreResponse → Turn
  | .error message =>
    finish { c with networkEnabled := false } (.error (.transport message)) .disconnected
  | .ok (.documentSnapshot snapshot lease) =>
    let a := c.attachment
    if snapshot.documentId ≠ a.documentId then
      finish c (.error .resyncRequired) .goneWithLocalDraft
    else if wantsWriter ∧ lease = none then
      await c (.reconnectWriter snapshot prior) (.documentWriterAcquire a.projectId a.documentId)
    else c.reattach snapshot lease
  | .ok (.error (.service .notFound)) => finish c (.error .response) .goneWithLocalDraft
  | .ok _ => finish c (.error .response) .disconnected

def onReconnectWriter (snapshot : DocumentSnapshotDto) : Except String CoreResponse → Turn
  | .error message => finish c (.error (.transport message)) .disconnected
  | .ok (.documentWriterLease _ lease) => c.reattach snapshot (some lease)
  | .ok _ => c.reattach snapshot none

/-- The answer, or the failure, of the request the operation waits for. -/
def receive (response : Except String CoreResponse) : Turn :=
  match c.operation with
  | .change id => c.onChange id response
  | .save savedLocalSeq _ => c.onSave savedLocalSeq response
  | .resync prior => c.onResync prior response
  | .reconnect wantsWriter prior => c.onReconnect wantsWriter prior response
  | .reconnectWriter snapshot _ => c.onReconnectWriter snapshot response
  | _ => { result := none, request := none, controller := c }

/-- The operation is dropped while it waits. A flush has no lifecycle guard to let go. -/
def cancel : DocumentController :=
  match c.operation with
  | .save _ prior | .resync prior | .reconnect _ prior | .reconnectWriter _ prior =>
    { c with
      operation := .idle
      lifecycle := .idle
      state := c.attachment.restoredState prior }
  | _ => { c with operation := .idle }

end DocumentController

end Codegg.Documents
