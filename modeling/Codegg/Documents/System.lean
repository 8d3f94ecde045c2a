import Codegg.Documents.Controller

/-!
# A writer, the daemon and the requests between them

One controller writes to one document. Requests wait in the network until the daemon
handles them, in any order, or they are lost; an answer reaches the controller only while it
waits for it. The wait may end in an error at any time, also after the daemon has acted, and
a request given up may still be handled later. Beside the two parties the state keeps what
has happened: the changes sent, the edits made, the texts of the document and the changes
the daemon applied.
-/
namespace Codegg.Documents

open Codegg.Library

structure Message where
  client : String
  token : ℕ
  request : CoreRequest
  deriving Repr, DecidableEq

structure DocumentSystem where
  controller : DocumentController
  connection : String
  awaiting : Option ℕ
  service : DocumentService
  requests : List Message
  replies : List (ℕ × CoreResponse)
  nextToken : ℕ
  drawn : List String
  sent : List ChangeRequest
  made : List TextTransaction
  current : DocumentSnapshot
  past : List DocumentSnapshot
  applied : List TextTransaction
  deriving Repr, DecidableEq

inductive Action where
  | applyLocal (tx : TextTransaction) (id : String)
  | beginFlush
  | flush
  | save
  | resync
  | reconnect (connection : String)
  | cancel
  | serve (index : ℕ) (turn : DaemonTurn)
  | lose (index : ℕ)
  | deliver (index : ℕ)
  | fail (message : String)
  | disconnect (client : String)
  | observe (client documentId : String)
  | observeOpen (client : String)
  | restart
  deriving Repr, DecidableEq

/-- The replica that a snapshot installs on a new attachment. -/
def DocumentController.installReplica (snapshot : DocumentSnapshotDto) (lease : Option String) :
    DocumentController where
  attachment :=
    { projectId := snapshot.projectId
      documentId := snapshot.documentId
      writerLease := lease
      daemonRevision := snapshot.revision
      buffer := DocumentBuffer.new snapshot.text
      pending := []
      pendingBytes := 0
      inFlight := none
      dirty := snapshot.dirty
      conflicted := snapshot.conflicted }
  state := if snapshot.conflicted then .conflict
    else if lease = none then .readOnly else .synced
  lifecycle := .idle
  localEditSeq := 0
  networkEnabled := true
  operation := .idle

namespace DocumentSystem

/-- The system once the controller has opened a document that the daemon holds. -/
def attached (doc : OpenDocument) (connection : String) (lease : Option String) :
    DocumentSystem where
  controller := DocumentController.installReplica (doc.snapshot connection) lease
  connection := connection
  awaiting := none
  service := { projectId := doc.projectId, document := some doc }
  requests := []
  replies := []
  nextToken := 0
  drawn := doc.id :: doc.recent.map Prod.fst
  sent := []
  made := []
  current := doc.buffer.snapshot
  past := []
  applied := []

variable (s : DocumentSystem)

abbrev attachment : Attachment := s.controller.attachment

/-- The text the document had at a revision. -/
def textAt (revision : ℕ) : Option Rope :=
  ((s.current :: s.past).find? fun t => t.revision = revision).map DocumentSnapshot.text

/-- A request on its way to the daemon. -/
def post (client : String) (request : CoreRequest) : DocumentSystem :=
  { s with
    requests := s.requests ++ [{ client := client, token := s.nextToken, request := request }]
    nextToken := s.nextToken + 1 }

/-- The controller sends a request and waits for its answer. -/
def sendRequest (request : CoreRequest) : DocumentSystem :=
  { s.post s.connection request with
    awaiting := some s.nextToken
    sent := match request with
      | .documentChange r => s.sent ++ [r]
      | _ => s.sent }

/-- The controller takes a turn. -/
def perform (turn : DocumentController.Turn) : DocumentSystem :=
  let s := { s with controller := turn.controller, awaiting := none }
  match turn.request with
  | none => s
  | some request => s.sendRequest request

def applyLocal (tx : TextTransaction) (id : String) : DocumentSystem :=
  match s.controller.applyLocal tx id with
  | (.error _, c) => { s with controller := c, drawn := id :: s.drawn }
  | (.ok _, c) =>
    { s with
      controller := c
      drawn := id :: s.drawn
      made := if tx.edits = [] then s.made else s.made ++ [tx] }

/-- A text of the document, and the change that led to it, go into the history. -/
def enter (text : DocumentSnapshot) (request : CoreRequest) : DocumentSystem :=
  { s with
    current := text
    past := s.current :: s.past
    applied := match request with
      | .documentChange r => s.applied ++ [r.transaction]
      | _ => s.applied }

/-- A new revision of the attached document is entered in its history. -/
def record (request : CoreRequest) : DocumentSystem :=
  match s.service.document with
  | none => s
  | some doc =>
    if doc.id = s.attachment.documentId ∧ doc.buffer.revision ≠ s.current.revision then
      s.enter doc.buffer.snapshot request
    else s

def serve (dg : Digests) (index : ℕ) (turn : DaemonTurn) : DocumentSystem :=
  match s.requests[index]? with
  | none => s
  | some m =>
    let (response, service) := s.service.handle dg turn m.client m.request
    { { s with service := service }.record m.request with
      requests := s.requests.eraseIdx index
      replies := s.replies ++ [(m.token, response)]
      drawn := turn.documentId :: s.drawn }

def deliver (index : ℕ) : DocumentSystem :=
  match s.replies[index]? with
  | none => s
  | some (token, response) =>
    let s := { s with replies := s.replies.eraseIdx index }
    if s.awaiting = some token then s.perform (s.controller.receive (.ok response)) else s

/-- An operation starts when it gets the operation lock. -/
def begin (turn : DocumentController.Turn) : DocumentSystem :=
  if s.controller.operation = .idle then s.perform turn else s

def step (dg : Digests) : Action → DocumentSystem
  | .applyLocal tx id => s.applyLocal tx id
  | .beginFlush =>
    s.begin { result := none, request := none
              controller := { s.controller with operation := .flushing } }
  | .flush =>
    if s.controller.operation = .flushing then s.perform s.controller.flush else s
  | .save => s.begin s.controller.save
  | .resync => s.begin s.controller.resync
  | .reconnect connection =>
    if s.controller.operation = .idle then
      { s with connection := connection }.perform s.controller.reconnect
    else s
  | .cancel => { s with controller := s.controller.cancel, awaiting := none }
  | .serve index turn => s.serve dg index turn
  | .lose index => { s with requests := s.requests.eraseIdx index }
  | .deliver index => s.deliver index
  | .fail message =>
    if s.awaiting = none then s else s.perform (s.controller.receive (.error message))
  | .disconnect client => { s with service := s.service.detachClient client }
  | .observe client documentId =>
    s.post client (.documentSnapshotGet s.attachment.projectId documentId)
  | .observeOpen client => s.post client .documentOpen
  | .restart => { s with service := { s.service with document := none } }

def run (dg : Digests) (actions : List Action) : DocumentSystem :=
  actions.foldl (fun s action => s.step dg action) s

/-- Every step of a run meets a condition on the state before it. -/
def EachStep (dg : Digests) (P : DocumentSystem → Action → Prop) :
    DocumentSystem → List Action → Prop
  | _, [] => True
  | s, action :: actions => P s action ∧ EachStep dg P (s.step dg action) actions

instance decidableEachStep (dg : Digests) (P : DocumentSystem → Action → Prop)
    [∀ s action, Decidable (P s action)] :
    (s : DocumentSystem) → (actions : List Action) → Decidable (EachStep dg P s actions)
  | _, [] => isTrue trivial
  | s, action :: actions =>
    have := decidableEachStep dg P (s.step dg action) actions
    inferInstanceAs (Decidable (P s action ∧ EachStep dg P (s.step dg action) actions))

/-- The identifiers drawn are new, and those of changes have the length of a UUID. -/
def Fresh (s : DocumentSystem) : Action → Prop
  | .applyLocal _ id => id ∉ s.drawn ∧ id.utf8ByteSize = 36
  | .serve _ turn => turn.documentId ∉ s.drawn
  | _ => True

instance (s : DocumentSystem) : (action : Action) → Decidable (s.Fresh action)
  | .applyLocal _ id => inferInstanceAs (Decidable (id ∉ s.drawn ∧ id.utf8ByteSize = 36))
  | .serve _ turn => inferInstanceAs (Decidable (turn.documentId ∉ s.drawn))
  | .beginFlush | .flush | .save | .resync | .reconnect _ | .cancel | .lose _ | .deliver _
  | .fail _ | .disconnect _ | .observe _ _ | .observeOpen _ | .restart => isTrue trivial

/-- The file read for a snapshot of the clean document is the one on the daemon's record. -/
def Undisturbed (dg : Digests) (s : DocumentSystem) : Action → Prop
  | .serve index turn =>
    ∀ m ∈ s.requests[index]?, m.request.readsSnapshot = true →
      ∀ doc ∈ s.service.document, doc.id = s.attachment.documentId → doc.dirty = false →
        ∀ text ∈ turn.disk, dg.sha256 text = doc.baseDigest
  | _ => True

instance (dg : Digests) (s : DocumentSystem) : (action : Action) → Decidable (s.Undisturbed dg action)
  | .serve index turn => inferInstanceAs (Decidable
      (∀ m ∈ s.requests[index]?, m.request.readsSnapshot = true →
        ∀ doc ∈ s.service.document, doc.id = s.attachment.documentId → doc.dirty = false →
          ∀ text ∈ turn.disk, dg.sha256 text = doc.baseDigest))
  | .applyLocal _ _ | .beginFlush | .flush | .save | .resync | .reconnect _ | .cancel | .lose _
  | .deliver _ | .fail _ | .disconnect _ | .observe _ _ | .observeOpen _ | .restart => isTrue trivial

/-- An insertion that is merged continues a change never sent. -/
def ContinuesUnsent (s : DocumentSystem) : Action → Prop
  | .applyLocal tx id =>
    (s.controller.applyLocal tx id).1.isOk = true → ∀ last ∈ s.attachment.mergeTarget tx,
      ∀ r ∈ s.sent, r.changeId ≠ last.id
  | _ => True

instance (s : DocumentSystem) : (action : Action) → Decidable (s.ContinuesUnsent action)
  | .applyLocal tx id => inferInstanceAs (Decidable
      ((s.controller.applyLocal tx id).1.isOk = true → ∀ last ∈ s.attachment.mergeTarget tx,
        ∀ r ∈ s.sent, r.changeId ≠ last.id))
  | .serve _ _ | .beginFlush | .flush | .save | .resync | .reconnect _ | .cancel | .lose _
  | .deliver _ | .fail _ | .disconnect _ | .observe _ _ | .observeOpen _ | .restart => isTrue trivial

/-- What an insertion and the one it is merged into insert fits in `room` bytes. -/
def MergesWithin (room : ℕ) (s : DocumentSystem) : Action → Prop
  | .applyLocal tx id =>
    (s.controller.applyLocal tx id).1.isOk = true → ∀ last ∈ s.attachment.mergeTarget tx,
      last.transaction.inserted + tx.inserted ≤ room
  | _ => True

instance (room : ℕ) (s : DocumentSystem) : (action : Action) → Decidable (s.MergesWithin room action)
  | .applyLocal tx id => inferInstanceAs (Decidable
      ((s.controller.applyLocal tx id).1.isOk = true → ∀ last ∈ s.attachment.mergeTarget tx,
        last.transaction.inserted + tx.inserted ≤ room))
  | .serve _ _ | .beginFlush | .flush | .save | .resync | .reconnect _ | .cancel | .lose _
  | .deliver _ | .fail _ | .disconnect _ | .observe _ _ | .observeOpen _ | .restart => isTrue trivial

end DocumentSystem

end Codegg.Documents
