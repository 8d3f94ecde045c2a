import Codegg.Documents.Buffer

/-!
# The daemon's document service

The daemon owns the text of an open document, the writer lease, the changes it has seen
last and the digest of the file the text was read from. Requests of a connection are
handled one at a time; what the other documents of the service hold, what the disk gives
and which identifiers are drawn comes with each turn.
-/
namespace Codegg.Documents

open Codegg.Library

def maxDocumentTextBytes : ℕ := 8 * 1024 * 1024

def maxDocumentEdits : ℕ := 256

def maxDocumentInsertBytes : ℕ := 1024 * 1024

def maxDocuments : ℕ := 128

def maxDirtyOrphans : ℕ := 64

def maxResidentBytes : ℕ := 64 * 1024 * 1024

def maxAttachments : ℕ := 32

def maxDedupe : ℕ := 128

/-- The limits the daemon and the client check a transaction against. -/
def protocolLimits : DocumentLimits where
  maxDocumentBytes := maxDocumentTextBytes
  maxEdits := maxDocumentEdits
  maxInsertedBytes := maxDocumentInsertBytes

/-- The wire form of a transaction has the transaction's own fields. -/
abbrev DocumentTransactionDto := TextTransaction

/-- The digests of the hash library: of the serialized form of a transaction, and of a text. -/
structure Digests where
  payload : DocumentTransactionDto → String
  sha256 : Rope → String

/-- The digest under which `open` records the file it read. -/
def Digests.opened (dg : Digests) (text : Rope) : String := "sha256:" ++ dg.sha256 text

inductive DocumentServiceError where
  | notFound
  | resourceLimit
  | writerBusy
  | staleLease
  | staleRevision
  | changeCollision
  | text (e : DocumentError)
  | io
  deriving Repr, DecidableEq

structure DocumentSnapshotDto where
  documentId : String
  projectId : String
  revision : ℕ
  text : Rope
  dirty : Bool
  conflicted : Bool
  writer : Bool
  diskBaseDigest : String
  deriving Repr, DecidableEq

structure OpenDocument where
  id : String
  projectId : String
  buffer : DocumentBuffer
  baseDigest : String
  dirty : Bool
  conflicted : Bool
  readers : List String
  writer : Option (String × String)
  recent : List (String × String × ℕ)
  deriving Repr, DecidableEq

/-- What the service holds besides the document of a request. -/
structure OtherDocuments where
  count : ℕ
  dirtyCount : ℕ
  residentBytes : ℕ
  deriving Repr, DecidableEq

/-- What the surroundings of the daemon give while it handles one request. `disk` is the text
of the document's file, where it can be read. -/
structure DaemonTurn where
  others : OtherDocuments
  victim : ℕ
  disk : Option Rope
  written : Bool
  documentId : String
  lease : String
  deriving Repr, DecidableEq

structure ChangeRequest where
  projectId : String
  documentId : String
  writerLease : String
  baseRevision : ℕ
  changeId : String
  transaction : DocumentTransactionDto
  deriving Repr, DecidableEq

namespace OpenDocument

def snapshot (doc : OpenDocument) (client : String) : DocumentSnapshotDto where
  documentId := doc.id
  projectId := doc.projectId
  revision := doc.buffer.revision
  text := doc.buffer.text
  dirty := doc.dirty
  conflicted := doc.conflicted
  writer := doc.writer.any fun w => w.1 = client
  diskBaseDigest := doc.baseDigest

/-- The lease under which the client may write. -/
def leaseOf (doc : OpenDocument) (client : String) : Option String :=
  (doc.writer.filter fun w => w.1 = client).map Prod.snd

def holdsLease (doc : OpenDocument) (client lease : String) : Bool :=
  doc.writer = some (client, lease)

/-- A reader is entered before the writer is looked at. -/
def attach (doc : OpenDocument) (client : String) (writable : Bool) (lease : String) :
    Except DocumentServiceError Unit × OpenDocument :=
  if maxAttachments ≤ doc.readers.length then (.error .resourceLimit, doc)
  else
    let entered := { doc with
      readers := if client ∈ doc.readers then doc.readers else doc.readers ++ [client] }
    if writable then
      match doc.writer with
      | some (owner, held) =>
        if owner ≠ client then (.error .writerBusy, entered)
        else (.ok (), { entered with writer := some (client, held) })
      | none => (.ok (), { entered with writer := some (client, lease) })
    else (.ok (), entered)

/-- The changes seen last; one of them, whichever the map yields first, makes room. -/
def remember (recent : List (String × String × ℕ)) (victim : ℕ) (changeId digest : String)
    (revision : ℕ) : List (String × String × ℕ) :=
  let kept := if maxDedupe ≤ recent.length then recent.eraseIdx (victim % recent.length) else recent
  kept ++ [(changeId, digest, revision)]

def change (dg : Digests) (turn : DaemonTurn) (doc : OpenDocument) (client : String)
    (r : ChangeRequest) : Except DocumentServiceError (ℕ × OpenDocument) :=
  if doc.holdsLease client r.writerLease = false then .error .staleLease
  else
    match doc.recent.lookup r.changeId with
    | some (oldDigest, revision) =>
      if oldDigest = dg.payload r.transaction then .ok (revision, doc)
      else .error .changeCollision
    | none =>
      if doc.buffer.revision ≠ r.baseRevision then .error .staleRevision
      else if doc.dirty = false ∧ r.transaction.edits ≠ [] ∧
          maxDirtyOrphans ≤ turn.others.dirtyCount then .error .resourceLimit
      else if maxDocumentEdits < r.transaction.edits.length then .error .resourceLimit
      else if maxResidentBytes < turn.others.residentBytes +
          (byteLen doc.buffer.text - r.transaction.removed + r.transaction.inserted) then
        .error .resourceLimit
      else
        match doc.buffer.apply r.transaction protocolLimits with
        | .error e => .error (.text e)
        | .ok (applied, buffer) =>
          .ok (applied.revision, { doc with
            buffer := buffer
            dirty := doc.dirty || applied.revision ≠ r.baseRevision
            recent := remember doc.recent turn.victim r.changeId (dg.payload r.transaction)
              applied.revision })

/-- The reconciliation with the disk before a snapshot: a clean text follows the file, a dirty
one is marked as in conflict with it. -/
def refreshCleanFromDisk (dg : Digests) (doc : OpenDocument) (client : String) (text : Rope) :
    OpenDocument :=
  if maxDocumentTextBytes < byteLen text then doc
  else if client ∉ doc.readers then doc
  else if dg.sha256 text = doc.baseDigest then doc
  else if doc.dirty then { doc with conflicted := true }
  else
    match doc.buffer.replaceText text with
    | .error _ => doc
    | .ok buffer => { doc with
        buffer := buffer
        baseDigest := dg.sha256 text
        dirty := false
        conflicted := false }

def refreshExternalDisk (dg : Digests) (turn : DaemonTurn) (doc : OpenDocument)
    (client : String) : OpenDocument :=
  match turn.disk with
  | none => doc
  | some text => doc.refreshCleanFromDisk dg client text

def commitSave (doc : OpenDocument) (savedRevision : ℕ) (newDiskDigest : String) : OpenDocument :=
  { doc with
    baseDigest := newDiskDigest
    dirty := doc.buffer.revision ≠ savedRevision
    conflicted := false }

def markDiskConflict (doc : OpenDocument) (actualDiskDigest : String) : OpenDocument :=
  { doc with conflicted := actualDiskDigest ≠ doc.baseDigest }

def acquireWriter (doc : OpenDocument) (client lease : String) :
    Except DocumentServiceError (String × OpenDocument) :=
  if client ∉ doc.readers then .error .notFound
  else
    match doc.writer with
    | some (owner, held) => if owner = client then .ok (held, doc) else .error .writerBusy
    | none => .ok (lease, { doc with writer := some (client, lease) })

def detachClient (doc : OpenDocument) (client : String) : OpenDocument :=
  { doc with
    readers := doc.readers.filter (· ≠ client)
    writer := if doc.writer.any fun w => w.1 = client then none else doc.writer }

/-- Clean, and neither read nor written. -/
def isEvictable (doc : OpenDocument) : Bool :=
  !doc.dirty && doc.readers.isEmpty && doc.writer.isNone

end OpenDocument

inductive CoreRequest where
  | documentOpen
  | documentSnapshotGet (projectId documentId : String)
  | documentWriterAcquire (projectId documentId : String)
  | documentChange (r : ChangeRequest)
  | documentSave (projectId documentId writerLease : String) (expectedRevision : ℕ)
  deriving Repr, DecidableEq

inductive ErrorCode where
  | service (e : DocumentServiceError)
  | documentDiskConflict
  | documentSaveFailed
  deriving Repr, DecidableEq

inductive CoreResponse where
  | documentSnapshot (snapshot : DocumentSnapshotDto) (writerLease : Option String)
  | documentWriterLease (documentId writerLease : String)
  | documentChanged (revision : ℕ)
  | documentSaved (revision : ℕ) (diskBaseDigest : String)
  | error (code : ErrorCode)
  deriving Repr, DecidableEq

/-- The request is answered with a snapshot. -/
def CoreRequest.readsSnapshot : CoreRequest → Bool
  | .documentOpen | .documentSnapshotGet _ _ => true
  | _ => false

/-- The entry of the service for one path of one project. -/
structure DocumentService where
  projectId : String
  document : Option OpenDocument
  deriving Repr, DecidableEq

namespace DocumentService

variable (dg : Digests) (turn : DaemonTurn) (service : DocumentService) (client : String)

def find (projectId documentId : String) : Option OpenDocument :=
  service.document.filter fun doc => doc.id = documentId ∧ doc.projectId = projectId

def put (doc : OpenDocument) : DocumentService := { service with document := some doc }

/-- The document read from the disk, under a new identifier. -/
def readDocument : Except DocumentServiceError OpenDocument :=
  if maxDocuments ≤ turn.others.count then .error .resourceLimit
  else if maxResidentBytes < turn.others.residentBytes then .error .resourceLimit
  else
    match turn.disk with
    | none => .error .io
    | some text =>
      if maxDocumentTextBytes < byteLen text then .error .resourceLimit
      else if maxResidentBytes < turn.others.residentBytes + byteLen text then
        .error .resourceLimit
      else .ok
        { id := turn.documentId
          projectId := service.projectId
          buffer := DocumentBuffer.new text
          baseDigest := dg.opened text
          dirty := false
          conflicted := false
          readers := []
          writer := none
          recent := [] }

def openDocument : Except DocumentServiceError OpenDocument × DocumentService :=
  match service.document with
  | some doc =>
    match doc.attach client false turn.lease with
    | (.error e, doc) => (.error e, service.put doc)
    | (.ok (), doc) => (.ok doc, service.put doc)
  | none =>
    match service.readDocument dg turn with
    | .error e => (.error e, service)
    | .ok doc =>
      match doc.attach client false turn.lease with
      | (.error e, _) => (.error e, service)
      | (.ok (), doc) => (.ok doc, service.put doc)

/-- The answer with a snapshot, once the document has been reconciled with the disk. -/
def snapshotOf (doc : OpenDocument) (lease : Option String) : CoreResponse × DocumentService :=
  let doc := doc.refreshExternalDisk dg turn client
  (.documentSnapshot (doc.snapshot client) lease, service.put doc)

def handleOpen : CoreResponse × DocumentService :=
  match service.openDocument dg turn client with
  | (.error e, service) => (.error (.service e), service)
  | (.ok doc, service) => snapshotOf dg turn service client doc (doc.leaseOf client)

def handleSnapshotGet (projectId documentId : String) : CoreResponse × DocumentService :=
  match service.find projectId documentId with
  | none => (.error (.service .notFound), service)
  | some doc =>
    if client ∉ doc.readers then (.error (.service .notFound), service)
    else snapshotOf dg turn service client doc none

def handleWriterAcquire (projectId documentId : String) : CoreResponse × DocumentService :=
  match service.find projectId documentId with
  | none => (.error (.service .notFound), service)
  | some doc =>
    match doc.acquireWriter client turn.lease with
    | .error e => (.error (.service e), service)
    | .ok (lease, doc) => (.documentWriterLease documentId lease, service.put doc)

def handleChange (r : ChangeRequest) : CoreResponse × DocumentService :=
  if r.changeId = "" ∨ 128 < r.changeId.utf8ByteSize then
    (.error (.service .changeCollision), service)
  else
    match service.find r.projectId r.documentId with
    | none => (.error (.service .notFound), service)
    | some doc =>
      match doc.change dg turn client r with
      | .error e => (.error (.service e), service)
      | .ok (revision, doc) => (.documentChanged revision, service.put doc)

/-- The checked write: the file must still be the one the text was read from. -/
def handleSave (projectId documentId writerLease : String) (expectedRevision : ℕ) :
    CoreResponse × DocumentService :=
  match service.find projectId documentId with
  | none => (.error (.service .notFound), service)
  | some doc =>
    if doc.holdsLease client writerLease = false then (.error (.service .staleLease), service)
    else if doc.buffer.revision ≠ expectedRevision then
      (.error (.service .staleRevision), service)
    else
      match turn.disk with
      | none => (.error .documentSaveFailed, service)
      | some current =>
        if maxDocumentTextBytes < byteLen doc.buffer.text ∨
            maxDocumentTextBytes < byteLen current then (.error .documentSaveFailed, service)
        else if dg.sha256 current ≠ doc.baseDigest then
          (.error .documentDiskConflict, service.put (doc.markDiskConflict (dg.sha256 current)))
        else if turn.written = false then (.error .documentSaveFailed, service)
        else
          (.documentSaved expectedRevision (dg.sha256 doc.buffer.text),
            service.put (doc.commitSave expectedRevision (dg.sha256 doc.buffer.text)))

def handle : CoreRequest → CoreResponse × DocumentService
  | .documentOpen => handleOpen dg turn service client
  | .documentSnapshotGet projectId documentId =>
    handleSnapshotGet dg turn service client projectId documentId
  | .documentWriterAcquire projectId documentId =>
    handleWriterAcquire turn service client projectId documentId
  | .documentChange r => handleChange dg turn service client r
  | .documentSave projectId documentId writerLease expectedRevision =>
    handleSave dg turn service client projectId documentId writerLease expectedRevision

/-- The end of a connection: its document is let go when it is clean and nobody else has it. -/
def detachClient : DocumentService :=
  match service.document with
  | none => service
  | some doc =>
    let doc := doc.detachClient client
    { service with document := if doc.isEvictable then none else some doc }

end DocumentService

variable {revision : ℕ} {r : ChangeRequest} {projectId documentId : String}
  {doc doc' : OpenDocument} {e : DocumentServiceError}

namespace OpenDocument

/-- The two states of a document have one text, one revision and one set of changes seen. -/
structure SameText (doc doc' : OpenDocument) : Prop where
  id : doc'.id = doc.id
  projectId : doc'.projectId = doc.projectId
  buffer : doc'.buffer = doc.buffer
  recent : doc'.recent = doc.recent

/-- A change goes into the text of the document. -/
structure Accepts (dg : Digests) (victim : ℕ) (r : ChangeRequest) (doc doc' : OpenDocument) :
    Prop where
  id : doc'.id = doc.id
  projectId : doc'.projectId = doc.projectId
  unseen : doc.recent.lookup r.changeId = none
  base : doc.buffer.revision = r.baseRevision
  text : r.transaction.applyTo protocolLimits doc.buffer.text = .ok doc'.buffer.text
  revision : doc'.buffer.revision = r.baseRevision + 1
  recent : doc'.recent =
    remember doc.recent victim r.changeId (dg.payload r.transaction) (r.baseRevision + 1)

variable {dg : Digests} {turn : DaemonTurn} {doc doc' : OpenDocument} {client : String}

@[refl] theorem SameText.refl (doc : OpenDocument) : SameText doc doc := ⟨rfl, rfl, rfl, rfl⟩

theorem mem_remember {recent : List (String × String × ℕ)} {victim : ℕ} {changeId digest : String}
    {entry : String × String × ℕ} (h : entry ∈ remember recent victim changeId digest revision) :
    entry ∈ recent ∨ entry = (changeId, digest, revision) := by
  rw [remember, List.mem_append, List.mem_singleton] at h
  rcases h with h | h
  · left
    split at h
    · exact List.mem_of_mem_eraseIdx h
    · exact h
  · exact .inr h

theorem mem_of_lookup_eq_some {recent : List (String × String × ℕ)} {changeId : String}
    {seen : String × ℕ} (h : recent.lookup changeId = some seen) : (changeId, seen) ∈ recent := by
  obtain ⟨before, after, hsplit, -⟩ := List.lookup_eq_some_iff.mp h
  rw [hsplit]
  exact List.mem_append_right before List.mem_cons_self

/-- The change entered last is remembered. -/
theorem self_mem_remember (recent : List (String × String × ℕ)) (victim revision : ℕ)
    (changeId digest : String) :
    (changeId, digest, revision) ∈ remember recent victim changeId digest revision := by
  simp [remember]

/-- An accepted change was seen before, with the same payload, or goes into the text. -/
theorem change_eq_ok (hedits : r.transaction.edits ≠ [])
    (h : doc.change dg turn client r = .ok (revision, doc')) :
    (doc.recent.lookup r.changeId = some (dg.payload r.transaction, revision) ∧ doc' = doc) ∨
      (Accepts dg turn.victim r doc doc' ∧ revision = r.baseRevision + 1) := by
  rw [change] at h
  split at h
  · cases h
  · split at h
    · next hseen =>
      split at h
      · next hdigest =>
        cases h
        left
        rw [hseen, hdigest]
        exact ⟨rfl, rfl⟩
      · cases h
    · next hunseen =>
      split at h
      · cases h
      · next hbase =>
        split at h
        · cases h
        · split at h
          · cases h
          · split at h
            · cases h
            · split at h
              · cases h
              · next applied buffer happly =>
                obtain ⟨htext, hrevision, -, happlied⟩ := DocumentBuffer.apply_eq_ok hedits happly
                have hrev : applied.revision = r.baseRevision + 1 := by
                  rw [happlied, hrevision, not_not.mp hbase]
                injection h with h
                injection h with hr hd
                subst hr hd
                right
                refine ⟨⟨rfl, rfl, hunseen, not_not.mp hbase, htext, ?_, ?_⟩, hrev⟩
                · rw [hrevision, not_not.mp hbase]
                · rw [hrev]

theorem change_collision (h : doc.change dg turn client r = .error .changeCollision) :
    ∃ digest revision, doc.recent.lookup r.changeId = some (digest, revision) ∧
      digest ≠ dg.payload r.transaction := by
  rw [change] at h
  split at h
  · cases h
  · split at h
    · next digest revision hseen =>
      split at h
      · cases h
      · next hdigest => exact ⟨digest, revision, hseen, hdigest⟩
    · split at h
      · cases h
      · split at h
        · cases h
        · split at h
          · cases h
          · split at h
            · cases h
            · split at h <;> cases h

theorem change_stale (h : doc.change dg turn client r = .error .staleRevision) :
    doc.recent.lookup r.changeId = none ∧ doc.buffer.revision ≠ r.baseRevision := by
  rw [change] at h
  split at h
  · cases h
  · split at h
    · split at h <;> cases h
    · next hunseen =>
      split at h
      · next hbase => exact ⟨hunseen, hbase⟩
      · split at h
        · cases h
        · split at h
          · cases h
          · split at h
            · cases h
            · split at h <;> cases h

/-- An attachment enters a reader, or a writer. -/
theorem attach_snd (doc : OpenDocument) (client : String) (writable : Bool) (lease : String) :
    ∃ readers writer, (doc.attach client writable lease).2 =
      { doc with readers := readers, writer := writer } := by
  rw [attach]
  split
  · exact ⟨doc.readers, doc.writer, rfl⟩
  · simp only
    split
    · split
      · split <;> exact ⟨_, _, rfl⟩
      · exact ⟨_, _, rfl⟩
    · exact ⟨_, doc.writer, rfl⟩

/-- The reconciliation with the disk keeps the text, unless the text is clean and the digest on
record is not the file's. -/
theorem refreshExternalDisk_cases (dg : Digests) (turn : DaemonTurn) (doc : OpenDocument)
    (client : String) : SameText doc (doc.refreshExternalDisk dg turn client) ∨
      ((doc.refreshExternalDisk dg turn client).id = doc.id ∧
        ∃ text, turn.disk = some text ∧ doc.dirty = false ∧ dg.sha256 text ≠ doc.baseDigest) := by
  rw [refreshExternalDisk]
  split
  · exact .inl (.refl doc)
  · next text hdisk =>
    rw [refreshCleanFromDisk]
    split
    · exact .inl (.refl doc)
    · split
      · exact .inl (.refl doc)
      · split
        · exact .inl (.refl doc)
        · next hdigest =>
          split
          · exact .inl ⟨rfl, rfl, rfl, rfl⟩
          · next hdirty =>
            right
            refine ⟨?_, text, hdisk, by simpa using hdirty, hdigest⟩
            split <;> rfl

end OpenDocument

namespace DocumentService

open OpenDocument

/-- How the document of the service after a request comes from the one before it. -/
inductive Served (dg : Digests) (turn : DaemonTurn) (service : DocumentService)
    (request : CoreRequest) (doc' : OpenDocument) : Prop where
  | same {doc : OpenDocument} (held : service.document = some doc) (text : SameText doc doc')
  | created (held : service.document = none) (id : doc'.id = turn.documentId)
  | refreshed {doc : OpenDocument} {text : Rope} (held : service.document = some doc)
      (id : doc'.id = doc.id) (reads : request.readsSnapshot = true)
      (disk : turn.disk = some text) (clean : doc.dirty = false)
      (differs : dg.sha256 text ≠ doc.baseDigest)
  | accepted {doc : OpenDocument} {r : ChangeRequest} (held : service.document = some doc)
      (change : request = .documentChange r) (id : doc.id = r.documentId)
      (accepts : Accepts dg turn.victim r doc doc')

variable {dg : Digests} {turn : DaemonTurn} {service : DocumentService} {client : String}
  {request : CoreRequest}

theorem find_eq_some (h : service.find projectId documentId = some doc) :
    service.document = some doc ∧ doc.id = documentId := by
  rw [find, Option.filter_eq_some_iff] at h
  exact ⟨h.1, (of_decide_eq_true h.2).1⟩

theorem readDocument_id (h : service.readDocument dg turn = .ok doc) :
    doc.id = turn.documentId := by
  rw [readDocument] at h
  split at h
  · cases h
  · split at h
    · cases h
    · split at h
      · cases h
      · split at h
        · cases h
        · split at h
          · cases h
          · cases h
            rfl

/-- What an opened document comes from. -/
theorem openDocument_cases (h : (service.openDocument dg turn client).2.document = some doc') :
    (∃ doc readers writer, service.document = some doc ∧
        doc' = { doc with readers := readers, writer := writer }) ∨
      (service.document = none ∧ doc'.id = turn.documentId) := by
  rw [openDocument] at h
  split at h
  · next doc hdoc =>
    obtain ⟨readers, writer, hattach⟩ := attach_snd doc client false turn.lease
    left
    refine ⟨doc, readers, writer, hdoc, ?_⟩
    split at h
    · next heq =>
      rw [heq] at hattach
      cases h
      exact hattach
    · next heq =>
      rw [heq] at hattach
      cases h
      exact hattach
  · next hnone =>
    right
    refine ⟨hnone, ?_⟩
    split at h
    · rw [hnone] at h
      cases h
    · next doc hread =>
      obtain ⟨readers, writer, hattach⟩ := attach_snd doc client false turn.lease
      split at h
      · rw [hnone] at h
        cases h
      · next heq =>
        rw [heq] at hattach
        cases h
        simp only at hattach
        rw [hattach, readDocument_id hread]

theorem openDocument_ok {service' : DocumentService}
    (h : service.openDocument dg turn client = (.ok doc, service')) :
    service'.document = some doc := by
  rw [openDocument] at h
  split at h
  · split at h
    · cases h
    · cases h
      rfl
  · split at h
    · cases h
    · split at h
      · cases h
      · cases h
        rfl

/-- The documents a request for a snapshot leaves. -/
theorem served_refresh (reads : request.readsSnapshot = true)
    (h : (∃ doc₀ readers writer, service.document = some doc₀ ∧
        doc = { doc₀ with readers := readers, writer := writer }) ∨
      (service.document = none ∧ doc.id = turn.documentId)) :
    Served dg turn service request (doc.refreshExternalDisk dg turn client) := by
  have hrefresh := refreshExternalDisk_cases dg turn doc client
  rcases h with ⟨doc₀, readers, writer, held, rfl⟩ | ⟨hnone, hid⟩
  · rcases hrefresh with hsame | ⟨hid, text, hdisk, hclean, hdiffers⟩
    · exact .same held ⟨hsame.id, hsame.projectId, hsame.buffer, hsame.recent⟩
    · exact .refreshed held hid reads hdisk hclean hdiffers
  · refine .created hnone ?_
    rcases hrefresh with hsame | ⟨hid', -⟩
    · rw [hsame.id, hid]
    · rw [hid', hid]

theorem attach_error {writable : Bool} {lease : String}
    (h : doc.attach client writable lease = (.error e, doc')) :
    e = .resourceLimit ∨ e = .writerBusy := by
  rw [attach] at h
  split at h
  · cases h
    exact .inl rfl
  · simp only at h
    split at h
    · split at h
      · split at h
        · cases h
          exact .inr rfl
        · cases h
      · cases h
    · cases h

theorem readDocument_error (h : service.readDocument dg turn = .error e) :
    e = .resourceLimit ∨ e = .io := by
  rw [readDocument] at h
  split at h
  · cases h
    exact .inl rfl
  · split at h
    · cases h
      exact .inl rfl
    · split at h
      · cases h
        exact .inr rfl
      · split at h
        · cases h
          exact .inl rfl
        · split at h
          · cases h
            exact .inl rfl
          · cases h

theorem openDocument_error {service' : DocumentService}
    (h : service.openDocument dg turn client = (.error e, service')) : e ≠ .changeCollision := by
  rintro rfl
  rw [openDocument] at h
  split at h
  · split at h
    · next heq =>
      cases h
      rcases attach_error heq with he | he <;> cases he
    · cases h
  · split at h
    · next hread =>
      cases h
      rcases readDocument_error hread with he | he <;> cases he
    · split at h
      · next heq =>
        cases h
        rcases attach_error heq with he | he <;> cases he
      · cases h

theorem acquireWriter_cases (doc : OpenDocument) (client lease : String) :
    (∃ e, doc.acquireWriter client lease = .error e ∧ e ≠ .changeCollision) ∨
      ∃ held doc', doc.acquireWriter client lease = .ok (held, doc') ∧ SameText doc doc' := by
  rw [acquireWriter]
  split
  · exact .inl ⟨_, rfl, nofun⟩
  · split
    · split
      · exact .inr ⟨_, doc, rfl, .refl doc⟩
      · exact .inl ⟨_, rfl, nofun⟩
    · exact .inr ⟨_, _, rfl, rfl, rfl, rfl, rfl⟩

/-- What a request is answered with, and what it makes of the service. -/
inductive Answered (dg : Digests) (turn : DaemonTurn) (service : DocumentService)
    (client : String) : CoreRequest → CoreResponse × DocumentService → Prop
  | refused {request : CoreRequest} {code : ErrorCode} (other : code ≠ .service .changeCollision) :
    Answered dg turn service client request (.error code, service)
  | unopened {e : DocumentServiceError} {service' : DocumentService}
    (opens : service.openDocument dg turn client = (.error e, service')) :
    Answered dg turn service client .documentOpen (.error (.service e), service')
  | opened {doc : OpenDocument} {service' : DocumentService} {lease : Option String}
    (opens : service.openDocument dg turn client = (.ok doc, service')) :
    Answered dg turn service client .documentOpen (snapshotOf dg turn service' client doc lease)
  | shown {projectId documentId : String} {doc : OpenDocument}
    (held : service.document = some doc) :
    Answered dg turn service client (.documentSnapshotGet projectId documentId)
      (snapshotOf dg turn service client doc none)
  | leased {projectId documentId lease : String} {doc doc' : OpenDocument}
    (held : service.document = some doc) (text : SameText doc doc') :
    Answered dg turn service client (.documentWriterAcquire projectId documentId)
      (.documentWriterLease documentId lease, service.put doc')
  | misnamed {r : ChangeRequest} (changeId : r.changeId = "" ∨ 128 < r.changeId.utf8ByteSize) :
    Answered dg turn service client (.documentChange r)
      (.error (.service .changeCollision), service)
  | unchanged {r : ChangeRequest} {doc : OpenDocument} {e : DocumentServiceError}
    (held : service.document = some doc) (id : doc.id = r.documentId)
    (change : doc.change dg turn client r = .error e) :
    Answered dg turn service client (.documentChange r) (.error (.service e), service)
  | changed {r : ChangeRequest} {doc doc' : OpenDocument} {revision : ℕ}
    (held : service.document = some doc) (id : doc.id = r.documentId)
    (change : doc.change dg turn client r = .ok (revision, doc')) :
    Answered dg turn service client (.documentChange r)
      (.documentChanged revision, service.put doc')
  | conflicted {request : CoreRequest} {doc doc' : OpenDocument}
    (held : service.document = some doc) (text : SameText doc doc') :
    Answered dg turn service client request (.error .documentDiskConflict, service.put doc')
  | saved {projectId documentId lease digest : String} {revision : ℕ} {doc doc' : OpenDocument}
    (held : service.document = some doc) (text : SameText doc doc') :
    Answered dg turn service client (.documentSave projectId documentId lease revision)
      (.documentSaved revision digest, service.put doc')

theorem handle_answered :
    Answered dg turn service client request (service.handle dg turn client request) := by
  cases request with
  | documentOpen =>
    rw [handle, handleOpen]
    split
    · next opens => exact .unopened opens
    · next opens => exact .opened opens
  | documentSnapshotGet projectId documentId =>
    rw [handle, handleSnapshotGet]
    split
    · exact .refused nofun
    · next hfind =>
      split
      · exact .refused nofun
      · exact .shown (find_eq_some hfind).1
  | documentWriterAcquire projectId documentId =>
    rw [handle, handleWriterAcquire]
    split
    · exact .refused nofun
    · next doc hfind =>
      rcases acquireWriter_cases doc client turn.lease with ⟨e, heq, he⟩ | ⟨held, doc', heq, htext⟩
      · rw [heq]
        exact .refused fun h => he (ErrorCode.service.inj h)
      · rw [heq]
        exact .leased (find_eq_some hfind).1 htext
  | documentChange r =>
    rw [handle, handleChange]
    split
    · next hid => exact .misnamed hid
    · split
      · exact .refused nofun
      · next hfind =>
        obtain ⟨held, id⟩ := find_eq_some hfind
        split
        · next change => exact .unchanged held id change
        · next change => exact .changed held id change
  | documentSave projectId documentId writerLease expectedRevision =>
    rw [handle, handleSave]
    split
    · exact .refused nofun
    · next hfind =>
      have held := (find_eq_some hfind).1
      (repeat' split) <;>
        first
        | exact .refused nofun
        | exact .conflicted held ⟨rfl, rfl, rfl, rfl⟩
        | exact .saved held ⟨rfl, rfl, rfl, rfl⟩

namespace Answered

variable {answer : CoreResponse × DocumentService}

/-- What the daemon does to its document for one request. -/
theorem serves (ha : Answered dg turn service client request answer)
    (hedits : ∀ r, request = .documentChange r → r.transaction.edits ≠ [])
    (h : answer.2.document = some doc') : Served dg turn service request doc' := by
  cases ha with
  | refused | misnamed | unchanged => exact .same h (.refl doc')
  | unopened opens =>
    rcases openDocument_cases (by rw [opens]; exact h) with
      ⟨doc, readers, writer, held, rfl⟩ | ⟨hnone, hid⟩
    · exact .same held ⟨rfl, rfl, rfl, rfl⟩
    · exact .created hnone hid
  | opened opens =>
    cases h
    exact served_refresh rfl (openDocument_cases (by rw [opens]; exact openDocument_ok opens))
  | shown held =>
    cases h
    exact served_refresh rfl (.inl ⟨_, _, _, held, rfl⟩)
  | leased held text | conflicted held text | saved held text =>
    cases h
    exact .same held text
  | changed held id change =>
    cases h
    rcases change_eq_ok (hedits _ rfl) change with ⟨-, rfl⟩ | ⟨haccepts, -⟩
    · exact .same held (.refl doc')
    · exact .accepted held rfl id haccepts

/-- A snapshot is one of the document that the request leaves. -/
theorem of_snapshot (ha : Answered dg turn service client request answer)
    {snapshot : DocumentSnapshotDto} {lease : Option String}
    (h : answer.1 = .documentSnapshot snapshot lease) :
    ∃ doc, answer.2.document = some doc ∧ snapshot = doc.snapshot client := by
  cases ha with
  | opened | shown =>
    cases h
    exact ⟨_, rfl, rfl⟩
  | _ => cases h

/-- A change is answered with the revision that the document remembers for it. -/
theorem of_changed (ha : Answered dg turn service client request answer)
    (hedits : ∀ r, request = .documentChange r → r.transaction.edits ≠ [])
    (h : answer.1 = .documentChanged revision) :
    ∃ r doc, request = .documentChange r ∧ answer.2.document = some doc ∧ doc.id = r.documentId ∧
      (r.changeId, dg.payload r.transaction, revision) ∈ doc.recent := by
  cases ha with
  | changed held id change =>
    cases h
    rcases change_eq_ok (hedits _ rfl) change with ⟨hseen, rfl⟩ | ⟨haccepts, rfl⟩
    · exact ⟨_, _, rfl, rfl, id, mem_of_lookup_eq_some hseen⟩
    · refine ⟨_, _, rfl, rfl, haccepts.id.trans id, ?_⟩
      rw [haccepts.recent]
      exact self_mem_remember _ _ _ _ _
  | _ => cases h

/-- Only a change is refused as a collision, for its identifier or because the identifier was
seen with another payload. -/
theorem of_collision (ha : Answered dg turn service client request answer)
    (h : answer.1 = .error (.service .changeCollision)) :
    ∃ r, request = .documentChange r ∧
      ((r.changeId = "" ∨ 128 < r.changeId.utf8ByteSize) ∨
        ∃ doc digest revision, service.document = some doc ∧ doc.id = r.documentId ∧
          doc.recent.lookup r.changeId = some (digest, revision) ∧
          digest ≠ dg.payload r.transaction) := by
  cases ha with
  | refused other =>
    cases h
    exact absurd rfl other
  | unopened opens =>
    cases h
    exact absurd rfl (openDocument_error opens)
  | misnamed changeId => exact ⟨_, rfl, .inl changeId⟩
  | unchanged held id change =>
    cases h
    obtain ⟨digest, revision, hseen, hdigest⟩ := change_collision change
    exact ⟨_, rfl, .inr ⟨_, digest, revision, held, id, hseen, hdigest⟩⟩
  | _ => cases h

/-- A save is answered with the revision it was asked for. -/
theorem of_saved (ha : Answered dg turn service client request answer) {digest : String}
    (h : answer.1 = .documentSaved revision digest) :
    ∃ projectId documentId writerLease,
      request = .documentSave projectId documentId writerLease revision := by
  cases ha with
  | saved =>
    cases h
    exact ⟨_, _, _, rfl⟩
  | _ => cases h

end Answered

/-- A change is refused as stale when it was not seen and the text has another revision. -/
theorem handleChange_stale
    (h : (service.handleChange dg turn client r).1 = .error (.service .staleRevision)) :
    ∃ doc, service.document = some doc ∧ doc.id = r.documentId ∧
      doc.recent.lookup r.changeId = none ∧ doc.buffer.revision ≠ r.baseRevision := by
  rw [handleChange] at h
  split at h
  · cases h
  · split at h
    · cases h
    · next doc hfind =>
      split at h
      · next e hchange =>
        cases h
        exact ⟨doc, (find_eq_some hfind).1, (find_eq_some hfind).2, change_stale hchange⟩
      · cases h

end DocumentService

end Codegg.Documents
