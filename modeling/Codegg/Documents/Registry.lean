import Mathlib.Algebra.BigOperators.Group.Finset.Basic
import Codegg.Documents.Operations

/-!
# The registry of open documents

The service keeps its documents in two maps: by identity, and the identity by key. A
request that has looked a document up holds it from then on, also when the document is
taken out of the maps; so the registry knows every document that was ever opened, and
separately which of them are in the maps.
-/
namespace Codegg.Documents

open Codegg.Library

/-- The authority root that confines a document. -/
inductive DocumentScope where
  | workspace
  | globalAgent
  deriving DecidableEq, Repr

structure DocumentKey where
  projectId : String
  workspaceId : String
  scope : DocumentScope
  relativePath : String
  deriving DecidableEq, Repr

def DocumentScope.debug : DocumentScope → String
  | .workspace => "Workspace"
  | .globalAgent => "GlobalAgent"

def DocumentKey.toKeyString (key : DocumentKey) : String :=
  key.projectId ++ "\x00" ++ key.workspaceId ++ "\x00" ++ key.scope.debug ++ "\x00" ++
    key.relativePath

structure KeyedDocument where
  key : DocumentKey
  doc : OpenDocument
  deriving DecidableEq, Repr

structure Registry where
  documents : String → Option KeyedDocument
  byId : Finset String
  byKey : String → Option String

namespace Registry

def empty : Registry := ⟨fun _ => none, ∅, fun _ => none⟩

variable (reg : Registry)

def find (id : String) : Option KeyedDocument := if id ∈ reg.byId then reg.documents id else none

/-! ### What the documents take together -/

def bytesOf (id : String) : ℕ := (reg.documents id).elim 0 fun k => byteLen k.doc.buffer.text

def isDirty (id : String) : Bool := (reg.documents id).any (·.doc.dirty)

/-- What the documents of a set hold. -/
def held (ids : Finset String) : OtherDocuments where
  count := ids.card
  dirtyCount := (ids.filter fun id => reg.isDirty id).card
  residentBytes := ∑ id ∈ ids, reg.bytesOf id

/-- No identity is empty, so the bytes without those of `""` are all bytes. -/
def residentBytes : ℕ := (reg.held reg.byId).residentBytes

def residentBytesExcluding (id : String) : ℕ := (reg.held (reg.byId.erase id)).residentBytes

/-! ### Operations -/

/-- A document changes under its lock. -/
def put (id : String) (key : DocumentKey) (doc : OpenDocument) : Registry :=
  { reg with documents := Function.update reg.documents id (some ⟨key, doc⟩) }

def insert (key : DocumentKey) (doc : OpenDocument) : Registry where
  documents := Function.update reg.documents doc.id (some ⟨key, doc⟩)
  byId := Insert.insert doc.id reg.byId
  byKey := Function.update reg.byKey key.toKeyString (some doc.id)

def remove (id keyString : String) : Registry :=
  { reg with byId := reg.byId.erase id, byKey := Function.update reg.byKey keyString none }

/-- An attachment to a document that was found; the reader may be entered although the
attachment fails. -/
def attachTo (id client : String) (writable : Bool) (lease : String) :
    Except DocumentServiceError OpenDocument × Registry :=
  match reg.documents id with
  | none => (.error .notFound, reg)
  | some k =>
    match k.doc.attach client writable lease with
    | (.error e, doc) => (.error e, reg.put id k.key doc)
    | (.ok (), doc) => (.ok doc, reg.put id k.key doc)

/-- A document that has been read from the disk goes into the maps with its first reader. -/
def insertOpened (key : DocumentKey) (doc : OpenDocument) (client : String) (writable : Bool)
    (lease : String) : Except DocumentServiceError OpenDocument × Registry :=
  match doc.attach client writable lease with
  | (.error e, _) => (.error e, reg)
  | (.ok (), doc) => (.ok doc, reg.insert key doc)

def openNew (dg : Digests) (turn : DaemonTurn) (key : DocumentKey) (client : String)
    (writable : Bool) : Except DocumentServiceError OpenDocument × Registry :=
  match (⟨key.projectId, none⟩ : DocumentService).readDocument dg
      { turn with others := reg.held reg.byId } with
  | .error e => (.error e, reg)
  | .ok doc => reg.insertOpened key doc client writable turn.lease

def openDocument (dg : Digests) (turn : DaemonTurn) (key : DocumentKey) (client : String)
    (writable : Bool) : Except DocumentServiceError OpenDocument × Registry :=
  match reg.byKey key.toKeyString with
  | some id =>
    if id ∈ reg.byId then reg.attachTo id client writable turn.lease
    else (.error .notFound,
      { reg with byKey := Function.update reg.byKey key.toKeyString none })
  | none => reg.openNew dg turn key client writable

/-- An operation on one document; a failure leaves the document as it was. -/
def onDocument {α : Type} (id : String)
    (f : OpenDocument → Except DocumentServiceError (α × OpenDocument)) :
    Except DocumentServiceError α × Registry :=
  match reg.find id with
  | none => (.error .notFound, reg)
  | some k =>
    match f k.doc with
    | .error e => (.error e, reg)
    | .ok (a, doc) => (.ok a, reg.put id k.key doc)

def change (dg : Digests) (victim : ℕ) (client : String) (r : ChangeRequest) :
    Except DocumentServiceError ℕ × Registry :=
  reg.onDocument r.documentId fun doc =>
    doc.changeIn client dg
      { others := reg.held (reg.byId.erase r.documentId)
        victim := victim
        disk := none
        written := false
        documentId := ""
        lease := "" } r

/-- The document is let go when it is clean and nobody else has it. -/
def detachDocument (id projectId client : String) : Bool × Registry :=
  match reg.find id with
  | none => (false, reg)
  | some k =>
    if k.doc.projectId ≠ projectId then (false, reg)
    else
      let doc := k.doc.detachClient client
      if doc.isEvictable then (true, (reg.put id k.key doc).remove id k.key.toKeyString)
      else (false, reg.put id k.key doc)

/-- The client leaves every document of the maps. -/
def leaveAll (client : String) : Registry :=
  { reg with documents := fun id =>
      if id ∈ reg.byId then
        (reg.documents id).map fun k => { k with doc := k.doc.detachClient client }
      else reg.documents id }

def evictCleanUnattached : Registry :=
  let gone := reg.byId.filter fun id => (reg.documents id).any (·.doc.isEvictable)
  { reg with
    byId := reg.byId \ gone
    byKey := fun keyString =>
      if ∃ id ∈ gone, (reg.documents id).any fun k => k.key.toKeyString = keyString then none
      else reg.byKey keyString }

def detachClient (client : String) : Registry := (reg.leaveAll client).evictCleanUnattached

end Registry

/-- A request to the service. -/
inductive ServiceOperation where
  | openDocument (turn : DaemonTurn) (key : DocumentKey) (client : String) (writable : Bool)
  | acquireWriter (id projectId client lease : String)
  | change (victim : ℕ) (client : String) (r : ChangeRequest)
  | commitSave (id projectId : String) (savedRevision : ℕ) (newDiskDigest : String)
  | markDiskConflict (id projectId actualDiskDigest : String)
  | refreshClean (id projectId client : String) (expectedRevision : ℕ) (text : Rope)
      (diskDigest : String)
  | reloadVerified (id projectId client lease : String) (expectedRevision : ℕ) (text : Rope)
      (diskDigest : String)
  | detachDocument (id projectId client : String)
  | detachClient (client : String)
  deriving DecidableEq, Repr

namespace Registry

variable (dg : Digests)

def after (reg : Registry) : ServiceOperation → Registry
  | .openDocument turn key client writable => (reg.openDocument dg turn key client writable).2
  | .acquireWriter id projectId client lease =>
    (reg.onDocument id fun doc => doc.acquireWriterIn projectId client lease).2
  | .change victim client r => (reg.change dg victim client r).2
  | .commitSave id projectId savedRevision newDiskDigest =>
    (reg.onDocument id fun doc => doc.commitSaveIn projectId savedRevision newDiskDigest).2
  | .markDiskConflict id projectId actualDiskDigest =>
    (reg.onDocument id fun doc => doc.markDiskConflictIn projectId actualDiskDigest).2
  | .refreshClean id projectId client expectedRevision text diskDigest =>
    (reg.onDocument id fun doc =>
      doc.refreshClean projectId client expectedRevision text diskDigest).2
  | .reloadVerified id projectId client lease expectedRevision text diskDigest =>
    (reg.onDocument id fun doc =>
      doc.reloadVerified projectId client lease expectedRevision text diskDigest).2
  | .detachDocument id projectId client => (reg.detachDocument id projectId client).2
  | .detachClient client => reg.detachClient client

def run (reg : Registry) (ops : List ServiceOperation) : Registry := ops.foldl (after dg) reg

end Registry

end Codegg.Documents
