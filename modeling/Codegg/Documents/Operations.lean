import Codegg.Documents.Service

/-!
# The operations of the document service

Each operation, once it has looked its document up, is one critical section under the
lock of that document. It checks the project, then the reader or the writer lease, then
the revision the caller expects, and only then acts.
-/
namespace Codegg.Documents

open Codegg.Library DocumentBuffer

/-- What a save takes with it to the disk. -/
structure DocumentSaveSnapshot where
  documentId : String
  projectId : String
  revision : ℕ
  expectedDiskDigest : String
  text : Rope
  deriving Repr, DecidableEq

/-- The document that `open` makes of the text it read, before anyone is attached. -/
def openedDocument (dg : Digests) (documentId projectId : String) (text : Rope) : OpenDocument where
  id := documentId
  projectId := projectId
  buffer := new text
  baseDigest := dg.opened text
  dirty := false
  conflicted := false
  readers := []
  writer := none
  recent := []

variable {revision expectedRevision : ℕ} {text : Rope} {diskDigest : String}

namespace OpenDocument

variable (doc : OpenDocument) (projectId client lease : String)

def changeIn (dg : Digests) (turn : DaemonTurn) (r : ChangeRequest) :
    Except DocumentServiceError (ℕ × OpenDocument) :=
  if r.changeId = "" ∨ 128 < r.changeId.utf8ByteSize then .error .changeCollision
  else if doc.projectId ≠ r.projectId then .error .notFound
  else doc.change dg turn client r

def acquireWriterIn (fresh : String) : Except DocumentServiceError (String × OpenDocument) :=
  if doc.projectId ≠ projectId then .error .notFound else doc.acquireWriter client fresh

def captureSave (expectedRevision : ℕ) : Except DocumentServiceError DocumentSaveSnapshot :=
  if doc.projectId ≠ projectId then .error .notFound
  else if doc.holdsLease client lease = false then .error .staleLease
  else if doc.buffer.revision ≠ expectedRevision then .error .staleRevision
  else .ok
    { documentId := doc.id
      projectId := doc.projectId
      revision := expectedRevision
      expectedDiskDigest := doc.baseDigest
      text := doc.buffer.text }

/-- The answer says whether the saved revision is still the current one. -/
def commitSaveIn (savedRevision : ℕ) (newDiskDigest : String) :
    Except DocumentServiceError (Bool × OpenDocument) :=
  if doc.projectId ≠ projectId then .error .notFound
  else .ok (decide (doc.buffer.revision = savedRevision), doc.commitSave savedRevision newDiskDigest)

def markDiskConflictIn (actualDiskDigest : String) :
    Except DocumentServiceError (ℕ × OpenDocument) :=
  if doc.projectId ≠ projectId then .error .notFound
  else .ok (doc.buffer.revision, doc.markDiskConflict actualDiskDigest)

/-- The text of the file becomes that of the document, which is clean then. -/
def replaceFromDisk (text : Rope) (diskDigest : String) :
    Except DocumentServiceError (ℕ × OpenDocument) :=
  match doc.buffer.replaceText text with
  | .error e => .error (.text e)
  | .ok buffer => .ok (buffer.revision, { doc with
      buffer := buffer
      baseDigest := diskDigest
      dirty := false
      conflicted := false })

/-- A clean text follows the file; a dirty one stays and is in conflict with it. -/
def refreshClean (expectedRevision : ℕ) (text : Rope) (diskDigest : String) :
    Except DocumentServiceError (Option ℕ × OpenDocument) :=
  if maxDocumentTextBytes < byteLen text then .error .resourceLimit
  else if doc.projectId ≠ projectId ∨ client ∉ doc.readers then .error .notFound
  else if doc.buffer.revision ≠ expectedRevision then .error .staleRevision
  else if diskDigest = doc.baseDigest then .ok (none, doc)
  else if doc.dirty then .ok (none, { doc with conflicted := true })
  else (doc.replaceFromDisk text diskDigest).map fun p => (some p.1, p.2)

def reloadVerified (expectedRevision : ℕ) (text : Rope) (diskDigest : String) :
    Except DocumentServiceError (ℕ × OpenDocument) :=
  if maxDocumentTextBytes < byteLen text then .error .resourceLimit
  else if doc.projectId ≠ projectId then .error .notFound
  else if doc.holdsLease client lease = false then .error .staleLease
  else if doc.buffer.revision ≠ expectedRevision then .error .staleRevision
  else doc.replaceFromDisk text diskDigest

variable {doc projectId client lease} {doc' : OpenDocument}

/-! ### What each operation does to the text -/

/-- Only a reader becomes the writer, and nothing else changes. -/
theorem acquireWriterIn_eq_ok {answer : String}
    (h : doc.acquireWriterIn projectId client lease = .ok (answer, doc')) :
    client ∈ doc.readers ∧ ∃ writer, doc' = { doc with writer := writer } := by
  rw [acquireWriterIn] at h
  by_cases hproject : doc.projectId ≠ projectId
  · rw [if_pos hproject] at h
    cases h
  rw [if_neg hproject, acquireWriter] at h
  by_cases hreader : client ∉ doc.readers
  · rw [if_pos hreader] at h
    cases h
  rw [if_neg hreader] at h
  refine ⟨not_not.mp hreader, ?_⟩
  cases hwriter : doc.writer with
  | none =>
    rw [hwriter] at h
    cases h
    exact ⟨_, rfl⟩
  | some held =>
    rw [hwriter] at h
    dsimp only at h
    split at h
    · cases h
      exact ⟨doc.writer, rfl⟩
    · cases h

theorem changeIn_eq_ok {dg : Digests} {turn : DaemonTurn} {r : ChangeRequest}
    (h : doc.changeIn client dg turn r = .ok (revision, doc')) :
    doc.change dg turn client r = .ok (revision, doc') := by
  rw [changeIn] at h
  split_ifs at h
  exact h

theorem commitSaveIn_eq_ok {savedRevision : ℕ} {newDiskDigest : String} {saved : Bool}
    (h : doc.commitSaveIn projectId savedRevision newDiskDigest = .ok (saved, doc')) :
    saved = decide (doc.buffer.revision = savedRevision) ∧
      doc' = doc.commitSave savedRevision newDiskDigest := by
  rw [commitSaveIn] at h
  split_ifs at h
  cases h
  exact ⟨rfl, rfl⟩

theorem markDiskConflictIn_eq_ok {actualDiskDigest : String}
    (h : doc.markDiskConflictIn projectId actualDiskDigest = .ok (revision, doc')) :
    doc' = doc.markDiskConflict actualDiskDigest := by
  rw [markDiskConflictIn] at h
  split_ifs at h
  cases h
  rfl

/-- The document with the text of its file. -/
def reread (doc : OpenDocument) (text : Rope) (diskDigest : String) : OpenDocument :=
  { doc with
    buffer := ⟨text, doc.buffer.revision + 1⟩
    baseDigest := diskDigest
    dirty := false
    conflicted := false }

/-- A refresh that gets as far as replacing the text. -/
structure Refreshes (doc : OpenDocument) (projectId client : String) (expectedRevision : ℕ)
    (text : Rope) (diskDigest : String) : Prop where
  size : byteLen text ≤ maxDocumentTextBytes
  project : doc.projectId = projectId
  reader : client ∈ doc.readers
  revision : doc.buffer.revision = expectedRevision
  differs : diskDigest ≠ doc.baseDigest
  clean : doc.dirty = false
  room : doc.buffer.revision < maxRevision

/-- A reload that gets as far as replacing the text. -/
structure Reloads (doc : OpenDocument) (projectId client lease : String) (expectedRevision : ℕ)
    (text : Rope) : Prop where
  size : byteLen text ≤ maxDocumentTextBytes
  project : doc.projectId = projectId
  writer : doc.holdsLease client lease = true
  revision : doc.buffer.revision = expectedRevision
  room : doc.buffer.revision < maxRevision

theorem replaceFromDisk_eq_ok (h : doc.replaceFromDisk text diskDigest = .ok (revision, doc')) :
    doc.buffer.revision < maxRevision ∧ doc' = doc.reread text diskDigest := by
  rw [replaceFromDisk, replaceText] at h
  by_cases hmax : maxRevision ≤ doc.buffer.revision
  · rw [if_pos hmax] at h
    cases h
  · rw [if_neg hmax] at h
    cases h
    exact ⟨not_le.mp hmax, rfl⟩

theorem replaceFromDisk_of_room (h : doc.buffer.revision < maxRevision) :
    doc.replaceFromDisk text diskDigest =
      .ok (doc.buffer.revision + 1, doc.reread text diskDigest) := by
  rw [replaceFromDisk, replaceText, if_neg (not_le.mpr h)]
  rfl

theorem Refreshes.result (h : doc.Refreshes projectId client expectedRevision text diskDigest) :
    doc.refreshClean projectId client expectedRevision text diskDigest =
      .ok (some (doc.buffer.revision + 1), doc.reread text diskDigest) := by
  have hsame : ¬(doc.projectId ≠ projectId ∨ client ∉ doc.readers) := by
    simp [h.project, h.reader]
  rw [refreshClean, if_neg (not_lt.mpr h.size), if_neg hsame, if_neg (not_not.mpr h.revision),
    if_neg h.differs, h.clean, replaceFromDisk_of_room h.room]
  rfl

theorem Reloads.result (h : doc.Reloads projectId client lease expectedRevision text) :
    doc.reloadVerified projectId client lease expectedRevision text diskDigest =
      .ok (doc.buffer.revision + 1, doc.reread text diskDigest) := by
  rw [reloadVerified, if_neg (not_lt.mpr h.size), if_neg (not_not.mpr h.project), h.writer,
    if_neg (Bool.noConfusion : ¬true = false), if_neg (not_not.mpr h.revision), replaceFromDisk_of_room h.room]

/-- A refresh replaces the text, or leaves all but the mark of a conflict. -/
theorem refreshClean_eq_ok {answer : Option ℕ}
    (h : doc.refreshClean projectId client expectedRevision text diskDigest =
      .ok (answer, doc')) :
    (∃ conflicted, doc' = { doc with conflicted := conflicted }) ∨
      (doc.Refreshes projectId client expectedRevision text diskDigest ∧
        doc' = doc.reread text diskDigest) := by
  rw [refreshClean] at h
  by_cases hsize : maxDocumentTextBytes < byteLen text
  · rw [if_pos hsize] at h
    cases h
  rw [if_neg hsize] at h
  by_cases hreader : doc.projectId ≠ projectId ∨ client ∉ doc.readers
  · rw [if_pos hreader] at h
    cases h
  rw [if_neg hreader] at h
  by_cases hrevision : doc.buffer.revision ≠ expectedRevision
  · rw [if_pos hrevision] at h
    cases h
  rw [if_neg hrevision] at h
  by_cases hdigest : diskDigest = doc.baseDigest
  · rw [if_pos hdigest] at h
    cases h
    exact Or.inl ⟨doc.conflicted, rfl⟩
  rw [if_neg hdigest] at h
  cases hdirty : doc.dirty with
  | true =>
    rw [hdirty] at h
    cases h
    exact Or.inl ⟨true, rfl⟩
  | false =>
    rw [hdirty] at h
    cases hreplace : doc.replaceFromDisk text diskDigest with
    | error e =>
      rw [hreplace] at h
      cases h
    | ok p =>
      rw [hreplace] at h
      cases h
      obtain ⟨hroom, hdoc⟩ := replaceFromDisk_eq_ok hreplace
      rw [not_or, not_not, not_not] at hreader
      exact Or.inr ⟨⟨not_lt.mp hsize, hreader.1, hreader.2, not_not.mp hrevision, hdigest, hdirty,
        hroom⟩, hdoc⟩

theorem reloadVerified_eq_ok
    (h : doc.reloadVerified projectId client lease expectedRevision text diskDigest =
      .ok (revision, doc')) :
    doc.Reloads projectId client lease expectedRevision text ∧
      doc' = doc.reread text diskDigest := by
  rw [reloadVerified] at h
  by_cases hsize : maxDocumentTextBytes < byteLen text
  · rw [if_pos hsize] at h
    cases h
  split_ifs at h with hproject hlease hrevision
  obtain ⟨hroom, hdoc⟩ := replaceFromDisk_eq_ok h
  exact ⟨⟨not_lt.mp hsize, not_not.mp hproject, by simpa using hlease, not_not.mp hrevision,
    hroom⟩, hdoc⟩

/-- What is true of a change that goes into the text. -/
structure ChangedTo (dg : Digests) (turn : DaemonTurn) (r : ChangeRequest)
    (doc doc' : OpenDocument) : Prop where
  size : byteLen doc'.buffer.text ≤ maxDocumentTextBytes
  resident : turn.others.residentBytes + byteLen doc'.buffer.text ≤ maxResidentBytes
  text : (doc'.buffer = doc.buffer ∧ doc'.dirty = doc.dirty) ∨
    (doc'.buffer.revision = doc.buffer.revision + 1 ∧ doc'.dirty = true)
  recent : ∃ revision, doc'.recent =
    remember doc.recent turn.victim r.changeId (dg.payload r.transaction) revision
  frame : doc' = { doc with buffer := doc'.buffer, dirty := doc'.dirty, recent := doc'.recent }

theorem change_cases {dg : Digests} {turn : DaemonTurn} {r : ChangeRequest}
    (h : doc.change dg turn client r = .ok (revision, doc')) :
    (doc' = doc ∨ ChangedTo dg turn r doc doc') ∧ doc.holdsLease client r.writerLease = true := by
  rw [change] at h
  by_cases hlease : doc.holdsLease client r.writerLease = false
  · rw [if_pos hlease] at h
    cases h
  rw [if_neg hlease] at h
  refine ⟨?_, by simpa using hlease⟩
  cases hseen : doc.recent.lookup r.changeId with
  | some seen =>
    simp only [hseen] at h
    by_cases hdigest : seen.1 = dg.payload r.transaction
    · rw [if_pos hdigest] at h
      cases h
      exact Or.inl rfl
    · rw [if_neg hdigest] at h
      cases h
  | none =>
    simp only [hseen] at h
    by_cases hbase : doc.buffer.revision ≠ r.baseRevision
    · rw [if_pos hbase] at h
      cases h
    rw [if_neg hbase, ← not_not.mp hbase] at h
    by_cases horphans : doc.dirty = false ∧ r.transaction.edits ≠ [] ∧
        maxDirtyOrphans ≤ turn.others.dirtyCount
    · rw [if_pos horphans] at h
      cases h
    rw [if_neg horphans] at h
    by_cases hedits : maxDocumentEdits < r.transaction.edits.length
    · rw [if_pos hedits] at h
      cases h
    rw [if_neg hedits] at h
    by_cases hresident : maxResidentBytes < turn.others.residentBytes +
        (byteLen doc.buffer.text - r.transaction.removed + r.transaction.inserted)
    · rw [if_pos hresident] at h
      cases h
    rw [if_neg hresident, not_lt] at *
    right
    cases happly : doc.buffer.apply r.transaction protocolLimits with
    | error e =>
      rw [happly] at h
      cases h
    | ok p =>
      rw [happly] at h
      cases h
      have hspec := apply_cases happly
      refine ⟨hspec.2.1, by rw [← hspec.1] at hresident; exact hresident, ?_, ⟨_, rfl⟩, rfl⟩
      rcases hspec.2.2 with ⟨hbuffer, hrevision⟩ | ⟨hnext, hrevision⟩
      · exact Or.inl ⟨hbuffer, by simp [hrevision]⟩
      · exact Or.inr ⟨hnext, by simp [hrevision, hnext]⟩

end OpenDocument

end Codegg.Documents
