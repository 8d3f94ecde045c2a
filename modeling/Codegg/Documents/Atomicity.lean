import Codegg.Documents.Registry
import Codegg.Documents.Transactions

/-!
# Operations that fail

Each operation of the service changes its document in place, statement by statement, so that
what a failure leaves behind is what had been written before it. All of them check first and
write only what can no longer fail, with one exception: an attachment enters the reader
before it looks at the writer, so that a client that wants to write and is refused stays
among the readers.
-/
namespace Codegg.Documents

open Codegg.Library DocumentBuffer

variable {e : DocumentServiceError} {reg' : Registry}

namespace OpenDocument

abbrev DocumentM := EStateM DocumentServiceError OpenDocument

/-- An operation of the buffer inside the document. -/
def onBuffer {α : Type} (m : DocumentBuffer.BufferM α) : DocumentM α := fun doc =>
  match m doc.buffer with
  | .ok a buffer => .ok a { doc with buffer := buffer }
  | .error e buffer => .error (.text e) { doc with buffer := buffer }

def acquireWriterInPlace (projectId client fresh : String) : DocumentM String := do
  let doc ← get
  failIf (doc.projectId ≠ projectId) .notFound
  failIf (client ∉ doc.readers) .notFound
  match doc.writer with
  | some (owner, held) =>
    failIf (owner ≠ client) .writerBusy
    pure held
  | none =>
    modify fun doc => { doc with writer := some (client, fresh) }
    pure fresh

/-- A full table forgets the entry that the map yields first. -/
def trimRecent (victim : ℕ) : DocumentM Unit :=
  modify fun doc => { doc with
    recent := if maxDedupe ≤ doc.recent.length then
      doc.recent.eraseIdx (victim % doc.recent.length) else doc.recent }

/-- A change whose identity has been checked. -/
def changeInPlace (dg : Digests) (turn : DaemonTurn) (client : String) (r : ChangeRequest) :
    DocumentM ℕ := do
  let doc ← get
  failIf (doc.projectId ≠ r.projectId) .notFound
  failIf (doc.holdsLease client r.writerLease = false) .staleLease
  match doc.recent.lookup r.changeId with
  | some (oldDigest, revision) =>
    failIf (oldDigest ≠ dg.payload r.transaction) .changeCollision
    pure revision
  | none =>
    failIf (doc.buffer.revision ≠ r.baseRevision) .staleRevision
    failIf (doc.dirty = false ∧ r.transaction.edits ≠ [] ∧
      maxDirtyOrphans ≤ turn.others.dirtyCount) .resourceLimit
    failIf (maxDocumentEdits < r.transaction.edits.length) .resourceLimit
    failIf (maxResidentBytes < turn.others.residentBytes +
      (byteLen doc.buffer.text - r.transaction.removed + r.transaction.inserted)) .resourceLimit
    let applied ← onBuffer (applyInPlace r.transaction protocolLimits)
    modify fun doc =>
      { doc with dirty := doc.dirty || decide (applied.revision ≠ r.baseRevision) }
    trimRecent turn.victim
    modify fun doc => { doc with
      recent := doc.recent ++ [(r.changeId, dg.payload r.transaction, applied.revision)] }
    pure applied.revision

def captureSaveInPlace (projectId client lease : String) (expectedRevision : ℕ) :
    DocumentM DocumentSaveSnapshot := do
  let doc ← get
  failIf (doc.projectId ≠ projectId) .notFound
  failIf (doc.holdsLease client lease = false) .staleLease
  failIf (doc.buffer.revision ≠ expectedRevision) .staleRevision
  pure
    { documentId := doc.id
      projectId := doc.projectId
      revision := expectedRevision
      expectedDiskDigest := doc.baseDigest
      text := doc.buffer.text }

/-- `replace_text` on the buffer itself. -/
def replaceTextInPlace (text : Rope) : DocumentBuffer.BufferM ℕ := do
  let b ← get
  let next ← orFail (checkedNext b.revision)
  modify fun b => { b with text := text }
  modify fun b => { b with revision := next }
  pure next

def reloadInPlace (projectId client lease : String) (expectedRevision : ℕ) (text : Rope)
    (diskDigest : String) : DocumentM ℕ := do
  failIf (maxDocumentTextBytes < byteLen text) .resourceLimit
  let doc ← get
  failIf (doc.projectId ≠ projectId) .notFound
  failIf (doc.holdsLease client lease = false) .staleLease
  failIf (doc.buffer.revision ≠ expectedRevision) .staleRevision
  let revision ← onBuffer (replaceTextInPlace text)
  modify fun doc => { doc with baseDigest := diskDigest }
  modify fun doc => { doc with dirty := false }
  modify fun doc => { doc with conflicted := false }
  pure revision

/-! ### What a failure leaves -/

/-- An operation whose result is that of a function of the document. -/
def Computes {α : Type} (m : DocumentM α)
    (f : OpenDocument → Except DocumentServiceError (α × OpenDocument)) : Prop :=
  ∀ doc, m doc = match f doc with
    | .ok (a, doc') => .ok a doc'
    | .error e => .error e doc

theorem acquireWriterInPlace_computes (projectId client fresh : String) :
    Computes (acquireWriterInPlace projectId client fresh) fun doc =>
      doc.acquireWriterIn projectId client fresh := by
  intro doc
  beta_reduce
  rw [acquireWriterInPlace, get_bind, acquireWriterIn, acquireWriter, failIf_bind, failIf_bind]
  by_cases hproject : doc.projectId ≠ projectId
  · rw [if_pos hproject, if_pos hproject]
  rw [if_neg hproject, if_neg hproject]
  by_cases hreader : client ∉ doc.readers
  · rw [if_pos hreader, if_pos hreader]
  rw [if_neg hreader, if_neg hreader]
  cases doc.writer with
  | none => rfl
  | some held =>
    by_cases howner : held.1 = client
    · simp [failIf_bind, howner]
      rfl
    · simp [failIf_bind, howner]

theorem changeInPlace_computes (dg : Digests) (turn : DaemonTurn) (client : String)
    {r : ChangeRequest} (hid : ¬(r.changeId = "" ∨ 128 < r.changeId.utf8ByteSize)) :
    Computes (changeInPlace dg turn client r) fun doc => doc.changeIn client dg turn r := by
  intro doc
  beta_reduce
  rw [changeInPlace, get_bind, changeIn, change, if_neg hid, failIf_bind]
  by_cases hproject : doc.projectId ≠ r.projectId
  · rw [if_pos hproject, if_pos hproject]
  rw [if_neg hproject, if_neg hproject, failIf_bind]
  by_cases hlease : doc.holdsLease client r.writerLease = false
  · rw [if_pos hlease, if_pos hlease]
  rw [if_neg hlease, if_neg hlease]
  cases doc.recent.lookup r.changeId with
  | some seen =>
    obtain ⟨oldDigest, revision⟩ := seen
    dsimp only
    rw [failIf_bind]
    by_cases hdigest : oldDigest = dg.payload r.transaction
    · rw [if_neg (not_not.mpr hdigest), if_pos hdigest]
      rfl
    · rw [if_pos hdigest, if_neg hdigest]
  | none =>
    dsimp only
    rw [failIf_bind]
    by_cases hbase : doc.buffer.revision ≠ r.baseRevision
    · rw [if_pos hbase, if_pos hbase]
    rw [if_neg hbase, if_neg hbase, failIf_bind]
    by_cases horphans : doc.dirty = false ∧ r.transaction.edits ≠ [] ∧
        maxDirtyOrphans ≤ turn.others.dirtyCount
    · rw [if_pos horphans, if_pos horphans]
    rw [if_neg horphans, if_neg horphans, failIf_bind]
    by_cases hedits : maxDocumentEdits < r.transaction.edits.length
    · rw [if_pos hedits, if_pos hedits]
    rw [if_neg hedits, if_neg hedits, failIf_bind]
    by_cases hresident : maxResidentBytes < turn.others.residentBytes +
        (byteLen doc.buffer.text - r.transaction.removed + r.transaction.inserted)
    · rw [if_pos hresident, if_pos hresident]
    rw [if_neg hresident, if_neg hresident]
    have hbuffer := applyInPlace_eq r.transaction protocolLimits doc.buffer
    cases happly : doc.buffer.apply r.transaction protocolLimits with
    | error e =>
      rw [happly] at hbuffer
      exact bind_of_error (by rw [onBuffer, hbuffer])
    | ok result =>
      obtain ⟨applied, buffer⟩ := result
      rw [happly] at hbuffer
      rw [bind_of_ok (show onBuffer _ doc = .ok applied { doc with buffer := buffer } by
        rw [onBuffer, hbuffer])]
      rfl

theorem replaceTextInPlace_eq (text : Rope) (b : DocumentBuffer) :
    replaceTextInPlace text b = match b.replaceText text with
      | .ok b' => .ok b'.revision b'
      | .error e => .error e b := by
  rw [replaceTextInPlace, get_bind, checkedNext, replaceText]
  split_ifs <;> rfl

theorem reloadInPlace_computes (projectId client lease : String) (expectedRevision : ℕ)
    (text : Rope) (diskDigest : String) :
    Computes (reloadInPlace projectId client lease expectedRevision text diskDigest) fun doc =>
      doc.reloadVerified projectId client lease expectedRevision text diskDigest := by
  intro doc
  beta_reduce
  rw [reloadInPlace, failIf_bind, get_bind, reloadVerified]
  by_cases hsize : maxDocumentTextBytes < byteLen text
  · rw [if_pos hsize, if_pos hsize]
  rw [if_neg hsize, if_neg hsize, failIf_bind]
  by_cases hproject : doc.projectId ≠ projectId
  · rw [if_pos hproject, if_pos hproject]
  rw [if_neg hproject, if_neg hproject, failIf_bind]
  by_cases hlease : doc.holdsLease client lease = false
  · rw [if_pos hlease, if_pos hlease]
  rw [if_neg hlease, if_neg hlease, failIf_bind]
  by_cases hrevision : doc.buffer.revision ≠ expectedRevision
  · rw [if_pos hrevision, if_pos hrevision]
  rw [if_neg hrevision, if_neg hrevision]
  have hbuffer := replaceTextInPlace_eq text doc.buffer
  rw [replaceFromDisk]
  cases hreplace : doc.buffer.replaceText text with
  | error e =>
    rw [hreplace] at hbuffer
    exact bind_of_error (by rw [onBuffer, hbuffer])
  | ok b' =>
    rw [hreplace] at hbuffer
    rw [bind_of_ok (show onBuffer _ doc = .ok b'.revision { doc with buffer := b' } by
      rw [onBuffer, hbuffer])]
    rfl

theorem captureSaveInPlace_computes (projectId client lease : String) (expectedRevision : ℕ) :
    Computes (captureSaveInPlace projectId client lease expectedRevision) fun doc =>
      (doc.captureSave projectId client lease expectedRevision).map fun saved => (saved, doc) := by
  intro doc
  beta_reduce
  rw [captureSaveInPlace, get_bind, captureSave, failIf_bind]
  by_cases hproject : doc.projectId ≠ projectId
  · rw [if_pos hproject, if_pos hproject]
    rfl
  rw [if_neg hproject, if_neg hproject, failIf_bind]
  by_cases hlease : doc.holdsLease client lease = false
  · rw [if_pos hlease, if_pos hlease]
    rfl
  rw [if_neg hlease, if_neg hlease, failIf_bind]
  by_cases hrevision : doc.buffer.revision ≠ expectedRevision
  · rw [if_pos hrevision, if_pos hrevision]
    rfl
  · rw [if_neg hrevision, if_neg hrevision]
    rfl

/-! ### Attachments -/

/-- A client that wants to write and is refused, without having been a reader before. -/
structure EntersRefused (doc : OpenDocument) (client : String) (writable : Bool) : Prop where
  writable : writable = true
  room : doc.readers.length < maxAttachments
  busy : ∃ owner lease, doc.writer = some (owner, lease) ∧ owner ≠ client
  fresh : client ∉ doc.readers

theorem EntersRefused.attach_eq {doc : OpenDocument} {client : String} {writable : Bool}
    (h : doc.EntersRefused client writable) (lease : String) :
    doc.attach client writable lease =
      (.error .writerBusy, { doc with readers := doc.readers ++ [client] }) := by
  obtain ⟨hwritable, hroom, ⟨owner, held, hwriter, howner⟩, hfresh⟩ := h
  rw [attach, if_neg (not_le.mpr hroom), hwritable, hwriter, if_neg hfresh]
  exact if_pos howner

/-- Any other attachment that fails has done nothing. -/
theorem eq_of_attach_error {doc doc' : OpenDocument} {client lease : String} {writable : Bool}
    (hrefused : ¬doc.EntersRefused client writable)
    (h : doc.attach client writable lease = (.error e, doc')) : doc' = doc := by
  rw [attach] at h
  by_cases hfull : maxAttachments ≤ doc.readers.length
  · rw [if_pos hfull] at h
    exact (Prod.mk.inj h).2.symm
  rw [if_neg hfull] at h
  by_cases hwritable : writable = true
  · cases hwriter : doc.writer with
    | none => simp [hwritable, hwriter] at h
    | some held =>
      by_cases howner : held.1 = client
      · simp [hwritable, hwriter, howner] at h
      · have hreader : client ∈ doc.readers := by
          by_contra hfresh
          exact hrefused ⟨hwritable, not_le.mp hfull, ⟨held.1, held.2, hwriter, howner⟩, hfresh⟩
        simp only [hwritable, hwriter, howner, hreader, ne_eq, if_true] at h
        rw [← (Prod.mk.inj h).2, ← hwriter]
  · simp [hwritable] at h

end OpenDocument

/-- The requests that are all or nothing. -/
inductive GuardedOperation where
  | openDocument (turn : DaemonTurn) (key : DocumentKey) (client : String) (writable : Bool)
  | acquireWriter (id projectId client lease : String)
  | change (victim : ℕ) (client : String) (r : ChangeRequest)
  | captureSave (id projectId client lease : String) (expectedRevision : ℕ)
  | reload (id projectId client lease : String) (expectedRevision : ℕ) (text : Rope)
      (diskDigest : String)
  deriving DecidableEq, Repr

namespace Registry

open OpenDocument (DocumentM Computes acquireWriterInPlace changeInPlace captureSaveInPlace
  reloadInPlace)

/-- An operation under the lock of its document, which keeps what was written also when the
operation fails. -/
def withDocument {α : Type} (reg : Registry) (id : String) (m : DocumentM α) :
    Except DocumentServiceError α × Registry :=
  match reg.find id with
  | none => (.error .notFound, reg)
  | some k =>
    match m k.doc with
    | .ok a doc => (.ok a, reg.put id k.key doc)
    | .error e doc => (.error e, reg.put id k.key doc)

/-- The outcome of a request without its answer. -/
def outcome {α : Type} (answer : Except DocumentServiceError α × Registry) :
    Option DocumentServiceError × Registry :=
  match answer with
  | (.ok _, reg) => (none, reg)
  | (.error e, reg) => (some e, reg)

def perform (dg : Digests) (reg : Registry) :
    GuardedOperation → Option DocumentServiceError × Registry
  | .openDocument turn key client writable =>
    outcome (reg.openDocument dg turn key client writable)
  | .acquireWriter id projectId client lease =>
    outcome (reg.withDocument id (acquireWriterInPlace projectId client lease))
  | .change victim client r =>
    if r.changeId = "" ∨ 128 < r.changeId.utf8ByteSize then (some .changeCollision, reg)
    else
      outcome (reg.withDocument r.documentId (changeInPlace dg
        { others := reg.held (reg.byId.erase r.documentId)
          victim := victim
          disk := none
          written := false
          documentId := ""
          lease := "" } client r))
  | .captureSave id projectId client lease expectedRevision =>
    outcome (reg.withDocument id (captureSaveInPlace projectId client lease expectedRevision))
  | .reload id projectId client lease expectedRevision text diskDigest =>
    outcome (reg.withDocument id
      (reloadInPlace projectId client lease expectedRevision text diskDigest))

/-- The part of a document that a refused request must not touch. -/
def guarded (reg : Registry) (id : String) :
    Option (List String × Option (String × String) × DocumentBuffer × Bool ×
      List (String × String × ℕ)) :=
  (reg.documents id).map fun k =>
    (k.doc.readers, k.doc.writer, k.doc.buffer, k.doc.dirty, k.doc.recent)

/-- A request that fails leaves every document as it was. -/
def AtomicOnError (dg : Digests) (reg : Registry) (op : GuardedOperation) : Prop :=
  ∀ e reg', reg.perform dg op = (some e, reg') → ∀ id, reg'.guarded id = reg.guarded id

/-- An open of a document somebody else is writing, for writing, by a client that is not yet
among its readers. -/
def OpensRefused (reg : Registry) : GuardedOperation → Prop
  | .openDocument _ key client writable => ∃ id k, reg.byKey key.toKeyString = some id ∧
      id ∈ reg.byId ∧ reg.documents id = some k ∧ k.doc.EntersRefused client writable
  | _ => False

variable {dg : Digests} {reg : Registry}

/-- Once it is known how the operation computes, keeping what a failure wrote and dropping it
are the same. -/
theorem withDocument_eq (reg : Registry) {α : Type} {m : DocumentM α}
    {f : OpenDocument → Except DocumentServiceError (α × OpenDocument)} (h : Computes m f)
    (id : String) : (reg.withDocument id m).1 = (reg.onDocument id f).1 ∧
      ∀ id', (reg.withDocument id m).2.documents id' = (reg.onDocument id f).2.documents id' := by
  rw [withDocument, onDocument]
  cases hfind : reg.find id with
  | none => exact ⟨rfl, fun _ => rfl⟩
  | some k =>
    dsimp only
    rw [h k.doc]
    cases f k.doc with
    | ok p => exact ⟨rfl, fun _ => rfl⟩
    | error e =>
      refine ⟨rfl, fun id' => ?_⟩
      have hk : reg.documents id = some k := by
        rw [find] at hfind
        split_ifs at hfind
        exact hfind
      show Function.update reg.documents id (some ⟨k.key, k.doc⟩) id' = reg.documents id'
      rw [← hk, Function.update_eq_self]

theorem outcome_eq_some {α : Type} {answer : Except DocumentServiceError α × Registry}
    (h : outcome answer = (some e, reg')) :
    answer = (.error e, reg') := by
  obtain ⟨result, reg''⟩ := answer
  cases result with
  | ok a => cases h
  | error e' =>
    cases h
    rfl

theorem documents_of_onDocument_error {α : Type} {id : String}
    {f : OpenDocument → Except DocumentServiceError (α × OpenDocument)}
    (h : (reg.onDocument id f).1 = .error e) : (reg.onDocument id f).2 = reg := by
  rw [onDocument] at *
  cases hfind : reg.find id with
  | none => rfl
  | some k =>
    rw [hfind] at h
    cases hf : f k.doc with
    | error e' => simp [hf]
    | ok p => simp [hf] at h

theorem guarded_of_withDocument_error {α : Type} {m : DocumentM α}
    {f : OpenDocument → Except DocumentServiceError (α × OpenDocument)} (h : Computes m f)
    {id : String} (hrun : outcome (reg.withDocument id m) = (some e, reg')) (id' : String) :
    reg'.guarded id' = reg.guarded id' := by
  have hanswer := outcome_eq_some hrun
  obtain ⟨hresult, hdocuments⟩ := withDocument_eq reg h id
  rw [hanswer] at hresult hdocuments
  rw [guarded, guarded, hdocuments id', documents_of_onDocument_error hresult.symm]

/-- A failed request that is no refused open changes nothing. -/
theorem guarded_of_perform_error {op : GuardedOperation} (hrefused : ¬OpensRefused reg op)
    (h : reg.perform dg op = (some e, reg')) (id' : String) :
    reg'.guarded id' = reg.guarded id' := by
  cases op with
  | openDocument turn key client writable =>
    have hopen := outcome_eq_some h
    rw [openDocument] at hopen
    cases hkey : reg.byKey key.toKeyString with
    | none =>
      simp only [hkey, openNew] at hopen
      split at hopen
      · rw [(Prod.mk.inj hopen).2]
      · rw [insertOpened] at hopen
        split at hopen
        · rw [(Prod.mk.inj hopen).2]
        · cases hopen
    | some id =>
      simp only [hkey] at hopen
      by_cases hid : id ∈ reg.byId
      · rw [if_pos hid, attachTo] at hopen
        cases hk : reg.documents id with
        | none =>
          simp only [hk] at hopen
          rw [(Prod.mk.inj hopen).2]
        | some k =>
          simp only [hk] at hopen
          cases hattach : k.doc.attach client writable turn.lease with
          | mk result doc =>
            rw [hattach] at hopen
            cases result with
            | ok u => cases hopen
            | error e' =>
              have hdoc : doc = k.doc := OpenDocument.eq_of_attach_error
                (fun hmust => hrefused ⟨id, k, hkey, hid, hk, hmust⟩) hattach
              rw [← (Prod.mk.inj hopen).2, hdoc, put]
              rw [← hk, Function.update_eq_self, guarded]
      · rw [if_neg hid] at hopen
        rw [← (Prod.mk.inj hopen).2]
        rfl
  | acquireWriter id projectId client lease =>
    exact guarded_of_withDocument_error
      (OpenDocument.acquireWriterInPlace_computes projectId client lease) h id'
  | change victim client r =>
    rw [perform] at h
    split_ifs at h with hid
    · rw [(Prod.mk.inj h).2]
    · exact guarded_of_withDocument_error (OpenDocument.changeInPlace_computes dg _ client hid) h id'
  | captureSave id projectId client lease expectedRevision =>
    exact guarded_of_withDocument_error
      (OpenDocument.captureSaveInPlace_computes projectId client lease expectedRevision) h id'
  | reload id projectId client lease expectedRevision text diskDigest =>
    exact guarded_of_withDocument_error
      (OpenDocument.reloadInPlace_computes projectId client lease expectedRevision text diskDigest)
      h id'

/-- A refused open leaves its client among the readers. -/
theorem not_atomicOnError_of_opensRefused {op : GuardedOperation} (h : OpensRefused reg op) :
    ¬AtomicOnError dg reg op := by
  intro hatomic
  cases op with
  | openDocument turn key client writable =>
    obtain ⟨id, k, hkey, hid, hk, hrefused⟩ := h
    have hopen : reg.perform dg (.openDocument turn key client writable) =
        (some .writerBusy, reg.put id k.key
          { k.doc with readers := k.doc.readers ++ [client] }) := by
      simp [perform, openDocument, hkey, if_pos hid, attachTo, hk,
        hrefused.attach_eq turn.lease, outcome]
    have hsame := hatomic _ _ hopen id
    rw [guarded, put] at hsame
    dsimp only at hsame
    rw [Function.update_self, guarded, hk] at hsame
    have hreaders : k.doc.readers ++ [client] = k.doc.readers :=
      (Prod.mk.inj (Option.some.inj hsame)).1
    simp at hreaders
  | acquireWriter id projectId client lease => exact h
  | change victim client r => exact h
  | captureSave id projectId client lease expectedRevision => exact h
  | reload id projectId client lease expectedRevision text diskDigest => exact h

theorem atomicOnError_iff_not_opensRefused (op : GuardedOperation) :
    AtomicOnError dg reg op ↔ ¬OpensRefused reg op :=
  ⟨fun hatomic hrefused => not_atomicOnError_of_opensRefused hrefused hatomic,
    fun hrefused _ _ hrun id' => guarded_of_perform_error hrefused hrun id'⟩

end Registry

end Codegg.Documents
