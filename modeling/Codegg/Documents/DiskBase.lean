import Codegg.Documents.Operations

/-!
# Clean means on disk

Saves take a text and its revision to the disk and come back later, while changes and
reloads go on. A revision names one text of a document, so a save that comes back to the
revision it left with has written the text the document has.
-/
namespace Codegg.Documents

open Codegg.Library OpenDocument

/-- A document with the saves that have left it. -/
structure EditedDocument where
  doc : OpenDocument
  captured : List DocumentSaveSnapshot
  deriving Repr, DecidableEq

/-- What can happen to one document. A save comes back with the revision and the digest of
a text that was captured, given by its position; a file comes with its own digest. -/
inductive DocumentAction where
  | attach (client : String) (writable : Bool) (lease : String)
  | acquireWriter (projectId client lease : String)
  | change (turn : DaemonTurn) (client : String) (r : ChangeRequest)
  | captureSave (projectId client lease : String) (expectedRevision : ℕ)
  | commitSave (projectId : String) (capture : ℕ)
  | markDiskConflict (projectId actualDiskDigest : String)
  | refreshClean (projectId client : String) (expectedRevision : ℕ) (text : Rope)
  | reloadVerified (projectId client lease : String) (expectedRevision : ℕ) (text : Rope)
  | detach (client : String)
  deriving Repr, DecidableEq

namespace EditedDocument

variable (dg : Digests)

/-- The document after an operation; one that fails leaves it. -/
def set {α : Type} (s : EditedDocument) :
    Except DocumentServiceError (α × OpenDocument) → EditedDocument
  | .ok (_, doc) => { s with doc := doc }
  | .error _ => s

def step (s : EditedDocument) : DocumentAction → EditedDocument
  | .attach client writable lease => { s with doc := (s.doc.attach client writable lease).2 }
  | .acquireWriter projectId client lease => s.set (s.doc.acquireWriterIn projectId client lease)
  | .change turn client r => s.set (s.doc.changeIn client dg turn r)
  | .captureSave projectId client lease expectedRevision =>
    match s.doc.captureSave projectId client lease expectedRevision with
    | .ok snapshot => { s with captured := s.captured ++ [snapshot] }
    | .error _ => s
  | .commitSave projectId capture =>
    match s.captured[capture]? with
    | some c => s.set (s.doc.commitSaveIn projectId c.revision (dg.opened c.text))
    | none => s
  | .markDiskConflict projectId actualDiskDigest =>
    s.set (s.doc.markDiskConflictIn projectId actualDiskDigest)
  | .refreshClean projectId client expectedRevision text =>
    s.set (s.doc.refreshClean projectId client expectedRevision text (dg.opened text))
  | .reloadVerified projectId client lease expectedRevision text =>
    s.set (s.doc.reloadVerified projectId client lease expectedRevision text (dg.opened text))
  | .detach client => { s with doc := s.doc.detachClient client }

def run (s : EditedDocument) (actions : List DocumentAction) : EditedDocument :=
  actions.foldl (step dg) s

/-- The digest on record is that of the text, if the text is clean. -/
def CleanOnDisk (doc : OpenDocument) : Prop :=
  doc.dirty = false → doc.baseDigest = dg.opened doc.buffer.text

/-- A text that was captured is the one the document has, or it is behind. -/
def BehindOrCurrent (buffer : DocumentBuffer) (c : DocumentSaveSnapshot) : Prop :=
  c.revision < buffer.revision ∨ (c.revision = buffer.revision ∧ c.text = buffer.text)

structure DiskInvariant (s : EditedDocument) : Prop where
  clean : CleanOnDisk dg s.doc
  captured : ∀ c ∈ s.captured, BehindOrCurrent s.doc.buffer c

/-- What an operation does to the text and its digest. -/
structure TextMove (doc doc' : OpenDocument) : Prop where
  buffer : doc'.buffer = doc.buffer ∨ doc.buffer.revision < doc'.buffer.revision
  clean : CleanOnDisk dg doc → CleanOnDisk dg doc'

variable {dg} {s : EditedDocument} {doc doc' : OpenDocument}

theorem TextMove.of_frame (hbuffer : doc'.buffer = doc.buffer)
    (hbase : doc'.baseDigest = doc.baseDigest) (hdirty : doc'.dirty = doc.dirty) :
    TextMove dg doc doc' where
  buffer := Or.inl hbuffer
  clean h := by
    rw [CleanOnDisk, hbuffer, hbase, hdirty]
    exact h

theorem TextMove.refl (doc : OpenDocument) : TextMove dg doc doc := .of_frame rfl rfl rfl

theorem TextMove.reread (doc : OpenDocument) (text : Rope) :
    TextMove dg doc (doc.reread text (dg.opened text)) :=
  ⟨Or.inr (Nat.lt_succ_self _), fun _ _ => rfl⟩

theorem TextMove.change {turn : DaemonTurn} {client : String} {r : ChangeRequest} {revision : ℕ}
    (h : doc.changeIn client dg turn r = .ok (revision, doc')) : TextMove dg doc doc' := by
  rcases (change_cases (changeIn_eq_ok h)).1 with rfl | hchanged
  · exact .refl doc'
  · have hbase : doc'.baseDigest = doc.baseDigest := by rw [hchanged.frame]
    rcases hchanged.text with ⟨hbuffer, hdirty⟩ | ⟨hnext, hdirty⟩
    · exact .of_frame hbuffer hbase hdirty
    · refine ⟨Or.inr (by omega), fun _ hclean => ?_⟩
      rw [hdirty] at hclean
      cases hclean

theorem TextMove.refreshClean {projectId client : String} {expectedRevision : ℕ} {text : Rope}
    {answer : Option ℕ}
    (h : doc.refreshClean projectId client expectedRevision text (dg.opened text) =
      .ok (answer, doc')) : TextMove dg doc doc' := by
  rcases refreshClean_eq_ok h with ⟨conflicted, rfl⟩ | ⟨-, rfl⟩
  · exact .of_frame rfl rfl rfl
  · exact .reread doc text

/-- A save that comes back leaves a clean document only where the text is still the one it
captured. -/
theorem TextMove.commitSave {projectId : String} {c : DocumentSaveSnapshot} {saved : Bool}
    (hc : BehindOrCurrent doc.buffer c)
    (h : doc.commitSaveIn projectId c.revision (dg.opened c.text) = .ok (saved, doc')) :
    TextMove dg doc doc' := by
  obtain ⟨-, rfl⟩ := commitSaveIn_eq_ok h
  refine ⟨Or.inl rfl, fun _ hclean => ?_⟩
  have hrevision : doc.buffer.revision = c.revision := by
    simpa [commitSave] using hclean
  rcases hc with hlt | ⟨-, htext⟩
  · omega
  · show dg.opened c.text = dg.opened doc.buffer.text
    rw [htext]

theorem DiskInvariant.move (h : DiskInvariant dg s) (hmove : TextMove dg s.doc doc') :
    DiskInvariant dg { s with doc := doc' } where
  clean := hmove.clean h.clean
  captured c hc := by
    have hold := h.captured c hc
    rcases hmove.buffer with hbuffer | hlt
    · rw [hbuffer]
      exact hold
    · left
      rcases hold with hbehind | ⟨heq, -⟩
      · exact hbehind.trans hlt
      · exact heq ▸ hlt

theorem DiskInvariant.set {α : Type} {result : Except DocumentServiceError (α × OpenDocument)}
    (h : DiskInvariant dg s)
    (hmove : ∀ a doc', result = .ok (a, doc') → TextMove dg s.doc doc') :
    DiskInvariant dg (s.set result) := by
  cases result with
  | error e => exact h
  | ok p => exact h.move (hmove p.1 p.2 rfl)

theorem DiskInvariant.capture {projectId client lease : String} {expectedRevision : ℕ}
    {c : DocumentSaveSnapshot} (h : DiskInvariant dg s)
    (hc : s.doc.captureSave projectId client lease expectedRevision = .ok c) :
    DiskInvariant dg { s with captured := s.captured ++ [c] } where
  clean := h.clean
  captured c' hc' := by
    rcases List.mem_append.mp hc' with hold | hnew
    · exact h.captured c' hold
    · rw [captureSave] at hc
      split_ifs at hc with _ _ hrevision
      cases hc
      obtain rfl := List.mem_singleton.mp hnew
      exact Or.inr ⟨(not_not.mp hrevision).symm, rfl⟩

theorem DiskInvariant.step (h : DiskInvariant dg s) (action : DocumentAction) :
    DiskInvariant dg (s.step dg action) := by
  cases action with
  | attach client writable lease =>
    obtain ⟨readers, writer, hattach⟩ := attach_snd s.doc client writable lease
    refine h.move ?_
    rw [hattach]
    exact .of_frame rfl rfl rfl
  | acquireWriter projectId client lease =>
    refine h.set fun a doc' hok => ?_
    obtain ⟨-, writer, rfl⟩ := acquireWriterIn_eq_ok hok
    exact .of_frame rfl rfl rfl
  | change turn client r => exact h.set fun _ _ => .change
  | captureSave projectId client lease expectedRevision =>
    rw [EditedDocument.step]
    split
    · next c hc => exact h.capture hc
    · exact h
  | commitSave projectId capture =>
    rw [EditedDocument.step]
    split
    · next c hc =>
      exact h.set fun _ _ => .commitSave (h.captured c (List.mem_of_getElem? hc))
    · exact h
  | markDiskConflict projectId actualDiskDigest =>
    refine h.set fun a doc' hok => ?_
    rw [markDiskConflictIn_eq_ok hok]
    exact .of_frame rfl rfl rfl
  | refreshClean projectId client expectedRevision text => exact h.set fun _ _ => .refreshClean
  | reloadVerified projectId client lease expectedRevision text =>
    refine h.set fun a doc' hok => ?_
    rw [(reloadVerified_eq_ok hok).2]
    exact .reread s.doc text
  | detach client => exact h.move (.of_frame rfl rfl rfl)

theorem DiskInvariant.run (h : DiskInvariant dg s) (actions : List DocumentAction) :
    DiskInvariant dg (s.run dg actions) := by
  induction actions generalizing s with
  | nil => exact h
  | cons action actions ih => exact ih (h.step action)

/-- However saves, changes and reloads follow each other: a clean document has the text
whose digest is on record, and a save is taken for the current text only if it is. -/
theorem run_clean_on_disk (dg : Digests) (documentId projectId : String) (text : Rope)
    (actions : List DocumentAction) :
    let s := run dg ⟨openedDocument dg documentId projectId text, []⟩ actions
    (s.doc.dirty = false → dg.opened s.doc.buffer.text = s.doc.baseDigest) ∧
      ∀ c ∈ s.captured, ∀ saver saved doc',
        s.doc.commitSaveIn saver c.revision (dg.opened c.text) = .ok (saved, doc') →
          (saved = true ∨ doc'.dirty = false) → c.text = s.doc.buffer.text := by
  intro s
  have hstart : DiskInvariant dg ⟨openedDocument dg documentId projectId text, []⟩ :=
    ⟨fun _ => rfl, fun c hc => absurd hc List.not_mem_nil⟩
  have hinv : DiskInvariant dg s := hstart.run actions
  refine ⟨fun hclean => (hinv.clean hclean).symm, ?_⟩
  intro c hc saver saved doc' hcommit hsaved
  obtain ⟨rfl, rfl⟩ := OpenDocument.commitSaveIn_eq_ok hcommit
  have hrevision : s.doc.buffer.revision = c.revision := by
    simpa [OpenDocument.commitSave] using hsaved
  rcases hinv.captured c hc with hlt | ⟨-, htext⟩
  · omega
  · exact htext

end EditedDocument

end Codegg.Documents
