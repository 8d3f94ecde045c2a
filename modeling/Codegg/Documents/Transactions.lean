import Codegg.Documents.Buffer
import Codegg.Library.Hunks
import Codegg.Library.StateError

/-!
# Transactions on a buffer

Applying a transaction changes the buffer in place: the transaction is checked, its inverse
is computed against the old text, and then the edits are made from the last to the first.
The buffer is written only after everything that can fail. The edits come out as if all had
been made at once, and the inverse takes the new text back to the old one. It is accepted
wherever the limits allow it, but it may have to insert more than the transaction did.
-/
namespace Codegg.Documents

open Codegg.Library TextTransaction TextEdit Hunk

def TextEdit.replacement (edit : TextEdit) : Replacement :=
  ⟨edit.range.start, edit.range.stop, edit.insert⟩

namespace DocumentBuffer

abbrev BufferM := EStateM DocumentError DocumentBuffer

/-- An error of a computation that does not touch the buffer. -/
def orFail {α : Type} : Except DocumentError α → BufferM α
  | .ok a => pure a
  | .error e => throw e

/-- One `replace` of the rope. -/
def replaceRange (edit : TextEdit) : BufferM Unit :=
  modify fun b =>
    { b with text := replaceBytes b.text edit.range.start edit.range.stop edit.insert }

def replaceRanges : List TextEdit → BufferM Unit
  | [] => pure ()
  | edit :: edits => do
    replaceRange edit
    replaceRanges edits

def checkedNext (revision : ℕ) : Except DocumentError ℕ :=
  if maxRevision ≤ revision then .error .revisionExhausted else .ok (revision + 1)

/-- `apply` on the buffer itself, in the order of its statements. -/
def applyInPlace (tx : TextTransaction) (limits : DocumentLimits) :
    BufferM AppliedTransaction := do
  let b ← get
  orFail (tx.validate b.text limits)
  if tx.edits.isEmpty then
    pure { revision := b.revision, snapshot := b.snapshot, inverse := ⟨[]⟩ }
  else
    let nextRevision ← orFail (checkedNext b.revision)
    let inverse ← orFail (inverseEdits b.text 0 tx.edits)
    replaceRanges tx.edits.reverse
    modify fun b => { b with revision := nextRevision }
    let b ← get
    pure { revision := b.revision, snapshot := b.snapshot, inverse := ⟨inverse⟩ }

theorem replaceRanges_reverse (edits : List TextEdit) (b : DocumentBuffer) :
    replaceRanges edits.reverse b =
      .ok () { b with text := (⟨edits⟩ : TextTransaction).replaced b.text } := by
  have happend : ∀ (xs : List TextEdit) (edit : TextEdit) (b : DocumentBuffer),
      replaceRanges (xs ++ [edit]) b =
        (do replaceRanges xs; replaceRange edit : BufferM Unit) b := by
    intro xs edit
    induction xs with
    | nil => intro b; rfl
    | cons x xs ih =>
      intro b
      exact ih _
  induction edits with
  | nil => rfl
  | cons edit edits ih =>
    rw [List.reverse_cons, happend, bind_of_ok ih]
    rfl

/-- The buffer is changed in place exactly as `apply` says, and not at all on an error. -/
theorem applyInPlace_eq (tx : TextTransaction) (limits : DocumentLimits) (b : DocumentBuffer) :
    applyInPlace tx limits b =
      match b.apply tx limits with
      | .ok (applied, b') => .ok applied b'
      | .error e => .error e b := by
  rw [applyInPlace, get_bind, apply]
  cases tx.validate b.text limits with
  | error e => rfl
  | ok u =>
    rw [bind_of_ok (show orFail (.ok u) b = .ok u b from rfl)]
    by_cases hedits : tx.edits = []
    · rw [if_pos hedits, if_pos (by rw [hedits]; rfl)]
      rfl
    · rw [if_neg hedits, if_neg (by simpa using hedits), checkedNext]
      by_cases hrevision : maxRevision ≤ b.revision
      · rw [if_pos hrevision, if_pos hrevision]
        rfl
      · rw [if_neg hrevision, if_neg hrevision]
        rw [bind_of_ok (show orFail (.ok (b.revision + 1)) b = .ok (b.revision + 1) b from rfl)]
        cases inverseEdits b.text 0 tx.edits with
        | error e => rfl
        | ok inverse =>
          rw [bind_of_ok (show orFail (.ok inverse) b = .ok inverse b from rfl),
            bind_of_ok (replaceRanges_reverse tx.edits b)]
          rfl

end DocumentBuffer

/-! ### Hunks of a transaction -/

namespace TextTransaction

variable {limits : DocumentLimits} {text : Rope} {tx : TextTransaction}

theorem fits_of_validateEdits {edits : List TextEdit} {index priorEnd : ℕ}
    (h : validateEdits text index priorEnd edits = .ok ()) (hprior : index = 0 → priorEnd = 0) :
    Fits text priorEnd (edits.map replacement) := by
  induction edits generalizing index priorEnd with
  | nil => trivial
  | cons edit edits ih =>
    obtain ⟨hrange, hstart, hstop, hle, hrest⟩ := validateEdits_cons h
    refine ⟨?_, hrange, hstart, hstop, ih hrest (by omega)⟩
    by_cases hindex : index = 0
    · rw [hprior hindex]
      exact Nat.zero_le _
    · exact hle (by omega)

theorem validateEdits_of_fits {edits : List TextEdit} {index priorEnd : ℕ}
    (h : Fits text priorEnd (edits.map replacement)) :
    validateEdits text index priorEnd edits = .ok () := by
  induction edits generalizing index priorEnd with
  | nil => rfl
  | cons edit edits ih =>
    obtain ⟨hpos, hrange, hstart, hstop, hrest⟩ := h
    simp only [replacement] at hpos hrange hstart hstop hrest
    obtain ⟨upTo, behind, htext, hlen⟩ := exists_append_of_isCharBoundary hstop
    have hbound : edit.range.stop ≤ byteLen text := by
      rw [htext, byteLen_append]
      omega
    rw [validateEdits, if_neg (by omega), if_neg (by omega), if_neg (by simp [hstart, hstop]),
      if_neg (by simp; omega)]
    exact ih hrest

theorem replaced_eq (edits : List TextEdit) (text : Rope) :
    (⟨edits⟩ : TextTransaction).replaced text =
      replaceFromLast (edits.map replacement) text := by
  rw [replaceFromLast, List.foldr_map]
  rfl

/-- The inverse edits exchange the old and the new parts. -/
theorem inverseEdits_hunks {edits : List TextEdit} {hs : List Hunk}
    (tail done done' : List Char)
    (hedits : edits.map replacement = replacements (byteLen done) hs) :
    ∃ inverse, inverseEdits (done ++ before tail hs) (byteLen done' - byteLen done) edits =
        .ok inverse ∧
      inverse.map replacement =
        replacements (byteLen done') (hs.map swap) := by
  induction edits generalizing hs done done' with
  | nil =>
    cases hs with
    | nil => exact ⟨[], rfl, rfl⟩
    | cons h hs => simp [replacements] at hedits
  | cons edit edits ih =>
    cases hs with
    | nil => simp [replacements] at hedits
    | cons h hs =>
      rw [List.map_cons, replacements, List.cons.injEq] at hedits
      obtain ⟨hfirst, hrest⟩ := hedits
      obtain ⟨hstart, hstop, hinsert⟩ : edit.range.start = byteLen done + byteLen h.kept ∧
          edit.range.stop = byteLen done + byteLen h.kept + byteLen h.old ∧
          edit.insert = h.new := by
        simpa [replacement] using hfirst
      have hdone : byteLen (done ++ h.kept ++ h.old) =
          byteLen done + byteLen h.kept + byteLen h.old := by
        rw [byteLen_append, byteLen_append]
      have hdone' : byteLen (done' ++ h.kept ++ h.new) =
          byteLen done' + byteLen h.kept + byteLen h.new := by
        rw [byteLen_append, byteLen_append]
      obtain ⟨inverse, hinverse, hmap⟩ :=
        ih (done ++ h.kept ++ h.old) (done' ++ h.kept ++ h.new) (by rw [hrest, hdone])
      have htext : done ++ before tail (h :: hs) =
          done ++ h.kept ++ h.old ++ before tail hs := by simp [before]
      have hpost : (edit.range.start : ℤ) + (byteLen done' - byteLen done) =
          (byteLen done' + byteLen h.kept : ℕ) := by
        omega
      have hshift : (byteLen done' - byteLen done : ℤ) +
          (byteLen h.new - (edit.range.stop - edit.range.start : ℕ)) =
            byteLen (done' ++ h.kept ++ h.new) - byteLen (done ++ h.kept ++ h.old) := by
        omega
      have hremoved : dropBytes edit.range.start (takeBytes edit.range.stop
          (done ++ h.kept ++ h.old ++ before tail hs)) = h.old := by
        rw [hstart, hstop, ← hdone, takeBytes_byteLen_append, ← byteLen_append,
          dropBytes_byteLen_append]
      refine ⟨⟨⟨byteLen done' + byteLen h.kept, byteLen done' + byteLen h.kept +
        byteLen h.new⟩, h.old⟩ :: inverse, ?_, ?_⟩
      · rw [inverseEdits, hpost, if_neg (by omega), htext]
        simp only [hshift, hinverse, hremoved, Int.toNat_natCast, hinsert]
      · rw [List.map_cons, hmap, hdone']
        rfl

/-- The hunks of a transaction that is accepted. -/
theorem exists_hunks_of_validate (h : tx.validate text limits = .ok ()) :
    ∃ hs tail, text = before tail hs ∧
      tx.edits.map replacement = replacements 0 hs :=
  exists_hunks [] (fits_of_validateEdits (validate_eq_ok h).2.2.1 fun _ => rfl)

theorem inserted_eq (tx : TextTransaction) : tx.inserted =
    ((tx.edits.map replacement).map fun r => byteLen r.insert).sum := by
  rw [List.map_map]
  rfl

theorem removed_eq (tx : TextTransaction) : tx.removed =
    ((tx.edits.map replacement).map fun r => r.stop - r.start).sum := by
  rw [List.map_map]
  rfl

/-- The text that the transaction means: all edits at once, at their places in the old text. -/
def simultaneous (tx : TextTransaction) (text : Rope) : Rope :=
  replaceAtOnce text 0 (tx.edits.map replacement)

theorem replaced_eq_simultaneous (h : tx.validate text limits = .ok ()) :
    tx.replaced text = tx.simultaneous text :=
  (replaced_eq tx.edits text).trans
    (replaceFromLast_eq (fits_of_validateEdits (validate_eq_ok h).2.2.1 fun _ => rfl))

/-- The transaction's inverse leads back, and inserts what the transaction removes. -/
theorem exists_inverse (h : tx.validate text limits = .ok ()) :
    ∃ inverse, inverseEdits text 0 tx.edits = .ok inverse ∧
      inverse.length = tx.edits.length ∧
      (⟨inverse⟩ : TextTransaction).inserted = tx.removed ∧
      (⟨inverse⟩ : TextTransaction).removed = tx.inserted ∧
      validateEdits (tx.replaced text) 0 0 inverse = .ok () ∧
      (⟨inverse⟩ : TextTransaction).replaced (tx.replaced text) = text := by
  obtain ⟨hs, tail, rfl, hmap⟩ := exists_hunks_of_validate h
  obtain ⟨inverse, hinverse, hback⟩ := inverseEdits_hunks tail [] [] hmap
  have hnext : tx.replaced (before tail hs) = after tail hs := by
    rw [replaced_eq tx.edits, hmap]
    exact replaceFromLast_replacements []
  rw [hnext]
  refine ⟨inverse, hinverse, ?_, ?_, ?_, ?_, ?_⟩
  · have hlength := congrArg List.length hback
    have hlength' := congrArg List.length hmap
    rw [List.length_map, length_replacements, List.length_map] at hlength
    rw [List.length_map, length_replacements] at hlength'
    omega
  · rw [inserted_eq, removed_eq, hback, hmap]
    exact sum_insert_swap 0 0
  · rw [inserted_eq, removed_eq, hback, hmap]
    exact sum_removed_swap 0 0
  · refine validateEdits_of_fits ?_
    rw [hback, ← before_swap]
    exact fits_replacements []
  · rw [replaced_eq, hback, ← before_swap tail hs]
    refine (replaceFromLast_replacements []).trans ?_
    rw [List.nil_append, after_swap]

end TextTransaction

namespace DocumentBuffer

/-- What applying a transaction that is accepted has to do. -/
structure AppliesExactly (b : DocumentBuffer) (tx : TextTransaction) (applied : AppliedTransaction)
    (b' : DocumentBuffer) : Prop where
  text : b'.text = tx.simultaneous b.text
  counted : b'.revision = if tx.edits = [] then b.revision else b.revision + 1
  snapshot : applied.snapshot = b'.snapshot
  revision : applied.revision = b'.revision
  /-- the inverse meets the limits that the two texts and the removed text meet -/
  accepted : ∀ limits : DocumentLimits, applied.inverse.validate b'.text limits = .ok () ↔
    tx.edits.length ≤ limits.maxEdits ∧ byteLen b.text ≤ limits.maxDocumentBytes ∧
      byteLen b'.text ≤ limits.maxDocumentBytes ∧ tx.removed ≤ limits.maxInsertedBytes
  undone : ∀ (limits : DocumentLimits) (undo : AppliedTransaction) (b'' : DocumentBuffer),
    applyInPlace applied.inverse limits b' = .ok undo b'' → b''.text = b.text

variable {b : DocumentBuffer} {tx : TextTransaction} {limits : DocumentLimits}

/-- The result on an accepted transaction is built from its text and its inverse. -/
theorem apply_of_validate (h : tx.validate b.text limits = .ok ())
    (hrevision : tx.edits = [] ∨ b.revision < maxRevision) {inverse : List TextEdit}
    (hinverse : inverseEdits b.text 0 tx.edits = .ok inverse) :
    let b' : DocumentBuffer :=
      ⟨tx.replaced b.text, if tx.edits = [] then b.revision else b.revision + 1⟩
    b.apply tx limits = .ok (⟨b'.revision, b'.snapshot, ⟨inverse⟩⟩, b') := by
  rw [apply, h]
  by_cases hedits : tx.edits = []
  · rw [hedits] at hinverse
    cases hinverse
    simp [hedits, replaced]
  · have hlt : ¬maxRevision ≤ b.revision := not_le.mpr (hrevision.resolve_left hedits)
    simp [hedits, hlt, hinverse]

theorem text_of_applyInPlace {applied : AppliedTransaction} {b' : DocumentBuffer}
    (h : applyInPlace tx limits b = .ok applied b') : b'.text = tx.replaced b.text := by
  rw [applyInPlace_eq] at h
  cases happly : b.apply tx limits with
  | error e =>
    rw [happly] at h
    cases h
  | ok result =>
    rw [happly] at h
    obtain ⟨-, rfl⟩ := EStateM.Result.ok.inj h
    by_cases hedits : tx.edits = []
    · rw [apply] at happly
      split at happly
      · cases happly
      · rw [if_pos hedits] at happly
        cases happly
        simp [replaced, hedits]
    · exact (applyTo_eq_ok (apply_eq_ok hedits happly).1).2

theorem appliesExactly (h : tx.validate b.text limits = .ok ()) {inverse : List TextEdit}
    (hinverse : inverseEdits b.text 0 tx.edits = .ok inverse) :
    let b' : DocumentBuffer :=
      ⟨tx.replaced b.text, if tx.edits = [] then b.revision else b.revision + 1⟩
    AppliesExactly b tx ⟨b'.revision, b'.snapshot, ⟨inverse⟩⟩ b' := by
  obtain ⟨inverse', heq, hlength, hinserted, hremoved, hedits, hback⟩ :=
    exists_inverse h
  obtain rfl : inverse = inverse' := Except.ok.inj (hinverse.symm.trans heq)
  have hsize := byteLen_replaced h
  have hfits : tx.removed ≤ byteLen b.text := (validate_eq_ok h).2.2.2.2.1
  refine ⟨replaced_eq_simultaneous h, rfl, rfl, rfl, fun limits' => ?_,
    fun limits' undo b'' hundo => ?_⟩
  · constructor
    · intro hvalid
      obtain ⟨hcount, hdoc, -, hinsert, -, hfinal⟩ := validate_eq_ok hvalid
      simp only [hlength, hinserted] at hcount hdoc hinsert hfinal
      exact ⟨hcount, by omega, hdoc, hinsert⟩
    · rintro ⟨hcount, hold, hnew, hinsert⟩
      refine validate_of_checks (hlength.le.trans hcount) hnew hedits
        (hinserted.le.trans hinsert) ?_ ?_
      · simp only [hremoved]
        omega
      · simp only [hremoved]
        omega
  · exact (text_of_applyInPlace hundo).trans hback

/-- A transaction is refused, or the revisions are used up, or it is applied. -/
theorem applyInPlace_cases (b : DocumentBuffer) (tx : TextTransaction)
    (limits : DocumentLimits) :
    (∃ e, tx.validate b.text limits = .error e ∧ applyInPlace tx limits b = .error e b) ∨
    (tx.edits ≠ [] ∧ maxRevision ≤ b.revision ∧
      applyInPlace tx limits b = .error .revisionExhausted b) ∨
    ∃ applied b', applyInPlace tx limits b = .ok applied b' ∧
      AppliesExactly b tx applied b' := by
  rw [applyInPlace_eq]
  cases hvalid : tx.validate b.text limits with
  | error e => exact .inl ⟨e, rfl, by rw [apply, hvalid]⟩
  | ok u =>
    right
    obtain ⟨inverse, hinverse, -⟩ := exists_inverse hvalid
    by_cases hrevision : tx.edits = [] ∨ b.revision < maxRevision
    · right
      rw [apply_of_validate hvalid hrevision hinverse]
      exact ⟨_, _, rfl, appliesExactly hvalid hinverse⟩
    · obtain ⟨hedits, hfull⟩ := not_or.mp hrevision
      rw [apply, hvalid]
      simp [hedits, not_lt.mp hfull]

/-- A transaction that is accepted is applied as a whole unless the revisions are used up, one
that fails changes nothing, and the limits decide whether the inverse is accepted. -/
theorem applyInPlace_exact (b : DocumentBuffer) (tx : TextTransaction)
    (limits : DocumentLimits) :
    (∀ applied b', applyInPlace tx limits b = .ok applied b' → AppliesExactly b tx applied b') ∧
    (∀ e b', applyInPlace tx limits b = .error e b' → b' = b) ∧
    (tx.validate b.text limits = .ok () →
      (∃ applied b', applyInPlace tx limits b = .ok applied b') ∨
      tx.edits ≠ [] ∧ maxRevision ≤ b.revision ∧
        applyInPlace tx limits b = .error .revisionExhausted b) := by
  rcases applyInPlace_cases b tx limits with
    ⟨e, hvalid, hrun⟩ | ⟨hedits, hfull, hrun⟩ | ⟨applied, b', hrun, hexact⟩
  · simp only [hrun, hvalid]
    exact ⟨by simp, fun e' b' h => (EStateM.Result.error.inj h).2.symm, by simp⟩
  · simp only [hrun]
    exact ⟨by simp, fun e' b' h => (EStateM.Result.error.inj h).2.symm,
      fun _ => .inr ⟨hedits, hfull, trivial⟩⟩
  · simp only [hrun]
    refine ⟨fun applied' after h => ?_, by simp, fun _ => .inl ⟨applied, b', rfl⟩⟩
    obtain ⟨rfl, rfl⟩ := EStateM.Result.ok.inj h
    exact hexact

/-- Taking back a removal inserts what was removed, which the limits may not allow. -/
theorem inverse_refused :
    ¬∀ (b : DocumentBuffer) (tx : TextTransaction) (limits : DocumentLimits),
      tx.validate b.text limits = .ok () →
      ∃ applied b', applyInPlace tx limits b = .ok applied b' ∧
        applied.inverse.validate b'.text limits = .ok () := by
  intro h
  obtain ⟨applied, b', happly, hvalid⟩ :=
    h (new ['a']) ⟨[⟨⟨0, 1⟩, []⟩]⟩ ⟨1, 1, 0⟩ (by decide)
  have hresult : applyInPlace ⟨[⟨⟨0, 1⟩, []⟩]⟩ ⟨1, 1, 0⟩ (new ['a']) =
      .ok ⟨1, ⟨[], 1⟩, ⟨[⟨⟨0, 0⟩, ['a']⟩]⟩⟩ ⟨[], 1⟩ := by rfl
  obtain ⟨rfl, rfl⟩ := EStateM.Result.ok.inj (hresult.symm.trans happly)
  exact absurd hvalid (by decide)

end DocumentBuffer

end Codegg.Documents
