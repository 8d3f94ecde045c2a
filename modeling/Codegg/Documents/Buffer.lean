import Codegg.Library.ByteText

/-!
# Document buffers

A buffer holds text and a revision. A transaction is a list of byte ranges of the text
before it, sorted and disjoint, each with the text that replaces it; it is checked as a
whole and then applied from its last edit to its first, so that the ranges stay valid.
-/
namespace Codegg.Documents

open Codegg.Library

/-- Text of a document, character by character; offsets count UTF-8 bytes. -/
abbrev Rope := List Char

inductive DocumentError where
  | reversedRange
  | outOfBounds
  | invalidBoundary
  | overlappingEdits
  | tooManyEdits
  | tooMuchInsertedText
  | documentTooLarge
  | revisionExhausted
  | invalidPosition
  deriving Repr, DecidableEq

structure DocumentLimits where
  maxDocumentBytes : ℕ
  maxEdits : ℕ
  maxInsertedBytes : ℕ
  deriving Repr, DecidableEq

structure TextRange where
  start : ℕ
  stop : ℕ
  deriving Repr, DecidableEq

structure TextEdit where
  range : TextRange
  insert : Rope
  deriving Repr, DecidableEq

structure TextTransaction where
  edits : List TextEdit
  deriving Repr, DecidableEq

namespace TextTransaction

/-- One insertion of text at a byte offset. -/
def insertAt (offset : ℕ) (insert : Rope) : TextTransaction :=
  ⟨[{ range := { start := offset, stop := offset }, insert := insert }]⟩

def inserted (tx : TextTransaction) : ℕ := (tx.edits.map fun e => byteLen e.insert).sum

def removed (tx : TextTransaction) : ℕ := (tx.edits.map fun e => e.range.stop - e.range.start).sum

def validateEdits (text : Rope) : ℕ → ℕ → List TextEdit → Except DocumentError Unit
  | _, _, [] => .ok ()
  | index, priorEnd, edit :: edits =>
    if edit.range.stop < edit.range.start then .error .reversedRange
    else if byteLen text < edit.range.stop then .error .outOfBounds
    else if !isCharBoundary edit.range.start text || !isCharBoundary edit.range.stop text then
      .error .invalidBoundary
    else if 0 < index && edit.range.start < priorEnd then .error .overlappingEdits
    else validateEdits text (index + 1) edit.range.stop edits

def validate (tx : TextTransaction) (text : Rope) (limits : DocumentLimits) :
    Except DocumentError Unit :=
  if limits.maxEdits < tx.edits.length then .error .tooManyEdits
  else if limits.maxDocumentBytes < byteLen text then .error .documentTooLarge
  else
    match validateEdits text 0 0 tx.edits with
    | .error e => .error e
    | .ok () =>
      if limits.maxInsertedBytes < tx.inserted then .error .tooMuchInsertedText
      else if byteLen text < tx.removed then .error .documentTooLarge
      else if limits.maxDocumentBytes < byteLen text - tx.removed + tx.inserted then
        .error .documentTooLarge
      else .ok ()

/-- The edits applied from the last to the first. -/
def replaced (tx : TextTransaction) (text : Rope) : Rope :=
  tx.edits.foldr (fun edit t => replaceBytes t edit.range.start edit.range.stop edit.insert) text

/-- The edits that take the new text back, with `shift` the growth so far. -/
def inverseEdits (before : Rope) : ℤ → List TextEdit → Except DocumentError (List TextEdit)
  | _, [] => .ok []
  | shift, edit :: edits =>
    if (edit.range.start : ℤ) + shift < 0 then .error .outOfBounds
    else
      let postStart := ((edit.range.start : ℤ) + shift).toNat
      let removed := dropBytes edit.range.start (takeBytes edit.range.stop before)
      let back : TextEdit :=
        { range := { start := postStart, stop := postStart + byteLen edit.insert }
          insert := removed }
      let delta : ℤ := byteLen edit.insert - (edit.range.stop - edit.range.start : ℕ)
      match inverseEdits before (shift + delta) edits with
      | .error e => .error e
      | .ok rest => .ok (back :: rest)

/-- The text a checked transaction leads to. -/
def applyTo (tx : TextTransaction) (limits : DocumentLimits) (text : Rope) :
    Except DocumentError Rope :=
  match tx.validate text limits with
  | .error e => .error e
  | .ok () => .ok (tx.replaced text)

/-- The transactions applied one after another. -/
def applyAll (limits : DocumentLimits) : Rope → List TextTransaction → Except DocumentError Rope
  | text, [] => .ok text
  | text, tx :: txs =>
    match tx.applyTo limits text with
    | .error e => .error e
    | .ok next => applyAll limits next txs

end TextTransaction

structure DocumentSnapshot where
  text : Rope
  revision : ℕ
  deriving Repr, DecidableEq

structure AppliedTransaction where
  revision : ℕ
  snapshot : DocumentSnapshot
  inverse : TextTransaction
  deriving Repr, DecidableEq

structure DocumentBuffer where
  text : Rope
  revision : ℕ
  deriving Repr, DecidableEq

namespace DocumentBuffer

/-- The greatest revision, `u64::MAX`. -/
def maxRevision : ℕ := 2 ^ 64 - 1

def new (text : Rope) : DocumentBuffer := { text := text, revision := 0 }

def snapshot (b : DocumentBuffer) : DocumentSnapshot := { text := b.text, revision := b.revision }

def replaceText (b : DocumentBuffer) (text : Rope) : Except DocumentError DocumentBuffer :=
  if maxRevision ≤ b.revision then .error .revisionExhausted
  else .ok { text := text, revision := b.revision + 1 }

def apply (b : DocumentBuffer) (tx : TextTransaction) (limits : DocumentLimits) :
    Except DocumentError (AppliedTransaction × DocumentBuffer) :=
  match tx.validate b.text limits with
  | .error e => .error e
  | .ok () =>
    if tx.edits = [] then
      .ok ({ revision := b.revision, snapshot := b.snapshot, inverse := ⟨[]⟩ }, b)
    else if maxRevision ≤ b.revision then .error .revisionExhausted
    else
      match TextTransaction.inverseEdits b.text 0 tx.edits with
      | .error e => .error e
      | .ok inverse =>
        let next : DocumentBuffer := { text := tx.replaced b.text, revision := b.revision + 1 }
        .ok ({ revision := next.revision, snapshot := next.snapshot, inverse := ⟨inverse⟩ }, next)

end DocumentBuffer

namespace TextTransaction

variable {limits : DocumentLimits} {text next : Rope} {tx : TextTransaction}

theorem applyTo_eq_ok (h : tx.applyTo limits text = .ok next) :
    tx.validate text limits = .ok () ∧ next = tx.replaced text := by
  rw [applyTo] at h
  split at h
  · cases h
  · next hvalid =>
    injection h with h
    exact ⟨hvalid, h.symm⟩

theorem applyTo_of_validate (h : tx.validate text limits = .ok ()) :
    tx.applyTo limits text = .ok (tx.replaced text) := by
  rw [applyTo, h]

/-- What the check of a transaction passes on. -/
theorem validate_eq_ok (h : tx.validate text limits = .ok ()) :
    tx.edits.length ≤ limits.maxEdits ∧ byteLen text ≤ limits.maxDocumentBytes ∧
      validateEdits text 0 0 tx.edits = .ok () ∧ tx.inserted ≤ limits.maxInsertedBytes ∧
      tx.removed ≤ byteLen text ∧
      byteLen text - tx.removed + tx.inserted ≤ limits.maxDocumentBytes := by
  rw [validate] at h
  split at h
  · cases h
  · split at h
    · cases h
    · split at h
      · cases h
      · next hedits =>
        split at h
        · cases h
        · split at h
          · cases h
          · split at h
            · cases h
            · exact ⟨by omega, by omega, hedits, by omega, by omega, by omega⟩

theorem validate_of_checks (hcount : tx.edits.length ≤ limits.maxEdits)
    (hsize : byteLen text ≤ limits.maxDocumentBytes)
    (hedits : validateEdits text 0 0 tx.edits = .ok ())
    (hinserted : tx.inserted ≤ limits.maxInsertedBytes) (hremoved : tx.removed ≤ byteLen text)
    (hfinal : byteLen text - tx.removed + tx.inserted ≤ limits.maxDocumentBytes) :
    tx.validate text limits = .ok () := by
  rw [validate, if_neg (by omega), if_neg (by omega), hedits]
  rw [if_neg (by omega), if_neg (by omega), if_neg (by omega)]

/-- A transaction that may insert so much may insert more. -/
theorem applyTo_mono {room : ℕ} (hroom : limits.maxInsertedBytes ≤ room)
    (h : tx.applyTo limits text = .ok next) :
    tx.applyTo { limits with maxInsertedBytes := room } text = .ok next := by
  obtain ⟨hvalid, rfl⟩ := applyTo_eq_ok h
  obtain ⟨hcount, hsize, hedits, hinserted, hremoved, hfinal⟩ := validate_eq_ok hvalid
  exact applyTo_of_validate
    (validate_of_checks hcount hsize hedits (hinserted.trans hroom) hremoved hfinal)

/-- What the check of one edit passes on to the edits after it. -/
theorem validateEdits_cons {index priorEnd : ℕ} {edit : TextEdit} {edits : List TextEdit}
    (h : validateEdits text index priorEnd (edit :: edits) = .ok ()) :
    edit.range.start ≤ edit.range.stop ∧ isCharBoundary edit.range.start text = true ∧
      isCharBoundary edit.range.stop text = true ∧ (0 < index → priorEnd ≤ edit.range.start) ∧
      validateEdits text (index + 1) edit.range.stop edits = .ok () := by
  rw [validateEdits] at h
  split at h
  · cases h
  · split at h
    · cases h
    · split at h
      · cases h
      · next hboundary =>
        split at h
        · cases h
        · next hoverlap =>
          simp only [Bool.or_eq_true, Bool.not_eq_true', not_or, Bool.not_eq_false] at hboundary
          simp only [Bool.and_eq_true, decide_eq_true_eq, not_and, not_lt] at hoverlap
          exact ⟨by omega, hboundary.1, hboundary.2, hoverlap, h⟩

/-- Edits that start behind a part of the text leave it as it is, and change the size of the rest
by what they insert and remove. -/
theorem foldr_replaceBytes {edits : List TextEdit} {index priorEnd : ℕ} {before after : Rope}
    (htext : text = before ++ after) (hvalid : validateEdits text index priorEnd edits = .ok ())
    (hbefore : before = [] ∨ 0 < index ∧ byteLen before = priorEnd) :
    ∃ rest, edits.foldr (fun edit t =>
        replaceBytes t edit.range.start edit.range.stop edit.insert) text = before ++ rest ∧
      byteLen rest + (edits.map fun e => e.range.stop - e.range.start).sum =
        byteLen after + (edits.map fun e => byteLen e.insert).sum := by
  induction edits generalizing index priorEnd before after with
  | nil => exact ⟨after, by simp [htext], by simp⟩
  | cons edit edits ih =>
    obtain ⟨hrange, hstart, hstop, hprior, hrest⟩ := validateEdits_cons hvalid
    obtain ⟨upTo, behind, hcutStop, hstopLen⟩ := exists_append_of_isCharBoundary hstop
    obtain ⟨left, right, hcutStart, hstartLen⟩ := exists_append_of_isCharBoundary hstart
    obtain ⟨mid, hmid, -⟩ := exists_append_of_byteLen_le (hcutStart.symm.trans hcutStop)
      (by omega)
    have hle : byteLen before ≤ byteLen left := by
      rcases hbefore with rfl | ⟨hindex, hlen⟩
      · simp
      · omega
    obtain ⟨gap, hgap, -⟩ := exists_append_of_byteLen_le (htext.symm.trans hcutStart) hle
    obtain ⟨rest, hfold, hlen⟩ := ih hcutStop hrest (Or.inr ⟨Nat.succ_pos index, hstopLen.symm⟩)
    refine ⟨gap ++ edit.insert ++ rest, ?_, ?_⟩
    · rw [List.foldr_cons, hfold, hstartLen, hstopLen, hmid, replaceBytes_append_append, hgap]
      simp
    · have hsize := congrArg byteLen (htext.symm.trans hcutStop)
      rw [hgap] at hstartLen
      simp only [byteLen_append, List.map_cons, List.sum_cons] at hsize hstartLen hstopLen ⊢
      omega

/-- The size of the new text, as the check computes it. -/
theorem byteLen_replaced (h : tx.validate text limits = .ok ()) :
    byteLen (tx.replaced text) = byteLen text - tx.removed + tx.inserted := by
  obtain ⟨-, -, hedits, -, hremoved, -⟩ := validate_eq_ok h
  obtain ⟨rest, hfold, hlen⟩ := foldr_replaceBytes (List.nil_append text).symm hedits (Or.inl rfl)
  rw [List.nil_append] at hfold
  rw [replaced, hfold, removed, inserted]
  rw [removed] at hremoved
  omega

/-- A transaction that is accepted leaves a text within the limit. -/
theorem byteLen_le_of_applyTo (h : tx.applyTo limits text = .ok next) :
    byteLen next ≤ limits.maxDocumentBytes := by
  obtain ⟨hvalid, rfl⟩ := applyTo_eq_ok h
  rw [byteLen_replaced hvalid]
  exact (validate_eq_ok hvalid).2.2.2.2.2

theorem validateEdits_insertAt {offset : ℕ} {insert : Rope} :
    validateEdits text 0 0 (insertAt offset insert).edits = .ok () ↔
      offset ≤ byteLen text ∧ isCharBoundary offset text = true := by
  simp only [insertAt, validateEdits, Nat.lt_irrefl, if_false]
  split
  · next h => simp; omega
  · next h =>
    cases hboundary : isCharBoundary offset text with
    | false => simp
    | true => simp; omega

theorem inserted_insertAt (offset : ℕ) (insert : Rope) :
    (insertAt offset insert).inserted = byteLen insert := by
  simp [insertAt, inserted]

theorem removed_insertAt (offset : ℕ) (insert : Rope) : (insertAt offset insert).removed = 0 := by
  simp [insertAt, removed]

theorem replaced_insertAt (before after insert : Rope) :
    (insertAt (byteLen before) insert).replaced (before ++ after) = before ++ insert ++ after :=
  replaceBytes_append before after insert

/-- An accepted insertion splits the text at its offset. -/
theorem exists_split_of_insertAt {offset : ℕ} {insert : Rope}
    (h : (insertAt offset insert).applyTo limits text = .ok next) :
    ∃ before after, text = before ++ after ∧ offset = byteLen before ∧
      next = before ++ insert ++ after := by
  obtain ⟨hvalid, hnext⟩ := applyTo_eq_ok h
  obtain ⟨-, -, hedits, -⟩ := validate_eq_ok hvalid
  obtain ⟨before, after, htext, hoffset⟩ :=
    exists_append_of_isCharBoundary (validateEdits_insertAt.mp hedits).2
  subst htext hoffset
  exact ⟨before, after, rfl, rfl, by rw [hnext, replaced_insertAt]⟩

/-- Two insertions of which the second starts where the first ends are one insertion of both
texts, when that is not more text than one transaction may insert. -/
theorem applyTo_insertAt_append {offset : ℕ} {first second last : Rope}
    (hfirst : (insertAt offset first).applyTo limits text = .ok next)
    (hsecond : (insertAt (offset + byteLen first) second).applyTo limits next = .ok last)
    (hfits : byteLen (first ++ second) ≤ limits.maxInsertedBytes) :
    (insertAt offset (first ++ second)).applyTo limits text = .ok last := by
  obtain ⟨before, after, rfl, rfl, rfl⟩ := exists_split_of_insertAt hfirst
  obtain ⟨hcount, hsize, hedits, -⟩ := validate_eq_ok (applyTo_eq_ok hfirst).1
  obtain ⟨hvalid, rfl⟩ := applyTo_eq_ok hsecond
  obtain ⟨-, -, -, -, -, hfinal⟩ := validate_eq_ok hvalid
  have hreplaced : (insertAt (byteLen before + byteLen first) second).replaced
      (before ++ first ++ after) = before ++ first ++ second ++ after := by
    rw [← byteLen_append]
    exact replaced_insertAt (before ++ first) after second
  have hmerged : (insertAt (byteLen before) (first ++ second)).validate (before ++ after) limits =
      .ok () := by
    refine validate_of_checks hcount hsize
      (validateEdits_insertAt.mpr (validateEdits_insertAt.mp hedits)) ?_ ?_ ?_
    · exact hfits
    · rw [removed_insertAt]
      omega
    · simp only [inserted_insertAt, removed_insertAt, byteLen_append] at hfinal ⊢
      omega
  rw [applyTo_of_validate hmerged, replaced_insertAt, hreplaced]
  simp

end TextTransaction

namespace DocumentBuffer

/-- A transaction with edits that a buffer accepts leads to the transaction's text and the next
revision. -/
theorem apply_eq_ok {b b' : DocumentBuffer} {tx : TextTransaction} {limits : DocumentLimits}
    {applied : AppliedTransaction} (hedits : tx.edits ≠ [])
    (h : b.apply tx limits = .ok (applied, b')) :
    tx.applyTo limits b.text = .ok b'.text ∧ b'.revision = b.revision + 1 ∧
      applied.snapshot = b'.snapshot ∧ applied.revision = b'.revision := by
  rw [apply] at h
  split at h
  · cases h
  · next hvalid =>
    rw [if_neg hedits] at h
    split at h
    · cases h
    · split at h
      · cases h
      · injection h with h
        injection h with happlied hb
        subst happlied hb
        exact ⟨TextTransaction.applyTo_of_validate hvalid, rfl, rfl, rfl⟩

/-- What a buffer is after a transaction it accepts, with or without edits. -/
theorem apply_cases {b b' : DocumentBuffer} {tx : TextTransaction} {limits : DocumentLimits}
    {applied : AppliedTransaction} (h : b.apply tx limits = .ok (applied, b')) :
    byteLen b'.text = byteLen b.text - tx.removed + tx.inserted ∧
      byteLen b'.text ≤ limits.maxDocumentBytes ∧
      ((b' = b ∧ applied.revision = b.revision) ∨
        (b'.revision = b.revision + 1 ∧ applied.revision = b'.revision)) := by
  have hvalid : tx.validate b.text limits = .ok () := by
    rw [apply] at h
    cases hv : tx.validate b.text limits with
    | error e =>
      rw [hv] at h
      cases h
    | ok u => rfl
  by_cases hedits : tx.edits = []
  · rw [apply, hvalid] at h
    simp only [hedits] at h
    cases h
    refine ⟨by simp [TextTransaction.removed, TextTransaction.inserted, hedits], ?_,
      Or.inl ⟨rfl, rfl⟩⟩
    exact (TextTransaction.validate_eq_ok hvalid).2.1
  · obtain ⟨htext, hrevision, -, happlied⟩ := apply_eq_ok hedits h
    refine ⟨?_, TextTransaction.byteLen_le_of_applyTo htext, Or.inr ⟨hrevision, happlied⟩⟩
    rw [(TextTransaction.applyTo_eq_ok htext).2, TextTransaction.byteLen_replaced hvalid]

end DocumentBuffer

end Codegg.Documents
