import Codegg.Documents.Replica
import Codegg.Documents.Transactions

/-!
# What the daemon accepts of the queue

Every local edit is checked against the limits of one change. An insertion that continues
the last pending change is merged into it, and the merged change is not checked again. As
long as merged insertions fit into one change, every pending change is within the limits and
applies to the text it was made against, whatever happens on the network; the first one that
does not fit leaves a change that the daemon refuses.
-/
namespace Codegg.Documents

open Codegg.Library TextTransaction DocumentBuffer

/-- The change leads from the text it was made against to its result, within the limits. -/
structure PendingChange.Made (p : PendingChange) : Prop where
  dto : p.dto = p.transaction
  applies : p.transaction.applyTo protocolLimits p.baseSnapshot.text =
    .ok p.resultingSnapshot.text

/-- The other documents leave room for the document as the change makes it. -/
def LeavesRoom (turn : DaemonTurn) (doc : OpenDocument) (tx : TextTransaction) : Prop :=
  (doc.dirty = true ∨ turn.others.dirtyCount < maxDirtyOrphans) ∧
    turn.others.residentBytes + (byteLen doc.buffer.text - tx.removed + tx.inserted) ≤
      maxResidentBytes

/-- The change is within the limits of one change, and the daemon does not refuse it for its
size or its edits on the document that it was made against. -/
structure PendingChange.Sendable (p : PendingChange) : Prop where
  edits : p.dto.edits.length ≤ maxDocumentEdits
  inserted : p.dto.inserted ≤ maxDocumentInsertBytes
  accepted : ∀ (dg : Digests) (turn : DaemonTurn) (doc : OpenDocument) (client : String)
    (r : ChangeRequest), r.transaction = p.dto → r.baseRevision = p.baseRevision →
    doc.buffer = ⟨p.baseSnapshot.text, p.baseRevision⟩ →
    p.baseRevision < maxRevision → LeavesRoom turn doc p.dto →
    doc.change dg turn client r ≠ .error .resourceLimit ∧
      ∀ e, doc.change dg turn client r ≠ .error (.text e)

theorem PendingChange.Made.sendable {p : PendingChange} (h : p.Made) : p.Sendable := by
  obtain ⟨hdto, happlies⟩ := h
  obtain ⟨hvalid, -⟩ := applyTo_eq_ok happlies
  obtain ⟨hedits, -, -, hinserted, -⟩ := validate_eq_ok hvalid
  refine ⟨hdto ▸ hedits, hdto ▸ hinserted, ?_⟩
  intro dg turn doc client r htx hbase hbuffer hrevision hroom
  obtain ⟨inverse, hinverse, -⟩ := exists_inverse hvalid
  rw [hdto] at htx hroom
  obtain ⟨hdirty, hresident⟩ := hroom
  have hcount : p.transaction.edits.length ≤ maxDocumentEdits := hedits
  obtain ⟨result, happly⟩ : ∃ result, doc.buffer.apply p.transaction protocolLimits = .ok result :=
    hbuffer ▸ ⟨_, apply_of_validate hvalid (.inr hrevision) hinverse⟩
  rw [OpenDocument.change, htx]
  split
  · simp
  · split
    · split <;> simp
    · split
      · simp
      · rw [if_neg (by rintro ⟨hclean, -, hmany⟩; simp [hclean] at hdirty; omega),
          if_neg (not_lt.mpr hcount), if_neg (by omega), happly]
        simp

/-! ### The queue under a local edit -/

namespace Attachment

/-- Every pending change is made within the limits, and the last one leads to the buffer. -/
structure Queued (a : Attachment) : Prop where
  made : ∀ p ∈ a.pending, p.Made
  last : ∀ p, a.pending.getLast? = some p → p.resultingSnapshot.text = a.buffer.text

variable {a a' : Attachment} {tx : TextTransaction} {id : String}

/-- A local edit keeps the queue within the limits when what is merged fits. -/
theorem Queued.edited (h : a.Queued) (hedited : Edited a tx id a')
    (htext : tx.applyTo protocolLimits a.buffer.text = .ok a'.buffer.text)
    (hfits : ∀ last, a.mergeTarget tx = some last →
      last.transaction.inserted + tx.inserted ≤ maxDocumentInsertBytes) : a'.Queued := by
  cases hedited with
  | @merged init last start insert more target before insertion continues after =>
    have hlast : last.Made := h.made last (by simp [before])
    have hbuffer : last.resultingSnapshot.text = a.buffer.text := h.last last (by simp [before])
    have hfirst := hlast.applies
    have hsum := hfits last target
    rw [insertion] at hfirst
    rw [continues, ← hbuffer] at htext
    rw [insertion, continues, inserted_insertAt, inserted_insertAt, ← byteLen_append] at hsum
    have hmerged := applyTo_insertAt_append hfirst htext hsum
    constructor
    · intro p hp
      rw [after] at hp
      rcases List.mem_append.mp hp with hp | hp
      · exact h.made p (by rw [before]; exact List.mem_append_left _ hp)
      · rw [List.mem_singleton.mp hp]
        exact ⟨rfl, hmerged⟩
    · intro p hp
      rw [after, List.getLast?_concat, Option.some.injEq] at hp
      subst hp
      rfl
  | @pushed p changeId after base transaction dto baseText result =>
    constructor
    · intro q hq
      rw [after] at hq
      rcases List.mem_append.mp hq with hq | hq
      · exact h.made q hq
      · rw [List.mem_singleton.mp hq]
        exact ⟨dto.trans transaction.symm, by rw [transaction, baseText, result]; exact htext⟩
    · intro q hq
      rw [after, List.getLast?_concat, Option.some.injEq] at hq
      subst hq
      exact result

/-- A merged insertion that does not fit is too large for one change. -/
theorem applyLocal_not_sendable {result : String} {last : PendingChange}
    (h : a.applyLocal tx id = .ok (result, a')) (htarget : a.mergeTarget tx = some last)
    (hfull : maxDocumentInsertBytes < last.transaction.inserted + tx.inserted) :
    ∃ p ∈ a'.pending, ¬p.Sendable := by
  obtain ⟨init, start, insert, more, -, hlast, htx⟩ := mergeTarget_eq_some htarget
  obtain ⟨snapshot, hpending⟩ : ∃ snapshot,
      a'.pending = a.pending.dropLast ++ [mergeInto last tx snapshot] := by
    simp only [applyLocal, htarget] at h
    repeat' split at h
    all_goals cases h
    exact ⟨_, rfl⟩
  refine ⟨mergeInto last tx snapshot, by simp [hpending], fun hsendable => ?_⟩
  have hinserted := hsendable.inserted
  rw [insertionOf_eq_some hlast, insertionOf_eq_some htx, inserted_insertAt,
    inserted_insertAt] at hfull
  simp only [mergeInto, hlast, htx, transactionToDto, inserted_insertAt, byteLen_append]
    at hinserted
  omega

/-- An insertion behind the last change continues it. -/
theorem mergeTarget_insertAt {last : PendingChange} {start : ℕ} {insert : Rope}
    (hlast : a.pending.getLast? = some last) (hflight : a.inFlight = none)
    (htransaction : last.transaction = insertAt start insert) (more : Rope) :
    a.mergeTarget (insertAt (start + byteLen insert) more) = some last := by
  simp [mergeTarget, hlast, hflight, htransaction, insertionOf, insertAt]

/-- Some of the changes at the front are gone, and the text the others lead to is kept. -/
def Shrinks (a a' : Attachment) : Prop :=
  ∃ n, a'.pending = a.pending.drop n ∧ (a'.pending ≠ [] → a'.buffer.text = a.buffer.text)

theorem Shrinks.of_same (hpending : a'.pending = a.pending) (hbuffer : a'.buffer = a.buffer) :
    a.Shrinks a' :=
  ⟨0, hpending, fun _ => by rw [hbuffer]⟩

theorem Queued.shrinks (h : a.Queued) (hshrinks : a.Shrinks a') : a'.Queued := by
  obtain ⟨n, hpending, hbuffer⟩ := hshrinks
  constructor
  · intro p hp
    rw [hpending] at hp
    exact h.made p (List.mem_of_mem_drop hp)
  · intro p hp
    have hne : a'.pending ≠ [] := by
      rintro hempty
      simp [hempty] at hp
    rw [hbuffer hne]
    rw [hpending] at hp hne
    rw [List.getLast?_drop, if_neg (by simpa using hne)] at hp
    exact h.last p hp

theorem shrinks_popFront (a : Attachment) (id : String) : a.Shrinks (a.popFront id) :=
  ⟨1, pending_popFront a id, fun _ => by rw [(popFront_fields a id).2.2]⟩

/-- Taking over a snapshot drops changes from the front and keeps the buffer with the rest. -/
theorem shrinks_installSnapshot (a : Attachment) (snapshot : DocumentSnapshotDto) :
    a.Shrinks (a.installSnapshot snapshot).2 := by
  rw [installSnapshot]
  split
  · exact .of_same rfl rfl
  · split
    · exact .of_same rfl rfl
    · next a₁ hresolved =>
      obtain ⟨n, hpending, hbuffer⟩ : ∃ n, a₁.pending = a.pending.drop n ∧
          a₁.buffer = a.buffer := by
        rw [resolvePending] at hresolved
        split at hresolved
        · cases hresolved
          exact ⟨0, rfl, rfl⟩
        · split at hresolved
          · cases hresolved
            exact ⟨_, rfl, rfl⟩
          · split at hresolved
            · cases hresolved
              exact ⟨0, rfl, rfl⟩
            · cases hresolved
      split
      · exact ⟨n, hpending, fun _ => by rw [hbuffer]⟩
      · refine ⟨n, hpending, fun hne => ?_⟩
        show text (if a₁.pending = [] then _ else a₁.buffer) = _
        rw [if_neg hne, hbuffer]

end Attachment

/-! ### The queue under everything else -/

namespace DocumentController

open Attachment

variable (c : DocumentController)

theorem shrinks_flush : c.attachment.Shrinks c.flush.controller.attachment := by
  rw [flush]
  split
  · exact .of_same rfl rfl
  · split <;> exact .of_same rfl rfl

theorem shrinks_onChange (id : String) (response : Except String CoreResponse) :
    c.attachment.Shrinks (c.onChange id response).controller.attachment := by
  unfold onChange
  split
  · exact .of_same rfl rfl
  · exact shrinks_popFront { c.attachment with inFlight := none } id
  · exact .of_same rfl rfl

theorem shrinks_save : c.attachment.Shrinks c.save.controller.attachment := by
  rw [save]
  split
  · exact .of_same rfl rfl
  · split <;> exact .of_same rfl rfl

theorem shrinks_onSave (seq : ℕ) (response : Except String CoreResponse) :
    c.attachment.Shrinks (c.onSave seq response).controller.attachment := by
  unfold onSave
  split
  · exact .of_same rfl rfl
  · dsimp only
    split <;> exact .of_same rfl rfl
  · exact .of_same rfl rfl
  · exact .of_same rfl rfl

theorem shrinks_onResync (prior : DocumentState) (response : Except String CoreResponse) :
    c.attachment.Shrinks (c.onResync prior response).controller.attachment := by
  unfold onResync
  split
  · exact .of_same rfl rfl
  · next snapshot lease =>
    have hinstall := shrinks_installSnapshot c.attachment snapshot
    split <;> next heq =>
      rw [heq] at hinstall
      exact hinstall
  · exact .of_same rfl rfl

theorem shrinks_reattach (snapshot : DocumentSnapshotDto) (lease : Option String) :
    c.attachment.Shrinks (c.reattach snapshot lease).controller.attachment := by
  rw [reattach]
  have hinstall := shrinks_installSnapshot { c.attachment with writerLease := lease } snapshot
  split <;> next heq =>
    rw [heq] at hinstall
    exact hinstall

theorem shrinks_onReconnect (wantsWriter : Bool) (prior : DocumentState)
    (response : Except String CoreResponse) :
    c.attachment.Shrinks (c.onReconnect wantsWriter prior response).controller.attachment := by
  unfold onReconnect
  split
  · exact .of_same rfl rfl
  · dsimp only
    split
    · exact .of_same rfl rfl
    · split
      · exact .of_same rfl rfl
      · exact c.shrinks_reattach _ _
  · exact .of_same rfl rfl
  · exact .of_same rfl rfl

theorem shrinks_onReconnectWriter (snapshot : DocumentSnapshotDto)
    (response : Except String CoreResponse) :
    c.attachment.Shrinks (c.onReconnectWriter snapshot response).controller.attachment := by
  unfold onReconnectWriter
  split
  · exact .of_same rfl rfl
  · exact c.shrinks_reattach _ _
  · exact c.shrinks_reattach _ _

theorem shrinks_receive (response : Except String CoreResponse) :
    c.attachment.Shrinks (c.receive response).controller.attachment := by
  unfold receive
  split
  · exact c.shrinks_onChange _ _
  · exact c.shrinks_onSave _ _
  · exact c.shrinks_onResync _ _
  · exact c.shrinks_onReconnect _ _ _
  · exact c.shrinks_onReconnectWriter _ _
  · exact .of_same rfl rfl

theorem shrinks_cancel : c.attachment.Shrinks c.cancel.attachment := by
  rw [cancel]
  split <;> exact .of_same rfl rfl

end DocumentController

namespace DocumentSystem

open Attachment

variable (s : DocumentSystem) (dg : Digests)

theorem attachment_perform (turn : DocumentController.Turn) :
    (s.perform turn).attachment = turn.controller.attachment := by
  rw [perform]
  split <;> rfl

/-- Every action but a local edit drops changes from the front of the queue, or none. -/
theorem shrinks_step {action : Action} (h : ∀ tx id, action ≠ .applyLocal tx id) :
    s.attachment.Shrinks (s.step dg action).attachment := by
  cases action with
  | applyLocal tx id => exact absurd rfl (h tx id)
  | beginFlush =>
    rw [step, begin]
    split
    · exact .of_same rfl rfl
    · exact .of_same rfl rfl
  | flush =>
    rw [step]
    split
    · rw [attachment_perform]
      exact s.controller.shrinks_flush
    · exact .of_same rfl rfl
  | save =>
    rw [step, begin]
    split
    · rw [attachment_perform]
      exact s.controller.shrinks_save
    · exact .of_same rfl rfl
  | resync =>
    rw [step, begin]
    split
    · rw [attachment_perform]
      exact .of_same rfl rfl
    · exact .of_same rfl rfl
  | reconnect connection =>
    rw [step]
    split
    · rw [attachment_perform]
      exact .of_same rfl rfl
    · exact .of_same rfl rfl
  | cancel => exact s.controller.shrinks_cancel
  | serve index turn =>
    rw [step, serve]
    split
    · exact .of_same rfl rfl
    · next m hm =>
      obtain ⟨current, past, applied, hrecord⟩ := record_eq
        { s with service := (s.service.handle dg turn m.client m.request).2 } m.request
      simp only [hrecord]
      exact .of_same rfl rfl
  | lose index => exact .of_same rfl rfl
  | deliver index =>
    rw [step, deliver]
    split
    · exact .of_same rfl rfl
    · dsimp only
      split
      · rw [attachment_perform]
        exact s.controller.shrinks_receive _
      · exact .of_same rfl rfl
  | fail message =>
    rw [step]
    split
    · exact .of_same rfl rfl
    · rw [attachment_perform]
      exact s.controller.shrinks_receive _
  | disconnect client => exact .of_same rfl rfl
  | observe client documentId => exact .of_same rfl rfl
  | observeOpen client => exact .of_same rfl rfl
  | restart => exact .of_same rfl rfl

variable {s} {dg}

/-- Every pending change can be sent. -/
def Sendable (s : DocumentSystem) : Prop := ∀ p ∈ s.attachment.pending, p.Sendable

theorem sendable_of_queued (h : s.attachment.Queued) : s.Sendable :=
  fun p hp => (h.made p hp).sendable

/-- What a step preserves. -/
theorem queued_step (h : s.attachment.Queued) {action : Action}
    (hfits : s.MergesWithin maxDocumentInsertBytes action) :
    (s.step dg action).attachment.Queued := by
  by_cases hedit : ∃ tx id, action = .applyLocal tx id
  · obtain ⟨tx, id, rfl⟩ := hedit
    rw [step, applyLocal]
    rcases s.controller.applyLocal_cases tx id with
      ⟨result, hrun, -⟩ | ⟨result, c', hrun, hedits, hlocal, -⟩
    · rw [hrun]
      cases result <;> exact h
    · obtain ⟨-, htext, hedited⟩ := applyLocal_eq_ok hedits hlocal
      rw [hrun]
      refine h.edited hedited htext fun last hlast => ?_
      exact hfits (by rw [hrun]; rfl) last hlast
  · refine h.shrinks (shrinks_step s dg fun tx id heq => hedit ⟨tx, id, heq⟩)

/-- A step that merges too much leaves a change that cannot be sent. -/
theorem not_sendable_step {action : Action}
    (hfull : ¬s.MergesWithin maxDocumentInsertBytes action) :
    ¬(s.step dg action).Sendable := by
  intro hsendable
  cases action with
  | applyLocal tx id =>
    simp only [MergesWithin, Classical.not_imp, not_forall, not_le] at hfull
    obtain ⟨hok, last, hlast, hfull⟩ := hfull
    have htarget : s.attachment.mergeTarget tx = some last := hlast
    rcases s.controller.applyLocal_cases tx id with
      ⟨result, hrun, hempty⟩ | ⟨result, c', hrun, hedits, hlocal, -⟩
    · have hnone : tx.edits = [] := hempty (by rw [hrun] at hok; exact hok)
      obtain ⟨init, start, insert, more, -, -, htx⟩ := mergeTarget_eq_some htarget
      rw [insertionOf_eq_some htx] at hnone
      cases hnone
    · obtain ⟨p, hp, hnot⟩ := applyLocal_not_sendable hlocal htarget hfull
      rw [step, applyLocal, hrun] at hsendable
      exact hnot (hsendable p hp)
  | _ => exact hfull trivial

/-- What a run preserves. -/
theorem sendable_run_iff (h : s.attachment.Queued) (actions : List Action) :
    (∀ reached, reached <+: actions → (s.run dg reached).Sendable) ↔
      EachStep dg (MergesWithin maxDocumentInsertBytes) s actions := by
  induction actions generalizing s with
  | nil =>
    refine iff_of_true (fun reached hreached => ?_) trivial
    rw [List.prefix_nil.mp hreached]
    exact sendable_of_queued h
  | cons action actions ih =>
    constructor
    · intro hall
      have hfits : s.MergesWithin maxDocumentInsertBytes action := by
        by_contra hfull
        exact not_sendable_step hfull (hall [action] (by simp))
      refine ⟨hfits, (ih (queued_step h hfits)).mp fun reached hreached => ?_⟩
      exact hall (action :: reached) (List.cons_prefix_cons.mpr ⟨rfl, hreached⟩)
    · rintro ⟨hfits, hrest⟩ reached hreached
      cases reached with
      | nil => exact sendable_of_queued h
      | cons first reached =>
        obtain ⟨rfl, hrest'⟩ := List.cons_prefix_cons.mp hreached
        exact (ih (queued_step h hfits)).mpr hrest reached hrest'

theorem queued_attached (doc : OpenDocument) (connection : String) (lease : Option String) :
    (attached doc connection lease).attachment.Queued where
  made p hp := by cases hp
  last p hp := by cases hp

/-- In every run, every pending change can be sent in every state as long as every insertion
that is merged fits into one change, and no longer. -/
theorem run_sendable_iff (dg : Digests) (doc : OpenDocument) (connection : String)
    (lease : Option String) (actions : List Action) :
    (∀ reached, reached <+: actions →
      ((attached doc connection lease).run dg reached).Sendable) ↔
      EachStep dg (MergesWithin maxDocumentInsertBytes) (attached doc connection lease)
        actions :=
  sendable_run_iff (queued_attached doc connection lease) actions

/-- A line as long as one change may insert. -/
@[irreducible] def longLine : Rope := List.replicate maxDocumentInsertBytes 'a'

theorem byteLen_longLine : byteLen longLine = maxDocumentInsertBytes := by
  rw [longLine, byteLen, List.map_replicate, List.sum_replicate, smul_eq_mul]
  exact Nat.mul_one _

/-- The line is typed, and one more character behind it. -/
def typedOn : List Action :=
  [.applyLocal (insertAt 0 longLine) firstId,
    .applyLocal (insertAt maxDocumentInsertBytes ['b']) secondId]

/-- The empty document with the long line pending. -/
def longPending : Attachment where
  projectId := "project"
  documentId := "doc_0"
  writerLease := some "lease_0"
  daemonRevision := 1
  buffer := ⟨longLine, 1⟩
  pending := [
    { id := firstId
      baseRevision := 1
      transaction := insertAt 0 longLine
      dto := insertAt 0 longLine
      baseSnapshot := ⟨[], 0⟩
      resultingSnapshot := ⟨longLine, 1⟩ }]
  pendingBytes := maxDocumentInsertBytes
  inFlight := none
  dirty := true
  conflicted := false

theorem applyLocal_longLine :
    (attached sampleDocument "first" (some "lease_0")).attachment.applyLocal
      (insertAt 0 longLine) firstId = .ok (firstId, longPending) := by
  have hvalid : (insertAt 0 longLine).validate [] protocolLimits = .ok () := by
    refine validate_of_checks (by decide) (by decide) (by rfl) ?_ (by decide) ?_
    · rw [inserted_insertAt, byteLen_longLine]
      exact le_rfl
    · rw [inserted_insertAt, byteLen_longLine]
      decide
  obtain ⟨inverse, hinverse, -⟩ := exists_inverse hvalid
  have happly := apply_of_validate (b := ⟨[], 0⟩) hvalid (.inr (by decide)) hinverse
  have htext : (insertAt 0 longLine).replaced [] = longLine := by
    simpa using replaced_insertAt [] [] longLine
  have hedits : (insertAt 0 longLine).edits ≠ [] := by simp [insertAt]
  rw [htext, if_neg hedits] at happly
  have hbuffer : (attached sampleDocument "first" (some "lease_0")).attachment.buffer =
    ⟨[], 0⟩ := rfl
  rw [Attachment.applyLocal, if_neg (by decide), if_neg (by decide), if_neg (by decide),
    inserted_insertAt, byteLen_longLine, if_neg (by decide), if_neg (by decide), hbuffer, happly]
  rfl

/-- The character typed behind the line is merged into it. -/
theorem applyLocal_behind : ∃ answer a', longPending.applyLocal
    (insertAt maxDocumentInsertBytes ['b']) secondId = .ok (answer, a') := by
  have hvalid : (insertAt maxDocumentInsertBytes ['b']).validate longLine protocolLimits =
      .ok () := by
    have hboundary := isCharBoundary_byteLen_append longLine []
    rw [List.append_nil, byteLen_longLine] at hboundary
    refine validate_of_checks (by decide) ?_ (validateEdits_insertAt.mpr
      ⟨byteLen_longLine.ge, hboundary⟩) (by decide) ?_ ?_
    · rw [byteLen_longLine]
      decide
    · rw [removed_insertAt]
      exact Nat.zero_le _
    · rw [removed_insertAt, inserted_insertAt, byteLen_longLine]
      decide
  obtain ⟨inverse, hinverse, -⟩ := exists_inverse hvalid
  have happly := apply_of_validate (b := ⟨longLine, 1⟩) hvalid (.inr (by decide))
    hinverse
  rw [Attachment.applyLocal, if_neg (by decide), if_neg (by decide), if_neg (by decide),
    inserted_insertAt, if_neg (by decide), if_neg (by decide)]
  rw [show longPending.buffer = ⟨longLine, 1⟩ from rfl, happly]
  generalize longPending.mergeTarget (insertAt maxDocumentInsertBytes ['b']) = target
  cases target with
  | none => exact ⟨_, _, rfl⟩
  | some last => exact ⟨_, _, rfl⟩

theorem mergeTarget_behind : ∃ last, longPending.mergeTarget
    (insertAt maxDocumentInsertBytes ['b']) = some last ∧
      last.transaction = insertAt 0 longLine := by
  have hlast : ∃ last, longPending.pending.getLast? = some last ∧
      last.transaction = insertAt 0 longLine := ⟨_, rfl, rfl⟩
  obtain ⟨last, hlast, htransaction⟩ := hlast
  have htarget := mergeTarget_insertAt hlast rfl htransaction ['b']
  rw [Nat.zero_add, byteLen_longLine] at htarget
  exact ⟨last, htarget, htransaction⟩

/-- The line and the character become one change, of one byte more than a change may have. -/
theorem not_mergesWithin_behind {s : DocumentSystem} (hidle : s.controller.lifecycle = .idle)
    (hpending : s.attachment = longPending) :
    ¬s.MergesWithin maxDocumentInsertBytes
      (.applyLocal (insertAt maxDocumentInsertBytes ['b']) secondId) := by
  intro hfits
  obtain ⟨answer, a', happly⟩ := applyLocal_behind
  have hok : (s.controller.applyLocal (insertAt maxDocumentInsertBytes ['b']) secondId).1.isOk =
      true := by
    rw [DocumentController.applyLocal, if_neg (by simp [insertAt]), if_neg (by simp [hidle]),
      show s.controller.attachment = longPending from hpending, happly]
    rfl
  obtain ⟨last, htarget, htransaction⟩ := mergeTarget_behind
  have hsum := hfits hok last (by rw [hpending]; exact htarget)
  rw [htransaction, inserted_insertAt, inserted_insertAt, byteLen_longLine] at hsum
  exact absurd hsum (by decide)

/-- The text typed behind the line leaves a change that the daemon refuses. -/
theorem merged_line_refused :
    ¬∀ (dg : Digests) (doc : OpenDocument) (connection : String) (lease : Option String)
      (actions : List Action), ((attached doc connection lease).run dg actions).Sendable := by
  intro h
  have hfirst : (attached sampleDocument "first" (some "lease_0")).controller.applyLocal
      (insertAt 0 longLine) firstId = (.ok firstId,
        { (attached sampleDocument "first" (some "lease_0")).controller with
          attachment := longPending, localEditSeq := 1, state := .dirtyLocal }) := by
    rw [DocumentController.applyLocal, if_neg (by simp [insertAt]), if_neg (by decide),
      show (attached sampleDocument "first" (some "lease_0")).controller.attachment =
        (attached sampleDocument "first" (some "lease_0")).attachment from rfl,
      applyLocal_longLine]
    rfl
  have hfits := (sendable_run_iff (queued_attached sampleDocument "first" (some "lease_0"))
    typedOn).mp fun reached _ => h sampleDigests _ _ _ reached
  have hstep : ∃ s : DocumentSystem, s.controller.lifecycle = .idle ∧
      s.attachment = longPending ∧ s.MergesWithin maxDocumentInsertBytes
        (.applyLocal (insertAt maxDocumentInsertBytes ['b']) secondId) := by
    refine ⟨_, ?_, ?_, hfits.2.1⟩
    · rw [step, applyLocal, hfirst]
      rfl
    · rw [step, applyLocal, hfirst]
  obtain ⟨s, hidle, hpending, hmerges⟩ := hstep
  exact not_mergesWithin_behind hidle hpending hmerges

end DocumentSystem

end Codegg.Documents
