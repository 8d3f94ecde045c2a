import Codegg.Documents.Controller

/-!
# The queue of pending changes

The pending changes lead from the daemon's text at the controller's revision to the text of
the buffer, each applied to the result of the one before it, at consecutive revisions. A
local edit extends the queue or its last change, and a snapshot of the daemon's text at the
controller's revision, or at the next one, is taken over.
-/
namespace Codegg.Documents

open Codegg.Library TextTransaction

/-- The limits of the protocol, with `room` bytes for the text that one change inserts. -/
def queueLimits (room : ℕ) : DocumentLimits :=
  { protocolLimits with maxInsertedBytes := room }

/-- The change was made to a text that the daemon has at a revision. -/
structure PendingChange.From (room : ℕ) (p : PendingChange) (revision : ℕ) (text : Rope) :
    Prop where
  base : p.baseRevision = revision
  baseText : p.baseSnapshot.text = text
  applies : p.transaction.applyTo (queueLimits room) text = .ok p.resultingSnapshot.text
  edits : p.transaction.edits ≠ []
  dto : p.dto = p.transaction

/-- The changes lead from a text at a revision to another text. -/
def Leads (room : ℕ) : ℕ → Rope → List PendingChange → Rope → Prop
  | _, text, [], final => final = text
  | revision, text, p :: rest, final =>
    p.From room revision text ∧ Leads room (revision + 1) p.resultingSnapshot.text rest final

section Leads

variable {room revision : ℕ} {text final : Rope} {p : PendingChange} {ps qs : List PendingChange}

theorem leads_append :
    Leads room revision text (ps ++ qs) final ↔
      ∃ mid, Leads room revision text ps mid ∧ Leads room (revision + ps.length) mid qs final := by
  induction ps generalizing revision text with
  | nil => simp [Leads]
  | cons p ps ih =>
    have hlength : revision + 1 + ps.length = revision + (p :: ps).length := by
      rw [List.length_cons]
      omega
    simp only [List.cons_append, Leads, ih, hlength]
    constructor
    · rintro ⟨hp, mid, hps, hqs⟩
      exact ⟨mid, ⟨hp, hps⟩, hqs⟩
    · rintro ⟨mid, ⟨hp, hps⟩, hqs⟩
      exact ⟨hp, mid, hps, hqs⟩

theorem leads_concat :
    Leads room revision text (ps ++ [p]) final ↔
      ∃ mid, Leads room revision text ps mid ∧ p.From room (revision + ps.length) mid ∧
        final = p.resultingSnapshot.text := by
  rw [leads_append]
  rfl

/-- The transactions of the queue, applied in order, give the final text. -/
theorem Leads.applyAll (h : Leads room revision text ps final) :
    applyAll (queueLimits room) text (ps.map PendingChange.transaction) = .ok final := by
  induction ps generalizing revision text with
  | nil => rw [h]; rfl
  | cons p ps ih =>
    obtain ⟨hp, hrest⟩ := h
    rw [List.map_cons, TextTransaction.applyAll, hp.applies]
    exact ih hrest

theorem Leads.base (h : Leads room revision text ps final) {i : ℕ} (hi : ps[i]? = some p) :
    p.baseRevision = revision + i := by
  induction ps generalizing revision text i with
  | nil => simp at hi
  | cons q ps ih =>
    obtain ⟨hq, hrest⟩ := h
    cases i with
    | zero =>
      cases hi
      rw [hq.base, Nat.add_zero]
    | succ i =>
      have hbase := ih hrest hi
      omega

theorem Leads.edits (h : Leads room revision text ps final) (hp : p ∈ ps) :
    p.transaction.edits ≠ [] := by
  induction ps generalizing revision text with
  | nil => cases hp
  | cons q ps ih =>
    obtain ⟨hq, hrest⟩ := h
    rcases List.mem_cons.mp hp with rfl | hp
    · exact hq.edits
    · exact ih hrest hp

theorem Leads.lt_base (h : Leads room revision text ps final) (hp : p ∈ ps) :
    revision ≤ p.baseRevision := by
  obtain ⟨i, hi⟩ := List.mem_iff_getElem?.mp hp
  have hbase := h.base hi
  omega

end Leads

theorem rposition_eq_none {α : Type*} {f : α → Bool} {xs : List α}
    (h : ∀ x ∈ xs, f x = false) : rposition f xs = none := by
  induction xs with
  | nil => rfl
  | cons x xs ih =>
    have hx : f x = false := h x List.mem_cons_self
    rw [rposition, ih fun y hy => h y (List.mem_cons_of_mem x hy)]
    simp [hx]

variable {snapshot : DocumentSnapshotDto}

namespace Attachment

variable {room : ℕ} {a a' : Attachment} {tx : TextTransaction} {id : String} {base : Rope}

theorem insertionOf_eq_some {start : ℕ} {insert : Rope}
    (h : insertionOf tx = some (start, insert)) : tx = insertAt start insert := by
  rw [insertionOf] at h
  split at h
  · next edit hedits =>
    split at h
    · next hrange =>
      cases tx
      cases edit
      rename_i range insert
      cases range
      simp_all [insertAt]
    · cases h
  · cases h

theorem mergeTarget_eq_some {last : PendingChange} (h : a.mergeTarget tx = some last) :
    ∃ init start insert more, a.pending = init ++ [last] ∧
      insertionOf last.transaction = some (start, insert) ∧
      insertionOf tx = some (start + byteLen insert, more) := by
  rw [mergeTarget, Option.filter_eq_some_iff] at h
  obtain ⟨hlast, htest⟩ := h
  obtain ⟨init, hinit⟩ := List.getLast?_eq_some_iff.mp hlast
  rw [Bool.and_eq_true] at htest
  have hinsert := htest.2
  split at hinsert
  · next start insert offset more hstart hoffset =>
    have heq : offset = start + byteLen insert := of_decide_eq_true hinsert
    exact ⟨init, start, insert, more, hinit, hstart, heq ▸ hoffset⟩
  · cases hinsert

/-- The document and the revision of the daemon that the attachment knows. -/
structure SameBase (a a' : Attachment) : Prop where
  projectId : a'.projectId = a.projectId
  documentId : a'.documentId = a.documentId
  daemonRevision : a'.daemonRevision = a.daemonRevision

/-- The queue, the text it leads to and what it starts from. -/
structure SameQueue (a a' : Attachment) : Prop extends SameBase a a' where
  pending : a'.pending = a.pending
  buffer : a'.buffer.text = a.buffer.text

@[refl] theorem SameQueue.refl (a : Attachment) : SameQueue a a := ⟨⟨rfl, rfl, rfl⟩, rfl, rfl⟩

theorem pending_popFront (a : Attachment) (id : String) :
    (a.popFront id).pending = a.pending.drop 1 := by
  rw [popFront]
  split
  · next hempty => simp [hempty]
  · next hcons => simp [hcons]

theorem popFront_fields (a : Attachment) (id : String) :
    (a.popFront id).projectId = a.projectId ∧ (a.popFront id).documentId = a.documentId ∧
      (a.popFront id).buffer = a.buffer := by
  rw [popFront]
  split <;> exact ⟨rfl, rfl, rfl⟩

/-- What an accepted local edit does to the queue: it continues the last change or becomes a
change of its own. -/
inductive Edited (a : Attachment) (tx : TextTransaction) (id : String) (a' : Attachment) : Prop where
  | merged {init : List PendingChange} {last : PendingChange} {start : ℕ} {insert more : Rope}
      (target : a.mergeTarget tx = some last) (before : a.pending = init ++ [last])
      (insertion : last.transaction = insertAt start insert)
      (continues : tx = insertAt (start + byteLen insert) more)
      (after : a'.pending = init ++ [{ last with
        transaction := insertAt start (insert ++ more)
        dto := insertAt start (insert ++ more)
        resultingSnapshot := a'.buffer.snapshot }])
  | pushed {p : PendingChange} (changeId : p.id = id) (after : a'.pending = a.pending ++ [p])
      (base : p.baseRevision = a.daemonRevision + a.pending.length)
      (transaction : p.transaction = tx) (dto : p.dto = tx)
      (baseText : p.baseSnapshot.text = a.buffer.text)
      (result : p.resultingSnapshot.text = a'.buffer.text)

theorem applyLocal_eq_ok {result : String} (hedits : tx.edits ≠ [])
    (h : a.applyLocal tx id = .ok (result, a')) :
    SameBase a a' ∧ tx.applyTo protocolLimits a.buffer.text = .ok a'.buffer.text ∧
      Edited a tx id a' := by
  rw [applyLocal] at h
  split at h
  · cases h
  · split at h
    · cases h
    · split at h
      · cases h
      · split at h
        · cases h
        · split at h
          · cases h
          · split at h
            · cases h
            · next applied buffer happly =>
              obtain ⟨htext, -, hsnapshot, -⟩ := DocumentBuffer.apply_eq_ok hedits happly
              split at h
              · next last htarget =>
                obtain ⟨init, start, insert, more, hinit, hlast, htx⟩ :=
                  mergeTarget_eq_some htarget
                cases h
                refine ⟨⟨rfl, rfl, rfl⟩, htext, .merged htarget hinit
                  (insertionOf_eq_some hlast) (insertionOf_eq_some htx) ?_⟩
                simp only [mergeInto, hlast, htx, transactionToDto, hsnapshot, hinit,
                  List.dropLast_concat]
              · cases h
                exact ⟨⟨rfl, rfl, rfl⟩, htext, .pushed rfl rfl rfl rfl rfl rfl
                  (congrArg DocumentSnapshot.text hsnapshot)⟩

/-- An accepted local edit leaves a queue that leads to the buffer, as long as a continued
insertion stays within one change. -/
theorem Edited.leads (h : Edited a tx id a') (hroom : maxDocumentInsertBytes ≤ room)
    (hbase : SameBase a a') (hedits : tx.edits ≠ [])
    (htext : tx.applyTo protocolLimits a.buffer.text = .ok a'.buffer.text)
    (hfits : ∀ last, a.mergeTarget tx = some last →
      last.transaction.inserted + tx.inserted ≤ room)
    (hleads : Leads room a.daemonRevision base a.pending a.buffer.text) :
    Leads room a'.daemonRevision base a'.pending a'.buffer.text := by
  have htext : tx.applyTo (queueLimits room) a.buffer.text = .ok a'.buffer.text :=
    applyTo_mono hroom htext
  rw [hbase.daemonRevision]
  cases h with
  | @merged init last start insert more htarget hbefore hinsertion hcontinues hafter =>
    rw [hbefore] at hleads
    obtain ⟨mid, hinit, hlast, hbuffer⟩ := leads_concat.mp hleads
    rw [hafter, leads_concat]
    have hmore : byteLen (insert ++ more) ≤ (queueLimits room).maxInsertedBytes := by
      have hsum := hfits last htarget
      rw [hinsertion, hcontinues] at hsum
      rw [byteLen_append]
      exact hsum
    have hfirst := hlast.applies
    rw [hinsertion] at hfirst
    rw [hcontinues, hbuffer] at htext
    have hmerged := applyTo_insertAt_append hfirst htext hmore
    refine ⟨mid, hinit, ⟨hlast.base, hlast.baseText, hmerged, ?_, rfl⟩, rfl⟩
    simp [insertAt]
  | @pushed p hid hafter hrevision htransaction hdto hbaseText hresult =>
    rw [hafter, leads_concat]
    refine ⟨a.buffer.text, hleads, ⟨hrevision, hbaseText, ?_, ?_, ?_⟩, hresult.symm⟩
    · rw [htransaction, hresult]
      exact htext
    · rw [htransaction]
      exact hedits
    · rw [hdto, htransaction]

/-- The identifiers of the queue after a local edit. -/
theorem Edited.ids (h : Edited a tx id a') :
    a'.pending.map PendingChange.id = a.pending.map PendingChange.id ∨
      a'.pending.map PendingChange.id = a.pending.map PendingChange.id ++ [id] := by
  cases h with
  | merged htarget hbefore hinsertion hcontinues hafter =>
    rw [hafter, hbefore]
    simp
  | pushed hid hafter =>
    right
    rw [hafter, List.map_append, List.map_singleton, hid]

/-- A local edit leaves the first change as it is, unless it is merged into it. -/
theorem Edited.cons (h : Edited a tx id a') {p : PendingChange} {rest : List PendingChange}
    (hcons : a.pending = p :: rest) (hne : ∀ last, a.mergeTarget tx = some last → last.id ≠ p.id) :
    ∃ rest', a'.pending = p :: rest' := by
  cases h with
  | @merged init last start insert more htarget hbefore hinsertion hcontinues hafter =>
    rw [hcons] at hbefore
    cases init with
    | nil =>
      cases hbefore
      exact absurd rfl (hne p htarget)
    | cons q init =>
      cases hbefore
      exact ⟨_, hafter⟩
  | pushed hid hafter =>
    rw [hcons] at hafter
    exact ⟨_, hafter⟩

/-- The daemon's text at the controller's revision, or the result of the first pending change at
the next one. -/
def Shows (a : Attachment) (base : Rope) (revision : ℕ) (text : Rope) : Prop :=
  (revision = a.daemonRevision ∧ text = base) ∨
    (revision = a.daemonRevision + 1 ∧
      ∃ p rest, a.pending = p :: rest ∧ text = p.resultingSnapshot.text)

/-- The rest of the queue leads from the text shown. -/
theorem Shows.leads {revision : ℕ} {text : Rope} (h : a.Shows base revision text)
    (hleads : Leads room a.daemonRevision base a.pending a.buffer.text) :
    Leads room revision text (a.pending.drop (revision - a.daemonRevision)) a.buffer.text := by
  rcases h with ⟨rfl, rfl⟩ | ⟨rfl, p, rest, hpending, rfl⟩
  · rw [Nat.sub_self]
    exact hleads
  · rw [hpending] at hleads ⊢
    rw [Nat.add_sub_cancel_left]
    exact hleads.2

theorem accepted_eq_none (hleads : Leads room a.daemonRevision base a.pending a.buffer.text)
    (hrevision : snapshot.revision = a.daemonRevision) :
    a.accepted snapshot = none := by
  refine rposition_eq_none fun p hp => decide_eq_false ?_
  have hbase := hleads.lt_base hp
  omega

theorem accepted_cons {p : PendingChange} {rest : List PendingChange}
    (hpending : a.pending = p :: rest)
    (hleads : Leads room a.daemonRevision base a.pending a.buffer.text)
    (hrevision : snapshot.revision = a.daemonRevision + 1)
    (htext : snapshot.text = p.resultingSnapshot.text) : a.accepted snapshot = some 0 := by
  rw [hpending] at hleads
  obtain ⟨hp, hrest⟩ := hleads
  have hnone : rposition (fun q : PendingChange => decide (q.baseRevision + 1 = snapshot.revision ∧
      snapshot.text = q.resultingSnapshot.text)) rest = none := by
    refine rposition_eq_none fun q hq => decide_eq_false ?_
    have hbase := hrest.lt_base hq
    omega
  rw [accepted, hpending, rposition, hnone]
  have hfront : p.baseRevision + 1 = snapshot.revision := by
    rw [hp.base, hrevision]
  simp [hfront, htext]

theorem resolvePending_of_shows (hleads : Leads room a.daemonRevision base a.pending a.buffer.text)
    (hshows : a.Shows base snapshot.revision snapshot.text) :
    ∃ a', a.resolvePending snapshot = some a' ∧ SameBase a a' ∧ a'.buffer = a.buffer ∧
      a'.pending = a.pending.drop (snapshot.revision - a.daemonRevision) := by
  rw [resolvePending]
  split
  · next hempty => exact ⟨a, rfl, ⟨rfl, rfl, rfl⟩, rfl, by rw [hempty, List.drop_nil]⟩
  · next hpending =>
    rcases hshows with ⟨hrevision, htext⟩ | ⟨hrevision, p, rest, hcons, htext⟩
    · rw [accepted_eq_none hleads hrevision]
      obtain ⟨p, rest, hcons⟩ := List.exists_cons_of_ne_nil hpending
      have hfront : p.From room a.daemonRevision base := by
        rw [hcons] at hleads
        exact hleads.1
      refine ⟨a, if_pos ?_, ⟨rfl, rfl, rfl⟩, rfl, by rw [hrevision, Nat.sub_self, List.drop_zero]⟩
      simp [hcons, hfront.base, hfront.baseText, hrevision, htext]
    · rw [accepted_cons hcons hleads hrevision htext]
      refine ⟨a.dropAccepted 1, rfl, ⟨rfl, rfl, rfl⟩, rfl, ?_⟩
      rw [hrevision, Nat.add_sub_cancel_left]
      rfl

/-- A snapshot of the document that shows the daemon's text is taken over: what the snapshot has
not got yet stays in the queue, and the buffer keeps its text. -/
theorem installSnapshot_of_shows (a : Attachment)
    (hleads : Leads room a.daemonRevision base a.pending a.buffer.text)
    (hdocument : snapshot.documentId = a.documentId) (hproject : snapshot.projectId = a.projectId)
    (hsize : byteLen snapshot.text ≤ maxDocumentTextBytes)
    (hshows : a.Shows base snapshot.revision snapshot.text) :
    ∃ a', a.installSnapshot snapshot = (.ok (), a') ∧ a'.projectId = a.projectId ∧
      a'.documentId = a.documentId ∧ a'.daemonRevision = snapshot.revision ∧
      a'.buffer.text = a.buffer.text ∧
      a'.pending = a.pending.drop (snapshot.revision - a.daemonRevision) := by
  obtain ⟨r, hresolve, hbase, hbuffer, hpending⟩ := resolvePending_of_shows hleads hshows
  have hrest := hshows.leads hleads
  have hid : ¬ (snapshot.documentId ≠ a.documentId ∨ snapshot.projectId ≠ a.projectId) := by
    simp [hdocument, hproject]
  have hfits : ¬ maxDocumentTextBytes < byteLen snapshot.text := by omega
  rw [installSnapshot, if_neg hid, hresolve]
  simp only [if_neg hfits]
  refine ⟨_, rfl, hbase.projectId, hbase.documentId, rfl, ?_, hpending⟩
  split
  · next hempty =>
    rw [← hpending, hempty] at hrest
    exact hrest.symm
  · rw [hbuffer]

end Attachment

/-- A local edit changes the attachment, or nothing. -/
theorem DocumentController.applyLocal_cases (c : DocumentController) (tx : TextTransaction)
    (id : String) :
    (∃ result, c.applyLocal tx id = (result, c) ∧ (result.isOk = true → tx.edits = [])) ∨
      ∃ result c', c.applyLocal tx id = (.ok result, c') ∧ tx.edits ≠ [] ∧
        c.attachment.applyLocal tx id = .ok (result, c'.attachment) ∧
        c'.operation = c.operation := by
  rw [DocumentController.applyLocal]
  split
  · next hedits => exact Or.inl ⟨_, rfl, fun _ => hedits⟩
  · next hedits =>
    split
    · exact Or.inl ⟨_, rfl, fun hok => by cases hok⟩
    · split
      · exact Or.inl ⟨_, rfl, fun hok => by cases hok⟩
      · next result a happly => exact Or.inr ⟨result, _, rfl, hedits, happly, rfl⟩

end Codegg.Documents
