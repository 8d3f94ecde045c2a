import Codegg.Documents.System
import Codegg.Documents.Queue

/-!
# What holds between a writer and the daemon

The daemon is at the controller's revision or one change ahead of it, and then the change is
the first of the queue, sent as it stands there. Every request in the network, every answer
and every change the daemon remembers comes from a change that was sent. The operations of
the controller move its revision only over changes the daemon has applied.
-/
namespace Codegg.Documents

open Codegg.Library TextTransaction

/-- The edits of a group make up one change, each continuing the insertion before it. -/
inductive Coalesces : List TextTransaction → TextTransaction → Prop
  | one (tx : TextTransaction) : Coalesces [tx] tx
  | more {group : List TextTransaction} {start : ℕ} {insert : Rope} (more : Rope)
      (h : Coalesces group (insertAt start insert)) :
      Coalesces (group ++ [insertAt (start + byteLen insert) more]) (insertAt start (insert ++ more))

/-- The changes are the edits, in order, each edit in one of them. -/
def MadeOf (changes edits : List TextTransaction) : Prop :=
  ∃ groups : List (List TextTransaction), groups.flatten = edits ∧
    List.Forall₂ Coalesces groups changes

section MadeOf

variable {changes edits : List TextTransaction} {tx : TextTransaction}

theorem MadeOf.push (h : MadeOf changes edits) : MadeOf (changes ++ [tx]) (edits ++ [tx]) := by
  obtain ⟨groups, hflatten, hgroups⟩ := h
  refine ⟨groups ++ [[tx]], by simp [hflatten], ?_⟩
  exact List.rel_append hgroups (List.Forall₂.cons (.one tx) .nil)

theorem MadeOf.merge {start : ℕ} {insert more : Rope}
    (h : MadeOf (changes ++ [insertAt start insert]) edits) :
    MadeOf (changes ++ [insertAt start (insert ++ more)])
      (edits ++ [insertAt (start + byteLen insert) more]) := by
  obtain ⟨groups, hflatten, hgroups⟩ := h
  have hinit := List.forall₂_take_append groups changes _ hgroups
  have htail := List.forall₂_drop_append groups changes _ hgroups
  obtain ⟨last, hdrop, hlast⟩ : ∃ last, groups.drop changes.length = [last] ∧
      Coalesces last (insertAt start insert) := by
    generalize groups.drop changes.length = tail at htail
    cases htail with
    | cons hlast hnil =>
      cases hnil
      exact ⟨_, rfl, hlast⟩
  have hsplit := List.take_append_drop changes.length groups
  rw [hdrop] at hsplit
  refine ⟨groups.take changes.length ++ [last ++ [insertAt (start + byteLen insert) more]], ?_,
    List.rel_append hinit (.cons (.more more hlast) .nil)⟩
  rw [← hflatten, ← congrArg List.flatten hsplit]
  simp

theorem Coalesces.inserted {group : List TextTransaction} (h : Coalesces group tx) :
    tx.inserted = (group.map TextTransaction.inserted).sum := by
  induction h with
  | one tx => simp
  | @more group start insert more h ih =>
    rw [inserted_insertAt] at ih
    rw [List.map_append, List.sum_append, ← ih, List.map_singleton, List.sum_singleton,
      inserted_insertAt, inserted_insertAt, byteLen_append]

/-- The changes insert as much text as the edits. -/
theorem MadeOf.inserted (h : MadeOf changes edits) :
    (changes.map TextTransaction.inserted).sum = (edits.map TextTransaction.inserted).sum := by
  obtain ⟨groups, rfl, hgroups⟩ := h
  induction hgroups with
  | nil => rfl
  | cons hgroup _ ih =>
    rw [List.map_cons, List.sum_cons, List.flatten_cons, List.map_append, List.sum_append, ih,
      hgroup.inserted]

end MadeOf

/-- The request carries a pending change as it stands in the queue. -/
structure ChangeRequest.Carries (r : ChangeRequest) (p : PendingChange) : Prop where
  changeId : r.changeId = p.id
  base : r.baseRevision = p.baseRevision
  transaction : r.transaction = p.transaction

/-- A request that the controller waits on asks about the controller's revision. -/
structure DocumentController.Asks (c : DocumentController) (request : CoreRequest) : Prop where
  change : ∀ id, c.operation = .change id → ∀ r, request = .documentChange r →
    r.baseRevision = c.attachment.daemonRevision
  save : ∀ seq prior, c.operation = .save seq prior → ∀ projectId documentId lease revision,
    request = .documentSave projectId documentId lease revision →
    revision = c.attachment.daemonRevision

variable {p : PendingChange} {r : ChangeRequest} {request : CoreRequest}
  {response : Except String CoreResponse} {prior : DocumentState} {snapshot : DocumentSnapshotDto}

namespace DocumentSystem

variable (dg : Digests) (room : ℕ) (earlier : List String) (s : DocumentSystem)

/-- A change that was sent is of a revision behind the controller's, or it is the first pending
one. -/
structure SentChange (r : ChangeRequest) : Prop where
  documentId : r.documentId = s.attachment.documentId
  drawn : r.changeId ∈ s.drawn
  new : r.changeId ∉ earlier
  uuid : r.changeId.utf8ByteSize = 36
  edits : r.transaction.edits ≠ []
  place : (r.baseRevision < s.attachment.daemonRevision ∧
      ∀ p ∈ s.attachment.pending, r.changeId ≠ p.id) ∨
    ∃ p rest, s.attachment.pending = p :: rest ∧ r.Carries p

/-- The daemon's document, where it is still the attached one, has the text entered last, and
the changes it remembers are changes that were sent. -/
structure Holds (doc : OpenDocument) : Prop where
  projectId : doc.projectId = s.attachment.projectId
  text : doc.buffer.snapshot = s.current
  recent : ∀ entry ∈ doc.recent, entry.1 ∈ earlier ∨
    ∃ r ∈ s.sent, r.changeId = entry.1 ∧ entry.2.1 = dg.payload r.transaction ∧
      entry.2.2 = r.baseRevision + 1 ∧ r.baseRevision + 1 ≤ s.current.revision
  remembers : s.current.revision = s.attachment.daemonRevision + 1 →
    ∀ p ∈ s.attachment.pending.head?, ∃ entry ∈ doc.recent, entry.1 = p.id

/-- A snapshot of the attached document is of a revision from the controller's on. -/
def Depicts (snapshot : DocumentSnapshotDto) : Prop :=
  snapshot.documentId = s.attachment.documentId →
    snapshot.projectId = s.attachment.projectId ∧
      byteLen snapshot.text ≤ maxDocumentTextBytes ∧
      s.attachment.daemonRevision ≤ snapshot.revision ∧
      snapshot.revision ≤ s.current.revision ∧ s.textAt snapshot.revision = some snapshot.text

/-- An answer the controller waits for is true of the daemon. -/
structure Answers (response : CoreResponse) : Prop where
  change : ∀ id, s.controller.operation = .change id → ∀ revision,
    response = .documentChanged revision →
    revision = s.attachment.daemonRevision + 1 ∧ revision = s.current.revision
  save : ∀ seq prior, s.controller.operation = .save seq prior → ∀ revision digest,
    response = .documentSaved revision digest → revision = s.attachment.daemonRevision
  snapshot : ∀ snapshot lease, response = .documentSnapshot snapshot lease → s.Depicts snapshot

structure Invariant : Prop where
  queue : ∃ base, s.textAt s.attachment.daemonRevision = some base ∧
    Leads room s.attachment.daemonRevision base s.attachment.pending s.attachment.buffer.text ∧
    s.attachment.Shows base s.current.revision s.current.text
  ids : (s.attachment.pending.map PendingChange.id).Nodup
  pending : ∀ p ∈ s.attachment.pending, p.id ∈ s.drawn ∧ p.id ∉ earlier ∧ p.id.utf8ByteSize = 36
  sent : ∀ r ∈ s.sent, s.SentChange earlier r
  once : ∀ r ∈ s.sent, ∀ r' ∈ s.sent, r.changeId = r'.changeId →
    r.transaction = r'.transaction ∧ r.baseRevision = r'.baseRevision
  front : s.current.revision = s.attachment.daemonRevision + 1 →
    ∀ p ∈ s.attachment.pending.head?, ∃ r ∈ s.sent, r.changeId = p.id
  attached : s.attachment.documentId ∈ s.drawn
  known : ∀ id ∈ earlier, id ∈ s.drawn
  document : ∀ doc, s.service.document = some doc → doc.id = s.attachment.documentId →
    s.Holds dg earlier doc
  size : byteLen s.current.text ≤ maxDocumentTextBytes
  awaiting : ∀ token, s.awaiting = some token → token < s.nextToken
  requests : ∀ m ∈ s.requests, m.token < s.nextToken ∧
    (∀ r, m.request = .documentChange r → r ∈ s.sent) ∧
    (s.awaiting = some m.token → s.controller.Asks m.request)
  replies : ∀ reply ∈ s.replies, reply.1 < s.nextToken ∧
    (s.awaiting = some reply.1 → s.Answers reply.2)
  held : ∀ snapshot prior, s.controller.operation = .reconnectWriter snapshot prior →
    s.Depicts snapshot ∧ snapshot.documentId = s.attachment.documentId
  edits : MadeOf (s.applied ++ (s.attachment.pending.drop
    (s.current.revision - s.attachment.daemonRevision)).map PendingChange.transaction) s.made

section Queue

variable {dg room earlier s}

@[simp] theorem textAt_current (s : DocumentSystem) :
    s.textAt s.current.revision = some s.current.text := by
  simp [textAt]

theorem Invariant.revision_le (h : Invariant dg room earlier s) :
    s.attachment.daemonRevision ≤ s.current.revision ∧
      s.current.revision ≤ s.attachment.daemonRevision + 1 := by
  obtain ⟨base, -, -, hshows⟩ := h.queue
  rcases hshows with ⟨hrevision, -⟩ | ⟨hrevision, -⟩ <;> omega

/-- What a snapshot shows, seen from the queue. -/
theorem Invariant.shows_of_textAt (h : Invariant dg room earlier s) {base text : Rope} {revision : ℕ}
    (hbase : s.textAt s.attachment.daemonRevision = some base)
    (hlow : s.attachment.daemonRevision ≤ revision) (hhigh : revision ≤ s.current.revision)
    (htext : s.textAt revision = some text) : s.attachment.Shows base revision text := by
  obtain ⟨base', hbase', -, hshows⟩ := h.queue
  rcases Nat.eq_or_lt_of_le hlow with heq | hlt
  · subst heq
    rw [hbase] at htext
    exact .inl ⟨rfl, (Option.some.inj htext).symm⟩
  · have hcurrent : revision = s.current.revision := by
      have hle := h.revision_le
      omega
    subst hcurrent
    rw [textAt_current] at htext
    rcases hshows with ⟨hrevision, -⟩ | ⟨hrevision, p, rest, hpending, hresult⟩
    · omega
    · exact Or.inr ⟨hrevision, p, rest, hpending, by rw [← hresult, Option.some.inj htext]⟩

end Queue

/-- A turn of the controller that moves its revision forward over changes the daemon has
applied, and asks only what is true of the queue. -/
structure Advances (turn : DocumentController.Turn) : Prop where
  projectId : turn.controller.attachment.projectId = s.attachment.projectId
  documentId : turn.controller.attachment.documentId = s.attachment.documentId
  low : s.attachment.daemonRevision ≤ turn.controller.attachment.daemonRevision
  high : turn.controller.attachment.daemonRevision ≤ s.current.revision
  pending : turn.controller.attachment.pending = s.attachment.pending.drop
    (turn.controller.attachment.daemonRevision - s.attachment.daemonRevision)
  buffer : turn.controller.attachment.buffer.text = s.attachment.buffer.text
  held : ∀ snapshot prior, turn.controller.operation = .reconnectWriter snapshot prior →
    { s with controller := turn.controller }.Depicts snapshot ∧
      snapshot.documentId = s.attachment.documentId
  asks : ∀ request, turn.request = some request → turn.controller.Asks request
  carries : ∀ r, turn.request = some (.documentChange r) →
    r.documentId = s.attachment.documentId ∧
      ∃ p rest, turn.controller.attachment.pending = p :: rest ∧ r.Carries p

section Perform

variable {dg room earlier s} {turn : DocumentController.Turn}

theorem Advances.cases (h : s.Advances turn) (hinv : Invariant dg room earlier s) :
    (turn.controller.attachment.daemonRevision = s.attachment.daemonRevision ∧
        turn.controller.attachment.pending = s.attachment.pending) ∨
      (turn.controller.attachment.daemonRevision = s.attachment.daemonRevision + 1 ∧
        s.current.revision = s.attachment.daemonRevision + 1 ∧
        ∃ p rest, s.attachment.pending = p :: rest ∧ turn.controller.attachment.pending = rest ∧
          s.current.text = p.resultingSnapshot.text) := by
  have hle := hinv.revision_le
  have hlow := h.low
  have hhigh := h.high
  have hpending := h.pending
  rcases Nat.eq_or_lt_of_le hlow with heq | hlt
  · left
    rw [← heq, Nat.sub_self] at hpending
    exact ⟨heq.symm, hpending⟩
  · right
    have hnext : turn.controller.attachment.daemonRevision = s.attachment.daemonRevision + 1 := by
      omega
    have hcurrent : s.current.revision = s.attachment.daemonRevision + 1 := by omega
    obtain ⟨base, -, -, ⟨hrevision, -⟩ | ⟨-, p, rest, hcons, hresult⟩⟩ := hinv.queue
    · omega
    · rw [hnext, Nat.add_sub_cancel_left, hcons] at hpending
      exact ⟨hnext, hcurrent, p, rest, hcons, hpending, hresult⟩

theorem Advances.queue (h : s.Advances turn) (hinv : Invariant dg room earlier s) :
    ∃ base, s.textAt turn.controller.attachment.daemonRevision = some base ∧
      Leads room turn.controller.attachment.daemonRevision base turn.controller.attachment.pending
        turn.controller.attachment.buffer.text ∧
      turn.controller.attachment.Shows base s.current.revision s.current.text := by
  obtain ⟨base, hbase, hleads, hshows⟩ := hinv.queue
  rcases h.cases hinv with ⟨hrevision, hpending⟩ | ⟨hrevision, hcurrent, p, rest, hcons, hpending, htext⟩
  · refine ⟨base, ?_, ?_, ?_⟩
    · rw [hrevision]
      exact hbase
    · rw [hrevision, hpending, h.buffer]
      exact hleads
    · rw [Attachment.Shows, hrevision, hpending]
      exact hshows
  · refine ⟨s.current.text, ?_, ?_, .inl ⟨hcurrent.trans hrevision.symm, rfl⟩⟩
    · rw [hrevision, ← hcurrent, textAt_current]
    · rw [hcons] at hleads
      rw [hrevision, hpending, h.buffer, htext]
      exact hleads.2

theorem Advances.pending_subset (h : s.Advances turn) (hp : p ∈ turn.controller.attachment.pending) :
    p ∈ s.attachment.pending := by
  rw [h.pending] at hp
  exact List.mem_of_mem_drop hp

/-- A change that was sent is behind the new revision, or still the first of the queue. -/
theorem Advances.place (h : s.Advances turn) (hinv : Invariant dg room earlier s)
    (hr : s.SentChange earlier r) :
    (r.baseRevision < turn.controller.attachment.daemonRevision ∧
        ∀ p ∈ turn.controller.attachment.pending, r.changeId ≠ p.id) ∨
      ∃ p rest, turn.controller.attachment.pending = p :: rest ∧ r.Carries p := by
  rcases hr.place with ⟨hbase, hids⟩ | ⟨p, rest, hcons, hcarries⟩
  · left
    have hlow := h.low
    exact ⟨by omega, fun p hp => hids p (h.pending_subset hp)⟩
  · rcases h.cases hinv with ⟨-, hpending⟩ | ⟨hrevision, -, q, rest', hcons', hpending, -⟩
    · right
      exact ⟨p, rest, hpending.trans hcons, hcarries⟩
    · left
      obtain ⟨base, -, hleads, -⟩ := hinv.queue
      have hids := hinv.ids
      rw [hcons] at hcons' hleads hids
      cases hcons'
      refine ⟨?_, fun q hq heq => ?_⟩
      · rw [hcarries.base, hleads.1.base]
        omega
      · rw [hpending] at hq
        rw [hcarries.changeId] at heq
        exact (List.nodup_cons.mp hids).1 (heq ▸ List.mem_map_of_mem hq)

/-- While the daemon is ahead of the new revision the queue has not moved. -/
theorem Advances.front_eq (h : s.Advances turn) (hinv : Invariant dg room earlier s)
    (hahead : s.current.revision = turn.controller.attachment.daemonRevision + 1) :
    s.current.revision = s.attachment.daemonRevision + 1 ∧
      turn.controller.attachment.pending = s.attachment.pending := by
  rcases h.cases hinv with ⟨hrevision, hpending⟩ | ⟨hrevision, hcurrent, -⟩
  · rw [hrevision] at hahead
    exact ⟨hahead, hpending⟩
  · omega

theorem Advances.edits (h : s.Advances turn) :
    turn.controller.attachment.pending.drop
        (s.current.revision - turn.controller.attachment.daemonRevision) =
      s.attachment.pending.drop (s.current.revision - s.attachment.daemonRevision) := by
  have hlow := h.low
  have hhigh := h.high
  rw [h.pending, List.drop_drop]
  congr 1
  omega

/-- The controller's side of a turn. -/
theorem Invariant.advance (hinv : Invariant dg room earlier s) (h : s.Advances turn) :
    Invariant dg room earlier { s with controller := turn.controller, awaiting := none } where
  queue := h.queue hinv
  ids := by
    have hsublist : turn.controller.attachment.pending.Sublist s.attachment.pending := by
      rw [h.pending]
      exact List.drop_sublist _ _
    exact (hsublist.map PendingChange.id).nodup hinv.ids
  pending p hp := hinv.pending p (h.pending_subset hp)
  sent r hr :=
    { hinv.sent r hr with
      documentId := (hinv.sent r hr).documentId.trans h.documentId.symm
      place := h.place hinv (hinv.sent r hr) }
  once := hinv.once
  front hahead p hp := by
    obtain ⟨hcurrent, hpending⟩ := h.front_eq hinv hahead
    exact hinv.front hcurrent p (by rwa [← hpending])
  attached := by
    have hdrawn := hinv.attached
    rw [← h.documentId] at hdrawn
    exact hdrawn
  known := hinv.known
  document doc hdoc hid := by
    have hholds := hinv.document doc hdoc (hid.trans h.documentId)
    refine ⟨hholds.projectId.trans h.projectId.symm, hholds.text, hholds.recent, ?_⟩
    intro hahead p hp
    obtain ⟨hcurrent, hpending⟩ := h.front_eq hinv hahead
    exact hholds.remembers hcurrent p (by rwa [← hpending])
  size := hinv.size
  awaiting token htoken := by cases htoken
  requests m hm :=
    ⟨(hinv.requests m hm).1, (hinv.requests m hm).2.1, fun hawait => by cases hawait⟩
  replies reply hreply := ⟨(hinv.replies reply hreply).1, fun hawait => by cases hawait⟩
  held snapshot prior hop := by
    obtain ⟨hdepicts, hid⟩ := h.held snapshot prior hop
    exact ⟨hdepicts, hid.trans h.documentId.symm⟩
  edits := by
    have hedits := hinv.edits
    rw [← h.edits] at hedits
    exact hedits

theorem mem_sent_sendRequest :
    r ∈ (s.sendRequest request).sent ↔ r ∈ s.sent ∨ request = .documentChange r := by
  cases request <;> simp [sendRequest, eq_comm]

theorem subset_sent_sendRequest (hr : r ∈ s.sent) :
    r ∈ (s.sendRequest request).sent :=
  mem_sent_sendRequest.mpr (.inl hr)

/-- The first pending change, sent once more or for the first time. -/
theorem Invariant.sentChange_of_carries (hinv : Invariant dg room earlier s)
    {rest : List PendingChange} (hdocument : r.documentId = s.attachment.documentId)
    (hcons : s.attachment.pending = p :: rest) (hcarries : r.Carries p) :
    s.SentChange earlier r := by
  have hp : p ∈ s.attachment.pending := by
    rw [hcons]
    exact List.mem_cons_self
  obtain ⟨hdrawn, hnew, huuid⟩ := hinv.pending p hp
  obtain ⟨base, -, hleads, -⟩ := hinv.queue
  rw [← hcarries.changeId] at hdrawn hnew huuid
  exact
    { documentId := hdocument
      drawn := hdrawn
      new := hnew
      uuid := huuid
      edits := hcarries.transaction ▸ hleads.edits hp
      place := .inr ⟨p, rest, hcons, hcarries⟩ }

/-- Two requests under one identifier carry one change. -/
theorem SentChange.eq_of_carries {r' : ChangeRequest} {rest : List PendingChange}
    (hcons : s.attachment.pending = p :: rest) (hcarries : r.Carries p)
    (hr' : s.SentChange earlier r') (hid : r.changeId = r'.changeId) :
    r.transaction = r'.transaction ∧ r.baseRevision = r'.baseRevision := by
  rcases hr'.place with ⟨-, hids⟩ | ⟨q, rest', hcons', hcarries'⟩
  · have hp : p ∈ s.attachment.pending := by
      rw [hcons]
      exact List.mem_cons_self
    exact absurd (hid.symm.trans hcarries.changeId) (hids p hp)
  · rw [hcons] at hcons'
    cases hcons'
    exact ⟨hcarries.transaction.trans hcarries'.transaction.symm,
      hcarries.base.trans hcarries'.base.symm⟩

theorem Invariant.sendRequest (hinv : Invariant dg room earlier s)
    (hasks : s.controller.Asks request)
    (hcarries : ∀ r, request = .documentChange r → r.documentId = s.attachment.documentId ∧
      ∃ p rest, s.attachment.pending = p :: rest ∧ r.Carries p) :
    Invariant dg room earlier (s.sendRequest request) where
  queue := hinv.queue
  ids := hinv.ids
  pending := hinv.pending
  sent r hr := by
    rcases mem_sent_sendRequest.mp hr with hr | hr
    · exact { hinv.sent r hr with }
    · obtain ⟨hdocument, p, rest, hcons, hp⟩ := hcarries r hr
      exact { hinv.sentChange_of_carries hdocument hcons hp with }
  once r hr r' hr' hid := by
    rcases mem_sent_sendRequest.mp hr with hr | hr <;>
      rcases mem_sent_sendRequest.mp hr' with hr' | hr'
    · exact hinv.once r hr r' hr' hid
    · obtain ⟨-, p, rest, hcons, hp⟩ := hcarries r' hr'
      obtain ⟨htransaction, hbase⟩ := SentChange.eq_of_carries hcons hp (hinv.sent r hr) hid.symm
      exact ⟨htransaction.symm, hbase.symm⟩
    · obtain ⟨-, p, rest, hcons, hp⟩ := hcarries r hr
      exact SentChange.eq_of_carries hcons hp (hinv.sent r' hr') hid
    · rw [hr] at hr'
      cases hr'
      exact ⟨rfl, rfl⟩
  front hahead p hp := by
    obtain ⟨r, hr, hid⟩ := hinv.front hahead p hp
    exact ⟨r, subset_sent_sendRequest hr, hid⟩
  attached := hinv.attached
  known := hinv.known
  document doc hdoc hid := by
    have hholds := hinv.document doc hdoc hid
    refine ⟨hholds.projectId, hholds.text, fun entry hentry => ?_, hholds.remembers⟩
    rcases hholds.recent entry hentry with hearlier | ⟨r, hr, hseen⟩
    · exact .inl hearlier
    · exact .inr ⟨r, subset_sent_sendRequest hr, hseen⟩
  size := hinv.size
  awaiting token htoken := by
    cases htoken
    exact Nat.lt_succ_self s.nextToken
  requests m hm := by
    rcases List.mem_append.mp hm with hm | hm
    · obtain ⟨htoken, hsent, -⟩ := hinv.requests m hm
      refine ⟨Nat.lt_succ_of_lt htoken, fun r hr => subset_sent_sendRequest (hsent r hr), ?_⟩
      intro hawait
      rw [← Option.some.inj hawait] at htoken
      exact absurd htoken (Nat.lt_irrefl s.nextToken)
    · rw [List.mem_singleton] at hm
      subst hm
      exact ⟨Nat.lt_succ_self s.nextToken, fun r hr => mem_sent_sendRequest.mpr (.inr hr),
        fun _ => hasks⟩
  replies reply hreply := by
    obtain ⟨htoken, -⟩ := hinv.replies reply hreply
    refine ⟨Nat.lt_succ_of_lt htoken, fun hawait => ?_⟩
    rw [← Option.some.inj hawait] at htoken
    exact absurd htoken (Nat.lt_irrefl s.nextToken)
  held := hinv.held
  edits := hinv.edits

theorem Invariant.perform (hinv : Invariant dg room earlier s) (h : s.Advances turn) :
    Invariant dg room earlier (s.perform turn) := by
  have hadvanced := hinv.advance h
  rw [DocumentSystem.perform]
  split
  · exact hadvanced
  · next request hrequest =>
    refine hadvanced.sendRequest (h.asks request hrequest) fun r hr => ?_
    obtain ⟨hdocument, hcons⟩ := h.carries r (hr ▸ hrequest)
    exact ⟨hdocument.trans h.documentId.symm, hcons⟩

end Perform

section Turns

open DocumentController Attachment

variable {dg room earlier s} {c : DocumentController} {result : Except DocumentControllerError Unit}
  {state : DocumentState}

/-- A turn that neither touches the queue nor asks anything. -/
theorem Invariant.advances_quiet (hinv : Invariant dg room earlier s) {turn : Turn}
    (h : s.attachment.SameQueue turn.controller.attachment) (hrequest : turn.request = none)
    (hop : ∀ snapshot prior, turn.controller.operation ≠ .reconnectWriter snapshot prior) :
    s.Advances turn where
  projectId := h.projectId
  documentId := h.documentId
  low := h.daemonRevision.ge
  high := h.daemonRevision.le.trans hinv.revision_le.1
  pending := by
    rw [h.daemonRevision, Nat.sub_self]
    exact h.pending
  buffer := h.buffer
  held snapshot prior hheld := absurd hheld (hop snapshot prior)
  asks request hsome := by
    rw [hrequest] at hsome
    cases hsome
  carries r hsome := by
    rw [hrequest] at hsome
    cases hsome

/-- An operation that ends without touching the queue. -/
theorem Invariant.advances_release (hinv : Invariant dg room earlier s)
    (h : s.attachment.SameQueue c.attachment) : s.Advances (release c result state) :=
  hinv.advances_quiet h rfl fun _ _ hop => by cases hop

/-- An operation that asks something without touching the queue. -/
theorem Invariant.advances_await (hinv : Invariant dg room earlier s)
    (h : s.attachment.SameQueue c.attachment) {operation : Operation}
    (hchange : ∀ id, operation ≠ .change id) (hnot : ∀ r, request ≠ .documentChange r)
    (hsave : ∀ seq prior, operation = .save seq prior → ∀ projectId documentId lease revision,
      request = .documentSave projectId documentId lease revision →
      revision = s.attachment.daemonRevision)
    (hheld : ∀ snapshot prior, operation = .reconnectWriter snapshot prior →
      { s with controller := { c with operation := operation } }.Depicts snapshot ∧
        snapshot.documentId = s.attachment.documentId) :
    s.Advances (await c operation request) where
  projectId := h.projectId
  documentId := h.documentId
  low := h.daemonRevision.ge
  high := h.daemonRevision.le.trans hinv.revision_le.1
  pending := by
    have hrevision : (await c operation request).controller.attachment.daemonRevision =
        s.attachment.daemonRevision := h.daemonRevision
    rw [hrevision, Nat.sub_self]
    exact h.pending
  buffer := h.buffer
  held := hheld
  asks request' hrequest := by
    cases hrequest
    refine ⟨fun id hop => absurd hop (hchange id), ?_⟩
    intro seq prior hop projectId documentId lease revision heq
    exact (hsave seq prior hop projectId documentId lease revision heq).trans
      h.daemonRevision.symm
  carries r hrequest := by
    cases hrequest
    exact absurd rfl (hnot r)

theorem Invariant.advances_flush (hinv : Invariant dg room earlier s) :
    s.Advances s.controller.flush := by
  obtain ⟨base, -, hleads, -⟩ := hinv.queue
  rw [DocumentController.flush]
  split
  · exact hinv.advances_release (.refl _)
  · split
    · exact hinv.advances_release (.refl _)
    · exact hinv.advances_release (.refl _)
    · next p rest lease hcons hlease =>
      have hfront : p.From room s.attachment.daemonRevision base := by
        rw [hcons] at hleads
        exact hleads.1
      exact
        { projectId := rfl
          documentId := rfl
          low := le_refl _
          high := hinv.revision_le.1
          pending := by simp [await]
          buffer := rfl
          held := fun _ _ hop => by cases hop
          asks := fun request hrequest => by
            cases hrequest
            refine ⟨fun id hop r hr => ?_, fun seq prior hop => by cases hop⟩
            cases hr
            exact hfront.base
          carries := fun r hrequest => by
            cases hrequest
            exact ⟨rfl, p, rest, hcons, rfl, rfl, hfront.dto⟩ }

theorem Invariant.advances_onChange (hinv : Invariant dg room earlier s) {id : String}
    (hop : s.controller.operation = .change id)
    (h : ∀ answer, response = .ok answer → s.Answers answer) :
    s.Advances (s.controller.onChange id response) := by
  rw [onChange.eq_def]
  split
  · exact hinv.advances_release ⟨⟨rfl, rfl, rfl⟩, rfl, rfl⟩
  · next revision =>
    obtain ⟨hrevision, hcurrent⟩ := (h _ rfl).change id hop revision rfl
    obtain ⟨hproject, hdocument, hbuffer⟩ :=
      popFront_fields { s.attachment with inFlight := none } id
    exact
      { projectId := hproject
        documentId := hdocument
        low := by
          have hle : s.attachment.daemonRevision ≤ revision := by omega
          exact hle
        high := hcurrent.le
        pending := by
          have hdrop : revision - s.attachment.daemonRevision = 1 := by omega
          simp only [hdrop]
          exact pending_popFront _ id
        buffer := congrArg DocumentBuffer.text hbuffer
        held := fun _ _ hop => by cases hop
        asks := fun _ hrequest => by cases hrequest
        carries := fun _ hrequest => by cases hrequest }
  · exact hinv.advances_release ⟨⟨rfl, rfl, rfl⟩, rfl, rfl⟩

theorem Invariant.advances_save (hinv : Invariant dg room earlier s) :
    s.Advances s.controller.save := by
  rw [save]
  split
  · exact hinv.advances_release (.refl _)
  · split
    · exact hinv.advances_release (.refl _)
    · apply hinv.advances_await
      · exact ⟨⟨rfl, rfl, rfl⟩, rfl, rfl⟩
      · rintro id ⟨⟩
      · rintro r ⟨⟩
      · rintro seq prior - projectId documentId lease revision hrequest
        cases hrequest
        rfl
      · rintro snapshot prior ⟨⟩

theorem Invariant.advances_onSave (hinv : Invariant dg room earlier s) {seq : ℕ}
    (hop : s.controller.operation = .save seq prior)
    (h : ∀ answer, response = .ok answer → s.Answers answer) :
    s.Advances (s.controller.onSave seq response) := by
  rw [onSave.eq_def]
  split
  · exact hinv.advances_release ⟨⟨rfl, rfl, rfl⟩, rfl, rfl⟩
  · next revision digest =>
    have hrevision := (h _ rfl).save seq prior hop revision digest rfl
    simp only
    split
    · exact hinv.advances_release ⟨⟨rfl, rfl, hrevision⟩, rfl, rfl⟩
    · exact hinv.advances_release ⟨⟨rfl, rfl, hrevision⟩, rfl, rfl⟩
  · exact hinv.advances_release ⟨⟨rfl, rfl, rfl⟩, rfl, rfl⟩
  · exact hinv.advances_release ⟨⟨rfl, rfl, rfl⟩, rfl, rfl⟩

/-- A snapshot of the attached document is taken over, under whatever lease. -/
theorem Invariant.installSnapshot (hinv : Invariant dg room earlier s)
    (hdepicts : s.Depicts snapshot) (hid : snapshot.documentId = s.attachment.documentId)
    (lease : Option String) :
    ∃ a, { s.attachment with writerLease := lease }.installSnapshot snapshot = (.ok (), a) ∧
      a.projectId = s.attachment.projectId ∧ a.documentId = s.attachment.documentId ∧
      a.daemonRevision = snapshot.revision ∧ a.buffer.text = s.attachment.buffer.text ∧
      a.pending = s.attachment.pending.drop (snapshot.revision - s.attachment.daemonRevision) := by
  obtain ⟨hproject, hsize, hlow, hhigh, htext⟩ := hdepicts hid
  obtain ⟨base, hbase, hleads, -⟩ := hinv.queue
  have hshows := hinv.shows_of_textAt hbase hlow hhigh htext
  exact installSnapshot_of_shows { s.attachment with writerLease := lease } hleads hid hproject
    hsize hshows

/-- The end of an operation that has taken over a snapshot. -/
theorem Depicts.advances_release (hdepicts : s.Depicts snapshot)
    (hid : snapshot.documentId = s.attachment.documentId)
    (hproject : c.attachment.projectId = s.attachment.projectId)
    (hdocument : c.attachment.documentId = s.attachment.documentId)
    (hrevision : c.attachment.daemonRevision = snapshot.revision)
    (hbuffer : c.attachment.buffer.text = s.attachment.buffer.text)
    (hpending : c.attachment.pending =
      s.attachment.pending.drop (snapshot.revision - s.attachment.daemonRevision)) :
    s.Advances (release c result state) where
  projectId := hproject
  documentId := hdocument
  low := (hdepicts hid).2.2.1.trans hrevision.ge
  high := hrevision.le.trans (hdepicts hid).2.2.2.1
  pending := by
    rw [← hrevision] at hpending
    exact hpending
  buffer := hbuffer
  held _ _ hop := by cases hop
  asks _ hrequest := by cases hrequest
  carries _ hrequest := by cases hrequest

theorem Invariant.advances_reattach (hinv : Invariant dg room earlier s)
    (hdepicts : s.Depicts snapshot) (hid : snapshot.documentId = s.attachment.documentId)
    (lease : Option String) :
    s.Advances (s.controller.reattach snapshot lease) := by
  obtain ⟨a, hinstall, hproject, hdocument, hrevision, hbuffer, hpending⟩ :=
    hinv.installSnapshot hdepicts hid lease
  rw [reattach, hinstall]
  exact hdepicts.advances_release hid hproject hdocument hrevision hbuffer hpending

theorem Invariant.advances_onResync (hinv : Invariant dg room earlier s)
    (h : ∀ answer, response = .ok answer → s.Answers answer) :
    s.Advances (s.controller.onResync prior response) := by
  rw [onResync.eq_def]
  split
  · exact hinv.advances_release (.refl _)
  · next snapshot lease =>
    have hdepicts := (h _ rfl).snapshot snapshot lease rfl
    by_cases hid : snapshot.documentId = s.attachment.documentId
    · obtain ⟨a, hinstall, hproject, hdocument, hrevision, hbuffer, hpending⟩ :=
        hinv.installSnapshot hdepicts hid s.attachment.writerLease
      have hsame : s.attachment.installSnapshot snapshot = (.ok (), a) := hinstall
      rw [hsame]
      exact hdepicts.advances_release hid hproject hdocument hrevision hbuffer hpending
    · rw [Attachment.installSnapshot, if_pos (Or.inl hid)]
      exact hinv.advances_release (.refl _)
  · exact hinv.advances_release (.refl _)

theorem Invariant.advances_onReconnect (hinv : Invariant dg room earlier s) {wantsWriter : Bool}
    (h : ∀ answer, response = .ok answer → s.Answers answer) :
    s.Advances (s.controller.onReconnect wantsWriter prior response) := by
  rw [onReconnect.eq_def]
  split
  · exact hinv.advances_release ⟨⟨rfl, rfl, rfl⟩, rfl, rfl⟩
  · next snapshot lease =>
    have hdepicts := (h _ rfl).snapshot snapshot lease rfl
    simp only
    split
    · exact hinv.advances_release (.refl _)
    · next hid =>
      split
      · apply hinv.advances_await
        · exact .refl _
        · rintro id ⟨⟩
        · rintro r ⟨⟩
        · rintro seq prior ⟨⟩
        · intro snapshot' prior' hop
          cases hop
          exact ⟨hdepicts, not_not.mp hid⟩
      · exact hinv.advances_reattach hdepicts (not_not.mp hid) lease
  · exact hinv.advances_release (.refl _)
  · exact hinv.advances_release (.refl _)

theorem Invariant.advances_onReconnectWriter (hinv : Invariant dg room earlier s)
    (hop : s.controller.operation = .reconnectWriter snapshot prior)
    (response : Except String CoreResponse) :
    s.Advances (s.controller.onReconnectWriter snapshot response) := by
  obtain ⟨hdepicts, hid⟩ := hinv.held snapshot prior hop
  rw [onReconnectWriter.eq_def]
  split
  · exact hinv.advances_release (.refl _)
  · next lease => exact hinv.advances_reattach hdepicts hid (some lease)
  · exact hinv.advances_reattach hdepicts hid none

/-- What an answer, or its loss, does to the queue. -/
theorem Invariant.advances_receive (hinv : Invariant dg room earlier s)
    (h : ∀ answer, response = .ok answer → s.Answers answer) :
    s.Advances (s.controller.receive response) := by
  rw [receive]
  split
  · next hop => exact hinv.advances_onChange hop h
  · next hop => exact hinv.advances_onSave hop h
  · exact hinv.advances_onResync h
  · exact hinv.advances_onReconnect h
  · next hop => exact hinv.advances_onReconnectWriter hop response
  · next hchange hsave hresync hreconnect hwriter =>
    exact hinv.advances_quiet (.refl _) rfl hwriter

theorem Invariant.advances_resync (hinv : Invariant dg room earlier s) :
    s.Advances s.controller.resync := by
  apply hinv.advances_await
  · exact ⟨⟨rfl, rfl, rfl⟩, rfl, rfl⟩
  · rintro id ⟨⟩
  · rintro r ⟨⟩
  · rintro seq prior ⟨⟩
  · rintro snapshot prior ⟨⟩

theorem Invariant.advances_reconnect (hinv : Invariant dg room earlier s) :
    s.Advances s.controller.reconnect := by
  apply hinv.advances_await
  · exact ⟨⟨rfl, rfl, rfl⟩, rfl, rfl⟩
  · rintro id ⟨⟩
  · rintro r ⟨⟩
  · rintro seq prior ⟨⟩
  · rintro snapshot prior ⟨⟩

/-- An operation dropped while it waits leaves the queue. -/
theorem Invariant.cancel (hinv : Invariant dg room earlier s) :
    Invariant dg room earlier { s with controller := s.controller.cancel, awaiting := none } := by
  have hsame : s.attachment.SameQueue s.controller.cancel.attachment ∧
      s.controller.cancel.operation = .idle := by
    rw [DocumentController.cancel]
    split <;> exact ⟨⟨⟨rfl, rfl, rfl⟩, rfl, rfl⟩, rfl⟩
  have hadvances : s.Advances { result := none, request := none, controller := s.controller.cancel } :=
    hinv.advances_quiet hsame.1 rfl fun _ _ hop => by cases hsame.2.symm.trans hop
  exact hinv.advance hadvances

end Turns

end DocumentSystem

end Codegg.Documents
