import Codegg.Documents.Replica

/-!
# Recovery from an uncertain change

A writer that has lost the answer to a change does not know whether the daemon has applied
it. As long as no insertion is merged into a change already sent, the change is sent again
as it was, the daemon takes it for the one it knows or applies it, and a snapshot of the
document tells which of the two holds, whatever was typed meanwhile.
-/
namespace Codegg.Documents

open Codegg.Library TextTransaction DocumentController Attachment

namespace DocumentSystem

attribute [local simp] release finish

variable {dg : Digests} {room : ℕ} {earlier : List String} {s : DocumentSystem}

/-- An insertion and the one it continues lie in the text, so they fit in its size. -/
theorem Invariant.mergesWithin (hinv : Invariant dg maxDocumentTextBytes earlier s)
    (action : Action) : s.MergesWithin maxDocumentTextBytes action := by
  cases action with
  | applyLocal tx id =>
    intro hok last hlast
    obtain ⟨init, start, insert, more, hpending, hfirst, hsecond⟩ := mergeTarget_eq_some hlast
    have hlastTx := insertionOf_eq_some hfirst
    have htx := insertionOf_eq_some hsecond
    have hedits : tx.edits ≠ [] := by
      rw [htx]
      simp [insertAt]
    rcases s.controller.applyLocal_cases tx id with
      ⟨result, hsame, hempty⟩ | ⟨result, c, -, -, happly, -⟩
    · rw [hsame] at hok
      exact absurd (hempty hok) hedits
    · obtain ⟨-, htext, -⟩ := applyLocal_eq_ok hedits happly
      obtain ⟨base, -, hleads, -⟩ := hinv.queue
      rw [hpending] at hleads
      obtain ⟨mid, -, hfrom, hbuffer⟩ := leads_concat.mp hleads
      have happlies := hfrom.applies
      rw [hlastTx] at happlies
      obtain ⟨before, after, -, -, hresult⟩ := exists_split_of_insertAt happlies
      have hsize := byteLen_le_of_applyTo htext
      rw [htx] at htext
      obtain ⟨left, right, hleft, -, hnext⟩ := exists_split_of_insertAt htext
      have hbufferSize : byteLen s.controller.attachment.buffer.text =
          byteLen (before ++ insert ++ after) := congrArg byteLen (hbuffer.trans hresult)
      have hsplitSize := congrArg byteLen hleft
      rw [hnext] at hsize
      rw [hlastTx, htx, inserted_insertAt, inserted_insertAt]
      simp only [byteLen_append] at hsize hbufferSize hsplitSize
      have hlimit : protocolLimits.maxDocumentBytes = maxDocumentTextBytes := rfl
      omega
  | _ => trivial

theorem Invariant.runFrom (hinv : Invariant dg maxDocumentTextBytes earlier s)
    {actions : List Action} (hfresh : EachStep dg Fresh s actions)
    (hquiet : EachStep dg (Undisturbed dg) s actions)
    (hunsent : EachStep dg ContinuesUnsent s actions) :
    Invariant dg maxDocumentTextBytes earlier (s.run dg actions) := by
  induction actions generalizing s with
  | nil => exact hinv
  | cons action actions ih =>
    have hstep := hinv.step (by decide) hfresh.1 hquiet.1 hunsent.1 (hinv.mergesWithin action)
    exact ih hstep hfresh.2 hquiet.2 hunsent.2

/-- The daemon takes no change for another one. -/
theorem Invariant.no_collision (hinv : Invariant dg room earlier s) {m : Message}
    (hm : m ∈ s.requests) (turn : DaemonTurn) :
    (s.service.handle dg turn m.client m.request).1 ≠ .error (.service .changeCollision) := by
  intro h
  obtain ⟨r, hrequest, hcollision⟩ := DocumentService.handle_answered.of_collision h
  have hr := (hinv.requests m hm).2.1 r hrequest
  have hsent := hinv.sent r hr
  rcases hcollision with
    hid | ⟨doc, digest, revision, hdoc, hdocument, hseen, hdiffers⟩
  · have huuid := hsent.uuid
    rcases hid with hid | hid
    · rw [hid] at huuid
      exact absurd huuid (by decide)
    · omega
  · have hholds := hinv.document doc hdoc (hdocument.trans hsent.documentId)
    rcases hholds.recent _ (OpenDocument.mem_of_lookup_eq_some hseen) with
      hearlier | ⟨r', hr', hsame, hpayload, -⟩
    · exact hsent.new hearlier
    · have htransaction := (hinv.once r' hr' r hr hsame).1
      rw [htransaction] at hpayload
      exact hdiffers hpayload

/-- The daemon does not take the first pending change for a stale one. -/
theorem Invariant.no_stale (hinv : Invariant dg room earlier s) {m : Message} {r : ChangeRequest}
    (hm : m ∈ s.requests) (hrequest : m.request = .documentChange r)
    (hfirst : r.baseRevision = s.attachment.daemonRevision) (turn : DaemonTurn) :
    (s.service.handleChange dg turn m.client r).1 ≠ .error (.service .staleRevision) := by
  intro h
  obtain ⟨doc, hdoc, hdocument, hunseen, hstale⟩ := DocumentService.handleChange_stale h
  have hr := (hinv.requests m hm).2.1 r hrequest
  have hsent := hinv.sent r hr
  have hholds := hinv.document doc hdoc (hdocument.trans hsent.documentId)
  have hrevision : doc.buffer.revision = s.current.revision :=
    congrArg DocumentSnapshot.revision hholds.text
  have hle := hinv.revision_le
  have hahead : s.current.revision = s.attachment.daemonRevision + 1 := by omega
  rcases hsent.place with ⟨hbehind, -⟩ | ⟨p, rest, hcons, hcarries⟩
  · omega
  · obtain ⟨entry, hentry, hid⟩ := hholds.remembers hahead p (by rw [hcons]; rfl)
    have hnot := List.lookup_eq_none_iff.mp hunseen entry hentry
    rw [hid, ← hcarries.changeId] at hnot
    simp at hnot

/-- A snapshot of the attached document is taken over. -/
theorem Invariant.installs (hinv : Invariant dg room earlier s) {snapshot : DocumentSnapshotDto}
    (hdepicts : s.Depicts snapshot) (hid : snapshot.documentId = s.attachment.documentId)
    (lease : Option String) :
    ({ s.attachment with writerLease := lease }.installSnapshot snapshot).1 = .ok () := by
  obtain ⟨a, hinstall, -⟩ := hinv.installSnapshot hdepicts hid lease
  rw [hinstall]

/-- An answer that is no snapshot of another document does not leave the controller asking for a
resync. -/
theorem Invariant.resolves (hinv : Invariant dg room earlier s) {response : CoreResponse}
    (hanswers : s.Answers response)
    (hsame : ∀ snapshot lease, response = .documentSnapshot snapshot lease →
      snapshot.documentId = s.attachment.documentId) :
    (s.controller.receive (.ok response)).result ≠ some (.error .resyncRequired) := by
  have hreattach : ∀ snapshot lease, s.Depicts snapshot →
      snapshot.documentId = s.attachment.documentId →
      (s.controller.reattach snapshot lease).result ≠ some (.error .resyncRequired) := by
    intro snapshot lease hdepicts hid
    obtain ⟨a, hinstall, -⟩ := hinv.installSnapshot hdepicts hid lease
    rw [reattach, hinstall]
    simp
  rw [receive]
  split
  · rw [onChange.eq_def]
    split <;> simp
  · rw [onSave.eq_def]
    split
    · simp
    · simp only
      split <;> simp
    · simp
    · simp
  · rw [onResync.eq_def]
    split
    · simp
    · next snapshot lease hresponse =>
      cases hresponse
      obtain ⟨a, hinstall, -⟩ := hinv.installSnapshot
        (hanswers.snapshot snapshot lease rfl) (hsame snapshot lease rfl) s.attachment.writerLease
      have hown : s.attachment.installSnapshot snapshot = (.ok (), a) := hinstall
      rw [hown]
      simp
    · simp
  · rw [onReconnect.eq_def]
    split
    · simp
    · next snapshot lease hresponse =>
      cases hresponse
      have hid := hsame snapshot lease rfl
      rw [if_neg (not_not.mpr hid)]
      split
      · simp [await]
      · exact hreattach snapshot lease (hanswers.snapshot snapshot lease rfl) hid
    · simp
    · simp
  · next snapshot prior hop =>
    obtain ⟨hdepicts, hid⟩ := hinv.held snapshot prior hop
    rw [onReconnectWriter.eq_def]
    split
    · simp
    · next lease hresponse => exact hreattach snapshot (some lease) hdepicts hid
    · exact hreattach snapshot none hdepicts hid
  · simp

/-- Every change sent under an identifier is one change, and the daemon and the controller can
tell what became of it. -/
structure Recoverable (dg : Digests) (s : DocumentSystem) : Prop where
  onePayload : ∀ r ∈ s.sent, ∀ r' ∈ s.sent, r.changeId = r'.changeId →
    r.transaction = r'.transaction
  noCollision : ∀ m ∈ s.requests, ∀ turn,
    (s.service.handle dg turn m.client m.request).1 ≠ .error (.service .changeCollision)
  noStale : ∀ m ∈ s.requests, ∀ r, m.request = .documentChange r →
    r.baseRevision = s.attachment.daemonRevision → ∀ turn,
    (s.service.handleChange dg turn m.client r).1 ≠ .error (.service .staleRevision)
  installs : ∀ reply ∈ s.replies, s.awaiting = some reply.1 → ∀ snapshot lease,
    reply.2 = .documentSnapshot snapshot lease →
    snapshot.documentId = s.attachment.documentId → ∀ lease',
    ({ s.attachment with writerLease := lease' }.installSnapshot snapshot).1 = .ok ()
  resolves : ∀ reply ∈ s.replies, s.awaiting = some reply.1 →
    (∀ snapshot lease, reply.2 = .documentSnapshot snapshot lease →
      snapshot.documentId = s.attachment.documentId) →
    (s.controller.receive (.ok reply.2)).result ≠ some (.error .resyncRequired)

theorem Invariant.recoverable (hinv : Invariant dg room earlier s) : s.Recoverable dg where
  onePayload r hr r' hr' hid := (hinv.once r hr r' hr' hid).1
  noCollision _ hm turn := hinv.no_collision hm turn
  noStale _ hm _ hrequest hfirst turn := hinv.no_stale hm hrequest hfirst turn
  installs reply hreply hawait snapshot lease hresponse hid lease' :=
    hinv.installs (((hinv.replies reply hreply).2 hawait).snapshot snapshot lease hresponse) hid
      lease'
  resolves reply hreply hawait hsame := hinv.resolves ((hinv.replies reply hreply).2 hawait) hsame

/-- In every run in which nobody else changes the document and no insertion is merged into a
change already sent, every state is one from which an uncertain change is recovered. -/
theorem run_recoverable (dg : Digests) (doc : OpenDocument) (connection : String)
    (lease : Option String) (hsize : byteLen doc.buffer.text ≤ maxDocumentTextBytes)
    (actions : List Action) (hfresh : EachStep dg Fresh (attached doc connection lease) actions)
    (hquiet : EachStep dg (Undisturbed dg) (attached doc connection lease) actions)
    (hunsent : EachStep dg ContinuesUnsent (attached doc connection lease) actions) :
    ((attached doc connection lease).run dg actions).Recoverable dg :=
  ((invariant_attached dg maxDocumentTextBytes doc connection lease hsize).runFrom hfresh hquiet
    hunsent).recoverable

theorem run_recoverable_typedBefore :
    ((attached sampleDocument "first" (some "lease_0")).run sampleDigests
      typedBefore).Recoverable sampleDigests :=
  run_recoverable sampleDigests sampleDocument "first" (some "lease_0") (by decide) typedBefore
    (by decide +kernel) (by decide +kernel) (by decide +kernel)

/-- The change with the merged text is sent again under the identifier it had. -/
def sentAgain : List Action := typedBehind ++ [.beginFlush, .flush]

/-- The daemon answers the change sent again as a collision, and before that a snapshot has left
the controller asking for a resync. -/
theorem merged_text_collides :
    EachStep sampleDigests Fresh (attached sampleDocument "first" (some "lease_0")) sentAgain ∧
      EachStep sampleDigests (Undisturbed sampleDigests)
        (attached sampleDocument "first" (some "lease_0")) sentAgain ∧
      ¬ ((attached sampleDocument "first" (some "lease_0")).run sampleDigests
        sentAgain).Recoverable sampleDigests ∧
      ((attached sampleDocument "first" (some "lease_0")).run sampleDigests
        (sentAgain ++ [.serve 0 (sampleTurn "doc_2")])).replies.getLast? =
          some (1, .error (.service .changeCollision)) ∧
      (((attached sampleDocument "first" (some "lease_0")).run sampleDigests
        (typedBehind ++ [.resync])).controller.receive
          (.ok (.documentSnapshot (((attached sampleDocument "first" (some "lease_0")).run
            sampleDigests typedBehind).service.document.getD sampleDocument |>.snapshot "first")
              none))).result = some (.error .resyncRequired) := by
  refine ⟨by decide +kernel, by decide +kernel, fun h => ?_, by decide +kernel, by decide +kernel⟩
  have hdiffer : ¬ ∀ r ∈ ((attached sampleDocument "first" (some "lease_0")).run sampleDigests
      sentAgain).sent, ∀ r' ∈ ((attached sampleDocument "first" (some "lease_0")).run sampleDigests
      sentAgain).sent, r.changeId = r'.changeId → r.transaction = r'.transaction := by
    decide +kernel
  exact hdiffer h.onePayload

end DocumentSystem

end Codegg.Documents
