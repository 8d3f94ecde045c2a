import Codegg.Documents.Invariant

/-!
# The replica of a writer

In every run of one writer in which nobody else changes the document and no insertion is
merged into a change already sent, the pending changes lead from the daemon's text at the
controller's revision to the buffer, and the changes the daemon applied, followed by the
pending ones it has not, are the local edits in the order they were made.
-/
namespace Codegg.Documents

open Codegg.Library TextTransaction DocumentSnapshot DocumentService PendingChange

variable {c : DocumentController} {service : DocumentService} {doc' : OpenDocument}
  {request : CoreRequest} {turn : DaemonTurn}

namespace DocumentSystem

variable {dg : Digests} {room : ℕ} {earlier : List String} {s : DocumentSystem}

section LocalEdits

open DocumentController Attachment

variable {tx : TextTransaction} {id : String}

theorem Invariant.draw (hinv : Invariant dg room earlier s) (id : String) :
    Invariant dg room earlier { s with drawn := id :: s.drawn } :=
  { hinv with
    pending := fun p hp =>
      ⟨List.mem_cons_of_mem id (hinv.pending p hp).1, (hinv.pending p hp).2⟩
    sent := fun r hr =>
      { hinv.sent r hr with drawn := List.mem_cons_of_mem id (hinv.sent r hr).drawn }
    attached := List.mem_cons_of_mem id hinv.attached
    known := fun x hx => List.mem_cons_of_mem id (hinv.known x hx)
    document := fun doc hdoc hid => { hinv.document doc hdoc hid with }
    replies := fun reply hreply =>
      ⟨(hinv.replies reply hreply).1, fun hawait =>
        { (hinv.replies reply hreply).2 hawait with }⟩ }

theorem Depicts.of_sameBase {snapshot : DocumentSnapshotDto}
    (h : s.attachment.SameBase c.attachment) (hdepicts : s.Depicts snapshot) :
    { s with controller := c }.Depicts snapshot := by
  intro hid
  obtain ⟨hproject, hsize, hlow, hhigh, htext⟩ := hdepicts (hid.trans h.documentId)
  exact ⟨hproject.trans h.projectId.symm, hsize, h.daemonRevision.le.trans hlow, hhigh, htext⟩

theorem Answers.of_sameBase {response : CoreResponse} (h : s.attachment.SameBase c.attachment)
    (hop : c.operation = s.controller.operation) (hanswers : s.Answers response) :
    { s with controller := c }.Answers response where
  change id hid revision hresponse := by
    have hrevision := hanswers.change id (hop.symm.trans hid) revision hresponse
    exact ⟨hrevision.1.trans (congrArg (· + 1) h.daemonRevision.symm), hrevision.2⟩
  save seq prior hid revision digest hresponse :=
    (hanswers.save seq prior (hop.symm.trans hid) revision digest hresponse).trans
      h.daemonRevision.symm
  snapshot snapshot lease hresponse :=
    (hanswers.snapshot snapshot lease hresponse).of_sameBase h

/-- A change that was sent and is first in the queue stays first through a local edit. -/
theorem Invariant.first_stays {a' : Attachment} (hedited : s.attachment.Edited tx id a')
    (hunsent : ∀ last, s.attachment.mergeTarget tx = some last → ∀ r ∈ s.sent, r.changeId ≠ last.id)
    {p : PendingChange} {rest : List PendingChange} (hcons : s.attachment.pending = p :: rest)
    (hsent : ∃ r ∈ s.sent, r.changeId = p.id) : ∃ rest', a'.pending = p :: rest' := by
  obtain ⟨r, hr, hid⟩ := hsent
  refine hedited.cons hcons fun last hlast heq => ?_
  exact hunsent last hlast r hr (hid.trans heq.symm)

/-- The changes that the daemon has not applied, after a local edit. -/
theorem Invariant.madeOf_edited (hinv : Invariant dg room earlier s) {a' : Attachment}
    (hedited : s.attachment.Edited tx id a') (hbase : s.attachment.SameBase a')
    (hunsent : ∀ last, s.attachment.mergeTarget tx = some last →
      ∀ r ∈ s.sent, r.changeId ≠ last.id) :
    MadeOf (s.applied ++ (a'.pending.drop (s.current.revision - a'.daemonRevision)).map
      transaction) (s.made ++ [tx]) := by
  have hmade := hinv.edits
  obtain ⟨base, -, -, hshows⟩ := hinv.queue
  rw [hbase.daemonRevision]
  generalize hk : s.current.revision - s.attachment.daemonRevision = k at hmade ⊢
  cases hedited with
  | @merged init last start insert more htarget hbefore hinsertion hcontinues hafter =>
    -- the last change was not sent, so it is not the one the daemon may have applied
    have hinit : k ≤ init.length := by
      rcases hshows with ⟨hrevision, -⟩ | ⟨hrevision, p, rest, hcons, -⟩
      · omega
      · cases init with
        | cons q init => rw [List.length_cons]; omega
        | nil =>
          obtain ⟨r, hr, hid⟩ := hinv.front hrevision last (by rw [hbefore]; rfl)
          exact absurd hid (hunsent last htarget r hr)
    rw [hbefore, List.drop_append_of_le_length hinit, List.map_append, List.map_singleton,
      hinsertion, ← List.append_assoc] at hmade
    rw [hafter, List.drop_append_of_le_length hinit, List.map_append, hcontinues, ← List.append_assoc]
    exact hmade.merge
  | @pushed p hid hafter hrevision htransaction hdto hbaseText hresult =>
    have hlength : k ≤ s.attachment.pending.length := by
      rcases hshows with ⟨hrevision, -⟩ | ⟨hrevision, p, rest, hcons, -⟩
      · omega
      · rw [hcons, List.length_cons]
        omega
    rw [hafter, List.drop_append_of_le_length hlength, List.map_append, List.map_singleton,
      htransaction, ← List.append_assoc]
    exact hmade.push

/-- An accepted local edit. -/
theorem Invariant.edited (hinv : Invariant dg room earlier s)
    (hroom : maxDocumentInsertBytes ≤ room) (hfresh : id ∉ s.drawn) (huuid : id.utf8ByteSize = 36)
    (hedits : tx.edits ≠ []) (hop : c.operation = s.controller.operation)
    (hbase : s.attachment.SameBase c.attachment)
    (htext : tx.applyTo protocolLimits s.attachment.buffer.text = .ok c.attachment.buffer.text)
    (hedited : s.attachment.Edited tx id c.attachment)
    (hsent : ∀ last, s.attachment.mergeTarget tx = some last → ∀ r ∈ s.sent, r.changeId ≠ last.id)
    (hfits : ∀ last, s.attachment.mergeTarget tx = some last →
      last.transaction.inserted + tx.inserted ≤ room) :
    Invariant dg room earlier
      { s with controller := c, drawn := id :: s.drawn, made := s.made ++ [tx] } := by
  have hnew : id ∉ earlier := fun hid => hfresh (hinv.known id hid)
  obtain ⟨base, htextAt, hleads, hshows⟩ := hinv.queue
  have hids := hedited.ids
  have hold : ∀ p ∈ c.attachment.pending, p.id = id ∨ ∃ q ∈ s.attachment.pending, q.id = p.id := by
    intro p hp
    have hmem : p.id ∈ c.attachment.pending.map PendingChange.id := List.mem_map_of_mem hp
    rcases hids with heq | heq
    · rw [heq] at hmem
      exact Or.inr (List.mem_map.mp hmem)
    · rw [heq, List.mem_append, List.mem_singleton] at hmem
      rcases hmem with hmem | hmem
      · exact Or.inr (List.mem_map.mp hmem)
      · exact Or.inl hmem
  have hahead : s.current.revision = s.attachment.daemonRevision + 1 →
      c.attachment.pending.head? = s.attachment.pending.head? := by
    intro hrevision
    rcases hshows with ⟨hbehind, -⟩ | ⟨-, p, rest, hcons, -⟩
    · omega
    · obtain ⟨rest', hcons'⟩ := Invariant.first_stays hedited hsent hcons
        (hinv.front hrevision p (by rw [hcons]; rfl))
      rw [hcons, hcons']
      rfl
  exact
    { queue := by
        refine ⟨base, ?_, hedited.leads hroom hbase hedits htext hfits hleads, ?_⟩
        · have hsame := hbase.daemonRevision
          rw [← hsame] at htextAt
          exact htextAt
        · rcases hshows with ⟨hrevision, hcurrent⟩ | ⟨hrevision, p, rest, hcons, hcurrent⟩
          · exact Or.inl ⟨hrevision.trans hbase.daemonRevision.symm, hcurrent⟩
          · obtain ⟨rest', hcons'⟩ := Invariant.first_stays hedited hsent hcons
              (hinv.front hrevision p (by rw [hcons]; rfl))
            exact Or.inr ⟨hrevision.trans (congrArg (· + 1) hbase.daemonRevision.symm), p, rest',
              hcons', hcurrent⟩
      ids := by
        rcases hids with heq | heq
        · exact heq ▸ hinv.ids
        · have hnodup : (s.attachment.pending.map PendingChange.id ++ [id]).Nodup := by
            refine List.nodup_append'.mpr ⟨hinv.ids, List.nodup_singleton id, ?_⟩
            intro x hx hxid
            rw [List.mem_singleton] at hxid
            obtain ⟨p, hp, hpid⟩ := List.mem_map.mp hx
            exact hfresh (hxid ▸ hpid ▸ (hinv.pending p hp).1)
          exact heq ▸ hnodup
      pending := fun p hp => by
        rcases hold p hp with heq | ⟨q, hq, heq⟩
        · rw [heq]
          exact ⟨List.mem_cons_self, hnew, huuid⟩
        · obtain ⟨hdrawn, hrest⟩ := hinv.pending q hq
          exact heq ▸ ⟨List.mem_cons_of_mem id hdrawn, hrest⟩
      sent := fun r hr => by
        have hr' := hinv.sent r hr
        refine
          { hr' with
            documentId := hr'.documentId.trans hbase.documentId.symm
            drawn := List.mem_cons_of_mem id hr'.drawn
            place := ?_ }
        rcases hr'.place with ⟨hbehind, hother⟩ | ⟨p, rest, hcons, hcarries⟩
        · left
          refine ⟨hbehind.trans_eq hbase.daemonRevision.symm, fun p hp heq => ?_⟩
          rcases hold p hp with hpid | ⟨q, hq, hqid⟩
          · exact hfresh (hpid ▸ heq ▸ hr'.drawn)
          · exact hother q hq (heq.trans hqid.symm)
        · obtain ⟨rest', hcons'⟩ := Invariant.first_stays hedited hsent hcons
            ⟨r, hr, hcarries.changeId⟩
          exact Or.inr ⟨p, rest', hcons', hcarries⟩
      once := hinv.once
      front := fun hrevision p hp => by
        have hrevision' := hrevision.trans (congrArg (· + 1) hbase.daemonRevision)
        exact hinv.front hrevision' p (hahead hrevision' ▸ hp)
      attached := hbase.documentId ▸ List.mem_cons_of_mem id hinv.attached
      known := fun x hx => List.mem_cons_of_mem id (hinv.known x hx)
      document := fun doc hdoc hid => by
        have hholds := hinv.document doc hdoc (hid.trans hbase.documentId)
        refine ⟨hholds.projectId.trans hbase.projectId.symm, hholds.text, hholds.recent, ?_⟩
        intro hrevision p hp
        have hrevision' := hrevision.trans (congrArg (· + 1) hbase.daemonRevision)
        exact hholds.remembers hrevision' p (hahead hrevision' ▸ hp)
      size := hinv.size
      awaiting := hinv.awaiting
      requests := fun m hm => by
        obtain ⟨htoken, hchange, hasks⟩ := hinv.requests m hm
        refine ⟨htoken, hchange, fun hawait => ⟨?_, ?_⟩⟩
        · intro id hid r hr
          exact ((hasks hawait).change id (hop.symm.trans hid) r hr).trans
            hbase.daemonRevision.symm
        · intro seq prior hid projectId documentId lease revision hr
          exact ((hasks hawait).save seq prior (hop.symm.trans hid) projectId documentId lease
            revision hr).trans hbase.daemonRevision.symm
      replies := fun reply hreply => by
        obtain ⟨htoken, hanswers⟩ := hinv.replies reply hreply
        refine ⟨htoken, fun hawait => ?_⟩
        exact { (hanswers hawait).of_sameBase hbase hop with }
      held := fun snapshot prior hid => by
        obtain ⟨hdepicts, hdocument⟩ := hinv.held snapshot prior (hop.symm.trans hid)
        exact ⟨hdepicts.of_sameBase hbase, hdocument.trans hbase.documentId.symm⟩
      edits := hinv.madeOf_edited hedited hbase hsent }

theorem Invariant.applyLocal (hinv : Invariant dg room earlier s)
    (hroom : maxDocumentInsertBytes ≤ room) (hfresh : s.Fresh (.applyLocal tx id))
    (hunsent : s.ContinuesUnsent (.applyLocal tx id)) (hfits : s.MergesWithin room (.applyLocal tx id)) :
    Invariant dg room earlier (s.applyLocal tx id) := by
  rw [DocumentSystem.applyLocal]
  rcases s.controller.applyLocal_cases tx id with
    ⟨result, hsame, hedits⟩ | ⟨result, c, hlocal, hedits, happly, hop⟩
  · rw [hsame]
    cases result with
    | error e => exact hinv.draw id
    | ok id' =>
      simp only [hedits rfl]
      exact hinv.draw id
  · obtain ⟨hbase, htext, hedited⟩ := applyLocal_eq_ok hedits happly
    rw [hlocal]
    simp only [if_neg hedits]
    have hok : (s.controller.applyLocal tx id).1.isOk = true := by
      rw [hlocal]
      rfl
    exact hinv.edited hroom hfresh.1 hfresh.2 hedits hop hbase htext hedited (hunsent hok) (hfits hok)

end LocalEdits

section Serving

open OpenDocument

/-- What the network and the daemon do without a new revision of the document. -/
theorem Invariant.kept (hinv : Invariant dg room earlier s) {requests : List Message}
    {replies : List (ℕ × CoreResponse)}
    (hdocument : ∀ doc, service.document = some doc → doc.id = s.attachment.documentId →
      s.Holds dg earlier doc) (hrequests : ∀ m ∈ requests, m ∈ s.requests)
    (hreplies : ∀ reply ∈ replies, reply ∈ s.replies ∨
      (reply.1 < s.nextToken ∧ (s.awaiting = some reply.1 → s.Answers reply.2))) :
    Invariant dg room earlier
      { s with service := service, requests := requests, replies := replies } :=
  { hinv with
    sent := fun r hr => { hinv.sent r hr with }
    document := fun doc hdoc hid => { hdocument doc hdoc hid with }
    requests := fun m hm => hinv.requests m (hrequests m hm)
    replies := fun reply hreply => by
      rcases hreplies reply hreply with hold | ⟨htoken, hanswers⟩
      · obtain ⟨htoken, hanswers⟩ := hinv.replies reply hold
        exact ⟨htoken, fun hawait => { hanswers hawait with }⟩
      · exact ⟨htoken, fun hawait => { hanswers hawait with }⟩ }

/-- The change the daemon applies is the first pending one, and the controller's revision is the
daemon's. -/
theorem Invariant.first_of_accepts (hinv : Invariant dg room earlier s)
    (hroom : maxDocumentInsertBytes ≤ room) {doc : OpenDocument} {r : ChangeRequest} {victim : ℕ}
    (hr : r ∈ s.sent) (hholds : s.Holds dg earlier doc) (haccepts : Accepts dg victim r doc doc') :
    ∃ p rest, s.attachment.pending = p :: rest ∧ r.Carries p ∧
      s.current.revision = s.attachment.daemonRevision ∧
      r.baseRevision = s.attachment.daemonRevision ∧
      doc'.buffer.text = p.resultingSnapshot.text := by
  have hrevision : s.current.revision = r.baseRevision := by
    rw [← hholds.text]
    exact haccepts.base
  have hle := hinv.revision_le
  obtain ⟨base, hbase, hleads, hshows⟩ := hinv.queue
  rcases (hinv.sent r hr).place with ⟨hbehind, -⟩ | ⟨p, rest, hcons, hcarries⟩
  · omega
  · rw [hcons] at hleads
    have hfirst := hleads.1
    have hbaseRevision : r.baseRevision = s.attachment.daemonRevision :=
      hcarries.base.trans hfirst.base
    have htext : s.current.text = base := by
      rw [← hbaseRevision, ← hrevision, textAt_current] at hbase
      exact Option.some.inj hbase
    have happlies : r.transaction.applyTo (queueLimits room) doc.buffer.text =
        .ok doc'.buffer.text := applyTo_mono hroom haccepts.text
    rw [hcarries.transaction] at happlies
    have hbuffer : doc.buffer.text = base := by
      rw [← htext, ← hholds.text]
      rfl
    rw [hbuffer, hfirst.applies] at happlies
    exact ⟨p, rest, hcons, hcarries, hrevision.trans hbaseRevision, hbaseRevision,
      (Except.ok.inj happlies).symm⟩

/-- Texts of the history stay where they are when a text is entered. -/
theorem textAt_enter {next : DocumentSnapshot} {revision : ℕ} (hne : next.revision ≠ revision) :
    (s.enter next request).textAt revision = s.textAt revision := by
  have hfind : ((next :: s.current :: s.past).find? fun t => decide (t.revision = revision)) =
      (s.current :: s.past).find? fun t => decide (t.revision = revision) :=
    List.find?_cons_of_neg (by simpa using hne)
  exact congrArg (Option.map text) hfind

theorem Depicts.enter {snapshot : DocumentSnapshotDto} (h : s.Depicts snapshot)
    {next : DocumentSnapshot} (hnext : s.current.revision < next.revision) :
    (s.enter next request).Depicts snapshot := by
  intro hid
  obtain ⟨hproject, hsize, hlow, hhigh, htextAt⟩ := h hid
  refine ⟨hproject, hsize, hlow, hhigh.trans hnext.le, ?_⟩
  rw [textAt_enter (by omega)]
  exact htextAt

/-- The daemon applies a change that was sent. -/
theorem Invariant.accept (hinv : Invariant dg room earlier s)
    (hroom : maxDocumentInsertBytes ≤ room) {doc : OpenDocument} {r : ChangeRequest} {victim : ℕ}
    (hr : r ∈ s.sent) (hdoc : service.document = some doc') (hholds : s.Holds dg earlier doc)
    (haccepts : Accepts dg victim r doc doc') :
    Invariant dg room earlier ({ s with service := service }.enter doc'.buffer.snapshot
      (.documentChange r)) := by
  obtain ⟨p, rest, hcons, hcarries, hcurrent, hbase, htext⟩ :=
    hinv.first_of_accepts hroom hr hholds haccepts
  obtain ⟨base, hbaseText, hleads, -⟩ := hinv.queue
  have hnext : doc'.buffer.snapshot.revision = s.attachment.daemonRevision + 1 := by
    rw [← hbase]
    exact haccepts.revision
  have hgrows : s.current.revision < doc'.buffer.snapshot.revision := by omega
  have hhead : ∀ q ∈ s.attachment.pending.head?, q = p := by
    intro q hq
    rw [hcons] at hq
    exact (Option.some.inj hq).symm
  have hdepicts : ∀ snapshot, s.Depicts snapshot →
      ({ s with service := service }.enter doc'.buffer.snapshot
        (.documentChange r)).Depicts snapshot :=
    fun snapshot h => Depicts.enter (s := { s with service := service }) h hgrows
  exact
    { hinv with
      queue := by
        refine ⟨base, ?_, hleads, .inr ⟨hnext, p, rest, hcons, htext⟩⟩
        refine (textAt_enter ?_).trans hbaseText
        rw [hnext]
        exact Nat.succ_ne_self s.attachment.daemonRevision
      sent := fun r' hr' => { hinv.sent r' hr' with }
      front := fun _ q hq => ⟨r, hr, (hhead q hq) ▸ hcarries.changeId⟩
      document := fun doc₁ hdoc₁ hid => by
        have heq : doc' = doc₁ := Option.some.inj (hdoc.symm.trans hdoc₁)
        subst heq
        refine ⟨haccepts.projectId.trans hholds.projectId, rfl, fun entry hentry => ?_, ?_⟩
        · rw [haccepts.recent] at hentry
          rcases mem_remember hentry with hold | rfl
          · rcases hholds.recent entry hold with hearlier | ⟨r', hr', hseen, hpayload, hrev, hle⟩
            · exact .inl hearlier
            · exact .inr ⟨r', hr', hseen, hpayload, hrev, hle.trans hgrows.le⟩
          · exact .inr ⟨r, hr, rfl, rfl, rfl, haccepts.revision.ge⟩
        · intro _ q hq
          rw [haccepts.recent, hhead q hq, ← hcarries.changeId]
          exact ⟨_, self_mem_remember _ _ _ _ _, rfl⟩
      size := byteLen_le_of_applyTo haccepts.text
      replies := fun reply hreply => by
        obtain ⟨htoken, hanswers⟩ := hinv.replies reply hreply
        refine ⟨htoken, fun hawait => ?_⟩
        refine
          { (hanswers hawait) with
            change := fun id hop revision hresponse => ?_
            snapshot := fun snapshot lease hresponse =>
              hdepicts snapshot ((hanswers hawait).snapshot snapshot lease hresponse) }
        -- the daemon was at the controller's revision, so no change had been answered yet
        have hanswer := (hanswers hawait).change id hop revision hresponse
        omega
      held := fun snapshot prior hop => by
        obtain ⟨h, hid⟩ := hinv.held snapshot prior hop
        exact ⟨hdepicts snapshot h, hid⟩
      edits := by
        have hmade := hinv.edits
        rw [hcurrent, Nat.sub_self, List.drop_zero, hcons, List.map_cons,
          List.append_cons, ← hcarries.transaction] at hmade
        have hone : doc'.buffer.snapshot.revision - s.attachment.daemonRevision = 1 := by omega
        have hrest : s.attachment.pending.drop
            (doc'.buffer.snapshot.revision - s.attachment.daemonRevision) = rest := by
          rw [hone, hcons, List.drop_one, List.tail_cons]
        rw [← hrest] at hmade
        exact hmade }

/-- The attached document after a request has the text entered last, or it is the one before it
with a change that was sent. -/
theorem Invariant.served (hinv : Invariant dg room earlier s) {index : ℕ} {m : Message}
    (hm : s.requests[index]? = some m) (hfresh : s.Fresh (.serve index turn))
    (hquiet : s.Undisturbed dg (.serve index turn))
    (hserved : DocumentService.Served dg turn s.service m.request doc')
    (hid : doc'.id = s.attachment.documentId) :
    s.Holds dg earlier doc' ∨ ∃ r doc, m.request = .documentChange r ∧ r ∈ s.sent ∧
      s.Holds dg earlier doc ∧ Accepts dg turn.victim r doc doc' := by
  cases hserved with
  | @same doc hheld htext =>
    have hholds := hinv.document doc hheld (htext.id.symm.trans hid)
    left
    refine ⟨htext.projectId.trans hholds.projectId, ?_, ?_, ?_⟩
    · rw [← hholds.text, DocumentBuffer.snapshot, htext.buffer]
      rfl
    · rw [htext.recent]
      exact hholds.recent
    · rw [htext.recent]
      exact hholds.remembers
  | created hnone hnew =>
    exact absurd hinv.attached (hid ▸ hnew ▸ hfresh)
  | @refreshed doc text hheld hsame hreads hdisk hclean hdiffers =>
    exact absurd (hquiet m hm hreads doc hheld (hsame.symm.trans hid) hclean text hdisk) hdiffers
  | @accepted doc r hheld hchange hdocument haccepts =>
    right
    have hsent := (hinv.requests m (List.mem_of_getElem? hm)).2.1 r hchange
    exact ⟨r, doc, hchange, hsent, hinv.document doc hheld (haccepts.id.symm.trans hid), haccepts⟩

/-- The answer to a request that the controller waits on is true of the daemon. -/
theorem Invariant.answers (hinv : Invariant dg room earlier s) {client : String}
    (hasks : s.controller.Asks request)
    (hservice : s.service = (service.handle dg turn client request).2)
    (hchange : ∀ r, request = .documentChange r → r ∈ s.sent) :
    s.Answers (service.handle dg turn client request).1 where
  change id hop revision hresponse := by
    have hedits : ∀ r, request = .documentChange r → r.transaction.edits ≠ [] :=
      fun r hr => (hinv.sent r (hchange r hr)).edits
    obtain ⟨r, doc, hrequest, hdoc, hid, hentry⟩ :=
      handle_answered.of_changed hedits hresponse
    have hr := hchange r hrequest
    have hbase : r.baseRevision = s.attachment.daemonRevision := hasks.change id hop r hrequest
    rw [← hservice] at hdoc
    have hholds := hinv.document doc hdoc (hid.trans (hinv.sent r hr).documentId)
    rcases hholds.recent _ hentry with hearlier | ⟨r', hr', hsame, -, hrevision, hle⟩
    · exact absurd hearlier (hinv.sent r hr).new
    · have heq := (hinv.once r' hr' r hr hsame).2
      have hhigh := hinv.revision_le
      simp only at hrevision
      omega
  save seq prior hop revision digest hresponse := by
    obtain ⟨projectId, documentId, lease, hrequest⟩ := handle_answered.of_saved hresponse
    exact hasks.save seq prior hop projectId documentId lease revision hrequest
  snapshot snapshot lease hresponse hid := by
    obtain ⟨doc, hdoc, rfl⟩ := handle_answered.of_snapshot hresponse
    rw [← hservice] at hdoc
    have hholds := hinv.document doc hdoc hid
    have hrevision : doc.buffer.revision = s.current.revision :=
      congrArg revision hholds.text
    have htext : doc.buffer.text = s.current.text := congrArg text hholds.text
    refine ⟨hholds.projectId, ?_, ?_, hrevision.le, ?_⟩
    · show byteLen doc.buffer.text ≤ maxDocumentTextBytes
      rw [htext]
      exact hinv.size
    · exact hinv.revision_le.1.trans hrevision.ge
    · show s.textAt doc.buffer.revision = some doc.buffer.text
      rw [hrevision, htext, textAt_current]

/-- The document after a request, entered in the history when it is a new text. -/
theorem Invariant.record (hinv : Invariant dg room earlier s)
    (hroom : maxDocumentInsertBytes ≤ room) {index : ℕ} {turn : DaemonTurn}
    {m : Message} (hm : s.requests[index]? = some m) (hfresh : s.Fresh (.serve index turn))
    (hquiet : s.Undisturbed dg (.serve index turn)) {service : DocumentService}
    (hserved : ∀ doc', service.document = some doc' →
      DocumentService.Served dg turn s.service m.request doc') :
    Invariant dg room earlier ({ s with service := service }.record m.request) := by
  have hkept : ∀ doc', service.document = some doc' →
      (doc'.id = s.attachment.documentId → s.Holds dg earlier doc') →
      Invariant dg room earlier { s with service := service } := by
    intro doc' hdoc hholds
    refine hinv.kept (fun doc hdoc₁ hid => ?_) (fun _ h => h) (fun _ h => .inl h)
    rw [hdoc] at hdoc₁
    cases hdoc₁
    exact hholds hid
  rw [DocumentSystem.record]
  split
  · next hnone =>
    refine hinv.kept (fun doc hdoc => ?_) (fun _ h => h) (fun _ h => .inl h)
    rw [hnone] at hdoc
    cases hdoc
  · next doc' hdoc =>
    split
    · next hnew =>
      rcases hinv.served hm hfresh hquiet (hserved doc' hdoc) hnew.1 with
        hholds | ⟨r, doc, hrequest, hr, hholds, haccepts⟩
      · exact absurd (congrArg revision hholds.text) hnew.2
      · rw [hrequest]
        exact hinv.accept hroom hr hdoc hholds haccepts
    · next hnot =>
      refine hkept doc' hdoc fun hid => ?_
      rcases hinv.served hm hfresh hquiet (hserved doc' hdoc) hid with
        hholds | ⟨r, doc, hrequest, hr, hholds, haccepts⟩
      · exact hholds
      · have hbefore : doc.buffer.revision = s.current.revision :=
          congrArg revision hholds.text
        have hrevision : doc'.buffer.revision ≠ s.current.revision := by
          rw [haccepts.revision, ← hbefore, haccepts.base]
          exact Nat.succ_ne_self r.baseRevision
        exact absurd ⟨hid, hrevision⟩ hnot

/-- An entry in the history touches nothing else. -/
theorem record_eq (t : DocumentSystem) (request : CoreRequest) :
    ∃ current past applied, t.record request =
      { t with current := current, past := past, applied := applied } := by
  rw [DocumentSystem.record]
  split
  · exact ⟨t.current, t.past, t.applied, rfl⟩
  · split
    · exact ⟨_, _, _, rfl⟩
    · exact ⟨t.current, t.past, t.applied, rfl⟩

theorem Invariant.serve (hinv : Invariant dg room earlier s) (hroom : maxDocumentInsertBytes ≤ room)
    {index : ℕ} (hfresh : s.Fresh (.serve index turn))
    (hquiet : s.Undisturbed dg (.serve index turn)) :
    Invariant dg room earlier (s.serve dg index turn) := by
  rw [DocumentSystem.serve]
  split
  · exact hinv
  · next m hm =>
    obtain ⟨htoken, hchange, hasks⟩ := hinv.requests m (List.mem_of_getElem? hm)
    have hedits : ∀ r, m.request = .documentChange r → r.transaction.edits ≠ [] :=
      fun r hr => (hinv.sent r (hchange r hr)).edits
    have hserved : ∀ doc', (s.service.handle dg turn m.client m.request).2.document = some doc' →
        DocumentService.Served dg turn s.service m.request doc' :=
      fun doc' hdoc => handle_answered.serves hedits hdoc
    have hrecorded := hinv.record hroom hm hfresh hquiet hserved
    obtain ⟨current, past, applied, hrecord⟩ := record_eq
      { s with service := (s.service.handle dg turn m.client m.request).2 } m.request
    rw [hrecord] at hrecorded
    simp only [hrecord]
    refine .draw (hrecorded.kept hrecorded.document ?_ ?_) turn.documentId
    · exact fun m' hm' => List.mem_of_mem_eraseIdx hm'
    · intro reply hreply
      rcases List.mem_append.mp hreply with hold | hnew
      · exact .inl hold
      · rw [List.mem_singleton] at hnew
        subst hnew
        exact .inr ⟨htoken, fun hawait => hrecorded.answers (hasks hawait) rfl hchange⟩

/-- A document let go, or left by a client, keeps its text. -/
theorem Invariant.detachClient (hinv : Invariant dg room earlier s) (client : String) :
    Invariant dg room earlier { s with service := s.service.detachClient client } := by
  refine hinv.kept (fun doc hdoc hid => ?_) (fun _ h => h) (fun _ h => .inl h)
  rw [DocumentService.detachClient] at hdoc
  split at hdoc
  · exact hinv.document doc hdoc hid
  · next doc₀ hheld =>
    simp only at hdoc
    split at hdoc
    · cases hdoc
    · cases hdoc
      exact { hinv.document doc₀ hheld hid with }

end Serving

section Runs

/-- A read of another client goes into the network. -/
theorem Invariant.post (hinv : Invariant dg room earlier s) {client : String}
    (hreads : ∀ r, request ≠ .documentChange r) :
    Invariant dg room earlier (s.post client request) :=
  { hinv with
    sent := fun r hr => { hinv.sent r hr with }
    document := fun doc hdoc hid => { hinv.document doc hdoc hid with }
    awaiting := fun token htoken => Nat.lt_succ_of_lt (hinv.awaiting token htoken)
    requests := fun m hm => by
      rcases List.mem_append.mp hm with hm | hm
      · obtain ⟨htoken, hsent, hasks⟩ := hinv.requests m hm
        exact ⟨Nat.lt_succ_of_lt htoken, hsent, hasks⟩
      · rw [List.mem_singleton] at hm
        subst hm
        refine ⟨Nat.lt_succ_self s.nextToken, fun r hr => absurd hr (hreads r), fun hawait => ?_⟩
        exact absurd (hinv.awaiting s.nextToken hawait) (Nat.lt_irrefl s.nextToken)
    replies := fun reply hreply => by
      obtain ⟨htoken, hanswers⟩ := hinv.replies reply hreply
      exact ⟨Nat.lt_succ_of_lt htoken, fun hawait => { hanswers hawait with }⟩ }

theorem Invariant.deliver (hinv : Invariant dg room earlier s) (index : ℕ) :
    Invariant dg room earlier (s.deliver index) := by
  rw [DocumentSystem.deliver]
  split
  · exact hinv
  · next token response hreply =>
    have hkept : Invariant dg room earlier { s with replies := s.replies.eraseIdx index } :=
      hinv.kept hinv.document (fun _ h => h) fun _ h => .inl (List.mem_of_mem_eraseIdx h)
    simp only
    split
    · next hawait =>
      refine hkept.perform (hkept.advances_receive fun answer hanswer => ?_)
      cases hanswer
      exact { (hinv.replies _ (List.mem_of_getElem? hreply)).2 hawait with }
    · exact hkept

theorem Invariant.begin (hinv : Invariant dg room earlier s) {turn : DocumentController.Turn}
    (h : s.Advances turn) : Invariant dg room earlier (s.begin turn) := by
  rw [DocumentSystem.begin]
  split
  · exact hinv.perform h
  · exact hinv

theorem Invariant.reconnect (hinv : Invariant dg room earlier s) (connection : String) :
    Invariant dg room earlier { s with connection := connection } :=
  { hinv with
    sent := fun r hr => { hinv.sent r hr with }
    document := fun doc hdoc hid => { hinv.document doc hdoc hid with }
    replies := fun reply hreply =>
      ⟨(hinv.replies reply hreply).1, fun hawait => { (hinv.replies reply hreply).2 hawait with }⟩ }

/-- What a step preserves. -/
theorem Invariant.step (hinv : Invariant dg room earlier s)
    (hroom : maxDocumentInsertBytes ≤ room) {action : Action} (hfresh : s.Fresh action)
    (hquiet : s.Undisturbed dg action) (hunsent : s.ContinuesUnsent action)
    (hfits : s.MergesWithin room action) : Invariant dg room earlier (s.step dg action) := by
  cases action with
  | applyLocal tx id => exact hinv.applyLocal hroom hfresh hunsent hfits
  | beginFlush =>
    exact hinv.begin (hinv.advances_quiet (Attachment.SameQueue.refl _) rfl fun _ _ hop => by cases hop)
  | flush =>
    rw [DocumentSystem.step]
    split
    · exact hinv.perform hinv.advances_flush
    · exact hinv
  | save => exact hinv.begin hinv.advances_save
  | resync => exact hinv.begin hinv.advances_resync
  | reconnect connection =>
    rw [DocumentSystem.step]
    split
    · exact (hinv.reconnect connection).perform (hinv.reconnect connection).advances_reconnect
    · exact hinv
  | cancel => exact hinv.cancel
  | serve index turn => exact hinv.serve hroom hfresh hquiet
  | lose index =>
    exact hinv.kept hinv.document (fun _ h => List.mem_of_mem_eraseIdx h) fun _ h => .inl h
  | deliver index => exact hinv.deliver index
  | fail message =>
    rw [DocumentSystem.step]
    split
    · exact hinv
    · exact hinv.perform (hinv.advances_receive fun answer hanswer => by cases hanswer)
  | disconnect client => exact hinv.detachClient client
  | observe client documentId => exact hinv.post fun r hr => by cases hr
  | observeOpen client => exact hinv.post fun r hr => by cases hr
  | restart => exact hinv.kept (fun doc hdoc => by cases hdoc) (fun _ h => h) fun _ h => .inl h

/-- What a run preserves. -/
theorem Invariant.run (hinv : Invariant dg room earlier s)
    (hroom : maxDocumentInsertBytes ≤ room) {actions : List Action}
    (hfresh : EachStep dg Fresh s actions) (hquiet : EachStep dg (Undisturbed dg) s actions)
    (hunsent : EachStep dg ContinuesUnsent s actions)
    (hfits : EachStep dg (MergesWithin room) s actions) :
    Invariant dg room earlier (s.run dg actions) := by
  induction actions generalizing s with
  | nil => exact hinv
  | cons action actions ih =>
    exact ih (hinv.step hroom hfresh.1 hquiet.1 hunsent.1 hfits.1) hfresh.2 hquiet.2 hunsent.2
      hfits.2

/-- A document that has just been opened. -/
theorem invariant_attached (dg : Digests) (room : ℕ) (doc : OpenDocument) (connection : String)
    (lease : Option String) (hsize : byteLen doc.buffer.text ≤ maxDocumentTextBytes) :
    Invariant dg room (doc.recent.map Prod.fst) (attached doc connection lease) where
  queue := ⟨doc.buffer.text, textAt_current _, rfl, .inl ⟨rfl, rfl⟩⟩
  ids := List.nodup_nil
  pending p hp := by cases hp
  sent r hr := by cases hr
  once r hr := by cases hr
  front _ p hp := by cases hp
  attached := List.mem_cons_self
  known id hid := List.mem_cons_of_mem doc.id hid
  document doc' hdoc _ := by
    cases hdoc
    exact
      { projectId := rfl
        text := rfl
        recent := fun entry hentry => .inl (List.mem_map_of_mem hentry)
        remembers := fun _ p hp => by cases hp }
  size := hsize
  awaiting token htoken := by cases htoken
  requests m hm := by cases hm
  replies reply hreply := by cases hreply
  held _ _ hop := by cases hop
  edits := ⟨[], rfl, by simp [attached, DocumentController.installReplica]⟩

end Runs

/-- The pending changes lead from the daemon's text at the controller's revision to the buffer,
at consecutive revisions, and the changes the daemon applied, followed by those it has not, are
the edits made. -/
structure Replica (s : DocumentSystem) : Prop where
  daemon : ∀ doc, s.service.document = some doc → doc.id = s.attachment.documentId →
    doc.buffer.snapshot = s.current
  text : ∃ base, s.textAt s.attachment.daemonRevision = some base ∧
    applyAll protocolLimits base (s.attachment.pending.map transaction) =
      .ok s.attachment.buffer.text
  bases : ∀ i p, s.attachment.pending[i]? = some p →
    p.baseRevision = s.attachment.daemonRevision + i
  revision : s.attachment.daemonRevision ≤ s.current.revision ∧
    s.current.revision ≤ s.attachment.daemonRevision + 1
  edits : MadeOf (s.applied ++ (s.attachment.pending.drop
    (s.current.revision - s.attachment.daemonRevision)).map transaction) s.made

theorem Invariant.replica (hinv : Invariant dg maxDocumentInsertBytes earlier s) : s.Replica := by
  obtain ⟨base, hbase, hleads, -⟩ := hinv.queue
  exact
    { daemon := fun doc hdoc hid => (hinv.document doc hdoc hid).text
      text := ⟨base, hbase, hleads.applyAll⟩
      bases := fun i p hp => hleads.base hp
      revision := hinv.revision_le
      edits := hinv.edits }

/-- In every run in which nobody else changes the document and no insertion is merged into a
change already sent, or past the size of one change, every state is a replica of the daemon's. -/
theorem run_replica (dg : Digests) (doc : OpenDocument) (connection : String)
    (lease : Option String) (hsize : byteLen doc.buffer.text ≤ maxDocumentTextBytes)
    (actions : List Action) (hfresh : EachStep dg Fresh (attached doc connection lease) actions)
    (hquiet : EachStep dg (Undisturbed dg) (attached doc connection lease) actions)
    (hunsent : EachStep dg ContinuesUnsent (attached doc connection lease) actions)
    (hfits : EachStep dg (MergesWithin maxDocumentInsertBytes) (attached doc connection lease)
      actions) :
    ((attached doc connection lease).run dg actions).Replica :=
  ((invariant_attached dg maxDocumentInsertBytes doc connection lease hsize).run le_rfl hfresh
    hquiet hunsent hfits).replica

/-- Digests that tell the texts of the runs below apart. -/
def sampleDigests : Digests where
  payload tx := String.ofList (tx.edits.flatMap TextEdit.insert)
  sha256 text := String.ofList text

/-- An empty document that one connection writes. -/
def sampleDocument : OpenDocument where
  id := "doc_0"
  projectId := "project"
  buffer := { text := [], revision := 1 }
  baseDigest := ""
  dirty := false
  conflicted := false
  readers := ["first"]
  writer := some ("first", "lease_0")
  recent := []

def sampleTurn (documentId : String) : DaemonTurn where
  others := { count := 1, dirtyCount := 0, residentBytes := 0 }
  victim := 0
  disk := some []
  written := true
  documentId := documentId
  lease := "lease_1"

def firstId : String := "00000000-0000-4000-8000-000000000001"

def secondId : String := "00000000-0000-4000-8000-000000000002"

/-- The answer to a change is lost after the daemon has applied it. -/
def lostAnswer : List Action :=
  [.applyLocal (insertAt 0 ['a']) firstId, .beginFlush, .flush, .serve 0 (sampleTurn "doc_1"),
    .fail "connection lost"]

/-- Text typed before the uncertain change, a new connection, and a save. -/
def typedBefore : List Action :=
  lostAnswer ++ [.applyLocal (insertAt 0 ['b']) secondId, .disconnect "first",
    .reconnect "second", .serve 0 (sampleTurn "doc_2"), .deliver 1,
    .serve 0 (sampleTurn "doc_3"), .deliver 1, .beginFlush, .flush,
    .serve 0 (sampleTurn "doc_4"), .deliver 1, .flush, .save, .serve 0 (sampleTurn "doc_5"),
    .deliver 1]

theorem run_replica_typedBefore :
    ((attached sampleDocument "first" (some "lease_0")).run sampleDigests typedBefore).Replica :=
  run_replica sampleDigests sampleDocument "first" (some "lease_0") (by decide) typedBefore
    (by decide +kernel) (by decide +kernel) (by decide +kernel) (by decide +kernel)

/-- Text typed behind the uncertain change is merged into it. -/
def typedBehind : List Action :=
  lostAnswer ++ [.applyLocal (insertAt 1 ['b']) secondId]

/-- The daemon has applied the change without the text that was merged into it later. -/
theorem merged_text_not_applied :
    EachStep sampleDigests Fresh (attached sampleDocument "first" (some "lease_0")) typedBehind ∧
      EachStep sampleDigests (Undisturbed sampleDigests)
        (attached sampleDocument "first" (some "lease_0")) typedBehind ∧
      ¬ ((attached sampleDocument "first" (some "lease_0")).run sampleDigests
        typedBehind).Replica := by
  refine ⟨by decide +kernel, by decide +kernel, fun h => ?_⟩
  exact absurd h.edits.inserted (by decide +kernel)

end DocumentSystem

end Codegg.Documents
