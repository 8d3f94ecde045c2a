import Codegg.Documents.Registry

/-!
# The bounds of the daemon

How many documents are open, what they hold and how much each of them remembers. Every
operation keeps to these bounds, apart from one: a text that is read again from the disk
is checked against the bound of one document and not against that of all of them.
-/
namespace Codegg.Documents

open Codegg.Library OpenDocument

/-- The bounds of one document. -/
structure OpenDocument.Bounded (doc : OpenDocument) : Prop where
  readers : doc.readers.length ≤ maxAttachments
  recent : doc.recent.length ≤ maxDedupe
  size : byteLen doc.buffer.text ≤ maxDocumentTextBytes

variable {dg : Digests} {text : Rope} {doc : OpenDocument}

namespace OpenDocument

variable {doc doc' : OpenDocument}

theorem length_remember (recent : List (String × String × ℕ)) (victim revision : ℕ)
    (changeId digest : String) (h : recent.length ≤ maxDedupe) :
    (remember recent victim changeId digest revision).length ≤ maxDedupe := by
  have hpos : 0 < maxDedupe := by decide
  rw [remember, List.length_append, List.length_singleton]
  by_cases hfull : maxDedupe ≤ recent.length
  · have hlt : victim % recent.length < recent.length := Nat.mod_lt _ (by omega)
    rw [if_pos hfull, List.length_eraseIdx_of_lt hlt]
    omega
  · rw [if_neg hfull]
    omega

theorem Bounded.attach (h : doc.Bounded) (client : String) (writable : Bool) (lease : String) :
    (doc.attach client writable lease).2.Bounded := by
  rw [OpenDocument.attach]
  by_cases hfull : maxAttachments ≤ doc.readers.length
  · rw [if_pos hfull]
    exact h
  rw [if_neg hfull]
  have hreaders : (if client ∈ doc.readers then doc.readers else doc.readers ++ [client]).length ≤
      maxAttachments := by
    by_cases hclient : client ∈ doc.readers
    · rw [if_pos hclient]
      exact h.readers
    · rw [if_neg hclient, List.length_append, List.length_singleton]
      omega
  simp only
  split
  · split
    · split
      · exact ⟨hreaders, h.recent, h.size⟩
      · exact ⟨hreaders, h.recent, h.size⟩
    · exact ⟨hreaders, h.recent, h.size⟩
  · exact ⟨hreaders, h.recent, h.size⟩

/-- An attachment does not touch the text. -/
theorem attach_buffer (doc : OpenDocument) (client : String) (writable : Bool) (lease : String) :
    (doc.attach client writable lease).2.buffer = doc.buffer := by
  obtain ⟨readers, writer, h⟩ := attach_snd doc client writable lease
  rw [h]

theorem Bounded.detachClient (h : doc.Bounded) (client : String) :
    (doc.detachClient client).Bounded :=
  ⟨(List.length_filter_le _ _).trans h.readers, h.recent, h.size⟩

theorem ChangedTo.bounded {turn : DaemonTurn} {r : ChangeRequest}
    (hchanged : ChangedTo dg turn r doc doc') (h : doc.Bounded) : doc'.Bounded where
  readers := by
    rw [hchanged.frame]
    exact h.readers
  recent := by
    obtain ⟨revision, hrecent⟩ := hchanged.recent
    rw [hrecent]
    exact length_remember _ _ _ _ _ h.recent
  size := hchanged.size

theorem Bounded.reread (h : doc.Bounded) (diskDigest : String)
    (hsize : byteLen text ≤ maxDocumentTextBytes) : (doc.reread text diskDigest).Bounded :=
  ⟨h.readers, h.recent, hsize⟩

end OpenDocument

namespace Registry

structure Bounded (reg : Registry) : Prop where
  documents : reg.byId.card ≤ maxDocuments
  resident : reg.residentBytes ≤ maxResidentBytes
  each : ∀ id k, reg.find id = some k → k.doc.Bounded

variable {reg reg' : Registry} {id : String} {k : KeyedDocument}

theorem find_eq_some : reg.find id = some k ↔ id ∈ reg.byId ∧ reg.documents id = some k := by
  rw [find]
  by_cases h : id ∈ reg.byId <;> simp [h]

/-! ### Bytes -/

theorem bytesOf_of_find (h : reg.find id = some k) :
    reg.bytesOf id = byteLen k.doc.buffer.text := by
  rw [bytesOf, (find_eq_some.mp h).2]
  rfl

theorem residentBytes_eq (h : id ∈ reg.byId) :
    reg.residentBytes = reg.residentBytesExcluding id + reg.bytesOf id :=
  (Finset.sum_erase_add _ _ h).symm

theorem bytesOf_put (key : DocumentKey) (doc : OpenDocument) (i : String) :
    (reg.put id key doc).bytesOf i =
      if i = id then byteLen doc.buffer.text else reg.bytesOf i := by
  by_cases h : i = id
  · subst h
    simp [bytesOf, put]
  · simp [bytesOf, put, h]

/-- The other documents hold what they held. -/
theorem residentBytes_put (h : id ∈ reg.byId) (key : DocumentKey) (doc : OpenDocument) :
    (reg.put id key doc).residentBytes =
      reg.residentBytesExcluding id + byteLen doc.buffer.text := by
  have hid : id ∈ (reg.put id key doc).byId := h
  rw [residentBytes_eq hid, bytesOf_put, if_pos rfl]
  congr 1
  refine Finset.sum_congr rfl fun i hi => ?_
  rw [bytesOf_put, if_neg (Finset.ne_of_mem_erase hi)]

theorem residentBytes_insert (key : DocumentKey) (doc : OpenDocument) :
    (reg.insert key doc).residentBytes ≤ reg.residentBytes + byteLen doc.buffer.text := by
  have hself : (reg.insert key doc).bytesOf doc.id = byteLen doc.buffer.text := by
    simp [bytesOf, insert]
  have hid : doc.id ∈ (reg.insert key doc).byId := Finset.mem_insert_self _ _
  have hothers : (reg.insert key doc).residentBytesExcluding doc.id ≤ reg.residentBytes := by
    have hsub : (reg.insert key doc).byId.erase doc.id ⊆ reg.byId := by
      rw [insert, Finset.erase_insert_eq_erase]
      exact Finset.erase_subset _ _
    refine le_trans (le_of_eq (Finset.sum_congr rfl fun i hi => ?_))
      (Finset.sum_le_sum_of_subset hsub)
    simp [bytesOf, insert, Finset.ne_of_mem_erase hi]
  rw [residentBytes_eq hid]
  omega

/-- Documents that go and texts that stay. -/
theorem Bounded.shrink (h : reg.Bounded) (hsub : reg'.byId ⊆ reg.byId)
    (hfind : ∀ id k', reg'.find id = some k' → ∃ k, reg.find id = some k ∧
      k'.doc.buffer = k.doc.buffer ∧ k'.doc.Bounded) : reg'.Bounded where
  documents := (Finset.card_le_card hsub).trans h.documents
  each id k' hk' := by
    obtain ⟨_, _, _, hbounded⟩ := hfind id k' hk'
    exact hbounded
  resident := by
    refine le_trans ?_ h.resident
    refine (Finset.sum_le_sum fun id hid => ?_).trans (Finset.sum_le_sum_of_subset hsub)
    cases hk' : reg'.documents id with
    | none => simp [bytesOf, hk']
    | some k' =>
      obtain ⟨k, hk, hbuffer, _⟩ := hfind id k' (find_eq_some.mpr ⟨hid, hk'⟩)
      rw [bytesOf_of_find hk, bytesOf_of_find (find_eq_some.mpr ⟨hid, hk'⟩), hbuffer]

theorem find_put (h : id ∈ reg.byId) (key : DocumentKey) (doc : OpenDocument) (i : String) :
    (reg.put id key doc).find i = if i = id then some ⟨key, doc⟩ else reg.find i := by
  by_cases hi : i = id
  · subst hi
    simp [find, put, h]
  · simp [find, put, hi]

theorem Bounded.put (h : reg.Bounded) (hid : id ∈ reg.byId) (key : DocumentKey) (hdoc : doc.Bounded)
    (hfits : reg.residentBytesExcluding id + byteLen doc.buffer.text ≤ maxResidentBytes) :
    (reg.put id key doc).Bounded where
  documents := h.documents
  resident := (residentBytes_put hid key doc).trans_le hfits
  each i k hk := by
    rw [find_put hid] at hk
    by_cases hi : i = id
    · rw [if_pos hi] at hk
      cases hk
      exact hdoc
    · rw [if_neg hi] at hk
      exact h.each i k hk

/-- A document that keeps its text. -/
theorem Bounded.put_text (h : reg.Bounded) (hk : reg.find id = some k) (hdoc : doc.Bounded)
    (hbuffer : doc.buffer = k.doc.buffer) :
    (reg.put id k.key doc).Bounded := by
  refine h.put (find_eq_some.mp hk).1 k.key hdoc ?_
  have htotal := h.resident
  rw [residentBytes_eq (find_eq_some.mp hk).1, bytesOf_of_find hk] at htotal
  rw [hbuffer]
  exact htotal

/-! ### Operations -/

theorem Bounded.attachTo (h : reg.Bounded) (hid : id ∈ reg.byId) (client : String)
    (writable : Bool) (lease : String) :
    (reg.attachTo id client writable lease).2.Bounded := by
  rw [Registry.attachTo]
  cases hk : reg.documents id with
  | none => exact h
  | some k =>
    have hfound : reg.find id = some k := find_eq_some.mpr ⟨hid, hk⟩
    have hbounded := (h.each id k hfound).attach client writable lease
    have hbuffer := k.doc.attach_buffer client writable lease
    rcases hattach : k.doc.attach client writable lease with ⟨result, doc⟩
    cases result with
    | error e => simpa only [hattach] using h.put_text hfound hbounded hbuffer
    | ok u => simpa only [hattach] using h.put_text hfound hbounded hbuffer

theorem readDocument_checks {turn : DaemonTurn} {service : DocumentService}
    (h : service.readDocument dg turn = .ok doc) :
    turn.others.count < maxDocuments ∧ doc.Bounded ∧
      turn.others.residentBytes + byteLen doc.buffer.text ≤ maxResidentBytes := by
  rw [DocumentService.readDocument] at h
  split at h
  · cases h
  · split at h
    · cases h
    · split at h
      · cases h
      · next text hdisk =>
        split at h
        · cases h
        · next hsize =>
          split at h
          · cases h
          · cases h
            exact ⟨by omega, ⟨Nat.zero_le _, Nat.zero_le _, not_lt.mp hsize⟩, by
              simp only [DocumentBuffer.new]
              omega⟩

theorem Bounded.insert (h : reg.Bounded) (key : DocumentKey) (hcount : reg.byId.card < maxDocuments)
    (hdoc : doc.Bounded) (hfits : reg.residentBytes + byteLen doc.buffer.text ≤ maxResidentBytes) :
    (reg.insert key doc).Bounded where
  documents := (Finset.card_insert_le _ _).trans hcount
  resident := (residentBytes_insert key doc).trans hfits
  each i k hk := by
    obtain ⟨hi, hdoc'⟩ := find_eq_some.mp hk
    by_cases hid : i = doc.id
    · subst hid
      simp only [Registry.insert, Function.update_self, Option.some.injEq] at hdoc'
      rw [← hdoc']
      exact hdoc
    · simp only [Registry.insert, Function.update_of_ne hid] at hdoc'
      have hold : i ∈ reg.byId := by simpa [Registry.insert, hid] using hi
      exact h.each i k (find_eq_some.mpr ⟨hold, hdoc'⟩)

theorem Bounded.openNew (h : reg.Bounded) (dg : Digests) (turn : DaemonTurn) (key : DocumentKey)
    (client : String) (writable : Bool) :
    (reg.openNew dg turn key client writable).2.Bounded := by
  rw [Registry.openNew]
  cases hread : (⟨key.projectId, none⟩ : DocumentService).readDocument dg
      { turn with others := reg.held reg.byId } with
  | error e => exact h
  | ok doc =>
    obtain ⟨hcount, hdoc, hfits⟩ := readDocument_checks hread
    have hbounded := hdoc.attach client writable turn.lease
    have hbuffer := doc.attach_buffer client writable turn.lease
    rcases hattach : doc.attach client writable turn.lease with ⟨result, doc'⟩
    rw [hattach] at hbounded hbuffer
    cases result with
    | error e => simpa only [insertOpened, hattach] using h
    | ok u =>
      simp only [insertOpened, hattach]
      exact h.insert key hcount hbounded (by rw [hbuffer]; exact hfits)

theorem Bounded.openDocument (h : reg.Bounded) (dg : Digests) (turn : DaemonTurn)
    (key : DocumentKey) (client : String) (writable : Bool) :
    (reg.openDocument dg turn key client writable).2.Bounded := by
  rw [Registry.openDocument]
  cases reg.byKey key.toKeyString with
  | none => exact h.openNew dg turn key client writable
  | some id =>
    simp only
    by_cases hid : id ∈ reg.byId
    · rw [if_pos hid]
      exact h.attachTo hid client writable turn.lease
    · rw [if_neg hid]
      exact ⟨h.documents, h.resident, h.each⟩

/-- An operation on a document that keeps its bounds and the room it has. -/
theorem Bounded.onDocument {α : Type} (h : reg.Bounded)
    {f : OpenDocument → Except DocumentServiceError (α × OpenDocument)}
    (hf : ∀ k a doc, reg.find id = some k → f k.doc = .ok (a, doc) → doc.Bounded ∧
      (doc.buffer = k.doc.buffer ∨
        reg.residentBytesExcluding id + byteLen doc.buffer.text ≤ maxResidentBytes)) :
    (reg.onDocument id f).2.Bounded := by
  rw [Registry.onDocument]
  cases hk : reg.find id with
  | none => exact h
  | some k =>
    cases hdo : f k.doc with
    | error e => simpa only [hdo] using h
    | ok p =>
      simp only [hdo]
      obtain ⟨hbounded, hbuffer | hfits⟩ := hf k p.1 p.2 hk hdo
      · exact h.put_text hk hbounded hbuffer
      · exact h.put (find_eq_some.mp hk).1 k.key hbounded hfits

theorem Bounded.change (h : reg.Bounded) (dg : Digests) (victim : ℕ) (client : String)
    (r : ChangeRequest) : (reg.change dg victim client r).2.Bounded := by
  refine h.onDocument fun k revision doc hk hok => ?_
  have hdoc := h.each _ k hk
  rcases (change_cases (changeIn_eq_ok hok)).1 with rfl | hchanged
  · exact ⟨hdoc, .inl rfl⟩
  · exact ⟨hchanged.bounded hdoc, .inr hchanged.resident⟩

theorem Bounded.detachDocument (h : reg.Bounded) (id projectId client : String) :
    (reg.detachDocument id projectId client).2.Bounded := by
  rw [Registry.detachDocument]
  cases hk : reg.find id with
  | none => exact h
  | some k =>
    have hput : (reg.put id k.key (k.doc.detachClient client)).Bounded :=
      h.put_text hk ((h.each id k hk).detachClient client) rfl
    simp only
    split_ifs
    · exact h
    · refine hput.shrink (Finset.erase_subset _ _) fun i k' hk' => ?_
      obtain ⟨hi, hdoc⟩ := find_eq_some.mp hk'
      have hfound : (reg.put id k.key (k.doc.detachClient client)).find i = some k' :=
        find_eq_some.mpr ⟨Finset.mem_of_mem_erase hi, hdoc⟩
      exact ⟨k', hfound, rfl, hput.each i k' hfound⟩
    · exact hput

theorem Bounded.leaveAll (h : reg.Bounded) (client : String) : (reg.leaveAll client).Bounded := by
  refine h.shrink (Finset.Subset.refl _) fun id k' hk' => ?_
  obtain ⟨hid, hdoc⟩ := find_eq_some.mp hk'
  have hid' : id ∈ reg.byId := hid
  simp only [Registry.leaveAll, if_pos hid'] at hdoc
  obtain ⟨k, hk, rfl⟩ := Option.map_eq_some_iff.mp hdoc
  have hfound : reg.find id = some k := find_eq_some.mpr ⟨hid', hk⟩
  exact ⟨k, hfound, rfl, (h.each id k hfound).detachClient client⟩

theorem Bounded.evictCleanUnattached (h : reg.Bounded) : reg.evictCleanUnattached.Bounded := by
  refine h.shrink Finset.sdiff_subset fun id k' hk' => ?_
  obtain ⟨hid, hdoc⟩ := find_eq_some.mp hk'
  have hfound : reg.find id = some k' := find_eq_some.mpr ⟨(Finset.mem_sdiff.mp hid).1, hdoc⟩
  exact ⟨k', hfound, rfl, h.each id k' hfound⟩

/-- A text that is read again fits beside the other documents. -/
def Fits (reg : Registry) : ServiceOperation → Prop
  | .refreshClean id projectId client expectedRevision text diskDigest =>
    ∀ k, reg.find id = some k →
      k.doc.Refreshes projectId client expectedRevision text diskDigest →
        reg.residentBytesExcluding id + byteLen text ≤ maxResidentBytes
  | .reloadVerified id projectId client lease expectedRevision text _ =>
    ∀ k, reg.find id = some k → k.doc.Reloads projectId client lease expectedRevision text →
      reg.residentBytesExcluding id + byteLen text ≤ maxResidentBytes
  | _ => True

theorem onDocument_of_ok {α : Type} {a : α}
    {f : OpenDocument → Except DocumentServiceError (α × OpenDocument)} (hk : reg.find id = some k)
    (hf : f k.doc = .ok (a, doc)) :
    (reg.onDocument id f).2 = reg.put id k.key doc := by
  simp [Registry.onDocument, hk, hf]

/-- What the documents hold when one of them has been read again. -/
theorem residentBytes_refresh {projectId client diskDigest : String} {expectedRevision : ℕ}
    (hk : reg.find id = some k)
    (h : k.doc.Refreshes projectId client expectedRevision text diskDigest) :
    (reg.after dg (.refreshClean id projectId client expectedRevision text
      diskDigest)).residentBytes = reg.residentBytesExcluding id + byteLen text := by
  rw [after, onDocument_of_ok hk h.result, residentBytes_put (find_eq_some.mp hk).1]
  rfl

theorem residentBytes_reload {projectId client lease diskDigest : String} {expectedRevision : ℕ}
    (hk : reg.find id = some k) (h : k.doc.Reloads projectId client lease expectedRevision text) :
    (reg.after dg (.reloadVerified id projectId client lease expectedRevision text
      diskDigest)).residentBytes = reg.residentBytesExcluding id + byteLen text := by
  rw [after, onDocument_of_ok hk h.result, residentBytes_put (find_eq_some.mp hk).1]
  rfl

/-- One operation keeps the bounds exactly if the text it reads again fits. -/
theorem bounded_after_iff (dg : Digests) (h : reg.Bounded) (op : ServiceOperation) :
    (reg.after dg op).Bounded ↔ reg.Fits op := by
  cases op with
  | openDocument turn key client writable =>
    exact iff_of_true (h.openDocument dg turn key client writable) trivial
  | acquireWriter id projectId client lease =>
    refine iff_of_true (h.onDocument fun k a doc hk hok => ?_) trivial
    have hdoc := h.each id k hk
    obtain ⟨-, writer, rfl⟩ := acquireWriterIn_eq_ok hok
    exact ⟨⟨hdoc.readers, hdoc.recent, hdoc.size⟩, .inl rfl⟩
  | change victim client r => exact iff_of_true (h.change dg victim client r) trivial
  | commitSave id projectId savedRevision newDiskDigest =>
    refine iff_of_true (h.onDocument fun k a doc hk hok => ?_) trivial
    have hdoc := h.each id k hk
    obtain ⟨-, rfl⟩ := commitSaveIn_eq_ok hok
    exact ⟨⟨hdoc.readers, hdoc.recent, hdoc.size⟩, .inl rfl⟩
  | markDiskConflict id projectId actualDiskDigest =>
    refine iff_of_true (h.onDocument fun k a doc hk hok => ?_) trivial
    have hdoc := h.each id k hk
    obtain rfl := markDiskConflictIn_eq_ok hok
    exact ⟨⟨hdoc.readers, hdoc.recent, hdoc.size⟩, .inl rfl⟩
  | refreshClean id projectId client expectedRevision text diskDigest =>
    constructor
    · intro hafter k hk hrefreshes
      rw [← residentBytes_refresh hk hrefreshes]
      exact hafter.resident
    · intro hfits
      refine h.onDocument fun k a doc hk hok => ?_
      have hdoc := h.each id k hk
      rcases refreshClean_eq_ok hok with ⟨conflicted, rfl⟩ | ⟨hrefreshes, rfl⟩
      · exact ⟨⟨hdoc.readers, hdoc.recent, hdoc.size⟩, .inl rfl⟩
      · exact ⟨hdoc.reread diskDigest hrefreshes.size, .inr (hfits k hk hrefreshes)⟩
  | reloadVerified id projectId client lease expectedRevision text diskDigest =>
    constructor
    · intro hafter k hk hreloads
      rw [← residentBytes_reload hk hreloads]
      exact hafter.resident
    · intro hfits
      refine h.onDocument fun k a doc hk hok => ?_
      have hdoc := h.each id k hk
      obtain ⟨hreloads, rfl⟩ := reloadVerified_eq_ok hok
      exact ⟨hdoc.reread diskDigest hreloads.size, .inr (hfits k hk hreloads)⟩
  | detachDocument id projectId client =>
    exact iff_of_true (h.detachDocument id projectId client) trivial
  | detachClient client => exact iff_of_true (h.leaveAll client).evictCleanUnattached trivial

theorem bounded_empty : empty.Bounded where
  documents := Nat.zero_le _
  resident := Nat.zero_le _
  each id k hk := by
    simp [find, empty] at hk

theorem run_append (dg : Digests) (reg : Registry) (ops ops' : List ServiceOperation) :
    reg.run dg (ops ++ ops') = (reg.run dg ops).run dg ops' :=
  List.foldl_append

theorem run_cons (dg : Digests) (reg : Registry) (op : ServiceOperation)
    (ops : List ServiceOperation) : reg.run dg (op :: ops) = (reg.after dg op).run dg ops := rfl

theorem run_nil (dg : Digests) (reg : Registry) : reg.run dg [] = reg := rfl

/-- In a run from the start the bounds hold throughout exactly if every text that is read
again fits when it comes. -/
theorem run_bounded_iff (dg : Digests) (ops : List ServiceOperation) :
    (∀ n, (empty.run dg (ops.take n)).Bounded) ↔
      ∀ n op, ops[n]? = some op → (empty.run dg (ops.take n)).Fits op := by
  have hstep : ∀ n op, ops[n]? = some op →
      empty.run dg (ops.take (n + 1)) = (empty.run dg (ops.take n)).after dg op := by
    intro n op hop
    rw [List.take_add_one, hop, run_append]
    rfl
  constructor
  · intro hbounded n op hop
    have hnext := hbounded (n + 1)
    rw [hstep n op hop] at hnext
    exact (bounded_after_iff dg (hbounded n) op).mp hnext
  · intro hfits n
    induction n with
    | zero => exact bounded_empty
    | succ n ih =>
      cases hop : ops[n]? with
      | none =>
        rw [List.take_of_length_le (List.getElem?_eq_none_iff.mp hop)] at ih
        rwa [List.take_of_length_le (Nat.le_succ_of_le (List.getElem?_eq_none_iff.mp hop))]
      | some op =>
        rw [hstep n op hop]
        exact (bounded_after_iff dg ih op).mpr (hfits n op hop)

/-! ### Nine documents -/

def pathKey (name : String) : DocumentKey := ⟨"p", "w", .workspace, name⟩

def openText (name : String) (text : Rope) : ServiceOperation :=
  .openDocument ⟨⟨0, 0, 0⟩, 0, some text, false, name, "lease"⟩ (pathKey name) "c" false

/-- The documents of these paths are open, and hold so much. -/
structure Filled (reg : Registry) (names : List String) (total : ℕ) : Prop where
  byId : reg.byId = names.toFinset
  total : reg.residentBytes = total
  free : ∀ name ∉ names, reg.byKey (pathKey name).toKeyString = none

theorem pathKey_ne {name other : String} (h : other ≠ name) :
    (pathKey other).toKeyString ≠ (pathKey name).toKeyString :=
  fun heq => h ((String.append_right_inj _).mp heq)

theorem residentBytes_insert_new (key : DocumentKey) (h : doc.id ∉ reg.byId) :
    (reg.insert key doc).residentBytes = reg.residentBytes + byteLen doc.buffer.text := by
  have hid : doc.id ∈ (reg.insert key doc).byId := Finset.mem_insert_self _ _
  have hself : (reg.insert key doc).bytesOf doc.id = byteLen doc.buffer.text := by
    simp [bytesOf, insert]
  have hothers : (reg.insert key doc).residentBytesExcluding doc.id = reg.residentBytes := by
    have herase : (reg.insert key doc).byId.erase doc.id = reg.byId := Finset.erase_insert h
    rw [residentBytesExcluding, herase]
    refine Finset.sum_congr rfl fun i hi => ?_
    have hne : i ≠ doc.id := fun heq => h (heq ▸ hi)
    simp [bytesOf, insert, hne]
  rw [residentBytes_eq hid, hself, hothers]

/-- One more document is opened. -/
theorem Filled.openOne (dg : Digests) {names : List String} {total : ℕ} {name : String}
    (h : reg.Filled names total) (hnew : name ∉ names) (hcount : names.length < maxDocuments)
    (hsize : byteLen text ≤ maxDocumentTextBytes) (hfits : total + byteLen text ≤ maxResidentBytes)
    :
    (reg.after dg (openText name text)).Filled (name :: names) (total + byteLen text) ∧
      (reg.after dg (openText name text)).find name = some ⟨pathKey name,
        { openedDocument dg name "p" text with readers := ["c"] }⟩ := by
  have hcard : reg.byId.card ≤ names.length := by
    rw [h.byId]
    exact List.toFinset_card_le names
  have htotal : (reg.held reg.byId).residentBytes = total := h.total
  have hread : (⟨"p", none⟩ : DocumentService).readDocument dg
      ⟨reg.held reg.byId, 0, some text, false, name, "lease"⟩ =
        .ok (openedDocument dg name "p" text) := by
    have hcount' : ¬maxDocuments ≤ (reg.held reg.byId).count := by
      show ¬maxDocuments ≤ reg.byId.card
      omega
    rw [DocumentService.readDocument]
    simp only [htotal]
    rw [if_neg hcount', if_neg (by omega), if_neg (not_lt.mpr hsize), if_neg (not_lt.mpr hfits)]
    rfl
  have hafter : reg.after dg (openText name text) =
      reg.insert (pathKey name) { openedDocument dg name "p" text with readers := ["c"] } := by
    show (reg.openDocument dg _ (pathKey name) "c" false).2 = _
    rw [openDocument, h.free name hnew]
    rw [openNew]
    simp only [pathKey, hread]
    rfl
  have hfresh : name ∉ reg.byId := by
    rw [h.byId, List.mem_toFinset]
    exact hnew
  rw [hafter]
  refine ⟨⟨?_, ?_, ?_⟩, find_eq_some.mpr ⟨Finset.mem_insert_self _ _, ?_⟩⟩
  · rw [List.toFinset_cons, ← h.byId]
    rfl
  · rw [residentBytes_insert_new _ hfresh, h.total]
    rfl
  · intro other hother
    rw [List.mem_cons, not_or] at hother
    have hkey := pathKey_ne hother.1
    simp only [insert, Function.update_of_ne hkey]
    exact h.free other hother.2
  · simp [insert, openedDocument]

def fullText : Rope := List.replicate maxDocumentTextBytes 'a'

theorem byteLen_fullText : byteLen fullText = maxDocumentTextBytes := by
  have hsize : Char.utf8Size 'a' = 1 := rfl
  rw [byteLen, fullText, List.map_replicate, List.sum_replicate, hsize, smul_eq_mul, Nat.mul_one]

/-- Documents of the greatest size are opened one after another. -/
theorem Filled.openAll (dg : Digests) {names : List String} {total : ℕ} (more : List String)
    (h : reg.Filled names total) (hnodup : (more ++ names).Nodup)
    (hcount : more.length + names.length ≤ maxDocuments)
    (hfits : total + more.length * maxDocumentTextBytes ≤ maxResidentBytes) :
    (reg.run dg (more.map (openText · fullText))).Filled (more.reverse ++ names)
      (total + more.length * maxDocumentTextBytes) := by
  induction more generalizing reg names total with
  | nil => simpa [run] using h
  | cons name more ih =>
    rw [List.length_cons] at hcount hfits
    rw [Nat.succ_mul] at hfits
    obtain ⟨hnew, hrest⟩ := List.nodup_cons.mp hnodup
    have hname : name ∉ names := fun hmem => hnew (List.mem_append_right more hmem)
    have hone := (h.openOne dg hname (by omega) (le_of_eq byteLen_fullText)
      (by rw [byteLen_fullText]; omega)).1
    rw [byteLen_fullText] at hone
    have hnodup' : (more ++ name :: names).Nodup := List.nodup_middle.mpr hnodup
    have hall := ih hone hnodup' (by rw [List.length_cons]; omega) (by omega)
    have htotal : total + (more.length + 1) * maxDocumentTextBytes =
        total + maxDocumentTextBytes + more.length * maxDocumentTextBytes := by
      rw [Nat.succ_mul]
      omega
    rw [List.length_cons, htotal, List.reverse_cons, List.append_assoc]
    exact hall

/-- Eight texts of 8 MiB fill the daemon; an empty file still fits, and is read again when
there is something in it. -/
def overfull : List ServiceOperation :=
  ["a", "b", "c", "d", "e", "f", "g", "h"].map (openText · fullText) ++
    [openText "i" [], .refreshClean "i" "p" "c" 0 ['b'] "sha256:b"]

theorem overfull_exceeds :
    ¬(empty.run ⟨fun _ => "", String.ofList⟩ overfull).Bounded := by
  set dg : Digests := ⟨fun _ => "", String.ofList⟩
  have hstart : empty.Filled [] 0 := ⟨rfl, rfl, fun _ _ => rfl⟩
  have hfull := hstart.openAll dg ["a", "b", "c", "d", "e", "f", "g", "h"] (by decide) (by decide)
    (by decide)
  have hnew : "i" ∉ ["a", "b", "c", "d", "e", "f", "g", "h"].reverse ++ [] := by decide
  have hsmall : byteLen [] ≤ maxDocumentTextBytes := Nat.zero_le _
  obtain ⟨hnine, hfound⟩ := hfull.openOne dg hnew (by decide) hsmall
    (by decide)
  intro hbounded
  have hrefreshes : OpenDocument.Refreshes { openedDocument dg "i" "p" [] with readers := ["c"] }
      "p" "c" 0 ['b'] "sha256:b" :=
    ⟨by decide, rfl, by decide, rfl, by decide, rfl, by decide⟩
  have hres := hbounded.resident
  have hlast : empty.run dg overfull =
      (((empty.run dg (["a", "b", "c", "d", "e", "f", "g", "h"].map (openText · fullText))).after dg
        (openText "i" [])).after dg (.refreshClean "i" "p" "c" 0 ['b'] "sha256:b")) := by
    rw [overfull, run_append, run_cons, run_cons, run_nil]
  rw [hlast] at hres
  generalize (empty.run dg (["a", "b", "c", "d", "e", "f", "g", "h"].map
    (openText · fullText))).after dg (openText "i" []) = nine at hnine hfound hres
  rw [residentBytes_refresh hfound hrefreshes] at hres
  have htotal := hnine.total
  have hnothing : nine.bytesOf "i" = 0 := by
    rw [bytesOf_of_find hfound]
    simp [openedDocument, DocumentBuffer.new]
  rw [residentBytes_eq (find_eq_some.mp hfound).1] at htotal
  have hone : byteLen ['b'] = 1 := rfl
  have hmax : 0 + ["a", "b", "c", "d", "e", "f", "g", "h"].length * maxDocumentTextBytes +
      byteLen [] = maxResidentBytes := by
    simp [maxDocumentTextBytes,
      maxResidentBytes]
  omega

end Registry

end Codegg.Documents
