import Codegg.PromptQueue.Renumber

/-!
# Deletions and reorders

What the owner sees after a deletion or a reorder, and exactly when the request goes
through: if and only if no row of the session that is still there lies one renumber
band below a row inserted after it. Terminal rows are displaced again by each
renumbering while the live ones start at zero each time, so rows do end up there.
-/
namespace Codegg.PromptQueue

open Codegg.Library UserPromptQueueEntryRecord UniqueTable

/-- The outcome of a renumbering of `t`. -/
structure Renumbered (sessionId : String) (nowMs : ℤ) (t : EntryTable) (desired : List String)
    (t' : EntryTable) : Prop where
  /-- The live entries, in the merged order, have the ordinals from zero on. -/
  order : ∃ merged,
    mergeOperableIntoLive ((projectedRows sessionId nowMs t).map liveFrom) desired = .ok merged ∧
      (projectedRows sessionId nowMs t').map (·.id) = merged ∧
      (projectedRows sessionId nowMs t').map (·.ordinal) = List.range merged.length
  /-- An entry that is being delivered keeps its rank. -/
  delivering : ∀ (k : ℕ) (r : UserPromptQueueEntryRecord),
    (projectedRows sessionId nowMs t)[k]? = some r → r.status = .delivering →
      ∃ r', (projectedRows sessionId nowMs t')[k]? = some r' ∧ r'.id = r.id ∧ r'.ordinal = k
  /-- No two rows of the session, live or terminal, share an ordinal. -/
  distinct : ∀ r ∈ t'.rows, ∀ r' ∈ t'.rows, r.sessionId = sessionId → r'.sessionId = sessionId →
    r ≠ r' → r.ordinal ≠ r'.ordinal
  /-- Every row is still there and has changed its ordinal at most. -/
  kept : ∀ r ∈ t.rows, ∃ r' ∈ t'.rows, Kept r r'

variable {r : UserPromptQueueEntryRecord}

section

variable {t t' : EntryTable} {sessionId : String} {nowMs : ℤ}

theorem distinct_ordinals (t : EntryTable) (sessionId : String) :
    ∀ r ∈ t.rows, ∀ r' ∈ t.rows, r.sessionId = sessionId → r'.sessionId = sessionId →
      r ≠ r' → r.ordinal ≠ r'.ordinal := by
  intro r hr r' hr' hs hs' hne heq
  exact hne (t.slot_inj hr hr' (Prod.ext (hs.trans hs'.symm) heq))

theorem Kept.isLiveAt {r' : UserPromptQueueEntryRecord} (h : Kept r r') :
    r'.isLiveAt sessionId nowMs = r.isLiveAt sessionId nowMs := by
  rw [h]
  rfl

/-- After a renumbering the live rows, by rank, are the merged order. -/
theorem projected_renumbered {merged : List String} (hret : Retained t) (hret' : Retained t')
    (hrows : t'.rows = t.rows.map (renumbered sessionId merged))
    (hperm : merged.Perm ((projectedRows sessionId nowMs t).map (·.id))) :
    (projectedRows sessionId nowMs t').map (fun r => (r.id, r.ordinal)) = merged.zipIdx := by
  rw [projectedRows_eq hret] at hperm
  rw [projectedRows_eq hret']
  have hnodup : merged.Nodup := hperm.nodup_iff.mpr (nodup_ids_selectOrdered _ t)
  have hstrict : ((selectOrdered (·.isLiveAt sessionId nowMs) t').map
      fun r => (r.id, r.ordinal)).Pairwise fun a b => a.2 < b.2 :=
    List.pairwise_map.mpr (strict_selectOrdered fun _ => ownedBy_of_isLiveAt)
  have hzip : merged.zipIdx.Pairwise fun a b => a.2 < b.2 := by
    have hrange : (merged.zipIdx.map Prod.snd).Pairwise (· < ·) := by
      rw [List.zipIdx_map_snd]
      exact List.pairwise_lt_range'
    exact List.pairwise_map.mp hrange
  refine List.Perm.eq_of_pairwise ?_ hstrict hzip ?_
  · omega
  have hirrefl : ∀ l : List (String × ℕ), l.Pairwise (fun a b => a.2 < b.2) → l.Nodup := by
    intro l hl
    refine hl.imp fun hab heq => ?_
    rw [heq] at hab
    exact lt_irrefl _ hab
  rw [List.perm_ext_iff_of_nodup (hirrefl _ hstrict) (hirrefl _ hzip)]
  rintro ⟨i, k⟩
  rw [List.mem_zipIdx_iff_getElem?]
  constructor
  · intro h
    obtain ⟨r', hr', heq⟩ := List.mem_map.mp h
    obtain ⟨hmem', hlive'⟩ := mem_selectOrdered.mp hr'
    rw [hrows] at hmem'
    obtain ⟨r, hr, rfl⟩ := List.mem_map.mp hmem'
    rw [(kept_renumbered sessionId merged r).isLiveAt] at hlive'
    have hid : r.id ∈ merged :=
      hperm.mem_iff.mpr (List.mem_map.mpr ⟨r, mem_selectOrdered.mpr ⟨hr, hlive'⟩, rfl⟩)
    obtain ⟨rfl, rfl⟩ := Prod.mk.inj heq
    rw [renumbered, if_pos hid]
    exact List.getElem?_eq_some_iff.mpr ⟨List.idxOf_lt_length_of_mem hid, List.getElem_idxOf _⟩
  · intro h
    obtain ⟨hk, hget⟩ := List.getElem?_eq_some_iff.mp h
    have himem : i ∈ merged := List.mem_of_getElem? h
    obtain ⟨r, hr, rfl⟩ := List.mem_map.mp (hperm.mem_iff.mp himem)
    obtain ⟨hmem, hlive⟩ := mem_selectOrdered.mp hr
    refine List.mem_map.mpr ⟨renumbered sessionId merged r, mem_selectOrdered.mpr ⟨?_, ?_⟩, ?_⟩
    · rw [hrows]
      exact List.mem_map.mpr ⟨r, hmem, rfl⟩
    · rw [(kept_renumbered sessionId merged r).isLiveAt]
      exact hlive
    · have hget' : merged[k] = r.id := hget
      have hidx : merged.idxOf r.id = k := by
        rw [← hget']
        exact hnodup.idxOf_getElem k hk
      rw [renumbered, if_pos himem, hidx]

/-- What is desired: the operable entries, each once. -/
def Desired (sessionId : String) (nowMs : ℤ) (t : EntryTable) (desired : List String) : Prop :=
  desired.Perm ((operableRows sessionId nowMs t).map (·.id))

/-- The merge of an order of the operable entries names the live entries, each once. -/
theorem merged_of_desired (hret : Retained t) {desired : List String}
    (hd : Desired sessionId nowMs t desired) :
    ∃ merged,
      mergeOperableIntoLive ((projectedRows sessionId nowMs t).map liveFrom) desired =
        .ok merged ∧
      Merged ((projectedRows sessionId nowMs t).map liveFrom) desired merged ∧
      merged.Perm ((projectedRows sessionId nowMs t).map (·.id)) := by
  have hop : desired.Perm
      (((projectedRows sessionId nowMs t).filter (·.status.isOperable)).map (·.id)) :=
    hd.trans ((operable_perm hret).map _)
  have hlen : desired.length =
      ((projectedRows sessionId nowMs t).map liveFrom).countP (·.status.isOperable) := by
    rw [hop.length_eq, List.length_map, List.countP_map, List.countP_eq_length_filter]
    rfl
  obtain ⟨merged, hm, hspec⟩ := mergeOperableIntoLive_spec _ desired hlen
  refine ⟨merged, hm, hspec, hspec.perm.trans ?_⟩
  rw [List.filter_map, List.map_map]
  refine (hop.append_right _).trans ?_
  have hsplit := List.filter_append_perm
    (fun r : UserPromptQueueEntryRecord => r.status.isOperable) (projectedRows sessionId nowMs t)
  have hmap := hsplit.map (·.id)
  rw [List.map_append] at hmap
  exact hmap

/-- With the order settled, only the two statements remain. -/
theorem renumberDense_of_merged {s : QueueDatabase} {desired merged : List String}
    (hm : mergeOperableIntoLive ((projectedRows sessionId nowMs s.entries).map liveFrom) desired =
      .ok merged) :
    renumberDense sessionId nowMs desired s = (do
      storeEntries (s.entries.setRows? (displacements sessionId s.entries))
      moveRows fun _ => denseTargets sessionId merged : QueueM Unit) s := by
  have hbody : renumberDense sessionId nowMs desired s =
      (do
        let merged ← liftExcept
          (mergeOperableIntoLive ((projectedRows sessionId nowMs s.entries).map liveFrom) desired)
        moveRows (displacements sessionId)
        moveRows fun _ => denseTargets sessionId merged : QueueM Unit) s := rfl
  rw [hbody, hm]
  rfl

/-- The renumbering goes through when the session's rows are apart. -/
theorem renumberDense_spec {s : QueueDatabase} (hret : Retained s.entries)
    {desired : List String} (hd : Desired sessionId nowMs s.entries desired)
    (hapart : Apart sessionId s.entries) :
    ∃ t', renumberDense sessionId nowMs desired s = .ok () { s with entries := t' } ∧
      Renumbered sessionId nowMs s.entries desired t' := by
  obtain ⟨merged, hm, hspec, hperm⟩ := merged_of_desired hret hd
  obtain ⟨t₁, ht₁, hrows₁⟩ := displacements_rows hapart
  have hnodup : merged.Nodup := by
    rw [hperm.nodup_iff, projectedRows_eq hret]
    exact nodup_ids_selectOrdered _ _
  have hlen : merged.length ≤ maxRetainedPerSession := by
    rw [hperm.length_eq, List.length_map]
    exact List.length_take_le _ _
  have hsub : merged ⊆ sessionIds sessionId s.entries := by
    intro i hi
    have hi' := hperm.mem_iff.mp hi
    rw [projectedRows_eq hret] at hi'
    obtain ⟨r, hr, rfl⟩ := List.mem_map.mp hi'
    obtain ⟨hmem, hlive⟩ := mem_selectOrdered.mp hr
    exact mem_sessionIds.mpr ⟨r, hmem, of_decide_eq_true (ownedBy_of_isLiveAt hlive), rfl⟩
  obtain ⟨t₂, ht₂, hrows₂⟩ := denseTargets_rows hrows₁ hnodup hlen hsub
  have hret₂ : Retained t₂ := by
    refine hret.of_subset fun session i hi => ?_
    obtain ⟨r', hr', hs', rfl⟩ := mem_sessionIds.mp hi
    rw [hrows₂] at hr'
    obtain ⟨r, hr, rfl⟩ := List.mem_map.mp hr'
    have hkept := kept_renumbered sessionId merged r
    exact mem_sessionIds.mpr ⟨r, hr, hkept.session.symm.trans hs', hkept.id_eq.symm⟩
  have hproj := projected_renumbered hret hret₂ hrows₂ hperm
  refine ⟨t₂, ?_, ⟨merged, hm, ?_, ?_⟩, ?_, distinct_ordinals t₂ sessionId, ?_⟩
  · rw [renumberDense_of_merged hm, ht₁]
    show storeEntries (t₁.setRows? (denseTargets sessionId merged)) { s with entries := t₁ } = _
    rw [ht₂]
    rfl
  · have hfst := congrArg (List.map Prod.fst) hproj
    rw [List.map_map, List.zipIdx_map_fst] at hfst
    exact hfst
  · have hsnd := congrArg (List.map Prod.snd) hproj
    rw [List.map_map, List.zipIdx_map_snd, ← List.range_eq_range'] at hsnd
    exact hsnd
  · intro k r hk hdel
    have hnot : (liveFrom r).status.isOperable = false := by
      show r.status.isOperable = false
      rw [hdel]
      rfl
    have hkept : merged[k]? = some r.id :=
      hspec.kept k (liveFrom r) (by rw [List.getElem?_map, hk]; rfl) hnot
    have hget : ((projectedRows sessionId nowMs t₂).map fun r => (r.id, r.ordinal))[k]? =
        some (r.id, k) := by
      rw [hproj, List.getElem?_zipIdx, hkept]
      simp
    rw [List.getElem?_map] at hget
    obtain ⟨r', hr', heq⟩ := Option.map_eq_some_iff.mp hget
    obtain ⟨hid, hordinal⟩ := Prod.mk.inj heq
    exact ⟨r', hr', hid, hordinal⟩
  · intro r hr
    refine ⟨renumbered sessionId merged r, ?_, kept_renumbered sessionId merged r⟩
    rw [hrows₂]
    exact List.mem_map.mpr ⟨r, hr, rfl⟩

/-- A row one band below a later one stops the renumbering. -/
theorem renumberDense_clash {s : QueueDatabase} (hret : Retained s.entries)
    {desired : List String} (hd : Desired sessionId nowMs s.entries desired)
    (hclash : ¬Apart sessionId s.entries) :
    renumberDense sessionId nowMs desired s = .error .storage s := by
  obtain ⟨merged, hm, _, _⟩ := merged_of_desired hret hd
  rw [renumberDense_of_merged hm, displacements_clash hclash]
  rfl

end

/-! ### The two requests -/

/-- A deletion or a reorder. -/
inductive Mutation where
  | delete (entryId : String)
  | reorder (entryIds : List String)
  deriving DecidableEq, Repr

/-- The entry that goes away. -/
def Mutation.removed : Mutation → Option String
  | .delete entryId => some entryId
  | .reorder _ => none

section

variable (caller sessionId : String) (nowMs : ℤ)

def Mutation.perform : Mutation → QueueM (List UserPromptQueueLiveEntry)
  | .delete entryId => PromptQueue.delete caller sessionId entryId nowMs
  | .reorder entryIds => PromptQueue.reorder caller sessionId entryIds nowMs

def swept (t : EntryTable) : EntryTable :=
  t.updateWhere (·.isOverdueAt sessionId nowMs) (expireRow nowMs)

/-- The rows as they are when the renumbering starts. -/
def Mutation.prepared (t : EntryTable) : Mutation → EntryTable
  | .delete entryId => (swept sessionId nowMs t).deleteWhere (pendingIn sessionId entryId)
  | .reorder _ => swept sessionId nowMs t

/-- The order asked for; a deletion leaves that of the others. -/
def Mutation.desired (t : EntryTable) : Mutation → List String
  | .delete entryId =>
    (operableRows sessionId nowMs
      ((swept sessionId nowMs t).deleteWhere (pendingIn sessionId entryId))).map (·.id)
  | .reorder entryIds => entryIds

end

/-- What the owner may ask for: to delete an entry that waits and has not expired, or to
put the entries that wait in another order. -/
structure Entitled (db : QueueDatabase) (caller sessionId : String) (nowMs : ℤ) (m : Mutation) :
    Prop where
  validCaller : validatePrincipal caller = .ok ()
  validSession : validateSessionId sessionId = .ok ()
  owner : ∃ record, ownershipIn db sessionId = .owned record ∧ record.ownerPrincipal = caller
  target : match m with
    | .delete entryId => validateEntryId entryId = .ok () ∧
        ∃ r ∈ db.entries.rows, r.id = entryId ∧ r.isOperableAt sessionId nowMs = true
    | .reorder entryIds => (∀ id ∈ entryIds, validateEntryId id = .ok ()) ∧
        entryIds.Perm ((operableRows sessionId nowMs db.entries).map (·.id))

variable {m : Mutation}

section

variable {db : QueueDatabase} {t : EntryTable} {caller sessionId entryId : String} {nowMs : ℤ}

theorem authorize_ok {record : UserPromptQueueOwnerRecord}
    (h : ownershipIn db sessionId = .owned record) (hc : record.ownerPrincipal = caller) :
    authorizeOwnedQueue caller sessionId db = .ok () db := by
  show ownedGate caller (ownershipIn db sessionId) db = .ok () db
  rw [h]
  exact failIf_ok (fun hne => hne hc) db

/-- The sweep takes no entry that waits for its turn, and brings none. -/
theorem isOperableAt_swept (r : UserPromptQueueEntryRecord) :
    (updateRow (·.isOverdueAt sessionId nowMs) (expireRow nowMs) r).isOperableAt
      sessionId nowMs = r.isOperableAt sessionId nowMs := by
  unfold updateRow
  split
  · rename_i h
    simp only [isOverdueAt, Bool.and_eq_true, decide_eq_true_eq] at h
    have hlate : ¬nowMs < r.expiresAtMs := not_lt.mpr h.2
    simp [isOperableAt, hlate, expireRow]
  · rfl

theorem isOperableAt_of_mem_swept {r' : UserPromptQueueEntryRecord}
    (h : r' ∈ (swept sessionId nowMs t).rows) :
    ∃ r ∈ t.rows, r'.id = r.id ∧ r'.slot = r.slot ∧
      r'.isOperableAt sessionId nowMs = r.isOperableAt sessionId nowMs := by
  obtain ⟨r, hr, rfl⟩ := List.mem_map.mp h
  exact ⟨r, hr, ident_updateRow _ _ r, slot_updateRow _ _ r,
    isOperableAt_swept r⟩

/-- The entry the owner may delete is still pending after the sweep. -/
theorem pendingIn_of_operable (h : r.isOperableAt sessionId nowMs = true) :
    pendingIn sessionId r.id r = true := by
  simp only [isOperableAt, Bool.and_eq_true,
    UserPromptQueueStatus.isOperable_iff] at h
  simp [pendingIn, h.1.1, h.1.2]

theorem mem_swept_of_operable (hr : r ∈ t.rows) (h : r.isOperableAt sessionId nowMs = true) :
    r ∈ (swept sessionId nowMs t).rows := by
  refine List.mem_map.mpr ⟨r, hr, ?_⟩
  refine if_neg fun hover => ?_
  simp only [isOperableAt, isOverdueAt,
    Bool.and_eq_true, decide_eq_true_eq] at h hover
  exact absurd h.2 (not_lt.mpr hover.2)

/-- What a failed transaction leaves. -/
def rolledBack {α : Type} (db : QueueDatabase) :
    EStateM.Result UserPromptQueueError QueueDatabase α →
      EStateM.Result UserPromptQueueError QueueDatabase α
  | .ok a s => .ok a s
  | .error e _ => .error e db

theorem transaction_apply {α : Type} (x : QueueM α) (db : QueueDatabase) :
    transaction x db = rolledBack db (x db) := by
  unfold transaction
  cases x db <;> rfl

theorem listLiveIn_apply (sessionId : String) (nowMs : ℤ) (s : QueueDatabase) :
    listLiveIn sessionId nowMs s = .ok ((operableRows sessionId nowMs s.entries).map liveFrom) s :=
  rfl

theorem ids_liveFrom (rows : List UserPromptQueueEntryRecord) :
    (rows.map liveFrom).map (·.id) = rows.map (·.id) := by
  rw [List.map_map]
  rfl

theorem delete_apply (h : Entitled db caller sessionId nowMs (.delete entryId)) :
    delete caller sessionId entryId nowMs db =
      rolledBack db ((do
        renumberDense sessionId nowMs
          (Mutation.desired sessionId nowMs db.entries (.delete entryId))
        listProjectedIn sessionId nowMs)
        { db with entries := Mutation.prepared sessionId nowMs db.entries (.delete entryId) }) := by
  obtain ⟨record, howner, hcaller⟩ := h.owner
  obtain ⟨hid, r, hr, rfl, hop⟩ := h.target
  have hfound : (swept sessionId nowMs db.entries).affected (pendingIn sessionId r.id) ≠ 0 := by
    intro hzero
    have hfalse := affected_eq_zero.mp hzero r (mem_swept_of_operable hr hop)
    rw [pendingIn_of_operable hop] at hfalse
    cases hfalse
  rw [delete, transaction_apply, bind_of_ok (liftExcept_ok h.validCaller db),
    bind_of_ok (liftExcept_ok hid db), bind_of_ok (liftExcept_ok h.validSession db),
    bind_of_ok (authorize_ok howner hcaller)]
  refine congrArg (rolledBack db) ?_
  show (failIf ((swept sessionId nowMs db.entries).affected (pendingIn sessionId r.id) = 0) _ >>=
    fun _ => _) _ = _
  rw [bind_of_ok (failIf_ok hfound _), bind_of_ok (listLiveIn_apply _ _ _), ids_liveFrom]
  rfl

theorem forM_validate {ids : List String} (h : ∀ id ∈ ids, validateEntryId id = .ok ()) :
    ids.forM validateEntryId = .ok () := by
  induction ids with
  | nil => rfl
  | cons id ids ih =>
    show (do validateEntryId id; ids.forM validateEntryId) = _
    rw [h id List.mem_cons_self]
    exact ih fun i hi => h i (List.mem_cons_of_mem id hi)

/-- The operable entries in another order pass the check of `reorder`. -/
theorem isPermutation_of_perm {live : List UserPromptQueueLiveEntry} {target : List String}
    (hnodup : (live.map (·.id)).Nodup) (h : target.Perm (live.map (·.id))) :
    isPermutation live target = true := by
  have hlen : live.length = target.length := by
    rw [h.length_eq, List.length_map]
  have hall : ∀ id ∈ target, ∃ entry ∈ live, entry.id = id := fun id hi =>
    List.mem_map.mp (h.mem_iff.mp hi)
  simp only [isPermutation, Bool.and_eq_true, decide_eq_true_eq, List.all_eq_true,
    List.any_eq_true]
  exact ⟨⟨hlen, h.nodup_iff.mpr hnodup⟩, hall⟩

theorem retained_swept (h : Retained t) : Retained (swept sessionId nowMs t) := by
  refine h.of_subset fun session i hi => ?_
  obtain ⟨r', hr', hs', rfl⟩ := mem_sessionIds.mp hi
  obtain ⟨r, hr, hid, hslot, _⟩ := isOperableAt_of_mem_swept hr'
  exact mem_sessionIds.mpr ⟨r, hr, (Prod.mk.inj hslot).1.symm.trans hs', hid.symm⟩

theorem retained_prepared (h : Retained t) (m : Mutation) :
    Retained (m.prepared sessionId nowMs t) := by
  cases m with
  | delete entryId =>
    have hswept : Retained (swept sessionId nowMs t) := retained_swept h
    refine hswept.of_subset fun session i hi => ?_
    obtain ⟨r, hr, hs, hid⟩ := mem_sessionIds.mp hi
    exact mem_sessionIds.mpr ⟨r, List.mem_of_mem_filter hr, hs, hid⟩
  | reorder entryIds => exact retained_swept h

/-- The sweep leaves the operable entries as they are. -/
theorem ids_operable_swept (hret : Retained t) :
    ((operableRows sessionId nowMs (swept sessionId nowMs t)).map (·.id)).Perm
      ((operableRows sessionId nowMs t).map (·.id)) := by
  rw [operableRows_eq hret, operableRows_eq (retained_swept hret)]
  refine (List.perm_ext_iff_of_nodup (nodup_ids_selectOrdered _ _)
    (nodup_ids_selectOrdered _ _)).mpr fun i => ?_
  constructor
  · intro hi
    obtain ⟨r', hr', rfl⟩ := List.mem_map.mp hi
    obtain ⟨hmem, hop⟩ := mem_selectOrdered.mp hr'
    obtain ⟨r, hr, hid, _, heq⟩ := isOperableAt_of_mem_swept hmem
    exact List.mem_map.mpr ⟨r, mem_selectOrdered.mpr ⟨hr, heq ▸ hop⟩, hid.symm⟩
  · intro hi
    obtain ⟨r, hr, rfl⟩ := List.mem_map.mp hi
    obtain ⟨hmem, hop⟩ := mem_selectOrdered.mp hr
    exact List.mem_map.mpr ⟨r, mem_selectOrdered.mpr ⟨mem_swept_of_operable hmem hop, hop⟩, rfl⟩

theorem reorder_apply {entryIds : List String} (hret : Retained db.entries)
    (h : Entitled db caller sessionId nowMs (.reorder entryIds)) :
    reorder caller sessionId entryIds nowMs db =
      rolledBack db ((do
        renumberDense sessionId nowMs
          (Mutation.desired sessionId nowMs db.entries (.reorder entryIds))
        listProjectedIn sessionId nowMs)
        { db with entries := Mutation.prepared sessionId nowMs db.entries (.reorder entryIds) }) := by
  obtain ⟨record, howner, hcaller⟩ := h.owner
  obtain ⟨hids, hperm⟩ := h.target
  have hpasses : isPermutation
      ((operableRows sessionId nowMs (swept sessionId nowMs db.entries)).map liveFrom)
      entryIds = true := by
    refine isPermutation_of_perm ?_ ?_
    · rw [ids_liveFrom, operableRows_eq (retained_swept hret)]
      exact nodup_ids_selectOrdered _ _
    · rw [ids_liveFrom]
      exact hperm.trans (ids_operable_swept hret).symm
  have hpass : ¬isPermutation
      ((operableRows sessionId nowMs (swept sessionId nowMs db.entries)).map liveFrom)
      entryIds = false := by
    rw [hpasses]
    exact Bool.noConfusion
  rw [reorder, transaction_apply, bind_of_ok (liftExcept_ok h.validCaller db),
    bind_of_ok (liftExcept_ok h.validSession db), bind_of_ok (liftExcept_ok (forM_validate hids) db),
    bind_of_ok (authorize_ok howner hcaller)]
  refine congrArg (rolledBack db) ?_
  show (failIf (isPermutation
    ((operableRows sessionId nowMs (swept sessionId nowMs db.entries)).map liveFrom)
    entryIds = false) _ >>= fun _ => _) _ = _
  rw [bind_of_ok (failIf_ok hpass _)]
  rfl

/-- A request the owner may make comes down to its renumbering. -/
theorem perform_apply (hret : Retained db.entries)
    (h : Entitled db caller sessionId nowMs m) :
    m.perform caller sessionId nowMs db =
      rolledBack db ((do
        renumberDense sessionId nowMs (m.desired sessionId nowMs db.entries)
        listProjectedIn sessionId nowMs)
        { db with entries := m.prepared sessionId nowMs db.entries }) := by
  cases m with
  | delete entryId => exact delete_apply h
  | reorder entryIds => exact reorder_apply hret h

theorem desired_prepared (hret : Retained db.entries) (h : Entitled db caller sessionId nowMs m) :
    Desired sessionId nowMs (m.prepared sessionId nowMs db.entries)
      (m.desired sessionId nowMs db.entries) := by
  cases m with
  | delete entryId => exact List.Perm.refl _
  | reorder entryIds => exact h.target.2.trans (ids_operable_swept hret).symm

/-- No row of the session is one band below a row that was inserted after it, the one to
be deleted apart. -/
def Mutation.BandFree (sessionId : String) (t : EntryTable) (m : Mutation) : Prop :=
  t.rows.Pairwise fun r r' => r.sessionId = sessionId → r'.sessionId = sessionId →
    m.removed ≠ some r.id → m.removed ≠ some r'.id →
      r'.ordinal ≠ r.ordinal + renumberBandOffset

instance (sessionId : String) (t : EntryTable) (m : Mutation) :
    Decidable (m.BandFree sessionId t) :=
  inferInstanceAs (Decidable (t.rows.Pairwise _))

/-- Of the rows after the sweep, the deletion takes the one it names. -/
theorem keeps_iff (h : Entitled db caller sessionId nowMs (.delete entryId))
    (hr : r ∈ db.entries.rows) :
    (!pendingIn sessionId entryId (updateRow (·.isOverdueAt sessionId nowMs) (expireRow nowMs) r)) =
      true ↔ some entryId ≠ some r.id := by
  obtain ⟨_, d, hd, rfl, hop⟩ := h.target
  have hid := ident_updateRow (·.isOverdueAt sessionId nowMs) (expireRow nowMs) r
  rw [Bool.not_eq_true', Ne, Option.some.injEq]
  constructor
  · rintro hfalse heq
    obtain rfl : d = r := db.entries.ident_inj hd hr heq
    have hstays := (swept sessionId nowMs db.entries).ident_inj (List.mem_map_of_mem hr)
      (mem_swept_of_operable hd hop) hid
    rw [hstays, pendingIn_of_operable hop] at hfalse
    cases hfalse
  · intro hne
    have hne' : (updateRow (·.isOverdueAt sessionId nowMs) (expireRow nowMs) r).id ≠ d.id :=
      fun heq => hne (heq.symm.trans hid)
    simp [pendingIn, hne']

theorem apart_prepared (h : Entitled db caller sessionId nowMs m) :
    Apart sessionId (m.prepared sessionId nowMs db.entries) ↔ m.BandFree sessionId db.entries := by
  have hslot := fun r => Prod.mk.inj (slot_updateRow (·.isOverdueAt sessionId nowMs)
    (expireRow nowMs) r)
  cases m with
  | reorder entryIds =>
    simp only [Apart, Mutation.BandFree, Mutation.prepared, Mutation.removed, swept,
      UniqueTable.updateWhere, List.pairwise_map]
    refine List.Pairwise.iff fun r r' => ?_
    simp [(hslot r).1, (hslot r').1, (hslot r).2, (hslot r').2]
  | delete entryId =>
    simp only [Apart, Mutation.BandFree, Mutation.prepared, Mutation.removed, swept,
      UniqueTable.deleteWhere, List.pairwise_filter, UniqueTable.updateWhere, List.pairwise_map]
    refine List.Pairwise.iff_of_mem fun {r r'} hr hr' => ?_
    rw [keeps_iff h hr, keeps_iff h hr', (hslot r).1, (hslot r').1, (hslot r).2, (hslot r').2]
    tauto

/-- A deletion or a reorder the owner may make goes through, and leaves the queue
renumbered, exactly if no row that stays is one band below a later one. -/
theorem mutation_renumbers_iff {m : Mutation} (hreach : Reachable db)
    (h : Entitled db caller sessionId nowMs m) :
    (∃ projection db', m.perform caller sessionId nowMs db = .ok projection db' ∧
      projection = (projectedRows sessionId nowMs db'.entries).map liveFrom ∧
      Renumbered sessionId nowMs (m.prepared sessionId nowMs db.entries)
        (m.desired sessionId nowMs db.entries) db'.entries) ↔
      m.BandFree sessionId db.entries := by
  have hret := hreach.retained
  rw [← apart_prepared h]
  constructor
  · rintro ⟨projection, db', hok, _⟩
    by_contra hclash
    have hfail := renumberDense_clash
      (s := { db with entries := m.prepared sessionId nowMs db.entries })
      (retained_prepared hret m) (desired_prepared hret h) hclash
    rw [perform_apply hret h, bind_of_error hfail] at hok
    cases hok
  · intro hapart
    obtain ⟨t', hok, hspec⟩ := renumberDense_spec
      (s := { db with entries := m.prepared sessionId nowMs db.entries })
      (retained_prepared hret m) (desired_prepared hret h) hapart
    refine ⟨(projectedRows sessionId nowMs t').map liveFrom, { db with entries := t' }, ?_, rfl,
      hspec⟩
    rw [perform_apply hret h, bind_of_ok hok]
    rfl

end

/-- Two entries, exchanged; the one now in front is delivered, then the other one is put
in order. -/
def deliveredFirst : List Operation :=
  [.add "ada" "s" "e0" "first" none 0, .add "ada" "s" "e1" "second" none 1,
    .reorder "ada" "s" ["e1", "e0"] 2, .claim "s" 3, .markDelivered "e1" "turn" 4,
    .reorder "ada" "s" ["e0"] 5]

set_option maxRecDepth 10000 in
/-- The delivered row is at 1000000 and the waiting one, inserted before it, at 0: the
next displacement visits the latter first. -/
theorem second_reorder_clashes :
    Reachable (run .empty deliveredFirst) ∧
      Entitled (run .empty deliveredFirst) "ada" "s" 6 (.reorder ["e0"]) ∧
      ¬∃ projection db', (Mutation.reorder ["e0"]).perform "ada" "s" 6
        (run .empty deliveredFirst) = .ok projection db' := by
  refine ⟨⟨_, rfl⟩, ⟨by decide, by decide, ⟨⟨"s", "ada", 0, 0, 0⟩, by decide, rfl⟩,
    by decide, by decide⟩, ?_⟩
  have hfails : (match (Mutation.reorder ["e0"]).perform "ada" "s" 6
      (run .empty deliveredFirst) with
    | .ok _ _ => true
    | .error _ _ => false) = false := by decide
  rintro ⟨projection, db', hok⟩
  rw [hok] at hfails
  cases hfails

set_option maxRecDepth 10000 in
theorem mutation_renumbers_two :
    ∃ projection db', (Mutation.reorder ["e1", "e0"]).perform "ada" "s" 2
        (run .empty (deliveredFirst.take 2)) = .ok projection db' ∧
      projection = (projectedRows "s" 2 db'.entries).map liveFrom ∧
      Renumbered "s" 2
        ((Mutation.reorder ["e1", "e0"]).prepared "s" 2 (run .empty (deliveredFirst.take 2)).entries)
        ((Mutation.reorder ["e1", "e0"]).desired "s" 2 (run .empty (deliveredFirst.take 2)).entries)
        db'.entries :=
  (mutation_renumbers_iff (m := .reorder ["e1", "e0"]) ⟨_, rfl⟩
    ⟨by decide, by decide, ⟨⟨"s", "ada", 0, 0, 0⟩, by decide, rfl⟩, by decide, by decide⟩).mpr
    (by decide)

end Codegg.PromptQueue
