import Codegg.PromptQueue.Capacity

/-!
# How many live entries a session has

`add` refuses when a session has 64 live entries. A failed entry is not live, so that
it makes room for another one; to put it back into the queue takes no room by the
source, and the backlog is then one entry over the limit. Nothing else makes a row
live, or lets it live longer.
-/
namespace Codegg.PromptQueue

open Codegg.Library UserPromptQueueEntryRecord UniqueTable

/-- The backlog of a session at a time. -/
def liveCount (sessionId : String) (nowMs : ℤ) (t : EntryTable) : ℕ :=
  t.affected (·.isLiveAt sessionId nowMs)

/-- As time goes by, the backlog only shrinks. -/
theorem liveCount_antitone (sessionId : String) (t : EntryTable) {nowMs nowMs' : ℤ}
    (h : nowMs ≤ nowMs') : liveCount sessionId nowMs' t ≤ liveCount sessionId nowMs t := by
  refine affected_le fun r hr hlive => ⟨r, hr, ?_, rfl⟩
  simp only [isLiveAt, Bool.and_eq_true, decide_eq_true_eq] at hlive ⊢
  exact ⟨hlive.1, by omega⟩

/-! ### Aging -/

/-- The row belongs where it did, expires when it did, and is live only if it was. -/
structure Aged (r r' : UserPromptQueueEntryRecord) : Prop where
  ident : r.id = r'.id
  session : r'.sessionId = r.sessionId
  expires : r'.expiresAtMs = r.expiresAtMs
  live : r'.status.isLive = true → r.status.isLive = true

theorem Aged.refl (r : UserPromptQueueEntryRecord) : Aged r r := ⟨rfl, rfl, rfl, id⟩

variable {r r' : UserPromptQueueEntryRecord} {sessionId entryId caller text : String}
  {t t' : EntryTable} {u : EntryUpdate} {db : QueueDatabase} {n : ℕ}

theorem Aged.trans {r'' : UserPromptQueueEntryRecord} (h : Aged r r') (h' : Aged r' r'') :
    Aged r r'' where
  ident := h.ident.trans h'.ident
  session := h'.session.trans h.session
  expires := h'.expires.trans h.expires
  live hlive := h.live (h'.live hlive)

theorem Aged.of_kept (h : Kept r r') : Aged r r' := by
  rw [h]
  exact ⟨rfl, rfl, rfl, id⟩

theorem Aged.isLiveAt (h : Aged r r') {nowMs : ℤ} (hlive : r'.isLiveAt sessionId nowMs = true) :
    r.isLiveAt sessionId nowMs = true := by
  simp only [UserPromptQueueEntryRecord.isLiveAt, UserPromptQueueEntryRecord.ownedBy,
    Bool.and_eq_true] at hlive ⊢
  exact ⟨⟨h.session ▸ hlive.1.1, h.live hlive.1.2⟩, h.expires ▸ hlive.2⟩

/-- Every row is an aged one. -/
def AgedTable (t t' : EntryTable) : Prop := ∀ r' ∈ t'.rows, ∃ r ∈ t.rows, Aged r r'

theorem AgedTable.refl (t : EntryTable) : AgedTable t t := fun r hr => ⟨r, hr, .refl r⟩

theorem AgedTable.trans {t'' : EntryTable} (h : AgedTable t t') (h' : AgedTable t' t'') :
    AgedTable t t'' := by
  intro r'' hr''
  obtain ⟨r', hr', haged'⟩ := h' r'' hr''
  obtain ⟨r, hr, haged⟩ := h r' hr'
  exact ⟨r, hr, haged.trans haged'⟩

theorem AgedTable.liveCount_le (h : AgedTable t t') (sessionId : String) (nowMs : ℤ) :
    liveCount sessionId nowMs t' ≤ liveCount sessionId nowMs t := by
  refine affected_le fun r' hr' hlive => ?_
  obtain ⟨r, hr, haged⟩ := h r' hr'
  exact ⟨r, hr, haged.isLiveAt hlive, haged.ident⟩

theorem agedTable_updateWhere (t : EntryTable) {p : UserPromptQueueEntryRecord → Bool}
    (hu : ∀ r ∈ t.rows, p r = true → Aged r (u.apply r)) :
    AgedTable t (t.updateWhere p u) := by
  intro r' hr'
  obtain ⟨r, hr, rfl⟩ := List.mem_map.mp hr'
  refine ⟨r, hr, ?_⟩
  unfold updateRow
  split
  · exact hu r hr ‹_›
  · exact .refl r

theorem agedTable_deleteWhere (t : EntryTable) (p : UserPromptQueueEntryRecord → Bool) :
    AgedTable t (t.deleteWhere p) :=
  fun r hr => ⟨r, List.mem_of_mem_filter hr, .refl r⟩

theorem agedTable_setRows {changes : List RowChange} (hc : Renumbers changes)
    (hset : t.setRows? changes = some t') : AgedTable t t' := by
  induction changes generalizing t with
  | nil =>
    cases hset
    exact .refl _
  | cons c changes ih =>
    obtain ⟨t₁, ht₁, hset⟩ := Option.bind_eq_some_iff.mp hset
    have hfirst : AgedTable t t₁ := by
      intro r' hr'
      rw [ofRows?_eq_some.mp ht₁] at hr'
      obtain ⟨r, hr, rfl⟩ := List.mem_map.mp hr'
      exact ⟨r, hr, .of_kept (kept_setOne (hc c List.mem_cons_self) r)⟩
    exact hfirst.trans (ih (fun d hd => hc d (List.mem_cons_of_mem _ hd)) hset)

/-! ### Operations that only age -/

/-- A relation that holds across every statement that only lets rows age. -/
structure Walk (R : QueueDatabase → QueueDatabase → Prop) : Prop where
  refl : ∀ db, R db db
  trans : ∀ a b c, R a b → R b c → R a c
  update : ∀ {p : UserPromptQueueEntryRecord → Bool} {u : EntryUpdate},
    (∀ r, p r = true → Aged r (u.apply r)) → Moves R (update p u)
  deleteRows : ∀ p, Moves R (deleteRows p)
  moveRows : ∀ {changes : EntryTable → List RowChange}, (∀ t, Renumbers (changes t)) →
    Moves R (moveRows changes)

theorem moves_moveRows {R : QueueDatabase → QueueDatabase → Prop} (hrefl : ∀ db, R db db)
    {changes : EntryTable → List RowChange}
    (h : ∀ db entries, db.entries.setRows? (changes db.entries) = some entries →
      R db { db with entries := entries }) : Moves R (moveRows changes) := by
  intro db
  show R db (finalState (storeEntries (db.entries.setRows? (changes db.entries)) db))
  cases hset : db.entries.setRows? (changes db.entries) with
  | none => exact hrefl db
  | some entries => exact h db entries hset

/-- A pending row of a session that is changed, but for its expiry. -/
theorem aged_of_pendingIn (hu : ∀ r, (u.apply r).expiresAtMs = r.expiresAtMs)
    (r : UserPromptQueueEntryRecord) (hp : pendingIn sessionId entryId r = true) :
    Aged r (u.apply r) := by
  simp only [pendingIn, Bool.and_eq_true, decide_eq_true_eq] at hp
  exact ⟨(u.ident_apply r).symm, sessionId_apply u r, hu r, fun _ => by rw [hp.2]; rfl⟩

section

variable {α β : Type} {R : QueueDatabase → QueueDatabase → Prop} (W : Walk R)
include W

theorem Walk.keep {x : QueueM α} (h : ReadOnly x) : Moves R x := by
  intro db
  rw [← h db]
  exact W.refl db

theorem Walk.seq {x : QueueM α} {f : α → QueueM β} (hx : Moves R x) (hf : ∀ a, Moves R (f a)) :
    Moves R (x >>= f) :=
  .bind W.trans hx hf

theorem Walk.after {x : QueueM α} {f : α → QueueM β} (hx : ReadOnly x)
    (hf : ∀ a, Moves R (f a)) : Moves R (x >>= f) :=
  W.seq (W.keep hx) hf

theorem Walk.checked {r : Except UserPromptQueueError α} {f : α → QueueM β}
    (hf : ∀ a, Moves R (f a)) : Moves R (liftExcept r >>= f) :=
  W.after (readOnly_liftExcept r) hf

theorem Walk.transaction {x : QueueM α} (h : Moves R x) : Moves R (transaction x) := by
  intro db
  have hdb := h db
  unfold Library.transaction
  cases hx : x db with
  | ok a db' =>
    rw [hx] at hdb
    exact hdb
  | error e db' => exact W.refl db

theorem Walk.sweepExpired (sessionId : String) (nowMs : ℤ) :
    Moves R (sweepExpired sessionId nowMs) :=
  W.update fun _ _ => ⟨rfl, rfl, rfl, fun h => by cases h⟩

theorem Walk.renumberDense (sessionId : String) (nowMs : ℤ)
    (desired : List String) : Moves R (renumberDense sessionId nowMs desired) := by
  refine W.after (readOnly_listProjectedIn sessionId nowMs) fun live => ?_
  refine W.checked fun merged => ?_
  refine W.seq (W.moveRows (renumbers_displacements sessionId)) fun _ => ?_
  exact W.moveRows fun _ => renumbers_denseTargets sessionId merged

/-- A live row that is settled, whatever it becomes. -/
theorem Walk.settle {status : UserPromptQueueStatus} (hlive : status.isLive = true)
    (hu : ∀ r, (u.apply r).expiresAtMs = r.expiresAtMs) :
    Moves R (settle entryId status u) := by
  refine W.seq (W.update fun r hp => ?_) fun _ => W.keep (.pure _)
  simp only [hasStatus, Bool.and_eq_true, decide_eq_true_eq] at hp
  exact ⟨(u.ident_apply r).symm, sessionId_apply u r, hu r, fun _ => hp.2 ▸ hlive⟩

theorem Walk.edit (caller sessionId entryId text : String) (runAtMs : Option ℤ) (nowMs : ℤ) :
    Moves R (edit caller sessionId entryId text runAtMs nowMs) := by
  refine W.transaction ?_
  refine W.checked fun _ => ?_
  refine W.checked fun textBytes => ?_
  refine W.after (readOnly_authorizeOwnedQueue caller sessionId) fun _ => ?_
  refine W.seq (W.sweepExpired sessionId nowMs) fun _ => ?_
  refine W.after (readOnly_loadEntry entryId) fun target => ?_
  refine W.checked fun _ => ?_
  refine W.seq (W.update fun r hp => ?_) fun _ => ?_
  · simp only [editable, Bool.and_eq_true] at hp
    exact aged_of_pendingIn (fun _ => rfl) r hp.1
  refine W.after (readOnly_loadEntry entryId) fun existing => ?_
  refine W.after (.failIf _ _) fun _ => ?_
  exact W.keep (readOnly_liftExcept _)

theorem Walk.delete (caller sessionId entryId : String) (nowMs : ℤ) :
    Moves R (delete caller sessionId entryId nowMs) := by
  refine W.transaction ?_
  refine W.checked fun _ => ?_
  refine W.checked fun _ => ?_
  refine W.checked fun _ => ?_
  refine W.after (readOnly_authorizeOwnedQueue caller sessionId) fun _ => ?_
  refine W.seq (W.sweepExpired sessionId nowMs) fun _ => ?_
  refine W.seq (W.deleteRows _) fun deleted => ?_
  refine W.after (readOnly_loadEntry entryId) fun existing => ?_
  refine W.after (.failIf _ _) fun _ => ?_
  refine W.after (readOnly_listLiveIn sessionId nowMs) fun survivors => ?_
  refine W.seq (W.renumberDense sessionId nowMs _) fun _ => ?_
  exact W.keep (readOnly_listProjectedIn sessionId nowMs)

theorem Walk.reorder (caller sessionId : String) (entryIds : List String)
    (nowMs : ℤ) : Moves R (reorder caller sessionId entryIds nowMs) := by
  refine W.transaction ?_
  refine W.checked fun _ => ?_
  refine W.checked fun _ => ?_
  refine W.checked fun _ => ?_
  refine W.after (readOnly_authorizeOwnedQueue caller sessionId) fun _ => ?_
  refine W.seq (W.sweepExpired sessionId nowMs) fun _ => ?_
  refine W.after (readOnly_listLiveIn sessionId nowMs) fun live => ?_
  refine W.after (.failIf _ _) fun _ => ?_
  refine W.seq (W.renumberDense sessionId nowMs entryIds) fun _ => ?_
  exact W.keep (readOnly_listProjectedIn sessionId nowMs)

theorem Walk.listLive (sessionId : String) (nowMs : ℤ) : Moves R (listLive sessionId nowMs) := by
  refine W.transaction ?_
  refine W.checked fun _ => ?_
  refine W.seq (W.sweepExpired sessionId nowMs) fun _ => ?_
  exact W.keep (readOnly_listProjectedIn sessionId nowMs)

theorem Walk.claimNextForDelivery (sessionId : String) (nowMs : ℤ) :
    Moves R (claimNextForDelivery sessionId nowMs) := by
  refine W.transaction ?_
  refine W.checked fun _ => ?_
  refine W.after .get fun db => ?_
  cases db.owners sessionId with
  | none => exact W.keep (.pure _)
  | some owner =>
    cases (selectOrdered (isClaimable sessionId nowMs) db.entries).head? with
    | none => exact W.keep (.pure _)
    | some candidate =>
      refine W.seq (W.update (aged_of_pendingIn fun _ => rfl)) fun _ => ?_
      refine W.after (readOnly_loadEntry candidate.id) fun _ => ?_
      exact W.keep (.pure _)

theorem Walk.markDelivered (entryId turnId : String) (nowMs : ℤ) :
    Moves R (markDelivered entryId turnId nowMs) := by
  refine W.transaction ?_
  refine W.checked fun _ => ?_
  refine W.checked fun _ => ?_
  exact W.settle rfl fun _ => rfl

theorem Walk.markSteerDelivered (caller sessionId entryId turnId : String) (nowMs : ℤ) :
    Moves R (markSteerDelivered caller sessionId entryId turnId nowMs) := by
  refine W.transaction ?_
  refine W.checked fun _ => ?_
  refine W.checked fun _ => ?_
  refine W.checked fun _ => ?_
  refine W.checked fun _ => ?_
  refine W.after (readOnly_authorizeOwnedQueue caller sessionId) fun _ => ?_
  refine W.seq (W.sweepExpired sessionId nowMs) fun _ => ?_
  refine W.seq (W.update (aged_of_pendingIn fun _ => rfl)) fun _ => ?_
  refine W.after (readOnly_loadEntry entryId) fun existing => ?_
  exact W.keep (.failIf _ _)

theorem Walk.markDeliveryFailed (entryId reason : String) (nowMs : ℤ) :
    Moves R (markDeliveryFailed entryId reason nowMs) := by
  refine W.transaction ?_
  refine W.checked fun _ => ?_
  refine W.checked fun _ => ?_
  exact W.settle rfl fun _ => rfl

theorem Walk.releaseDelivery (entryId : String) (nowMs : ℤ) :
    Moves R (releaseDelivery entryId nowMs) := by
  refine W.transaction ?_
  refine W.checked fun _ => ?_
  exact W.settle rfl fun _ => rfl

theorem Walk.resolveStranded (entryId : String) (resolution : UserPromptQueueDeliveryResolution)
    (nowMs : ℤ) : Moves R (resolveStrandedDelivery entryId resolution nowMs) := by
  refine W.transaction ?_
  refine W.checked fun _ => ?_
  cases resolution with
  | delivered turnId => exact W.settle rfl fun _ => rfl
  | retry => exact W.settle rfl fun _ => rfl
  | failed reason =>
    refine W.checked fun _ => ?_
    exact W.settle rfl fun _ => rfl

end

/-- The operations that write neither a new row nor an owner, and put nothing back. -/
def Operation.onlyAges : Operation → Bool
  | .add .. | .adopt .. | .transfer .. | .retryFailed .. => false
  | _ => true

theorem Walk.perform {R : QueueDatabase → QueueDatabase → Prop} (W : Walk R) {op : Operation}
    (h : op.onlyAges = true) (db : QueueDatabase) : R db (finalState (perform op db)) := by
  cases op <;> simp only [PromptQueue.perform, finalState_map]
  case add | adopt | transfer | retryFailed => cases h
  case edit => exact W.edit _ _ _ _ _ _ db
  case delete => exact W.delete _ _ _ _ db
  case reorder => exact W.reorder _ _ _ _ db
  case listLive => exact W.listLive _ _ db
  case claim => exact W.claimNextForDelivery _ _ db
  case markDelivered => exact W.markDelivered _ _ _ db
  case markSteerDelivered => exact W.markSteerDelivered _ _ _ _ _ db
  case markDeliveryFailed => exact W.markDeliveryFailed _ _ _ db
  case releaseDelivery => exact W.releaseDelivery _ _ db
  case resolveStranded => exact W.resolveStranded _ _ _ db

theorem agesWalk : Walk fun db db' => AgedTable db.entries db'.entries where
  refl _ := .refl _
  trans _ _ _ h h' := h.trans h'
  update hu db := agedTable_updateWhere db.entries fun r _ hp => hu r hp
  deleteRows p db := agedTable_deleteWhere db.entries p
  moveRows hc := moves_moveRows (fun _ => .refl _) fun db _ hset =>
    agedTable_setRows (hc db.entries) hset

/-! ### The two that do more -/

theorem live_add {sessionId' : String} {now : ℤ}
    (h : liveCount sessionId' now db.entries ≤ maxPending) (caller sessionId entryId text : String)
    (runAtMs : Option ℤ) {nowMs : ℤ} (hnow : nowMs ≤ now) :
    liveCount sessionId' now
      (finalState (add caller sessionId entryId text runAtMs nowMs db)).entries ≤ maxPending := by
  refine add_keeps (P := fun t => liveCount sessionId' now t ≤ maxPending) h caller sessionId
    entryId text runAtMs nowMs ?_
  intro t t' row ht hsession hroom _ hins
  have hcount : liveCount sessionId' now t' = liveCount sessionId' now t +
      if row.isLiveAt sessionId' now then 1 else 0 := affected_insert? hins _
  split at hcount
  · rename_i hlive
    -- the new entry counts against its own session, where there was room at an earlier time
    have hsame : sessionId' = sessionId := by
      simp only [isLiveAt, ownedBy,
        Bool.and_eq_true, decide_eq_true_eq] at hlive
      exact hlive.1.1.symm.trans hsession
    subst hsame
    have hlater := liveCount_antitone sessionId' t hnow
    have hearlier : liveCount sessionId' nowMs t < maxPending := hroom
    omega
  · omega

/-- The failed entry that a retry of an identity puts back. -/
def revived (entryId : String) (db : QueueDatabase) : Option UserPromptQueueEntryRecord :=
  if (validateEntryId entryId).isOk then
    (db.entries.get? entryId).filter fun r => decide (r.status = .failed)
  else none

theorem entries_retryFailed (entryId : String) (nowMs : ℤ) (db : QueueDatabase) :
    (finalState (retryFailed entryId nowMs db)).entries =
      if (validateEntryId entryId).isOk then
        db.entries.updateWhere (hasStatus entryId .failed) (returnRow nowMs)
      else db.entries := by
  cases hvalid : validateEntryId entryId with
  | error e =>
    have hbody : transaction (do
        liftExcept (validateEntryId entryId)
        settle entryId .failed (returnRow nowMs)) db = .error e db := by
      rw [hvalid]
      rfl
    rw [retryFailed, hbody]
    rfl
  | ok =>
    have hbody : transaction (do
        liftExcept (validateEntryId entryId)
        settle entryId .failed (returnRow nowMs)) db = settle entryId .failed (returnRow nowMs) db := by
      rw [hvalid]
      rfl
    rw [retryFailed, hbody]
    rfl

/-- A retry that finds no failed entry. -/
theorem live_retryFailed_of_none (h : revived entryId db = none) (sessionId : String)
    (now nowMs : ℤ) :
    liveCount sessionId now (finalState (retryFailed entryId nowMs db)).entries ≤
      liveCount sessionId now db.entries := by
  rw [entries_retryFailed]
  split
  · rename_i hvalid
    refine (agedTable_updateWhere db.entries fun r hr hp => ?_).liveCount_le sessionId now
    simp only [hasStatus, Bool.and_eq_true, decide_eq_true_eq] at hp
    have hget : db.entries.get? entryId = some r := get?_eq_some.mpr ⟨hr, hp.1⟩
    simp [revived, hvalid, hget, hp.2] at h
  · exact le_rfl

/-- A retry that finds one: it counts again until it expires. -/
theorem live_retryFailed (h : revived entryId db = some r) (sessionId : String) (now nowMs : ℤ) :
    liveCount sessionId now (finalState (retryFailed entryId nowMs db)).entries =
      liveCount sessionId now db.entries +
        if r.sessionId = sessionId ∧ now < r.expiresAtMs then 1 else 0 := by
  obtain ⟨hvalid, hget, hfailed⟩ : (validateEntryId entryId).isOk = true ∧
      db.entries.get? entryId = some r ∧ r.status = .failed := by
    unfold revived at h
    split at h
    · obtain ⟨hget, hs⟩ := Option.filter_eq_some_iff.mp h
      exact ⟨‹_›, hget, by simpa using hs⟩
    · cases h
  obtain ⟨hr, rfl⟩ := get?_eq_some.mp hget
  rw [entries_retryFailed, if_pos hvalid]
  have hnot : r.isLiveAt sessionId now = false := by
    simp [isLiveAt, hfailed, UserPromptQueueStatus.isLive]
  -- the row of the identity changes, and no other one
  have hrow : ∀ x ∈ db.entries.rows,
      (updateRow (hasStatus r.id .failed) (returnRow nowMs) x).isLiveAt sessionId now =
        (x.isLiveAt sessionId now ||
          (decide (x.id = r.id) && decide (r.sessionId = sessionId ∧ now < r.expiresAtMs))) := by
    intro x hx
    by_cases hid : x.id = r.id
    · obtain rfl := db.entries.ident_inj hx hr hid
      simp [updateRow, hasStatus, hfailed, returnRow,
        isLiveAt, UserPromptQueueStatus.isLive,
        ownedBy]
    · simp [updateRow, hasStatus, hid]
  have hcount : liveCount sessionId now
      (db.entries.updateWhere (hasStatus r.id .failed) (returnRow nowMs)) =
      db.entries.affected fun x => x.isLiveAt sessionId now ||
        (decide (x.id = r.id) && decide (r.sessionId = sessionId ∧ now < r.expiresAtMs)) := by
    rw [liveCount, affected, updateWhere, List.countP_map]
    refine List.countP_congr fun x hx => ?_
    rw [Function.comp_apply, hrow x hx]
  rw [hcount]
  split
  · rename_i hlive
    simp only [hlive, and_self, decide_true, Bool.and_true]
    exact affected_or_ident hr hnot
  · rename_i hlive
    simp only [hlive, decide_false, Bool.and_false, Bool.or_false]
    rfl

/-! ### Runs -/

/-- The time a request comes with. -/
def Operation.nowMs : Operation → ℤ
  | .add _ _ _ _ _ nowMs => nowMs
  | .edit _ _ _ _ _ nowMs => nowMs
  | .delete _ _ _ nowMs => nowMs
  | .reorder _ _ _ nowMs => nowMs
  | .adopt _ _ nowMs => nowMs
  | .transfer _ _ _ _ nowMs => nowMs
  | .listLive _ nowMs => nowMs
  | .claim _ nowMs => nowMs
  | .markDelivered _ _ nowMs => nowMs
  | .markSteerDelivered _ _ _ _ nowMs => nowMs
  | .markDeliveryFailed _ _ nowMs => nowMs
  | .releaseDelivery _ nowMs => nowMs
  | .retryFailed _ nowMs => nowMs
  | .resolveStranded _ _ nowMs => nowMs

/-- The clock a store may show after a run: no request was later. -/
def Past (ops : List Operation) (now : ℤ) : Prop := ∀ op ∈ ops, op.nowMs ≤ now

/-- Both limits, in the state a run ends in. -/
structure WithinLimits (ops : List Operation) : Prop where
  retained : ∀ sessionId, (run .empty ops).entries.affected (·.ownedBy sessionId) ≤
    maxRetainedPerSession
  live : ∀ sessionId now, Past ops now →
    liveCount sessionId now (run .empty ops).entries ≤ maxPending

/-- Whenever a run retries a failed entry that has not expired, the backlog of its
session is not full. -/
def RetryHasRoom (ops : List Operation) : Prop :=
  ∀ earlier entryId nowMs later r, ops = earlier ++ .retryFailed entryId nowMs :: later →
    revived entryId (run .empty earlier) = some r →
    ∀ now, Past (earlier ++ [.retryFailed entryId nowMs]) now → now < r.expiresAtMs →
      liveCount r.sessionId now (run .empty earlier).entries < maxPending

/-- Every operation but a retry that puts an entry back keeps to the limit. -/
theorem live_after {now : ℤ} (op : Operation) (h : liveCount sessionId now db.entries ≤ maxPending)
    (hnow : op.nowMs ≤ now)
    (hretry : ∀ entryId nowMs r, op = .retryFailed entryId nowMs → revived entryId db = some r →
      r.sessionId = sessionId → now < r.expiresAtMs →
        liveCount sessionId now db.entries < maxPending) :
    liveCount sessionId now (after db op).entries ≤ maxPending := by
  unfold after
  by_cases hages : op.onlyAges = true
  · exact ((agesWalk.perform hages db).liveCount_le _ _).trans h
  cases op <;> (try exact absurd rfl hages) <;> simp only [perform, finalState_map]
  case add => exact live_add h _ _ _ _ _ hnow
  case adopt => rwa [entries_adopt]
  case transfer => rwa [entries_transfer]
  case retryFailed entryId nowMs =>
    cases hr : revived entryId db with
    | none => exact (live_retryFailed_of_none hr sessionId now nowMs).trans h
    | some r =>
      rw [live_retryFailed hr]
      split
      · rename_i hcounts
        have hroom := hretry entryId nowMs r rfl hr hcounts.1 hcounts.2
        omega
      · exact h

theorem RetryHasRoom.of_prefix {ops earlier : List Operation} (h : RetryHasRoom ops)
    (hp : earlier <+: ops) : RetryHasRoom earlier := by
  obtain ⟨later, rfl⟩ := hp
  intro before entryId nowMs rest r heq
  exact h before entryId nowMs (rest ++ later) r (by simp [heq])

theorem RetryHasRoom.withinLimits {ops : List Operation} (h : RetryHasRoom ops) :
    WithinLimits ops := by
  refine ⟨Reachable.retained ⟨ops, rfl⟩, ?_⟩
  induction ops using List.reverseRecOn with
  | nil =>
    intro sessionId now _
    exact Nat.zero_le _
  | append_singleton ops op ih =>
    intro sessionId now hpast
    rw [run_snoc]
    have hbefore : Past ops now := fun o ho => hpast o (List.mem_append_left _ ho)
    refine live_after op (ih (h.of_prefix (List.prefix_append _ _)) sessionId now hbefore)
      (hpast op (by simp)) ?_
    rintro entryId nowMs r rfl hr rfl hexp
    exact h ops entryId nowMs [] r rfl hr now hpast hexp

/-- Both limits hold in every state of a run exactly if no retry comes upon a full backlog. -/
theorem run_withinLimits_iff (ops : List Operation) :
    (∀ earlier, earlier <+: ops → WithinLimits earlier) ↔ RetryHasRoom ops := by
  constructor
  · rintro h earlier entryId nowMs later r rfl hr now hpast hexp
    have hafter := (h (earlier ++ [.retryFailed entryId nowMs]) ⟨later, by simp⟩).live
      r.sessionId now hpast
    rw [run_snoc, after, perform, finalState_map, live_retryFailed hr,
      if_pos ⟨rfl, hexp⟩] at hafter
    omega
  · intro h earlier hp
    exact (h.of_prefix hp).withinLimits

/-! ### Adding to a queue that has room -/

theorem ordinal_lt_nextOrdinal (hr : r ∈ t.rows) (hs : r.sessionId = sessionId) :
    r.ordinal < nextOrdinal sessionId t := by
  have hmem : r.ordinal + 1 ∈ (t.rows.filter (·.ownedBy sessionId)).map (·.ordinal + 1) :=
    List.mem_map.mpr ⟨r, List.mem_filter.mpr ⟨hr, by simpa [ownedBy]⟩, rfl⟩
  unfold nextOrdinal
  cases hmax : ((t.rows.filter (·.ownedBy sessionId)).map (·.ordinal + 1)).max? with
  | none =>
    rw [List.max?_eq_none_iff] at hmax
    rw [hmax] at hmem
    cases hmem
  | some m =>
    have hle := (List.max?_eq_some_iff.mp hmax).2 _ hmem
    simpa using hle

/-- A valid request of the owner of a queue that has room comes down to its last statement. -/
theorem add_of_room {textBytes : ℕ} {runAtMs : Option ℤ} {nowMs : ℤ}
    {record : UserPromptQueueOwnerRecord} (hprincipal : validatePrincipal caller = .ok ())
    (hentry : validateEntry entryId sessionId text = .ok textBytes)
    (hrunAt : validateRunAt runAtMs (saturatingAdd nowMs ttlMs) = .ok ())
    (howner : db.owners sessionId = some record) (hcaller : record.ownerPrincipal = caller)
    (hlive : liveCount sessionId nowMs db.entries < maxPending)
    (hretained : db.entries.affected (·.ownedBy sessionId) < maxRetainedPerSession) :
    add caller sessionId entryId text runAtMs nowMs db = transaction (do
      let row := newEntry sessionId entryId text (nextOrdinal sessionId db.entries) textBytes runAtMs
        nowMs (saturatingAdd nowMs ttlMs)
      let stored ← insertOrConverge row sessionId nowMs (db.entries.get? entryId)
      return liveFrom stored) db := by
  have hown : resolveOwnership sessionId db = .ok (.owned record) db := by
    simp [resolveOwnership, ownershipIn, howner, get_bind]
    rfl
  have hcap : checkCapacityIn sessionId nowMs db = .ok () db := by
    have hroom : ¬maxPending ≤ db.entries.affected (·.isLiveAt sessionId nowMs) :=
      not_le.mpr hlive
    rw [checkCapacityIn, get_bind, bind_of_ok (failIf_ok hroom db)]
    exact failIf_ok (not_le.mpr hretained) db
  have hgate : addGate caller (.owned record) db = .ok () db :=
    failIf_ok (fun hne => hne hcaller) db
  have hadopt : adoptAbsent caller sessionId nowMs (.owned record) db = .ok () db := rfl
  rw [add]
  unfold transaction
  rw [bind_of_ok (liftExcept_ok hprincipal db), bind_of_ok (liftExcept_ok hentry db),
    bind_of_ok (liftExcept_ok hrunAt db), bind_of_ok hown, bind_of_ok hgate, bind_of_ok hcap,
    bind_of_ok hadopt, get_bind]

/-- What `add` is ready for: a valid request of the owner, an identity that is not in
use, and room for another entry. -/
structure Admissible (db : QueueDatabase) (caller sessionId entryId text : String) (nowMs : ℤ) :
    Prop where
  principal : validatePrincipal caller = .ok ()
  entry : validateEntry entryId sessionId text = .ok text.utf8ByteSize
  owner : ∃ record, db.owners sessionId = some record ∧ record.ownerPrincipal = caller
  live : liveCount sessionId nowMs db.entries < maxPending
  retained : db.entries.affected (·.ownedBy sessionId) < maxRetainedPerSession
  fresh : ∀ r ∈ db.entries.rows, r.id ≠ entryId

/-- Such an `add` appends an entry. -/
theorem add_eq_ok {nowMs : ℤ} (h : Admissible db caller sessionId entryId text nowMs) :
    ∃ t', t'.rows = db.entries.rows ++ [newEntry sessionId entryId text
        (nextOrdinal sessionId db.entries) text.utf8ByteSize none nowMs (saturatingAdd nowMs ttlMs)] ∧
      add caller sessionId entryId text none nowMs db = .ok (liveFrom (newEntry sessionId entryId text
        (nextOrdinal sessionId db.entries) text.utf8ByteSize none nowMs (saturatingAdd nowMs ttlMs)))
        { db with entries := t' } := by
  obtain ⟨record, howner, hcaller⟩ := h.owner
  obtain ⟨t', hins⟩ := insert?_isSome (t := db.entries)
    (r := newEntry sessionId entryId text (nextOrdinal sessionId db.entries) text.utf8ByteSize none
      nowMs (saturatingAdd nowMs ttlMs)) h.fresh (by
      intro r hr heq
      have hslot := Prod.mk.inj heq
      have hlt := ordinal_lt_nextOrdinal hr (show r.sessionId = sessionId from hslot.1)
      have hordinal : r.ordinal = nextOrdinal sessionId db.entries := hslot.2
      omega)
  refine ⟨t', insert?_rows hins, ?_⟩
  have hget : db.entries.get? entryId = none := get?_eq_none.mpr h.fresh
  have hstored : insertOrConverge (newEntry sessionId entryId text
      (nextOrdinal sessionId db.entries) text.utf8ByteSize none nowMs (saturatingAdd nowMs ttlMs))
      sessionId nowMs (db.entries.get? entryId) db =
        .ok (newEntry sessionId entryId text (nextOrdinal sessionId db.entries) text.utf8ByteSize
          none nowMs (saturatingAdd nowMs ttlMs)) { db with entries := t' } := by
    rw [hget, insertOrConverge, insertEntry]
    simp only [bind_assoc, get_bind, hins]
    rfl
  rw [add_of_room h.principal h.entry rfl howner hcaller h.live h.retained]
  unfold transaction
  rw [bind_of_ok hstored]
  rfl

theorem add_inserts {nowMs : ℤ} (h : Admissible db caller sessionId entryId text nowMs) :
    ∃ t', t'.rows = db.entries.rows ++ [newEntry sessionId entryId text
        (nextOrdinal sessionId db.entries) text.utf8ByteSize none nowMs (saturatingAdd nowMs ttlMs)] ∧
      after db (.add caller sessionId entryId text none nowMs) = { db with entries := t' } := by
  obtain ⟨t', hrows, hadd⟩ := add_eq_ok h
  refine ⟨t', hrows, ?_⟩
  rw [after, perform, finalState_map, hadd, finalState_ok]

/-! ### A backlog over the limit -/

def entryName (n : ℕ) : String := String.singleton (Char.ofNat ('0'.toNat + n))

theorem entryName_inj {m : ℕ} (hm : m ≤ maxPending) (hn : n ≤ maxPending)
    (h : entryName m = entryName n) : m = n := by
  have hchar : Char.ofNat ('0'.toNat + m) = Char.ofNat ('0'.toNat + n) := by
    simpa [entryName] using congrArg String.toList h
  have hnat := congrArg Char.toNat hchar
  have hvalid : ∀ k ≤ maxPending, (Char.ofNat ('0'.toNat + k)).toNat = '0'.toNat + k := by decide
  rw [hvalid m hm, hvalid n hn] at hnat
  omega

def addNth (n : ℕ) : Operation := .add "ada" "s" (entryName n) "text" none 0

/-- A queue of `ada` with one entry whose delivery failed and `n` that wait. -/
structure Backlogged (n : ℕ) (db : QueueDatabase) : Prop where
  owner : ∃ record, db.owners "s" = some record ∧ record.ownerPrincipal = "ada"
  failed : ∃ r ∈ db.entries.rows, r.id = entryName 0 ∧ r.status = .failed ∧ r.sessionId = "s" ∧
    0 < r.expiresAtMs
  ids : db.entries.rows.map (·.id) = (List.range (n + 1)).map entryName
  live : liveCount "s" 0 db.entries = n

/-- The next entry is one that can be added. -/
theorem Backlogged.admissible (h : Backlogged n db) (hn : n < maxPending) :
    Admissible db "ada" "s" (entryName (n + 1)) "text" 0 := by
  have hlength : db.entries.rows.length = n + 1 := by
    simpa using congrArg List.length h.ids
  refine ⟨by decide, ?_, h.owner, h.live ▸ hn, ?_, ?_⟩
  · have hvalid : ∀ k ≤ maxPending,
        validateEntry (entryName k) "s" "text" = .ok "text".utf8ByteSize := by decide +kernel
    exact hvalid (n + 1) hn
  · refine lt_of_le_of_lt List.countP_le_length ?_
    simp only [maxPending, maxRetainedPerSession] at hn ⊢
    omega
  · intro r hr heq
    have hmem : r.id ∈ db.entries.rows.map (·.id) := List.mem_map_of_mem hr
    rw [h.ids, heq] at hmem
    obtain ⟨k, hk, hname⟩ := List.mem_map.mp hmem
    have hlt := List.mem_range.mp hk
    have hkn := entryName_inj (by omega) (by omega) hname
    omega

theorem Backlogged.add (h : Backlogged n db) (hn : n < maxPending) :
    Backlogged (n + 1) (after db (addNth (n + 1))) := by
  obtain ⟨t', hrows, hafter⟩ := add_inserts (h.admissible hn)
  obtain ⟨r, hr, hfailed⟩ := h.failed
  rw [addNth, hafter]
  refine ⟨h.owner, ⟨r, ?_, hfailed⟩, ?_, ?_⟩
  · simp [hrows, hr]
  · simp [hrows, h.ids, List.range_succ, newEntry]
  · have hlive := h.live
    unfold liveCount affected at hlive ⊢
    rw [hrows, List.countP_append, hlive]
    rfl

theorem Backlogged.addAll (h : Backlogged n db) (k : ℕ) (hk : n + k ≤ maxPending) :
    Backlogged (n + k) (run db ((List.range k).map fun i => addNth (n + i + 1))) := by
  induction k with
  | zero => exact h
  | succ k ih =>
    have hadd := (ih (by omega)).add (by omega)
    rw [List.range_succ, List.map_append, run_append]
    exact hadd

/-- The first entry is claimed and its delivery fails; with the 64 entries that come after
it the backlog is full. -/
def overfull : List Operation :=
  [addNth 0, .claim "s" 0, .markDeliveryFailed (entryName 0) "busy" 0] ++
    (List.range 64).map (fun i => addNth (0 + i + 1))

theorem backlogged_zero : Backlogged 0
    (run .empty [addNth 0, .claim "s" 0, .markDeliveryFailed (entryName 0) "busy" 0]) := by
  refine ⟨?_, ?_, ?_, ?_⟩
  · exact ⟨⟨"s", "ada", 0, 0, 0⟩, by decide, rfl⟩
  · decide
  · decide
  · decide

theorem backlogged_overfull : Backlogged 64 (run .empty overfull) := by
  rw [overfull, run_append]
  exact backlogged_zero.addAll 64 le_rfl

theorem retry_exceeds_backlog :
    ¬WithinLimits (overfull ++ [.retryFailed (entryName 0) 0]) := by
  intro h
  have hfull := backlogged_overfull
  obtain ⟨r, hr, hid, hstatus, hsession, hexp⟩ := hfull.failed
  have hrevived : revived (entryName 0) (run .empty overfull) = some r := by
    have hvalid : (validateEntryId (entryName 0)).isOk = true := by decide
    rw [revived, if_pos hvalid, UniqueTable.get?_eq_some.mpr ⟨hr, hid⟩]
    simp [hstatus]
  have hpast : Past (overfull ++ [.retryFailed (entryName 0) 0]) 0 := by
    intro op hop
    simp only [overfull, List.mem_append, List.mem_cons, List.mem_map, List.not_mem_nil,
      or_false] at hop
    rcases hop with ((rfl | rfl | rfl) | ⟨i, -, rfl⟩) | rfl <;> exact le_rfl
  have hlive := h.live "s" 0 hpast
  rw [run_snoc, after, perform, finalState_map, live_retryFailed hrevived,
    if_pos ⟨hsession, hexp⟩, hfull.live] at hlive
  exact absurd hlive (by decide)

end Codegg.PromptQueue
