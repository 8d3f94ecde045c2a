import Codegg.PromptQueue.Store

/-!
# The life of a queue entry

Every statement either leaves the status of an entry alone or moves it along one edge
of a fixed graph, and a delivered or expired entry never changes again but for its
ordinal. One relation on entries says this for a whole operation: a sweep may come
before the statement that does the work, but a swept entry is expired, and nothing
after the sweep touches it.
-/
namespace Codegg.PromptQueue

open Codegg.Library UniqueTable

/-- The status graph. -/
inductive StatusMove : UserPromptQueueStatus → UserPromptQueueStatus → Prop
  | claim : StatusMove .pending .delivering
  | deliver : StatusMove .delivering .delivered
  | fail : StatusMove .delivering .failed
  | release : StatusMove .delivering .pending
  | expireDelivering : StatusMove .delivering .expired
  | steer : StatusMove .pending .delivered
  | expirePending : StatusMove .pending .expired
  | retry : StatusMove .failed .pending

namespace UserPromptQueueStatus

/-- Delivered or expired: nothing leads out of it. -/
def isFinal : UserPromptQueueStatus → Bool
  | delivered | expired => true
  | _ => false

end UserPromptQueueStatus

theorem StatusMove.not_final {s s' : UserPromptQueueStatus} (h : StatusMove s s') :
    s.isFinal = false := by
  cases h <;> rfl

/-- Only delivery that failed or was given up leads back to `pending`. -/
theorem StatusMove.to_pending {s : UserPromptQueueStatus} (h : StatusMove s .pending) :
    s = .delivering ∨ s = .failed := by
  cases h
  · exact .inl rfl
  · exact .inr rfl

/-- The row is the same but for its ordinal. -/
def Kept (r r' : UserPromptQueueEntryRecord) : Prop := r' = { r with ordinal := r'.ordinal }

theorem Kept.refl (r : UserPromptQueueEntryRecord) : Kept r r := rfl

variable {r r' r'' : UserPromptQueueEntryRecord} {t t' : EntryTable} {i sessionId entryId : String}
  {p : UserPromptQueueEntryRecord → Bool} {u : EntryUpdate}

theorem Kept.status (h : Kept r r') : r'.status = r.status := by
  rw [h]

theorem Kept.session (h : Kept r r') :
    r'.sessionId = r.sessionId := by
  rw [h]

theorem Kept.trans (h : Kept r r') (h' : Kept r' r'') :
    Kept r r'' := by
  unfold Kept at h h' ⊢
  rw [h', h]

/-- What one operation does to a row that stays. -/
structure RowMove (r r' : UserPromptQueueEntryRecord) : Prop where
  session : r'.sessionId = r.sessionId
  status : r'.status = r.status ∨ StatusMove r.status r'.status
  final : r.status.isFinal = true → Kept r r'

/-- What one operation does to the entry of an identity: where it may add one the new
entry is pending, and only a pending one is removed. -/
def EntryMove (new : Prop) :
    Option UserPromptQueueEntryRecord → Option UserPromptQueueEntryRecord → Prop
  | none, none => True
  | none, some r' => new ∧ r'.status = .pending
  | some r, none => r.status = .pending
  | some r, some r' => RowMove r r'

theorem RowMove.refl (r : UserPromptQueueEntryRecord) : RowMove r r :=
  ⟨rfl, .inl rfl, fun _ => .refl r⟩

theorem RowMove.of_statusMove (hs : r'.sessionId = r.sessionId) (h : StatusMove r.status r'.status) :
    RowMove r r' :=
  ⟨hs, .inr h, fun hf => absurd hf (by simp [h.not_final])⟩

/-- An update of columns that are no keys stays within the session. -/
theorem sessionId_apply (u : EntryUpdate) (r : UserPromptQueueEntryRecord) :
    (u.apply r).sessionId = r.sessionId :=
  congrArg Prod.fst (u.slot_apply r)

/-- Renumbering after anything else changes nothing that counts. -/
theorem RowMove.then_kept (h : RowMove r r') (h' : Kept r' r'') : RowMove r r'' :=
  ⟨h'.session.trans h.session, h'.status ▸ h.status, fun hf => (h.final hf).trans h'⟩

/-- The effect of a sweep on a row. -/
def Swept (r r' : UserPromptQueueEntryRecord) : Prop :=
  r' = r ∨ (r.status.isLive = true ∧ r'.status = .expired ∧ r'.sessionId = r.sessionId)

/-- What a statement does to a row it finds after a sweep is what the operation does to
the row: a swept row is expired and stays as it is. -/
theorem Swept.then_move (h : Swept r r') (h' : RowMove r' r'') : RowMove r r'' := by
  rcases h with rfl | ⟨hlive, hexp, hsession⟩
  · exact h'
  · have hkept : Kept r' r'' := h'.final (by rw [hexp]; rfl)
    apply RowMove.of_statusMove (h'.session.trans hsession)
    rw [hkept.status, hexp]
    cases hs : r.status with
    | pending => exact .expirePending
    | delivering => exact .expireDelivering
    | delivered | failed | expired => simp [hs, UserPromptQueueStatus.isLive] at hlive

/-! ### Tables -/

/-- No statement but sweeps so far. -/
def SweptTable (t t' : EntryTable) : Prop :=
  ∀ i, match t.get? i, t'.get? i with
    | none, none => True
    | some r, some r' => Swept r r'
    | _, _ => False

/-- The moves of all entries; new ones have an identity with `new`. -/
def MovedTable (new : String → Prop) (t t' : EntryTable) : Prop :=
  ∀ i, EntryMove (new i) (t.get? i) (t'.get? i)

variable {new : String → Prop}

theorem SweptTable.refl (t : EntryTable) : SweptTable t t := by
  intro i
  cases t.get? i with
  | none => trivial
  | some r => exact .inl rfl

/-- Both tables have the entry, or neither has. -/
theorem SweptTable.lookup (h : SweptTable t t') (i : String) :
    (t.get? i = none ∧ t'.get? i = none) ∨
      ∃ r r', t.get? i = some r ∧ t'.get? i = some r' ∧ Swept r r' := by
  have hi := h i
  cases hr : t.get? i <;> cases hr' : t'.get? i <;> simp_all

theorem SweptTable.moved {t t' : EntryTable} (h : SweptTable t t') : MovedTable new t t' := by
  intro i
  rcases h.lookup i with ⟨hr, hr'⟩ | ⟨r, r', hr, hr', hs⟩ <;> rw [hr, hr']
  · trivial
  · exact hs.then_move (.refl r')

/-- An `UPDATE` whose every change is a move. -/
theorem SweptTable.updateWhere (h : SweptTable t t') (hu : ∀ r, p r = true → RowMove r (u.apply r)) :
    MovedTable new t (t'.updateWhere p u) := by
  intro i
  rw [get?_updateWhere]
  rcases h.lookup i with ⟨hr, hr'⟩ | ⟨r, r', hr, hr', hs⟩ <;> rw [hr, hr']
  · trivial
  · refine hs.then_move ?_
    unfold updateRow
    split
    · rename_i hp
      exact hu r' hp
    · exact .refl r'

theorem SweptTable.deleteWhere (h : SweptTable t t') (hp : ∀ r, p r = true → r.status = .pending) :
    MovedTable new t (t'.deleteWhere p) := by
  intro i
  rw [get?_deleteWhere]
  rcases h.lookup i with ⟨hr, hr'⟩ | ⟨r, r', hr, hr', hs⟩ <;> rw [hr, hr']
  · trivial
  · rw [Option.filter_some]
    cases hpr : p r' with
    | false => exact hs.then_move (.refl r')
    | true =>
      rcases hs with rfl | ⟨_, hexp, _⟩
      · exact hp r' hpr
      · have hpending := hp r' hpr
        rw [hexp] at hpending
        cases hpending

theorem SweptTable.sweep (sessionId : String) (nowMs : ℤ) :
    SweptTable t (t.updateWhere (·.isOverdueAt sessionId nowMs) (expireRow nowMs)) := by
  intro i
  rw [get?_updateWhere]
  cases t.get? i with
  | none => trivial
  | some r =>
    show Swept r _
    unfold updateRow
    split
    · rename_i hp
      simp only [UserPromptQueueEntryRecord.isOverdueAt, Bool.and_eq_true] at hp
      exact .inr ⟨hp.1.2, rfl, rfl⟩
    · exact .inl rfl

/-! ### Moving rows -/

/-- A change of the ordinal at most. -/
def Renumbers (changes : List RowChange) : Prop := ∀ c ∈ changes, ∀ r, Kept r (c.2 r)

theorem kept_setOne {f : UserPromptQueueEntryRecord → UserPromptQueueEntryRecord}
    (hf : ∀ r, Kept r (f r)) (r : UserPromptQueueEntryRecord) :
    Kept r (setOne UserPromptQueueEntryRecord.id i f r) := by
  unfold setOne
  split
  · exact hf r
  · exact .refl r

theorem Kept.id_eq (h : Kept r r') : r'.id = r.id := by
  rw [h]

theorem get?_setRow {f : UserPromptQueueEntryRecord → UserPromptQueueEntryRecord}
    (hf : ∀ r, Kept r (f r)) (h : t.setRow? i f = some t') (j : String) :
    t'.get? j = (t.get? j).map (setOne UserPromptQueueEntryRecord.id i f) := by
  have hrows := ofRows?_eq_some.mp h
  unfold get?
  rw [hrows, List.find?_map]
  have heq : ((fun r : UserPromptQueueEntryRecord => decide (r.id = j)) ∘
      setOne UserPromptQueueEntryRecord.id i f) =
        fun r => decide (r.id = j) := by
    funext r
    rw [Function.comp_apply, (kept_setOne hf r).id_eq]
  rw [heq]

theorem MovedTable.setRows {t'' : EntryTable} (h : MovedTable new t t') {changes : List RowChange}
    (hc : Renumbers changes) (hset : t'.setRows? changes = some t'') : MovedTable new t t'' := by
  induction changes generalizing t' with
  | nil =>
    cases hset
    exact h
  | cons c changes ih =>
    obtain ⟨t₁, ht₁, hset⟩ := Option.bind_eq_some_iff.mp hset
    have hf : ∀ r, Kept r (c.2 r) := hc c List.mem_cons_self
    have hmoved : MovedTable new t t₁ := by
      intro i
      rw [get?_setRow hf ht₁]
      have hi := h i
      cases hr : t.get? i <;> cases hr' : t'.get? i <;> rw [hr, hr'] at hi
      · trivial
      · exact ⟨hi.1, (kept_setOne hf _).status.trans hi.2⟩
      · exact hi
      · exact hi.then_kept (kept_setOne hf _)
    exact ih hmoved (fun d hd => hc d (List.mem_cons_of_mem _ hd)) hset

theorem renumbers_displacements (sessionId : String) (t : EntryTable) :
    Renumbers (displacements sessionId t) := by
  intro c hc r
  obtain ⟨i, _, rfl⟩ := List.mem_map.mp hc
  exact .refl _

theorem kept_placeRow (sessionId : String) (ordinal : ℕ) (r : UserPromptQueueEntryRecord) :
    Kept r (placeRow sessionId ordinal r) := by
  unfold placeRow
  split
  · exact .refl _
  · exact .refl _

theorem renumbers_denseTargets (sessionId : String) (merged : List String) :
    Renumbers (denseTargets sessionId merged) := by
  intro c hc r
  obtain ⟨target, _, rfl⟩ := List.mem_map.mp hc
  exact kept_placeRow sessionId target.2 r

/-! ### Operations -/

def Sweeps (db s : QueueDatabase) : Prop := SweptTable db.entries s.entries

def Moved (new : String → Prop) (db s : QueueDatabase) : Prop :=
  MovedTable new db.entries s.entries

/-- From a database with `P` to one with `Q`, unless the operation fails. -/
abbrev Leads {α : Type} (P : QueueDatabase → Prop) (x : QueueM α) (Q : QueueDatabase → Prop) :
    Prop :=
  Triple P x (fun _ => Q) (fun _ _ => True)

section

variable {α β : Type} {P Q R : QueueDatabase → Prop} {db : QueueDatabase}

variable {x : QueueM α}

theorem Leads.keep (h : ReadOnly x) : Leads P x P :=
  (Triple.readOnly h).conseq (fun _ hs => hs) (fun _ _ hs => hs) (fun _ _ _ => trivial)

variable {f : α → QueueM β}

theorem Leads.after (hx : ReadOnly x) (hf : ∀ a, Leads P (f a) Q) : Leads P (x >>= f) Q :=
  Triple.bind (Leads.keep hx) hf

theorem Leads.seq (hx : Leads P x R) (hf : ∀ a, Leads R (f a) Q) : Leads P (x >>= f) Q :=
  Triple.bind hx hf

/-- The last effect of a computation. -/
theorem Leads.effect (hx : Leads P x Q) (hf : ∀ a, Leads Q (f a) Q) : Leads P (x >>= f) Q :=
  Leads.seq hx hf

theorem Leads.weaken (h : Leads P x Q) (hq : ∀ s, Q s → R s) : Leads P x R :=
  h.conseq (fun _ hs => hs) (fun _ s hs => hq s hs) (fun _ _ h => h)

theorem Leads.withState {f : QueueDatabase → QueueM β}
    (h : ∀ s, P s → Leads (· = s) (f s) Q) : Leads P (get >>= f) Q :=
  fun s hs => h s hs s rfl

theorem leads_storeEntries {s : QueueDatabase} {stored : Option EntryTable}
    (h : ∀ entries, stored = some entries → Q { s with entries := entries }) :
    Leads (· = s) (storeEntries stored) Q := by
  cases stored with
  | none => exact .throw fun _ _ => trivial
  | some entries =>
    rintro _ rfl
    exact h entries rfl

/-- A transaction either leads where its body does or changes nothing. -/
theorem finalState_transaction (h : Leads P x Q) (hP : P db) :
    Q (finalState (transaction x db)) ∨ finalState (transaction x db) = db := by
  unfold transaction
  cases hx : x db with
  | ok a s => exact .inl (h.of_ok hP hx)
  | error e s => exact .inr rfl

end

theorem transaction_keeps {α : Type} {P : EntryTable → Prop} {x : QueueM α} {db : QueueDatabase}
    (hx : Leads (fun s => P s.entries) x fun s => P s.entries) (h : P db.entries) :
    P (finalState (transaction x db)).entries := by
  rcases finalState_transaction hx h with hr | he
  · exact hr
  · rw [he]
    exact h

/-- A check that fails leaves everything. -/
theorem Leads.checked {α β : Type} {P Q : QueueDatabase → Prop} {r : Except UserPromptQueueError α}
    {f : α → QueueM β} (hf : ∀ a, Leads P (f a) Q) : Leads P (liftExcept r >>= f) Q :=
  .after (readOnly_liftExcept r) hf

theorem failIf_ok {c : Prop} [Decidable c] {e : UserPromptQueueError} (h : ¬c)
    (s : QueueDatabase) : (failIf c e : QueueM Unit) s = .ok () s := by
  rw [failIf, if_neg h]
  rfl

theorem readOnly_loadEntry (entryId : String) : ReadOnly (loadEntry entryId) := fun _ => rfl

theorem readOnly_resolveOwnership (sessionId : String) : ReadOnly (resolveOwnership sessionId) :=
  fun _ => rfl

theorem readOnly_listLiveIn (sessionId : String) (nowMs : ℤ) :
    ReadOnly (listLiveIn sessionId nowMs) := fun _ => rfl

theorem readOnly_listProjectedIn (sessionId : String) (nowMs : ℤ) :
    ReadOnly (listProjectedIn sessionId nowMs) := fun _ => rfl

theorem readOnly_ownedGate (caller : String) (ownership : UserPromptQueueOwnership) :
    ReadOnly (ownedGate caller ownership) := by
  cases ownership with
  | owned record => exact .failIf _ _
  | absent => exact .throw _
  | unowned => exact .throw _

theorem readOnly_addGate (caller : String) (ownership : UserPromptQueueOwnership) :
    ReadOnly (addGate caller ownership) := by
  cases ownership with
  | owned record => exact .failIf _ _
  | absent => exact .pure ()
  | unowned => exact .throw _

theorem readOnly_authorizeOwnedQueue (caller sessionId : String) :
    ReadOnly (authorizeOwnedQueue caller sessionId) :=
  .bind (readOnly_resolveOwnership sessionId) (readOnly_ownedGate caller)

theorem readOnly_checkCapacityIn (sessionId : String) (nowMs : ℤ) :
    ReadOnly (checkCapacityIn sessionId nowMs) :=
  .bind .get fun _ =>
    .bind (.failIf _ _) fun _ => .failIf _ _

section

variable {db : QueueDatabase}

theorem leads_sweepExpired (sessionId : String) (nowMs : ℤ) :
    Leads (· = db) (sweepExpired sessionId nowMs) (Sweeps db) := by
  rintro s rfl
  exact .sweep sessionId nowMs

theorem sweeps_self : ∀ s, s = db → Sweeps db s := by
  rintro s rfl
  exact .refl _

theorem leads_update (hu : ∀ r, p r = true → RowMove r (u.apply r)) :
    Leads (Sweeps db) (update p u) (Moved new db) := fun _ hs => hs.updateWhere hu

theorem leads_deleteRows (hp : ∀ r, p r = true → r.status = .pending) :
    Leads (Sweeps db) (deleteRows p) (Moved new db) := fun _ hs => hs.deleteWhere hp

theorem leads_setOwner {P : EntryTable → Prop} (record : UserPromptQueueOwnerRecord) :
    Leads (fun s => P s.entries) (setOwner record) (fun s => P s.entries) := fun _ hs => hs

theorem leads_moveRows {changes : EntryTable → List RowChange}
    (hc : ∀ t, Renumbers (changes t)) : Leads (Moved new db) (moveRows changes) (Moved new db) := by
  refine .withState fun s hs => leads_storeEntries fun entries h => ?_
  exact MovedTable.setRows hs (hc s.entries) h

theorem leads_renumberDense (sessionId : String) (nowMs : ℤ)
    (desired : List String) :
    Leads (Moved new db) (renumberDense sessionId nowMs desired) (Moved new db) := by
  refine .after (readOnly_listProjectedIn sessionId nowMs) fun live => ?_
  refine .checked fun merged => ?_
  refine .effect (leads_moveRows (renumbers_displacements sessionId)) fun _ => ?_
  exact leads_moveRows fun _ => renumbers_denseTargets sessionId merged

/-- An insertion under an identity that is not in use. -/
theorem SweptTable.insert {t'' : EntryTable} (h : SweptTable t t')
    {row : UserPromptQueueEntryRecord} (hrow : row.status = .pending) (hnew : new row.id)
    (hins : t'.insert? row = some t'') : MovedTable new t t'' := by
  intro i
  have hget : t''.get? i = (t'.get? i).or (if row.id = i then some row else none) := by
    unfold get?
    rw [insert?_rows hins]
    by_cases hi : row.id = i <;> simp [hi]
  rw [hget]
  rcases h.lookup i with ⟨hr, hr'⟩ | ⟨r, r', hr, hr', hs⟩ <;> rw [hr, hr']
  · by_cases hi : row.id = i
    · rw [if_pos hi]
      exact ⟨hi ▸ hnew, hrow⟩
    · rw [if_neg hi]
      trivial
  · exact hs.then_move (.refl r')

theorem leads_insertEntry {row : UserPromptQueueEntryRecord} (hrow : row.status = .pending)
    (hnew : new row.id) :
    Leads (Sweeps db) (insertEntry row) (Moved new db) := by
  refine .withState fun s hs => leads_storeEntries fun entries h => ?_
  exact hs.insert hrow hnew h

end

/-! ### The rows of each guarded update -/

theorem rowMove_claimRow (nowMs : ℤ) (r : UserPromptQueueEntryRecord)
    (h : pendingIn sessionId entryId r = true) : RowMove r ((claimRow nowMs).apply r) := by
  simp only [pendingIn, Bool.and_eq_true, decide_eq_true_eq] at h
  exact .of_statusMove rfl (h.2 ▸ .claim)

theorem rowMove_steer (turnId : String) (nowMs : ℤ) (r : UserPromptQueueEntryRecord)
    (h : pendingIn sessionId entryId r = true) :
    RowMove r ((deliverRow turnId nowMs).apply r) := by
  simp only [pendingIn, Bool.and_eq_true, decide_eq_true_eq] at h
  exact .of_statusMove rfl (h.2 ▸ .steer)

theorem rowMove_editRow (text : String) (textBytes : ℕ) (runAtMs : Option ℤ) (nowMs nowMs' : ℤ)
    (r : UserPromptQueueEntryRecord) (h : editable sessionId entryId nowMs' r = true) :
    RowMove r ((editRow text textBytes runAtMs nowMs).apply r) := by
  simp only [editable, pendingIn, Bool.and_eq_true, decide_eq_true_eq] at h
  exact ⟨rfl, .inl rfl, fun hf => by simp [h.1.2, UserPromptQueueStatus.isFinal] at hf⟩

theorem rowMove_settle {status : UserPromptQueueStatus}
    (hu : ∀ r : UserPromptQueueEntryRecord, r.status = status →
      StatusMove status (u.apply r).status) (r : UserPromptQueueEntryRecord)
    (h : hasStatus entryId status r = true) :
    RowMove r (u.apply r) := by
  simp only [hasStatus, Bool.and_eq_true, decide_eq_true_eq] at h
  exact RowMove.of_statusMove (sessionId_apply u r) (by rw [h.2]; exact hu r h.2)

section

variable {db : QueueDatabase}

theorem leads_settle {status : UserPromptQueueStatus}
    (hu : ∀ r : UserPromptQueueEntryRecord, r.status = status →
      StatusMove status (u.apply r).status) :
    Leads (Sweeps db) (settle entryId status u) (Moved new db) :=
  .effect (leads_update (rowMove_settle hu)) fun _ => .keep (.pure _)

/-- An operation whose body leads from the database to a moved one. -/
theorem moved_transaction {α : Type} {x : QueueM α} (h : Leads (· = db) x (Moved new db)) :
    Moved new db (finalState (transaction x db)) := by
  rcases finalState_transaction h rfl with hm | he
  · exact hm
  · rw [he]
    exact (sweeps_self db rfl).moved

/-- Such an operation, when nothing is swept before the statement that does the work. -/
theorem moved_transaction_of_sweeps {α : Type} {x : QueueM α}
    (h : Leads (Sweeps db) x (Moved new db)) :
    Moved new db (finalState (transaction x db)) :=
  moved_transaction (h.conseq sweeps_self (fun _ _ hs => hs) fun _ _ he => he)

end

/-! ### Every operation -/

section

variable (db : QueueDatabase)

theorem moved_add (caller sessionId entryId text : String) (runAtMs : Option ℤ) (nowMs : ℤ) :
    Moved (· = entryId) db (finalState (add caller sessionId entryId text runAtMs nowMs db)) := by
  refine moved_transaction_of_sweeps ?_
  refine .checked fun _ => ?_
  refine .checked fun textBytes => ?_
  refine .checked fun _ => ?_
  refine .after (readOnly_resolveOwnership sessionId) fun ownership => ?_
  refine .after (readOnly_addGate caller ownership) fun _ => ?_
  refine .after (readOnly_checkCapacityIn sessionId nowMs) fun _ => ?_
  have hadopt : Leads (Sweeps db) (adoptAbsent caller sessionId nowMs ownership) (Sweeps db) := by
    cases ownership with
    | absent => exact leads_setOwner (P := SweptTable db.entries) _
    | owned record => exact .keep (.pure ())
    | unowned => exact .keep (.pure ())
  refine .seq hadopt fun _ => ?_
  refine .after .get fun s => ?_
  refine .seq ?_ fun record => .keep (.pure _)
  cases s.entries.get? entryId with
  | some existing =>
    exact (Leads.keep (readOnly_liftExcept _)).weaken fun _ hs => hs.moved
  | none => exact .effect (leads_insertEntry rfl rfl) fun _ => .keep (.pure _)

theorem moved_edit (caller sessionId entryId text : String) (runAtMs : Option ℤ) (nowMs : ℤ) :
    Moved (fun _ => False) db (finalState (edit caller sessionId entryId text runAtMs nowMs db)) := by
  refine moved_transaction ?_
  refine .checked fun _ => ?_
  refine .checked fun textBytes => ?_
  refine .after (readOnly_authorizeOwnedQueue caller sessionId) fun _ => ?_
  refine .seq (leads_sweepExpired sessionId nowMs) fun _ => ?_
  refine .after (readOnly_loadEntry entryId) fun target => ?_
  refine .checked fun _ => ?_
  refine .effect (leads_update (rowMove_editRow text textBytes runAtMs nowMs nowMs)) fun _ => ?_
  refine .after (readOnly_loadEntry entryId) fun existing => ?_
  refine .after (.failIf _ _) fun _ => ?_
  exact .keep (readOnly_liftExcept _)

theorem moved_delete (caller sessionId entryId : String) (nowMs : ℤ) :
    Moved (fun _ => False) db (finalState (delete caller sessionId entryId nowMs db)) := by
  refine moved_transaction ?_
  refine .checked fun _ => ?_
  refine .checked fun _ => ?_
  refine .checked fun _ => ?_
  refine .after (readOnly_authorizeOwnedQueue caller sessionId) fun _ => ?_
  refine .seq (leads_sweepExpired sessionId nowMs) fun _ => ?_
  refine .effect (leads_deleteRows ?_) fun deleted => ?_
  · intro r h
    simp only [pendingIn, Bool.and_eq_true, decide_eq_true_eq] at h
    exact h.2
  refine .after (readOnly_loadEntry entryId) fun existing => ?_
  refine .after (.failIf _ _) fun _ => ?_
  refine .after (readOnly_listLiveIn sessionId nowMs) fun survivors => ?_
  refine .effect (leads_renumberDense sessionId nowMs _) fun _ => ?_
  exact .keep (readOnly_listProjectedIn sessionId nowMs)

theorem moved_reorder (caller sessionId : String) (entryIds : List String)
    (nowMs : ℤ) :
    Moved (fun _ => False) db (finalState (reorder caller sessionId entryIds nowMs db)) := by
  refine moved_transaction ?_
  refine .checked fun _ => ?_
  refine .checked fun _ => ?_
  refine .checked fun _ => ?_
  refine .after (readOnly_authorizeOwnedQueue caller sessionId) fun _ => ?_
  refine .effect ((leads_sweepExpired sessionId nowMs).weaken fun _ hs => hs.moved) fun _ => ?_
  refine .after (readOnly_listLiveIn sessionId nowMs) fun live => ?_
  refine .after (.failIf _ _) fun _ => ?_
  refine .effect (leads_renumberDense sessionId nowMs entryIds) fun _ => ?_
  exact .keep (readOnly_listProjectedIn sessionId nowMs)

theorem entries_adopt (caller sessionId : String) (nowMs : ℤ) :
    (finalState (adopt caller sessionId nowMs db)).entries = db.entries := by
  refine transaction_keeps (P := (· = db.entries)) ?_ rfl
  refine .checked fun _ => ?_
  refine .checked fun _ => ?_
  refine .after (readOnly_resolveOwnership sessionId) fun ownership => ?_
  have hinsert : Leads (fun s => s.entries = db.entries) (do
      insertOwner caller sessionId nowMs
      liftExcept (((← get).owners sessionId).elim (.error UserPromptQueueError.notFound) .ok) :
        QueueM UserPromptQueueOwnerRecord) (fun s => s.entries = db.entries) := by
    refine .seq (leads_setOwner (P := (· = db.entries)) _) fun _ => ?_
    exact .after .get fun _ => .keep (readOnly_liftExcept _)
  cases ownership with
  | owned record => exact .after (.failIf _ _) fun _ => .keep (.pure _)
  | absent => exact hinsert
  | unowned => exact hinsert

theorem entries_transfer (caller recipient : String) (expectedRevision : ℕ) (sessionId : String)
    (nowMs : ℤ) :
    (finalState (transfer caller recipient expectedRevision sessionId nowMs db)).entries =
      db.entries := by
  refine transaction_keeps (P := (· = db.entries)) ?_ rfl
  refine .checked fun _ => ?_
  refine .checked fun _ => ?_
  refine .checked fun _ => ?_
  refine .after (readOnly_resolveOwnership sessionId) fun ownership => ?_
  cases ownership with
  | absent => exact .keep (.throw _)
  | unowned => exact .keep (.throw _)
  | owned current =>
    refine .after (.failIf _ _) fun _ => ?_
    refine .after (.failIf _ _) fun _ => ?_
    refine .seq (leads_setOwner (P := (· = db.entries)) _) fun _ => ?_
    exact .keep (.pure _)

theorem moved_of_entries {s : QueueDatabase} (h : s.entries = db.entries) : Moved new db s := by
  rw [Moved, h]
  exact (SweptTable.refl _).moved

theorem moved_listLive (sessionId : String) (nowMs : ℤ) :
    Moved (fun _ => False) db (finalState (listLive sessionId nowMs db)) := by
  refine moved_transaction ?_
  refine .checked fun _ => ?_
  refine .effect ((leads_sweepExpired sessionId nowMs).weaken fun _ hs => hs.moved) fun _ => ?_
  exact .keep (readOnly_listProjectedIn sessionId nowMs)

theorem moved_claim (sessionId : String) (nowMs : ℤ) :
    Moved (fun _ => False) db (finalState (claimNextForDelivery sessionId nowMs db)) := by
  have hnone : Leads (Sweeps db) (pure none : QueueM (Option UserPromptQueueDeliveryClaim))
      (Moved (fun _ => False) db) := (Leads.keep (ReadOnly.pure _)).weaken fun _ hs => SweptTable.moved hs
  refine moved_transaction_of_sweeps ?_
  refine .checked fun _ => ?_
  refine .after .get fun s => ?_
  cases s.owners sessionId with
  | none => exact hnone
  | some owner =>
    cases (selectOrdered (isClaimable sessionId nowMs) s.entries).head? with
    | none => exact hnone
    | some candidate =>
      refine .effect (leads_update (rowMove_claimRow nowMs)) fun _ => ?_
      refine .after (readOnly_loadEntry candidate.id) fun _ => ?_
      exact .keep (.pure _)

theorem moved_markDelivered (entryId turnId : String) (nowMs : ℤ) :
    Moved (fun _ => False) db (finalState (markDelivered entryId turnId nowMs db)) := by
  refine moved_transaction_of_sweeps ?_
  refine .checked fun _ => ?_
  refine .checked fun _ => ?_
  exact leads_settle fun _ _ => .deliver

theorem moved_markSteerDelivered (caller sessionId entryId turnId : String) (nowMs : ℤ) :
    Moved (fun _ => False) db (finalState (markSteerDelivered caller sessionId entryId turnId nowMs db)) := by
  refine moved_transaction ?_
  refine .checked fun _ => ?_
  refine .checked fun _ => ?_
  refine .checked fun _ => ?_
  refine .checked fun _ => ?_
  refine .after (readOnly_authorizeOwnedQueue caller sessionId) fun _ => ?_
  refine .seq (leads_sweepExpired sessionId nowMs) fun _ => ?_
  refine .effect (leads_update (rowMove_steer turnId nowMs)) fun _ => ?_
  refine .after (readOnly_loadEntry entryId) fun existing => ?_
  exact .keep (.failIf _ _)

theorem moved_markDeliveryFailed (entryId reason : String) (nowMs : ℤ) :
    Moved (fun _ => False) db (finalState (markDeliveryFailed entryId reason nowMs db)) := by
  refine moved_transaction_of_sweeps ?_
  refine .checked fun _ => ?_
  refine .checked fun reason => ?_
  exact leads_settle fun _ _ => .fail

theorem moved_releaseDelivery (entryId : String) (nowMs : ℤ) :
    Moved (fun _ => False) db (finalState (releaseDelivery entryId nowMs db)) := by
  refine moved_transaction_of_sweeps ?_
  refine .checked fun _ => ?_
  exact leads_settle fun _ _ => .release

theorem moved_retryFailed (entryId : String) (nowMs : ℤ) :
    Moved (fun _ => False) db (finalState (retryFailed entryId nowMs db)) := by
  refine moved_transaction_of_sweeps ?_
  refine .checked fun _ => ?_
  exact leads_settle fun _ _ => .retry

theorem moved_resolveStranded (entryId : String) (resolution : UserPromptQueueDeliveryResolution)
    (nowMs : ℤ) :
    Moved (fun _ => False) db (finalState (resolveStrandedDelivery entryId resolution nowMs db)) := by
  refine moved_transaction_of_sweeps ?_
  refine .checked fun _ => ?_
  cases resolution with
  | delivered turnId => exact leads_settle fun _ _ => .deliver
  | retry => exact leads_settle fun _ _ => .release
  | failed reason =>
    refine .checked fun reason => ?_
    exact leads_settle fun _ _ => .fail

/-- The identities an operation may add an entry for. -/
def Operation.inserts : Operation → String → Prop
  | .add _ _ entryId _ _ _, i => i = entryId
  | _, _ => False

/-- The step lemma: no operation moves an entry off the graph. -/
theorem moved_after (op : Operation) : Moved op.inserts db (after db op) := by
  unfold after
  cases op <;> simp only [perform, finalState_map]
  · exact moved_add _ _ _ _ _ _ _
  · exact moved_edit _ _ _ _ _ _ _
  · exact moved_delete _ _ _ _ _
  · exact moved_reorder _ _ _ _ _
  · exact moved_of_entries _ (entries_adopt _ _ _ _)
  · exact moved_of_entries _ (entries_transfer _ _ _ _ _ _)
  · exact moved_listLive _ _ _
  · exact moved_claim _ _ _
  · exact moved_markDelivered _ _ _ _
  · exact moved_markSteerDelivered _ _ _ _ _ _
  · exact moved_markDeliveryFailed _ _ _ _
  · exact moved_releaseDelivery _ _ _
  · exact moved_retryFailed _ _ _
  · exact moved_resolveStranded _ _ _ _

end

end Codegg.PromptQueue
