import Codegg.PromptQueue.Delivery

/-!
# How many rows a session keeps

Terminal rows are kept for good, and a queue counts them against its capacity: `add`
refuses when a session has 256 rows. No list the store reads is therefore ever cut off
by its `LIMIT`.
-/
namespace Codegg.PromptQueue

open Codegg.Library

def Retained (t : EntryTable) : Prop :=
  ∀ sessionId, t.affected (·.ownedBy sessionId) ≤ maxRetainedPerSession

/-- The identities of a session. -/
def sessionIds (sessionId : String) (t : EntryTable) : List String :=
  (t.rows.filter (·.ownedBy sessionId)).map (·.id)

theorem nodup_sessionIds (sessionId : String) (t : EntryTable) :
    (sessionIds sessionId t).Nodup :=
  t.idents_nodup.sublist (List.filter_sublist.map _)

theorem length_sessionIds (sessionId : String) (t : EntryTable) :
    (sessionIds sessionId t).length = t.affected (·.ownedBy sessionId) := by
  rw [sessionIds, List.length_map, UniqueTable.affected, List.countP_eq_length_filter]

variable {t t' : EntryTable}

theorem mem_sessionIds {sessionId i : String} :
    i ∈ sessionIds sessionId t ↔ ∃ r ∈ t.rows, r.sessionId = sessionId ∧ r.id = i := by
  simp [sessionIds, UserPromptQueueEntryRecord.ownedBy, and_assoc]

/-- A table whose entries come from another one has no more of any session. -/
theorem Retained.of_subset (h : Retained t)
    (hsub : ∀ sessionId, sessionIds sessionId t' ⊆ sessionIds sessionId t) : Retained t' := by
  intro sessionId
  have hle := (List.subperm_of_subset (nodup_sessionIds sessionId t') (hsub sessionId)).length_le
  rw [length_sessionIds, length_sessionIds] at hle
  exact hle.trans (h sessionId)

/-- An operation that inserts nothing. -/
theorem sessionIds_subset_of_moved (h : MovedTable (fun _ => False) t t') (sessionId : String) :
    sessionIds sessionId t' ⊆ sessionIds sessionId t := by
  intro i hi
  obtain ⟨r', hr', hs', rfl⟩ := mem_sessionIds.mp hi
  have hmove := h r'.id
  rw [UniqueTable.get?_eq_some.mpr ⟨hr', rfl⟩] at hmove
  cases hr : t.get? r'.id with
  | none =>
    rw [hr] at hmove
    exact hmove.1.elim
  | some r =>
    rw [hr] at hmove
    obtain ⟨hmem, hid⟩ := UniqueTable.get?_eq_some.mp hr
    exact mem_sessionIds.mpr ⟨r, hmem, hmove.session.symm.trans hs', hid⟩

theorem affected_insert {row : UserPromptQueueEntryRecord} (h : t.insert? row = some t')
    (sessionId : String) :
    t'.affected (·.ownedBy sessionId) =
      t.affected (·.ownedBy sessionId) + if row.sessionId = sessionId then 1 else 0 := by
  rw [UniqueTable.affected_insert? h]
  simp [UserPromptQueueEntryRecord.ownedBy]

/-- An insertion into a session that has room. -/
theorem Retained.insert {row : UserPromptQueueEntryRecord} (h : Retained t)
    (hroom : t.affected (·.ownedBy row.sessionId) < maxRetainedPerSession)
    (hins : t.insert? row = some t') : Retained t' := by
  intro sessionId
  rw [affected_insert hins]
  have hle := h sessionId
  by_cases hs : row.sessionId = sessionId
  · rw [if_pos hs]
    rw [hs] at hroom
    omega
  · rw [if_neg hs]
    omega

/-- The capacity check passes only while there is room, for one more live entry and for
one more row. -/
theorem leads_checkCapacityIn (sessionId : String) (nowMs : ℤ) (P : QueueDatabase → Prop) :
    Leads P (checkCapacityIn sessionId nowMs) fun s =>
      P s ∧ s.entries.affected (·.isLiveAt sessionId nowMs) < maxPending ∧
        s.entries.affected (·.ownedBy sessionId) < maxRetainedPerSession := by
  refine .withState fun s hs => ?_
  refine .bind (.failIf (R := fun _ s' => s' = s ∧
    s.entries.affected (·.isLiveAt sessionId nowMs) < maxPending) (fun _ _ _ => trivial) ?_)
    fun _ => .failIf (fun _ _ _ => trivial) ?_
  · rintro _ rfl hlt
    exact ⟨rfl, not_le.mp hlt⟩
  · rintro _ ⟨rfl, hlive⟩ hlt
    exact ⟨hs, hlive, not_le.mp hlt⟩

theorem leads_adoptAbsent (caller sessionId : String) (nowMs : ℤ)
    (ownership : UserPromptQueueOwnership) (P : EntryTable → Prop) :
    Leads (fun s => P s.entries) (adoptAbsent caller sessionId nowMs ownership)
      fun s => P s.entries := by
  cases ownership with
  | absent => exact .modify fun _ hs => hs
  | owned record => exact .keep (.pure ())
  | unowned => exact .keep (.pure ())

/-- What `add` does to a property of the table: it inserts one entry at most, and only
where there is room for it. -/
theorem add_keeps {P : EntryTable → Prop} {db : QueueDatabase} (h : P db.entries)
    (caller sessionId entryId text : String) (runAtMs : Option ℤ) (nowMs : ℤ)
    (hinsert : ∀ {t t' : EntryTable} {row : UserPromptQueueEntryRecord}, P t →
      row.sessionId = sessionId → t.affected (·.isLiveAt sessionId nowMs) < maxPending →
      t.affected (·.ownedBy sessionId) < maxRetainedPerSession → t.insert? row = some t' → P t') :
    P (finalState (add caller sessionId entryId text runAtMs nowMs db)).entries := by
  refine transaction_keeps ?_ h
  refine .checked fun _ => ?_
  refine .checked fun textBytes => ?_
  refine .checked fun _ => ?_
  refine .after (readOnly_resolveOwnership sessionId) fun ownership => ?_
  refine .after (readOnly_addGate caller ownership) fun _ => ?_
  refine .seq (leads_checkCapacityIn sessionId nowMs _) fun _ => ?_
  refine .seq (leads_adoptAbsent caller sessionId nowMs ownership fun t => P t ∧
    t.affected (·.isLiveAt sessionId nowMs) < maxPending ∧
    t.affected (·.ownedBy sessionId) < maxRetainedPerSession) fun _ => ?_
  refine .after .get fun s => ?_
  refine .effect ?_ fun record => .keep (.pure _)
  cases s.entries.get? entryId with
  | some existing => exact (Leads.keep (readOnly_liftExcept _)).weaken fun _ hs => hs.1
  | none =>
    refine .effect ?_ fun _ => .keep (.pure _)
    refine .withState fun s' hs' => leads_storeEntries fun entries hins => ?_
    exact hinsert hs'.1 rfl hs'.2.1 hs'.2.2 hins

theorem retained_after (db : QueueDatabase) (op : Operation) (h : Retained db.entries) :
    Retained (after db op).entries := by
  have hmoved := moved_after db op
  cases op with
  | add caller sessionId entryId text runAtMs nowMs =>
    rw [after, perform, finalState_map]
    refine add_keeps h caller sessionId entryId text runAtMs nowMs ?_
    intro t t' row ht hsession _ hroom hins
    exact ht.insert (hsession ▸ hroom) hins
  | _ => exact h.of_subset (sessionIds_subset_of_moved hmoved)

/-- The databases the store can get to. -/
def Reachable (db : QueueDatabase) : Prop := ∃ ops, db = run .empty ops

theorem Reachable.retained {db : QueueDatabase} (h : Reachable db) : Retained db.entries := by
  obtain ⟨ops, rfl⟩ := h
  induction ops using List.reverseRecOn with
  | nil => exact fun _ => Nat.zero_le _
  | append_singleton ops op ih =>
    rw [run_snoc]
    exact retained_after _ op ih

end Codegg.PromptQueue
