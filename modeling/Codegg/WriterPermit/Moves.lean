import Codegg.WriterPermit.Store

/-!
# What a transaction can do to a row

Every transaction does to the row of each checkout one of seven things: nothing, or it grants
the permit, begins to release it, parks it, hands it to a successor, frees it on the owner's
evidence or frees it on an operator's.
-/
namespace Codegg.WriterPermit

open Codegg.Library QuiescenceEvidence

/-- What a transaction does to the row of a checkout. -/
inductive Move (step : Step) : Option WriterPermitRecord → Option WriterPermitRecord → Prop
  | same (row : Option WriterPermitRecord) : Move step row row
  | grantNew (request : AcquireWriterPermit) (hcall : step.call = .acquire request) :
      Move step none (some (.granted step.now step.token request 0))
  | grant (request : AcquireWriterPermit) (hcall : step.call = .acquire request)
      (r : WriterPermitRecord) (hstate : r.state = .available) :
      Move step (some r) (some (.granted step.now step.token request r.revision))
  | begin (request : BeginReleaseWriterPermit) (hcall : step.call = .beginRelease request)
      (r : WriterPermitRecord) (hstate : r.state = .held)
      (howner : r.ownedBy request.ownerToken = true) :
      Move step (some r) (some (r.begun step.now))
  | park (r : WriterPermitRecord) (hstate : r.state ≠ .quarantined)
      (reason : WriterPermitQuarantineReason) (detail : String) :
      Move step (some r) (some (r.parked step.now reason detail))
  | transfer (request : CompleteReleaseWriterPermit)
      (hcall : step.call = .completeRelease request) (successor : WriterPermitTransfer)
      (htransfer : request.transfer = some successor)
      (hproven : request.evidence.isProven = true) (r : WriterPermitRecord)
      (hstate : r.state = .releasing) (howner : r.ownedBy request.ownerToken = true) :
      Move step (some r) (some (successor.apply step.now step.token r))
  | free (request : CompleteReleaseWriterPermit)
      (hcall : step.call = .completeRelease request) (htransfer : request.transfer = none)
      (hproven : request.evidence.isProven = true) (r : WriterPermitRecord)
      (hstate : r.state = .releasing) (howner : r.ownedBy request.ownerToken = true) :
      Move step (some r) (some (r.freed step.now))
  | operatorFree (request : OperatorReleaseWriterPermit)
      (hcall : step.call = .operatorRelease request)
      (hproven : request.evidence.isProven = true) (r : WriterPermitRecord)
      (hstate : r.state = .quarantined) :
      Move step (some r) (some (r.freed step.now))

/-- A transaction that moves every row. -/
def Moves (step : Step) (t t' : Table) : Prop := ∀ w, Move step (t.get? w) (t'.get? w)

variable {step : Step} {t t' : Table} {w : String}

theorem Moves.refl (t : Table) : Moves step t t := fun _ => .same _

/-- A change of one row moves every row when it moves that one. -/
theorem Moves.insert {r' : WriterPermitRecord} (h : Move step (t.get? w) (some r')) :
    Moves step t (t.insert w r') := by
  intro w'
  rw [SortedMap.get?_insert]
  split
  · rename_i hw
    rwa [hw]
  · exact .same _

theorem get?_insert_self (t : Table) (w : String) (r : WriterPermitRecord) :
    SortedMap.get? (t.insert w r) w = some r := by
  rw [SortedMap.get?_insert, if_pos rfl]

/-! ### Statements -/

theorem update_ok {guard : WriterPermitRecord → Bool}
    {set : WriterPermitRecord → WriterPermitRecord} {n : ℕ}
    (h : t.update w guard set = .ok (n, t')) :
    (n = 0 ∧ t' = t ∧ ∀ r, t.get? w = some r → guard r = false) ∨
      (n = 1 ∧ ∃ r, t.get? w = some r ∧ guard r = true ∧ t' = t.insert w (set r)) := by
  unfold Table.update at h
  split at h
  · rename_i hnone
    cases h
    exact .inl ⟨rfl, rfl, by simp [hnone]⟩
  · rename_i r hr
    split at h
    · rename_i hguard
      split at h
      · cases h
        exact .inr ⟨rfl, r, hr, hguard, rfl⟩
      · cases h
    · rename_i hguard
      cases h
      refine .inl ⟨rfl, rfl, fun r' hr' => ?_⟩
      rw [hr] at hr'
      cases hr'
      simpa using hguard

/-- The token is the one of the row's owner. -/
def Owns (t : Table) (w token : String) : Prop :=
  ∃ r, t.get? w = some r ∧ r.ownedBy token = true

variable {record : WriterPermitRecord} {now : ℤ} {token : String}

theorem updateOne_ok {guard : WriterPermitRecord → Bool}
    {set : WriterPermitRecord → WriterPermitRecord} {record' r : WriterPermitRecord}
    (hr : t.get? w = some r) (h : t.updateOne w guard set record = .ok (record', t')) :
    guard r = true ∧ record' = record ∧ t' = t.insert w (set r) := by
  unfold Table.updateOne at h
  split at h
  · cases h
  rename_i affected t₁ hupdate
  split at h
  · cases h
  rename_i hone
  cases h
  obtain ⟨hzero, -⟩ | ⟨-, r', hr', hguard, rfl⟩ := update_ok hupdate
  · exact absurd (by omega) hone
  · cases hr.symm.trans hr'
    exact ⟨hguard, rfl, rfl⟩

/-! ### Operations -/

/-- A free permit is granted, with the revision after that of its row. -/
theorem acquireFree_ok {request : AcquireWriterPermit} {expected : Option ℕ}
    (h : acquireFree now token t request expected = .ok (record, t')) :
    ∃ revision, record = .granted now token request revision ∧
      t' = t.insert request.scope.worktreeId record ∧
      (t.get? request.scope.worktreeId = none ∧ revision = 0 ∨
        ∃ r, t.get? request.scope.worktreeId = some r ∧ r.state = .available ∧
          revision = r.revision) := by
  simp only [acquireFree] at h
  split at h
  · cases h
  split at h
  · cases h
  rename_i affected t₁ hupdate
  split at h
  · cases h
  split at h
  · cases h
  rename_i t₂ hinsert
  split at h
  · cases h
  rename_i row hrow
  cases h
  rcases update_ok hupdate with ⟨rfl, rfl, -⟩ | ⟨rfl, r, hr, hguard, rfl⟩
  · -- nothing was updated, so the row is new
    rw [if_pos rfl] at hinsert
    unfold Table.insertRow at hinsert
    split at hinsert
    · cases hinsert
    rename_i hnone
    split at hinsert
    · cases hinsert
      cases hrow.symm.trans (get?_insert_self ..)
      exact ⟨0, rfl, rfl, .inl ⟨hnone, rfl⟩⟩
    · cases hinsert
  · cases hinsert
    cases hrow.symm.trans (get?_insert_self ..)
    simp only [Bool.and_eq_true, decide_eq_true_eq] at hguard
    exact ⟨r.revision, rfl, rfl, .inr ⟨r, hr, hguard.1, rfl⟩⟩

/-- The permit is held already by the same request, or it is granted. -/
theorem acquire_ok {request : AcquireWriterPermit}
    (h : acquire now token t request = .ok (record, t')) :
    request.valid = true ∧
      (t' = t ∧ t.get? request.scope.worktreeId = some record ∧
          (record.state = .held ∨ record.state = .releasing) ∧
          record.idempotencyKey = some request.idempotencyKey ∧
          record.requestFingerprint = some request.scope.fingerprint ∨
        ∃ expected, acquireFree now token t request expected = .ok (record, t')) := by
  unfold acquire at h
  split at h
  · cases h
  rename_i hvalid
  refine ⟨by simpa using hvalid, ?_⟩
  split at h
  · exact .inr ⟨none, h⟩
  rename_i row hrow
  split at h
  · cases h
  case h_4 => exact .inr ⟨_, h⟩
  all_goals
    rename_i hstate
    split_ifs at h with hkey hfingerprint
    cases h
    exact .inl ⟨rfl, hrow, by simp [hstate], hkey, hfingerprint⟩

theorem acquire_moves {request : AcquireWriterPermit} (hcall : step.call = .acquire request)
    (h : acquire step.now step.token t request = .ok (record, t')) : Moves step t t' := by
  obtain ⟨-, ⟨rfl, -⟩ | ⟨expected, h⟩⟩ := acquire_ok h
  · exact .refl t'
  · obtain ⟨revision, rfl, rfl, ⟨hnone, rfl⟩ | ⟨r, hr, hstate, rfl⟩⟩ := acquireFree_ok h
    · exact .insert (hnone ▸ .grantNew request hcall)
    · exact .insert (hr ▸ .grant request hcall r hstate)

theorem beginRelease_ok {request : BeginReleaseWriterPermit}
    (h : beginRelease now t request = .ok (record, t')) :
    ∃ r, t.get? request.worktreeId = some r ∧ r.ownedBy request.ownerToken = true ∧
      r.state = .held ∧ record = r.begun now ∧ t' = t.insert request.worktreeId record := by
  unfold beginRelease at h
  split at h
  · cases h
  rename_i r hr
  split_ifs at h with howner hrevision hstate
  obtain ⟨-, rfl, rfl⟩ := updateOne_ok hr h
  exact ⟨r, hr, by simpa using howner, by simpa using hstate, rfl, rfl⟩

theorem beginRelease_moves {request : BeginReleaseWriterPermit}
    (hcall : step.call = .beginRelease request)
    (h : beginRelease step.now t request = .ok (record, t')) :
    Moves step t t' ∧ Owns t request.worktreeId request.ownerToken := by
  obtain ⟨r, hr, howner, hstate, rfl, rfl⟩ := beginRelease_ok h
  exact ⟨.insert (hr ▸ .begin request hcall r hstate howner), r, hr, howner⟩

/-- What a completed release writes, and the record that it answers with. -/
inductive Released (now : ℤ) (token : String) (request : CompleteReleaseWriterPermit)
    (r : WriterPermitRecord) : WriterPermitRecord → WriterPermitRecord → Prop
  | parked (reason : WriterPermitQuarantineReason) (detail : String)
      (hunproven : request.evidence.isProven = false) :
      Released now token request r (r.parked now reason detail) (r.parked now reason detail)
  | transferred (transfer : WriterPermitTransfer) (htransfer : request.transfer = some transfer)
      (hproven : request.evidence.isProven = true) :
      Released now token request r
        { transfer.apply now token r with
          idempotencyKey := r.idempotencyKey
          requestFingerprint := r.requestFingerprint }
        (transfer.apply now token r)
  | freed (htransfer : request.transfer = none) (hproven : request.evidence.isProven = true) :
      Released now token request r { r.freed now with quarantine := r.quarantine } (r.freed now)

theorem completeRelease_ok {request : CompleteReleaseWriterPermit}
    (h : completeRelease now token t request = .ok (record, t')) :
    ∃ r r', t.get? request.worktreeId = some r ∧ r.ownedBy request.ownerToken = true ∧
      r.state = .releasing ∧ Released now token request r record r' ∧
      t' = t.insert request.worktreeId r' := by
  simp only [completeRelease] at h
  split at h
  · cases h
  rename_i r hr
  split_ifs at h with howner hrevision hstate
  have howned : r.ownedBy request.ownerToken = true := by simpa using howner
  have hreleasing : r.state = .releasing := by simpa using hstate
  split at h
  · rename_i reason hreason
    obtain ⟨-, rfl, rfl⟩ := updateOne_ok hr h
    refine ⟨r, _, hr, howned, hreleasing, .parked _ _ ?_, rfl⟩
    cases hevidence : request.evidence <;> simp_all [unprovenReason,
      isProven]
  rename_i hevidence
  have hproven := isProven_of_unprovenReason hevidence
  split at h
  · rename_i transfer htransfer
    split_ifs at h
    obtain ⟨-, rfl, rfl⟩ := updateOne_ok hr h
    exact ⟨r, _, hr, howned, hreleasing, .transferred transfer htransfer hproven, rfl⟩
  · rename_i htransfer
    obtain ⟨-, rfl, rfl⟩ := updateOne_ok hr h
    exact ⟨r, _, hr, howned, hreleasing, .freed htransfer hproven, rfl⟩

theorem completeRelease_moves {request : CompleteReleaseWriterPermit}
    (hcall : step.call = .completeRelease request)
    (h : completeRelease step.now step.token t request = .ok (record, t')) :
    Moves step t t' ∧ Owns t request.worktreeId request.ownerToken := by
  obtain ⟨r, r', hr, howner, hstate, hreleased, rfl⟩ := completeRelease_ok h
  refine ⟨.insert (hr ▸ ?_), r, hr, howner⟩
  cases hreleased with
  | parked reason detail hunproven => exact .park r (by simp [hstate]) reason detail
  | transferred transfer htransfer hproven =>
    exact .transfer request hcall transfer htransfer hproven r hstate howner
  | freed htransfer hproven => exact .free request hcall htransfer hproven r hstate howner

theorem quarantine_moves {request : QuarantineWriterPermit}
    (h : quarantine step.now t request = .ok (record, t')) :
    Moves step t t' ∧ ∀ token, request.ownerToken = some token →
      Owns t request.worktreeId token := by
  simp only [quarantine] at h
  split at h
  · cases h
  rename_i r hr
  split_ifs at h with howner hrevision hstate
  all_goals refine ⟨?_, fun token htoken => ⟨r, hr, by simpa [htoken] using howner⟩⟩
  · cases h
    exact .refl t
  · obtain ⟨-, -, rfl⟩ := updateOne_ok hr h
    exact .insert (hr ▸ .park r hstate _ _)

theorem operatorRelease_moves {request : OperatorReleaseWriterPermit}
    (hcall : step.call = .operatorRelease request)
    (h : operatorRelease step.now t request = .ok (record, t')) : Moves step t t' := by
  unfold operatorRelease at h
  split at h
  · cases h
  rename_i hevidence
  have hproven := isProven_of_unprovenReason hevidence
  split at h
  · cases h
  rename_i r hr
  split_ifs at h with hrevision hstate
  obtain ⟨-, -, rfl⟩ := updateOne_ok hr h
  exact Moves.insert (hr ▸ .operatorFree request hcall hproven r (by simpa using hstate))

/-- A row after the loop of a reconciliation: as it was, or parked if it was live. -/
def Reconciled (now : ℤ) (row row' : Option WriterPermitRecord) : Prop :=
  row' = row ∨ ∃ r, row = some r ∧ r.state.holdsOwner = true ∧ row' = some (r.orphaned now)

theorem reconcileRows_reconciled {now : ℤ} {rows records : List WriterPermitRecord} {t t' : Table}
    (h : reconcileRows now rows t = .ok (records, t')) (w : String) :
    Reconciled now (t.get? w) (t'.get? w) := by
  induction rows generalizing t records with
  | nil =>
    cases h
    exact .inl rfl
  | cons row rows ih =>
    simp only [reconcileRows] at h
    split at h
    · cases h
    rename_i affected t₁ hupdate
    split at h
    · cases h
    rename_i records' t₂ hrest
    cases h
    have hlater := ih hrest
    rcases update_ok hupdate with ⟨-, rfl, -⟩ | ⟨-, r, hr, hguard, rfl⟩
    · exact hlater
    · simp only [Bool.and_eq_true] at hguard
      rw [SortedMap.get?_insert] at hlater
      split at hlater
      · -- the row is parked, and the loop leaves it so
        rename_i hw
        subst hw
        rcases hlater with hsame | ⟨r', hr', hlive, -⟩
        · exact .inr ⟨r, hr, hguard.2, hsame⟩
        · cases hr'
          simp [WriterPermitRecord.orphaned, WriterPermitRecord.parked,
            WriterPermitState.holdsOwner] at hlive
      · exact hlater

theorem Reconciled.move {row row' : Option WriterPermitRecord}
    (h : Reconciled step.now row row') : Move step row row' := by
  rcases h with rfl | ⟨r, rfl, hlive, rfl⟩
  · exact .same _
  · refine .park r ?_ _ _
    intro hstate
    simp [hstate, WriterPermitState.holdsOwner] at hlive

/-- The checkout and the token that a call presents as its owner's. -/
def Call.presents : Call → Option (String × String)
  | .beginRelease request => some (request.worktreeId, request.ownerToken)
  | .completeRelease request => some (request.worktreeId, request.ownerToken)
  | .quarantine request => request.ownerToken.map fun token => (request.worktreeId, token)
  | .acquire _ | .operatorRelease _ | .reconcileAfterRestart => none

theorem map_ok {α β : Type} {x : Except WriterPermitError α} {f : α → β} {b : β}
    (h : x.map f = .ok b) : ∃ a, x = .ok a ∧ b = f a := by
  cases x with
  | error e => cases h
  | ok a =>
    cases h
    exact ⟨a, rfl, rfl⟩

/-- What a transaction that succeeds does, and what it presented. -/
theorem perform_moves {records : List WriterPermitRecord}
    (h : step.perform t = .ok (records, t')) :
    Moves step t t' ∧ ∀ w token, step.call.presents = some (w, token) → Owns t w token := by
  simp only [Step.perform] at h
  split at h
  · cases hcall : step.call with
    | acquire request =>
      rw [hcall] at h
      obtain ⟨⟨record, t₁⟩, hop, heq⟩ := map_ok h
      cases heq
      exact ⟨acquire_moves hcall hop, by simp [Call.presents]⟩
    | beginRelease request =>
      rw [hcall] at h
      obtain ⟨⟨record, t₁⟩, hop, heq⟩ := map_ok h
      cases heq
      obtain ⟨hmoves, howner⟩ := beginRelease_moves hcall hop
      refine ⟨hmoves, fun w token hpresents => ?_⟩
      cases hpresents
      exact howner
    | completeRelease request =>
      rw [hcall] at h
      obtain ⟨⟨record, t₁⟩, hop, heq⟩ := map_ok h
      cases heq
      obtain ⟨hmoves, howner⟩ := completeRelease_moves hcall hop
      refine ⟨hmoves, fun w token hpresents => ?_⟩
      cases hpresents
      exact howner
    | quarantine request =>
      rw [hcall] at h
      obtain ⟨⟨record, t₁⟩, hop, heq⟩ := map_ok h
      cases heq
      have hparks : Moves step t t₁ ∧ _ := quarantine_moves hop
      refine ⟨hparks.1, fun w token hpresents => ?_⟩
      obtain ⟨token', htoken, heq⟩ := Option.map_eq_some_iff.mp hpresents
      cases heq
      exact hparks.2 token htoken
    | operatorRelease request =>
      rw [hcall] at h
      obtain ⟨⟨record, t₁⟩, hop, heq⟩ := map_ok h
      cases heq
      exact ⟨operatorRelease_moves hcall hop, by simp [Call.presents]⟩
    | reconcileAfterRestart =>
      rw [hcall] at h
      exact ⟨fun w => (reconcileRows_reconciled h w).move, by simp [Call.presents]⟩
  · cases h

/-- Every transaction, committed or rolled back, moves every row. -/
theorem next_moves (step : Step) (t : Table) : Moves step t (step.next t) := by
  unfold Step.next
  split
  · rename_i h
    exact (perform_moves h).1
  · exact .refl t

end Codegg.WriterPermit
