import Codegg.WriterPermit.Exclusion

/-!
# Requests that are repeated

The record that an acquisition or the begin of a release answers with is the row that a load
finds next, and so is that of a completed release unless it hands the permit over: then the
answer keeps the key and the fingerprint of the permit before. A request is told from another
by its key, its checkout and the fingerprint of its scope, which leaves the operation out.
-/
namespace Codegg.WriterPermit

open Codegg.Library CompleteReleaseWriterPermit

variable {now : ℤ} {token w : String} {t t' : Table} {record : WriterPermitRecord}

/-- Only a parked permit has a reason to be parked. -/
def Unparked (row : Option WriterPermitRecord) : Prop :=
  ∀ r, row = some r → r.state ≠ .quarantined → r.quarantine = none

theorem Move.unparked {step : Step} {row row' : Option WriterPermitRecord}
    (h : Move step row row') (hunparked : Unparked row) : Unparked row' := by
  intro r' hr' hstate
  cases h with
  | same => exact hunparked r' hr' hstate
  | begin request hcall r hheld howner =>
    cases hr'
    exact hunparked r rfl (by simp [hheld])
  | park r hparked reason detail =>
    cases hr'
    exact absurd rfl hstate
  | transfer request hcall successor htransfer hproven r hreleasing howner =>
    cases hr'
    exact hunparked r rfl (by simp [hreleasing])
  | _ => cases hr'; rfl

theorem unparked_rowAfter (steps : List Step) (w : String) : Unparked (rowAfter steps w) := by
  induction steps using List.reverseRecOn with
  | nil =>
    intro r hr
    simp [rowAfter, SortedMap.get?_empty] at hr
  | append_singleton steps step ih => exact (rowAfter_concat steps step w).unparked ih

/-! ### The records that are returned -/

/-- The row that an acquisition answers with is held under its key and fingerprint. -/
theorem acquire_row {request : AcquireWriterPermit}
    (h : acquire now token t request = .ok (record, t')) :
    t'.get? request.scope.worktreeId = some record ∧
      (record.state = .held ∨ record.state = .releasing) ∧
      record.idempotencyKey = some request.idempotencyKey ∧
      record.requestFingerprint = some request.scope.fingerprint := by
  obtain ⟨-, ⟨rfl, hretry⟩ | ⟨expected, h⟩⟩ := acquire_ok h
  · exact hretry
  · obtain ⟨revision, rfl, rfl, -⟩ := acquireFree_ok h
    exact ⟨get?_insert_self .., .inl rfl, rfl, rfl⟩

theorem acquire_again {request : AcquireWriterPermit}
    (h : acquire now token t request = .ok (record, t')) (now' : ℤ) (token' : String) :
    acquire now' token' t' request = .ok (record, t') := by
  have hvalid := (acquire_ok h).1
  obtain ⟨hrow, hlive, hkey, hfingerprint⟩ := acquire_row h
  unfold acquire
  rcases hlive with hlive | hlive <;> simp [hvalid, hrow, hlive, hkey, hfingerprint]

/-- Somebody holds the checkout under the key of the request, with another fingerprint. -/
def AcquireWriterPermit.clashes (request : AcquireWriterPermit) (row : Option WriterPermitRecord) :
    Prop :=
  ∃ r, row = some r ∧ (r.state = .held ∨ r.state = .releasing) ∧
    r.idempotencyKey = some request.idempotencyKey ∧
    r.requestFingerprint ≠ some request.scope.fingerprint

theorem acquireFree_ne_conflict {request : AcquireWriterPermit} {expected : Option ℕ} :
    acquireFree now token t request expected ≠ .error .idempotencyConflict := by
  intro h
  simp only [acquireFree] at h
  split at h
  · cases h
  split at h
  · rename_i hupdate
    cases h
    unfold Table.update at hupdate
    split at hupdate
    · cases hupdate
    · split_ifs at hupdate; cases hupdate
  split at h
  · cases h
  split at h
  · rename_i hinsert
    cases h
    unfold Table.insertRow at hinsert
    split at hinsert
    · split at hinsert
      · cases hinsert
      · split_ifs at hinsert; cases hinsert
    · cases hinsert
  · split at h <;> cases h

theorem acquire_eq_conflict_iff {request : AcquireWriterPermit} :
    acquire now token t request = .error .idempotencyConflict ↔
      request.valid = true ∧ request.clashes (t.get? request.scope.worktreeId) := by
  unfold acquire AcquireWriterPermit.clashes
  cases hvalid : request.valid with
  | false => simp
  | true =>
    cases hrow : t.get? request.scope.worktreeId with
    | none => simpa using acquireFree_ne_conflict
    | some row =>
      cases hstate : row.state with
      | available => simpa [hstate] using acquireFree_ne_conflict
      | quarantined => simp [hstate]
      | held | releasing =>
        simp only [Bool.not_true, Bool.false_eq_true, if_false, Option.some.injEq,
          exists_eq_left', hstate]
        split_ifs <;> simp_all

/-- The release does not hand the permit over, or the row has the key and the fingerprint of the
transfer already. -/
def CompleteReleaseWriterPermit.keepsIdentity (request : CompleteReleaseWriterPermit)
    (row : Option WriterPermitRecord) : Prop :=
  ∀ r transfer, row = some r → request.transfer = some transfer → request.evidence.isProven = true →
    r.idempotencyKey = some transfer.idempotencyKey ∧
      r.requestFingerprint = some transfer.fingerprint

theorem completeRelease_row {request : CompleteReleaseWriterPermit}
    (hunparked : Unparked (t.get? request.worktreeId))
    (h : completeRelease now token t request = .ok (record, t')) :
    t'.get? request.worktreeId = some record ↔ request.keepsIdentity (t.get? request.worktreeId) := by
  obtain ⟨r, r', hr, -, hstate, hreleased, rfl⟩ := completeRelease_ok h
  have hnone := hunparked r hr (by simp [hstate])
  rw [get?_insert_self, hr]
  cases hreleased with
  | parked reason detail hunproven => simp [keepsIdentity, hunproven]
  | transferred transfer htransfer hproven =>
    simp [keepsIdentity, htransfer, hproven, WriterPermitTransfer.apply,
      eq_comm]
  | freed htransfer hproven =>
    simp [keepsIdentity, htransfer, hnone, WriterPermitRecord.freed]

/-! ### Every reachable table -/

/-- In every reachable table an acquisition and the begin of a release answer with the row, and an
acquisition is repeated. A completed release answers with the row exactly if it keeps the key and the
fingerprint, and another request with the key conflicts exactly if its checkout is held under the key
with another fingerprint. -/
theorem requests_idempotent_iff (steps : List Step) (now : ℤ) (token : String) :
    (∀ request record t', acquire now token (run steps) request = .ok (record, t') →
      t'.get? request.scope.worktreeId = some record ∧
      (∀ now' token', acquire now' token' t' request = .ok (record, t')) ∧
      ∀ now' token' retry, retry.idempotencyKey = request.idempotencyKey →
        (acquire now' token' t' retry = .error .idempotencyConflict ↔ retry.valid = true ∧
          if retry.scope.worktreeId = request.scope.worktreeId then
            retry.scope.fingerprint ≠ request.scope.fingerprint
          else retry.clashes (t'.get? retry.scope.worktreeId))) ∧
    (∀ request record t', beginRelease now (run steps) request = .ok (record, t') →
      t'.get? request.worktreeId = some record) ∧
    ∀ request record t', completeRelease now token (run steps) request = .ok (record, t') →
      (t'.get? request.worktreeId = some record ↔
        request.keepsIdentity ((run steps).get? request.worktreeId)) := by
  refine ⟨fun request record t' h => ?_, fun request record t' h => ?_, fun request _ _ =>
    completeRelease_row (unparked_rowAfter steps request.worktreeId)⟩
  · obtain ⟨hrow, hlive, hkey, hfingerprint⟩ := acquire_row h
    refine ⟨hrow, acquire_again h, fun now' token' retry hsame => ?_⟩
    rw [acquire_eq_conflict_iff]
    split_ifs with hworktree
    · rw [hworktree, hrow]
      simp [AcquireWriterPermit.clashes, hlive, hkey, hfingerprint, hsame,
        eq_comm (a := request.scope.fingerprint)]
    · rfl
  · obtain ⟨r, -, -, -, -, rfl⟩ := beginRelease_ok h
    exact get?_insert_self ..

/-- The record of a permit that was handed over has the key of the permit before. -/
theorem transfer_keeps_old_key :
    ¬∀ (steps : List Step) (now : ℤ) (token : String) (request : CompleteReleaseWriterPermit)
      (record : WriterPermitRecord) (t' : Table),
      completeRelease now token (run steps) request = .ok (record, t') →
        t'.get? request.worktreeId = some record := by
  intro h
  have hkeys : (completeRelease 30 "token-3" (run (sampleSteps.take 2))
      ⟨"worktree", "token-1", 2, 1, .settled,
        some ⟨"bob", none, none, none, .processSpawn, "key-2", none⟩⟩).map
      (fun r => (r.1.idempotencyKey, (r.2.get? "worktree").bind (·.idempotencyKey))) =
      .ok (some "key-1", some "key-2") := by decide +kernel
  obtain ⟨⟨record, t'⟩, hcomplete, hsame⟩ := map_ok hkeys
  have hrow := h _ _ _ _ _ _ hcomplete
  simp [hrow] at hsame
  simp [← hsame.1] at hsame

end Codegg.WriterPermit
