import Codegg.WriterPermit.Moves

/-!
# Writer permits exclude each other

Whatever the order of the transactions, only the token of the row's owner is accepted, and a
token that the row has lost never comes back. The revision grows with every change of a row,
a held permit is only released or parked, and a permit becomes available only on proven
evidence, with nothing left of its owner.
-/
namespace Codegg.WriterPermit

open Codegg.Library

variable {step : Step} {row row' : Option WriterPermitRecord} {r r' : WriterPermitRecord}

/-! ### One move -/

/-- The token of the owner of a row. -/
def ownerToken (row : Option WriterPermitRecord) : Option String :=
  (row.bind (·.owner)).map (·.token)

theorem ownedBy_iff {token : String} : r.ownedBy token = true ↔ ownerToken (some r) = some token := by
  unfold WriterPermitRecord.ownedBy ownerToken
  cases h : r.owner <;> simp [h]

/-- The owner stays, goes, or is new. -/
theorem Move.ownerToken (h : Move step row row') :
    ownerToken row' = ownerToken row ∨ ownerToken row' = none ∨
      ownerToken row' = some step.token := by
  cases h with
  | same => exact .inl rfl
  | grantNew request hcall => exact .inr (.inr rfl)
  | grant request hcall r hstate => exact .inr (.inr rfl)
  | begin request hcall r hstate howner => exact .inl rfl
  | park r hstate reason detail => exact .inl rfl
  | transfer request hcall successor htransfer hproven r hstate howner => exact .inr (.inr rfl)
  | free request hcall htransfer hproven r hstate howner => exact .inr (.inl rfl)
  | operatorFree request hcall hproven r hstate => exact .inr (.inl rfl)

/-- A row stays, and has a higher revision unless it is unchanged. -/
theorem Move.revision (h : Move step (some r) row') :
    ∃ r', row' = some r' ∧ (r' = r ∨ r.revision < r'.revision) := by
  cases h with
  | same => exact ⟨r, rfl, .inl rfl⟩
  | grant request hcall r hstate => exact ⟨_, rfl, .inr (Nat.lt_succ_self _)⟩
  | begin request hcall r hstate howner => exact ⟨_, rfl, .inr (Nat.lt_succ_self _)⟩
  | park r hstate reason detail => exact ⟨_, rfl, .inr (Nat.lt_succ_self _)⟩
  | transfer request hcall successor htransfer hproven r hstate howner =>
    exact ⟨_, rfl, .inr (Nat.lt_succ_self _)⟩
  | free request hcall htransfer hproven r hstate howner =>
    exact ⟨_, rfl, .inr (Nat.lt_succ_self _)⟩
  | operatorFree request hcall hproven r hstate => exact ⟨_, rfl, .inr (Nat.lt_succ_self _)⟩

/-- A held permit that changes is being released or parked. -/
theorem Move.of_held (h : Move step (some r) (some r')) (hstate : r.state = .held) :
    r' = r ∨ r'.state = .releasing ∨ r'.state = .quarantined := by
  cases h with
  | same => exact .inl rfl
  | grant request hcall r hfree => simp [hstate] at hfree
  | begin request hcall r hheld howner => exact .inr (.inl rfl)
  | park r hparked reason detail => exact .inr (.inr rfl)
  | transfer request hcall successor htransfer hproven r hreleasing howner =>
    simp [hstate] at hreleasing
  | free request hcall htransfer hproven r hreleasing howner => simp [hstate] at hreleasing
  | operatorFree request hcall hproven r hparked => simp [hstate] at hparked

/-- What made a permit available. -/
inductive FreedBy (step : Step) (r : WriterPermitRecord) : Prop
  | release (request : CompleteReleaseWriterPermit) (hcall : step.call = .completeRelease request)
      (hstate : r.state = .releasing) (howner : r.ownedBy request.ownerToken = true)
      (hproven : request.evidence.isProven = true)
  | operator (request : OperatorReleaseWriterPermit) (hcall : step.call = .operatorRelease request)
      (hstate : r.state = .quarantined) (hproven : request.evidence.isProven = true)

theorem Move.of_available (h : Move step row (some r')) (hstate : r'.state = .available) :
    row = some r' ∨ ∃ r, row = some r ∧ FreedBy step r := by
  cases h with
  | same => exact .inl rfl
  | grantNew request hcall => cases hstate
  | grant request hcall r hfree => cases hstate
  | begin request hcall r hheld howner => cases hstate
  | park r hparked reason detail => cases hstate
  | transfer request hcall successor htransfer hproven r hreleasing howner => cases hstate
  | free request hcall htransfer hproven r hreleasing howner =>
    exact .inr ⟨r, rfl, .release request hcall hreleasing howner hproven⟩
  | operatorFree request hcall hproven r hparked =>
    exact .inr ⟨r, rfl, .operator request hcall hparked hproven⟩

/-- Nothing is left of an owner. -/
structure Vacant (r : WriterPermitRecord) : Prop where
  owner : r.owner = none
  quarantine : r.quarantine = none
  idempotencyKey : r.idempotencyKey = none

/-- An available permit is vacant. -/
def Tidy (row : Option WriterPermitRecord) : Prop :=
  ∀ r, row = some r → r.state = .available → Vacant r

theorem Move.tidy (h : Move step row row') (htidy : Tidy row) : Tidy row' := by
  intro r' hr' hstate
  cases h with
  | same => exact htidy r' hr' hstate
  | free request hcall htransfer hproven r hreleasing howner =>
    cases hr'
    exact ⟨rfl, rfl, rfl⟩
  | operatorFree request hcall hproven r hparked =>
    cases hr'
    exact ⟨rfl, rfl, rfl⟩
  | _ => cases hr'; cases hstate

/-! ### Runs -/

section Runs

variable {w token : String}

@[simp] theorem run_nil : run [] = SortedMap.empty := rfl

theorem run_concat (steps : List Step) (step : Step) :
    run (steps ++ [step]) = step.next (run steps) := by
  simp [run]

/-- The row of a checkout after a run. -/
def rowAfter (steps : List Step) (w : String) : Option WriterPermitRecord := (run steps).get? w

theorem rowAfter_concat (steps : List Step) (step : Step) (w : String) :
    Move step (rowAfter steps w) (rowAfter (steps ++ [step]) w) := by
  rw [rowAfter, rowAfter, run_concat]
  exact next_moves step _ w

theorem tidy_rowAfter (steps : List Step) (w : String) : Tidy (rowAfter steps w) := by
  induction steps using List.reverseRecOn with
  | nil =>
    intro r hr
    simp [rowAfter, SortedMap.get?_empty] at hr
  | append_singleton steps step ih => exact (rowAfter_concat steps step w).tidy ih

/-- A token in a row was minted by one of the transactions. -/
theorem mem_tokens_of_ownerToken {steps : List Step}
    (h : ownerToken (rowAfter steps w) = some token) : token ∈ steps.map (·.token) := by
  induction steps using List.reverseRecOn with
  | nil => simp [rowAfter, ownerToken, SortedMap.get?_empty] at h
  | append_singleton steps step ih =>
    rw [List.map_append, List.mem_append]
    rcases (rowAfter_concat steps step w).ownerToken with hkept | hnone | hnew
    · exact .inl (ih (hkept ▸ h))
    · rw [hnone] at h
      cases h
    · rw [hnew] at h
      cases h
      exact .inr (by simp)

/-- A token that the row does not have comes back only when it is minted again. -/
theorem ownerToken_ne_of_not_mem {before after : List Step}
    (h : ownerToken (rowAfter before w) ≠ some token)
    (hfresh : token ∉ after.map (·.token)) :
    ownerToken (rowAfter (before ++ after) w) ≠ some token := by
  induction after using List.reverseRecOn with
  | nil => simpa using h
  | append_singleton after step ih =>
    rw [List.map_append, List.mem_append, not_or] at hfresh
    have hbefore := ih hfresh.1
    rw [← List.append_assoc]
    rcases (rowAfter_concat (before ++ after) step w).ownerToken with hkept | hnone | hnew
    · rwa [hkept]
    · rw [hnone]
      exact Option.some_ne_none token |>.symm
    · rw [hnew]
      intro heq
      exact hfresh.2 (by simpa using (Option.some.inj heq).symm)

/-- Some request that presents the token for the checkout would succeed. -/
def Accepts (t : Table) (w token : String) : Prop :=
  ∃ (step : Step) (records : List WriterPermitRecord) (t' : Table),
    step.call.presents = some (w, token) ∧ step.perform t = .ok (records, t')

theorem Accepts.ownerToken {steps : List Step} (h : Accepts (run steps) w token) :
    ownerToken (rowAfter steps w) = some token := by
  obtain ⟨step, records, t', hpresents, hperform⟩ := h
  obtain ⟨r, hr, howner⟩ := (perform_moves hperform).2 w token hpresents
  rw [rowAfter, hr]
  exact ownedBy_iff.mp howner

end Runs

/-- What holds along a run of transactions. -/
structure Exclusive (steps : List Step) : Prop where
  /-- At most one token is accepted for a checkout at any time. -/
  one_token : ∀ before after, steps = before ++ after → ∀ w token token',
    Accepts (run before) w token → Accepts (run before) w token' → token = token'
  /-- A token that was accepted and lost its row is never accepted again. -/
  superseded : ∀ before middle after, steps = before ++ middle ++ after → ∀ w token,
    Accepts (run before) w token → ownerToken (rowAfter (before ++ middle) w) ≠ some token →
      ¬ Accepts (run (before ++ middle ++ after)) w token
  /-- A row stays, and every change of it increases its revision. -/
  revision : ∀ before step after, steps = before ++ step :: after → ∀ w r,
    rowAfter before w = some r →
      ∃ r', rowAfter (before ++ [step]) w = some r' ∧ (r' = r ∨ r.revision < r'.revision)
  /-- A held permit is left only for releasing or quarantined. -/
  held_left : ∀ before step after, steps = before ++ step :: after → ∀ w r r',
    rowAfter before w = some r → r.state = .held → rowAfter (before ++ [step]) w = some r' →
      r' = r ∨ r'.state = .releasing ∨ r'.state = .quarantined
  /-- A permit becomes available only on proven evidence. -/
  available_entered : ∀ before step after, steps = before ++ step :: after → ∀ w r',
    rowAfter (before ++ [step]) w = some r' → r'.state = .available →
      rowAfter before w = some r' ∨ ∃ r, rowAfter before w = some r ∧ FreedBy step r
  /-- An available permit is vacant. -/
  available_vacant : ∀ before after, steps = before ++ after → ∀ w r,
    rowAfter before w = some r → r.state = .available → Vacant r

/-- Every run whose transactions mint distinct tokens keeps writers apart. -/
theorem writerPermits_exclusive (steps : List Step) (hfresh : (steps.map (·.token)).Nodup) :
    Exclusive steps where
  one_token := by
    intro before after _ w token token' h h'
    exact Option.some.inj (h.ownerToken.symm.trans h'.ownerToken)
  superseded := by
    intro before middle after heq w token haccepted hlost haccepted'
    have hminted := mem_tokens_of_ownerToken haccepted.ownerToken
    -- the token was minted before, so it is not minted after
    have hafter : token ∉ after.map (·.token) := by
      intro hmem
      rw [heq, List.append_assoc, List.map_append, List.map_append] at hfresh
      exact (List.disjoint_of_nodup_append hfresh) hminted (List.mem_append_right _ hmem)
    exact ownerToken_ne_of_not_mem hlost hafter haccepted'.ownerToken
  revision := by
    intro before step after _ w r hr
    have hmove := rowAfter_concat before step w
    rw [hr] at hmove
    exact hmove.revision
  held_left := by
    intro before step after _ w r r' hr hstate hr'
    have hmove := rowAfter_concat before step w
    rw [hr, hr'] at hmove
    exact hmove.of_held hstate
  available_entered := by
    intro before step after _ w r' hr' hstate
    have hmove := rowAfter_concat before step w
    rw [hr'] at hmove
    exact hmove.of_available hstate
  available_vacant := by
    intro before after _ w r hr hstate
    exact tidy_rowAfter before w r hr hstate

/-! ### A permit that is handed over -/

def sampleScope : WriterPermitScope where
  projectId := "project"
  repositoryId := none
  workspaceId := "workspace"
  worktreeId := "worktree"
  leaseGeneration := 1
  groupId := none
  principalId := "alice"
  agentRunId := none
  attemptId := none

/-- Alice acquires the permit, begins to release it and hands it to Bob; a reconciliation
parks it. -/
def sampleSteps : List Step :=
  [⟨.acquire ⟨sampleScope, .nativeFileWrite, "key-1", none⟩, 10, "token-1", true⟩,
    ⟨.beginRelease ⟨"worktree", "token-1", 1, 1⟩, 20, "token-2", true⟩,
    ⟨.completeRelease ⟨"worktree", "token-1", 2, 1, .settled,
      some ⟨"bob", none, none, none, .processSpawn, "key-2", none⟩⟩, 30, "token-3", true⟩,
    ⟨.reconcileAfterRestart, 40, "token-4", true⟩]

theorem sampleSteps_exclusive :
    Exclusive sampleSteps ∧ ownerToken (rowAfter (sampleSteps.take 2) "worktree") = some "token-1" ∧
      ownerToken (rowAfter sampleSteps "worktree") = some "token-3" :=
  ⟨writerPermits_exclusive sampleSteps (by decide), by decide +kernel, by decide +kernel⟩

/-! ### Capacity -/

section Capacity

variable {t : Table} {w projectId : String}

/-- The checkouts of a project whose permit somebody holds. -/
def heldIn (t : Table) (projectId : String) : Finset String :=
  ((t.toList.filter fun b => b.2.projectId = projectId && b.2.state.holdsOwner).map Prod.fst).toFinset

theorem mem_heldIn : w ∈ heldIn t projectId ↔
    ∃ r, t.get? w = some r ∧ r.projectId = projectId ∧ r.state.holdsOwner = true := by
  simp [heldIn, SortedMap.mem_toList_iff]

theorem card_heldIn : (heldIn t projectId).card = t.live projectId := by
  rw [heldIn, List.toFinset_card_of_nodup (t.keys_nodup.sublist (List.filter_sublist.map _)),
    List.length_map, ← List.countP_eq_length_filter, Table.live, SortedMap.values, List.countP_map]
  rfl

/-- Only an acquisition makes a permit held that was not, and it does so below the capacity. -/
theorem acquireFree_below {now : ℤ} {token : String} {request : AcquireWriterPermit}
    {expected : Option ℕ} {result : WriterPermitRecord × Table}
    (h : acquireFree now token t request expected = .ok result) :
    t.live request.scope.projectId < maxWriterPermitsPerProject := by
  simp only [acquireFree] at h
  split at h
  · cases h
  · omega

theorem Move.counted (h : Move step row row') (hcall : ∀ request, step.call ≠ .acquire request)
    (hr' : r' ∈ row') (hheld : r'.state.holdsOwner = true) :
    ∃ r ∈ row, r.projectId = r'.projectId ∧ r.state.holdsOwner = true := by
  cases h with
  | same => exact ⟨r', hr', rfl, hheld⟩
  | grantNew request hacquire => exact absurd hacquire (hcall request)
  | grant request hacquire => exact absurd hacquire (hcall request)
  | begin request _ r hstate =>
    cases hr'
    exact ⟨r, rfl, rfl, by rw [hstate]; rfl⟩
  | transfer request _ successor _ _ r hstate =>
    cases hr'
    exact ⟨r, rfl, rfl, by rw [hstate]; rfl⟩
  | _ => cases hr'; cases hheld

theorem live_acquire_le {now : ℤ} {token : String} {request : AcquireWriterPermit}
    {record : WriterPermitRecord} {t' : Table} (h : t.live projectId ≤ maxWriterPermitsPerProject)
    (hacquire : acquire now token t request = .ok (record, t')) :
    t'.live projectId ≤ maxWriterPermitsPerProject := by
  obtain ⟨-, ⟨rfl, -⟩ | ⟨expected, hfree⟩⟩ := acquire_ok hacquire
  · exact h
  obtain ⟨revision, rfl, rfl, -⟩ := acquireFree_ok hfree
  have hbelow := acquireFree_below hfree
  rw [← card_heldIn] at h hbelow ⊢
  by_cases hp : request.scope.projectId = projectId
  · subst hp
    have hsub : heldIn (t.insert request.scope.worktreeId (.granted now token request revision))
        request.scope.projectId ⊆
          insert request.scope.worktreeId (heldIn t request.scope.projectId) := by
      intro w hw
      rw [mem_heldIn, SortedMap.get?_insert] at hw
      split_ifs at hw with hself
      · simp [hself]
      · exact Finset.mem_insert_of_mem (mem_heldIn.mpr hw)
    exact (Finset.card_le_card hsub).trans ((Finset.card_insert_le _ _).trans hbelow)
  · refine (Finset.card_le_card fun w hw => ?_).trans h
    rw [mem_heldIn, SortedMap.get?_insert] at hw
    split_ifs at hw
    · obtain ⟨r, ⟨⟩, hproject, -⟩ := hw
      exact absurd hproject hp
    · exact mem_heldIn.mpr hw

theorem live_next_le (h : t.live projectId ≤ maxWriterPermitsPerProject) (step : Step) :
    (step.next t).live projectId ≤ maxWriterPermitsPerProject := by
  unfold Step.next
  cases hperform : step.perform t with
  | error e => exact h
  | ok result =>
    by_cases hcall : ∃ request, step.call = .acquire request
    · obtain ⟨request, hcall⟩ := hcall
      simp only [Step.perform, hcall] at hperform
      split at hperform
      · obtain ⟨⟨record, t'⟩, hacquire, rfl⟩ := map_ok hperform
        exact live_acquire_le h hacquire
      · cases hperform
    · rw [← card_heldIn] at h ⊢
      refine (Finset.card_le_card fun w hw => ?_).trans h
      obtain ⟨r', hr', hproject, hheld⟩ := mem_heldIn.mp hw
      obtain ⟨r, hr, hsame, hheld⟩ :=
        ((perform_moves hperform).1 w).counted (not_exists.mp hcall) hr' hheld
      exact mem_heldIn.mpr ⟨r, hr, hsame.trans hproject, hheld⟩

/-- After any transactions no project holds more permits than it may. -/
theorem live_run_le (steps : List Step) (projectId : String) :
    (run steps).live projectId ≤ maxWriterPermitsPerProject := by
  induction steps using List.reverseRecOn with
  | nil => exact Nat.zero_le _
  | append_singleton steps step ih =>
    rw [run_concat]
    exact live_next_le ih step

end Capacity

end Codegg.WriterPermit
