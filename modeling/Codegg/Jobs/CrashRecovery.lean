import Codegg.Jobs.Lifecycle

/-!
# Crash recovery

What one call of `recover_generation` does to each record. It ends the live attempts of
other generations and settles the jobs they belong to, one decision a job, and touches
nothing else. In a consistent store those are all the running jobs that the current
generation does not work on, so there is nothing left for a second call.
-/
namespace Codegg.Jobs.InMemoryJobStore

open Codegg.Library

/-- An attempt that recovery ends. -/
def interruptedRecord (attempt : JobAttempt) (now : Timestamp) : JobAttempt :=
  { attempt with state := .interrupted, completedAt := some now, updatedAt := now }

/-- What recovery makes of a job whose attempt it ended. -/
def recoveredRecord (policy : RecoveryPolicy) (now : Timestamp) (job : JobRecord) : JobRecord :=
  if job.wantsRequeue policy now ∧
      (job.state = .interrupted ∨ .interrupted ∈ jobStateTransitions job.state) then
    requeuedRecord job now
  else if job.cancelRequestedAt.isSome then
    if .cancelled ∈ jobStateTransitions job.state then settledRecord job .cancelled now else job
  else if .failed ∈ jobStateTransitions job.state then settledRecord job .failed now
  else job

/-- The jobs that have a live attempt of another generation. -/
def Stale (s : Inner) (current : DaemonGeneration) (id : JobId) : Prop :=
  ∃ a r, s.attempts.get? a = some r ∧ r.jobId = id ∧ r.daemonGeneration ≠ current ∧
    r.state.isTerminal = false

variable {s : Inner} {current : DaemonGeneration} {policy : RecoveryPolicy} {now : Timestamp}
  {K : Set AttemptId}

/-! ### The two sweeps -/

@[simp] theorem jobs_interruptAttempt (r : Recovering) (a : AttemptId) :
    (interruptAttempt now r a).store.jobs = r.store.jobs := by
  unfold interruptAttempt
  cases r.store.attempts.get? a <;> rfl

theorem attempts_interruptAttempt (r : Recovering) (a b : AttemptId) :
    (interruptAttempt now r a).store.attempts.get? b =
      if b = a then (r.store.attempts.get? a).map (interruptedRecord · now)
      else r.store.attempts.get? b := by
  unfold interruptAttempt
  cases ha : r.store.attempts.get? a with
  | none =>
    by_cases hb : b = a
    · simp [hb, ha]
    · simp [hb]
  | some x => simp [interruptedRecord]

theorem mem_touched_interruptAttempt (r : Recovering) (a : AttemptId) (id : JobId) :
    id ∈ (interruptAttempt now r a).touched ↔
      id ∈ r.touched ∨ ∃ x, r.store.attempts.get? a = some x ∧ x.jobId = id := by
  unfold interruptAttempt
  cases ha : r.store.attempts.get? a with
  | none => simp
  | some x =>
    by_cases hx : x.jobId ∈ r.touched
    · simp only [if_pos hx, Option.some.injEq, exists_eq_left']
      constructor
      · exact .inl
      · rintro (hid | rfl)
        · exact hid
        · exact hx
    · simp [hx, eq_comm]

theorem foldl_interruptAttempt_spec (now : Timestamp) (ids : List AttemptId) (r : Recovering)
    (hnodup : ids.Nodup) :
    (ids.foldl (interruptAttempt now) r).store.jobs = r.store.jobs ∧
      (∀ b, (ids.foldl (interruptAttempt now) r).store.attempts.get? b =
        if b ∈ ids then (r.store.attempts.get? b).map (interruptedRecord · now)
        else r.store.attempts.get? b) ∧
      ∀ id, id ∈ (ids.foldl (interruptAttempt now) r).touched ↔
        id ∈ r.touched ∨ ∃ a ∈ ids, ∃ x, r.store.attempts.get? a = some x ∧ x.jobId = id := by
  induction ids generalizing r with
  | nil => simp
  | cons a ids ih =>
    obtain ⟨ha, hrest⟩ := List.nodup_cons.mp hnodup
    obtain ⟨hjobs, hattempts, htouched⟩ := ih (interruptAttempt now r a) hrest
    -- the other attempts are still as they were
    have hother : ∀ b ∈ ids, (interruptAttempt now r a).store.attempts.get? b =
        r.store.attempts.get? b := by
      intro b hb
      have hne : b ≠ a := by
        rintro rfl
        exact ha hb
      rw [attempts_interruptAttempt, if_neg hne]
    refine ⟨by simpa using hjobs, fun b => ?_, fun id => ?_⟩
    · rw [List.foldl_cons, hattempts]
      by_cases hb : b ∈ ids
      · simp [hb, hother b hb]
      · rw [if_neg hb, attempts_interruptAttempt]
        by_cases hba : b = a <;> simp [hba, hb]
    · rw [List.foldl_cons, htouched, mem_touched_interruptAttempt, or_assoc]
      refine or_congr_right ?_
      simp only [List.mem_cons, exists_eq_or_imp]
      refine or_congr_right (exists_congr fun b => and_congr_right fun hb => ?_)
      rw [hother b hb]

@[simp] theorem attempts_recoverJob (r : Requeuing) (id : JobId) :
    (recoverJob policy now r id).store.attempts = r.store.attempts := by
  unfold recoverJob
  cases r.store.jobs.get? id with
  | none => rfl
  | some job =>
    dsimp only
    split
    · split <;> rfl
    · split
      · split <;> rfl
      · split <;> rfl

theorem jobs_recoverJob (r : Requeuing) (id id' : JobId) :
    (recoverJob policy now r id).store.jobs.get? id' =
      if id' = id then (r.store.jobs.get? id).map (recoveredRecord policy now)
      else r.store.jobs.get? id' := by
  have hsame : ∀ job, r.store.jobs.get? id = some job →
      r.store.jobs.get? id' = if id' = id then some job else r.store.jobs.get? id' := by
    intro job hjob
    by_cases hid : id' = id
    · rw [if_pos hid, hid, hjob]
    · rw [if_neg hid]
  unfold recoverJob recoveredRecord
  cases hjob : r.store.jobs.get? id with
  | none =>
    by_cases hid : id' = id
    · simp [hid, hjob]
    · simp [hid]
  | some job =>
    dsimp only [Option.map_some]
    split
    · split
      · simp
      · by_cases hid : id' = id <;> simp [hid]
    · split
      · split
        · simp
        · exact hsame job hjob
      · split
        · simp
        · exact hsame job hjob

theorem foldl_recoverJob_spec (policy : RecoveryPolicy) (now : Timestamp) (ids : List JobId)
    (r : Requeuing) (hnodup : ids.Nodup) :
    (ids.foldl (recoverJob policy now) r).store.attempts = r.store.attempts ∧
      ∀ id, (ids.foldl (recoverJob policy now) r).store.jobs.get? id =
        if id ∈ ids then (r.store.jobs.get? id).map (recoveredRecord policy now)
        else r.store.jobs.get? id := by
  induction ids generalizing r with
  | nil => simp
  | cons i ids ih =>
    obtain ⟨hi, hrest⟩ := List.nodup_cons.mp hnodup
    obtain ⟨hattempts, hjobs⟩ := ih (recoverJob policy now r i) hrest
    refine ⟨by simpa using hattempts, fun id => ?_⟩
    rw [List.foldl_cons, hjobs, jobs_recoverJob]
    by_cases hid : id = i
    · subst hid
      simp [hi]
    · simp [hid]

/-! ### One call -/

/-- The store after a call. -/
def recovered (s : Inner) (current : DaemonGeneration) (policy : RecoveryPolicy)
    (now : Timestamp) : Inner :=
  finalState (recoverGeneration current policy now s)

theorem attempts_recovered (h : s.Consistent K ∅) (a : AttemptId) :
    (recovered s current policy now).attempts.get? a =
      if a ∈ staleAttempts s current then (s.attempts.get? a).map (interruptedRecord · now)
      else s.attempts.get? a := by
  have hnodup := staleAttempts_nodup s current
  obtain ⟨htouched, -⟩ := foldl_interruptAttempt (K := K) now (staleAttempts s current)
    ⟨s, [], 0⟩ hnodup List.nodup_nil
    (fun a ha => by
      obtain ⟨x, hx, -, hlive⟩ := mem_staleAttempts.mp ha
      exact ⟨x, hx, hlive⟩)
    (by simpa using h)
  obtain ⟨-, hattempts, -⟩ := foldl_interruptAttempt_spec now (staleAttempts s current)
    ⟨s, [], 0⟩ hnodup
  obtain ⟨hkept, -⟩ := foldl_recoverJob_spec policy now _
    ⟨((staleAttempts s current).foldl (interruptAttempt now) ⟨s, [], 0⟩).store, 0, 0⟩ htouched
  show (List.foldl (recoverJob policy now) _ _).store.attempts.get? a = _
  rw [hkept]
  exact hattempts a

/-- A job is decided anew if it is stale, and is as it was otherwise. -/
theorem jobs_recovered (h : s.Consistent K ∅) (policy : RecoveryPolicy) (now : Timestamp)
    (id : JobId) :
    (Stale s current id ∧ (recovered s current policy now).jobs.get? id =
      (s.jobs.get? id).map (recoveredRecord policy now)) ∨
    (¬ Stale s current id ∧ (recovered s current policy now).jobs.get? id = s.jobs.get? id) := by
  have hnodup := staleAttempts_nodup s current
  obtain ⟨htouched, -⟩ := foldl_interruptAttempt (K := K) now (staleAttempts s current)
    ⟨s, [], 0⟩ hnodup List.nodup_nil
    (fun a ha => by
      obtain ⟨x, hx, -, hlive⟩ := mem_staleAttempts.mp ha
      exact ⟨x, hx, hlive⟩)
    (by simpa using h)
  obtain ⟨hjobs, -, hmem⟩ := foldl_interruptAttempt_spec now (staleAttempts s current)
    ⟨s, [], 0⟩ hnodup
  obtain ⟨-, hdecided⟩ := foldl_recoverJob_spec policy now _
    ⟨((staleAttempts s current).foldl (interruptAttempt now) ⟨s, [], 0⟩).store, 0, 0⟩ htouched
  have hstale : id ∈ ((staleAttempts s current).foldl (interruptAttempt now) ⟨s, [], 0⟩).touched ↔
      Stale s current id := by
    rw [hmem]
    simp only [List.not_mem_nil, false_or, mem_staleAttempts]
    constructor
    · rintro ⟨a, ⟨x, hx, hgen, hlive⟩, y, hy, hid⟩
      obtain rfl : x = y := Option.some.inj (hx.symm.trans hy)
      exact ⟨a, x, hx, hid, hgen, hlive⟩
    · rintro ⟨a, x, hx, hid, hgen, hlive⟩
      exact ⟨a, ⟨x, hx, hgen, hlive⟩, x, hx, hid⟩
  have hget := hdecided id
  rw [hjobs] at hget
  by_cases hs : Stale s current id
  · exact .inl ⟨hs, hget.trans (if_pos (hstale.mpr hs))⟩
  · exact .inr ⟨hs, hget.trans (if_neg fun ht => hs (hstale.mp ht))⟩

theorem consistent_recovered (h : s.Consistent K ∅) :
    (recovered s current policy now).Consistent K ∅ :=
  (recoverGeneration_keeps current policy now).finalState h

/-- A live attempt after the call is one of the current generation. -/
theorem generation_of_live (h : s.Consistent K ∅) {a : AttemptId} {r : JobAttempt}
    (ha : (recovered s current policy now).attempts.get? a = some r)
    (hlive : r.state.isTerminal = false) : r.daemonGeneration = current := by
  rw [attempts_recovered h] at ha
  split at ha
  · obtain ⟨x, -, rfl⟩ := Option.map_eq_some_iff.mp ha
    cases hlive
  · rename_i hstale
    by_contra hgen
    exact hstale (mem_staleAttempts.mpr ⟨r, ha, hgen, hlive⟩)

theorem staleAttempts_eq_nil
    (h : ∀ a r, s.attempts.get? a = some r → r.state.isTerminal = false →
      r.daemonGeneration = current) : staleAttempts s current = [] := by
  refine List.eq_nil_iff_forall_not_mem.mpr fun a ha => ?_
  obtain ⟨x, hx, hgen, hlive⟩ := mem_staleAttempts.mp ha
  exact hgen (h a x hx hlive)

theorem recovered_of_none_stale (h : staleAttempts s current = []) :
    recovered s current policy now = s := by
  show (List.foldl (recoverJob policy now) ⟨_, 0, 0⟩
    ((staleAttempts s current).foldl (interruptAttempt now) ⟨s, [], 0⟩).touched).store = s
  rw [h]
  rfl

/-- A job is only queued by recovery when the policy and the budget allow it. -/
theorem recoveredRecord_queued {job : JobRecord} (hidle : job.state ≠ .queued)
    (h : (recoveredRecord policy now job).state = .queued) : job.wantsRequeue policy now = true := by
  unfold recoveredRecord at h
  split at h
  · rename_i hwants
    exact hwants.1
  · split at h
    · split at h
      · cases h
      · exact absurd h hidle
    · split at h
      · cases h
      · exact absurd h hidle

theorem wantsRequeue_eq_true {job : JobRecord} :
    job.wantsRequeue policy now = true ↔
      policy.requeues job.idempotency = true ∧ job.cancelRequestedAt = none ∧
        (job.attemptCount < job.retryPolicy.maxAttempts ∨
          job.kind = .toolProgram ∧ job.idempotency.isRetryEligible = true ∧
            ∃ deadline, job.deadline = some deadline ∧ now < deadline) := by
  unfold JobRecord.wantsRequeue
  cases job.deadline <;> simp [and_assoc]

/-- What holds after recovery for a generation. -/
structure Recovered (current : DaemonGeneration) (policy : RecoveryPolicy) (now : Timestamp)
    (s s' : Inner) : Prop where
  /-- no attempt of another generation is live -/
  ended : ∀ a r, s'.attempts.get? a = some r → r.daemonGeneration ≠ current →
    r.state.isTerminal = true
  /-- a running job has a live attempt of this generation -/
  running : ∀ id job, s'.jobs.get? id = some job → job.state = .running →
    ∃ a r, s'.attempts.get? a = some r ∧ r.jobId = id ∧ r.daemonGeneration = current ∧
      r.state.isTerminal = false
  /-- no job is lost and none is added -/
  jobs : ∀ id, s'.jobs.get? id = none ↔ s.jobs.get? id = none
  /-- a job that is queued again was not to be cancelled, is of a class that the policy
  requeues, and has an attempt left or is a resumable tool program -/
  requeued : ∀ id job job', s.jobs.get? id = some job → s'.jobs.get? id = some job' →
    job.state ≠ .queued → job'.state = .queued →
      job.cancelRequestedAt = none ∧ policy.requeues job.idempotency = true ∧
        (job.attemptCount < job.retryPolicy.maxAttempts ∨
          job.kind = .toolProgram ∧ job.idempotency.isRetryEligible = true ∧
            ∃ deadline, job.deadline = some deadline ∧ now < deadline)
  /-- a job without a stale attempt is unchanged -/
  unchanged : ∀ id, ¬ Stale s current id → s'.jobs.get? id = s.jobs.get? id
  /-- a second call changes nothing -/
  again : ∀ policy' now', recovered s' current policy' now' = s'

theorem recovered_of_consistent (h : s.Consistent K ∅) (current : DaemonGeneration)
    (policy : RecoveryPolicy) (now : Timestamp) :
    Recovered current policy now s (recovered s current policy now) where
  ended a r ha hgen := by
    by_contra hlive
    exact hgen (generation_of_live h ha (by simpa using hlive))
  running id job hjob hrun := by
    obtain ⟨a, r, -, ha, hid, hlive⟩ :=
      (consistent_recovered h).staffed.running hjob hrun (Set.notMem_empty id)
    exact ⟨a, r, ha, hid, generation_of_live h ha hlive, hlive⟩
  jobs id := by
    rcases jobs_recovered h policy now id with ⟨-, hget⟩ | ⟨-, hget⟩
    · rw [hget, Option.map_eq_none_iff]
    · rw [hget]
  requeued id job job' hjob hjob' hidle hqueued := by
    rcases jobs_recovered h policy now id with ⟨-, hget⟩ | ⟨-, hget⟩
    · rw [hget, hjob] at hjob'
      obtain rfl : recoveredRecord policy now job = job' := Option.some.inj hjob'
      obtain ⟨hpolicy, hcancel, hbudget⟩ :=
        wantsRequeue_eq_true.mp (recoveredRecord_queued hidle hqueued)
      exact ⟨hcancel, hpolicy, hbudget⟩
    · rw [hget, hjob] at hjob'
      obtain rfl : job = job' := Option.some.inj hjob'
      exact absurd hqueued hidle
  unchanged id hstale := by
    rcases jobs_recovered h policy now id with ⟨hs, -⟩ | ⟨-, hget⟩
    · exact absurd hs hstale
    · exact hget
  again policy' now' :=
    recovered_of_none_stale (staleAttempts_eq_nil fun _ _ ha hlive => generation_of_live h ha hlive)

/-- Recovery is right in every store reached from the empty one, when no attempt id is
drawn twice. -/
theorem run_recovered (jsonLen : ExecutionSubjectProvenance → ℕ) (ops : List Operation)
    (hdistinct : (ops.filterMap Operation.freshAttempt).Nodup) (current : DaemonGeneration)
    (policy : RecoveryPolicy) (now : Timestamp) :
    Recovered current policy now (run jsonLen Inner.empty ops)
      (recovered (run jsonLen Inner.empty ops) current policy now) := by
  obtain ⟨K, hK⟩ := run_consistent jsonLen Inner.consistent_empty hdistinct
    fun a _ => Set.notMem_empty a
  exact recovered_of_consistent hK current policy now

/-- A job is running when its daemon stops. -/
def crashedRun : List Operation :=
  [.createJob sampleSpec "job" 0, .beginAttempt "job" "g1" "first" 1, .markAttemptRunning "first" 2]

theorem run_recovered_crashedRun :
    Stale (run (fun _ => 0) Inner.empty crashedRun) "g2" "job" ∧
      Recovered "g2" {} 3 (run (fun _ => 0) Inner.empty crashedRun)
        (recovered (run (fun _ => 0) Inner.empty crashedRun) "g2" {} 3) := by
  refine ⟨⟨"first", _, rfl, rfl, by decide, rfl⟩, ?_⟩
  exact run_recovered (fun _ => 0) crashedRun (by decide) "g2" {} 3

end Codegg.Jobs.InMemoryJobStore
