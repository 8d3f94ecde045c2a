import Codegg.Jobs.Lifecycle

/-!
# What a failed operation leaves behind

Every operation of the in-memory store makes its checks before its first write, but
for two. The second check of `retry_job` cannot fail. The one of `finish_attempt`
fails exactly if the reported state is not terminal, and then the attempt has been
written already.
-/
namespace Codegg.Jobs.InMemoryJobStore

open Codegg.Library

/-! ### Leaving the store as it was -/

/-- A failure leaves the store as it was, unless it is the panic of a counter. -/
def Untouched (s : Inner) (e : JobStoreError) (s' : Inner) : Prop := e = .overflow ∨ s' = s

/-- From the store `s`, every failure leaves it untouched. -/
def FailsClean {α : Type} (s : Inner) (x : StoreM α) : Prop :=
  Triple (· = s) x (fun _ _ => True) (Untouched s)

variable {P : Inner → Prop} {s : Inner}

section Clean

variable {s : Inner} {α : Type}

theorem untouched_of_eq (hP : ∀ s', P s' → s' = s) :
    ∀ e s', P s' → Untouched s e s' :=
  fun _ s' h => .inr (hP s' h)

/-- A write does not fail. -/
theorem write (f : Inner → Inner) :
    Triple P (modifyThe Inner f : StoreM PUnit) (fun _ _ => True) (Untouched s) :=
  .modify fun _ _ => trivial

theorem write_then_pure (f : Inner → Inner) (a : α) :
    Triple P ((modifyThe Inner f : StoreM PUnit) >>= fun _ => pure a) (fun _ _ => True)
      (Untouched s) :=
  .bind (write f) fun _ => .pure fun _ h => h

theorem FailsClean.map {β : Type} {x : StoreM α} (h : FailsClean s x) (f : α → β) :
    FailsClean s (f <$> x) := by
  rintro s' rfl
  cases hr : (f <$> x) s' with
  | ok b s'' => trivial
  | error e s'' => exact h.of_error rfl (map_eq_error.mp hr)

theorem findJob_clean (hP : ∀ s', P s' → s' = s) (id : JobId) :
    Triple P (findJob id) (fun job s' => P s' ∧ s'.jobs.get? id = some job) (Untouched s) :=
  findJob_spec id (untouched_of_eq hP)

theorem findAttempt_clean (hP : ∀ s', P s' → s' = s) (id : AttemptId) :
    Triple P (findAttempt id) (fun attempt s' => P s' ∧ s'.attempts.get? id = some attempt)
      (Untouched s) :=
  findAttempt_spec id (untouched_of_eq hP)

end Clean

/-! ### The operations that check first -/

section Operations

variable {s : Inner}

theorem setJobLabels_clean (id : JobId) (labels : List (String × String)) :
    FailsClean s (setJobLabels id labels) :=
  .bind (findJob_clean (fun _ h => h) id) fun _ => write_then_pure _ _

theorem enqueue_clean (id : JobId) (now : Timestamp) : FailsClean s (enqueue id now) :=
  .bind (findJob_clean (fun _ h => h) id) fun _ =>
    .bind (validateStateTransition_spec (untouched_of_eq fun _ h => h.1)) fun _ =>
    write_then_pure _ _

theorem blockJob_clean (id : JobId) (now : Timestamp) : FailsClean s (blockJob id now) :=
  .bind (findJob_clean (fun _ h => h) id) fun _ =>
    .bind (validateStateTransition_spec (untouched_of_eq fun _ h => h.1)) fun _ =>
    write_then_pure _ _

theorem beginAttempt_clean (id : JobId) (generation : DaemonGeneration) (fresh : AttemptId)
    (now : Timestamp) : FailsClean s (beginAttempt id generation fresh now) := by
  refine .bind (findJob_clean (fun _ h => h) id) fun job =>
    .bind (failIf_spec (untouched_of_eq fun _ h => h.1)) fun _ =>
    .bind (failIf_spec (untouched_of_eq fun _ h => h.1.1)) fun _ =>
    .bind (validateStateTransition_spec (untouched_of_eq fun _ h => h.1.1.1)) fun _ =>
    .bind (failIf_spec (untouched_of_eq fun _ h => h.1.1.1.1)) fun _ => ?_
  exact .bind (write _) fun _ => .bind (write _) fun _ => write_then_pure _ _

theorem markAttemptRunning_clean (id : AttemptId) (now : Timestamp) :
    FailsClean s (markAttemptRunning id now) := by
  refine .bind (findAttempt_clean (fun _ h => h) id) fun attempt => ?_
  split
  · exact .pure fun _ _ => trivial
  · exact .bind (validateAttemptTransition_spec (untouched_of_eq fun _ h => h.1)) fun _ =>
      write _

theorem setAttemptExecutor_clean (id : AttemptId) (executor : String) (now : Timestamp) :
    FailsClean s (setAttemptExecutor id executor now) :=
  .bind (findAttempt_clean (fun _ h => h) id) fun _ => write _

theorem setAttemptRemoteHandle_clean (id : AttemptId) (handle : Option RemoteExecutionHandle)
    (now : Timestamp) : FailsClean s (setAttemptRemoteHandle id handle now) :=
  .bind (findAttempt_clean (fun _ h => h) id) fun _ => write _

theorem setAttemptSourceSubjectStarted_clean (jsonLen : ExecutionSubjectProvenance → ℕ)
    (id : AttemptId) (provenance : ExecutionSubjectProvenance) (now : Timestamp) :
    FailsClean s (setAttemptSourceSubjectStarted jsonLen id provenance now) :=
  .bind (failIf_spec (untouched_of_eq fun _ h => h)) fun _ =>
    .bind (findAttempt_clean (fun _ h => h.1) id) fun _ =>
    .bind (failIf_spec (untouched_of_eq fun _ h => h.1.1)) fun _ => write _

theorem sealAttemptSourceSubject_clean (id : AttemptId) (provenance : ExecutionSubjectProvenance)
    (now : Timestamp) : FailsClean s (sealAttemptSourceSubject id provenance now) := by
  refine .bind (failIf_spec (untouched_of_eq fun _ h => h)) fun _ =>
    .bind (findAttempt_clean (fun _ h => h.1) id) fun attempt => ?_
  cases attempt.sourceSubject with
  | none => exact .throw fun s' h => .inr h.1.1
  | some started =>
    exact .bind (failIf_spec (untouched_of_eq fun _ h => h.1.1)) fun _ => write _

theorem recordHeartbeat_clean (id : AttemptId) (at' : Timestamp) :
    FailsClean s (recordHeartbeat id at') :=
  .bind (findAttempt_clean (fun _ h => h) id) fun _ =>
    .bind (failIf_spec (untouched_of_eq fun _ h => h.1)) fun _ => write _

theorem requestCancel_clean (id : JobId) (reason : CancelReason) (now : Timestamp) :
    FailsClean s (requestCancel id reason now) := by
  refine .bind (findJob_clean (fun _ h => h) id) fun job => ?_
  cases job.state with
  | scheduled | queued | blocked =>
    exact .bind (validateStateTransition_spec (untouched_of_eq fun _ h => h.1)) fun _ =>
      write_then_pure _ _
  | running => exact write_then_pure _ _
  | completed | failed | cancelled | timedOut | expired | interrupted =>
    exact .pure fun _ _ => trivial

theorem createJob_clean (spec : NewJob) (fresh : JobId) (now : Timestamp) :
    FailsClean s (createJob spec fresh now) := by
  rintro s' rfl
  cases hjob : s'.jobs.get? (newJobId fresh spec.source) with
  | some existing =>
    rw [createJob_existing hjob]
    trivial
  | none =>
    rw [createJob_new hjob]
    trivial

/-- After its own check and write, `retry_job` starts an attempt of a queued job, which no
check refuses. -/
theorem retryJob_clean (id : JobId) (generation : DaemonGeneration) (prior fresh : AttemptId)
    (now : Timestamp) : FailsClean s (retryJob id generation prior fresh now) := by
  refine .bind (findJob_clean (fun _ h => h) id) fun job =>
    .bind (findAttempt_clean (fun _ h => h.1) prior) fun attempt =>
    .bind (failIf_spec (untouched_of_eq fun _ h => h.1.1)) fun _ =>
    .bind (failIf_spec (untouched_of_eq fun _ h => h.1.1.1)) fun _ =>
    .bind (failIf_spec (untouched_of_eq fun _ h => h.1.1.1.1)) fun _ =>
    .bind (failIf_spec (untouched_of_eq fun _ h => h.1.1.1.1.1)) fun _ =>
    .bind (validateStateTransition_spec (untouched_of_eq fun _ h => h.1.1.1.1.1.1)) fun _ =>
    .bind (putJob_spec (Q := fun s' => ∃ queued, s'.jobs.get? id = some queued ∧
      queued.state = .queued) fun s' _ =>
      ⟨{ job with state := .queued, updatedAt := now }, by simp, rfl⟩) fun _ => ?_
  rintro s' ⟨queued, hqueued, hstate⟩
  have hfind : findJob id s' = .ok queued s' := by
    unfold findJob
    rw [get_bind, hqueued]
    rfl
  unfold beginAttempt
  rw [bind_of_ok hfind, hstate]
  by_cases hover : 2 ^ 32 ≤ queued.attemptCount + 1
  · rw [failIf, failIf, failIf, if_pos hover]
    exact .inl rfl
  · rw [failIf, failIf, failIf, if_neg hover]
    trivial

end Operations

/-! ### Finishing an attempt -/

variable {K : Set AttemptId}

/-- The attempt may be moved to the reported state, but that state ends no attempt. -/
def HalfFinishes (s : Inner) (completion : AttemptCompletion) : Prop :=
  ∃ attempt, s.attempts.get? completion.attemptId = some attempt ∧
    completion.state ∈ attemptStateTransitions attempt.state ∧ completion.state.isTerminal = false

/-- A live attempt is of a running job, so that the second check cannot fail for a
terminal state. -/
theorem finishAttempt_clean (h : s.Consistent K ∅) {completion : AttemptCompletion}
    (hhalf : ¬HalfFinishes s completion) (now : Timestamp) :
    FailsClean s (finishAttempt completion now) := by
  refine .bind (findAttempt_clean (fun _ hs => hs) _) fun attempt =>
    .bind (validateAttemptTransition_spec (untouched_of_eq fun _ hs => hs.1)) fun _ =>
    .bind (findJob_clean (fun _ hs => hs.1.1) _) fun job => ?_
  rintro s' ⟨⟨⟨rfl, ha⟩, hedge⟩, hjob⟩
  have hterm : completion.state.isTerminal = true := by
    by_contra hnot
    exact hhalf ⟨attempt, ha, hedge, by simpa using hnot⟩
  obtain ⟨-, job', hjob', hrun, -⟩ :=
    h.staffed.live ha (AttemptState.not_terminal_of_edge hedge)
  obtain rfl : job = job' := Option.some.inj (hjob.symm.trans hjob')
  obtain ⟨hok, -⟩ := jobState_of_terminal hterm job.state
  have hput : putAttempt completion.attemptId (finishedAttempt attempt completion now) s' =
      .ok () (s'.insertAttempt completion.attemptId (finishedAttempt attempt completion now)) := rfl
  rw [bind_of_ok hput]
  rw [bind_of_ok (validateStateTransition_of_edge (hrun ▸ hok) _ _)]
  trivial

/-- Otherwise the attempt is written and the operation fails. -/
theorem finishAttempt_half (h : s.Consistent K ∅) {completion : AttemptCompletion}
    (hhalf : HalfFinishes s completion) (now : Timestamp) :
    ∃ e s', finishAttempt completion now s = .error e s' ∧ e ≠ .overflow ∧
      s'.attempts ≠ s.attempts := by
  obtain ⟨attempt, ha, hedge, hlive⟩ := hhalf
  obtain ⟨-, job, hjob, hrun, -⟩ :=
    h.staffed.live ha (AttemptState.not_terminal_of_edge hedge)
  have hfindAttempt : findAttempt completion.attemptId s = .ok attempt s := by
    unfold findAttempt
    rw [get_bind, ha]
    rfl
  have hfindJob : findJob attempt.jobId s = .ok job s := by
    unfold findJob
    rw [get_bind, hjob]
    rfl
  have hvalid : validateAttemptTransition completion.attemptId attempt.state completion.state s =
      .ok () s := by
    rw [validateAttemptTransition, if_pos hedge]
    rfl
  have hput : putAttempt completion.attemptId (finishedAttempt attempt completion now) s =
      .ok () (s.insertAttempt completion.attemptId (finishedAttempt attempt completion now)) := rfl
  have hrefused : JobState.running ∉ jobStateTransitions .running := by decide
  refine ⟨.invalidTransition job.jobId .running .running,
    s.insertAttempt completion.attemptId (finishedAttempt attempt completion now), ?_, by simp,
    fun hsame => ?_⟩
  · unfold finishAttempt
    rw [bind_of_ok hfindAttempt, bind_of_ok hvalid, bind_of_ok hfindJob, bind_of_ok hput]
    rw [jobState_of_not_terminal hlive, hrun,
      bind_of_error (validateStateTransition_of_not_edge hrefused _ _)]
  · have hnew := congrArg (fun attempts => attempts.get? completion.attemptId) hsame
    simp only [Inner.get?_attempts_insertAttempt, if_true, ha, Option.some.injEq] at hnew
    have hstate : completion.state = attempt.state := congrArg JobAttempt.state hnew
    rw [hstate] at hedge
    revert hedge
    cases attempt.state <;> decide

/-! ### Every operation -/

/-- The operation that leaves half of its work behind. -/
def HalfDone (s : Inner) : Operation → Prop
  | .finishAttempt completion _ => HalfFinishes s completion
  | _ => False

theorem perform_clean (jsonLen : ExecutionSubjectProvenance → ℕ) (h : s.Consistent K ∅)
    {op : Operation} (hop : ¬HalfDone s op) :
    FailsClean s (perform jsonLen op) := by
  cases op with
  | createJob spec fresh now => exact (createJob_clean spec fresh now).map _
  | setJobLabels id labels => exact (setJobLabels_clean id labels).map _
  | enqueue id now => exact (enqueue_clean id now).map _
  | beginAttempt id generation fresh now => exact (beginAttempt_clean id generation fresh now).map _
  | markAttemptRunning id now => exact (markAttemptRunning_clean id now).map _
  | setAttemptExecutor id executor now => exact (setAttemptExecutor_clean id executor now).map _
  | setAttemptRemoteHandle id handle now =>
    exact (setAttemptRemoteHandle_clean id handle now).map _
  | setAttemptSourceSubjectStarted id provenance now =>
    exact (setAttemptSourceSubjectStarted_clean jsonLen id provenance now).map _
  | sealAttemptSourceSubject id provenance now =>
    exact (sealAttemptSourceSubject_clean id provenance now).map _
  | recordHeartbeat id at' => exact (recordHeartbeat_clean id at').map _
  | finishAttempt completion now => exact (finishAttempt_clean h hop now).map _
  | requestCancel id reason now => exact (requestCancel_clean id reason now).map _
  | retryJob id generation prior fresh now =>
    exact (retryJob_clean id generation prior fresh now).map _
  | blockJob id now => exact (blockJob_clean id now).map _
  | recoverGeneration current policy now =>
    have hok : FailsClean s (recoverGeneration current policy now) := fun _ _ => trivial
    exact hok.map _
  | cancelDescendants parent reason now =>
    have hok : FailsClean s (cancelDescendants parent reason now) := fun _ _ => trivial
    exact hok.map _

/-- In every reachable store, an operation that fails leaves all jobs and attempts as they
were exactly if it does not report a state that ends no attempt for an attempt that may be
moved there. A failure is an error value, not the panic of an overflowing counter. -/
theorem failed_unchanged_iff (jsonLen : ExecutionSubjectProvenance → ℕ) (ops : List Operation)
    (hdistinct : (ops.filterMap Operation.freshAttempt).Nodup) (op : Operation) :
    (∀ e s', e ≠ .overflow →
      perform jsonLen op (run jsonLen Inner.empty ops) = .error e s' →
        s'.jobs = (run jsonLen Inner.empty ops).jobs ∧
          s'.attempts = (run jsonLen Inner.empty ops).attempts) ↔
      ¬HalfDone (run jsonLen Inner.empty ops) op := by
  obtain ⟨K, h⟩ := run_consistent jsonLen Inner.consistent_empty hdistinct
    fun a _ => Set.notMem_empty a
  constructor
  · intro hclean hop
    cases op with
    | finishAttempt completion now =>
      obtain ⟨e, s', herr, hne, hchanged⟩ := finishAttempt_half h hop now
      exact hchanged (hclean e s' hne (map_eq_error.mpr herr)).2
    | _ => exact hop
  · intro hop e s' hne herr
    rcases (perform_clean jsonLen h hop).of_error rfl herr with rfl | rfl
    · exact absurd rfl hne
    · exact ⟨rfl, rfl⟩

/-- A job with one attempt, which has not started. -/
def startedRun : List Operation :=
  [.createJob sampleSpec "job" 0, .beginAttempt "job" "g1" "first" 1]

theorem failed_unchanged_iff_started :
    ∃ e s', perform (fun _ => 0) (.enqueue "job" 2) (run (fun _ => 0) Inner.empty startedRun) =
        .error e s' ∧
      s'.jobs = (run (fun _ => 0) Inner.empty startedRun).jobs ∧
      s'.attempts = (run (fun _ => 0) Inner.empty startedRun).attempts :=
  ⟨_, _, rfl, (failed_unchanged_iff (fun _ => 0) startedRun (by decide) (.enqueue "job" 2)).mpr
    (fun h => h) (.invalidTransition "job" .running .queued) _ (by decide) rfl⟩

/-- Finishing the attempt as `Running` fails and leaves the attempt running, with a time of
completion. -/
theorem half_finished_attempt :
    ∃ e s', perform (fun _ => 0) (.finishAttempt ⟨"first", .running, none, none⟩ 2)
        (run (fun _ => 0) Inner.empty startedRun) = .error e s' ∧ e ≠ .overflow ∧
      s'.attempts ≠ (run (fun _ => 0) Inner.empty startedRun).attempts ∧
      (s'.attempts.get? "first").map (fun a => (a.state, a.completedAt)) =
        some (.running, some 2) := by
  refine ⟨.invalidTransition "job" .running .running, _, rfl, by decide, fun hsame => ?_, rfl⟩
  have hstate := congrArg (fun attempts => (attempts.get? "first").map JobAttempt.state) hsame
  revert hstate
  decide

end Codegg.Jobs.InMemoryJobStore
