import Codegg.Jobs.Consistency

/-!
# The operations keep the store consistent

One lemma for each operation of the in-memory store, then the whole run. An operation
that fails leaves a consistent store too, also when it has already written.
-/
namespace Codegg.Jobs.InMemoryJobStore

open Codegg.Library

variable {K : Set AttemptId} {P Q : Inner → Prop} {E : JobStoreError → Inner → Prop}

/-! ### The steps an operation is made of -/

theorem findJob_spec (id : JobId) (he : ∀ e s, P s → E e s) :
    Triple P (findJob id) (fun job s => P s ∧ s.jobs.get? id = some job) E := by
  intro s hs
  unfold findJob
  rw [get_bind]
  cases hjob : s.jobs.get? id with
  | none => exact he _ s hs
  | some job => exact ⟨hs, hjob⟩

theorem findAttempt_spec (id : AttemptId) (he : ∀ e s, P s → E e s) :
    Triple P (findAttempt id) (fun attempt s => P s ∧ s.attempts.get? id = some attempt) E := by
  intro s hs
  unfold findAttempt
  rw [get_bind]
  cases hattempt : s.attempts.get? id with
  | none => exact he _ s hs
  | some attempt => exact ⟨hs, hattempt⟩

variable {id i : JobId} {source target : JobState} {job : JobRecord} {s : Inner}
  {state : AttemptState}

theorem validateStateTransition_spec (he : ∀ e s, P s → E e s) :
    Triple P (validateStateTransition id source target)
      (fun _ s => P s ∧ target ∈ jobStateTransitions source) E := by
  intro s hs
  by_cases h : target ∈ jobStateTransitions source
  · rw [validateStateTransition, if_pos h]
    exact ⟨hs, h⟩
  · rw [validateStateTransition, if_neg h]
    exact he _ s hs

theorem validateStateTransition_of_edge (h : target ∈ jobStateTransitions source) (id : JobId)
    (s : Inner) :
    validateStateTransition id source target s = .ok () s := by
  rw [validateStateTransition, if_pos h]
  rfl

theorem validateStateTransition_of_not_edge (h : target ∉ jobStateTransitions source) (id : JobId)
    (s : Inner) :
    validateStateTransition id source target s = .error (.invalidTransition id source target) s := by
  rw [validateStateTransition, if_neg h]
  rfl

theorem validateAttemptTransition_spec {id : AttemptId} {source target : AttemptState}
    (he : ∀ e s, P s → E e s) :
    Triple P (validateAttemptTransition id source target)
      (fun _ s => P s ∧ target ∈ attemptStateTransitions source) E := by
  intro s hs
  by_cases h : target ∈ attemptStateTransitions source
  · rw [validateAttemptTransition, if_pos h]
    exact ⟨hs, h⟩
  · rw [validateAttemptTransition, if_neg h]
    exact he _ s hs

theorem failIf_spec {c : Prop} [Decidable c] {e : JobStoreError} (he : ∀ e s, P s → E e s) :
    Triple P (failIf c e : StoreM Unit) (fun _ s => P s ∧ ¬c) E :=
  .failIf (fun s hs _ => he e s hs) (fun _ hs hc => ⟨hs, hc⟩)

theorem putJob_spec (h : ∀ s, P s → Q (s.insertJob id job)) :
    Triple P (putJob id job) (fun _ => Q) E := .modify h

theorem putAttempt_spec {id : AttemptId} {attempt : JobAttempt}
    (h : ∀ s, P s → Q (s.insertAttempt id attempt)) :
    Triple P (putAttempt id attempt) (fun _ => Q) E := .modify h

/-- The computation leaves a consistent store consistent, failed or not. -/
def Keeps {α : Type} (K : Set AttemptId) (x : StoreM α) : Prop :=
  Triple (Inner.Consistent K ∅) x (fun _ => Inner.Consistent K ∅) (fun _ => Inner.Consistent K ∅)

/-! ### Jobs -/

/-- A job that exists is returned as it is. -/
theorem createJob_existing {spec : NewJob} {fresh : JobId} {now : Timestamp} {existing : JobRecord}
    (h : s.jobs.get? (newJobId fresh spec.source) = some existing) :
    createJob spec fresh now s = .ok existing s := by
  unfold createJob
  rw [get_bind, h]
  rfl

theorem createJob_new {spec : NewJob} {fresh : JobId} {now : Timestamp}
    (h : s.jobs.get? (newJobId fresh spec.source) = none) :
    createJob spec fresh now s = .ok (spec.toRecord (newJobId fresh spec.source) now)
      (s.insertJob (newJobId fresh spec.source)
        (spec.toRecord (newJobId fresh spec.source) now)) := by
  unfold createJob
  rw [get_bind, h]
  rfl

theorem createJob_keeps (spec : NewJob) (fresh : JobId) (now : Timestamp) :
    Keeps K (createJob spec fresh now) := by
  intro s hs
  cases hjob : s.jobs.get? (newJobId fresh spec.source) with
  | some existing =>
    rw [createJob_existing hjob]
    exact hs
  | none =>
    rw [createJob_new hjob]
    exact hs.addJob hjob rfl rfl (by simp [NewJob.toRecord])

theorem setJobLabels_keeps (id : JobId) (labels : List (String × String)) :
    Keeps K (setJobLabels id labels) := by
  refine .bind (findJob_spec id fun _ _ hs => hs) fun job => .bind (putJob_spec fun s hs => ?_) fun _ =>
    .pure fun _ hs => hs
  exact hs.1.insertJob hs.2 rfl rfl (.inl rfl) (fun h => h) (fun h => .inr ⟨h, rfl⟩)

/-- A job that may move to a state other than `Running` and is moved there. -/
theorem Consistent.move (hs : s.Consistent K ∅) {job' : JobRecord}
    (hjob : s.jobs.get? id = some job) (hid : job'.jobId = job.jobId)
    (hcount : job'.attemptCount = job.attemptCount)
    (hedge : job'.state ∈ jobStateTransitions job.state) (hidle : job.state ≠ .running)
    (hrun : job'.state ≠ .running) : (s.insertJob id job').Consistent K ∅ :=
  hs.insertJob hjob hid hcount (.inr hedge) (fun h => absurd h hrun) (fun h => absurd h hidle)

theorem enqueue_keeps (id : JobId) (now : Timestamp) : Keeps K (enqueue id now) := by
  refine .bind (findJob_spec id fun _ _ hs => hs) fun job =>
    .bind (validateStateTransition_spec fun _ _ hs => hs.1) fun _ => .bind (putJob_spec fun s hs => ?_) fun _ => .pure fun _ hs => hs
  refine Consistent.move hs.1.1 hs.1.2 rfl rfl hs.2 (fun hrun => ?_) (by simp)
  rw [hrun] at hs
  exact absurd hs.2 (by decide)

theorem blockJob_keeps (id : JobId) (now : Timestamp) : Keeps K (blockJob id now) := by
  refine .bind (findJob_spec id fun _ _ hs => hs) fun job =>
    .bind (validateStateTransition_spec fun _ _ hs => hs.1) fun _ => .bind (putJob_spec fun s hs => ?_) fun _ => .pure fun _ hs => hs
  refine Consistent.move hs.1.1 hs.1.2 rfl rfl hs.2 (fun hrun => ?_) (by simp)
  rw [hrun] at hs
  exact absurd hs.2 (by decide)

theorem Consistent.cancelled (hs : s.Consistent K ∅) (hjob : s.jobs.get? id = some job)
    (hedge : .cancelled ∈ jobStateTransitions job.state) (hidle : job.state ≠ .running)
    (reason : CancelReason) (now : Timestamp) :
    (s.insertJob id (cancelledRecord job reason now)).Consistent K ∅ :=
  Consistent.move hs hjob rfl rfl hedge hidle (by simp [cancelledRecord])

theorem Consistent.cancelRequested (hs : s.Consistent K ∅) (hjob : s.jobs.get? id = some job)
    (reason : CancelReason) (now : Timestamp) :
    (s.insertJob id (cancelRequestedRecord job reason now)).Consistent K ∅ :=
  hs.insertJob hjob rfl rfl (.inl rfl) (fun h => h) (fun h => .inr ⟨h, rfl⟩)

theorem requestCancel_keeps (id : JobId) (reason : CancelReason) (now : Timestamp) :
    Keeps K (requestCancel id reason now) := by
  refine .bind (findJob_spec id fun _ _ hs => hs) fun job => ?_
  cases hstate : job.state
  case scheduled | queued | blocked =>
    refine .bind (validateStateTransition_spec fun _ _ hs => hs.1) fun _ =>
      .bind (putJob_spec fun s hs => ?_) fun _ => .pure fun _ hs => hs
    exact Consistent.cancelled hs.1.1 hs.1.2 (hstate ▸ hs.2) (by simp [hstate]) reason now
  case running =>
    refine .bind (putJob_spec fun s hs => ?_) fun _ => .pure fun _ hs => hs
    exact Consistent.cancelRequested hs.1 hs.2 reason now
  all_goals
    exact .pure fun s hs => hs.1

/-! ### Attempts -/

/-- An attempt is rewritten in place without a change of state. -/
theorem Consistent.annotate (hs : s.Consistent K ∅) {id : AttemptId} {attempt attempt' : JobAttempt}
    (ha : s.attempts.get? id = some attempt) (hid : attempt'.attemptId = attempt.attemptId)
    (hjob : attempt'.jobId = attempt.jobId) (hseq : attempt'.sequence = attempt.sequence)
    (hstate : attempt'.state = attempt.state) :
    (s.insertAttempt id attempt').Consistent K ∅ :=
  hs.insertAttempt ha hid hjob hseq (.inl hstate) (by rw [hstate])

theorem setAttemptExecutor_keeps (id : AttemptId) (executor : String) (now : Timestamp) :
    Keeps K (setAttemptExecutor id executor now) :=
  .bind (findAttempt_spec id fun _ _ hs => hs) fun _ =>
    putAttempt_spec fun _ hs => Consistent.annotate hs.1 hs.2 rfl rfl rfl rfl

theorem setAttemptRemoteHandle_keeps (id : AttemptId) (handle : Option RemoteExecutionHandle)
    (now : Timestamp) : Keeps K (setAttemptRemoteHandle id handle now) :=
  .bind (findAttempt_spec id fun _ _ hs => hs) fun _ =>
    putAttempt_spec fun _ hs => Consistent.annotate hs.1 hs.2 rfl rfl rfl rfl

theorem setAttemptSourceSubjectStarted_keeps (jsonLen : ExecutionSubjectProvenance → ℕ)
    (id : AttemptId) (provenance : ExecutionSubjectProvenance) (now : Timestamp) :
    Keeps K (setAttemptSourceSubjectStarted jsonLen id provenance now) := by
  refine .bind (failIf_spec fun _ _ hs => hs) fun _ =>
    .bind (findAttempt_spec id fun _ _ hs => hs.1) fun attempt =>
    .bind (failIf_spec fun _ _ hs => hs.1.1) fun _ => putAttempt_spec fun s hs => ?_
  exact Consistent.annotate hs.1.1.1 hs.1.2 rfl rfl rfl rfl

theorem sealAttemptSourceSubject_keeps (id : AttemptId)
    (provenance : ExecutionSubjectProvenance) (now : Timestamp) :
    Keeps K (sealAttemptSourceSubject id provenance now) := by
  refine .bind (failIf_spec fun _ _ hs => hs) fun _ =>
    .bind (findAttempt_spec id fun _ _ hs => hs.1) fun attempt => ?_
  cases attempt.sourceSubject with
  | none => exact .throw fun s hs => hs.1.1
  | some started =>
    refine .bind (failIf_spec fun _ _ hs => hs.1.1) fun _ => putAttempt_spec fun s hs => ?_
    exact Consistent.annotate hs.1.1.1 hs.1.2 rfl rfl rfl rfl

theorem recordHeartbeat_keeps (id : AttemptId) (at' : Timestamp) :
    Keeps K (recordHeartbeat id at') :=
  .bind (findAttempt_spec id fun _ _ hs => hs) fun _ =>
    .bind (failIf_spec fun _ _ hs => hs.1) fun _ =>
      putAttempt_spec fun _ hs => Consistent.annotate hs.1.1 hs.1.2 rfl rfl rfl rfl

theorem markAttemptRunning_keeps (id : AttemptId) (now : Timestamp) :
    Keeps K (markAttemptRunning id now) := by
  refine .bind (findAttempt_spec id fun _ _ hs => hs) fun attempt => ?_
  split
  · exact .pure fun s hs => hs.1
  · refine .bind (validateAttemptTransition_spec fun _ _ hs => hs.1) fun _ =>
      putAttempt_spec fun s hs => ?_
    exact hs.1.1.insertAttempt hs.1.2 rfl rfl rfl (.inr hs.2)
      (AttemptState.not_terminal_of_edge hs.2).symm

/-! ### Starting and finishing an attempt -/

theorem beginAttempt_spec (id : JobId) (generation : DaemonGeneration) {fresh : AttemptId}
    (hfresh : fresh ∉ K) (now : Timestamp) :
    Triple (Inner.Consistent K ∅) (beginAttempt id generation fresh now)
      (fun _ => Inner.Consistent (insert fresh K) ∅) (fun _ => Inner.Consistent K ∅) := by
  refine .bind (findJob_spec id fun _ _ hs => hs) fun job =>
    .bind (failIf_spec fun _ _ hs => hs.1) fun _ => .bind (failIf_spec fun _ _ hs => hs.1.1)
    fun _ => .bind (validateStateTransition_spec fun _ _ hs => hs.1.1.1) fun _ =>
    .bind (failIf_spec fun _ _ hs => hs.1.1.1.1) fun _ => ?_
  intro s hs
  obtain ⟨⟨⟨⟨⟨hs, hjob⟩, hidle⟩, -⟩, hedge⟩, -⟩ := hs
  exact hs.startAttempt hjob hfresh rfl rfl ⟨rfl, rfl, rfl⟩ hedge hidle (Set.notMem_empty _) rfl
    rfl rfl

theorem jobState_of_terminal (h : state.isTerminal = true) (job : JobState) :
    state.jobState job ∈ jobStateTransitions .running ∧ state.jobState job ≠ .running := by
  cases state with
  | created | admitted | running => cases h
  | completed | failed | cancelled | timedOut | interrupted => simp [AttemptState.jobState,
      jobStateTransitions]

theorem jobState_of_not_terminal (h : state.isTerminal = false) (job : JobState) :
    state.jobState job = job := by
  cases state with
  | created | admitted | running => rfl
  | completed | failed | cancelled | timedOut | interrupted => cases h

theorem finishAttempt_keeps (completion : AttemptCompletion) (now : Timestamp) :
    Keeps K (finishAttempt completion now) := by
  refine .bind (findAttempt_spec _ fun _ _ hs => hs) fun attempt =>
    .bind (validateAttemptTransition_spec fun _ _ hs => hs.1) fun _ =>
    .bind (findJob_spec _ fun _ _ hs => hs.1.1) fun job => ?_
  cases hterm : completion.state.isTerminal with
  | true =>
    refine .bind (putAttempt_spec (Q := fun s => s.Consistent K {attempt.jobId} ∧
      s.jobs.get? attempt.jobId = some job ∧ job.state = .running) fun s hs => ?_) fun _ => ?_
    · obtain ⟨⟨⟨hs, ha⟩, hedge⟩, hjob⟩ := hs
      obtain ⟨-, job', hjob', hrun, -⟩ :=
        hs.staffed.live ha (AttemptState.not_terminal_of_edge hedge)
      rw [hjob] at hjob'
      cases hjob'
      have hended : (s.insertAttempt _ (finishedAttempt attempt completion now)).Consistent K
          (insert attempt.jobId ∅) := hs.endAttempt ha rfl rfl rfl hedge hterm
      rw [insert_empty_eq] at hended
      exact ⟨hended, hjob, hrun⟩
    · intro s hs
      obtain ⟨hs, hjob, hrun⟩ := hs
      obtain ⟨hedge, hnot⟩ := jobState_of_terminal hterm job.state
      rw [bind_of_ok (validateStateTransition_of_edge (hrun ▸ hedge) _ s)]
      have hsettled : (s.insertJob attempt.jobId
          (advancedRecord job (completion.state.jobState job.state) now)).Consistent K
          ({attempt.jobId} \ {attempt.jobId}) :=
        hs.settleJob rfl hjob rfl rfl (.inr (hrun ▸ hedge)) hnot
      rw [Set.sdiff_self] at hsettled
      show (s.insertJob job.jobId _).Consistent K ∅
      rw [hs.filed.jobKey hjob]
      exact hsettled
  | false =>
    -- the attempt's write stays, the job's transition is refused
    refine .bind (putAttempt_spec (Q := fun s => s.Consistent K ∅ ∧ job.state = .running)
      fun s hs => ?_) fun _ => ?_
    · obtain ⟨⟨⟨hs, ha⟩, hedge⟩, hjob⟩ := hs
      have hlive := AttemptState.not_terminal_of_edge hedge
      obtain ⟨-, job', hjob', hrun, -⟩ := hs.staffed.live ha hlive
      rw [hjob] at hjob'
      cases hjob'
      exact ⟨hs.insertAttempt ha rfl rfl rfl (.inr hedge) (hterm.trans hlive.symm), hrun⟩
    · intro s hs
      rw [jobState_of_not_terminal hterm, hs.2]
      exact hs.1

theorem retryJob_spec (id : JobId) (generation : DaemonGeneration) (prior : AttemptId)
    {fresh : AttemptId} (hfresh : fresh ∉ K) (now : Timestamp) :
    Triple (Inner.Consistent K ∅) (retryJob id generation prior fresh now)
      (fun _ => Inner.Consistent (insert fresh K) ∅) (fun _ => Inner.Consistent K ∅) := by
  refine .bind (findJob_spec id fun _ _ hs => hs) fun job =>
    .bind (findAttempt_spec prior fun _ _ hs => hs.1) fun attempt =>
    .bind (failIf_spec fun _ _ hs => hs.1.1) fun _ =>
    .bind (failIf_spec fun _ _ hs => hs.1.1.1) fun _ =>
    .bind (failIf_spec fun _ _ hs => hs.1.1.1.1) fun _ =>
    .bind (failIf_spec fun _ _ hs => hs.1.1.1.1.1) fun _ =>
    .bind (validateStateTransition_spec fun _ _ hs => hs.1.1.1.1.1.1) fun _ =>
    .bind (putJob_spec fun s hs => ?_) fun _ => beginAttempt_spec id generation hfresh now
  obtain ⟨⟨⟨⟨⟨⟨⟨hs, hjob⟩, -⟩, -⟩, -⟩, -⟩, -⟩, hedge⟩ := hs
  refine Consistent.move hs hjob rfl rfl hedge (fun hrun => ?_) (by simp)
  rw [hrun] at hedge
  exact absurd hedge (by decide)

/-! ### Recovery -/

theorem interrupted_edge (h : state.isTerminal = false) :
    .interrupted ∈ attemptStateTransitions state := by
  cases state with
  | created | admitted | running => decide
  | completed | failed | cancelled | timedOut | interrupted => cases h

/-- Interrupting the stale attempts suspends exactly the jobs that are touched. -/
theorem foldl_interruptAttempt (now : Timestamp) (ids : List AttemptId) (r : Recovering)
    (hnodup : ids.Nodup) (htouched : r.touched.Nodup)
    (hlive : ∀ a ∈ ids, ∃ x, r.store.attempts.get? a = some x ∧ x.state.isTerminal = false)
    (h : r.store.Consistent K {id | id ∈ r.touched}) :
    let r' := ids.foldl (interruptAttempt now) r
    r'.touched.Nodup ∧ r'.store.Consistent K {id | id ∈ r'.touched} := by
  induction ids generalizing r with
  | nil => exact ⟨htouched, h⟩
  | cons a ids ih =>
    obtain ⟨ha, hnodup⟩ := List.nodup_cons.mp hnodup
    obtain ⟨x, hx, hxlive⟩ := hlive a List.mem_cons_self
    have hended : (r.store.insertAttempt a { x with
        state := .interrupted
        completedAt := some now
        updatedAt := now }).Consistent K (insert x.jobId {id | id ∈ r.touched}) :=
      h.endAttempt hx rfl rfl rfl (interrupted_edge hxlive) rfl
    have hset : {id | id ∈ (interruptAttempt now r a).touched} =
        insert x.jobId {id | id ∈ r.touched} := by
      ext id
      simp only [interruptAttempt, hx, Set.mem_ofPred_eq, Set.mem_insert_iff]
      split
      · rename_i hmem
        constructor
        · exact .inr
        · rintro (rfl | hid)
          exacts [hmem, hid]
      · rw [List.mem_append, List.mem_singleton, or_comm]
    refine ih _ hnodup ?_ ?_ ?_
    · simp only [interruptAttempt, hx]
      split
      · exact htouched
      · rename_i hmem
        refine List.nodup_append.mpr ⟨htouched, List.nodup_singleton _, ?_⟩
        intro y hy z hz hyz
        rw [List.mem_singleton.mp hz] at hyz
        exact hmem (hyz ▸ hy)
    · intro b hb
      have hne : b ≠ a := fun he => ha (he ▸ hb)
      obtain ⟨y, hy, hylive⟩ := hlive b (List.mem_cons_of_mem _ hb)
      exact ⟨y, by simpa [interruptAttempt, hx, hne] using hy, hylive⟩
    · rw [hset]
      simpa only [interruptAttempt, hx] using hended

/-- A touched job leaves recovery settled. -/
theorem recoverJob_consistent {T : Set JobId} (policy : RecoveryPolicy) (now : Timestamp)
    (r : Requeuing) (hT : id ∈ T) (h : r.store.Consistent K T) :
    (recoverJob policy now r id).store.Consistent K (T \ {id}) := by
  rw [recoverJob]
  cases hjob : r.store.jobs.get? id with
  | none =>
    refine h.tighten Set.sdiff_subset fun id' _ hnot job hj => ?_
    have he : id' = id := by
      by_contra hne
      exact hnot ⟨‹id' ∈ T›, hne⟩
    rw [he, hjob] at hj
    cases hj
  | some job =>
    have hkeep : job.state ≠ .running → r.store.Consistent K (T \ {id}) := by
      intro hidle
      refine h.tighten Set.sdiff_subset fun id' hid' hnot job' hj => ?_
      have he : id' = id := by
        by_contra hne
        exact hnot ⟨hid', hne⟩
      rw [he, hjob] at hj
      cases hj
      exact hidle
    dsimp only
    split
    · rename_i hwants
      by_cases hint : job.state = .interrupted
      · rw [if_pos hint]
        exact h.settleJob hT hjob rfl rfl (.inr (by simp [requeuedRecord, hint,
          jobStateTransitions])) (by simp [requeuedRecord])
      · rw [if_neg hint]
        have hparked : (r.store.insertJob id
            { job with state := .interrupted, updatedAt := now }).Consistent K (T \ {id}) :=
          h.settleJob hT hjob rfl rfl (.inr (hwants.2.resolve_left hint)) (by simp)
        have hput : (r.store.insertJob id
            { job with state := .interrupted, updatedAt := now }).jobs.get? id =
            some { job with state := .interrupted, updatedAt := now } := by simp
        exact hparked.insertJob hput rfl rfl
          (.inr (by simp [requeuedRecord, jobStateTransitions])) (by simp [requeuedRecord]) (by simp)
    · split
      · split
        · rename_i hedge
          exact h.settleJob hT hjob rfl rfl (.inr hedge) (by simp [settledRecord])
        · rename_i hedge
          exact hkeep fun hrun => hedge (by rw [hrun]; decide)
      · split
        · rename_i hedge
          exact h.settleJob hT hjob rfl rfl (.inr hedge) (by simp [settledRecord])
        · rename_i hedge
          exact hkeep fun hrun => hedge (by rw [hrun]; decide)

theorem foldl_recoverJob (policy : RecoveryPolicy) (now : Timestamp) (ids : List JobId)
    (hnodup : ids.Nodup) (r : Requeuing) (h : r.store.Consistent K {id | id ∈ ids}) :
    (ids.foldl (recoverJob policy now) r).store.Consistent K ∅ := by
  induction ids generalizing r with
  | nil => simpa using h
  | cons id ids ih =>
    obtain ⟨hid, hnodup⟩ := List.nodup_cons.mp hnodup
    refine ih hnodup _ ?_
    have hrest : {x | x ∈ id :: ids} \ {id} = {x | x ∈ ids} := by
      ext x
      simp only [List.mem_cons]
      constructor
      · rintro ⟨hx, hne⟩
        exact hx.resolve_left hne
      · intro hx
        exact ⟨.inr hx, fun he => hid (he ▸ hx)⟩
    rw [← hrest]
    exact recoverJob_consistent policy now r (by simp) h

theorem mem_staleAttempts {current : DaemonGeneration} {a : AttemptId} :
    a ∈ staleAttempts s current ↔ ∃ x, s.attempts.get? a = some x ∧
      x.daemonGeneration ≠ current ∧ x.state.isTerminal = false := by
  simp [staleAttempts, SortedMap.mem_toList_iff]

theorem staleAttempts_nodup (s : Inner) (current : DaemonGeneration) :
    (staleAttempts s current).Nodup :=
  s.attempts.keys_nodup.sublist (List.filter_sublist.map Prod.fst)

theorem recoverGeneration_keeps (current : DaemonGeneration) (policy : RecoveryPolicy)
    (now : Timestamp) : Keeps K (recoverGeneration current policy now) := by
  intro s hs
  obtain ⟨htouched, hinterrupted⟩ := foldl_interruptAttempt (K := K) now (staleAttempts s current)
    ⟨s, [], 0⟩ (staleAttempts_nodup s current) List.nodup_nil
    (fun a ha => by
      obtain ⟨x, hx, -, hlive⟩ := mem_staleAttempts.mp ha
      exact ⟨x, hx, hlive⟩)
    (by simpa using hs)
  exact foldl_recoverJob policy now _ htouched ⟨_, 0, 0⟩ hinterrupted

/-! ### Descendants -/

theorem cancelDescendant_consistent (reason : CancelReason) (now : Timestamp) (r : Cancelling)
    (id : JobId) (h : r.store.Consistent K ∅) :
    (cancelDescendant reason now r id).store.Consistent K ∅ := by
  rw [cancelDescendant]
  cases hjob : r.store.jobs.get? id with
  | none => exact h
  | some job =>
    dsimp only
    split
    case h_4 => exact Consistent.cancelRequested h hjob reason now
    case h_5 => exact h
    all_goals
      rename_i hstate
      exact Consistent.cancelled h hjob (by rw [hstate]; decide) (by simp [hstate]) reason now

theorem cancelDescendants_keeps (parent : JobId) (reason : CancelReason) (now : Timestamp) :
    Keeps K (cancelDescendants parent reason now) := by
  intro s hs
  refine List.foldlRecOn (motive := fun r : Cancelling => r.store.Consistent K ∅) _ _ hs ?_
  intro r hr id _
  exact cancelDescendant_consistent reason now r id hr

/-! ### Runs -/

/-- An operation adds at most the attempt id it draws. -/
theorem perform_consistent (jsonLen : ExecutionSubjectProvenance → ℕ) (h : s.Consistent K ∅)
    {op : Operation} (hfresh : ∀ a, op.freshAttempt = some a → a ∉ K) :
    ∃ K', (∀ a ∈ K', a ∈ K ∨ op.freshAttempt = some a) ∧
      (finalState (perform jsonLen op s)).Consistent K' ∅ := by
  have keep : ∀ {α : Type} {x : StoreM α} {f : α → Answer}, Keeps K x →
      ∃ K', (∀ a ∈ K', a ∈ K ∨ op.freshAttempt = some a) ∧
        (finalState ((f <$> x) s)).Consistent K' ∅ := by
    intro α x f hx
    refine ⟨K, fun a ha => .inl ha, ?_⟩
    rw [finalState_map]
    exact hx.finalState h
  have draw : ∀ {x : StoreM JobAttempt} {f : JobAttempt → Answer} {fresh : AttemptId},
      op.freshAttempt = some fresh →
      Triple (Inner.Consistent K ∅) x (fun _ => Inner.Consistent (insert fresh K) ∅)
        (fun _ => Inner.Consistent K ∅) →
      ∃ K', (∀ a ∈ K', a ∈ K ∨ op.freshAttempt = some a) ∧
        (finalState ((f <$> x) s)).Consistent K' ∅ := by
    intro x f fresh hop hx
    rw [finalState_map]
    cases hres : x s with
    | ok a s' =>
      refine ⟨insert fresh K, fun a ha => ?_, hx.of_ok h hres⟩
      rcases Set.mem_insert_iff.mp ha with rfl | ha
      exacts [.inr hop, .inl ha]
    | error e s' => exact ⟨K, fun a ha => .inl ha, hx.of_error h hres⟩
  cases op with
  | createJob spec fresh now => exact keep (createJob_keeps spec fresh now)
  | setJobLabels id labels => exact keep (setJobLabels_keeps id labels)
  | enqueue id now => exact keep (enqueue_keeps id now)
  | beginAttempt id generation fresh now =>
    exact draw rfl (beginAttempt_spec id generation (hfresh fresh rfl) now)
  | markAttemptRunning id now => exact keep (markAttemptRunning_keeps id now)
  | setAttemptExecutor id executor now => exact keep (setAttemptExecutor_keeps id executor now)
  | setAttemptRemoteHandle id handle now =>
    exact keep (setAttemptRemoteHandle_keeps id handle now)
  | setAttemptSourceSubjectStarted id provenance now =>
    exact keep (setAttemptSourceSubjectStarted_keeps jsonLen id provenance now)
  | sealAttemptSourceSubject id provenance now =>
    exact keep (sealAttemptSourceSubject_keeps id provenance now)
  | recordHeartbeat id at' => exact keep (recordHeartbeat_keeps id at')
  | finishAttempt completion now => exact keep (finishAttempt_keeps completion now)
  | requestCancel id reason now => exact keep (requestCancel_keeps id reason now)
  | retryJob id generation prior fresh now =>
    exact draw rfl (retryJob_spec id generation prior (hfresh fresh rfl) now)
  | blockJob id now => exact keep (blockJob_keeps id now)
  | recoverGeneration current policy now =>
    exact keep (recoverGeneration_keeps current policy now)
  | cancelDescendants parent reason now =>
    exact keep (cancelDescendants_keeps parent reason now)

theorem run_consistent (jsonLen : ExecutionSubjectProvenance → ℕ) {ops : List Operation}
    (h : s.Consistent K ∅) (hnodup : (ops.filterMap Operation.freshAttempt).Nodup)
    (hfresh : ∀ a ∈ ops.filterMap Operation.freshAttempt, a ∉ K) :
    ∃ K', (run jsonLen s ops).Consistent K' ∅ := by
  induction ops generalizing s K with
  | nil => exact ⟨K, h⟩
  | cons op ops ih =>
    have hop : ∀ a, op.freshAttempt = some a → a ∉ K := by
      intro a ha
      exact hfresh a (by simp [ha])
    obtain ⟨K', hK', hnext⟩ := perform_consistent jsonLen h hop
    have hsplit : op.freshAttempt.toList ++ ops.filterMap Operation.freshAttempt =
        (op :: ops).filterMap Operation.freshAttempt := by
      cases hf : op.freshAttempt <;> simp [hf]
    rw [← hsplit] at hnodup hfresh
    obtain ⟨-, hrest, hdisjoint⟩ := List.nodup_append.mp hnodup
    refine ih hnext hrest fun a ha hmem => ?_
    rcases hK' a hmem with hK | hnew
    · exact hfresh a (List.mem_append_right _ ha) hK
    · exact hdisjoint a (by simp [hnew]) a ha rfl

/-! ### What the store shows -/

theorem Filed.places (h : s.Filed K) (hjob : s.jobs.get? i = some job) :
    ((s.attemptIds i).filterMap s.attempts.get?).map (fun r => (r.jobId, r.sequence)) =
      (List.range' 1 job.attemptCount).map fun n => (i, n) := by
  calc ((s.attemptIds i).filterMap s.attempts.get?).map (fun r => (r.jobId, r.sequence))
      = (s.attemptIds i).filterMap s.place := by
        rw [List.map_filterMap]
        rfl
    _ = ((s.attemptIds i).map s.place).filterMap id := by
        rw [List.filterMap_map]
        rfl
    _ = ((List.range' 1 job.attemptCount).map fun n => some (i, n)).filterMap id := by
        rw [h.sequences hjob]
    _ = (List.range' 1 job.attemptCount).map fun n => (i, n) := by
        rw [List.filterMap_map, ← List.filterMap_eq_map]
        rfl

theorem Filed.sequence_filed (h : s.Filed K) (hjob : s.jobs.get? i = some job) :
    ((s.attemptIds i).filterMap s.attempts.get?).map JobAttempt.sequence =
      List.range' 1 job.attemptCount := by
  have hplaces := congrArg (List.map Prod.snd) (Filed.places h hjob)
  rwa [List.map_map, List.map_map, show (Prod.snd ∘ fun n => (i, n)) = (id : ℕ → ℕ) from rfl,
    List.map_id] at hplaces

/-- The attempts are listed in the order they were started in. -/
theorem Filed.listAttempts_eq (h : s.Filed K) (hjob : s.jobs.get? i = some job) :
    listAttempts s i = (s.attemptIds i).filterMap s.attempts.get? := by
  refine List.mergeSort_of_pairwise ?_
  have hsorted : (((s.attemptIds i).filterMap s.attempts.get?).map
      JobAttempt.sequence).Pairwise (· ≤ ·) := by
    rw [Filed.sequence_filed h hjob]
    exact List.pairwise_le_range'
  exact (List.pairwise_map.mp hsorted).imp fun hle => decide_eq_true hle

theorem Filed.mem_listAttempts (h : s.Filed K) (hjob : s.jobs.get? i = some job) {a : AttemptId}
    {r : JobAttempt} (ha : s.attempts.get? a = some r) : r ∈ listAttempts s i ↔ r.jobId = i := by
  rw [Filed.listAttempts_eq h hjob, List.mem_filterMap]
  constructor
  · rintro ⟨b, hb, hr⟩
    have hplace : (r.jobId, r.sequence) ∈
        (List.range' 1 job.attemptCount).map fun n => (i, n) := by
      rw [← Filed.places h hjob]
      exact List.mem_map_of_mem (f := fun r => (r.jobId, r.sequence))
        (List.mem_filterMap.mpr ⟨b, hb, hr⟩)
    obtain ⟨n, -, hn⟩ := List.mem_map.mp hplace
    exact (Prod.mk.inj hn).1.symm
  · intro hi
    exact ⟨a, hi ▸ (h.attemptKey ha).2.2, ha⟩

/-- The rules of the job and attempt state machine, read off a store. -/
structure Lawful (s : Inner) : Prop where
  /-- every change of a job's or an attempt's state followed its transition table -/
  edges : ∀ c ∈ s.history, c.IsEdge
  /-- every attempt is kept under its own id and belongs to a job -/
  owned : ∀ a r, s.attempts.get? a = some r →
    r.attemptId = a ∧ ∃ job, s.jobs.get? r.jobId = some job
  /-- the attempts of a job are numbered from 1 to its attempt count, each number once -/
  numbered : ∀ i job, s.jobs.get? i = some job →
    (listAttempts s i).map JobAttempt.sequence = List.range' 1 job.attemptCount ∧
    ∀ a r, s.attempts.get? a = some r → (r ∈ listAttempts s i ↔ r.jobId = i)
  /-- at most one attempt of a job is live, and it is the job's current attempt -/
  current : ∀ i job, s.jobs.get? i = some job → ∀ a r, s.attempts.get? a = some r →
    r.jobId = i → r.state.isTerminal = false → job.currentAttemptId = some a
  /-- a running job has a live attempt -/
  running : ∀ i job, s.jobs.get? i = some job → job.state = .running →
    ∃ a r, s.attempts.get? a = some r ∧ r.jobId = i ∧ r.state.isTerminal = false

theorem lawful_of_consistent (h : s.Consistent K ∅) : Lawful s where
  edges := h.edges
  owned a r ha := by
    obtain ⟨-, hid, hmem⟩ := h.filed.attemptKey ha
    refine ⟨hid, ?_⟩
    cases hjob : s.jobs.get? r.jobId with
    | some job => exact ⟨job, rfl⟩
    | none =>
      rw [h.filed.unknown hjob] at hmem
      exact absurd hmem List.not_mem_nil
  numbered i job hjob :=
    ⟨Filed.listAttempts_eq h.filed hjob ▸ Filed.sequence_filed h.filed hjob,
      fun _ _ ha => Filed.mem_listAttempts h.filed hjob ha⟩
  current i job hjob a r ha hi hlive := by
    obtain ⟨-, job', hjob', -, hcur⟩ := h.staffed.live ha hlive
    rw [hi, hjob] at hjob'
    cases hjob'
    exact hcur
  running i job hjob hrun := by
    obtain ⟨a, r, -, ha, hi, hlive⟩ := h.staffed.running hjob hrun (Set.notMem_empty i)
    exact ⟨a, r, ha, hi, hlive⟩

/-- The state machine holds in every store reached from the empty one, when no attempt id
is drawn twice. -/
theorem run_lawful (jsonLen : ExecutionSubjectProvenance → ℕ) (ops : List Operation)
    (hdistinct : (ops.filterMap Operation.freshAttempt).Nodup) :
    Lawful (run jsonLen Inner.empty ops) := by
  obtain ⟨K, hK⟩ := run_consistent jsonLen Inner.consistent_empty hdistinct
    fun a _ => Set.notMem_empty a
  exact lawful_of_consistent hK

/-- A job that fails once, is retried, and is taken back into the queue after a crash. -/
def sampleSpec : NewJob where
  workspaceId := "w"
  sessionId := none
  turnId := none
  kind := .build
  source := .interactive
  priority := .normal
  payload := ""
  resourceRequest := ""
  timeout := none
  retryPolicy := ⟨3⟩
  idempotency := .readOnly
  notBefore := none
  deadline := none
  scheduleId := none
  dependsOn := []
  parentJobId := none
  parentAttemptId := none
  parentCallId := none
  parentProgramId := none
  parentInstructionSequence := none
  relationKind := none
  target := .local

def sampleRun : List Operation :=
  [.createJob sampleSpec "job" 0, .beginAttempt "job" "g1" "first" 1,
    .markAttemptRunning "first" 2, .finishAttempt ⟨"first", .failed, none, none⟩ 3,
    .retryJob "job" "g1" "first" "second" 4, .recoverGeneration "g2" {} 5]

theorem run_lawful_sampleRun :
    (run (fun _ => 0) Inner.empty sampleRun).history.length = 9 ∧
      Lawful (run (fun _ => 0) Inner.empty sampleRun) :=
  ⟨by decide +kernel, run_lawful (fun _ => 0) sampleRun (by decide +kernel)⟩

end Codegg.Jobs.InMemoryJobStore
