import Codegg.Jobs.Lifecycle

/-!
# The descendants of a job

A job names its parent, so the table of jobs is a graph, possibly with cycles. Both
operations on descendants walk it with the same worklist. The walk goes through terminal
jobs and finds every job that is reached from the root once. What is listed are the jobs
found that are not terminal. What is cancelled are those that wait or run: an interrupted
job is listed, but it is not cancelled.
-/
namespace Codegg.Jobs

open Codegg.Library Worklist

/-! ### Summaries -/

structure JobSummary where
  jobId : JobId
  workspaceId : String
  kind : JobKind
  priority : JobPriority
  state : JobState
  attemptCount : ℕ
  currentAttemptId : Option AttemptId
  createdAt : Timestamp
  updatedAt : Timestamp
  scheduleId : Option ScheduleId
  cancelRequestedAt : Option Timestamp
  targetNodeId : Option String
  deriving DecidableEq, Repr

def ExecutionTarget.eggworkNodeId : ExecutionTarget → Option String
  | .local => none
  | .eggworkNode nodeId => some nodeId

def JobRecord.summary (job : JobRecord) : JobSummary where
  jobId := job.jobId
  workspaceId := job.workspaceId
  kind := job.kind
  priority := job.priority
  state := job.state
  attemptCount := job.attemptCount
  currentAttemptId := job.currentAttemptId
  createdAt := job.createdAt
  updatedAt := job.updatedAt
  scheduleId := job.scheduleId
  cancelRequestedAt := job.cancelRequestedAt
  targetNodeId := job.target.eggworkNodeId

namespace InMemoryJobStore

/-! ### Listing -/

/-- The stack, the jobs visited besides the root, and the summaries so far. -/
structure Finding where
  queue : List JobId
  found : List JobId
  summaries : List JobSummary

def findVisit (root : JobId) (st : Finding) (job : JobRecord) : Finding :=
  if job.jobId = root ∨ job.jobId ∈ st.found then st
  else
    { queue := job.jobId :: st.queue
      found := st.found ++ [job.jobId]
      summaries := if job.state.isTerminal then st.summaries else st.summaries ++ [job.summary] }

/-- The loop of `find_descendants`, with the fuel of the walk. -/
def findLoop (s : Inner) (root : JobId) : ℕ → Finding → Finding
  | 0, st => st
  | _ + 1, ⟨[], found, summaries⟩ => ⟨[], found, summaries⟩
  | fuel + 1, ⟨current :: queue, found, summaries⟩ =>
      findLoop s root fuel
        ((childrenByAge s current).reverse.foldl (findVisit root) ⟨queue, found, summaries⟩)

def findDescendants (s : Inner) (root : JobId) : List JobSummary :=
  (findLoop s root (s.jobs.toList.length + 1) ⟨[root], [], []⟩).summaries.mergeSort
    fun left right => decide (left.createdAt < right.createdAt) ||
      (left.createdAt == right.createdAt && decide (left.jobId ≤ right.jobId))

/-! ### The graph -/

/-- Every job is kept under its own id. -/
def Keyed (s : Inner) : Prop := ∀ id job, s.jobs.get? id = some job → job.jobId = id

/-- The job `b` names `a` as its parent. -/
def ParentOf (s : Inner) (a b : JobId) : Prop :=
  ∃ job, s.jobs.get? b = some job ∧ job.parentJobId = some a

/-- Reached from the root through parent links, and not the root itself. -/
def Descends (s : Inner) (root id : JobId) : Prop :=
  Relation.TransGen (ParentOf s) root id ∧ id ≠ root

section Graph

variable {s : Inner} (hkey : Keyed s)
include hkey

theorem mem_childrenByAge {a : JobId} {job : JobRecord} :
    job ∈ childrenByAge s a ↔
      s.jobs.get? job.jobId = some job ∧ job.parentJobId = some a := by
  simp only [childrenByAge, List.mem_mergeSort, List.mem_filter, SortedMap.values, List.mem_map,
    Prod.exists, beq_iff_eq, exists_eq_right, SortedMap.mem_toList_iff]
  constructor
  · rintro ⟨⟨id, hjob⟩, hparent⟩
    have hid := hkey id job hjob
    exact ⟨hid.symm ▸ hjob, hparent⟩
  · rintro ⟨hjob, hparent⟩
    exact ⟨⟨_, hjob⟩, hparent⟩

theorem mem_childIds {a b : JobId} : b ∈ childIds s a ↔ ParentOf s a b := by
  simp only [childIds, List.mem_reverse, List.mem_map, mem_childrenByAge hkey]
  constructor
  · rintro ⟨job, ⟨hjob, hparent⟩, rfl⟩
    exact ⟨job, hjob, hparent⟩
  · rintro ⟨job, hjob, hparent⟩
    obtain rfl := hkey b job hjob
    exact ⟨job, ⟨hjob, hparent⟩, rfl⟩

theorem childIds_subset (a : JobId) : ∀ b ∈ childIds s a, b ∈ s.jobs.keys := by
  intro b hb
  obtain ⟨job, hjob, -⟩ := (mem_childIds hkey).mp hb
  exact (s.jobs.mem_keys_iff b).mpr ⟨job, hjob⟩

omit hkey in
theorem fuel_suffices (root : JobId) :
    (⟨[root], []⟩ : Worklist.State JobId).queue.length + s.jobs.keys.length ≤
      s.jobs.toList.length + 1 + (⟨[root], []⟩ : Worklist.State JobId).found.length := by
  simp only [List.length_singleton, List.length_nil, SortedMap.keys, List.length_map]
  omega

/-- The walk ends after at most one expansion for each job and one for the root. -/
theorem descendants_ends (root : JobId) :
    ∃ n ≤ s.jobs.toList.length + 1,
      Worklist.Ends (childIds s) root ⟨[root], []⟩ n (descendants s root) :=
  searching_start.ends (childIds_subset hkey) (by simp) (fuel_suffices root)

theorem descendants_searched (root : JobId) :
    Worklist.Searching (childIds s) root ⟨[], descendants s root⟩ :=
  searching_start.search (childIds_subset hkey) (by simp) (fuel_suffices root)

theorem mem_descendants {root id : JobId} : id ∈ descendants s root ↔ Descends s root id := by
  have hchild : Worklist.Child (childIds s) = ParentOf s := by
    funext a b
    exact propext (mem_childIds hkey)
  rw [(descendants_searched hkey root).mem_iff, hchild]
  rfl

/-! ### What is listed -/

omit hkey in
/-- The summaries of those of the jobs that are not terminal. -/
def activeSummaries (s : Inner) (ids : List JobId) : List JobSummary :=
  ids.filterMap fun id => (s.jobs.get? id).bind fun job =>
    if job.state.isTerminal then none else some job.summary

omit hkey in
/-- Visiting jobs does to stack and jobs found what the walk does, and lists the active
ones. -/
theorem foldl_findVisit (root : JobId) {jobs : List JobRecord}
    (hjobs : ∀ job ∈ jobs, s.jobs.get? job.jobId = some job) (st : Finding)
    (hst : st.summaries = activeSummaries s st.found) :
    let st' := jobs.foldl (findVisit root) st
    (⟨st'.queue, st'.found⟩ : Worklist.State JobId) =
        (jobs.map JobRecord.jobId).foldl (visit root) ⟨st.queue, st.found⟩ ∧
      st'.summaries = activeSummaries s st'.found := by
  induction jobs generalizing st with
  | nil => exact ⟨rfl, hst⟩
  | cons job jobs ih =>
    rw [List.foldl_cons, List.map_cons, List.foldl_cons]
    have hrest := fun j hj => hjobs j (List.mem_cons_of_mem _ hj)
    by_cases hseen : job.jobId = root ∨ job.jobId ∈ st.found
    · rw [findVisit, if_pos hseen, visit, if_pos hseen]
      exact ih hrest st hst
    · rw [findVisit, if_neg hseen, visit, if_neg hseen]
      refine ih hrest _ ?_
      simp only [activeSummaries, List.filterMap_append,
        hjobs job List.mem_cons_self, List.filterMap_cons, List.filterMap_nil, Option.bind_some]
      split_ifs <;> simp [hst, activeSummaries]

theorem findLoop_eq (root : JobId) (fuel : ℕ) (st : Finding)
    (hst : st.summaries = activeSummaries s st.found) :
    (findLoop s root fuel st).summaries =
      activeSummaries s (search (childIds s) root fuel ⟨st.queue, st.found⟩) := by
  induction fuel generalizing st with
  | zero => exact hst
  | succ fuel ih =>
    obtain ⟨queue, found, summaries⟩ := st
    cases queue with
    | nil => exact hst
    | cons current queue =>
      have hjobs : ∀ job ∈ (childrenByAge s current).reverse,
          s.jobs.get? job.jobId = some job := by
        intro job hjob
        exact ((mem_childrenByAge hkey).mp (List.mem_reverse.mp hjob)).1
      obtain ⟨hwalk, hsummaries⟩ :=
        foldl_findVisit root hjobs ⟨queue, found, summaries⟩ hst
      rw [findLoop, ih _ hsummaries, search, hwalk, expand, childIds,
        List.map_reverse]

theorem mem_findDescendants {root : JobId} {x : JobSummary} :
    x ∈ findDescendants s root ↔ ∃ job, s.jobs.get? job.jobId = some job ∧
      Descends s root job.jobId ∧ job.state.isTerminal = false ∧ x = job.summary := by
  rw [findDescendants, List.mem_mergeSort, findLoop_eq hkey _ _ _ rfl, activeSummaries,
    List.mem_filterMap]
  constructor
  · rintro ⟨id, hid, hx⟩
    obtain ⟨job, hjob, hactive⟩ := Option.bind_eq_some_iff.mp hx
    obtain rfl := hkey id job hjob
    obtain ⟨hstate, hsummary⟩ : job.state.isTerminal = false ∧ job.summary = x := by
      simpa using hactive
    exact ⟨job, hjob, (mem_descendants hkey).mp hid, hstate, hsummary.symm⟩
  · rintro ⟨job, hjob, hid, hstate, rfl⟩
    refine ⟨job.jobId, (mem_descendants hkey).mpr hid, ?_⟩
    simp [hjob, hstate]

/-- No job is listed twice. -/
theorem nodup_findDescendants (root : JobId) :
    ((findDescendants s root).map JobSummary.jobId).Nodup := by
  have hperm : (findDescendants s root).Perm (activeSummaries s (descendants s root)) := by
    rw [findDescendants, findLoop_eq hkey _ _ _ rfl]
    exact List.mergeSort_perm _ _
  have hsub : ((activeSummaries s (descendants s root)).map JobSummary.jobId).Sublist
      (descendants s root) := by
    rw [activeSummaries]
    induction descendants s root with
    | nil => exact .slnil
    | cons id ids ih =>
      cases hjob : s.jobs.get? id with
      | none => simpa [hjob] using ih.cons id
      | some job =>
        obtain rfl := hkey id job hjob
        cases hstate : job.state.isTerminal with
        | true => simpa [hjob, hstate] using ih.cons job.jobId
        | false => simpa [hjob, hstate, JobRecord.summary] using ih
  exact (hperm.map _).nodup_iff.mpr (hsub.nodup (descendants_searched hkey root).nodup)

end Graph

/-! ### What is cancelled -/

/-- What the loop of `cancel_descendants` makes of one job. -/
def cancelOne (reason : CancelReason) (now : Timestamp) (job : JobRecord) : JobRecord :=
  match job.state with
  | .scheduled | .queued | .blocked => cancelledRecord job reason now
  | .running => cancelRequestedRecord job reason now
  | _ => job

theorem cancelDescendant_jobs (reason : CancelReason) (now : Timestamp) (r : Cancelling)
    (id id' : JobId) :
    (cancelDescendant reason now r id).store.jobs.get? id' =
      if id' = id then (r.store.jobs.get? id).map (cancelOne reason now)
      else r.store.jobs.get? id' := by
  rw [cancelDescendant]
  cases hjob : r.store.jobs.get? id with
  | none =>
    split_ifs with hid
    · rw [hid, hjob]
      rfl
    · rfl
  | some job =>
    cases hstate : job.state <;> by_cases hid : id' = id <;>
      simp [cancelOne, hstate, hid, hjob]

theorem cancelDescendant_attempts (reason : CancelReason) (now : Timestamp) (r : Cancelling)
    (id : JobId) :
    (cancelDescendant reason now r id).store.attempts = r.store.attempts := by
  rw [cancelDescendant]
  cases r.store.jobs.get? id with
  | none => rfl
  | some job => cases hstate : job.state <;> simp [hstate]

/-- Each job of the list is cancelled once, and no other changes. -/
theorem foldl_cancelDescendant (reason : CancelReason) (now : Timestamp) {ids : List JobId}
    (hids : ids.Nodup) (r : Cancelling) :
    let r' := ids.foldl (cancelDescendant reason now) r
    r'.store.attempts = r.store.attempts ∧ ∀ id, r'.store.jobs.get? id =
      if id ∈ ids then (r.store.jobs.get? id).map (cancelOne reason now)
      else r.store.jobs.get? id := by
  induction ids generalizing r with
  | nil => simp
  | cons a ids ih =>
    obtain ⟨ha, hids⟩ := List.nodup_cons.mp hids
    obtain ⟨hattempts, hjobs⟩ := ih hids (cancelDescendant reason now r a)
    rw [List.foldl_cons]
    refine ⟨hattempts.trans (cancelDescendant_attempts reason now r a), fun id => ?_⟩
    rw [hjobs, cancelDescendant_jobs]
    by_cases hid : id = a
    · simp [hid, ha]
    · simp [hid]

/-- The listing ends, and holds the jobs below the root that are not terminal, each once. -/
def FindsExactly (s : Inner) (root : JobId) : Prop :=
  (∃ n ≤ s.jobs.toList.length + 1, ∃ found,
    Worklist.Ends (childIds s) root ⟨[root], []⟩ n found) ∧
  ((findDescendants s root).map JobSummary.jobId).Nodup ∧
  ∀ x, x ∈ findDescendants s root ↔ ∃ job, s.jobs.get? job.jobId = some job ∧
    Descends s root job.jobId ∧ job.state.isTerminal = false ∧ x = job.summary

/-- Of the jobs below the root that are not terminal, those that run are asked to stop and
the others are cancelled. Nothing else changes. -/
def CancelsExactly (s : Inner) (root : JobId) (reason : CancelReason) (now : Timestamp) :
    Prop :=
  ∃ n s', cancelDescendants root reason now s = .ok n s' ∧
    s'.attempts = s.attempts ∧ ∀ id,
      (∀ job, s.jobs.get? id = some job → Descends s root id → job.state.isTerminal = false →
        s'.jobs.get? id = some (if job.state = .running then cancelRequestedRecord job reason now
          else cancelledRecord job reason now)) ∧
      ((∀ job, s.jobs.get? id = some job → Descends s root id → job.state.isTerminal = true) →
        s'.jobs.get? id = s.jobs.get? id)

theorem findsExactly {s : Inner} (hkey : Keyed s) (root : JobId) : FindsExactly s root := by
  obtain ⟨n, hn, hends⟩ := descendants_ends hkey root
  exact ⟨⟨n, hn, _, hends⟩, nodup_findDescendants hkey root, fun _ => mem_findDescendants hkey⟩

theorem cancelDescendants_jobs {s : Inner} (hkey : Keyed s) (root : JobId)
    (reason : CancelReason) (now : Timestamp) :
    ∃ n s', cancelDescendants root reason now s = .ok n s' ∧ s'.attempts = s.attempts ∧
      ∀ id, (Descends s root id →
          s'.jobs.get? id = (s.jobs.get? id).map (cancelOne reason now)) ∧
        (¬Descends s root id → s'.jobs.get? id = s.jobs.get? id) := by
  obtain ⟨hattempts, hjobs⟩ :=
    foldl_cancelDescendant reason now (descendants_searched hkey root).nodup ⟨s, 0⟩
  refine ⟨_, _, rfl, hattempts, fun id => ?_⟩
  refine ⟨fun h => ?_, fun h => ?_⟩
  · exact (hjobs id).trans (if_pos ((mem_descendants hkey).mpr h))
  · exact (hjobs id).trans (if_neg (mt (mem_descendants hkey).mp h))

/-- Cancelling does what it should to every job that is not interrupted. -/
theorem cancelOne_eq {reason : CancelReason} {now : Timestamp} {job : JobRecord}
    (h : job.state ≠ .interrupted) :
    cancelOne reason now job = if job.state.isTerminal then job
      else if job.state = .running then cancelRequestedRecord job reason now
      else cancelledRecord job reason now := by
  cases hstate : job.state <;> simp_all [cancelOne, JobState.isTerminal]

theorem cancelOne_interrupted {reason : CancelReason} {now : Timestamp} {job : JobRecord}
    (h : job.state = .interrupted) : cancelOne reason now job = job := by
  rw [cancelOne, h]

theorem cancelsExactly_iff {s : Inner} (hkey : Keyed s) (root : JobId) (reason : CancelReason)
    (now : Timestamp) :
    CancelsExactly s root reason now ↔
      ∀ id job, s.jobs.get? id = some job → Descends s root id → job.state ≠ .interrupted := by
  obtain ⟨n, s', hrun, hattempts, hjobs⟩ := cancelDescendants_jobs hkey root reason now
  constructor
  · rintro ⟨n₁, s₁, hrun₁, -, hexact⟩ id job hjob hid hstate
    obtain ⟨-, rfl⟩ := EStateM.Result.ok.inj (hrun.symm.trans hrun₁)
    have hkept : s'.jobs.get? id = some job := by
      rw [(hjobs id).1 hid, hjob, Option.map_some, cancelOne_interrupted hstate]
    have hcancelled := (hexact id).1 job hjob hid (by rw [hstate]; rfl)
    rw [hkept, Option.some.injEq] at hcancelled
    have := congrArg JobRecord.state hcancelled
    rw [hstate] at this
    exact absurd this (by simp [cancelledRecord])
  · intro h
    refine ⟨n, s', hrun, hattempts, fun id => ⟨fun job hjob hid hactive => ?_, fun hall => ?_⟩⟩
    · rw [(hjobs id).1 hid, hjob, Option.map_some, cancelOne_eq (h id job hjob hid), hactive,
        if_neg Bool.false_ne_true]
    · by_cases hid : Descends s root id
      · rw [(hjobs id).1 hid]
        cases hjob : s.jobs.get? id with
        | none => rfl
        | some job =>
          rw [Option.map_some, cancelOne_eq (h id job hjob hid), hall job hjob hid, if_pos rfl]
      · exact (hjobs id).2 hid

/-- Every operation files jobs under their own ids. -/
theorem keyed_of_reached (jsonLen : ExecutionSubjectProvenance → ℕ) (ops : List Operation)
    (hdistinct : (ops.filterMap Operation.freshAttempt).Nodup) :
    Keyed (run jsonLen Inner.empty ops) := by
  obtain ⟨K, hK⟩ := run_consistent jsonLen Inner.consistent_empty hdistinct
    fun a _ => Set.notMem_empty a
  exact fun _ _ hjob => hK.filed.jobKey hjob

/-- What is listed is exact for every root. What is cancelled is exact when no job below
the root is interrupted. -/
theorem descendants_exact_iff (s : Inner) (hkey : Keyed s) (root : JobId)
    (reason : CancelReason) (now : Timestamp) :
    (FindsExactly s root ∧ CancelsExactly s root reason now) ↔
      ∀ id job, s.jobs.get? id = some job → Descends s root id → job.state ≠ .interrupted := by
  rw [cancelsExactly_iff hkey]
  exact and_iff_right (findsExactly hkey root)

theorem descendants_exact_iff_waiting :
    let s := run (fun _ => 0) Inner.empty
      [.createJob sampleSpec "parent" 0,
        .createJob { sampleSpec with parentJobId := some "parent" } "child" 1]
    FindsExactly s "parent" ∧ CancelsExactly s "parent" ⟨"user", "stop"⟩ 9 := by
  intro s
  have hkey : Keyed s := keyed_of_reached _ _ (by decide +kernel)
  have hstates : ∀ p ∈ s.jobs.toList, p.2.state ≠ .interrupted := by decide +kernel
  exact (descendants_exact_iff s hkey "parent" _ 9).mpr fun id job hjob _ =>
    hstates (id, job) ((s.jobs.mem_toList_iff id job).mpr hjob)

/-- A job that waits, with a child whose attempt was interrupted. -/
def interruptedFamily : Inner :=
  run (fun _ => 0) Inner.empty
    [.createJob sampleSpec "parent" 0,
      .createJob { sampleSpec with parentJobId := some "parent" } "child" 1,
      .beginAttempt "child" "g1" "first" 2,
      .finishAttempt ⟨"first", .interrupted, none, none⟩ 3]

/-- The child is interrupted, hence not terminal, and stays as it is. -/
theorem interrupted_child_stays :
    ¬∀ (s : Inner) (root : JobId) (reason : CancelReason) (now : Timestamp), Keyed s →
      FindsExactly s root ∧ CancelsExactly s root reason now := by
  intro h
  have hkey : Keyed interruptedFamily := keyed_of_reached _ _ (by decide +kernel)
  have hstate : (interruptedFamily.jobs.get? "child").map JobRecord.state =
      some .interrupted := by decide +kernel
  obtain ⟨child, hchild, hinterrupted⟩ := Option.map_eq_some_iff.mp hstate
  have hbelow : "child" ∈ descendants interruptedFamily "parent" := by decide +kernel
  exact (cancelsExactly_iff hkey "parent" ⟨"user", "stop"⟩ 9).mp (h _ _ _ _ hkey).2 "child" child
    hchild ((mem_descendants hkey).mp hbelow) hinterrupted

end InMemoryJobStore

end Codegg.Jobs
