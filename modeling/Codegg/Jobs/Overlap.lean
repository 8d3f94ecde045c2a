import Codegg.Jobs.Refusals
import Codegg.Jobs.Lifecycle

/-!
# Overlapping occurrences

The schedules and the jobs of a daemon together: a tick counts the running jobs of each
schedule, decides about the occurrences that are due, and creates the jobs of those that it
materializes; between ticks anything may happen to the jobs. A job that is not running yet
is not counted, so it does not hold the next occurrence of its schedule back.
-/
namespace Codegg.Jobs

open Codegg.Library InMemoryScheduleStore JobState OccurrenceOutcome InMemoryJobStore

/-! ### The job of an occurrence -/

/-- What a schedule has of its jobs. -/
structure JobTemplate where
  kind : JobKind
  payload : String
  resourceRequest : String
  priority : JobPriority
  timeout : Option ℕ
  retryPolicy : RetryPolicy
  idempotency : IdempotencyClass
  target : ExecutionTarget

def JobTemplate.newJobForOccurrence (template : JobTemplate) (workspaceId : String)
    (scheduleId : ScheduleId) (sessionId : Option String) (occurrence : Timestamp) : NewJob where
  workspaceId := workspaceId
  sessionId := sessionId
  turnId := none
  kind := template.kind
  source := .scheduled scheduleId occurrence
  priority := template.priority
  payload := template.payload
  resourceRequest := template.resourceRequest
  timeout := template.timeout
  retryPolicy := template.retryPolicy
  idempotency := template.idempotency
  notBefore := some occurrence
  deadline := none
  scheduleId := some scheduleId
  dependsOn := []
  parentJobId := none
  parentAttemptId := none
  parentCallId := none
  parentProgramId := none
  parentInstructionSequence := none
  relationKind := none
  target := template.target

/-- The fields of a schedule that only its jobs read. -/
structure ScheduledWork where
  workspaceId : String
  sessionId : Option String
  jobTemplate : JobTemplate

def DateTime.timestamp (d : DateTime) : Timestamp := d.secs * 1000000000 + d.nanos

def occurrenceJobId (id : ScheduleId) (t : DateTime) : JobId :=
  newJobId "" (.scheduled id t.timestamp)

/-! ### The daemon -/

structure Daemon where
  schedules : InMemoryScheduleStore
  jobs : Inner

/-- What the gates and the submission say to an occurrence that has no job yet. -/
abbrev Admission := ScheduleId → DateTime → Option MaterializerError

/-- The jobs of a schedule that are running. -/
def countRunningForSchedule (jobs : Inner) (id : ScheduleId) : ℕ :=
  (jobs.jobs.values.filter fun job =>
    decide (job.state = .running) && decide (job.scheduleId = some id)).length

/-- An occurrence that has a job already keeps it. -/
def scheduleMaterializer (jobs : Inner) (admission : Admission) : Materializer := fun r t =>
  match jobs.jobs.get? (occurrenceJobId r.scheduleId t) with
  | some existing => .ok existing.jobId
  | none =>
    match admission r.scheduleId t with
    | some e => .error e
    | none => .ok (occurrenceJobId r.scheduleId t)

section

variable (works : ScheduleId → ScheduledWork)

def occurrenceSpec (id : ScheduleId) (t : DateTime) : NewJob :=
  (works id).jobTemplate.newJobForOccurrence (works id).workspaceId id (works id).sessionId
    t.timestamp

/-- Create the job of a claim that was materialized. -/
def submit (now : DateTime) (jobs : Inner) (c : ClaimedOccurrence) : Inner :=
  if c.status = .queued then
    finalState (createJob (occurrenceSpec works c.scheduleId c.scheduledFor) ""
      now.timestamp jobs)
  else jobs

namespace Daemon

/-- What a tick claims. -/
def claims (d : Daemon) (now : DateTime) (admission : Admission) : List ClaimedOccurrence :=
  (d.schedules.claimDue now (countRunningForSchedule d.jobs)
    (scheduleMaterializer d.jobs admission)).2

def tick (d : Daemon) (now : DateTime) (admission : Admission) : Daemon where
  schedules := (d.schedules.claimDue now (countRunningForSchedule d.jobs)
    (scheduleMaterializer d.jobs admission)).1
  jobs := (d.claims now admission).foldl (submit works now) d.jobs

end Daemon

end

/-- A tick, or an operation on the job store between ticks. -/
inductive Move
  | tick (now : DateTime) (admission : Admission)
  | jobs (op : Operation)

section

variable (works : ScheduleId → ScheduledWork) (jsonLen : ExecutionSubjectProvenance → ℕ)

namespace Daemon

def move (d : Daemon) : Move → Daemon
  | .tick now admission => d.tick works now admission
  | .jobs op => { d with jobs := finalState (perform jsonLen op d.jobs) }

def run (d : Daemon) (moves : List Move) : Daemon := moves.foldl (move works jsonLen) d

end Daemon

end

/-! ### Overlaps -/

def JobRecord.isOccurrenceOf (id : ScheduleId) (job : JobRecord) : Bool :=
  match job.source with
  | .scheduled scheduleId _ => decide (scheduleId = id)
  | _ => false

/-- The jobs of the occurrences of a schedule that are in some states. -/
def occurrenceJobs (p : JobState → Bool) (jobs : Inner) (id : ScheduleId) : List JobId :=
  (jobs.jobs.toList.filter fun b => b.2.isOccurrenceOf id && p b.2.state).map (·.1)

/-- Not terminal. -/
def JobState.isOpen (s : JobState) : Bool := !s.isTerminal

/-- Not terminal and not running. -/
def JobState.isPending (s : JobState) : Bool := !s.isTerminal && decide (s ≠ .running)

namespace Daemon

/-- A tick materializes an occurrence while the job of another one of the schedule is open. -/
def MaterializesOver (works : ScheduleId → ScheduledWork) (d : Daemon) (now : DateTime)
    (admission : Admission) (id : ScheduleId) : Prop :=
  ∃ before c after, d.claims now admission = before ++ c :: after ∧ c.scheduleId = id ∧
    c.status = .queued ∧
      ∃ jid ∈ occurrenceJobs isOpen (before.foldl (submit works now) d.jobs) id,
        jid ≠ occurrenceJobId id c.scheduledFor

/-- None of the schedule's jobs is running, the job of another occurrence is in one of some
states, and the first occurrence that is owed is not refused. -/
def Collides (p : JobState → Bool) (d : Daemon) (now : DateTime) (admission : Admission)
    (id : ScheduleId) : Prop :=
  ∃ r t job, d.schedules.schedules.get? id = some r ∧ isDue now r = true ∧
    countRunningForSchedule d.jobs id = 0 ∧
    (missedRunTargets r.kind r.lastOccurrenceAt now r.missedRunPolicy).head? = some t ∧
    scheduleMaterializer d.jobs admission r t = .ok job ∧
    ∃ jid ∈ occurrenceJobs p d.jobs id, jid ≠ occurrenceJobId id t

end Daemon

/-! ### The jobs after some submissions -/

section

variable {works : ScheduleId → ScheduledWork} {now : DateTime} {jobs : Inner} {id : ScheduleId}
  {p : JobState → Bool} {jid : JobId} {job : JobRecord} {c : ClaimedOccurrence}

theorem mem_occurrenceJobs : jid ∈ occurrenceJobs p jobs id ↔
    ∃ job, jobs.jobs.get? jid = some job ∧ job.isOccurrenceOf id = true ∧ p job.state = true := by
  simp [occurrenceJobs, SortedMap.mem_toList_iff]

theorem nodup_occurrenceJobs : (occurrenceJobs p jobs id).Nodup :=
  (List.filter_sublist.map _).nodup jobs.jobs.keys_nodup

/-- A submission creates the job of its occurrence, or changes nothing. -/
theorem submit_cases (works : ScheduleId → ScheduledWork) (now : DateTime) (jobs : Inner)
    (c : ClaimedOccurrence) :
    submit works now jobs c = jobs ∨ (c.status = .queued ∧
      jobs.jobs.get? (occurrenceJobId c.scheduleId c.scheduledFor) = none ∧
        ∃ job : JobRecord, job.source = .scheduled c.scheduleId c.scheduledFor.timestamp ∧
          submit works now jobs c =
            jobs.insertJob (occurrenceJobId c.scheduleId c.scheduledFor) job) := by
  unfold submit
  set spec := occurrenceSpec works c.scheduleId c.scheduledFor
  have hid : newJobId "" spec.source = occurrenceJobId c.scheduleId c.scheduledFor := rfl
  split
  · rename_i hqueued
    cases hold : jobs.jobs.get? (newJobId "" spec.source) with
    | some existing =>
      rw [createJob_existing hold]
      exact .inl rfl
    | none =>
      rw [createJob_new hold]
      exact .inr ⟨hqueued, hid ▸ hold, _, rfl, rfl⟩
  · exact .inl rfl

/-- No submission changes a job. -/
theorem get?_submit (h : jobs.jobs.get? jid = some job) :
    (submit works now jobs c).jobs.get? jid = some job := by
  rcases submit_cases works now jobs c with heq | ⟨-, hnone, new, -, heq⟩
  · rw [heq, h]
  · rw [heq, Inner.get?_jobs_insertJob]
    split
    · rename_i hid
      rw [hid, hnone] at h
      cases h
    · exact h

/-- The jobs of a schedule after a submission. -/
theorem occurrence_of_submit (h : (submit works now jobs c).jobs.get? jid = some job)
    (hid : job.isOccurrenceOf id = true) :
    jobs.jobs.get? jid = some job ∨ (c.status = .queued ∧ c.scheduleId = id ∧
      jid = occurrenceJobId id c.scheduledFor) := by
  rcases submit_cases works now jobs c with heq | ⟨hqueued, -, new, hsource, heq⟩
  · rw [heq] at h
    exact .inl h
  · rw [heq, Inner.get?_jobs_insertJob] at h
    split at h
    · rename_i hjid
      cases h
      have hsame : c.scheduleId = id := by simpa [JobRecord.isOccurrenceOf, hsource] using hid
      exact .inr ⟨hqueued, hsame, hsame ▸ hjid⟩
    · exact .inl h

theorem get?_submits (cs : List ClaimedOccurrence) (h : jobs.jobs.get? jid = some job) :
    (cs.foldl (submit works now) jobs).jobs.get? jid = some job := by
  induction cs generalizing jobs with
  | nil => exact h
  | cons c cs ih => exact ih (get?_submit h)

theorem occurrence_of_submits (cs : List ClaimedOccurrence)
    (h : (cs.foldl (submit works now) jobs).jobs.get? jid = some job)
    (hid : job.isOccurrenceOf id = true) :
    jobs.jobs.get? jid = some job ∨ ∃ c ∈ claimsOf id cs, c.status = .queued ∧
      jid = occurrenceJobId id c.scheduledFor := by
  induction cs generalizing jobs with
  | nil => exact .inl h
  | cons c cs ih =>
    have hcons : claimsOf id (c :: cs) = claimsOf id [c] ++ claimsOf id cs := claimsOf_append id [c] cs
    rw [hcons]
    rcases ih h with hold | ⟨c', hc', hqueued, hjid⟩
    · rcases occurrence_of_submit hold hid with hold | ⟨hqueued, hsame, hjid⟩
      · exact .inl hold
      · exact .inr ⟨c, List.mem_append_left _ (by simp [claimsOf, hsame]), hqueued, hjid⟩
    · exact .inr ⟨c', List.mem_append_right _ hc', hqueued, hjid⟩

end

/-! ### The decisions of a guarded schedule -/

section

variable {materialize : Materializer} {r : ScheduleRecord} {running : ℕ} {t : DateTime}
  {targets : List DateTime}

/-- Once a job of the schedule is counted, nothing is materialized. -/
theorem decideTargets_running (hguarded : r.overlapPolicy ≠ .allow) (hrunning : 0 < running)
    (targets : List DateTime) :
    decideTargets materialize r targets running = targets.map fun t => (t, .skipped) := by
  induction targets with
  | nil => rfl
  | cons t targets ih =>
    have hskip : shouldSkip r.overlapPolicy running = true := by
      cases hp : r.overlapPolicy <;> simp_all [shouldSkip]
    rw [decideTargets, if_pos hskip, ih]
    rfl

/-- Otherwise at most the first target is. -/
theorem decideTargets_idle (hguarded : r.overlapPolicy ≠ .allow) (targets : List DateTime) :
    decideTargets materialize r (t :: targets) 0 =
      match materialize r t with
      | .ok job => (t, .queued job) :: targets.map fun t => (t, .skipped)
      | .error e => [(t, .failed e.code)] := by
  have hskip : ¬shouldSkip r.overlapPolicy 0 = true := by
    cases r.overlapPolicy <;> simp [shouldSkip]
  rw [decideTargets, if_neg hskip]
  cases materialize r t with
  | ok job => rw [decideTargets_running hguarded Nat.one_pos]
  | error e => rfl

/-- What such a schedule materializes is the first target, and it is materialized first. -/
theorem decideTargets_queued {before after : List (DateTime × OccurrenceOutcome)} {job : JobId}
    (hguarded : r.overlapPolicy ≠ .allow)
    (h : decideTargets materialize r targets running = before ++ (t, .queued job) :: after) :
    running = 0 ∧ targets.head? = some t ∧ materialize r t = .ok job ∧ before = [] := by
  rcases Nat.eq_zero_or_pos running with rfl | hrunning
  · cases targets with
    | nil => simp [decideTargets] at h
    | cons first targets =>
      rw [decideTargets_idle hguarded] at h
      cases hm : materialize r first with
      | ok job' =>
        rw [hm] at h
        cases before with
        | nil =>
          obtain ⟨⟨rfl, rfl⟩, -⟩ := h
          exact ⟨rfl, rfl, hm, rfl⟩
        | cons b before =>
          rw [List.cons_append, List.cons.injEq] at h
          have hmem : (t, queued job) ∈
              targets.map fun t => (t, skipped) := by
            rw [h.2]
            simp
          simp at hmem
      | error e =>
        rw [hm] at h
        have hmem : (t, queued job) ∈ [(first, failed e.code)] := by
          rw [show [(first, failed e.code)] = _ from h]
          simp
        simp at hmem
  · rw [decideTargets_running hguarded hrunning] at h
    have hmem : (t, queued job) ∈
        targets.map fun t => (t, skipped) := by
      rw [h]
      simp
    simp at hmem

end

/-! ### One tick -/

section

variable {works : ScheduleId → ScheduledWork} {d : Daemon} {now : DateTime} {admission : Admission}
  {id : ScheduleId} {r : ScheduleRecord}

theorem claimsOf_claims_tick (hr : d.schedules.schedules.get? id = some r) :
    claimsOf id (d.claims now admission) =
      if isDue now r then
        (decideTargets (scheduleMaterializer d.jobs admission) r
          (missedRunTargets r.kind r.lastOccurrenceAt now r.missedRunPolicy)
          (countRunningForSchedule d.jobs id)).map (claimOf id)
      else [] := by
  unfold Daemon.claims
  cases hdue : isDue now r with
  | true =>
    rw [(claims_of_due _ _ hr hdue).2, ← d.schedules.keyed id r hr]
    rfl
  | false =>
    rw [(claims_of_not_due _ _ hr hdue).2]
    rfl

/-- A claim of a guarded schedule that was materialized is the first one of its tick. -/
theorem queued_claim (hr : d.schedules.schedules.get? id = some r)
    (hguarded : r.overlapPolicy ≠ .allow) {before after : List ClaimedOccurrence}
    {c : ClaimedOccurrence} (hclaims : d.claims now admission = before ++ c :: after)
    (hid : c.scheduleId = id) (hqueued : c.status = .queued) :
    isDue now r = true ∧ countRunningForSchedule d.jobs id = 0 ∧
      (missedRunTargets r.kind r.lastOccurrenceAt now r.missedRunPolicy).head? =
        some c.scheduledFor ∧
      (∃ job, scheduleMaterializer d.jobs admission r c.scheduledFor = .ok job) ∧
      claimsOf id before = [] := by
  have hof := @claimsOf_claims_tick d now admission id r hr
  have hc : claimsOf id (c :: after) = c :: claimsOf id after := by simp [claimsOf, hid]
  rw [hclaims, claimsOf_append, hc] at hof
  cases hdue : isDue now r with
  | false => simp [hdue] at hof
  | true =>
    rw [if_pos hdue] at hof
    obtain ⟨ds, rest, hdecided, hbefore, hrest⟩ := List.map_eq_append_iff.mp hof.symm
    obtain ⟨dec, others, rfl, hdec, -⟩ := List.map_eq_cons_iff.mp hrest
    obtain ⟨t, outcome⟩ := dec
    cases outcome with
    | queued job =>
      obtain ⟨hidle, hhead, hok, rfl⟩ := decideTargets_queued hguarded hdecided
      rw [← hdec]
      exact ⟨rfl, hidle, hhead, ⟨job, hok⟩, hbefore.symm⟩
    | skipped =>
      rw [← hdec] at hqueued
      cases hqueued
    | failed code =>
      rw [← hdec] at hqueued
      cases hqueued

theorem exists_queued_claim (hr : d.schedules.schedules.get? id = some r)
    (hguarded : r.overlapPolicy ≠ .allow) {t : DateTime} {job : JobId} (hdue : isDue now r = true)
    (hidle : countRunningForSchedule d.jobs id = 0)
    (hhead : (missedRunTargets r.kind r.lastOccurrenceAt now r.missedRunPolicy).head? = some t)
    (hok : scheduleMaterializer d.jobs admission r t = .ok job) :
    ∃ before c after, d.claims now admission = before ++ c :: after ∧ c.scheduleId = id ∧
      c.status = .queued ∧ c.scheduledFor = t := by
  obtain ⟨targets, htargets⟩ := List.head?_eq_some_iff.mp hhead
  have hof := @claimsOf_claims_tick d now admission id r hr
  rw [if_pos hdue, hidle, htargets, decideTargets_idle hguarded, hok] at hof
  have hmem : claimOf id (t, .queued job) ∈ claimsOf id (d.claims now admission) := by
    rw [hof]
    exact List.mem_cons_self
  obtain ⟨before, after, hsplit⟩ := List.append_of_mem (List.mem_of_mem_filter hmem)
  exact ⟨before, _, after, hsplit, rfl, rfl, rfl⟩

/-- A tick materializes over an open job exactly when it finds none of them running. -/
theorem materializesOver_iff (hr : d.schedules.schedules.get? id = some r)
    (hguarded : r.overlapPolicy ≠ .allow) :
    d.MaterializesOver works now admission id ↔ d.Collides isOpen now admission id := by
  constructor
  · rintro ⟨before, c, after, hclaims, hid, hqueued, jid, hjid, hne⟩
    obtain ⟨hdue, hidle, hhead, ⟨job, hok⟩, hnone⟩ :=
      queued_claim hr hguarded hclaims hid hqueued
    refine ⟨r, c.scheduledFor, job, hr, hdue, hidle, hhead, hok, jid, ?_, hne⟩
    obtain ⟨job', hget, hof, hopen⟩ := mem_occurrenceJobs.mp hjid
    rcases occurrence_of_submits before hget hof with hold | ⟨c', hc', -⟩
    · exact mem_occurrenceJobs.mpr ⟨job', hold, hof, hopen⟩
    · rw [hnone] at hc'
      cases hc'
  · rintro ⟨r', t, job, hr', hdue, hidle, hhead, hok, jid, hjid, hne⟩
    rw [hr] at hr'
    cases hr'
    obtain ⟨before, c, after, hclaims, hid, hqueued, rfl⟩ :=
      exists_queued_claim hr hguarded hdue hidle hhead hok
    obtain ⟨job', hget, hof, hopen⟩ := mem_occurrenceJobs.mp hjid
    exact ⟨before, c, after, hclaims, hid, hqueued, jid,
      mem_occurrenceJobs.mpr ⟨job', get?_submits before hget, hof, hopen⟩, hne⟩

/-- No two jobs of a list. -/
def AtMostOne (jids : List JobId) : Prop := ∀ a ∈ jids, ∀ b ∈ jids, a = b

theorem atMostOne_iff {p : JobState → Bool} {jobs : Inner} :
    AtMostOne (occurrenceJobs p jobs id) ↔ (occurrenceJobs p jobs id).length ≤ 1 := by
  have hnodup := @nodup_occurrenceJobs jobs id p
  generalize occurrenceJobs p jobs id = jids at hnodup
  constructor
  · intro h
    match jids, hnodup with
    | [], _ => exact Nat.zero_le 1
    | [_], _ => exact le_rfl
    | a :: b :: rest, hnodup =>
      have hab : a = b := h a (by simp) b (by simp)
      subst hab
      simp at hnodup
  · intro h a ha b hb
    obtain ⟨c, rfl⟩ | rfl : (∃ c, jids = [c]) ∨ jids = [] := by
      match jids, h with
      | [], _ => exact .inr rfl
      | [c], _ => exact .inl ⟨c, rfl⟩
      | _ :: _ :: _, h => simp at h
    · rw [List.mem_singleton.mp ha, List.mem_singleton.mp hb]
    · cases ha

/-- A tick that does not collide leaves at most one job of the schedule pending. -/
theorem tick_pending (hr : d.schedules.schedules.get? id = some r)
    (hguarded : r.overlapPolicy ≠ .allow)
    (hone : AtMostOne (occurrenceJobs isPending d.jobs id))
    (hclear : ¬d.Collides isPending now admission id) :
    AtMostOne (occurrenceJobs isPending (d.tick works now admission).jobs id) := by
  by_cases hmade : ∃ c ∈ claimsOf id (d.claims now admission), c.status = .queued
  · -- everything that is pending is the job of the occurrence the tick materialized
    obtain ⟨c, hc, hqueued⟩ := hmade
    have hfirst : ∀ c' ∈ claimsOf id (d.claims now admission), c'.status = .queued →
        isDue now r = true ∧ countRunningForSchedule d.jobs id = 0 ∧
          (missedRunTargets r.kind r.lastOccurrenceAt now r.missedRunPolicy).head? =
            some c'.scheduledFor ∧
          ∃ job, scheduleMaterializer d.jobs admission r c'.scheduledFor = .ok job := by
      intro c' hc' hqueued'
      obtain ⟨hmem, hid⟩ := List.mem_filter.mp hc'
      obtain ⟨before, after, hsplit⟩ := List.append_of_mem hmem
      obtain ⟨hdue, hidle, hhead, hok, -⟩ :=
        queued_claim hr hguarded hsplit (by simpa using hid) hqueued'
      exact ⟨hdue, hidle, hhead, hok⟩
    obtain ⟨hdue, hidle, hhead, job, hok⟩ := hfirst c hc hqueued
    have hall : ∀ a ∈ occurrenceJobs isPending (d.tick works now admission).jobs id,
        a = occurrenceJobId id c.scheduledFor := by
      intro a ha
      obtain ⟨job', hget, hof, hpending⟩ := mem_occurrenceJobs.mp ha
      rcases occurrence_of_submits _ hget hof with hold | ⟨c', hc', hqueued', ha⟩
      · by_contra hne
        exact hclear ⟨r, c.scheduledFor, job, hr, hdue, hidle, hhead, hok, a,
          mem_occurrenceJobs.mpr ⟨job', hold, hof, hpending⟩, hne⟩
      · obtain ⟨-, -, hhead', -⟩ := hfirst c' hc' hqueued'
        rw [hhead, Option.some.injEq] at hhead'
        rw [ha, hhead']
    intro a ha b hb
    rw [hall a ha, hall b hb]
  · have hold : ∀ a ∈ occurrenceJobs isPending (d.tick works now admission).jobs id,
        a ∈ occurrenceJobs isPending d.jobs id := by
      intro a ha
      obtain ⟨job, hget, hof, hpending⟩ := mem_occurrenceJobs.mp ha
      rcases occurrence_of_submits _ hget hof with hold | ⟨c, hc, hqueued, -⟩
      · exact mem_occurrenceJobs.mpr ⟨job, hold, hof, hpending⟩
      · exact absurd ⟨c, hc, hqueued⟩ hmade
    exact fun a ha b hb => hone a (hold a ha) b (hold b hb)

end

/-! ### Runs -/

section

variable (works : ScheduleId → ScheduledWork) (jsonLen : ExecutionSubjectProvenance → ℕ)

namespace Daemon

/-- Something holds of every move of a run and the state it finds. -/
def EveryMove (P : Daemon → Move → Prop) (d : Daemon) (moves : List Move) : Prop :=
  ∀ before m after, moves = before ++ m :: after → P (d.run works jsonLen before) m

/-- A tick materializes nothing over an open job. -/
def NoOverlap (id : ScheduleId) (d : Daemon) : Move → Prop
  | .tick now admission => ¬d.MaterializesOver works now admission id
  | .jobs _ => True

/-- A tick does not find the schedule with no running job, one in some other states, and an
occurrence to materialize. -/
def Clear (p : JobState → Bool) (id : ScheduleId) (d : Daemon) : Move → Prop
  | .tick now admission => ¬d.Collides p now admission id
  | .jobs _ => True

/-- A job that becomes pending between ticks is then the only one of the schedule. -/
def ComesAlone (id : ScheduleId) (d : Daemon) : Move → Prop
  | .tick _ _ => True
  | .jobs op =>
    let after := finalState (perform jsonLen op d.jobs)
    ∀ a ∈ occurrenceJobs isPending after id,
      a ∉ occurrenceJobs isPending d.jobs id →
        ∀ b ∈ occurrenceJobs isPending after id, b = a

end Daemon

variable {works jsonLen} {d : Daemon} {id : ScheduleId} {r : ScheduleRecord}

theorem everyMove_nil {P : Daemon → Move → Prop} : d.EveryMove works jsonLen P [] := by
  intro before m after h
  simp at h

theorem everyMove_cons {P : Daemon → Move → Prop} {m : Move} {moves : List Move} (hm : P d m)
    (hmoves : (d.move works jsonLen m).EveryMove works jsonLen P moves) :
    d.EveryMove works jsonLen P (m :: moves) := by
  intro before m' after h
  cases before with
  | nil =>
    obtain ⟨rfl, -⟩ := h
    exact hm
  | cons b before =>
    rw [List.cons_append, List.cons.injEq] at h
    obtain ⟨rfl, h⟩ := h
    exact hmoves before m' after h

theorem run_snoc (moves : List Move) (m : Move) :
    d.run works jsonLen (moves ++ [m]) = (d.run works jsonLen moves).move works jsonLen m := by
  simp [Daemon.run]

/-- A schedule keeps its policy. -/
theorem run_policy (hr : d.schedules.schedules.get? id = some r) (moves : List Move) :
    ∃ r', (d.run works jsonLen moves).schedules.schedules.get? id = some r' ∧
      r'.overlapPolicy = r.overlapPolicy := by
  induction moves using List.reverseRecOn with
  | nil => exact ⟨r, hr, rfl⟩
  | append_singleton moves m ih =>
    obtain ⟨r', hr', hpolicy⟩ := ih
    rw [run_snoc]
    cases m with
    | jobs op => exact ⟨r', hr', hpolicy⟩
    | tick now admission =>
      cases hdue : isDue now r' with
      | true => exact ⟨_, (claims_of_due _ _ hr' hdue).1, hpolicy⟩
      | false => exact ⟨r', (claims_of_not_due _ _ hr' hdue).1, hpolicy⟩

theorem run_pending (hr : d.schedules.schedules.get? id = some r)
    (hguarded : r.overlapPolicy ≠ .allow)
    (hstart : AtMostOne (occurrenceJobs isPending d.jobs id)) (moves : List Move)
    (hclear : d.EveryMove works jsonLen (Daemon.Clear isPending id) moves)
    (halone : d.EveryMove works jsonLen (Daemon.ComesAlone jsonLen id) moves) :
    AtMostOne (occurrenceJobs isPending (d.run works jsonLen moves).jobs id) := by
  induction moves using List.reverseRecOn with
  | nil => exact hstart
  | append_singleton moves m ih =>
    have hshort : ∀ P, d.EveryMove works jsonLen P (moves ++ [m]) →
        d.EveryMove works jsonLen P moves := fun P h before m' after hsplit =>
      h before m' (after ++ [m]) (by rw [hsplit]; simp)
    have hone := ih (hshort _ hclear) (hshort _ halone)
    have hclear' := hclear moves m [] rfl
    have halone' := halone moves m [] rfl
    rw [run_snoc]
    cases m with
    | tick now admission =>
      obtain ⟨r', hr', hpolicy⟩ := @run_policy works jsonLen d id r hr moves
      exact tick_pending hr' (by rwa [hpolicy]) hone hclear'
    | jobs op =>
      intro a ha b hb
      by_cases hnew : a ∈ occurrenceJobs isPending (d.run works jsonLen moves).jobs id
      · by_cases hnew' : b ∈ occurrenceJobs isPending (d.run works jsonLen moves).jobs id
        · exact hone a hnew b hnew'
        · exact halone' b hb hnew' a ha
      · exact (halone' a ha hnew b hb).symm

/-- What the two policies promise of every run, and when they keep it. -/
theorem run_overlap_iff (hr : d.schedules.schedules.get? id = some r) (moves : List Move) :
    (r.overlapPolicy = .skipIfRunning →
      (d.EveryMove works jsonLen (Daemon.NoOverlap works id) moves ↔
        d.EveryMove works jsonLen (Daemon.Clear JobState.isOpen id) moves)) ∧
    (r.overlapPolicy = .queueOne →
      (occurrenceJobs JobState.isPending d.jobs id).length ≤ 1 →
      d.EveryMove works jsonLen (Daemon.Clear JobState.isPending id) moves →
      d.EveryMove works jsonLen (Daemon.ComesAlone jsonLen id) moves →
      ∀ before after, moves = before ++ after →
        (occurrenceJobs JobState.isPending (d.run works jsonLen before).jobs id).length ≤ 1) := by
  constructor
  · intro hskip
    refine forall_congr' fun before => forall_congr' fun m => forall_congr' fun after =>
      imp_congr_right fun _ => ?_
    cases m with
    | jobs op => exact Iff.rfl
    | tick now admission =>
      obtain ⟨r', hr', hpolicy⟩ := @run_policy works jsonLen d id r hr before
      have hguarded : r'.overlapPolicy ≠ .allow := by simp [hpolicy, hskip]
      exact not_congr (materializesOver_iff hr' hguarded)
  · rintro hqueue hstart hclear halone before after rfl
    have hshort : ∀ P, d.EveryMove works jsonLen P (before ++ after) →
        d.EveryMove works jsonLen P before := fun P h before' m after' hsplit =>
      h before' m (after' ++ after) (by rw [hsplit]; simp)
    exact atMostOne_iff.mp (run_pending hr (by simp [hqueue]) (atMostOne_iff.mpr hstart) before
      (hshort _ hclear) (hshort _ halone))

end

/-! ### A job that waits -/

def sampleWork (_ : ScheduleId) : ScheduledWork where
  workspaceId := "w"
  sessionId := none
  jobTemplate :=
    { kind := .build
      payload := ""
      resourceRequest := ""
      priority := .normal
      timeout := none
      retryPolicy := ⟨3⟩
      idempotency := .readOnly
      target := .local }

/-- One schedule, every ten seconds from the tenth on. -/
def nightlyDaemon (policy : OverlapPolicy) : Daemon where
  schedules := empty.create "nightly" { guarded with overlapPolicy := policy } (atSecond 5)
  jobs := Inner.empty

/-- Two ticks between which the first job stays queued. -/
def twoMoves : List Move :=
  [.tick (atSecond 12) fun _ _ => none, .tick (atSecond 22) fun _ _ => none]

theorem queued_job_not_seen :
    ¬(nightlyDaemon .skipIfRunning).EveryMove sampleWork (fun _ => 0)
        (Daemon.NoOverlap sampleWork "nightly") twoMoves ∧
      (occurrenceJobs JobState.isPending
        ((nightlyDaemon .queueOne).run sampleWork (fun _ => 0) twoMoves).jobs "nightly").length = 2 := by
  refine ⟨fun h => h [.tick (atSecond 12) fun _ _ => none] _ [] rfl ?_, by decide +kernel⟩
  have hclaims : (((nightlyDaemon .skipIfRunning).run sampleWork (fun _ => 0)
      [.tick (atSecond 12) fun _ _ => none]).claims (atSecond 22) fun _ _ => none).map
        (fun c => (c.scheduleId, c.scheduledFor, c.status)) =
          [("nightly", atSecond 20, .queued)] := by
    decide +kernel
  obtain ⟨c, hc, hfields⟩ := List.map_eq_singleton_iff.mp hclaims
  simp only [Prod.mk.injEq] at hfields
  obtain ⟨hid, ht, hqueued⟩ := hfields
  refine ⟨[], c, [], hc, hid, hqueued, "occ-nightly-10000", by decide +kernel, ?_⟩
  rw [ht]
  decide +kernel

/-- The same ticks, but the first job is running at the second one. -/
def runningMoves : List Move :=
  [.tick (atSecond 12) fun _ _ => none, .jobs (.beginAttempt "occ-nightly-10000" "g" "first" 13),
    .jobs (.markAttemptRunning "first" 14), .tick (atSecond 22) fun _ _ => none]

theorem clear_runningMoves : (nightlyDaemon .queueOne).EveryMove sampleWork (fun _ => 0)
    (Daemon.Clear isPending "nightly") runningMoves := by
  refine everyMove_cons ?_ (everyMove_cons trivial (everyMove_cons trivial
    (everyMove_cons ?_ everyMove_nil)))
  · rintro ⟨r, t, job, -, -, -, -, -, jid, hjid, -⟩
    cases hjid
  · rintro ⟨r, t, job, -, -, hidle, -⟩
    revert hidle
    decide +kernel

theorem comesAlone_runningMoves : (nightlyDaemon .queueOne).EveryMove sampleWork (fun _ => 0)
    (Daemon.ComesAlone (fun _ => 0) "nightly") runningMoves := by
  refine everyMove_cons trivial (everyMove_cons ?_ (everyMove_cons ?_
    (everyMove_cons trivial everyMove_nil)))
  all_goals
    simp only [Daemon.ComesAlone]
    decide +kernel

theorem run_overlap_iff_runningMoves :
    ((nightlyDaemon .skipIfRunning).EveryMove sampleWork (fun _ => 0)
        (Daemon.NoOverlap sampleWork "nightly") runningMoves ↔
      (nightlyDaemon .skipIfRunning).EveryMove sampleWork (fun _ => 0)
        (Daemon.Clear JobState.isOpen "nightly") runningMoves) ∧
    ∀ before after, runningMoves = before ++ after →
      (occurrenceJobs JobState.isPending
        ((nightlyDaemon .queueOne).run sampleWork (fun _ => 0) before).jobs "nightly").length ≤ 1 :=
  ⟨(run_overlap_iff (get?_create _ _ _ _) runningMoves).1 rfl,
    (run_overlap_iff (get?_create _ _ _ _) runningMoves).2 rfl (Nat.zero_le 1) clear_runningMoves
      comesAlone_runningMoves⟩

end Codegg.Jobs
