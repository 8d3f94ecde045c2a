import Codegg.Projection.Snapshot

/-!
# Job updates out of order

A snapshot keeps one slot for a job. An update that names another attempt than the slot counts
as late when its time is before the slot's, and as the next attempt otherwise. The time does
not say which of the two attempts came first: an update of an attempt that the slot has left
behind takes the slot back unless it is older, or ends a job that has not ended.
-/
namespace Codegg.Projection

open Codegg.Library JobProjection

deriving instance DecidableEq for JobProjection

/-- The slot of a job. -/
def SessionProjectionSnapshot.jobSlot (s : SessionProjectionSnapshot) (jobId : String) :
    Option JobProjection :=
  s.jobs.find? fun slot => slot.jobId == jobId

/-- The snapshot after some updates. -/
def upsertJobs (s : SessionProjectionSnapshot) (jobs : List JobProjection) :
    SessionProjectionSnapshot :=
  jobs.foldl SessionProjectionSnapshot.upsertJob s

theorem upsertJobs_concat (s : SessionProjectionSnapshot) (jobs : List JobProjection)
    (job : JobProjection) : upsertJobs s (jobs ++ [job]) = (upsertJobs s jobs).upsertJob job := by
  rw [upsertJobs, List.foldl_append]
  rfl

/-- The slot of a job named an attempt in some state of a run. -/
def Held (s : SessionProjectionSnapshot) (jobs : List JobProjection) (jobId attempt : String) :
    Prop :=
  ∃ before slot, before <+: jobs ∧ (upsertJobs s before).jobSlot jobId = some slot ∧
    slot.activeAttemptId = some attempt

/-- The update names an attempt that the slot named before and does not name now. -/
def NamesLeft (s : SessionProjectionSnapshot) (done : List JobProjection) (slot job : JobProjection) :
    Prop :=
  ∃ attempt, job.activeAttemptId = some attempt ∧ Held s done job.jobId attempt ∧
    slot.activeAttemptId ≠ some attempt

/-- The update names an attempt that the slot never named. -/
def NamesNew (s : SessionProjectionSnapshot) (done : List JobProjection) (job : JobProjection) :
    Prop :=
  ∃ attempt, job.activeAttemptId = some attempt ∧ ¬Held s done job.jobId attempt

/-- An update of an attempt left behind changes neither state nor attempt of the slot, and a
job that has ended goes on only with an update of a new attempt. -/
structure OrderKept (s : SessionProjectionSnapshot) (done : List JobProjection)
    (slot job slot' : JobProjection) : Prop where
  left : NamesLeft s done slot job →
    slot'.state = slot.state ∧ slot'.activeAttemptId = slot.activeAttemptId
  resurrected : terminalJobState slot.state = true → terminalJobState slot'.state = false →
    NamesNew s done job

namespace JobProjection

variable {slot job : JobProjection}

/-- The slot after an update. -/
def next (slot job : JobProjection) : JobProjection :=
  if slot.ignores job then slot else slot.merge job

/-- The order of the times, or of the states, shows that the update is late. -/
def ShownLate (slot job : JobProjection) : Prop :=
  if slot.activeAttemptId = none then jobStateRank job.state < jobStateRank slot.state
  else job.updatedAt < slot.updatedAt ∨
    (terminalJobState job.state = true ∧ terminalJobState slot.state = false)

theorem jobStateRank_eq_three {state : String} (h : terminalJobState state = true) :
    jobStateRank state = 3 := by
  have hnames : trimmedLower state ∈
      ["completed", "succeeded", "failed", "cancelled", "timed_out", "interrupted", "expired"] := by
    simpa [terminalJobState] using h
  have hrank : ∀ name ∈
      ["completed", "succeeded", "failed", "cancelled", "timed_out", "interrupted", "expired"],
      name ∉ ["created", "scheduled"] ∧ name ∉ ["queued", "blocked"] ∧
        name ∉ ["started", "running"] := by decide
  obtain ⟨h₁, h₂, h₃⟩ := hrank _ hnames
  simp only [jobStateRank, List.contains_iff_mem, if_neg h₁, if_neg h₂, if_neg h₃, if_pos hnames]

theorem jobStateRank_lt_three {state : String} (h : terminalJobState state = false) :
    jobStateRank state < 3 := by
  have hnames : trimmedLower state ∉
      ["completed", "succeeded", "failed", "cancelled", "timed_out", "interrupted", "expired"] := by
    simpa [terminalJobState] using h
  simp only [jobStateRank, List.contains_iff_mem]
  split_ifs <;> omega

theorem differentAttempt_eq_true_iff :
    slot.differentAttempt job = true ↔ ∃ old new, slot.activeAttemptId = some old ∧
      job.activeAttemptId = some new ∧ old ≠ new := by
  unfold differentAttempt
  cases slot.activeAttemptId <;> cases job.activeAttemptId <;> simp

/-- The slot does not follow an update of another attempt exactly when the update shows that it
is late. -/
theorem next_keeps_iff {attempt : String} (hjob : job.activeAttemptId = some attempt)
    (hslot : slot.activeAttemptId ≠ some attempt) :
    (slot.next job).state = slot.state ∧ (slot.next job).activeAttemptId = slot.activeAttemptId ↔
      slot.ShownLate job := by
  rw [ShownLate]
  cases hold : slot.activeAttemptId with
  | none =>
    have hdifferent : slot.differentAttempt job = false := by simp [differentAttempt, hold]
    have hnewer : slot.newerAttempt job = false := by simp [newerAttempt, hdifferent]
    have hstale : slot.staleAttempt job = false := by simp [staleAttempt, hdifferent]
    rw [next]
    by_cases hignored : slot.ignores job = true
    · have hended : terminalJobState slot.state = true ∧ terminalJobState job.state = false := by
        simpa [ignores, hnewer, hstale] using hignored
      have hrank := jobStateRank_lt_three hended.2
      rw [if_pos hignored, jobStateRank_eq_three hended.1]
      exact iff_of_true ⟨rfl, hold⟩ hrank
    · rw [if_neg hignored]
      by_cases hhint : jobStateRank job.state < jobStateRank slot.state
      · simp [merge, staleLifecycleHint, hnewer, hhint, hold]
      · simp [merge, staleLifecycleHint, hhint, hjob]
  | some old =>
    have hne : old ≠ attempt := fun heq => hslot (by rw [hold, heq])
    have hdifferent : slot.differentAttempt job = true :=
      differentAttempt_eq_true_iff.mpr ⟨old, attempt, hold, hjob, hne⟩
    rw [next]
    by_cases htime : job.updatedAt < slot.updatedAt
    · have hignored : slot.ignores job = true := by simp [ignores, staleAttempt, hdifferent, htime]
      rw [if_pos hignored]
      exact iff_of_true ⟨rfl, hold⟩ (.inl htime)
    · have hnewer : slot.newerAttempt job = true := by
        simp [newerAttempt, staleAttempt, hdifferent, htime]
      have hignores : slot.ignores job = true ↔
          terminalJobState job.state = true ∧ terminalJobState slot.state = false := by
        simp [ignores, hnewer, staleAttempt, htime]
      by_cases hends : terminalJobState job.state = true ∧ terminalJobState slot.state = false
      · rw [if_pos (hignores.mpr hends)]
        exact iff_of_true ⟨rfl, hold⟩ (.inr hends)
      · rw [if_neg (fun h => hends (hignores.mp h))]
        refine iff_of_false ?_ (not_or.mpr ⟨htime, hends⟩)
        rintro ⟨-, hattempt⟩
        simp only [merge, staleLifecycleHint, hnewer, hjob] at hattempt
        exact hne.symm (by simpa using hattempt)

/-- Only an update of another attempt makes a job that has ended go on. -/
theorem attempts_of_resurrected (hslot : terminalJobState slot.state = true)
    (hnext : terminalJobState (slot.next job).state = false) :
    ∃ attempt, job.activeAttemptId = some attempt ∧ slot.activeAttemptId ≠ some attempt := by
  rw [next] at hnext
  split_ifs at hnext with hignored
  · rw [hslot] at hnext
    cases hnext
  · have hjob : terminalJobState job.state = false := by
      simp only [merge] at hnext
      split_ifs at hnext with hhint
      · rw [hslot] at hnext
        cases hnext
      · exact hnext
    have hnewer : slot.newerAttempt job = true := by
      by_contra hold
      exact hignored (by simp [ignores, hslot, hjob, hold])
    have hdifferent : slot.differentAttempt job = true := by
      simp only [newerAttempt, Bool.and_eq_true] at hnewer
      exact hnewer.1
    obtain ⟨old, new, hold, hnew, hne⟩ := differentAttempt_eq_true_iff.mp hdifferent
    refine ⟨new, hnew, fun heq => hne ?_⟩
    rw [hold] at heq
    exact Option.some.inj heq

end JobProjection

/-- An update finds the slot of its job, and leaves the slot after it. -/
theorem jobSlot_upsertJob {s : SessionProjectionSnapshot} {slot job : JobProjection}
    (h : s.jobSlot job.jobId = some slot) :
    (s.upsertJob job).jobSlot job.jobId = some (slot.next job) := by
  have hkeeps : ∀ y : JobProjection, (y.jobId == job.jobId) = true →
      ((y.next job).jobId == job.jobId) = true := by
    intro y hy
    unfold next
    split_ifs
    · exact hy
    · exact beq_self_eq_true _
  have hfound := find?_updateFirst (l := s.jobs) hkeeps
  have hslot : s.jobs.find? (fun slot => slot.jobId == job.jobId) = some slot := h
  rw [hslot] at hfound
  rw [SessionProjectionSnapshot.upsertJob, upsert]
  cases hup : updateFirst (fun slot : JobProjection => slot.jobId == job.jobId)
      (fun slot => if slot.ignores job then slot else slot.merge job) s.jobs with
  | none =>
    rw [updateFirst_eq_none_iff, hslot] at hup
    cases hup
  | some jobs =>
    rw [show (fun y : JobProjection => y.next job) =
      fun slot => if slot.ignores job then slot else slot.merge job from rfl, hup] at hfound
    exact hfound

theorem orderKept_iff {s : SessionProjectionSnapshot} {done : List JobProjection}
    {slot job : JobProjection} :
    OrderKept s done slot job (slot.next job) ↔ (NamesLeft s done slot job → slot.ShownLate job) := by
  constructor
  · rintro h ⟨attempt, hjob, hheld, hslot⟩
    exact (next_keeps_iff hjob hslot).mp (h.left ⟨attempt, hjob, hheld, hslot⟩)
  · intro h
    have hleft : NamesLeft s done slot job →
        (slot.next job).state = slot.state ∧
          (slot.next job).activeAttemptId = slot.activeAttemptId := by
      rintro ⟨attempt, hjob, hheld, hslot⟩
      exact (next_keeps_iff hjob hslot).mpr (h ⟨attempt, hjob, hheld, hslot⟩)
    refine ⟨hleft, fun hended hnext => ?_⟩
    obtain ⟨attempt, hjob, hslot⟩ := attempts_of_resurrected hended hnext
    refine ⟨attempt, hjob, fun hheld => ?_⟩
    rw [(hleft ⟨attempt, hjob, hheld, hslot⟩).1, hended] at hnext
    cases hnext

/-- In every run of updates, late ones change nothing and jobs that have ended only go on with
a new attempt, exactly as long as every update of an attempt left behind shows that it is late. -/
theorem run_orderKept_iff (s : SessionProjectionSnapshot) (jobs : List JobProjection) :
    (∀ done job slot slot', done ++ [job] <+: jobs →
      (upsertJobs s done).jobSlot job.jobId = some slot →
      (upsertJobs s (done ++ [job])).jobSlot job.jobId = some slot' →
        OrderKept s done slot job slot') ↔
      ∀ done job slot, done ++ [job] <+: jobs →
        (upsertJobs s done).jobSlot job.jobId = some slot →
          NamesLeft s done slot job → slot.ShownLate job := by
  constructor
  · intro h done job slot hdone hslot
    refine orderKept_iff.mp (h done job slot _ hdone hslot ?_)
    rw [upsertJobs_concat]
    exact jobSlot_upsertJob hslot
  · intro h done job slot slot' hdone hslot hslot'
    rw [upsertJobs_concat, jobSlot_upsertJob hslot] at hslot'
    obtain rfl := Option.some.inj hslot'
    exact orderKept_iff.mpr (h done job slot hdone hslot)

/-- An update of job `j`. -/
def sampleJob (state : String) (attempt : Option String) : JobProjection where
  jobId := "j"
  workspaceId := "w"
  kind := "test"
  state := state
  summary := ""
  sessionId := none
  turnId := none
  activeAttemptId := attempt
  errorClass := none
  updatedAt := 1

def emptySession : SessionProjectionSnapshot := .empty "s" "p" "w"

/-- The first attempt fails, the second completes, and an update of the first comes late. -/
def lateRunning : List JobProjection :=
  [sampleJob "running" (some "1"), sampleJob "failed" (some "1"), sampleJob "queued" (some "2"),
    sampleJob "completed" (some "2")]

/-- The late update makes the job run again, in the attempt that had failed. -/
theorem lateRunning_resurrects :
    ∃ slot slot', (upsertJobs emptySession lateRunning).jobSlot "j" = some slot ∧
      (upsertJobs emptySession (lateRunning ++ [sampleJob "running" (some "1")])).jobSlot "j" =
        some slot' ∧
      ¬OrderKept emptySession lateRunning slot (sampleJob "running" (some "1")) slot' := by
  refine ⟨sampleJob "completed" (some "2"), sampleJob "running" (some "1"), by decide +kernel,
    by decide +kernel, fun h => ?_⟩
  have hheld : Held emptySession lateRunning "j" "1" :=
    ⟨lateRunning.take 1, sampleJob "running" (some "1"), List.take_prefix 1 _, by decide +kernel, rfl⟩
  exact absurd (h.left ⟨"1", rfl, hheld, by decide⟩).1 (by decide)

end Codegg.Projection
