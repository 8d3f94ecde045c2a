import Codegg.Jobs.InMemory

/-!
# The life of jobs and attempts

The invariant of the in-memory store relates its two tables. It is kept in two halves.
`Filed` says where an attempt belongs: which job it is of and which number it has.
`Staffed` says who is at work: a live attempt is the current one of a running job, and a
running job has one. The second half may be suspended for a set of jobs whose attempts
have ended while the jobs themselves are still to be settled, which is how finishing an
attempt and crash recovery proceed.
-/
namespace Codegg.Jobs

open Codegg.Library SortedMap

namespace StateChange

/-- The change follows an edge of its transition table. -/
def IsEdge : StateChange → Prop
  | job _ source target => target ∈ jobStateTransitions source
  | attempt _ source target => target ∈ attemptStateTransitions source

instance : DecidablePred IsEdge := fun c => by
  cases c <;> unfold IsEdge <;> infer_instance

end StateChange

theorem AttemptState.not_terminal_of_edge {source target : AttemptState}
    (h : target ∈ attemptStateTransitions source) : source.isTerminal = false := by
  cases source <;> first | rfl | simp [attemptStateTransitions] at h

variable {id : JobId} {job job' : JobRecord} {a : AttemptId} {r r' : JobAttempt}

namespace Inner

@[simp] theorem get?_jobs_insertJob (s : Inner) (id id' : JobId) (job : JobRecord) :
    (s.insertJob id job).jobs.get? id' = if id' = id then some job else s.jobs.get? id' :=
  get?_insert _ _ _ _

@[simp] theorem attempts_insertJob (s : Inner) (id : JobId) (job : JobRecord) :
    (s.insertJob id job).attempts = s.attempts := rfl

@[simp] theorem attemptIds_insertJob (s : Inner) (id id' : JobId) (job : JobRecord) :
    (s.insertJob id job).attemptIds id' = s.attemptIds id' := rfl

@[simp] theorem get?_attempts_insertAttempt (s : Inner) (id id' : AttemptId)
    (attempt : JobAttempt) : (s.insertAttempt id attempt).attempts.get? id' =
      if id' = id then some attempt else s.attempts.get? id' :=
  get?_insert _ _ _ _

@[simp] theorem attemptIds_pushAttempt (s : Inner) (job job' : JobId) (id : AttemptId) :
    (s.pushAttempt job id).attemptIds job' =
      if job' = job then s.attemptIds job ++ [id] else s.attemptIds job' := by
  simp only [attemptIds, pushAttempt, get?_upsert]
  split <;> rfl

/-- The job and the number an attempt id stands for. -/
def place (s : Inner) (a : AttemptId) : Option (JobId × ℕ) :=
  (s.attempts.get? a).map fun r => (r.jobId, r.sequence)

/-! ### The invariant -/

/-- Every attempt is filed under its job, and the attempts of a job are numbered from 1
to its attempt count. All attempt ids come from `K`. -/
structure Filed (K : Set AttemptId) (s : Inner) : Prop where
  jobKey : ∀ {id job}, s.jobs.get? id = some job → job.jobId = id
  attemptKey : ∀ {a r}, s.attempts.get? a = some r →
    a ∈ K ∧ r.attemptId = a ∧ a ∈ s.attemptIds r.jobId
  sequences : ∀ {id job}, s.jobs.get? id = some job →
    (s.attemptIds id).map s.place = (List.range' 1 job.attemptCount).map fun n => some (id, n)
  unknown : ∀ {id}, s.jobs.get? id = none → s.attemptIds id = []

/-- Outside `T`, exactly the running jobs have a live attempt, their current one. -/
structure Staffed (T : Set JobId) (s : Inner) : Prop where
  live : ∀ {a r}, s.attempts.get? a = some r → r.state.isTerminal = false →
    r.jobId ∉ T ∧ ∃ job, s.jobs.get? r.jobId = some job ∧ job.state = .running ∧
      job.currentAttemptId = some a
  running : ∀ {id job}, s.jobs.get? id = some job → job.state = .running → id ∉ T →
    ∃ a r, job.currentAttemptId = some a ∧ s.attempts.get? a = some r ∧ r.jobId = id ∧
      r.state.isTerminal = false

structure Consistent (K : Set AttemptId) (T : Set JobId) (s : Inner) : Prop where
  filed : s.Filed K
  staffed : s.Staffed T
  edges : ∀ c ∈ s.history, c.IsEdge

theorem consistent_empty : empty.Consistent ∅ ∅ where
  filed := by constructor <;> intros <;> simp_all [empty, get?_empty, attemptIds]
  staffed := by constructor <;> intros <;> simp_all [empty, get?_empty]
  edges := by simp [empty]

variable {K : Set AttemptId} {T : Set JobId} {s : Inner}

/-- A job whose attempts have ended needs no suspension once it is not running. -/
theorem Consistent.tighten {T' : Set JobId} (h : s.Consistent K T) (hsub : T' ⊆ T)
    (hT : ∀ id ∈ T, id ∉ T' → ∀ job, s.jobs.get? id = some job → job.state ≠ .running) :
    s.Consistent K T' where
  filed := h.filed
  edges := h.edges
  staffed := {
    live := fun ha hr => ⟨fun ht => (h.staffed.live ha hr).1 (hsub ht), (h.staffed.live ha hr).2⟩
    running := fun hjob hrun hid =>
      h.staffed.running hjob hrun fun ht => hT _ ht hid _ hjob hrun }

/-! ### One record replaced -/

theorem edges_insertJob (h : ∀ c ∈ s.history, c.IsEdge) (hjob : s.jobs.get? id = some job)
    (hedge : job'.state = job.state ∨ job'.state ∈ jobStateTransitions job.state) :
    ∀ c ∈ (s.insertJob id job').history, c.IsEdge := by
  intro c hc
  simp only [insertJob, hjob] at hc
  split at hc
  · exact h c hc
  · rename_i hne
    rcases List.mem_append.mp hc with hc | hc
    · exact h c hc
    · rw [List.mem_singleton.mp hc]
      exact hedge.resolve_left fun he => hne he.symm

theorem edges_insertAttempt (h : ∀ c ∈ s.history, c.IsEdge) (ha : s.attempts.get? a = some r)
    (hedge : r'.state = r.state ∨ r'.state ∈ attemptStateTransitions r.state) :
    ∀ c ∈ (s.insertAttempt a r').history, c.IsEdge := by
  intro c hc
  simp only [insertAttempt, ha] at hc
  split at hc
  · exact h c hc
  · rename_i hne
    rcases List.mem_append.mp hc with hc | hc
    · exact h c hc
    · rw [List.mem_singleton.mp hc]
      exact hedge.resolve_left fun he => hne he.symm

theorem Filed.insertJob (h : s.Filed K) (hjob : s.jobs.get? id = some job)
    (hid : job'.jobId = job.jobId) (hcount : job'.attemptCount = job.attemptCount) :
    (s.insertJob id job').Filed K where
  jobKey {id' j} hj := by
    rw [get?_jobs_insertJob] at hj
    split at hj
    · rename_i he
      cases hj
      rw [hid, h.jobKey hjob, he]
    · exact h.jobKey hj
  attemptKey ha := h.attemptKey ha
  sequences {id' j} hj := by
    rw [get?_jobs_insertJob] at hj
    split at hj
    · rename_i he
      cases hj
      rw [hcount, he]
      exact h.sequences hjob
    · exact h.sequences hj
  unknown {id'} hj := by
    rw [get?_jobs_insertJob] at hj
    split at hj
    · cases hj
    · exact h.unknown hj

/-- A job is rewritten and stays running, or stays not running. -/
theorem Consistent.insertJob (h : s.Consistent K T) (hjob : s.jobs.get? id = some job)
    (hid : job'.jobId = job.jobId) (hcount : job'.attemptCount = job.attemptCount)
    (hedge : job'.state = job.state ∨ job'.state ∈ jobStateTransitions job.state)
    (hrun : job'.state = .running → job.state = .running) (hstay : job.state = .running → id ∈ T ∨
      job'.state = .running ∧ job'.currentAttemptId = job.currentAttemptId) :
    (s.insertJob id job').Consistent K T where
  filed := h.filed.insertJob hjob hid hcount
  edges := edges_insertJob h.edges hjob hedge
  staffed := {
    live := by
      intro a r ha hr
      obtain ⟨hT, j, hj, hjrun, hcur⟩ := h.staffed.live ha hr
      refine ⟨hT, ?_⟩
      rw [get?_jobs_insertJob]
      split
      · rename_i he
        rw [he, hjob] at hj
        cases hj
        obtain ⟨hrun', hcur'⟩ := (hstay hjrun).resolve_left (he ▸ hT)
        exact ⟨job', rfl, hrun', hcur'.trans hcur⟩
      · exact ⟨j, hj, hjrun, hcur⟩
    running := by
      intro id' j hj hjrun hT
      rw [get?_jobs_insertJob] at hj
      split at hj
      · rename_i he
        cases hj
        obtain ⟨-, hcur'⟩ := (hstay (hrun hjrun)).resolve_left (he ▸ hT)
        rw [hcur', he]
        exact h.staffed.running hjob (hrun hjrun) (he ▸ hT)
      · exact h.staffed.running hj hjrun hT }

/-- A job of `T` is rewritten and is not running any more. -/
theorem Consistent.settleJob (h : s.Consistent K T) (hT : id ∈ T) (hjob : s.jobs.get? id = some job)
    (hid : job'.jobId = job.jobId) (hcount : job'.attemptCount = job.attemptCount)
    (hedge : job'.state = job.state ∨ job'.state ∈ jobStateTransitions job.state)
    (hrun : job'.state ≠ .running) : (s.insertJob id job').Consistent K (T \ {id}) := by
  have hput := h.insertJob hjob hid hcount hedge (fun he => absurd he hrun) (fun _ => .inl hT)
  refine hput.tighten Set.sdiff_subset fun id' hid' hnot j hj => ?_
  have he : id' = id := by
    by_contra hne
    exact hnot ⟨hid', hne⟩
  rw [get?_jobs_insertJob, if_pos he] at hj
  cases hj
  exact hrun

theorem place_insertAttempt (ha : s.attempts.get? a = some r) (hjob : r'.jobId = r.jobId)
    (hseq : r'.sequence = r.sequence) : (s.insertAttempt a r').place = s.place := by
  funext b
  simp only [place, get?_attempts_insertAttempt]
  split
  · rename_i he
    rw [he, ha, Option.map_some, Option.map_some, hjob, hseq]
  · rfl

theorem Filed.insertAttempt (h : s.Filed K) (ha : s.attempts.get? a = some r)
    (hid : r'.attemptId = r.attemptId) (hjob : r'.jobId = r.jobId) (hseq : r'.sequence = r.sequence)
    :
    (s.insertAttempt a r').Filed K where
  jobKey hj := h.jobKey hj
  attemptKey {b x} hb := by
    rw [get?_attempts_insertAttempt] at hb
    split at hb
    · rename_i he
      cases hb
      rw [he, hid, hjob]
      exact h.attemptKey ha
    · exact h.attemptKey hb
  sequences hj := by
    rw [place_insertAttempt ha hjob hseq]
    exact h.sequences hj
  unknown hj := h.unknown hj

/-- An attempt is rewritten and stays live, or stays ended. -/
theorem Consistent.insertAttempt (h : s.Consistent K T) (ha : s.attempts.get? a = some r)
    (hid : r'.attemptId = r.attemptId) (hjob : r'.jobId = r.jobId) (hseq : r'.sequence = r.sequence)
    (hedge : r'.state = r.state ∨ r'.state ∈ attemptStateTransitions r.state)
    (hterm : r'.state.isTerminal = r.state.isTerminal) :
    (s.insertAttempt a r').Consistent K T where
  filed := h.filed.insertAttempt ha hid hjob hseq
  edges := edges_insertAttempt h.edges ha hedge
  staffed := {
    live := by
      intro b x hb hx
      rw [get?_attempts_insertAttempt] at hb
      split at hb
      · rename_i he
        cases hb
        rw [hjob, he]
        exact h.staffed.live ha (hterm ▸ hx)
      · exact h.staffed.live hb hx
    running := by
      intro id j hj hjrun hT
      obtain ⟨b, x, hcur, hb, hx, hlive⟩ := h.staffed.running hj hjrun hT
      by_cases he : b = a
      · subst he
        rw [ha] at hb
        cases hb
        exact ⟨b, r', hcur, by simp, hjob.trans hx, hterm.trans hlive⟩
      · exact ⟨b, x, hcur, by simpa [he] using hb, hx, hlive⟩ }

/-- A live attempt ends: its job is to be settled next. -/
theorem Consistent.endAttempt (h : s.Consistent K T) (ha : s.attempts.get? a = some r)
    (hid : r'.attemptId = r.attemptId) (hjob : r'.jobId = r.jobId) (hseq : r'.sequence = r.sequence)
    (hedge : r'.state ∈ attemptStateTransitions r.state) (hterm : r'.state.isTerminal = true) :
    (s.insertAttempt a r').Consistent K (insert r.jobId T) where
  filed := h.filed.insertAttempt ha hid hjob hseq
  edges := edges_insertAttempt h.edges ha (.inr hedge)
  staffed := {
    live := by
      intro b x hb hx
      rw [get?_attempts_insertAttempt] at hb
      split at hb
      · cases hb
        rw [hterm] at hx
        cases hx
      · rename_i hne
        obtain ⟨hT, j, hj, hjrun, hcur⟩ := h.staffed.live hb hx
        refine ⟨fun hmem => ?_, j, hj, hjrun, hcur⟩
        -- the job's current attempt is `a`, so no other attempt of it is live
        have hsame := (Set.mem_insert_iff.mp hmem).resolve_right hT
        obtain ⟨-, j', hj', -, hcur'⟩ :=
          h.staffed.live ha (AttemptState.not_terminal_of_edge hedge)
        rw [hsame, hj'] at hj
        cases hj
        exact hne (Option.some.inj (hcur.symm.trans hcur'))
    running := by
      intro id j hj hjrun hT
      obtain ⟨hne, hT⟩ := not_or.mp (fun hor => hT (Set.mem_insert_iff.mpr hor))
      obtain ⟨b, x, hcur, hb, hx, hlive⟩ := h.staffed.running hj hjrun hT
      have hba : b ≠ a := by
        intro he
        rw [he, ha] at hb
        cases hb
        exact hne hx.symm
      exact ⟨b, x, hcur, by simpa [hba] using hb, hx, hlive⟩ }

/-! ### Records added -/

theorem Consistent.addJob (h : s.Consistent K T) (hnone : s.jobs.get? id = none)
    (hid : job.jobId = id) (hcount : job.attemptCount = 0) (hrun : job.state ≠ .running) :
    (s.insertJob id job).Consistent K T where
  filed := {
    jobKey := by
      intro id' j hj
      rw [get?_jobs_insertJob] at hj
      split at hj
      · rename_i he
        cases hj
        rw [hid, he]
      · exact h.filed.jobKey hj
    attemptKey := fun ha => h.filed.attemptKey ha
    sequences := by
      intro id' j hj
      rw [get?_jobs_insertJob] at hj
      split at hj
      · rename_i he
        cases hj
        rw [attemptIds_insertJob, he, h.filed.unknown hnone, hcount]
        rfl
      · exact h.filed.sequences hj
    unknown := by
      intro id' hj
      rw [get?_jobs_insertJob] at hj
      split at hj
      · cases hj
      · exact h.filed.unknown hj }
  edges := by
    intro c hc
    simp only [Inner.insertJob, hnone] at hc
    exact h.edges c hc
  staffed := {
    live := by
      intro a r ha hr
      obtain ⟨hT, j, hj, hjrun, hcur⟩ := h.staffed.live ha hr
      refine ⟨hT, j, ?_, hjrun, hcur⟩
      rw [get?_jobs_insertJob, if_neg, hj]
      intro he
      rw [he, hnone] at hj
      cases hj
    running := by
      intro id' j hj hjrun hT
      rw [get?_jobs_insertJob] at hj
      split at hj
      · cases hj
        exact absurd hjrun hrun
      · exact h.staffed.running hj hjrun hT }

/-- The three writes that start an attempt. -/
def startAttempt (s : Inner) (id : JobId) (job' : JobRecord) (a : AttemptId) (r : JobAttempt) :
    Inner :=
  ((s.insertAttempt a r).pushAttempt id a).insertJob id job'

@[simp] theorem get?_jobs_startAttempt (id id' : JobId) (job' : JobRecord) (a : AttemptId)
    (r : JobAttempt) : (s.startAttempt id job' a r).jobs.get? id' =
      if id' = id then some job' else s.jobs.get? id' :=
  get?_insert _ _ _ _

@[simp] theorem get?_attempts_startAttempt (id : JobId) (job' : JobRecord) (a b : AttemptId)
    (r : JobAttempt) : (s.startAttempt id job' a r).attempts.get? b =
      if b = a then some r else s.attempts.get? b :=
  get?_insert _ _ _ _

@[simp] theorem attemptIds_startAttempt (id id' : JobId) (job' : JobRecord) (a : AttemptId)
    (r : JobAttempt) : (s.startAttempt id job' a r).attemptIds id' =
      if id' = id then s.attemptIds id ++ [a] else s.attemptIds id' :=
  attemptIds_pushAttempt _ _ _ _

theorem Filed.not_mem_attemptIds (h : s.Filed K) (ha : a ∉ K) :
    a ∉ s.attemptIds id := by
  intro hmem
  cases hjob : s.jobs.get? id with
  | none =>
    rw [h.unknown hjob] at hmem
    exact List.not_mem_nil hmem
  | some job =>
    have hplace := List.mem_map_of_mem (f := s.place) hmem
    rw [h.sequences hjob] at hplace
    obtain ⟨n, -, hn⟩ := List.mem_map.mp hplace
    obtain ⟨r, hr, -⟩ := Option.map_eq_some_iff.mp hn.symm
    exact ha (h.attemptKey hr).1

theorem Filed.startAttempt (h : s.Filed K) (hjob : s.jobs.get? id = some job) (ha : a ∉ K)
    (hid : job'.jobId = job.jobId) (hcount : job'.attemptCount = job.attemptCount + 1)
    (hr : r.attemptId = a ∧ r.jobId = id ∧ r.sequence = job.attemptCount + 1) :
    (s.startAttempt id job' a r).Filed (insert a K) := by
  obtain ⟨hra, hrjob, hrseq⟩ := hr
  -- the new id is in no list yet, so the old entries keep their places
  have hplace : ∀ id', (s.attemptIds id').map (s.startAttempt id job' a r).place =
      (s.attemptIds id').map s.place := by
    intro id'
    refine List.map_congr_left fun b hb => ?_
    have hne : b ≠ a := fun he => h.not_mem_attemptIds ha (he ▸ hb)
    simp [place, hne]
  refine ⟨?_, ?_, ?_, ?_⟩
  · intro id' j hj
    rw [get?_jobs_startAttempt] at hj
    split at hj
    · rename_i he
      cases hj
      rw [hid, h.jobKey hjob, he]
    · exact h.jobKey hj
  · intro b x hb
    rw [get?_attempts_startAttempt] at hb
    split at hb
    · rename_i he
      cases hb
      refine ⟨he ▸ Set.mem_insert a K, hra.trans he.symm, ?_⟩
      rw [attemptIds_startAttempt, if_pos hrjob, he]
      simp
    · obtain ⟨hK, hid, hmem⟩ := h.attemptKey hb
      refine ⟨Set.mem_insert_of_mem _ hK, hid, ?_⟩
      rw [attemptIds_startAttempt]
      split
      · rename_i he
        exact List.mem_append_left _ (he ▸ hmem)
      · exact hmem
  · intro id' j hj
    rw [get?_jobs_startAttempt] at hj
    rw [attemptIds_startAttempt]
    split at hj
    · rename_i he
      cases hj
      have hlast : (s.startAttempt id job' a r).place a = some (id, job.attemptCount + 1) := by
        simp [place, hrjob, hrseq]
      rw [if_pos he, List.map_append, hplace, h.sequences hjob, he, hcount, List.range'_concat,
        List.map_append, List.map_singleton, List.map_singleton, hlast]
      simp [Nat.add_comm]
    · rename_i hne
      rw [if_neg hne, hplace]
      exact h.sequences hj
  · intro id' hj
    rw [get?_jobs_startAttempt] at hj
    split at hj
    · cases hj
    · rename_i hne
      rw [attemptIds_startAttempt, if_neg hne]
      exact h.unknown hj

theorem Consistent.startAttempt (h : s.Consistent K T) (hjob : s.jobs.get? id = some job)
    (ha : a ∉ K) (hid : job'.jobId = job.jobId) (hcount : job'.attemptCount = job.attemptCount + 1)
    (hr : r.attemptId = a ∧ r.jobId = id ∧ r.sequence = job.attemptCount + 1)
    (hedge : .running ∈ jobStateTransitions job.state) (hidle : job.state ≠ .running) (hT : id ∉ T)
    (hrun : job'.state = .running) (hcur : job'.currentAttemptId = some a)
    (hlive : r.state.isTerminal = false) :
    (s.startAttempt id job' a r).Consistent (insert a K) T where
  filed := h.filed.startAttempt hjob ha hid hcount hr
  edges := by
    have hnone : s.attempts.get? a = none := by
      rw [Option.eq_none_iff_forall_not_mem]
      exact fun x hx => ha (h.filed.attemptKey hx).1
    refine edges_insertJob (s := (s.insertAttempt a r).pushAttempt id a) ?_ hjob
      (.inr (hrun ▸ hedge))
    intro c hc
    simp only [pushAttempt, Inner.insertAttempt, hnone] at hc
    exact h.edges c hc
  staffed := {
    live := by
      intro b x hb hx
      rw [get?_attempts_startAttempt] at hb
      split at hb
      · rename_i he
        cases hb
        refine ⟨hr.2.1 ▸ hT, job', ?_, hrun, he ▸ hcur⟩
        rw [get?_jobs_startAttempt, if_pos hr.2.1]
      · obtain ⟨hxT, j, hj, hjrun, hjcur⟩ := h.staffed.live hb hx
        refine ⟨hxT, j, ?_, hjrun, hjcur⟩
        rw [get?_jobs_startAttempt, if_neg, hj]
        intro he
        rw [he, hjob] at hj
        cases hj
        exact hidle hjrun
    running := by
      intro id' j hj hjrun hT'
      rw [get?_jobs_startAttempt] at hj
      split at hj
      · rename_i he
        cases hj
        exact ⟨a, r, hcur, by simp, hr.2.1.trans he.symm, hlive⟩
      · obtain ⟨b, x, hjcur, hb, hx, hxlive⟩ := h.staffed.running hj hjrun hT'
        have hne : b ≠ a := fun he => ha (he ▸ (h.filed.attemptKey hb).1)
        exact ⟨b, x, hjcur, by simpa [hne] using hb, hx, hxlive⟩ }

end Inner

end Codegg.Jobs
