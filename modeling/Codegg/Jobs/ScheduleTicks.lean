import Codegg.Jobs.Schedule
import Codegg.Library.Progression

/-!
# What ticks materialize

For an interval schedule that skips nothing: whatever the spacing of the ticks, the
occurrences that have become jobs are those up to the last tick, in order, from the
tick on that first reaches the horizon the schedule was created with.
-/
namespace Codegg.Jobs

open Codegg.Library DateTime

/-! ### The arithmetic of an interval -/

theorem i64_of_fits {x : ℤ} (hlo : -2 ^ 63 ≤ x) (hhi : x < 2 ^ 63) : i64 x = x := by
  unfold i64
  rw [Int.bmod_def]
  omega

/-- A period with which no sum of an instant and it leaves the 64-bit integers. -/
structure Periodic (every : UInt64) : Prop where
  pos : 0 < every.toNat
  fits : every.toNat + 2 ^ 44 < 2 ^ 63

/-- The second of the `k`-th occurrence. -/
def occurrence (every : UInt64) (anchor : DateTime) (k : ℕ) : ℤ :=
  term anchor.secs every.toNat k

/-- How many occurrences are before that second. -/
def occurrencesBefore (every : UInt64) (anchor : DateTime) (secs : ℤ) : ℕ :=
  countBelow anchor.secs every.toNat secs

/-- The instants of some seconds, as far as the clock library has them. -/
def instants (secs : List ℤ) : List DateTime := secs.filterMap fromTimestamp

section

variable {every : UInt64} {anchor now d t : DateTime} {j k : ℕ} {n : ℤ}

theorem fromTimestamp_eq_some {secs : ℤ} :
    fromTimestamp secs = some d ↔ d.secs = secs ∧ d.nanos = 0 := by
  unfold fromTimestamp
  constructor
  · intro h
    split at h
    · cases h
      exact ⟨rfl, rfl⟩
    · cases h
  · rintro ⟨rfl, hnanos⟩
    rw [dif_pos ⟨d.le_secs, d.secs_le⟩]
    exact congrArg some (ext_of rfl hnanos.symm)

theorem fromTimestamp_eq_none {secs : ℤ} :
    fromTimestamp secs = none ↔ secs < -8334601228800 ∨ 8210266876799 < secs := by
  unfold fromTimestamp
  split
  · next h =>
    simp only [reduceCtorEq, false_iff]
    omega
  · next h =>
    simp only [true_iff]
    omega

/-- An occurrence is at or before an instant if its second is. -/
theorem le_iff_secs (hd : d.nanos = 0) : d ≤ now ↔ d.secs ≤ now.secs := by
  rw [le_iff]
  omega

theorem secs_mono {a b : DateTime} (h : a ≤ b) : a.secs ≤ b.secs := by
  rw [le_iff] at h
  omega

@[simp] theorem occurrence_zero : occurrence every anchor 0 = anchor.secs := term_zero _ _

theorem anchor_le_occurrence (k : ℕ) : anchor.secs ≤ occurrence every anchor k := by
  have h : (0 : ℤ) ≤ k * every.toNat := by positivity
  unfold occurrence term
  omega

theorem occurrence_succ (k : ℕ) :
    occurrence every anchor (k + 1) = occurrence every anchor k + every.toNat := by
  unfold occurrence term
  push_cast
  ring

variable (hp : Periodic every)
include hp

theorem step_pos : (0 : ℤ) < every.toNat := by
  have h := hp.pos
  omega

theorem i64_every : i64 every.toNat = every.toNat := by
  have h := hp.fits
  exact i64_of_fits (by omega) (by omega)

theorem lt_occurrencesBefore : k < occurrencesBefore every anchor n ↔ occurrence every anchor k < n :=
  lt_countBelow (step_pos hp)

theorem occurrencesBefore_le : occurrencesBefore every anchor n ≤ k ↔ n ≤ occurrence every anchor k :=
  countBelow_le (step_pos hp)

/-- The next run is the first occurrence from now on, whichever occurrence up to it the
computation starts from. -/
theorem computeNextRun_interval {last : Option DateTime}
    (hbase : (last.map (·.secs)).getD anchor.secs = occurrence every anchor j)
    (hj : j ≤ occurrencesBefore every anchor now.secs) :
    computeNextRun (.interval every anchor) now last =
      fromTimestamp (occurrence every anchor (occurrencesBefore every anchor now.secs)) := by
  have hpos := step_pos hp
  have hfits := hp.fits
  have hge : every.toNat ≠ 0 := by omega
  have hhi := now.secs_le
  have hanchor := anchor.le_secs
  have hbase' := @anchor_le_occurrence every anchor j
  rw [computeNextRun, if_neg hge, hbase, i64_every hp]
  dsimp only
  have hcount : countBelow (occurrence every anchor j) every.toNat now.secs =
      occurrencesBefore every anchor now.secs - j := countBelow_term hpos
  have hterm : term (occurrence every anchor j) every.toNat
      (occurrencesBefore every anchor now.secs - j) =
        occurrence every anchor (occurrencesBefore every anchor now.secs) := by
    unfold occurrence
    rw [term_term, Nat.add_sub_cancel' hj]
  rw [← hterm, ← hcount]
  generalize occurrence every anchor j = base at hbase' ⊢
  by_cases hnow : now.secs ≤ base
  · rw [if_pos hnow, countBelow_of_le hpos hnow, term_zero]
  · rw [if_neg hnow]
    have hnum : 0 ≤ now.secs - base + every.toNat - 1 := by omega
    have hdiv : (now.secs - base + every.toNat - 1) / (every.toNat : ℤ) * every.toNat ≤
        now.secs - base + every.toNat - 1 := Int.ediv_mul_le _ (by omega)
    have hquot : 0 ≤ (now.secs - base + every.toNat - 1) / (every.toNat : ℤ) :=
      Int.ediv_nonneg hnum (by omega)
    have hmul : 0 ≤ (now.secs - base + every.toNat - 1) / (every.toNat : ℤ) * every.toNat :=
      mul_nonneg hquot (by omega)
    have hsum : i64 (i64 (i64 (now.secs - base) + every.toNat) - 1) =
        now.secs - base + every.toNat - 1 := by
      rw [i64_of_fits (x := now.secs - base) (by omega) (by omega),
        i64_of_fits (x := now.secs - base + every.toNat) (by omega) (by omega),
        i64_of_fits (by omega) (by omega)]
    have hproduct : i64 ((now.secs - base + every.toNat - 1) / (every.toNat : ℤ) * every.toNat) =
        (now.secs - base + every.toNat - 1) / (every.toNat : ℤ) * every.toNat :=
      i64_of_fits (by omega) (by omega)
    rw [hsum, Int.tdiv_eq_ediv_of_nonneg hnum, hproduct, i64_of_fits (by omega) (by omega)]
    unfold term countBelow
    rw [Int.toNat_of_nonneg hquot]

/-- The candidates from an occurrence on are the occurrences up to now. -/
theorem intervalCandidates_occurrence (j : ℕ) :
    intervalCandidates (occurrence every anchor j) every.toNat now.secs =
      instants (terms (occurrence every anchor j) every.toNat
        (occurrencesBefore every anchor (now.secs + 1) - j)) := by
  have hpos := step_pos hp
  have hhi := now.secs_le
  have hanchor := anchor.le_secs
  have hstart := @anchor_le_occurrence every anchor j
  have hcount : countBelow (occurrence every anchor j) every.toNat (now.secs + 1) =
      occurrencesBefore every anchor (now.secs + 1) - j := countBelow_term hpos
  rw [← hcount]
  generalize occurrence every anchor j = start at hstart ⊢
  unfold intervalCandidates
  by_cases hlate : start > now.secs
  · rw [if_pos hlate, countBelow_of_le hpos (by omega)]
    rfl
  · rw [if_neg hlate]
    have hnum : 0 ≤ now.secs - start := by omega
    have hquot : 0 ≤ (now.secs - start) / (every.toNat : ℤ) := Int.ediv_nonneg hnum (by omega)
    have hquot' : (now.secs - start) / (every.toNat : ℤ) ≤ now.secs - start :=
      Int.ediv_le_self _ hnum
    have hwhole : (now.secs + 1 - start + every.toNat - 1) / (every.toNat : ℤ) =
        (now.secs - start) / every.toNat + 1 := by
      rw [show now.secs + 1 - start + every.toNat - 1 = now.secs - start + 1 * every.toNat by ring]
      exact Int.add_mul_ediv_right _ _ (by omega)
    have hnumber : i64 (Int.tdiv (i64 (now.secs - start)) every.toNat + 1) =
        (now.secs - start) / every.toNat + 1 := by
      rw [i64_of_fits (x := now.secs - start) (by omega) (by omega),
        Int.tdiv_eq_ediv_of_nonneg hnum, i64_of_fits (by omega) (by omega)]
    simp only [hnumber]
    unfold instants terms countBelow
    rw [hwhole, List.filterMap_map]
    refine List.filterMap_congr fun i hi => ?_
    have hi' : (i : ℤ) ≤ (now.secs - start) / every.toNat := by
      have := List.mem_range.mp hi
      omega
    have hup : (i : ℤ) * every.toNat ≤ now.secs - start :=
      (mul_le_mul_of_nonneg_right hi' (by omega)).trans (Int.ediv_mul_le _ (by omega))
    have hdown : 0 ≤ (i : ℤ) * every.toNat := by positivity
    rw [i64_of_fits (x := (i : ℤ) * every.toNat) (by omega) (by omega),
      i64_of_fits (by omega) (by omega)]
    rfl

end

theorem length_instants_le (secs : List ℤ) : (instants secs).length ≤ secs.length :=
  List.length_filterMap_le _ _

theorem instants_append (xs ys : List ℤ) : instants (xs ++ ys) = instants xs ++ instants ys :=
  List.filterMap_append

theorem getLast?_instants {xs : List ℤ} {x : ℤ} {d : DateTime} (hx : xs.getLast? = some x)
    (hd : fromTimestamp x = some d) : (instants xs).getLast? = some d := by
  obtain ⟨init, rfl⟩ := List.getLast?_eq_some_iff.mp hx
  simp [instants, hd]

/-! ### Before any policy -/

/-- The occurrences a tick finds, whatever the policy. -/
def candidates (kind : ScheduleKind) (lastFired : Option DateTime) (now : DateTime) :
    List DateTime :=
  match kind with
  | .oneShot runAt => if lastFired.isSome then [] else if runAt ≤ now then [runAt] else []
  | .interval every anchor =>
    let everySecs := i64 every.toNat
    if everySecs = 0 then []
    else
      intervalCandidates ((lastFired.map fun d => i64 (d.secs + everySecs)).getD anchor.secs)
        everySecs now.secs

theorem missedRunTargets_catchUp {kind : ScheduleKind} {last : Option DateTime} {now : DateTime}
    {maxOccurrences : ℕ} (hmax : 1 ≤ maxOccurrences) :
    missedRunTargets kind last now (.catchUpBounded maxOccurrences) =
      (candidates kind last now).drop ((candidates kind last now).length - maxOccurrences) := by
  cases kind with
  | oneShot runAt =>
    have hshort : (candidates (.oneShot runAt) last now).length ≤ 1 := by
      simp only [candidates]
      split
      · exact Nat.zero_le 1
      · split <;> simp
    rw [Nat.sub_eq_zero_of_le (by omega)]
    rfl
  | interval every anchor =>
    unfold missedRunTargets candidates
    dsimp only
    split
    · simp
    · split
      · rfl
      · rw [Nat.sub_eq_zero_of_le (by omega), List.drop_zero]

/-- A bound that is large enough drops nothing. -/
theorem missedRunTargets_enough {kind : ScheduleKind} {last : Option DateTime} {now : DateTime}
    {maxOccurrences : ℕ} (h : (candidates kind last now).length ≤ maxOccurrences) :
    missedRunTargets kind last now (.catchUpBounded maxOccurrences) = candidates kind last now := by
  cases kind with
  | oneShot runAt => rfl
  | interval every anchor =>
    unfold candidates at h ⊢
    unfold missedRunTargets
    dsimp only at h ⊢
    split
    · rfl
    · rename_i hstep
      rw [if_neg hstep] at h
      rw [if_neg (not_lt.mpr h)]

/-! ### One schedule in a tick -/

namespace InMemoryScheduleStore

variable {s : InMemoryScheduleStore} {id : ScheduleId} {r : ScheduleRecord}
  {materialize : Materializer} {now : DateTime} {running : ScheduleId → ℕ}

/-- The instants of the decisions that made a job. -/
def queuedTimes (decided : List (DateTime × OccurrenceOutcome)) : List DateTime :=
  (decided.filter fun d => match d.2 with | .queued _ => true | _ => false).map (·.1)

theorem materializedTimes_append (id : ScheduleId) (xs ys : List ClaimedOccurrence) :
    materializedTimes id (xs ++ ys) = materializedTimes id xs ++ materializedTimes id ys := by
  simp [materializedTimes]

theorem materializedTimes_claims (id other : ScheduleId)
    (decided : List (DateTime × OccurrenceOutcome)) :
    materializedTimes id (decided.map (claimOf other)) =
      if other = id then queuedTimes decided else [] := by
  induction decided with
  | nil => simp [materializedTimes, queuedTimes]
  | cons d decided ih =>
    obtain ⟨target, outcome⟩ := d
    rw [List.map_cons, ← List.singleton_append, materializedTimes_append, ih]
    by_cases hother : other = id
    · cases outcome <;> simp [materializedTimes, queuedTimes, claimOf, hother]
    · cases outcome <;> simp [materializedTimes, claimOf, hother]

/-- What the tick plans for a schedule. -/
def planOf (now : DateTime) (running : ScheduleId → ℕ) (r : ScheduleRecord) : SchedulePlan where
  schedule := r
  targets := missedRunTargets r.kind r.lastOccurrenceAt now r.missedRunPolicy
  running := running r.scheduleId

/-- Outcomes drawn from the due rows of a table, for one key: one if its row is due. -/
theorem filter_outcomes {V : Type} {keyOf : V → ScheduleId} (m : SortedMap ScheduleId V)
    (keyed : ∀ id v, m.get? id = some v → keyOf v = id) (due : V → Bool)
    (outcome : V → ScheduleOutcome) (hkey : ∀ v, (outcome v).scheduleId = keyOf v)
    (id : ScheduleId) :
    ((m.values.filter due).map outcome).filter (fun o => decide (o.scheduleId = id)) =
      ((m.get? id).filter due).toList.map outcome := by
  have hcommute : (m.values.filter due).filter (fun v => decide (keyOf v = id)) =
      ((m.get? id).filter due).toList := by
    rw [List.filter_comm, m.filter_values keyed id]
    cases m.get? id with
    | none => rfl
    | some v => cases hdue : due v <;> simp [hdue, Option.filter_some]
  rw [List.filter_map, ← hcommute]
  congr 1
  refine List.filter_congr fun v _ => ?_
  rw [Function.comp_apply, hkey]

/-- The outcomes of a tick for a schedule: one if it is due. -/
theorem outcomes_of (hr : s.schedules.get? id = some r) :
    ((s.planDue now running).map (materializePlan materialize)).filter
        (fun o => decide (o.scheduleId = id)) =
      if isDue now r then [materializePlan materialize (planOf now running r)] else [] := by
  have hall := filter_outcomes s.schedules s.keyed (isDue now)
    (fun r => materializePlan materialize (planOf now running r)) (fun _ => rfl) id
  unfold planDue
  rw [List.map_map]
  refine hall.trans ?_
  rw [hr]
  cases hdue : isDue now r <;> simp [hdue]

theorem get?_commitOutcomes (outcomes : List ScheduleOutcome) (s : InMemoryScheduleStore) :
    (outcomes.foldl (commitOutcome now) s).schedules.get? id =
      (outcomes.filter fun o => decide (o.scheduleId = id)).foldl
        (fun r o => r.map (commitRecord o now)) (s.schedules.get? id) := by
  have hschedules : (outcomes.foldl (commitOutcome now) s).schedules =
      outcomes.foldl (fun m o => m.modify o.scheduleId (commitRecord o now)) s.schedules :=
    (List.foldl_hom InMemoryScheduleStore.schedules fun _ _ => rfl).symm
  rw [hschedules]
  exact SortedMap.get?_foldl_modify _ _ _ _ _

/-- What the caller is told of one schedule. -/
def claimsOf (id : ScheduleId) (claimed : List ClaimedOccurrence) : List ClaimedOccurrence :=
  claimed.filter fun c => decide (c.scheduleId = id)

theorem claimsOf_append (id : ScheduleId) (xs ys : List ClaimedOccurrence) :
    claimsOf id (xs ++ ys) = claimsOf id xs ++ claimsOf id ys := by
  simp [claimsOf]

theorem scheduleId_claimOf (id : ScheduleId) (d : DateTime × OccurrenceOutcome) :
    (claimOf id d).scheduleId = id := by
  unfold claimOf
  split <;> rfl

theorem claimsOf_claims (id other : ScheduleId) (decided : List (DateTime × OccurrenceOutcome)) :
    claimsOf id (decided.map (claimOf other)) =
      if other = id then decided.map (claimOf id) else [] := by
  unfold claimsOf
  split
  · rename_i hid
    rw [hid, List.filter_eq_self]
    rintro c hc
    obtain ⟨d, -, rfl⟩ := List.mem_map.mp hc
    exact decide_eq_true (scheduleId_claimOf id d)
  · rename_i hid
    rw [List.filter_eq_nil_iff]
    rintro c hc
    obtain ⟨d, -, rfl⟩ := List.mem_map.mp hc
    simpa [scheduleId_claimOf] using hid

theorem claimsOf_outcomes (outcomes : List ScheduleOutcome) :
    claimsOf id (outcomes.flatMap fun o => o.decided.map (claimOf o.scheduleId)) =
      (outcomes.filter fun o => decide (o.scheduleId = id)).flatMap
        fun o => o.decided.map (claimOf id) := by
  induction outcomes with
  | nil => rfl
  | cons o outcomes ih =>
    rw [List.flatMap_cons, claimsOf_append, claimsOf_claims, ih]
    by_cases hid : o.scheduleId = id
    · rw [if_pos hid, List.filter_cons_of_pos (by simpa using hid), List.flatMap_cons]
    · rw [if_neg hid, List.filter_cons_of_neg (by simpa using hid), List.nil_append]

/-- A tick at which a schedule is due. -/
theorem claims_of_due (materialize : Materializer) (running : ScheduleId → ℕ)
    (hr : s.schedules.get? id = some r) (hdue : isDue now r = true) :
    (s.claimDue now running materialize).1.schedules.get? id =
        some (commitRecord (materializePlan materialize (planOf now running r)) now r) ∧
      claimsOf id (s.claimDue now running materialize).2 =
        (materializePlan materialize (planOf now running r)).decided.map (claimOf id) := by
  unfold claimDue commitOutcomes
  rw [get?_commitOutcomes, claimsOf_outcomes, outcomes_of hr, if_pos hdue]
  simp [hr]

/-- A tick at which it is not. -/
theorem claims_of_not_due (materialize : Materializer) (running : ScheduleId → ℕ)
    (hr : s.schedules.get? id = some r) (hdue : isDue now r = false) :
    (s.claimDue now running materialize).1.schedules.get? id = some r ∧
      claimsOf id (s.claimDue now running materialize).2 = [] := by
  unfold claimDue commitOutcomes
  rw [get?_commitOutcomes, claimsOf_outcomes, outcomes_of hr, hdue]
  simp [hr]

theorem materializedTimes_claimsOf (id : ScheduleId) (claimed : List ClaimedOccurrence) :
    materializedTimes id (claimsOf id claimed) = materializedTimes id claimed := by
  unfold materializedTimes claimsOf
  rw [List.filter_filter]
  congr 1
  refine List.filter_congr fun c _ => ?_
  cases decide (c.scheduleId = id) <;> simp

/-- The jobs of a tick at which a schedule is due. -/
theorem claimDue_of_due (materialize : Materializer) (running : ScheduleId → ℕ)
    (hr : s.schedules.get? id = some r) (hdue : isDue now r = true) :
    (s.claimDue now running materialize).1.schedules.get? id =
        some (commitRecord (materializePlan materialize (planOf now running r)) now r) ∧
      materializedTimes id (s.claimDue now running materialize).2 =
        queuedTimes (materializePlan materialize (planOf now running r)).decided := by
  obtain ⟨hget, hclaims⟩ := claims_of_due materialize running hr hdue
  rw [← materializedTimes_claimsOf, hclaims, materializedTimes_claims, if_pos rfl]
  exact ⟨hget, rfl⟩

/-- The jobs of a tick at which it is not. -/
theorem claimDue_of_not_due (materialize : Materializer) (running : ScheduleId → ℕ)
    (hr : s.schedules.get? id = some r) (hdue : isDue now r = false) :
    (s.claimDue now running materialize).1.schedules.get? id = some r ∧
      materializedTimes id (s.claimDue now running materialize).2 = [] := by
  obtain ⟨hget, hclaims⟩ := claims_of_not_due materialize running hr hdue
  rw [← materializedTimes_claimsOf, hclaims]
  exact ⟨hget, rfl⟩

/-- The materializer takes every occurrence of the schedule. -/
def Accepts (materialize : Materializer) (id : ScheduleId) : Prop :=
  ∀ r t, r.scheduleId = id → ∃ job, materialize r t = .ok job

/-- Every target becomes a job. -/
theorem decideTargets_accepted (hallow : r.overlapPolicy = .allow)
    (haccepts : ∀ t, ∃ job, materialize r t = .ok job) (targets : List DateTime) (count : ℕ) :
    ∃ decided, decideTargets materialize r targets count = decided ∧
      decided.map (·.1) = targets ∧ queuedTimes decided = targets ∧
        ∀ d ∈ decided, d.2.isFailed = false := by
  induction targets generalizing count with
  | nil => exact ⟨[], rfl, rfl, rfl, by simp⟩
  | cons target targets ih =>
    obtain ⟨job, hjob⟩ := haccepts target
    obtain ⟨decided, hdecided, htimes, hqueued, hnone⟩ := ih (count + 1)
    refine ⟨(target, .queued job) :: decided, ?_, ?_, ?_, ?_⟩
    · rw [decideTargets, hallow, hjob]
      simp [shouldSkip, hdecided]
    · simp [htimes]
    · simpa [queuedTimes] using hqueued
    · intro d hd
      rcases List.mem_cons.mp hd with rfl | hd
      · rfl
      · exact hnone d hd

theorem lastDecided_of_accepted {o : ScheduleOutcome} (h : ∀ d ∈ o.decided, d.2.isFailed = false) :
    o.lastDecided = (o.decided.map (·.1)).getLast? ∧ o.firstFailed = none := by
  constructor
  · unfold ScheduleOutcome.lastDecided
    rw [List.getLast?_map, List.getLast?_eq_head?_reverse]
    cases hrev : o.decided.reverse with
    | nil => rfl
    | cons d ds =>
      have hd : d.2.isFailed = false := h d (List.mem_reverse.mp (hrev ▸ List.mem_cons_self))
      simp [hd]
  · unfold ScheduleOutcome.firstFailed
    rw [Option.map_eq_none_iff, List.find?_eq_none]
    intro d hd
    simp [h d hd]

/-! ### The grid -/

variable {every : UInt64} {anchor t : DateTime} {maxOccurrences j k : ℕ}

/-- How many occurrences there are up to an instant. -/
def occurrencesUpTo (every : UInt64) (anchor t : DateTime) : ℕ :=
  occurrencesBefore every anchor (t.secs + 1)

/-- The cursor after that many occurrences. -/
def lastOf (every : UInt64) (anchor : DateTime) : ℕ → Option DateTime
  | 0 => none
  | k + 1 => fromTimestamp (occurrence every anchor k)

/-- An interval schedule of which the first occurrences have been decided. -/
structure Decided (every : UInt64) (anchor : DateTime) (maxOccurrences j : ℕ)
    (r : ScheduleRecord) : Prop where
  kind : r.kind = .interval every anchor
  active : r.state = .active
  allow : r.overlapPolicy = .allow
  policy : r.missedRunPolicy = .catchUpBounded maxOccurrences
  last : r.lastOccurrenceAt = lastOf every anchor j

theorem instants_terms_append {a b c : ℕ} (hab : a ≤ b) (hbc : b ≤ c) :
    instants (terms (occurrence every anchor a) every.toNat (b - a)) ++
        instants (terms (occurrence every anchor b) every.toNat (c - b)) =
      instants (terms (occurrence every anchor a) every.toNat (c - a)) := by
  have hsum : c - a = (b - a) + (c - b) := by omega
  have hterm : term (occurrence every anchor a) every.toNat (b - a) = occurrence every anchor b := by
    unfold occurrence
    rw [term_term, Nat.add_sub_cancel' hab]
  rw [← instants_append, hsum, terms_add, hterm]

section

variable (hp : Periodic every)
include hp

theorem lt_occurrencesUpTo : k < occurrencesUpTo every anchor t ↔ occurrence every anchor k ≤ t.secs := by
  unfold occurrencesUpTo
  rw [lt_occurrencesBefore hp]
  omega

theorem occurrencesUpTo_mono (h : t.secs ≤ now.secs) :
    occurrencesUpTo every anchor t ≤ occurrencesUpTo every anchor now :=
  countBelow_mono (step_pos hp) (by omega)

theorem occurrencesBefore_le_upTo :
    occurrencesBefore every anchor t.secs ≤ occurrencesUpTo every anchor t :=
  countBelow_mono (step_pos hp) (by omega)

/-- An occurrence up to an instant is an instant. -/
theorem exists_occurrence (h : k < occurrencesUpTo every anchor t) :
    ∃ d, fromTimestamp (occurrence every anchor k) = some d := by
  have hle := (lt_occurrencesUpTo hp).mp h
  have hge := @anchor_le_occurrence every anchor k
  have hlo := anchor.le_secs
  have hhi := t.secs_le
  refine Option.ne_none_iff_exists'.mp fun hnone => ?_
  rw [fromTimestamp_eq_none] at hnone
  omega

/-- What a tick finds are the occurrences after the decided ones. -/
theorem candidates_interval
    (hj : ∀ i, j = i + 1 → ∃ d, fromTimestamp (occurrence every anchor i) = some d) :
    candidates (.interval every anchor) (lastOf every anchor j) now =
      instants (terms (occurrence every anchor j) every.toNat
        (occurrencesUpTo every anchor now - j)) := by
  have hpos := step_pos hp
  have hfits := hp.fits
  have hstart : ((lastOf every anchor j).map fun d => i64 (d.secs + every.toNat)).getD anchor.secs =
      occurrence every anchor j := by
    cases j with
    | zero => simp [lastOf]
    | succ i =>
      obtain ⟨d, hd⟩ := hj i rfl
      have hsecs := (fromTimestamp_eq_some.mp hd).1
      have hlo := d.le_secs
      have hhi := d.secs_le
      rw [lastOf, hd, Option.map_some, Option.getD_some, i64_of_fits (by omega) (by omega), hsecs,
        occurrence_succ]
  unfold candidates
  simp only [i64_every hp, hstart]
  rw [if_neg (by omega)]
  exact intervalCandidates_occurrence hp j

/-- What a schedule owes are the occurrences after the decided ones. -/
theorem missedRunTargets_interval (hj : j ≤ occurrencesUpTo every anchor now)
    (hmax : occurrencesUpTo every anchor now ≤ maxOccurrences) :
    missedRunTargets (.interval every anchor) (lastOf every anchor j) now
        (.catchUpBounded maxOccurrences) =
      instants (terms (occurrence every anchor j) every.toNat
        (occurrencesUpTo every anchor now - j)) := by
  have hlength := length_instants_le (terms (occurrence every anchor j) every.toNat
    (occurrencesUpTo every anchor now - j))
  rw [length_terms] at hlength
  have hcandidates : candidates (.interval every anchor) (lastOf every anchor j) now =
      instants (terms (occurrence every anchor j) every.toNat
        (occurrencesUpTo every anchor now - j)) :=
    candidates_interval hp fun i hi => exists_occurrence (t := now) hp (by omega)
  rw [missedRunTargets_enough (by rw [hcandidates]; omega), hcandidates]

/-- The last of the owed occurrences, if there are any. -/
theorem getLast?_owed (hj : j ≤ occurrencesUpTo every anchor now) :
    (instants (terms (occurrence every anchor j) every.toNat
        (occurrencesUpTo every anchor now - j))).getLast? =
      if j = occurrencesUpTo every anchor now then none
      else lastOf every anchor (occurrencesUpTo every anchor now) := by
  by_cases hall : j = occurrencesUpTo every anchor now
  · rw [if_pos hall, hall, Nat.sub_self]
    rfl
  · rw [if_neg hall]
    obtain ⟨m, hm⟩ : ∃ m, occurrencesUpTo every anchor now = j + (m + 1) :=
      ⟨occurrencesUpTo every anchor now - j - 1, by omega⟩
    have hin : j + m < occurrencesUpTo every anchor now := by omega
    obtain ⟨d, hd⟩ := exists_occurrence hp hin
    have hlast : (terms (occurrence every anchor j) every.toNat (m + 1)).getLast? =
        some (occurrence every anchor (j + m)) := by
      rw [getLast?_terms]
      unfold occurrence
      rw [term_term]
    rw [hm, Nat.add_sub_cancel_left, getLast?_instants hlast hd]
    exact hd.symm

/-- After an instant, one occurrence at most is not before it. -/
theorem occurrencesUpTo_le :
    occurrencesUpTo every anchor t ≤ occurrencesBefore every anchor t.secs + 1 := by
  have hpos := step_pos hp
  have hfirst := (occurrencesBefore_le hp).mp (le_refl (occurrencesBefore every anchor t.secs))
  unfold occurrencesUpTo
  rw [occurrencesBefore_le hp, occurrence_succ]
  omega

/-- The second that the next run is computed from. -/
theorem base_lastOf (hj : j ≤ occurrencesUpTo every anchor now) :
    ((lastOf every anchor j).map (·.secs)).getD anchor.secs = occurrence every anchor (j - 1) := by
  cases j with
  | zero => simp [lastOf]
  | succ i =>
    obtain ⟨d, hd⟩ := exists_occurrence hp (Nat.lt_of_succ_le hj)
    have hsecs := (fromTimestamp_eq_some.mp hd).1
    rw [lastOf, hd]
    exact hsecs

/-- The cursor moves on to the last occurrence that was decided. -/
theorem newLast_lastOf (hj : j ≤ occurrencesUpTo every anchor now) :
    newLast (lastOf every anchor j)
        (if j = occurrencesUpTo every anchor now then none
          else lastOf every anchor (occurrencesUpTo every anchor now)) =
      lastOf every anchor (occurrencesUpTo every anchor now) := by
  by_cases hall : j = occurrencesUpTo every anchor now
  · rw [if_pos hall, ← hall]
    cases lastOf every anchor j <;> rfl
  · rw [if_neg hall]
    obtain ⟨m, hm⟩ : ∃ m, occurrencesUpTo every anchor now = m + 1 :=
      ⟨occurrencesUpTo every anchor now - 1, by omega⟩
    have hin : m < occurrencesUpTo every anchor now := by omega
    obtain ⟨d, hd⟩ := exists_occurrence hp hin
    rw [hm, lastOf, hd]
    cases j with
    | zero => rfl
    | succ i =>
      have hin' : i < occurrencesUpTo every anchor now := by omega
      obtain ⟨e, he⟩ := exists_occurrence hp hin'
      have hlt : occurrence every anchor i < occurrence every anchor m :=
        (term_lt_term (step_pos hp)).mpr (by omega)
      have hed : e ≤ d := by
        obtain ⟨hesecs, henanos⟩ := fromTimestamp_eq_some.mp he
        obtain ⟨hdsecs, -⟩ := fromTimestamp_eq_some.mp hd
        rw [le_iff_secs henanos]
        omega
      rw [lastOf, he, newLast, max_eq_right hed]

end

/-! ### Runs -/

/-- An interval schedule that has been due at a tick. -/
structure Ticked (every : UInt64) (anchor : DateTime) (maxOccurrences : ℕ) (t : DateTime)
    (r : ScheduleRecord) : Prop
    extends Decided every anchor maxOccurrences (occurrencesUpTo every anchor t) r where
  started : 0 < occurrencesUpTo every anchor t
  next : r.nextRunAt =
    fromTimestamp (occurrence every anchor (occurrencesBefore every anchor t.secs))

/-- An interval schedule that has not. -/
structure Untouched (every : UInt64) (anchor : DateTime) (maxOccurrences : ℕ) (first : DateTime)
    (r : ScheduleRecord) : Prop extends Decided every anchor maxOccurrences 0 r where
  next : r.nextRunAt = some first
  first_le : anchor.secs ≤ first.secs

section

variable (hp : Periodic every)
include hp

/-- A due schedule gets all it owes up to now. -/
theorem commit_due (running : ScheduleId → ℕ) (h : Decided every anchor maxOccurrences j r)
    (haccepts : ∀ t, ∃ job, materialize r t = .ok job)
    (hj : j ≤ occurrencesUpTo every anchor now) (hstarted : 0 < occurrencesUpTo every anchor now)
    (hmax : occurrencesUpTo every anchor now ≤ maxOccurrences) :
    Ticked every anchor maxOccurrences now
        (commitRecord (materializePlan materialize (planOf now running r)) now r) ∧
      queuedTimes (materializePlan materialize (planOf now running r)).decided =
        instants (terms (occurrence every anchor j) every.toNat
          (occurrencesUpTo every anchor now - j)) := by
  obtain ⟨decided, hdecided, htimes, hqueued, hnone⟩ := decideTargets_accepted h.allow haccepts
    (missedRunTargets r.kind r.lastOccurrenceAt now r.missedRunPolicy) (running r.scheduleId)
  have htargets : missedRunTargets r.kind r.lastOccurrenceAt now r.missedRunPolicy =
      instants (terms (occurrence every anchor j) every.toNat
        (occurrencesUpTo every anchor now - j)) := by
    rw [h.kind, h.last, h.policy]
    exact missedRunTargets_interval hp hj hmax
  have houtcome : (materializePlan materialize (planOf now running r)).decided = decided := hdecided
  obtain ⟨hlast, hfailed⟩ := lastDecided_of_accepted (houtcome ▸ hnone)
  rw [houtcome, htimes, htargets, getLast?_owed hp hj] at hlast
  have hbase : ((if j = occurrencesUpTo every anchor now then none
      else lastOf every anchor (occurrencesUpTo every anchor now)).map (·.secs)).getD anchor.secs =
        occurrence every anchor
          (if j = occurrencesUpTo every anchor now then 0 else occurrencesUpTo every anchor now - 1) := by
    split
    · exact base_lastOf hp (Nat.zero_le (occurrencesUpTo every anchor now))
    · exact base_lastOf hp le_rfl
  have hbefore : (if j = occurrencesUpTo every anchor now then 0
      else occurrencesUpTo every anchor now - 1) ≤ occurrencesBefore every anchor now.secs := by
    have hle := @occurrencesUpTo_le every anchor now hp
    split <;> omega
  have hnext : nextHorizon (.interval every anchor) now
      (materializePlan materialize (planOf now running r)).lastDecided
      (materializePlan materialize (planOf now running r)).firstFailed =
        fromTimestamp
          (occurrence every anchor (occurrencesBefore every anchor now.secs)) := by
    rw [hlast, hfailed]
    exact computeNextRun_interval hp hbase hbefore
  constructor
  · exact {
      kind := h.kind
      active := by
        show (match r.kind with
          | .oneShot _ => _
          | .interval _ _ => r.state) = _
        rw [h.kind]
        exact h.active
      allow := h.allow
      policy := h.policy
      last := by
        show newLast r.lastOccurrenceAt _ = _
        rw [h.last, hlast]
        exact newLast_lastOf hp hj
      started := hstarted
      next := by
        show nextHorizon r.kind now _ _ = _
        rw [h.kind]
        exact hnext }
  · rw [houtcome, hqueued, htargets]

/-- A schedule that is not due owes nothing. -/
theorem ticked_of_not_due (h : Ticked every anchor maxOccurrences t r) (hle : t ≤ now)
    (hdue : isDue now r = false) :
    Ticked every anchor maxOccurrences now r ∧
      occurrencesUpTo every anchor now = occurrencesUpTo every anchor t := by
  have hsecs := secs_mono hle
  have hlate : now.secs < occurrence every anchor (occurrencesBefore every anchor t.secs) := by
    have hge := @anchor_le_occurrence every anchor (occurrencesBefore every anchor t.secs)
    have hlo := anchor.le_secs
    have hhi := now.secs_le
    have hany : r.nextRunAt.any (fun t => decide (t ≤ now)) = false := by
      simpa [isDue, h.active] using hdue
    rw [h.next] at hany
    cases hd : fromTimestamp
        (occurrence every anchor (occurrencesBefore every anchor t.secs)) with
    | none =>
      rw [fromTimestamp_eq_none] at hd
      omega
    | some d =>
      obtain ⟨hdsecs, hdnanos⟩ := fromTimestamp_eq_some.mp hd
      rw [hd] at hany
      have hnot : ¬ d ≤ now := by simpa using hany
      rw [le_iff_secs hdnanos] at hnot
      omega
  have hupTo : occurrencesUpTo every anchor now ≤ occurrencesBefore every anchor t.secs :=
    (occurrencesBefore_le hp).mpr (by omega)
  have hbefore := @occurrencesBefore_le_upTo every anchor t hp
  have hbefore' := @occurrencesBefore_le_upTo every anchor now hp
  have hmono := @occurrencesUpTo_mono now every anchor t hp hsecs
  have hbeforeMono : occurrencesBefore every anchor t.secs ≤ occurrencesBefore every anchor now.secs :=
    countBelow_mono (step_pos hp) hsecs
  have heq : occurrencesUpTo every anchor now = occurrencesUpTo every anchor t := by omega
  have heqBefore : occurrencesBefore every anchor now.secs =
      occurrencesBefore every anchor t.secs := by omega
  refine ⟨⟨⟨h.kind, h.active, h.allow, h.policy, ?_⟩, ?_, ?_⟩, heq⟩
  · rw [heq]
    exact h.last
  · rw [heq]
    exact h.started
  · rw [heqBefore]
    exact h.next

end

end InMemoryScheduleStore

end Codegg.Jobs
