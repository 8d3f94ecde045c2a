import Codegg.Jobs.ScheduleRuns

/-!
# The missed-run policies on one schedule

What to do about runs that were missed is asked of every occurrence that a tick finds,
also of the one it is on time for. A schedule that skips missed runs then never runs,
and it agrees with the other policies only while there is nothing to run.
-/
namespace Codegg.Jobs

open Codegg.Library

/-! ### Policies -/

/-- The policy lets a tick run something if there is anything to run. -/
def MissedRunPolicy.runsSomething : MissedRunPolicy → Bool
  | .skip => false
  | .runOnceNow => true
  | .catchUpBounded maxOccurrences => decide (1 ≤ maxOccurrences)

variable {maxOccurrences : ℕ} {now : DateTime}

section

variable {kind : ScheduleKind} {last : Option DateTime} {now : DateTime}

@[simp] theorem missedRunTargets_skip : missedRunTargets kind last now .skip = [] := rfl

theorem missedRunTargets_runOnceNow :
    missedRunTargets kind last now .runOnceNow = (candidates kind last now).getLast?.toList := by
  cases kind <;> rfl

/-- Where nothing is owed but one occurrence, it is run under either of the two policies. -/
theorem missedRunTargets_onTime (hmax : 1 ≤ maxOccurrences)
    (hone : (candidates kind last now).length ≤ 1) :
    missedRunTargets kind last now (.catchUpBounded maxOccurrences) =
      missedRunTargets kind last now .runOnceNow := by
  rw [missedRunTargets_catchUp hmax, missedRunTargets_runOnceNow,
    Nat.sub_eq_zero_of_le (by omega)]
  cases hc : candidates kind last now with
  | nil => rfl
  | cons d ds =>
    rw [hc, List.length_cons] at hone
    obtain rfl : ds = [] := List.eq_nil_of_length_eq_zero (by omega)
    rfl

theorem missedRunTargets_eq_nil {policy : MissedRunPolicy} (h : policy.runsSomething = true) :
    missedRunTargets kind last now policy = [] ↔ candidates kind last now = [] := by
  cases policy with
  | skip => cases h
  | runOnceNow => simp [missedRunTargets_runOnceNow]
  | catchUpBounded maxOccurrences =>
    have hmax : 1 ≤ maxOccurrences := by simpa [MissedRunPolicy.runsSomething] using h
    rw [missedRunTargets_catchUp hmax, List.drop_eq_nil_iff, ← List.length_eq_zero_iff]
    omega

end

/-! ### The first occurrence -/

/-- The first occurrence of a schedule that has not run yet is not after an instant. A
period of 2^63 seconds and more counts as a negative one, and then only for as long as
its amount. -/
def Started (now : DateTime) : ScheduleKind → Prop
  | .oneShot runAt => runAt ≤ now
  | .interval every anchor =>
    anchor.secs ≤ now.secs ∧
      (0 < i64 every.toNat ∨ (i64 every.toNat < 0 ∧ now.secs < anchor.secs - i64 every.toNat))

theorem intervalCandidates_eq_nil {anchor : DateTime} {everySecs : ℤ} (hne : everySecs ≠ 0)
    (hlo : -2 ^ 63 ≤ everySecs) :
    intervalCandidates anchor.secs everySecs now.secs = [] ↔
      ¬(anchor.secs ≤ now.secs ∧
        (0 < everySecs ∨ (everySecs < 0 ∧ now.secs < anchor.secs - everySecs))) := by
  have hanchor := anchor.le_secs
  have hnow := now.secs_le
  unfold intervalCandidates
  by_cases hlate : anchor.secs > now.secs
  · rw [if_pos hlate]
    simp only [true_iff]
    omega
  · rw [if_neg hlate]
    have hnum : 0 ≤ now.secs - anchor.secs := by omega
    have hquot := Int.natAbs_tdiv_le_natAbs (now.secs - anchor.secs) everySecs
    have hcount : i64 (Int.tdiv (i64 (now.secs - anchor.secs)) everySecs + 1) =
        Int.tdiv (now.secs - anchor.secs) everySecs + 1 := by
      rw [i64_of_fits (x := now.secs - anchor.secs) (by omega) (by omega),
        i64_of_fits (by omega) (by omega)]
    -- the first candidate is the anchor itself, which is an instant
    have hfirst : DateTime.fromTimestamp (i64 (anchor.secs + i64 (((0 : ℕ) : ℤ) * everySecs))) =
        DateTime.fromTimestamp anchor.secs := by
      rw [Nat.cast_zero, zero_mul, i64_of_fits (x := 0) (by omega) (by omega), add_zero,
        i64_of_fits (by omega) (by omega)]
    have hinstant : DateTime.fromTimestamp anchor.secs ≠ none := by
      rw [Ne, fromTimestamp_eq_none]
      omega
    have hempty : ∀ count : ℕ, ((List.range count).filterMap fun (i : ℕ) =>
        DateTime.fromTimestamp (i64 (anchor.secs + i64 ((i : ℤ) * everySecs)))) = [] ↔
          count = 0 := by
      intro count
      rw [List.filterMap_eq_nil_iff]
      constructor
      · intro hall
        by_contra hpos
        exact hinstant (hfirst ▸ hall 0 (List.mem_range.mpr (by omega)))
      · rintro rfl
        simp
    rw [hempty]
    by_cases hpos : 0 < everySecs
    · have := Int.tdiv_nonneg hnum hpos.le
      omega
    · have hneg : Int.tdiv (now.secs - anchor.secs) everySecs =
          -((now.secs - anchor.secs) / -everySecs) := by
        rw [← Int.tdiv_eq_ediv_of_nonneg hnum, Int.tdiv_neg, neg_neg]
      have hone : 1 ≤ (now.secs - anchor.secs) / -everySecs ↔
          -everySecs ≤ now.secs - anchor.secs := by
        rw [Int.le_ediv_iff_mul_le (by omega), one_mul]
      omega

theorem candidates_eq_nil (kind : ScheduleKind) (now : DateTime) :
    candidates kind none now = [] ↔ ¬Started now kind := by
  cases kind with
  | oneShot runAt => simp [candidates, Started]
  | interval every anchor =>
    unfold candidates Started
    dsimp only
    have hlo : -2 ^ 63 ≤ i64 every.toNat := by
      unfold i64
      rw [Int.bmod_def]
      omega
    by_cases hzero : i64 every.toNat = 0
    · rw [if_pos hzero]
      simp only [true_iff]
      omega
    · rw [if_neg hzero]
      exact intervalCandidates_eq_nil hzero hlo

/-- The period is not taken for a negative one. -/
def ScheduleKind.Forward : ScheduleKind → Prop
  | .oneShot _ => True
  | .interval every _ => 0 ≤ i64 every.toNat

theorem Started.mono {kind : ScheduleKind} (hkind : kind.Forward) {now' : DateTime}
    (h : Started now kind) (hle : now ≤ now') : Started now' kind := by
  cases kind with
  | oneShot runAt => exact le_trans h hle
  | interval every anchor =>
    have hsecs := secs_mono hle
    simp only [ScheduleKind.Forward] at hkind
    simp only [Started] at h ⊢
    omega

/-- The next run of a schedule that has not started is its first occurrence. -/
theorem computeNextRun_of_not_started {kind : ScheduleKind} (hkind : kind.Forward)
    (h : ¬Started now kind) :
    (∃ first, computeNextRun kind now none = some first ∧ ∀ t, Started t kind ↔ first ≤ t) ∨
      ∀ t, ¬Started t kind := by
  cases kind with
  | oneShot runAt => exact .inl ⟨runAt, rfl, fun t => Iff.rfl⟩
  | interval every anchor =>
    simp only [ScheduleKind.Forward] at hkind
    simp only [Started] at h
    by_cases hzero : i64 every.toNat = 0
    · refine .inr fun t => ?_
      simp only [Started]
      omega
    · have hevery : every.toNat ≠ 0 := by
        rintro heq
        rw [heq] at hzero
        exact hzero rfl
      have hbefore : now.secs ≤ anchor.secs := by omega
      have hlo := anchor.le_secs
      have hhi := anchor.secs_le
      cases hfirst : DateTime.fromTimestamp anchor.secs with
      | none =>
        rw [fromTimestamp_eq_none] at hfirst
        omega
      | some first =>
        obtain ⟨hsecs, hnanos⟩ := fromTimestamp_eq_some.mp hfirst
        refine .inl ⟨first, ?_, fun t => ?_⟩
        · rw [computeNextRun, if_neg hevery]
          dsimp only [Option.map_none, Option.getD_none]
          rw [if_pos hbefore, hfirst]
        · rw [le_iff_secs hnanos]
          simp only [Started]
          omega

/-! ### Runs of ticks -/

namespace InMemoryScheduleStore

variable {s : InMemoryScheduleStore} {id : ScheduleId} {r : ScheduleRecord} {kind : ScheduleKind}
  {policy : MissedRunPolicy} {horizon : Option DateTime} {materialize : Materializer}

/-- A schedule of which no occurrence has been decided. -/
structure Waiting (kind : ScheduleKind) (policy : MissedRunPolicy) (horizon : Option DateTime)
    (r : ScheduleRecord) : Prop where
  kind : r.kind = kind
  active : r.state = .active
  allow : r.overlapPolicy = .allow
  policy : r.missedRunPolicy = policy
  last : r.lastOccurrenceAt = none
  next : r.nextRunAt = horizon

/-- No tick that reaches the horizon comes when an occurrence has started. -/
def NeverOwed (kind : ScheduleKind) : Option DateTime → List DateTime → Prop
  | _, [] => True
  | none, _ :: _ => True
  | some horizon, now :: later =>
    if horizon ≤ now then
      ¬Started now kind ∧ NeverOwed kind (computeNextRun kind now none) later
    else NeverOwed kind (some horizon) later

theorem neverOwed_of_never (h : ∀ t, ¬Started t kind) (horizon : Option DateTime)
    (nows : List DateTime) : NeverOwed kind horizon nows := by
  induction nows generalizing horizon with
  | nil => cases horizon <;> trivial
  | cons now nows ih =>
    cases horizon with
    | none => trivial
    | some first =>
      rw [NeverOwed]
      split
      · exact ⟨h now, ih _⟩
      · exact ih _

/-- Unless the period is taken for a negative one, only the first horizon counts. -/
theorem neverOwed_iff (hkind : kind.Forward) (first : DateTime) (nows : List DateTime) :
    NeverOwed kind (some first) nows ↔ ∀ now ∈ nows, first ≤ now → ¬Started now kind := by
  induction nows generalizing first with
  | nil => simp [NeverOwed]
  | cons now nows ih =>
    rw [NeverOwed, List.forall_mem_cons]
    split
    · rename_i hdue
      rw [forall_prop_of_true hdue]
      refine and_congr_right fun hnot => ?_
      -- whatever starts later does so at or after the tick, so also after the first horizon
      have hlater : ∀ t, Started t kind → first ≤ t := fun t ht => by
        by_contra hearly
        exact hnot (ht.mono hkind ((not_le.mp hearly).le.trans hdue))
      rcases computeNextRun_of_not_started hkind hnot with ⟨next, hnext, hstarted⟩ | hnever
      · rw [hnext, ih]
        refine forall₂_congr fun t _ => ?_
        rw [← hstarted]
        exact ⟨fun h _ ht => h ht ht, fun h ht => h (hlater t ht)⟩
      · simp only [hnever, not_false_eq_true, implies_true, iff_true]
        exact neverOwed_of_never hnever _ nows
    · rename_i hdue
      rw [ih]
      simp [hdue]

theorem Waiting.isDue (h : Waiting kind policy horizon r) (now : DateTime) :
    isDue now r = horizon.any fun t => decide (t ≤ now) := by
  simp [InMemoryScheduleStore.isDue, h.active, h.next]

/-- A due schedule that has nothing to run waits for the next horizon. -/
theorem Waiting.commit_nothing (h : Waiting kind policy horizon r) (materialize : Materializer)
    (running : ScheduleId → ℕ) (hnone : missedRunTargets kind none now policy = []) :
    Waiting kind policy (computeNextRun kind now none)
        (commitRecord (materializePlan materialize (planOf now running r)) now r) ∧
      (materializePlan materialize (planOf now running r)).decided = [] := by
  have htargets : (planOf now running r).targets = [] := by
    rw [planOf, h.kind, h.last, h.policy]
    exact hnone
  have hdecided : (materializePlan materialize (planOf now running r)).decided = [] := by
    rw [materializePlan, htargets]
    rfl
  have hlast : (materializePlan materialize (planOf now running r)).lastDecided = none := by
    rw [ScheduleOutcome.lastDecided, hdecided]
    rfl
  have hfailed : (materializePlan materialize (planOf now running r)).firstFailed = none := by
    rw [ScheduleOutcome.firstFailed, hdecided]
    rfl
  have hkind : (materializePlan materialize (planOf now running r)).kind = kind := h.kind
  refine ⟨⟨h.kind, ?_, h.allow, h.policy, ?_, ?_⟩, hdecided⟩
  · rw [commitRecord, hlast, hfailed, hkind, h.kind]
    cases kind with
    | oneShot runAt => exact h.active
    | interval every anchor => exact h.active
  · rw [commitRecord, hlast, h.last]
    rfl
  · rw [commitRecord, hlast, hfailed, hkind]
    rfl

/-- A schedule that skips missed runs never runs. -/
theorem ticks_skip (ts : List Tick) (hr : s.schedules.get? id = some r)
    (h : Waiting kind .skip horizon r) : materializedTimes id (s.ticks materialize ts).2 = [] := by
  induction ts generalizing s r horizon with
  | nil => rfl
  | cons t ts ih =>
    rw [materializedTimes_ticks_cons]
    cases hdue : isDue t.now r with
    | true =>
      obtain ⟨hget, htimes⟩ := claimDue_of_due materialize t.running hr hdue
      have hnone : missedRunTargets kind none t.now .skip = [] := missedRunTargets_skip
      obtain ⟨hwaiting, hdecided⟩ := h.commit_nothing materialize t.running hnone
      rw [htimes, hdecided, ih hget hwaiting]
      rfl
    | false =>
      obtain ⟨hget, htimes⟩ := claimDue_of_not_due materialize t.running hr hdue
      rw [htimes, ih hget h]
      rfl

/-- Any other policy runs something as soon as there is something to run. -/
theorem ticks_eq_nil_iff (hpolicy : policy.runsSomething = true)
    (haccepts : Accepts materialize id) (ts : List Tick) (hr : s.schedules.get? id = some r)
    (h : Waiting kind policy horizon r) :
    materializedTimes id (s.ticks materialize ts).2 = [] ↔
      NeverOwed kind horizon (ts.map Tick.now) := by
  induction ts generalizing s r horizon with
  | nil => simp [ticks, materializedTimes, NeverOwed]
  | cons t ts ih =>
    rw [materializedTimes_ticks_cons, List.append_eq_nil_iff, List.map_cons]
    cases hdue : isDue t.now r with
    | true =>
      obtain ⟨hget, htimes⟩ := claimDue_of_due materialize t.running hr hdue
      rw [h.isDue] at hdue
      cases horizon with
      | none => cases hdue
      | some n =>
        have hn : n ≤ t.now := by simpa using hdue
        rw [htimes, NeverOwed, if_pos hn]
        by_cases hstarted : Started t.now kind
        · obtain ⟨decided, hdecided, -, hqueued, -⟩ := decideTargets_accepted h.allow
            (fun d => haccepts r d (s.keyed id r hr))
            (missedRunTargets kind none t.now policy) (t.running r.scheduleId)
          have htargets : (materializePlan materialize (planOf t.now t.running r)).decided =
              decided := by
            rw [← hdecided, materializePlan, planOf, h.kind, h.last, h.policy]
          rw [htargets, hqueued, missedRunTargets_eq_nil hpolicy, candidates_eq_nil]
          simp [hstarted]
        · have hnone : missedRunTargets kind none t.now policy = [] := by
            rw [missedRunTargets_eq_nil hpolicy, candidates_eq_nil]
            exact hstarted
          obtain ⟨hwaiting, hdecided⟩ := h.commit_nothing materialize t.running hnone
          rw [hdecided, ih hget hwaiting]
          simp [hstarted, queuedTimes]
    | false =>
      obtain ⟨hget, htimes⟩ := claimDue_of_not_due materialize t.running hr hdue
      rw [h.isDue] at hdue
      rw [htimes, ih hget h]
      cases horizon with
      | none =>
        cases ts <;> simp [NeverOwed]
      | some n =>
        have hn : ¬n ≤ t.now := by simpa using hdue
        simp [NeverOwed, hn]

/-- Every due tick finds one occurrence at most. -/
def OnTime (materialize : Materializer) (s : InMemoryScheduleStore) (id : ScheduleId)
    (ts : List Tick) : Prop :=
  ∀ before t after r, ts = before ++ t :: after →
    (s.ticks materialize before).1.schedules.get? id = some r → isDue t.now r = true →
      (candidates r.kind r.lastOccurrenceAt t.now).length ≤ 1

theorem OnTime.tail {t : Tick} {ts : List Tick} (h : OnTime materialize s id (t :: ts)) :
    OnTime materialize (s.claimDue t.now t.running materialize).1 id ts := by
  rintro before u after r rfl hr hdue
  exact h (t :: before) u after r rfl hr hdue

/-- While every tick is on time, to catch up is to run once. -/
theorem ticks_onTime (hmax : 1 ≤ maxOccurrences) (haccepts : Accepts materialize id)
    (ts : List Tick) {s' : InMemoryScheduleStore} (hallow : r.overlapPolicy = .allow)
    (hpolicy : r.missedRunPolicy = .runOnceNow) (hr : s.schedules.get? id = some r)
    (hr' : s'.schedules.get? id =
      some { r with missedRunPolicy := .catchUpBounded maxOccurrences })
    (hontime : OnTime materialize s id ts) :
    materializedTimes id (s'.ticks materialize ts).2 =
      materializedTimes id (s.ticks materialize ts).2 := by
  induction ts generalizing s s' r with
  | nil => rfl
  | cons t ts ih =>
    rw [materializedTimes_ticks_cons, materializedTimes_ticks_cons]
    cases hdue : isDue t.now r with
    | true =>
      obtain ⟨hget, htimes⟩ := claimDue_of_due materialize t.running hr hdue
      obtain ⟨hget', htimes'⟩ := claimDue_of_due materialize t.running hr' hdue
      have hone := hontime [] t ts r rfl hr hdue
      have htargets := missedRunTargets_onTime hmax hone
      set targets := missedRunTargets r.kind r.lastOccurrenceAt t.now .runOnceNow with htargets_def
      obtain ⟨decided, hdecided, hfst, hqueued, hnofail⟩ := decideTargets_accepted hallow
        (fun d => haccepts r d (s.keyed id r hr)) targets (t.running r.scheduleId)
      obtain ⟨decided', hdecided', hfst', hqueued', hnofail'⟩ := decideTargets_accepted
        (r := { r with missedRunPolicy := .catchUpBounded maxOccurrences }) hallow
        (fun d => haccepts _ d (s.keyed id r hr)) targets (t.running r.scheduleId)
      have hplan : materializePlan materialize (planOf t.now t.running r) =
          ⟨r.scheduleId, r.kind, decided⟩ := by
        rw [← hdecided, materializePlan, planOf, hpolicy]
      have hplan' : materializePlan materialize (planOf t.now t.running
          { r with missedRunPolicy := .catchUpBounded maxOccurrences }) =
          ⟨r.scheduleId, r.kind, decided'⟩ := by
        rw [← hdecided', ← htargets, materializePlan, planOf]
      obtain ⟨hlast, hfailed⟩ := lastDecided_of_accepted (o := ⟨r.scheduleId, r.kind, decided⟩) hnofail
      obtain ⟨hlast', hfailed'⟩ :=
        lastDecided_of_accepted (o := ⟨r.scheduleId, r.kind, decided'⟩) hnofail'
      have hsame : commitRecord ⟨r.scheduleId, r.kind, decided'⟩ t.now
          { r with missedRunPolicy := .catchUpBounded maxOccurrences } =
          { commitRecord ⟨r.scheduleId, r.kind, decided⟩ t.now r with
            missedRunPolicy := .catchUpBounded maxOccurrences } := by
        simp [commitRecord, hlast, hlast', hfailed, hfailed', hfst, hfst']
      rw [htimes, htimes', hplan, hplan', hqueued, hqueued']
      rw [hplan] at hget
      rw [hplan', hsame] at hget'
      exact congrArg _ (ih (r := commitRecord ⟨r.scheduleId, r.kind, decided⟩ t.now r) hallow hpolicy
        hget hget' hontime.tail)
    | false =>
      obtain ⟨hget, htimes⟩ := claimDue_of_not_due materialize t.running hr hdue
      obtain ⟨hget', htimes'⟩ := claimDue_of_not_due materialize t.running hr' hdue
      rw [htimes, htimes', ih hallow hpolicy hget hget' hontime.tail]

/-! ### The three policies -/

/-- What a schedule created with a policy materializes over some ticks. -/
def runsUnder (s : InMemoryScheduleStore) (id : ScheduleId) (template : ScheduleTemplate)
    (created : DateTime) (materialize : Materializer) (ts : List Tick) (policy : MissedRunPolicy) :
    List DateTime :=
  materializedTimes id
    ((s.create id { template with missedRunPolicy := policy } created).ticks materialize ts).2

theorem waiting_newRecord {template : ScheduleTemplate} (hallow : template.overlapPolicy = .allow)
    (id : ScheduleId) (created : DateTime) (policy : MissedRunPolicy) :
    Waiting template.kind policy (some (horizonOf template created))
      (newRecord id { template with missedRunPolicy := policy } created) :=
  ⟨rfl, rfl, hallow, rfl, rfl, rfl⟩

/-- On any ticks, the three policies materialize the same occurrences exactly if there is
never one to materialize. -/
theorem policies_agree_iff (s : InMemoryScheduleStore) {template : ScheduleTemplate}
    (hallow : template.overlapPolicy = .allow) (created : DateTime)
    (haccepts : Accepts materialize id) {maxOccurrences : ℕ} (hmax : 1 ≤ maxOccurrences)
    (ts : List Tick) :
    ((∀ t, t ∈ s.runsUnder id template created materialize ts .skip ↔
        t ∈ s.runsUnder id template created materialize ts .runOnceNow) ∧
      ∀ t, t ∈ s.runsUnder id template created materialize ts .runOnceNow ↔
        t ∈ s.runsUnder id template created materialize ts (.catchUpBounded maxOccurrences)) ↔
      NeverOwed template.kind (some (horizonOf template created)) (ts.map Tick.now) := by
  have hskip : s.runsUnder id template created materialize ts .skip = [] :=
    ticks_skip ts (get?_create s id _ created) (waiting_newRecord hallow id created .skip)
  have honce : s.runsUnder id template created materialize ts .runOnceNow = [] ↔ _ :=
    ticks_eq_nil_iff rfl haccepts ts (get?_create s id _ created)
      (waiting_newRecord hallow id created .runOnceNow)
  have hcatchUp : s.runsUnder id template created materialize ts
      (.catchUpBounded maxOccurrences) = [] ↔ _ :=
    ticks_eq_nil_iff (by simpa [MissedRunPolicy.runsSomething] using hmax) haccepts ts
      (get?_create s id _ created)
      (waiting_newRecord hallow id created (.catchUpBounded maxOccurrences))
  constructor
  · rintro ⟨hsame, -⟩
    rw [hskip] at hsame
    exact honce.mp (List.eq_nil_iff_forall_not_mem.mpr fun t ht => by
      simpa using (hsame t).mpr ht)
  · intro hnever
    rw [hskip, honce.mpr hnever, hcatchUp.mpr hnever]
    simp

/-- Every ten seconds from the tenth on. -/
def fromTen : ScheduleTemplate := { everyTen with kind := .interval 10 (atSecond 10) }

/-- Two ticks, each with the one occurrence since the tick before. -/
def twoTicks : List Tick := [⟨atSecond 12, fun _ => 0⟩, ⟨atSecond 22, fun _ => 0⟩]

theorem skip_never_runs :
    twoTicks.map (fun t => occurrencesUpTo 10 (atSecond 10) t.now) = [1, 2] ∧
      (empty.runsUnder "nightly" fromTen (atSecond 5) (fun _ _ => .ok "job") twoTicks .runOnceNow =
        [atSecond 10, atSecond 20]) ∧
      ¬∀ t, t ∈ empty.runsUnder "nightly" fromTen (atSecond 5) (fun _ _ => .ok "job") twoTicks .skip ↔
        t ∈ empty.runsUnder "nightly" fromTen (atSecond 5) (fun _ _ => .ok "job") twoTicks
          .runOnceNow := by
  have hskip : empty.runsUnder "nightly" fromTen (atSecond 5) (fun _ _ => .ok "job") twoTicks .skip =
      [] := by decide +kernel
  have honce : empty.runsUnder "nightly" fromTen (atSecond 5) (fun _ _ => .ok "job") twoTicks
      .runOnceNow = [atSecond 10, atSecond 20] := by decide +kernel
  refine ⟨by decide, honce, fun hsame => ?_⟩
  rw [hskip] at hsame
  simpa using (hsame (atSecond 10)).mpr List.mem_cons_self

theorem policies_agree_fromTen :
    ((∀ t, t ∈ empty.runsUnder "nightly" fromTen (atSecond 5) (fun _ _ => .ok "job") twoTicks .skip ↔
        t ∈ empty.runsUnder "nightly" fromTen (atSecond 5) (fun _ _ => .ok "job") twoTicks
          .runOnceNow) ∧
      ∀ t, t ∈ empty.runsUnder "nightly" fromTen (atSecond 5) (fun _ _ => .ok "job") twoTicks
          .runOnceNow ↔
        t ∈ empty.runsUnder "nightly" fromTen (atSecond 5) (fun _ _ => .ok "job") twoTicks
          (.catchUpBounded 3)) ↔
      NeverOwed fromTen.kind (some (horizonOf fromTen (atSecond 5))) (twoTicks.map Tick.now) :=
  policies_agree_iff empty rfl (atSecond 5) (fun _ _ _ => ⟨"job", rfl⟩) (by decide) twoTicks

/-- The other two agree whenever no run is missed. -/
theorem runOnce_eq_catchUp (s : InMemoryScheduleStore) {template : ScheduleTemplate}
    (hallow : template.overlapPolicy = .allow) (created : DateTime)
    (haccepts : Accepts materialize id) (hmax : 1 ≤ maxOccurrences) (ts : List Tick)
    (hontime : OnTime materialize
      (s.create id { template with missedRunPolicy := .runOnceNow } created) id ts) :
    s.runsUnder id template created materialize ts (.catchUpBounded maxOccurrences) =
      s.runsUnder id template created materialize ts .runOnceNow :=
  ticks_onTime hmax haccepts ts (r := newRecord id { template with missedRunPolicy := .runOnceNow }
    created) hallow rfl (get?_create s id _ created) (get?_create s id _ created) hontime

theorem runOnce_eq_catchUp_fromTen :
    empty.runsUnder "nightly" fromTen (atSecond 5) (fun _ _ => .ok "job") twoTicks
        (.catchUpBounded 3) =
      empty.runsUnder "nightly" fromTen (atSecond 5) (fun _ _ => .ok "job") twoTicks .runOnceNow := by
  refine runOnce_eq_catchUp empty rfl (atSecond 5) (fun _ _ _ => ⟨"job", rfl⟩) (by decide) twoTicks ?_
  have hone : ∀ n < 2, ∀ t ∈ twoTicks[n]?, ∀ r ∈ ((empty.create "nightly"
      { fromTen with missedRunPolicy := .runOnceNow } (atSecond 5)).ticks (fun _ _ => .ok "job")
        (twoTicks.take n)).1.schedules.get? "nightly",
      (candidates r.kind r.lastOccurrenceAt t.now).length ≤ 1 := by decide +kernel
  intro before t after r hts hr _
  have hlen := congrArg List.length hts
  simp only [twoTicks, List.length_append, List.length_cons] at hlen
  exact hone before.length (by simp at hlen; omega) t (by simp [hts]) r (by simpa [hts] using hr)

end InMemoryScheduleStore

end Codegg.Jobs
