import Codegg.Jobs.ScheduleRuns

/-!
# Refused occurrences

A tick decides about the occurrences of a schedule in order and stops at one that the
materializer refuses. Over any ticks, with any refusals and with any clock, what has
been decided is an initial part of the occurrences of the schedule; the cursor is the
last of them, and the horizon is not past the next one.
-/
namespace Codegg.Jobs

open Codegg.Library InMemoryScheduleStore

/-! ### The occurrences of a schedule -/

/-- An occurrence of a schedule by its number. -/
def nthOccurrence (kind : ScheduleKind) (k : ℕ) : Option DateTime :=
  match kind with
  | .oneShot runAt => if k = 0 then some runAt else none
  | .interval every anchor =>
    if every.toNat = 0 then none else DateTime.fromTimestamp (occurrence every anchor k)

/-- How many occurrences are not after an instant. -/
def countTo (kind : ScheduleKind) (now : DateTime) : ℕ :=
  match kind with
  | .oneShot runAt => if runAt ≤ now then 1 else 0
  | .interval every anchor =>
    if every.toNat = 0 then 0 else occurrencesUpTo every anchor now

/-- Some occurrences one after the other. -/
def occurrencesFrom (kind : ScheduleKind) (k count : ℕ) : List DateTime :=
  (List.range' k count).filterMap (nthOccurrence kind)

/-- The cursor after the first occurrences. -/
def cursorAt (kind : ScheduleKind) : ℕ → Option DateTime
  | 0 => none
  | k + 1 => nthOccurrence kind k

/-- The horizon is not past an occurrence, and if there is no horizon there is no such
occurrence. -/
def Waits (kind : ScheduleKind) (k : ℕ) : Option DateTime → Prop
  | none => nthOccurrence kind k = none
  | some next => ∀ d, nthOccurrence kind k = some d → next ≤ d

/-- The period added to an instant stays a 64-bit integer. -/
def ScheduleKind.Fits : ScheduleKind → Prop
  | .oneShot _ => True
  | .interval every _ => every.toNat + 2 ^ 44 < 2 ^ 63

section

variable {kind : ScheduleKind} {now a b d : DateTime} {i j k : ℕ}

theorem ScheduleKind.Fits.periodic {every : UInt64} {anchor : DateTime}
    (h : (ScheduleKind.interval every anchor).Fits) (hne : every.toNat ≠ 0) : Periodic every :=
  ⟨Nat.pos_of_ne_zero hne, h⟩

@[simp] theorem cursorAt_zero : cursorAt kind 0 = none := rfl

@[simp] theorem cursorAt_succ : cursorAt kind (k + 1) = nthOccurrence kind k := rfl

theorem occurrencesFrom_zero : occurrencesFrom kind k 0 = [] := rfl

theorem occurrencesFrom_add (m n : ℕ) :
    occurrencesFrom kind k (m + n) = occurrencesFrom kind k m ++ occurrencesFrom kind (k + m) n := by
  unfold occurrencesFrom
  rw [← List.range'_append_1, List.filterMap_append]

theorem mem_occurrencesFrom {m : ℕ} :
    d ∈ occurrencesFrom kind k m ↔ ∃ i, k ≤ i ∧ i < k + m ∧ nthOccurrence kind i = some d := by
  simp [occurrencesFrom, and_assoc]

theorem lastOf_eq_cursorAt {every : UInt64} {anchor : DateTime} (hne : every.toNat ≠ 0) (k : ℕ) :
    lastOf every anchor k = cursorAt (.interval every anchor) k := by
  cases k with
  | zero => rfl
  | succ k => simp [nthOccurrence, lastOf, hne]

variable (hkind : kind.Fits)
include hkind

/-- The occurrences are in order. -/
theorem nthOccurrence_lt (ha : nthOccurrence kind j = some a) (hb : nthOccurrence kind k = some b) :
    a < b ↔ j < k := by
  cases kind with
  | oneShot runAt =>
    simp only [nthOccurrence] at ha hb
    split at ha
    · split at hb
      · cases ha
        cases hb
        simp only [lt_self_iff_false, false_iff]
        omega
      · cases hb
    · cases ha
  | interval every anchor =>
    simp only [nthOccurrence] at ha hb
    split at ha
    · cases ha
    · rename_i hne
      rw [if_neg hne] at hb
      obtain ⟨hasecs, hananos⟩ := fromTimestamp_eq_some.mp ha
      obtain ⟨hbsecs, hbnanos⟩ := fromTimestamp_eq_some.mp hb
      have hterms : occurrence every anchor j < occurrence every anchor k ↔ j < k :=
        term_lt_term (step_pos (hkind.periodic hne))
      rw [DateTime.lt_iff]
      omega

/-- After the last occurrence there is none. -/
theorem nthOccurrence_none (h : nthOccurrence kind j = none) (hle : j ≤ k) :
    nthOccurrence kind k = none := by
  cases kind with
  | oneShot runAt =>
    simp only [nthOccurrence] at h ⊢
    split at h
    · cases h
    · rw [if_neg (by omega)]
  | interval every anchor =>
    simp only [nthOccurrence] at h ⊢
    split
    · rfl
    · rename_i hne
      rw [if_neg hne, fromTimestamp_eq_none] at h
      rw [fromTimestamp_eq_none]
      have hle' : occurrence every anchor j ≤ occurrence every anchor k := by
        have := @term_lt_term anchor.secs every.toNat k j (step_pos (hkind.periodic hne))
        unfold occurrence
        omega
      have hge := @anchor_le_occurrence every anchor j
      have hlo := anchor.le_secs
      omega

theorem lt_countTo : k < countTo kind now ↔ ∃ d, nthOccurrence kind k = some d ∧ d ≤ now := by
  cases kind with
  | oneShot runAt =>
    simp only [nthOccurrence, countTo]
    split <;> split <;> simp_all
  | interval every anchor =>
    simp only [nthOccurrence, countTo]
    split
    · simp
    · rename_i hne
      have hp := hkind.periodic hne
      constructor
      · intro hk
        obtain ⟨d, hd⟩ := exists_occurrence hp hk
        obtain ⟨hsecs, hnanos⟩ := fromTimestamp_eq_some.mp hd
        refine ⟨d, hd, (le_iff_secs hnanos).mpr ?_⟩
        rw [hsecs]
        exact (lt_occurrencesUpTo hp).mp hk
      · rintro ⟨d, hd, hle⟩
        obtain ⟨hsecs, hnanos⟩ := fromTimestamp_eq_some.mp hd
        rw [le_iff_secs hnanos, hsecs] at hle
        exact (lt_occurrencesUpTo hp).mpr hle

theorem exists_nthOccurrence (h : k < countTo kind now) : ∃ d, nthOccurrence kind k = some d := by
  obtain ⟨d, hd, -⟩ := (lt_countTo hkind).mp h
  exact ⟨d, hd⟩

theorem countTo_le (hd : nthOccurrence kind k = some d) : countTo kind now ≤ k ↔ now < d := by
  rw [← not_lt, lt_countTo hkind]
  simp [hd]

theorem pairwise_occurrencesFrom (k m : ℕ) :
    (occurrencesFrom kind k m).Pairwise (· < ·) := by
  unfold occurrencesFrom
  rw [List.pairwise_filterMap]
  refine (List.pairwise_lt_range' (s := k) (n := m)).imp fun hij a ha b hb => ?_
  exact (nthOccurrence_lt hkind ha hb).mpr hij

/-- What a tick finds of a schedule whose first occurrences have been decided. -/
theorem candidates_cursorAt (hcursor : k = 0 ∨ (cursorAt kind k).isSome) :
    candidates kind (cursorAt kind k) now = occurrencesFrom kind k (countTo kind now - k) := by
  cases kind with
  | oneShot runAt =>
    cases k with
    | zero =>
      by_cases hle : runAt ≤ now <;> simp [candidates, countTo, occurrencesFrom, nthOccurrence, hle]
    | succ k =>
      have hnone : countTo (.oneShot runAt) now - (k + 1) = 0 := by
        simp only [countTo]
        split <;> omega
      rw [hnone, occurrencesFrom_zero]
      have hsome : (cursorAt (.oneShot runAt) (k + 1)).isSome := by simpa using hcursor
      simp only [candidates]
      rw [if_pos hsome]
  | interval every anchor =>
    by_cases hzero : every.toNat = 0
    · have hempty : candidates (.interval every anchor) (cursorAt (.interval every anchor) k) now = [] := by
        simp only [candidates, hzero]
        rfl
      rw [hempty, countTo, if_pos hzero, Nat.zero_sub, occurrencesFrom_zero]
    · have hp := hkind.periodic hzero
      have hlast := (@lastOf_eq_cursorAt every anchor hzero k).symm
      have hdrawn : ∀ i, k = i + 1 →
          ∃ d, DateTime.fromTimestamp (occurrence every anchor i) = some d := by
        rintro i rfl
        rw [hlast, lastOf] at hcursor
        simpa [Option.isSome_iff_exists] using hcursor
      rw [hlast, candidates_interval hp hdrawn, countTo, if_neg hzero]
      unfold instants terms occurrencesFrom
      rw [List.filterMap_map, List.range'_eq_map_range, List.filterMap_map]
      refine List.filterMap_congr fun i _ => ?_
      simp only [Function.comp_apply, nthOccurrence, if_neg hzero]
      unfold occurrence
      rw [term_term]

/-- The next run computed from what has been decided is not past what has not. -/
theorem computeNextRun_waits (hj : j ≤ countTo kind now) (hi : countTo kind now ≤ i) :
    Waits kind i (computeNextRun kind now (cursorAt kind j)) := by
  cases kind with
  | oneShot runAt =>
    cases j with
    | zero =>
      intro d hd
      simp only [nthOccurrence] at hd
      split at hd
      · exact (Option.some.inj hd).le
      · cases hd
    | succ j =>
      obtain ⟨d, hd⟩ := exists_nthOccurrence hkind (Nat.lt_of_succ_le hj)
      rw [cursorAt_succ, hd]
      show nthOccurrence (.oneShot runAt) i = none
      simp only [nthOccurrence]
      rw [if_neg (by omega)]
  | interval every anchor =>
    by_cases hzero : every.toNat = 0
    · have hnone : computeNextRun (.interval every anchor) now (cursorAt (.interval every anchor) j) =
          none := by
        rw [computeNextRun, if_pos hzero]
      rw [hnone]
      simp [Waits, nthOccurrence, hzero]
    · have hp := hkind.periodic hzero
      simp only [countTo, if_neg hzero] at hj hi
      have hbefore := @occurrencesUpTo_le every anchor now hp
      have hupTo := @occurrencesBefore_le_upTo every anchor now hp
      rw [← lastOf_eq_cursorAt hzero,
        computeNextRun_interval hp (base_lastOf hp hj) (by omega)]
      have hnth : nthOccurrence (.interval every anchor)
          (occurrencesBefore every anchor now.secs) = DateTime.fromTimestamp
            (occurrence every anchor (occurrencesBefore every anchor now.secs)) := by
        simp [nthOccurrence, hzero]
      rw [← hnth]
      cases hb : nthOccurrence (.interval every anchor)
          (occurrencesBefore every anchor now.secs) with
      | none => exact nthOccurrence_none hkind hb (hupTo.trans hi)
      | some n =>
        intro d hd
        rw [← not_lt, nthOccurrence_lt hkind hd hb]
        omega

end

/-! ### Parts of the occurrences -/

section

variable {kind : ScheduleKind} {now d : DateTime} {k m n : ℕ}

theorem occurrencesFrom_succ (hd : nthOccurrence kind k = some d) :
    occurrencesFrom kind k (n + 1) = d :: occurrencesFrom kind (k + 1) n := by
  simp [occurrencesFrom, List.range'_succ, hd]

theorem length_occurrencesFrom_le : (occurrencesFrom kind k n).length ≤ n := by
  have hle := List.length_filterMap_le (nthOccurrence kind) (List.range' k n)
  simpa [occurrencesFrom] using hle

variable (hkind : kind.Fits)
include hkind

/-- A part of the occurrences up to an instant begins with those before its end. -/
theorem occurrencesFrom_eq_append {before rest : List DateTime} {f : DateTime}
    (hle : k + n ≤ countTo kind now) (h : occurrencesFrom kind k n = before ++ f :: rest) :
    before = occurrencesFrom kind k before.length ∧
      nthOccurrence kind (k + before.length) = some f := by
  induction before generalizing k n with
  | nil =>
    cases n with
    | zero => cases h
    | succ n =>
      obtain ⟨d, hd⟩ := exists_nthOccurrence hkind (show k < countTo kind now by omega)
      rw [occurrencesFrom_succ hd, List.nil_append, List.cons.injEq] at h
      exact ⟨rfl, h.1 ▸ hd⟩
  | cons b before ih =>
    cases n with
    | zero => cases h
    | succ n =>
      obtain ⟨d, hd⟩ := exists_nthOccurrence hkind (show k < countTo kind now by omega)
      rw [occurrencesFrom_succ hd, List.cons_append, List.cons.injEq] at h
      obtain ⟨hbefore, hf⟩ := ih (by omega) h.2
      rw [List.length_cons, occurrencesFrom_succ hd, ← hbefore, h.1]
      exact ⟨rfl, by rw [← hf]; congr 1; omega⟩

/-- The last of them is where the cursor goes. -/
theorem getLast?_occurrencesFrom (hle : k + m ≤ countTo kind now) :
    (occurrencesFrom kind k m).getLast? = if m = 0 then none else cursorAt kind (k + m) := by
  cases m with
  | zero => rfl
  | succ m =>
    obtain ⟨d, hd⟩ := exists_nthOccurrence hkind (show k + m < countTo kind now by omega)
    rw [occurrencesFrom_add, occurrencesFrom_succ hd, List.getLast?_append, ← Nat.add_assoc, cursorAt_succ, hd]
    rfl

/-- The cursor only has to follow. -/
theorem newLast_cursorAt (hle : k + m ≤ countTo kind now) :
    newLast (cursorAt kind k) (if m = 0 then none else cursorAt kind (k + m)) =
      cursorAt kind (k + m) := by
  cases m with
  | zero => cases cursorAt kind k <;> rfl
  | succ m =>
    obtain ⟨d, hd⟩ := exists_nthOccurrence hkind (show k + m < countTo kind now by omega)
    rw [if_neg (by omega), ← Nat.add_assoc, cursorAt_succ, hd]
    cases k with
    | zero => rfl
    | succ k =>
      obtain ⟨e, he⟩ := exists_nthOccurrence hkind (show k < countTo kind now by omega)
      have hlt : e < d := (nthOccurrence_lt hkind he hd).mpr (by omega)
      rw [cursorAt_succ, he, newLast, max_eq_right hlt.le]

end

/-! ### Decisions -/

/-- The occurrences that a list of decisions settles. -/
def settledTimes (decided : List (DateTime × OccurrenceOutcome)) : List DateTime :=
  (decided.filter fun d => !d.2.isFailed).map (·.1)

/-- The occurrences it refuses. -/
def failedTimes (decided : List (DateTime × OccurrenceOutcome)) : List DateTime :=
  (decided.filter fun d => d.2.isFailed).map (·.1)

section

variable (target : DateTime) (job : JobId) (code : String)
  (ds : List (DateTime × OccurrenceOutcome))

@[simp] theorem settledTimes_queued :
    settledTimes ((target, .queued job) :: ds) = target :: settledTimes ds := rfl

end

theorem lastDecided_eq (o : ScheduleOutcome) : o.lastDecided = (settledTimes o.decided).getLast? := by
  unfold ScheduleOutcome.lastDecided settledTimes
  rw [List.getLast?_map, List.getLast?_eq_head?_reverse, ← List.filter_reverse, List.head?_filter]

theorem firstFailed_eq (o : ScheduleOutcome) : o.firstFailed = (failedTimes o.decided).head? := by
  unfold ScheduleOutcome.firstFailed failedTimes
  rw [List.head?_map, List.head?_filter]

/-- Either all targets are settled, or those before one that is refused. -/
theorem decideTargets_cases (materialize : Materializer) (r : ScheduleRecord)
    (targets : List DateTime) (running : ℕ) :
    (settledTimes (decideTargets materialize r targets running) = targets ∧
        failedTimes (decideTargets materialize r targets running) = []) ∨
      ∃ f rest, targets = settledTimes (decideTargets materialize r targets running) ++ f :: rest ∧
        failedTimes (decideTargets materialize r targets running) = [f] ∧
          ∃ e, materialize r f = .error e := by
  induction targets generalizing running with
  | nil => exact .inl ⟨rfl, rfl⟩
  | cons target targets ih =>
    rw [decideTargets]
    split
    · rcases ih running with ⟨hsettled, hfailed⟩ | ⟨f, rest, htargets, hfailed, herr⟩
      · exact .inl ⟨congrArg _ hsettled, hfailed⟩
      · exact .inr ⟨f, rest, congrArg _ htargets, hfailed, herr⟩
    · cases hm : materialize r target with
      | ok job =>
        rcases ih (running + 1) with ⟨hsettled, hfailed⟩ | ⟨f, rest, htargets, hfailed, herr⟩
        · exact .inl ⟨congrArg _ hsettled, hfailed⟩
        · exact .inr ⟨f, rest, congrArg _ htargets, hfailed, herr⟩
      | error e => exact .inr ⟨target, targets, rfl, rfl, e, hm⟩

/-- Under `Allow` nothing is skipped. -/
theorem queuedTimes_eq_settledTimes (materialize : Materializer) {r : ScheduleRecord}
    (hallow : r.overlapPolicy = .allow) (targets : List DateTime) (running : ℕ) :
    queuedTimes (decideTargets materialize r targets running) =
      settledTimes (decideTargets materialize r targets running) := by
  induction targets generalizing running with
  | nil => rfl
  | cons target targets ih =>
    have hskip : ¬shouldSkip r.overlapPolicy running = true := by simp [hallow, shouldSkip]
    rw [decideTargets, if_neg hskip]
    cases materialize r target with
    | ok job => simpa [queuedTimes] using ih (running + 1)
    | error e => rfl

/-! ### What the claims of a run say -/

/-- Made into a job, or skipped by the overlap policy. -/
def OccurrenceStatus.isDecided : OccurrenceStatus → Bool
  | queued | skipped => true
  | pending | suppressed | failed => false

/-- The instants of the claims of a schedule that have such a status. -/
def timesWith (p : OccurrenceStatus → Bool) (id : ScheduleId) (claimed : List ClaimedOccurrence) :
    List DateTime :=
  ((claimsOf id claimed).filter fun c => p c.status).map (·.scheduledFor)

def decidedTimes (id : ScheduleId) (claimed : List ClaimedOccurrence) : List DateTime :=
  timesWith (·.isDecided) id claimed

def refusedTimes (id : ScheduleId) (claimed : List ClaimedOccurrence) : List DateTime :=
  timesWith (fun status => decide (status = .failed)) id claimed

variable {claimed : List ClaimedOccurrence} {first : DateTime}

section

variable {id : ScheduleId}

theorem timesWith_append (p : OccurrenceStatus → Bool) (xs ys : List ClaimedOccurrence) :
    timesWith p id (xs ++ ys) = timesWith p id xs ++ timesWith p id ys := by
  simp [timesWith, claimsOf_append]

theorem timesWith_of_nil (p : OccurrenceStatus → Bool) (h : claimsOf id claimed = []) :
    timesWith p id claimed = [] := by
  rw [timesWith, h]
  rfl

/-- What was materialized is among what was decided. -/
theorem materializedTimes_sublist (claimed : List ClaimedOccurrence) :
    (materializedTimes id claimed).Sublist (decidedTimes id claimed) := by
  rw [← materializedTimes_claimsOf]
  refine List.Sublist.map _ ?_
  refine List.monotone_filter_right _ fun c hc => ?_
  simp only [Bool.and_eq_true, decide_eq_true_eq] at hc
  rw [hc.2]
  rfl

theorem timesWith_of_claims {decided : List (DateTime × OccurrenceOutcome)}
    (h : claimsOf id claimed = decided.map (claimOf id)) {p : OccurrenceStatus → Bool}
    {q : DateTime × OccurrenceOutcome → Bool} (hpq : ∀ d, p (claimOf id d).status = q d) :
    timesWith p id claimed = (decided.filter q).map (·.1) := by
  rw [timesWith, h, List.filter_map, List.map_map]
  have htime : ∀ d : DateTime × OccurrenceOutcome, (claimOf id d).scheduledFor = d.1 := by
    rintro ⟨t, _ | _ | _⟩ <;> rfl
  simp [Function.comp_def, hpq, htime]

theorem decidedTimes_of_claims {decided : List (DateTime × OccurrenceOutcome)}
    (h : claimsOf id claimed = decided.map (claimOf id)) :
    decidedTimes id claimed = settledTimes decided :=
  timesWith_of_claims h (by rintro ⟨t, _ | _ | _⟩ <;> rfl)

theorem refusedTimes_of_claims {decided : List (DateTime × OccurrenceOutcome)}
    (h : claimsOf id claimed = decided.map (claimOf id)) :
    refusedTimes id claimed = failedTimes decided :=
  timesWith_of_claims h (by rintro ⟨t, _ | _ | _⟩ <;> rfl)

end

/-! ### One tick -/

namespace InMemoryScheduleStore

variable {s : InMemoryScheduleStore} {id : ScheduleId} {r : ScheduleRecord} {kind : ScheduleKind}
  {overlap : OverlapPolicy} {maxOccurrences k : ℕ} {now : DateTime}

/-- A schedule of which the first occurrences have been decided. -/
structure Progress (kind : ScheduleKind) (overlap : OverlapPolicy) (maxOccurrences k : ℕ)
    (r : ScheduleRecord) : Prop where
  kind_eq : r.kind = kind
  overlap_eq : r.overlapPolicy = overlap
  policy : r.missedRunPolicy = .catchUpBounded maxOccurrences
  last : r.lastOccurrenceAt = cursorAt kind k
  drawn : k = 0 ∨ (cursorAt kind k).isSome
  state : r.state = .active ∨ nthOccurrence kind k = none

/-- How many occurrences a due tick settles, and what ends them. -/
theorem decideTargets_occurrences (hkind : kind.Fits) (now : DateTime)
    (materialize : Materializer) (r : ScheduleRecord) (k running : ℕ) :
    ∃ m, (m = 0 ∨ k + m ≤ countTo kind now) ∧
      settledTimes (decideTargets materialize r (occurrencesFrom kind k (countTo kind now - k))
        running) = occurrencesFrom kind k m ∧
      ((failedTimes (decideTargets materialize r (occurrencesFrom kind k (countTo kind now - k))
          running) = [] ∧ countTo kind now ≤ k + m) ∨
        ∃ f, failedTimes (decideTargets materialize r
            (occurrencesFrom kind k (countTo kind now - k)) running) = [f] ∧
          nthOccurrence kind (k + m) = some f ∧ ∃ e, materialize r f = .error e) := by
  rcases decideTargets_cases materialize r (occurrencesFrom kind k (countTo kind now - k)) running
    with ⟨hsettled, hfailed⟩ | ⟨f, rest, heq, hfailed, herr⟩
  · exact ⟨countTo kind now - k, by omega, hsettled, .inl ⟨hfailed, by omega⟩⟩
  · set before := settledTimes
      (decideTargets materialize r (occurrencesFrom kind k (countTo kind now - k)) running)
    have hlength := congrArg List.length heq
    have hall := @length_occurrencesFrom_le kind k (countTo kind now - k)
    simp only [List.length_append, List.length_cons] at hlength
    obtain ⟨hbefore, hf⟩ := occurrencesFrom_eq_append hkind
      (show k + (countTo kind now - k) ≤ countTo kind now by omega) heq
    exact ⟨before.length, .inr (by omega), hbefore, .inr ⟨f, hfailed, hf, herr⟩⟩

/-- A refused occurrence holds the horizon back. -/
theorem nextHorizon_waits {f : DateTime} (hf : nthOccurrence kind k = some f)
    (last : Option DateTime) : Waits kind k (nextHorizon kind now last (some f)) := by
  have hfirst : ∀ d, nthOccurrence kind k = some d → f ≤ d := fun d hd => by
    rw [hf] at hd
    exact (Option.some.inj hd).le
  unfold nextHorizon
  cases computeNextRun kind now last with
  | none => exact hfirst
  | some c =>
    dsimp only
    split
    · rename_i hlt
      exact fun d hd => hlt.le.trans (hfirst d hd)
    · exact hfirst

/-- What a due tick does: it decides some more occurrences, up to now or up to one that is
refused, and leaves a horizon that is not past the next one. -/
structure Decides (kind : ScheduleKind) (overlap : OverlapPolicy) (maxOccurrences k : ℕ)
    (now : DateTime) (o : ScheduleOutcome) (r : ScheduleRecord) (m : ℕ) : Prop where
  settled : settledTimes o.decided = occurrencesFrom kind k m
  progress : Progress kind overlap maxOccurrences (k + m) (commitRecord o now r)
  waits : Waits kind (k + m) (commitRecord o now r).nextRunAt
  refused : ∀ f ∈ failedTimes o.decided, nthOccurrence kind (k + m) = some f

theorem Progress.commit (hkind : kind.Fits) (h : Progress kind overlap maxOccurrences k r)
    (hactive : r.state = .active) (hmax : countTo kind now ≤ maxOccurrences)
    (materialize : Materializer) (running : ScheduleId → ℕ) :
    ∃ m, Decides kind overlap maxOccurrences k now
        (materializePlan materialize (planOf now running r)) r m ∧
      ((∀ t, ∃ job, materialize r t = .ok job) → countTo kind now ≤ k + m) := by
  have htargets : (planOf now running r).targets = occurrencesFrom kind k (countTo kind now - k) := by
    have hcandidates : candidates kind (cursorAt kind k) now =
        occurrencesFrom kind k (countTo kind now - k) := candidates_cursorAt hkind h.drawn
    have hlength := @length_occurrencesFrom_le kind k (countTo kind now - k)
    rw [planOf, h.kind_eq, h.last, h.policy, missedRunTargets_enough (by rw [hcandidates]; omega),
      hcandidates]
  obtain ⟨m, hm, hsettled, hend⟩ :=
    decideTargets_occurrences hkind now materialize r k (running r.scheduleId)
  have hdecided : (materializePlan materialize (planOf now running r)).decided =
      decideTargets materialize r (occurrencesFrom kind k (countTo kind now - k))
        (running r.scheduleId) := by
    rw [materializePlan, htargets]
    rfl
  rw [← hdecided] at hsettled hend
  have hokind : (materializePlan materialize (planOf now running r)).kind = kind := h.kind_eq
  generalize materializePlan materialize (planOf now running r) = o at hsettled hend hokind ⊢
  have hlast : o.lastDecided = if m = 0 then none else cursorAt kind (k + m) := by
    rw [lastDecided_eq, hsettled]
    rcases hm with rfl | hm
    · rfl
    · exact getLast?_occurrencesFrom hkind hm
  have hnext : Waits kind (k + m) (nextHorizon kind now o.lastDecided o.firstFailed) := by
    rw [firstFailed_eq]
    rcases hend with ⟨hfailed, hall⟩ | ⟨f, hfailed, hf, -⟩
    · rw [hfailed, hlast]
      split
      · exact computeNextRun_waits (j := 0) hkind (Nat.zero_le _) hall
      · exact computeNextRun_waits hkind (by omega) hall
    · rw [hfailed]
      exact nextHorizon_waits hf _
  have hrecord : (commitRecord o now r).nextRunAt = nextHorizon kind now o.lastDecided o.firstFailed := by
    rw [commitRecord, hokind]
  refine ⟨m, ⟨hsettled, ⟨h.kind_eq, h.overlap_eq, h.policy, ?_, ?_, ?_⟩, hrecord ▸ hnext, ?_⟩, ?_⟩
  · show newLast r.lastOccurrenceAt o.lastDecided = _
    rw [h.last, hlast]
    rcases hm with rfl | hm
    · cases cursorAt kind k <;> rfl
    · exact newLast_cursorAt hkind hm
  · rcases hm with rfl | hm
    · exact h.drawn
    · cases hkm : k + m with
      | zero => exact .inl rfl
      | succ i =>
        obtain ⟨d, hd⟩ := exists_nthOccurrence hkind (show i < countTo kind now by omega)
        exact .inr (by rw [cursorAt_succ, hd]; rfl)
  · -- a one-shot is completed when it has no horizon any more
    show (match r.kind with
      | .oneShot _ => if (nextHorizon o.kind now o.lastDecided o.firstFailed).isNone then _ else r.state
      | .interval _ _ => r.state) = _ ∨ _
    rw [hokind]
    split
    · split
      · rename_i hnone
        rw [Option.isNone_iff_eq_none] at hnone
        rw [hnone] at hnext
        exact .inr hnext
      · exact .inl hactive
    · exact .inl hactive
  · intro f hf
    rcases hend with ⟨hfailed, -⟩ | ⟨f', hfailed, hf', -⟩
    · rw [hfailed] at hf
      cases hf
    · rw [hfailed, List.mem_singleton] at hf
      rw [hf, hf']
  · intro haccepts
    rcases hend with ⟨-, hall⟩ | ⟨f', -, -, e, herr⟩
    · exact hall
    · obtain ⟨job, hjob⟩ := haccepts f'
      rw [herr] at hjob
      cases hjob

/-- A schedule that is not due, though it waits, owes nothing. -/
theorem Progress.owes_nothing (hkind : kind.Fits) (h : Progress kind overlap maxOccurrences k r)
    (hwaits : Waits kind k r.nextRunAt) (hdue : isDue now r = false) : countTo kind now ≤ k := by
  cases hnth : nthOccurrence kind k with
  | none =>
    by_contra hlt
    obtain ⟨d, hd⟩ := exists_nthOccurrence hkind (not_le.mp hlt)
    rw [hnth] at hd
    cases hd
  | some d =>
    rw [countTo_le hkind hnth]
    have hactive : r.state = .active := by
      rcases h.state with hactive | hnone
      · exact hactive
      · rw [hnth] at hnone
        cases hnone
    cases hn : r.nextRunAt with
    | none =>
      rw [hn] at hwaits
      rw [show nthOccurrence kind k = none from hwaits] at hnth
      cases hnth
    | some n =>
      rw [hn] at hwaits
      have hlate : now < n := by simpa [isDue, hactive, hn] using hdue
      exact hlate.trans_le (hwaits d hnth)

/-! ### Runs -/

/-- A tick with a materializer of its own. -/
structure Turn where
  now : DateTime
  running : ScheduleId → ℕ
  materialize : Materializer

/-- Ticks one after the other, with all they claimed. -/
def turns (s : InMemoryScheduleStore) : List Turn → InMemoryScheduleStore × List ClaimedOccurrence
  | [] => (s, [])
  | t :: ts =>
    let (s', claimed) := s.claimDue t.now t.running t.materialize
    let (s'', others) := turns s' ts
    (s'', claimed ++ others)

theorem turns_snoc (s : InMemoryScheduleStore) (ts : List Turn) (t : Turn) :
    s.turns (ts ++ [t]) =
      (((s.turns ts).1.claimDue t.now t.running t.materialize).1,
        (s.turns ts).2 ++ ((s.turns ts).1.claimDue t.now t.running t.materialize).2) := by
  induction ts generalizing s with
  | nil => simp [turns]
  | cons u ts ih => simp [turns, ih]

/-- The run is in order: what has been claimed so far, and what the schedule still has to do. -/
structure Kept (kind : ScheduleKind) (overlap : OverlapPolicy) (maxOccurrences : ℕ)
    (id : ScheduleId) (first : DateTime) (ts : List Turn) (claimed : List ClaimedOccurrence)
    (r : ScheduleRecord) (k : ℕ) : Prop
    extends Progress kind overlap maxOccurrences k r where
  decided : decidedTimes id claimed = occurrencesFrom kind 0 k
  refused : ∀ f ∈ refusedTimes id claimed, ∃ i ≤ k, nthOccurrence kind i = some f
  waits : Waits kind k r.nextRunAt ∨
    (r.state = .active ∧ r.nextRunAt = some first ∧ refusedTimes id claimed = [] ∧
      ∀ t ∈ ts, t.now < first)
  allow : overlap = .allow → materializedTimes id claimed = decidedTimes id claimed
  caughtUp : ∀ before t, ts = before ++ [t] → Accepts t.materialize id →
    (∃ u ∈ ts, first ≤ u.now) → countTo kind t.now ≤ k

/-- One more tick. -/
theorem Kept.turn (hkind : kind.Fits) {ts : List Turn}
    (h : Kept kind overlap maxOccurrences id first ts claimed r k)
    (hr : s.schedules.get? id = some r) (t : Turn) (hmax : countTo kind t.now ≤ maxOccurrences) :
    ∃ r' k', (s.claimDue t.now t.running t.materialize).1.schedules.get? id = some r' ∧
      Kept kind overlap maxOccurrences id first (ts ++ [t])
        (claimed ++ (s.claimDue t.now t.running t.materialize).2) r' k' := by
  cases hdue : isDue t.now r with
  | true =>
    obtain ⟨hget, hclaims⟩ := claims_of_due t.materialize t.running hr hdue
    have hactive : r.state = .active := by
      simp only [isDue, Bool.and_eq_true, decide_eq_true_eq] at hdue
      exact hdue.1
    obtain ⟨m, hdecides, hall⟩ :=
      h.toProgress.commit hkind hactive hmax t.materialize t.running
    refine ⟨_, k + m, hget, hdecides.progress, ?_, ?_, .inl hdecides.waits, fun hallow => ?_, ?_⟩
    · rw [decidedTimes, timesWith_append, ← decidedTimes, ← decidedTimes, h.decided,
        decidedTimes_of_claims hclaims, hdecides.settled, occurrencesFrom_add, Nat.zero_add]
    · intro f hf
      rw [refusedTimes, timesWith_append, ← refusedTimes, ← refusedTimes,
        refusedTimes_of_claims hclaims, List.mem_append] at hf
      rcases hf with hf | hf
      · obtain ⟨i, hi, hnth⟩ := h.refused f hf
        exact ⟨i, by omega, hnth⟩
      · exact ⟨k + m, le_rfl, hdecides.refused f hf⟩
    · have hqueued := (claimDue_of_due t.materialize t.running hr hdue).2
      rw [materializedTimes_append, decidedTimes, timesWith_append, ← decidedTimes, ← decidedTimes,
        h.allow hallow, hqueued, decidedTimes_of_claims hclaims]
      exact congrArg _ (queuedTimes_eq_settledTimes t.materialize (h.overlap_eq.trans hallow) _ _)
    · intro before u hu haccepts _
      obtain ⟨rfl, hut⟩ := List.append_inj' hu rfl
      obtain rfl : t = u := by simpa using hut
      exact hall fun d => haccepts r d (s.keyed id r hr)
  | false =>
    obtain ⟨hget, hclaims⟩ := claims_of_not_due t.materialize t.running hr hdue
    have hdecided : decidedTimes id (claimed ++ (s.claimDue t.now t.running t.materialize).2) =
        decidedTimes id claimed := by
      rw [decidedTimes, timesWith_append, timesWith_of_nil _ hclaims, List.append_nil, decidedTimes]
    have hrefused : refusedTimes id (claimed ++ (s.claimDue t.now t.running t.materialize).2) =
        refusedTimes id claimed := by
      rw [refusedTimes, timesWith_append, timesWith_of_nil _ hclaims, List.append_nil, refusedTimes]
    refine ⟨r, k, hget, h.toProgress, hdecided ▸ h.decided, hrefused ▸ h.refused, ?_,
      fun hallow => ?_, ?_⟩
    · rw [hrefused]
      refine h.waits.imp_right fun hwaits => ?_
      obtain ⟨hactive, hfirst, hnone, hearly⟩ := hwaits
      refine ⟨hactive, hfirst, hnone, fun u hu => ?_⟩
      rcases List.mem_append.mp hu with hu | hu
      · exact hearly u hu
      · obtain rfl : u = t := by simpa using hu
        simpa [isDue, hactive, hfirst] using hdue
    · rw [materializedTimes_append, hdecided, h.allow hallow,
        (claimDue_of_not_due t.materialize t.running hr hdue).2, List.append_nil]
    · intro before u hu _ hreached
      obtain ⟨rfl, hut⟩ := List.append_inj' hu rfl
      obtain rfl : t = u := by simpa using hut
      rcases h.waits with hwaits | ⟨hactive, hfirst, -, hearly⟩
      · exact h.toProgress.owes_nothing hkind hwaits hdue
      · obtain ⟨u, hu, hle⟩ := hreached
        have hlate : u.now < first := by
          rcases List.mem_append.mp hu with hu | hu
          · exact hearly u hu
          · obtain rfl : u = t := by simpa using hu
            simpa [isDue, hactive, hfirst] using hdue
        exact absurd hle (not_le.mpr hlate)

theorem turns_kept (s : InMemoryScheduleStore) (hkind : kind.Fits)
    (hr : s.schedules.get? id = some r) (h : Kept kind overlap maxOccurrences id first [] [] r 0)
    (ts : List Turn) (hmax : ∀ t ∈ ts, countTo kind t.now ≤ maxOccurrences) :
    ∃ r' k, (s.turns ts).1.schedules.get? id = some r' ∧
      Kept kind overlap maxOccurrences id first ts (s.turns ts).2 r' k := by
  induction ts using List.reverseRecOn with
  | nil => exact ⟨r, 0, hr, h⟩
  | append_singleton ts t ih =>
    obtain ⟨r', k, hr', h'⟩ := ih fun u hu => hmax u (List.mem_append_left _ hu)
    rw [turns_snoc]
    exact h'.turn hkind hr' t (hmax t (by simp))

theorem kept_newRecord {template : ScheduleTemplate} (id : ScheduleId) (created : DateTime)
    (hpolicy : template.missedRunPolicy = .catchUpBounded maxOccurrences) :
    Kept template.kind template.overlapPolicy maxOccurrences id (horizonOf template created) [] []
      (newRecord id template created) 0 := by
  refine ⟨⟨rfl, rfl, hpolicy, rfl, .inl rfl, .inl rfl⟩, rfl, ?_, .inr ⟨rfl, rfl, rfl, ?_⟩,
    fun _ => rfl, ?_⟩
  · intro f hf
    cases hf
  · intro t ht
    cases ht
  · intro before t h
    simp at h

/-- What a run keeps for an occurrence that was refused and has not been decided since. -/
structure RefusedKept (id : ScheduleId) (r : ScheduleRecord) (claimed : List ClaimedOccurrence) :
    Prop where
  /-- The cursor has not come to it. -/
  behind : ∀ f ∈ refusedTimes id claimed, f ∉ decidedTimes id claimed →
    ∀ d, r.lastOccurrenceAt = some d → d < f
  /-- The schedule comes due no later than it. -/
  due : ∀ f ∈ refusedTimes id claimed, f ∉ decidedTimes id claimed →
    ∃ n, r.nextRunAt = some n ∧ n ≤ f
  /-- Decisions are made in order. -/
  ordered : (decidedTimes id claimed).Pairwise (· < ·)
  materialized : (materializedTimes id claimed).Pairwise (· < ·)

theorem Kept.refusedKept (hkind : kind.Fits) {ts : List Turn}
    (h : Kept kind overlap maxOccurrences id first ts claimed r k) :
    RefusedKept id r claimed := by
  -- a refused occurrence that has not been decided is the next one
  have hnext : ∀ f ∈ refusedTimes id claimed, f ∉ decidedTimes id claimed →
      nthOccurrence kind k = some f := by
    intro f hf hopen
    obtain ⟨i, hi, hnth⟩ := h.refused f hf
    rcases hi.lt_or_eq with hlt | rfl
    · rw [h.decided, mem_occurrencesFrom] at hopen
      exact absurd ⟨i, Nat.zero_le _, by omega, hnth⟩ hopen
    · exact hnth
  have hordered : (decidedTimes id claimed).Pairwise (· < ·) := by
    rw [h.decided]
    exact pairwise_occurrencesFrom hkind 0 k
  refine ⟨?_, ?_, hordered, hordered.sublist (materializedTimes_sublist claimed)⟩
  · intro f hf hopen d hd
    rw [h.last] at hd
    cases k with
    | zero => cases hd
    | succ k => exact (nthOccurrence_lt hkind hd (hnext f hf hopen)).mpr (by omega)
  · intro f hf hopen
    have hnth := hnext f hf hopen
    rcases h.waits with hwaits | ⟨-, -, hnone, -⟩
    · cases hn : r.nextRunAt with
      | none =>
        rw [hn] at hwaits
        rw [show nthOccurrence kind k = none from hwaits] at hnth
        cases hnth
      | some n =>
        rw [hn] at hwaits
        exact ⟨n, rfl, hwaits f hnth⟩
    · rw [hnone] at hf
      cases hf

/-- Whatever the materializer refuses, and whenever: nothing that was refused is passed by,
and a tick at which it accepts settles everything up to then, each occurrence once. -/
theorem turns_keep_refused (s : InMemoryScheduleStore) (id : ScheduleId)
    {template : ScheduleTemplate} (hkind : template.kind.Fits)
    (hpolicy : template.missedRunPolicy = .catchUpBounded maxOccurrences) (created : DateTime)
    (ts : List Turn) (hmax : ∀ t ∈ ts, countTo template.kind t.now ≤ maxOccurrences) :
    ∃ r, ((s.create id template created).turns ts).1.schedules.get? id = some r ∧
      RefusedKept id r ((s.create id template created).turns ts).2 ∧
      (∀ before t, ts = before ++ [t] → Accepts t.materialize id →
        (∃ u ∈ ts, horizonOf template created ≤ u.now) →
        ∀ k d, nthOccurrence template.kind k = some d → d ≤ t.now →
          (decidedTimes id ((s.create id template created).turns ts).2).count d = 1) ∧
      (template.overlapPolicy = .allow →
        materializedTimes id ((s.create id template created).turns ts).2 =
          decidedTimes id ((s.create id template created).turns ts).2) := by
  obtain ⟨r, k, hr, h⟩ := turns_kept (s.create id template created) hkind
    (get?_create s id template created) (kept_newRecord id created hpolicy) ts hmax
  have hkept := h.refusedKept hkind
  refine ⟨r, hr, hkept, ?_, h.allow⟩
  intro before t hts haccepts hreached i d hd hle
  have hcaught := h.caughtUp before t hts haccepts hreached
  have hi : i < countTo template.kind t.now := (lt_countTo hkind).mpr ⟨d, hd, hle⟩
  refine List.count_eq_one_of_mem (hkept.ordered.imp fun hlt => hlt.ne) ?_
  rw [h.decided, mem_occurrencesFrom]
  exact ⟨i, Nat.zero_le i, by omega, hd⟩

/-- Every ten seconds from the tenth on, unless a job is running. -/
def guarded : ScheduleTemplate :=
  { everyTen with kind := .interval 10 (atSecond 10), overlapPolicy := .skipIfRunning }

theorem fits_guarded : guarded.kind.Fits := by
  show (10 : UInt64).toNat + 2 ^ 44 < 2 ^ 63
  decide

/-- The first tick refuses, at the second one a job is running, the third one accepts. -/
def guardedTurns : List Turn :=
  [⟨atSecond 12, fun _ => 0, fun _ _ => .error (.refused "busy")⟩,
    ⟨atSecond 13, fun _ => 1, fun _ _ => .ok "job"⟩,
    ⟨atSecond 14, fun _ => 0, fun _ _ => .ok "job"⟩]

theorem refused_then_skipped :
    refusedTimes "nightly" ((empty.create "nightly" guarded (atSecond 5)).turns guardedTurns).2 =
        [atSecond 10] ∧
      materializedTimes "nightly"
        ((empty.create "nightly" guarded (atSecond 5)).turns guardedTurns).2 = [] ∧
      ((((empty.create "nightly" guarded (atSecond 5)).turns guardedTurns).1.schedules.get?
        "nightly").bind (·.lastOccurrenceAt)) = some (atSecond 10) := by
  decide +kernel

theorem turns_keep_refused_guarded :
    ∃ r, ((empty.create "nightly" guarded (atSecond 5)).turns guardedTurns).1.schedules.get?
        "nightly" = some r ∧
      RefusedKept "nightly" r ((empty.create "nightly" guarded (atSecond 5)).turns guardedTurns).2 ∧
      (∀ before t, guardedTurns = before ++ [t] → Accepts t.materialize "nightly" →
        (∃ u ∈ guardedTurns, horizonOf guarded (atSecond 5) ≤ u.now) →
        ∀ k d, nthOccurrence guarded.kind k = some d → d ≤ t.now →
          (decidedTimes "nightly"
            ((empty.create "nightly" guarded (atSecond 5)).turns guardedTurns).2).count d = 1) ∧
      (guarded.overlapPolicy = .allow →
        materializedTimes "nightly"
            ((empty.create "nightly" guarded (atSecond 5)).turns guardedTurns).2 =
          decidedTimes "nightly"
            ((empty.create "nightly" guarded (atSecond 5)).turns guardedTurns).2) :=
  turns_keep_refused empty "nightly" fits_guarded rfl (atSecond 5) guardedTurns (by decide)

end InMemoryScheduleStore

end Codegg.Jobs
