import Codegg.Jobs.Refusals
import Codegg.Jobs.ScheduleSqlite

/-!
# The two schedule stores side by side

Both stores are given the same calls, with the same clock values, identifiers, numbers of
running jobs and answers of the materializer. One computes the next run from what a tick
decided and the other one from the cursor that it stores, in whole milliseconds. For
schedules at whole milliseconds that makes no difference: the cursor is an occurrence that
is not after the horizon.
-/
namespace Codegg.Jobs

open Codegg.Library InMemoryScheduleStore SortedMap DateTime

/-! ### Calls -/

/-- What the materializer answers to one tick. -/
abbrev Answers := ScheduleId → DateTime → Except MaterializerError JobId

/-- A call of a schedule store, with the clock value and the identifier it draws. -/
inductive ScheduleCall
  | create (fresh : ScheduleId) (template : ScheduleTemplate) (now : DateTime)
  | setState (id : ScheduleId) (state : ScheduleState) (now : DateTime)
  | delete (id : ScheduleId)
  | claimDue (now : DateTime) (running : ScheduleId → ℕ) (answers : Answers)

inductive ScheduleReply
  | done
  | storageError
  | refused (e : ScheduleError)
  | claimed (occurrences : List ClaimedOccurrence)

def materializerOf (answers : Answers) : Materializer := fun r t => answers r.scheduleId t

namespace InMemoryScheduleStore

def get (s : InMemoryScheduleStore) (id : ScheduleId) : Option ScheduleRecord :=
  s.schedules.get? id

def call (s : InMemoryScheduleStore) : ScheduleCall → InMemoryScheduleStore × ScheduleReply
  | .create fresh template now => (s.create fresh template now, .done)
  | .setState id state now =>
    match s.setState id state now with
    | .ok (s', _) => (s', .done)
    | .error e => (s, .refused e)
  | .delete id => (s.delete id, .done)
  | .claimDue now running answers =>
    let (s', claimed) := s.claimDue now running (materializerOf answers)
    (s', .claimed claimed)

def calls (s : InMemoryScheduleStore) :
    List ScheduleCall → InMemoryScheduleStore × List ScheduleReply
  | [] => (s, [])
  | c :: cs =>
    let (s', reply) := s.call c
    let (s'', replies) := calls s' cs
    (s'', reply :: replies)

end InMemoryScheduleStore

namespace SqliteScheduleStore

def get (db : SqliteScheduleStore) (id : ScheduleId) (readAt : DateTime) : Option ScheduleRecord :=
  (db.schedule.get? id).map (rowToSchedule readAt)

def call (db : SqliteScheduleStore) : ScheduleCall → SqliteScheduleStore × ScheduleReply
  | .create fresh template now =>
    match db.create fresh template now with
    | some db' => (db', .done)
    | none => (db, .storageError)
  | .setState id state now =>
    match db.setState id state now with
    | .ok (db', _) => (db', .done)
    | .error e => (db, .refused e)
  | .delete id => (db.delete id, .done)
  | .claimDue now running answers =>
    let (db', claimed) := db.claimDue now running (materializerOf answers)
    (db', .claimed claimed)

def calls (db : SqliteScheduleStore) :
    List ScheduleCall → SqliteScheduleStore × List ScheduleReply
  | [] => (db, [])
  | c :: cs =>
    let (db', reply) := db.call c
    let (db'', replies) := calls db' cs
    (db'', reply :: replies)

end SqliteScheduleStore

open InMemoryScheduleStore

/-- The same success, the same refusal, or the same claims of every schedule. -/
def SameReply : ScheduleReply → ScheduleReply → Prop
  | .claimed xs, .claimed ys => ∀ id, claimsOf id xs = claimsOf id ys
  | reply, reply' => reply = reply'

structure SameSchedule (r r' : ScheduleRecord) : Prop where
  last : r.lastOccurrenceAt = r'.lastOccurrenceAt
  next : r.nextRunAt = r'.nextRunAt
  state : r.state = r'.state

/-! ### Instants in whole milliseconds -/

namespace DateTime

/-- An instant that is stored exactly. -/
def WholeMillis (d : DateTime) : Prop := d.nanos < 1000000000 ∧ d.nanos % 1000000 = 0

instance (d : DateTime) : Decidable d.WholeMillis :=
  inferInstanceAs (Decidable (d.nanos < 1000000000 ∧ d.nanos % 1000000 = 0))

theorem fromTimestampMillis_timestampMillis {d : DateTime} (h : d.WholeMillis) :
    fromTimestampMillis d.timestampMillis = some d := by
  obtain ⟨hlt, hwhole⟩ := h
  have hlo := d.le_secs
  have hhi := d.secs_le
  have hsecs : d.timestampMillis / 1000 = d.secs := by
    unfold timestampMillis
    omega
  have hmillis : (d.timestampMillis % 1000).toNat * 1000000 = d.nanos := by
    unfold timestampMillis
    omega
  unfold fromTimestampMillis
  rw [dif_pos (by omega)]
  exact congrArg some (ext_of hsecs hmillis)

/-- Whole milliseconds are compared as they are stored. -/
theorem timestampMillis_le_iff {d now : DateTime} (hd : d.WholeMillis)
    (hnow : now.nanos < 1000000000) : d.timestampMillis ≤ now.timestampMillis ↔ d ≤ now := by
  obtain ⟨hlt, hwhole⟩ := hd
  unfold timestampMillis
  rw [le_iff]
  omega

theorem read_stored {t : Option DateTime} (h : ∀ d, t = some d → d.WholeMillis) :
    (t.map timestampMillis).bind fromTimestampMillis = t := by
  cases t with
  | none => rfl
  | some d => exact fromTimestampMillis_timestampMillis (h d rfl)

end DateTime

/-! ### The next run and the cursor -/

section

variable {kind : ScheduleKind} {now n : DateTime} {j : ℕ}

theorem missedRunTargets_sublist (kind : ScheduleKind) (last : Option DateTime) (now : DateTime)
    (policy : MissedRunPolicy) :
    (missedRunTargets kind last now policy).Sublist (candidates kind last now) := by
  cases policy with
  | skip => exact List.nil_sublist _
  | runOnceNow =>
    have hone : missedRunTargets kind last now .runOnceNow =
        (candidates kind last now).getLast?.toList := by
      cases kind <;> rfl
    rw [hone]
    cases hlast : (candidates kind last now).getLast? with
    | none => exact List.nil_sublist _
    | some d => simpa using List.mem_of_getLast? hlast
  | catchUpBounded maxOccurrences =>
    cases kind with
    | oneShot runAt => exact List.Sublist.refl _
    | interval every anchor =>
      unfold missedRunTargets candidates
      dsimp only
      split
      · exact List.Sublist.refl _
      · split
        · exact List.drop_sublist _ _
        · exact List.Sublist.refl _

theorem computeNextRun_oneShot (runAt : DateTime) (last : Option DateTime) :
    computeNextRun (.oneShot runAt) now last = if last.isSome then none else some runAt := rfl

theorem nextHorizon_eq_some {last firstFailed : Option DateTime}
    (h : nextHorizon kind now last firstFailed = some n) :
    computeNextRun kind now last = some n ∨ firstFailed = some n := by
  unfold nextHorizon at h
  cases firstFailed with
  | none => exact .inl h
  | some f =>
    cases hnext : computeNextRun kind now last with
    | none =>
      rw [hnext] at h
      exact .inr h
    | some c =>
      rw [hnext] at h
      dsimp only at h
      split at h
      · exact .inl h
      · exact .inr h

variable (hkind : kind.Fits)
include hkind

theorem countTo_mono {now' : DateTime} (h : now ≤ now') : countTo kind now ≤ countTo kind now' := by
  refine le_of_forall_lt fun i hi => ?_
  obtain ⟨d, hd, hle⟩ := (lt_countTo hkind).mp hi
  exact (lt_countTo hkind).mpr ⟨d, hd, hle.trans h⟩

/-- An occurrence has those before it up to it. -/
theorem lt_countTo_self {i : ℕ} (hn : nthOccurrence kind i = some n) : i < countTo kind n :=
  (lt_countTo hkind).mpr ⟨n, hn, le_rfl⟩

/-- The next run of an interval is computed alike from its anchor and from any of its
occurrences so far. -/
theorem computeNextRun_cursorAt {every : UInt64} {anchor : DateTime}
    (heq : kind = .interval every anchor) (hj : j ≤ countTo kind now) :
    computeNextRun kind now (cursorAt kind j) = computeNextRun kind now none := by
  subst heq
  by_cases hzero : every.toNat = 0
  · simp [computeNextRun, hzero]
  · have hp := hkind.periodic hzero
    simp only [countTo, if_neg hzero] at hj
    have hbefore := @occurrencesUpTo_le every anchor now hp
    rw [← lastOf_eq_cursorAt hzero, computeNextRun_interval hp (base_lastOf hp hj) (by omega),
      computeNextRun_interval hp (j := 0) (by simp) (Nat.zero_le _)]

/-- The next run is an occurrence that has not passed, or that is the last one that has. -/
theorem computeNextRun_drawn (hj : j ≤ countTo kind now)
    (h : computeNextRun kind now (cursorAt kind j) = some n) :
    ∃ i, nthOccurrence kind i = some n ∧ countTo kind now ≤ i + 1 := by
  cases kind with
  | oneShot runAt =>
    refine ⟨0, ?_, ?_⟩
    · rw [computeNextRun_oneShot] at h
      split at h
      · cases h
      · exact h
    · simp only [countTo]
      split <;> omega
  | interval every anchor =>
    rw [computeNextRun_cursorAt hkind rfl hj] at h
    by_cases hzero : every.toNat = 0
    · rw [computeNextRun, if_pos hzero] at h
      cases h
    · have hp := hkind.periodic hzero
      rw [computeNextRun_interval hp (j := 0) (by simp) (Nat.zero_le _)] at h
      refine ⟨occurrencesBefore every anchor now.secs, ?_, ?_⟩
      · rw [nthOccurrence, if_neg hzero]
        exact h
      · rw [countTo, if_neg hzero]
        exact occurrencesUpTo_le hp

end

/-! ### One schedule -/

/-- A schedule at whole milliseconds whose cursor is not after its horizon. -/
structure OnGrid (r : ScheduleRecord) (j : ℕ) : Prop where
  fits : r.kind.Fits
  whole : ∀ i d, nthOccurrence r.kind i = some d → d.WholeMillis
  last : r.lastOccurrenceAt = cursorAt r.kind j
  drawn : j = 0 ∨ (cursorAt r.kind j).isSome
  next_whole : ∀ n, r.nextRunAt = some n → n.WholeMillis
  ahead : ∀ n, r.nextRunAt = some n → j ≤ countTo r.kind n
  /-- A one-shot that has been decided has no next run. -/
  spent : ∀ runAt, r.kind = .oneShot runAt → j = 0 ∨ r.nextRunAt = none

/-- The row of a record. -/
structure Stored (r : ScheduleRecord) (row : ScheduleRow) : Prop where
  id_eq : row.id = r.scheduleId
  kind_eq : row.kind = r.kind
  state_eq : row.state = r.state
  overlap_eq : row.overlapPolicy = r.overlapPolicy
  missed_eq : row.missedRunPolicy = r.missedRunPolicy
  next_eq : row.nextRunAt = r.nextRunAt.map timestampMillis
  last_eq : row.lastOccurrenceAt = r.lastOccurrenceAt.map timestampMillis

variable {r : ScheduleRecord} {o : ScheduleOutcome} {j' : ℕ}

theorem OnGrid.last_whole {j : ℕ} (h : OnGrid r j) :
    ∀ d, r.lastOccurrenceAt = some d → d.WholeMillis := by
  intro d hd
  rw [h.last] at hd
  cases j with
  | zero => cases hd
  | succ j => exact h.whole j d hd

section

variable {r : ScheduleRecord} {row : ScheduleRow} {j : ℕ} {now : DateTime}
  {running : ScheduleId → ℕ} {materialize : Materializer}

/-- What a due tick decides about such a schedule, in terms of its occurrences. -/
structure Settles (r : ScheduleRecord) (now : DateTime) (o : ScheduleOutcome) (j j' : ℕ) :
    Prop where
  le : j' ≤ countTo r.kind now
  last : newLast r.lastOccurrenceAt o.lastDecided = cursorAt r.kind j'
  drawn : j' = 0 ∨ (cursorAt r.kind j').isSome
  decided : o.lastDecided = none ∧ j' = j ∨ o.lastDecided = cursorAt r.kind j'
  failed : ∀ f, o.firstFailed = some f → ∃ i, nthOccurrence r.kind i = some f ∧ j' ≤ i
  /-- Of a single occurrence there is nothing to refuse when it has been decided. -/
  single : ∀ runAt, r.kind = .oneShot runAt → o.lastDecided.isSome → o.firstFailed = none

theorem OnGrid.le_countTo (h : OnGrid r j) (hdue : isDue now r = true) :
    j ≤ countTo r.kind now := by
  simp only [isDue, Bool.and_eq_true, Option.any_eq_true, decide_eq_true_eq] at hdue
  obtain ⟨-, n, hn, hle⟩ := hdue
  exact (h.ahead n hn).trans (countTo_mono h.fits hle)

theorem OnGrid.settles (h : OnGrid r j) (hdue : isDue now r = true) :
    ∃ j', Settles r now (materializePlan materialize (planOf now running r)) j j' := by
  have hle := h.le_countTo hdue
  set targets := missedRunTargets r.kind r.lastOccurrenceAt now r.missedRunPolicy with htargets
  have hsublist : targets.Sublist
      (occurrencesFrom r.kind j (countTo r.kind now - j)) := by
    rw [← candidates_cursorAt h.fits h.drawn, ← h.last]
    exact missedRunTargets_sublist _ _ _ _
  have hordered : targets.Pairwise (· < ·) :=
    (pairwise_occurrencesFrom h.fits j _).sublist hsublist
  have hnth : ∀ d ∈ targets, ∃ i, j ≤ i ∧ i < countTo r.kind now ∧
      nthOccurrence r.kind i = some d := by
    intro d hd
    obtain ⟨i, hi, hlt, hd⟩ := mem_occurrencesFrom.mp (hsublist.subset hd)
    exact ⟨i, hi, by omega, hd⟩
  set o := materializePlan materialize (planOf now running r) with ho
  have hlast := lastDecided_eq o
  have hfailed := firstFailed_eq o
  have hsplit : ∃ rest, targets = settledTimes o.decided ++ rest ∧
      ∀ f, o.firstFailed = some f → ∃ others, rest = f :: others := by
    rcases decideTargets_cases materialize r targets (running r.scheduleId) with
      ⟨hsettled, hnone⟩ | ⟨f, rest, heq, hone, -⟩
    · refine ⟨[], by rw [List.append_nil]; exact hsettled.symm, ?_⟩
      intro f hf
      rw [hfailed, show failedTimes o.decided = [] from hnone] at hf
      cases hf
    · refine ⟨f :: rest, heq, ?_⟩
      intro f' hf
      rw [hfailed, show failedTimes o.decided = [f] from hone] at hf
      obtain rfl : f = f' := by simpa using hf
      exact ⟨rest, rfl⟩
  obtain ⟨rest, heq, hrest⟩ := hsplit
  have hsingle : ∀ runAt, r.kind = .oneShot runAt → o.lastDecided.isSome →
      o.firstFailed = none := by
    intro runAt hone hsome
    have hlength : targets.length ≤ 1 := by
      have hcount := (hsublist.length_le).trans length_occurrencesFrom_le
      rw [hone] at hcount
      simp only [countTo] at hcount
      split at hcount <;> omega
    cases hf : o.firstFailed with
    | none => rfl
    | some f =>
      obtain ⟨others, rfl⟩ := hrest f hf
      have hnil : settledTimes o.decided = [] := by
        rw [heq, List.length_append, List.length_cons] at hlength
        exact List.eq_nil_of_length_eq_zero (by omega)
      rw [hlast, hnil] at hsome
      cases hsome
  cases hd : o.lastDecided with
  | none =>
    refine ⟨j, hle, ?_, h.drawn, .inl ⟨hd, rfl⟩, ?_, hsingle⟩
    · rw [hd, h.last]
      cases cursorAt r.kind j <;> rfl
    · intro f hf
      obtain ⟨others, rfl⟩ := hrest f hf
      obtain ⟨i, hi, -, hif⟩ := hnth f (by rw [heq]; simp)
      exact ⟨i, hif, hi⟩
  | some d =>
    rw [hlast] at hd
    obtain ⟨before, hbefore⟩ := List.getLast?_eq_some_iff.mp hd
    rw [hbefore] at heq
    obtain ⟨i, hi, hlt, hid⟩ := hnth d (by rw [heq]; simp)
    have hcursor : cursorAt r.kind (i + 1) = some d := hid
    rw [← hlast] at hd
    refine ⟨i + 1, hlt, ?_, .inr (by rw [hcursor]; rfl), .inr (hd.trans hcursor.symm), ?_, hsingle⟩
    · rw [hd, h.last, hcursor]
      cases j with
      | zero => rfl
      | succ j =>
        obtain ⟨e, he⟩ := exists_nthOccurrence h.fits (show j < countTo r.kind now by omega)
        have hlt : e < d := (nthOccurrence_lt h.fits he hid).mpr (by omega)
        rw [cursorAt_succ, he, newLast, max_eq_right hlt.le]
    · intro f hf
      obtain ⟨others, rfl⟩ := hrest f hf
      obtain ⟨k, -, -, hkf⟩ := hnth f (by rw [heq]; simp)
      have hdf : d < f := by
        rw [heq, List.pairwise_append] at hordered
        exact hordered.2.2 d (by simp) f (by simp)
      exact ⟨k, hkf, (nthOccurrence_lt h.fits hid hkf).mp hdf⟩

/-- Computed from the stored cursor, the horizon is the same. -/
theorem Settles.nextHorizon_eq (h : OnGrid r j) (hdue : isDue now r = true)
    (hsettles : Settles r now o j j') :
    nextHorizon r.kind now (newLast r.lastOccurrenceAt o.lastDecided) o.firstFailed =
      nextHorizon r.kind now o.lastDecided o.firstFailed := by
  rcases hsettles.decided with ⟨hnone, rfl⟩ | hsome
  · have hnext : computeNextRun r.kind now (cursorAt r.kind j') =
        computeNextRun r.kind now none := by
      cases hkind : r.kind with
      | oneShot runAt =>
        have hset : ∃ n, r.nextRunAt = some n := by
          simp only [isDue, Bool.and_eq_true, Option.any_eq_true] at hdue
          exact hdue.2.imp fun _ h => h.1
        obtain ⟨n, hn⟩ := hset
        rcases h.spent runAt hkind with rfl | hnil
        · rfl
        · rw [hn] at hnil
          cases hnil
      | interval every anchor =>
        rw [← hkind]
        exact computeNextRun_cursorAt h.fits hkind hsettles.le
    rw [hsettles.last, hnone]
    unfold nextHorizon
    rw [hnext]
  · rw [hsettles.last, hsome]

/-- One tick leaves such a schedule behind. -/
theorem OnGrid.commit (h : OnGrid r j) (hdue : isDue now r = true) (hkind : o.kind = r.kind)
    (hsettles : Settles r now o j j') :
    OnGrid (commitRecord o now r) j' := by
  have hnext : (commitRecord o now r).nextRunAt =
      nextHorizon r.kind now (cursorAt r.kind j') o.firstFailed := by
    rw [← hsettles.last, hsettles.nextHorizon_eq h hdue, ← hkind]
    rfl
  have hdrawn : ∀ n, (commitRecord o now r).nextRunAt = some n →
      ∃ i, nthOccurrence r.kind i = some n ∧ j' ≤ i + 1 := by
    intro n hn
    rw [hnext] at hn
    rcases nextHorizon_eq_some hn with hn | hn
    · obtain ⟨i, hi, hle⟩ := computeNextRun_drawn h.fits hsettles.le hn
      exact ⟨i, hi, hsettles.le.trans hle⟩
    · obtain ⟨i, hi, hle⟩ := hsettles.failed n hn
      exact ⟨i, hi, by omega⟩
  refine ⟨h.fits, h.whole, hsettles.last, hsettles.drawn, ?_, ?_, ?_⟩
  · intro n hn
    obtain ⟨i, hi, -⟩ := hdrawn n hn
    exact h.whole i n hi
  · intro n hn
    obtain ⟨i, hi, hle⟩ := hdrawn n hn
    exact hle.trans (lt_countTo_self h.fits hi)
  · intro runAt hone
    have hone' : r.kind = .oneShot runAt := hone
    cases j' with
    | zero => exact .inl rfl
    | succ j' =>
      refine .inr ?_
      have hset : (cursorAt r.kind (j' + 1)).isSome :=
        hsettles.drawn.resolve_left (Nat.succ_ne_zero j')
      rcases hsettles.decided with ⟨-, hj⟩ | hsome
      · -- the schedule would have been decided before, and not be due
        rcases h.spent runAt hone' with hzero | hnil
        · omega
        · simp [isDue, hnil] at hdue
      · have hfailed := hsettles.single runAt hone' (by rw [hsome]; exact hset)
        rw [hnext, hfailed]
        show computeNextRun r.kind now _ = none
        rw [hone', computeNextRun_oneShot, ← hone', if_pos hset]

/-! ### The row of a record -/

theorem Stored.lastOccurrenceAt (hstored : Stored r row) (h : OnGrid r j) :
    row.lastOccurrenceAt.bind fromTimestampMillis = r.lastOccurrenceAt := by
  rw [hstored.last_eq, read_stored h.last_whole]

theorem Stored.sameSchedule (hstored : Stored r row) (h : OnGrid r j) (readAt : DateTime) :
    SameSchedule r (rowToSchedule readAt row) where
  last := (hstored.lastOccurrenceAt h).symm
  next := by
    show _ = row.nextRunAt.bind _
    rw [hstored.next_eq, read_stored h.next_whole]
  state := hstored.state_eq.symm

theorem Stored.isDue_eq (hstored : Stored r row) (h : OnGrid r j)
    (hnow : now.nanos < 1000000000) : SqliteScheduleStore.isDue now row = isDue now r := by
  unfold SqliteScheduleStore.isDue isDue
  rw [hstored.state_eq, hstored.next_eq]
  cases hn : r.nextRunAt with
  | none => rfl
  | some n => simp [timestampMillis_le_iff (h.next_whole n hn) hnow]

theorem decideTargets_congr {r' : ScheduleRecord} {answers : Answers}
    (hid : r'.scheduleId = r.scheduleId) (hoverlap : r'.overlapPolicy = r.overlapPolicy)
    (targets : List DateTime) (running : ℕ) :
    decideTargets (materializerOf answers) r' targets running =
      decideTargets (materializerOf answers) r targets running := by
  induction targets generalizing running with
  | nil => rfl
  | cons target targets ih => simp [decideTargets, materializerOf, hid, hoverlap, ih]

theorem Stored.materializePlan_eq {answers : Answers} (hstored : Stored r row) (h : OnGrid r j) :
    materializePlan (materializerOf answers) (planOf now running (rowToSchedule now row)) =
      materializePlan (materializerOf answers) (planOf now running r) := by
  have hlast : (rowToSchedule now row).lastOccurrenceAt = r.lastOccurrenceAt :=
    hstored.lastOccurrenceAt h
  have hid : (rowToSchedule now row).scheduleId = r.scheduleId := hstored.id_eq
  have hkind : (rowToSchedule now row).kind = r.kind := hstored.kind_eq
  have hmissed : (rowToSchedule now row).missedRunPolicy = r.missedRunPolicy := hstored.missed_eq
  simp [materializePlan, planOf, hlast, hid, hkind, hmissed,
    decideTargets_congr hid hstored.overlap_eq]

/-- The two commits of one outcome. -/
theorem Stored.commit (hstored : Stored r row) (h : OnGrid r j) (hdue : isDue now r = true)
    (hkind : o.kind = r.kind) (hsettles : Settles r now o j j') :
    Stored (commitRecord o now r) (SqliteScheduleStore.commitRow o now row) := by
  have hnext : nextHorizon r.kind now (newLast
      (row.lastOccurrenceAt.bind fromTimestampMillis) o.lastDecided) o.firstFailed =
        nextHorizon r.kind now o.lastDecided o.firstFailed := by
    rw [hstored.lastOccurrenceAt h, hsettles.nextHorizon_eq h hdue]
  refine ⟨hstored.id_eq, hstored.kind_eq, ?_, hstored.overlap_eq, hstored.missed_eq, ?_, ?_⟩
  · cases hk : r.kind <;> rw [hk] at hkind hnext <;>
      simp only [SqliteScheduleStore.commitRow, commitRecord, hkind, hk, hnext, hstored.state_eq]
  · simp [SqliteScheduleStore.commitRow, commitRecord, hkind, hnext]
  · simp [SqliteScheduleStore.commitRow, commitRecord, hstored.lastOccurrenceAt h]

end

/-! ### One call -/

namespace InMemoryScheduleStore

variable {s : InMemoryScheduleStore} {id : ScheduleId} {now : DateTime}

/-- A tick says nothing of a schedule that is not there. -/
theorem claims_of_absent (materialize : Materializer) (running : ScheduleId → ℕ)
    (hr : s.schedules.get? id = none) :
    (s.claimDue now running materialize).1.schedules.get? id = none ∧
      claimsOf id (s.claimDue now running materialize).2 = [] := by
  have hnone := filter_outcomes s.schedules s.keyed (isDue now)
    (fun r => materializePlan materialize (planOf now running r)) (fun _ => rfl) id
  unfold claimDue commitOutcomes planDue
  rw [get?_commitOutcomes, claimsOf_outcomes, List.map_map]
  unfold planOf at hnone
  rw [Function.comp_def, hnone, hr]
  exact ⟨rfl, rfl⟩

end InMemoryScheduleStore

namespace SqliteScheduleStore

variable {db : SqliteScheduleStore} {id : ScheduleId} {now : DateTime}

theorem get?_commitOutcomes (outcomes : List ScheduleOutcome) (db : SqliteScheduleStore) :
    (outcomes.foldl (commitOutcome now) db).schedule.get? id =
      (outcomes.filter fun o => decide (o.scheduleId = id)).foldl
        (fun row o => row.map (commitRow o now)) (db.schedule.get? id) := by
  have hschedule : (outcomes.foldl (commitOutcome now) db).schedule =
      outcomes.foldl (fun m o => m.modify o.scheduleId (commitRow o now)) db.schedule :=
    (List.foldl_hom SqliteScheduleStore.schedule fun _ _ => rfl).symm
  rw [hschedule]
  exact get?_foldl_modify _ _ _ _ _

/-- What a tick decides about a row. -/
def outcomeOf (now : DateTime) (running : ScheduleId → ℕ) (materialize : Materializer)
    (row : ScheduleRow) : ScheduleOutcome :=
  materializePlan materialize (planOf now running (rowToSchedule now row))

/-- A tick, for one row. -/
theorem claimDue_row (materialize : Materializer) (running : ScheduleId → ℕ) :
    (db.claimDue now running materialize).1.schedule.get? id =
        (((db.schedule.get? id).filter (isDue now)).toList.map
          (outcomeOf now running materialize)).foldl (fun row o => row.map (commitRow o now))
            (db.schedule.get? id) ∧
      claimsOf id (db.claimDue now running materialize).2 =
        (((db.schedule.get? id).filter (isDue now)).toList.map
          (outcomeOf now running materialize)).flatMap fun o => o.decided.map (claimOf id) := by
  have hall := filter_outcomes db.schedule db.keyed (isDue now)
    (outcomeOf now running materialize) (fun _ => rfl) id
  unfold claimDue commitOutcomes planDue
  rw [get?_commitOutcomes, claimsOf_outcomes, List.map_map, ← hall]
  exact ⟨rfl, rfl⟩

end SqliteScheduleStore

/-! ### Runs -/

/-- The identifier that a call draws. -/
def ScheduleCall.fresh? : ScheduleCall → Option ScheduleId
  | .create fresh _ _ => some fresh
  | .setState .. | .delete _ | .claimDue .. => none

/-- Schedules are created at whole milliseconds, with a period that does not leave the 64-bit
integers, and no tick is in a leap second. -/
def ScheduleCall.Exact : ScheduleCall → Prop
  | .create _ template now =>
    template.kind.Fits ∧ (horizonOf template now).WholeMillis ∧
      ∀ runAt, template.kind = .oneShot runAt → runAt.WholeMillis
  | .claimDue now _ _ => now.nanos < 1000000000
  | .setState .. | .delete _ => True

/-- The identifiers that some calls draw. -/
def freshIds (cs : List ScheduleCall) : List ScheduleId := cs.filterMap ScheduleCall.fresh?

/-- Every schedule of one store has its row in the other one. -/
def Alike (s : InMemoryScheduleStore) (db : SqliteScheduleStore) : Prop :=
  ∀ id, Option.Rel (fun r row => Stored r row ∧ ∃ j, OnGrid r j) (s.schedules.get? id)
    (db.schedule.get? id)

section

variable {s : InMemoryScheduleStore} {db : SqliteScheduleStore} {id : ScheduleId}
  {template : ScheduleTemplate} {now : DateTime}

theorem onGrid_newRecord (hfits : template.kind.Fits) (hnext : (horizonOf template now).WholeMillis)
    (hshot : ∀ runAt, template.kind = .oneShot runAt → runAt.WholeMillis) :
    OnGrid (newRecord id template now) 0 where
  fits := hfits
  whole := by
    intro i d hd
    have hd' : nthOccurrence template.kind i = some d := hd
    unfold nthOccurrence at hd'
    split at hd'
    · rename_i runAt hkind
      split at hd'
      · cases hd'
        exact hshot _ hkind
      · cases hd'
    · split at hd'
      · cases hd'
      · obtain ⟨-, hnanos⟩ := fromTimestamp_eq_some.mp hd'
        unfold DateTime.WholeMillis
        omega
  last := rfl
  drawn := .inl rfl
  next_whole := by
    intro n hn
    cases hn
    exact hnext
  ahead := fun _ _ => Nat.zero_le _
  spent := fun _ _ => .inl rfl

theorem Alike.cases (h : Alike s db) (id : ScheduleId) :
    (s.schedules.get? id = none ∧ db.schedule.get? id = none) ∨
      ∃ r row j, s.schedules.get? id = some r ∧ db.schedule.get? id = some row ∧
        Stored r row ∧ OnGrid r j := by
  have hrel := h id
  cases hr : s.schedules.get? id with
  | none =>
    cases hrow : db.schedule.get? id with
    | none => exact .inl ⟨rfl, rfl⟩
    | some row =>
      rw [hr, hrow] at hrel
      cases hrel
  | some r =>
    cases hrow : db.schedule.get? id with
    | none =>
      rw [hr, hrow] at hrel
      cases hrel
    | some row =>
      rw [hr, hrow] at hrel
      cases hrel with
      | some hpair =>
        obtain ⟨hstored, j, hgrid⟩ := hpair
        exact .inr ⟨r, row, j, rfl, rfl, hstored, hgrid⟩

theorem Alike.create (h : Alike s db) {fresh : ScheduleId} (hfresh : s.schedules.get? fresh = none)
    (hexact : (ScheduleCall.create fresh template now).Exact) :
    ∃ db', db.create fresh template now = some db' ∧ Alike (s.create fresh template now) db' := by
  obtain ⟨hfits, hnext, hshot⟩ := hexact
  have hrow : db.schedule.get? fresh = none := by
    rcases h.cases fresh with ⟨-, hnone⟩ | ⟨r, row, j, hr, -⟩
    · exact hnone
    · rw [hfresh] at hr
      cases hr
  unfold SqliteScheduleStore.create
  split
  · rename_i row hsome
    rw [hrow] at hsome
    cases hsome
  · refine ⟨_, rfl, fun id => ?_⟩
    have hget : (s.create fresh template now).schedules.get? id =
        if id = fresh then some (newRecord fresh template now) else s.schedules.get? id :=
      get?_insert _ _ _ _
    rw [hget, get?_insert]
    by_cases hid : id = fresh
    · rw [if_pos hid, if_pos hid]
      exact .some ⟨⟨rfl, rfl, rfl, rfl, rfl, rfl, rfl⟩, 0, onGrid_newRecord hfits hnext hshot⟩
    · rw [if_neg hid, if_neg hid]
      exact h id

/-- The state of a schedule has no part in where its cursor is. -/
theorem OnGrid.setState {j : ℕ} (h : OnGrid r j) (state : ScheduleState) (now : DateTime) :
    OnGrid { r with state := state, updatedAt := now } j :=
  ⟨h.fits, h.whole, h.last, h.drawn, h.next_whole, h.ahead, h.spent⟩

theorem Stored.setState {row : ScheduleRow} (h : Stored r row) (state : ScheduleState)
    (now : DateTime) :
    Stored { r with state := state, updatedAt := now }
      { row with state := state, timeUpdated := now.timestampMillis } :=
  ⟨h.id_eq, h.kind_eq, rfl, h.overlap_eq, h.missed_eq, h.next_eq, h.last_eq⟩

theorem Alike.setState (h : Alike s db) (id : ScheduleId) (state : ScheduleState)
    (now : DateTime) :
    SameReply (s.call (.setState id state now)).2 (db.call (.setState id state now)).2 ∧
      Alike (s.call (.setState id state now)).1 (db.call (.setState id state now)).1 := by
  simp only [InMemoryScheduleStore.call, SqliteScheduleStore.call, InMemoryScheduleStore.setState,
    SqliteScheduleStore.setState]
  rcases h.cases id with ⟨hr, hrow⟩ | ⟨r, row, j, hr, hrow, hstored, hgrid⟩
  · rw [hr, hrow]
    exact ⟨rfl, h⟩
  · have hstate : (rowToSchedule now row).state = r.state := hstored.state_eq
    rw [hr, hrow]
    dsimp only
    rw [hstate]
    by_cases hterminal : r.state.isTerminal = true
    · rw [if_pos hterminal, if_pos hterminal, hstored.state_eq]
      exact ⟨rfl, h⟩
    · rw [if_neg hterminal, if_neg hterminal]
      obtain rfl : r.scheduleId = id := s.keyed id r hr
      simp only [SqliteScheduleStore.update, get?_modify, if_pos, hrow, Option.map_some]
      refine ⟨rfl, fun k => ?_⟩
      simp only [put, get?_insert, get?_modify]
      by_cases hk : k = r.scheduleId
      · rw [if_pos hk, if_pos hk, hrow]
        exact .some ⟨hstored.setState state now, j, hgrid.setState state now⟩
      · rw [if_neg hk, if_neg hk]
        exact h k

theorem Alike.delete (h : Alike s db) (id : ScheduleId) : Alike (s.delete id) (db.delete id) := by
  intro k
  simp only [InMemoryScheduleStore.delete, SqliteScheduleStore.delete, get?_filterKeys]
  split
  · exact h k
  · exact .none

theorem Alike.claimDue (h : Alike s db) (running : ScheduleId → ℕ) (answers : Answers)
    (hnow : now.nanos < 1000000000) :
    (∀ id, claimsOf id (s.claimDue now running (materializerOf answers)).2 =
        claimsOf id (db.claimDue now running (materializerOf answers)).2) ∧
      Alike (s.claimDue now running (materializerOf answers)).1
        (db.claimDue now running (materializerOf answers)).1 := by
  rw [Alike, ← forall_and]
  intro id
  obtain ⟨hrows, hclaims⟩ := @SqliteScheduleStore.claimDue_row db id now (materializerOf answers)
    running
  rw [hrows, hclaims]
  rcases h.cases id with ⟨hr, hrow⟩ | ⟨r, row, j, hr, hrow, hstored, hgrid⟩
  · obtain ⟨hget, hnone⟩ := claims_of_absent (materializerOf answers) running hr
    rw [hget, hnone, hrow]
    exact ⟨rfl, .none⟩
  · have hdue' := hstored.isDue_eq hgrid hnow
    rw [hrow, Option.filter_some, hdue']
    cases hdue : isDue now r with
    | false =>
      obtain ⟨hget, hnone⟩ := claims_of_not_due (materializerOf answers) running hr hdue
      rw [hget, hnone]
      exact ⟨rfl, .some ⟨hstored, j, hgrid⟩⟩
    | true =>
      obtain ⟨hget, hsame⟩ := claims_of_due (materializerOf answers) running hr hdue
      have hplan : SqliteScheduleStore.outcomeOf now running (materializerOf answers) row =
          materializePlan (materializerOf answers) (planOf now running r) :=
        hstored.materializePlan_eq hgrid
      obtain ⟨j', hsettles⟩ := @OnGrid.settles r j now running (materializerOf answers) hgrid hdue
      rw [hget, hsame]
      simp only [if_true, Option.toList_some, List.map_cons, List.map_nil, hplan,
        List.flatMap_cons, List.flatMap_nil, List.append_nil, true_and]
      exact .some ⟨hstored.commit hgrid hdue rfl hsettles, j', hgrid.commit hdue rfl hsettles⟩

/-- One call. -/
theorem Alike.call (h : Alike s db) {c : ScheduleCall} (hexact : c.Exact)
    (hfresh : ∀ id, c.fresh? = some id → s.schedules.get? id = none) :
    SameReply (s.call c).2 (db.call c).2 ∧ Alike (s.call c).1 (db.call c).1 := by
  cases c with
  | create fresh template now =>
    obtain ⟨db', hdb, halike⟩ := h.create (hfresh fresh rfl) hexact
    simp only [SqliteScheduleStore.call, hdb]
    exact ⟨rfl, halike⟩
  | setState id state now => exact h.setState id state now
  | delete id => exact ⟨rfl, h.delete id⟩
  | claimDue now running answers => exact h.claimDue running answers hexact

/-- A call makes no schedule but the one whose identifier it draws. -/
theorem absent_after_call {c : ScheduleCall} (hfresh : c.fresh? ≠ some id)
    (hnone : s.schedules.get? id = none) : (s.call c).1.schedules.get? id = none := by
  cases c with
  | create fresh template now =>
    have hid : id ≠ fresh := fun heq => hfresh (heq ▸ rfl)
    exact (get?_insert _ _ _ _).trans ((if_neg hid).trans hnone)
  | setState k state now =>
    simp only [call, setState]
    split
    · rename_i s' r hok
      split at hok
      · cases hok
      · rename_i old hold
        split at hok
        · cases hok
        · cases hok
          have hid : id ≠ old.scheduleId := by
            rintro rfl
            rw [s.keyed k old hold, hold] at hnone
            cases hnone
          exact (get?_insert _ _ _ _).trans ((if_neg hid).trans hnone)
    · exact hnone
  | delete k =>
    simp only [call, delete, get?_filterKeys]
    split
    · exact hnone
    · rfl
  | claimDue now running answers =>
    exact (claims_of_absent (materializerOf answers) running hnone).1

/-- Calls one after the other. -/
theorem Alike.calls (h : Alike s db) (cs : List ScheduleCall) (hids : (freshIds cs).Nodup)
    (hfresh : ∀ id ∈ freshIds cs, s.schedules.get? id = none) (hexact : ∀ c ∈ cs, c.Exact) :
    List.Forall₂ SameReply (s.calls cs).2 (db.calls cs).2 ∧ Alike (s.calls cs).1 (db.calls cs).1 := by
  induction cs generalizing s db with
  | nil => exact ⟨.nil, h⟩
  | cons c cs ih =>
    have hnew : ∀ id, c.fresh? = some id → id ∈ freshIds (c :: cs) := fun id hid =>
      List.mem_filterMap.mpr ⟨c, List.mem_cons_self, hid⟩
    have hlater : ∀ id ∈ freshIds cs, id ∈ freshIds (c :: cs) := fun id hid => by
      obtain ⟨c', hc', hid⟩ := List.mem_filterMap.mp hid
      exact List.mem_filterMap.mpr ⟨c', List.mem_cons_of_mem c hc', hid⟩
    have hapart : ∀ id ∈ freshIds cs, c.fresh? ≠ some id := fun id hid hc => by
      unfold freshIds at hids
      rw [List.filterMap_cons_some hc] at hids
      exact (List.nodup_cons.mp hids).1 hid
    have hids' : (freshIds cs).Nodup := by
      unfold freshIds at hids
      cases hc : c.fresh? with
      | none => rwa [List.filterMap_cons_none hc] at hids
      | some id =>
        rw [List.filterMap_cons_some hc] at hids
        exact (List.nodup_cons.mp hids).2
    obtain ⟨hreply, halike⟩ := h.call (hexact c List.mem_cons_self)
      fun id hid => hfresh id (hnew id hid)
    obtain ⟨hreplies, hend⟩ := ih halike hids'
      (fun id hid => absent_after_call (hapart id hid) (hfresh id (hlater id hid)))
      fun c' hc' => hexact c' (List.mem_cons_of_mem c hc')
    exact ⟨.cons hreply hreplies, hend⟩

theorem Alike.sameSchedule (h : Alike s db) (id : ScheduleId) (readAt : DateTime) :
    Option.Rel SameSchedule (s.get id) (db.get id readAt) := by
  unfold InMemoryScheduleStore.get SqliteScheduleStore.get
  rcases h.cases id with ⟨hr, hrow⟩ | ⟨r, row, j, hr, hrow, hstored, hgrid⟩
  · rw [hr, hrow]
    exact .none
  · rw [hr, hrow]
    exact .some (hstored.sameSchedule hgrid readAt)

end

/-- With schedules at whole milliseconds, the two stores answer every call alike and hold the
same schedules. -/
theorem schedule_stores_agree (cs : List ScheduleCall) (hids : (freshIds cs).Nodup)
    (hexact : ∀ c ∈ cs, c.Exact) :
    List.Forall₂ SameReply (InMemoryScheduleStore.empty.calls cs).2
        (SqliteScheduleStore.empty.calls cs).2 ∧
      ∀ id readAt, Option.Rel SameSchedule ((InMemoryScheduleStore.empty.calls cs).1.get id)
        ((SqliteScheduleStore.empty.calls cs).1.get id readAt) := by
  have hempty : Alike InMemoryScheduleStore.empty SqliteScheduleStore.empty := fun _ => .none
  obtain ⟨hreplies, halike⟩ := hempty.calls cs hids (fun _ _ => rfl) hexact
  exact ⟨hreplies, halike.sameSchedule⟩

/-- One schedule is created at the fifth second, and ticks that refuse nothing follow. -/
def createAndTick (template : ScheduleTemplate) (nows : List DateTime) : List ScheduleCall :=
  .create "nightly" template (atSecond 5) ::
    nows.map fun now => .claimDue now (fun _ => 0) fun _ _ => .ok "job"

/-- Once, five hundred nanoseconds after the tenth second. -/
def onceTemplate : ScheduleTemplate :=
  { everyTen with
    kind := .oneShot ⟨10, 500, by omega, by omega⟩
    missedRunPolicy := .runOnceNow }

/-- With a period that is negative as a signed integer. -/
def hugePeriod : ScheduleTemplate :=
  { everyTen with kind := .interval 9223372036854775813 (atSecond 10) }

theorem stored_cursor_differs :
    ((InMemoryScheduleStore.empty.calls (createAndTick onceTemplate [atSecond 11])).1.get
        "nightly").map (·.lastOccurrenceAt) ≠
      ((SqliteScheduleStore.empty.calls (createAndTick onceTemplate [atSecond 11])).1.get
        "nightly" (atSecond 11)).map (·.lastOccurrenceAt) ∧
      ((InMemoryScheduleStore.empty.calls
          (createAndTick hugePeriod [atSecond 12, atSecond 16, atSecond 24])).1.get
            "nightly").map (·.nextRunAt) ≠
        ((SqliteScheduleStore.empty.calls
          (createAndTick hugePeriod [atSecond 12, atSecond 16, atSecond 24])).1.get
            "nightly" (atSecond 24)).map (·.nextRunAt) := by
  decide +kernel

/-- A tick, a pause over the next occurrence, and a tick after it. -/
def pausedCalls : List ScheduleCall :=
  [.create "nightly" guarded (atSecond 5),
    .claimDue (atSecond 12) (fun _ => 0) fun _ _ => .error (.refused "busy"),
    .setState "nightly" .paused (atSecond 13),
    .claimDue (atSecond 22) (fun _ => 0) fun _ _ => .ok "job",
    .setState "nightly" .active (atSecond 23),
    .claimDue (atSecond 24) (fun _ => 0) fun _ _ => .ok "job",
    .delete "weekly"]

theorem schedule_stores_agree_pausedCalls :
    List.Forall₂ SameReply (InMemoryScheduleStore.empty.calls pausedCalls).2
        (SqliteScheduleStore.empty.calls pausedCalls).2 ∧
      ∀ id readAt, Option.Rel SameSchedule
        ((InMemoryScheduleStore.empty.calls pausedCalls).1.get id)
        ((SqliteScheduleStore.empty.calls pausedCalls).1.get id readAt) := by
  refine schedule_stores_agree pausedCalls (by decide) fun c hc => ?_
  simp only [pausedCalls, List.mem_cons, List.not_mem_nil, or_false] at hc
  rcases hc with rfl | rfl | rfl | rfl | rfl | rfl | rfl
  · have hwhole : (horizonOf guarded (atSecond 5)).WholeMillis := by decide +kernel
    exact ⟨fits_guarded, hwhole, fun _ h => by cases h⟩
  all_goals first | trivial | exact Nat.succ_pos _

end Codegg.Jobs
