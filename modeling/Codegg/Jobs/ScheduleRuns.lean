import Codegg.Jobs.ScheduleTicks

/-!
# Runs of ticks

What a sequence of ticks at non-decreasing times materializes for one interval schedule
does not depend on how the ticks are spaced: it is the occurrences up to the last tick,
once a tick has reached the horizon that the schedule was created with.
-/
namespace Codegg.Jobs.InMemoryScheduleStore

open Codegg.Library

variable {s : InMemoryScheduleStore} {id : ScheduleId} {r : ScheduleRecord}
  {materialize : Materializer} {every : UInt64} {anchor now t first created last : DateTime}
  {running : ScheduleId → ℕ} {maxOccurrences j : ℕ}

/-! ### The cursor -/

/-- The last occurrence of a schedule that was decided. -/
def cursor (s : InMemoryScheduleStore) (id : ScheduleId) : Option DateTime :=
  (s.schedules.get? id).bind (·.lastOccurrenceAt)

/-- A cursor that is set stays set and is not moved back. -/
def Advanced (old new : Option DateTime) : Prop := ∀ d, old = some d → ∃ e, new = some e ∧ d ≤ e

theorem Advanced.refl (old : Option DateTime) : Advanced old old := fun d h => ⟨d, h, le_rfl⟩

theorem Advanced.trans {a b c : Option DateTime} (hab : Advanced a b) (hbc : Advanced b c) :
    Advanced a c := by
  intro d hd
  obtain ⟨e, he, hde⟩ := hab d hd
  obtain ⟨f, hf, hef⟩ := hbc e he
  exact ⟨f, hf, hde.trans hef⟩

theorem advanced_newLast (stored planned : Option DateTime) :
    Advanced stored (newLast stored planned) := by
  intro d hd
  subst hd
  cases planned with
  | none => exact ⟨d, rfl, le_rfl⟩
  | some e => exact ⟨max d e, rfl, le_max_left d e⟩

theorem advanced_commits (outcomes : List ScheduleOutcome) (r : Option ScheduleRecord) :
    Advanced (r.bind (·.lastOccurrenceAt))
      ((outcomes.foldl (fun r o => r.map (commitRecord o now)) r).bind (·.lastOccurrenceAt)) := by
  induction outcomes generalizing r with
  | nil => exact .refl _
  | cons o outcomes ih =>
    have hone : Advanced (r.bind (·.lastOccurrenceAt))
        ((r.map (commitRecord o now)).bind (·.lastOccurrenceAt)) := by
      cases r with
      | none => exact .refl _
      | some r => exact advanced_newLast r.lastOccurrenceAt o.lastDecided
    exact hone.trans (ih _)

theorem advanced_claimDue (s : InMemoryScheduleStore) :
    Advanced (s.cursor id) ((s.claimDue now running materialize).1.cursor id) := by
  unfold cursor claimDue commitOutcomes
  rw [get?_commitOutcomes]
  exact advanced_commits _ _

/-- No run of ticks moves a cursor back. -/
theorem advanced_ticks (s : InMemoryScheduleStore) (ts : List Tick) :
    Advanced (s.cursor id) ((s.ticks materialize ts).1.cursor id) := by
  induction ts generalizing s with
  | nil => exact .refl _
  | cons t ts ih => exact (advanced_claimDue s).trans (ih _)

theorem ticks_append (s : InMemoryScheduleStore) (before after : List Tick) :
    (s.ticks materialize (before ++ after)).1 =
      ((s.ticks materialize before).1.ticks materialize after).1 := by
  induction before generalizing s with
  | nil => rfl
  | cons t before ih => exact ih _

/-! ### One tick -/

/-- What one tick and the others after it materialize. -/
theorem materializedTimes_ticks_cons (s : InMemoryScheduleStore) (t : Tick) (ts : List Tick) :
    materializedTimes id (s.ticks materialize (t :: ts)).2 =
      materializedTimes id (s.claimDue t.now t.running materialize).2 ++
        materializedTimes id
          ((s.claimDue t.now t.running materialize).1.ticks materialize ts).2 :=
  materializedTimes_append _ _ _

/-- The times of the ticks do not decrease. -/
def InOrder (ts : List Tick) : Prop := ts.Pairwise fun a b => a.now ≤ b.now

/-- No tick is after the last. -/
theorem le_last {t : DateTime} {ts : List Tick} (h : ∀ u ∈ ts, t ≤ u.now) :
    t ≤ (ts.getLast?.map Tick.now).getD t := by
  cases hts : ts.getLast? with
  | none => exact le_rfl
  | some v => exact h v (List.mem_of_getLast? hts)

section

variable (hp : Periodic every) (haccepts : Accepts materialize id)
include hp haccepts

theorem claimDue_ticked (running : ScheduleId → ℕ) (hr : s.schedules.get? id = some r)
    (h : Ticked every anchor maxOccurrences t r) (hle : t ≤ now)
    (hmax : occurrencesUpTo every anchor now ≤ maxOccurrences) :
    ∃ r', (s.claimDue now running materialize).1.schedules.get? id = some r' ∧
      Ticked every anchor maxOccurrences now r' ∧
      materializedTimes id (s.claimDue now running materialize).2 =
        instants (terms (occurrence every anchor (occurrencesUpTo every anchor t)) every.toNat
          (occurrencesUpTo every anchor now - occurrencesUpTo every anchor t)) := by
  have hsecs := secs_mono hle
  have hmono := @occurrencesUpTo_mono now every anchor t hp hsecs
  cases hdue : isDue now r with
  | true =>
    obtain ⟨hget, htimes⟩ := claimDue_of_due materialize running hr hdue
    obtain ⟨hticked, hqueued⟩ := commit_due hp running h.toDecided
      (fun t => haccepts r t (s.keyed id r hr)) hmono (by have := h.started; omega) hmax
    exact ⟨_, hget, hticked, htimes.trans hqueued⟩
  | false =>
    obtain ⟨hget, htimes⟩ :=
      claimDue_of_not_due materialize running hr hdue
    obtain ⟨hticked, heq⟩ := ticked_of_not_due hp h hle hdue
    refine ⟨r, hget, hticked, ?_⟩
    rw [htimes, heq, Nat.sub_self]
    rfl

/-- From one tick to the last of some others. -/
theorem ticks_ticked (ts : List Tick) (hr : s.schedules.get? id = some r)
    (h : Ticked every anchor maxOccurrences t r) (hle : ∀ u ∈ ts, t ≤ u.now) (horder : InOrder ts)
    (hlast : last = (ts.getLast?.map Tick.now).getD t)
    (hmax : occurrencesUpTo every anchor last ≤ maxOccurrences) :
    materializedTimes id (s.ticks materialize ts).2 =
      instants (terms (occurrence every anchor (occurrencesUpTo every anchor t)) every.toNat
        (occurrencesUpTo every anchor last - occurrencesUpTo every anchor t)) := by
  induction ts generalizing s r t with
  | nil =>
    subst hlast
    simp [ticks, materializedTimes, terms, instants]
  | cons u ts ih =>
    obtain ⟨hfirst, hrest⟩ := List.pairwise_cons.mp horder
    have hlast' : last = (ts.getLast?.map Tick.now).getD u.now := by
      rw [hlast, List.getLast?_cons]
      cases ts.getLast? <;> rfl
    have hulast : u.now ≤ last := hlast' ▸ le_last hfirst
    have htu : t ≤ u.now := hle u List.mem_cons_self
    have hmono := @occurrencesUpTo_mono last every anchor u.now hp (secs_mono hulast)
    have hmono' := @occurrencesUpTo_mono u.now every anchor t hp (secs_mono htu)
    obtain ⟨r', hr', hticked, htimes⟩ :=
      claimDue_ticked hp haccepts u.running hr h htu (hmono.trans hmax)
    have hothers := ih hr' hticked hfirst hrest hlast'
    rw [materializedTimes_ticks_cons, htimes, hothers, instants_terms_append hmono' hmono]

/-- From the creation of a schedule to the last of some ticks. -/
theorem ticks_untouched (ts : List Tick) (hr : s.schedules.get? id = some r)
    (h : Untouched every anchor maxOccurrences first r) (horder : InOrder ts)
    (hlast : ts.getLast?.map Tick.now = some last)
    (hmax : occurrencesUpTo every anchor last ≤ maxOccurrences) :
    materializedTimes id (s.ticks materialize ts).2 =
      if first ≤ last then
        instants (terms anchor.secs every.toNat (occurrencesUpTo every anchor last))
      else [] := by
  induction ts generalizing s with
  | nil => simp at hlast
  | cons u ts ih =>
    obtain ⟨hfirst, hrest⟩ := List.pairwise_cons.mp horder
    have hlast' : last = (ts.getLast?.map Tick.now).getD u.now := by
      rw [List.getLast?_cons] at hlast
      cases hts : ts.getLast? <;> simp_all
    have hulast : u.now ≤ last := hlast' ▸ le_last hfirst
    have hdue : isDue u.now r = decide (first ≤ u.now) := by
      simp [isDue, h.active, h.next]
    rw [materializedTimes_ticks_cons]
    by_cases hnow : first ≤ u.now
    · have hsecs := secs_mono hnow
      have hstarted : 0 < occurrencesUpTo every anchor u.now := by
        have hle := h.first_le
        rw [lt_occurrencesUpTo hp, occurrence_zero]
        omega
      have hmono := @occurrencesUpTo_mono last every anchor u.now hp (secs_mono hulast)
      obtain ⟨hget, htimes⟩ := claimDue_of_due materialize u.running hr
        (hdue.trans (decide_eq_true hnow))
      obtain ⟨hticked, hqueued⟩ := commit_due hp u.running h.toDecided
        (fun t => haccepts r t (s.keyed id r hr)) (Nat.zero_le _) hstarted (hmono.trans hmax)
      have hothers := ticks_ticked hp haccepts ts hget hticked hfirst hrest hlast' hmax
      rw [htimes, hqueued, hothers, instants_terms_append (Nat.zero_le _) hmono,
        if_pos (hnow.trans hulast), occurrence_zero, Nat.sub_zero]
    · obtain ⟨hget, htimes⟩ := claimDue_of_not_due materialize u.running hr
        (hdue.trans (decide_eq_false hnow))
      rw [htimes, List.nil_append]
      cases ts with
      | nil =>
        have hlast'' : last = u.now := by simpa using hlast'
        rw [hlast'', if_neg hnow]
        rfl
      | cons v ts =>
        exact ih hget hrest hlast

end

/-! ### A schedule as it is created -/

/-- The horizon a schedule is created with. -/
def horizonOf (template : ScheduleTemplate) (created : DateTime) : DateTime :=
  template.nextRunAt.getD ((computeNextRun template.kind created none).getD created)

theorem get?_create (s : InMemoryScheduleStore) (id : ScheduleId) (template : ScheduleTemplate)
    (created : DateTime) :
    (s.create id template created).schedules.get? id = some (newRecord id template created) :=
  (SortedMap.get?_insert _ _ _ _).trans (if_pos rfl)

/-- The horizon of a schedule created without one: its first occurrence from then on. -/
def firstHorizon (every : UInt64) (anchor created : DateTime) : DateTime :=
  (DateTime.fromTimestamp
    (occurrence every anchor (occurrencesBefore every anchor created.secs))).getD created

theorem untouched_newRecord (hp : Periodic every) {template : ScheduleTemplate}
    (hkind : template.kind = .interval every anchor) (hallow : template.overlapPolicy = .allow)
    (hpolicy : template.missedRunPolicy = .catchUpBounded maxOccurrences)
    (hnext : template.nextRunAt = none) :
    Untouched every anchor maxOccurrences (firstHorizon every anchor created)
      (newRecord id template created) := by
  have hcompute : computeNextRun (.interval every anchor) created none =
      DateTime.fromTimestamp
        (occurrence every anchor (occurrencesBefore every anchor created.secs)) :=
    computeNextRun_interval hp (j := 0) occurrence_zero.symm (Nat.zero_le _)
  refine ⟨⟨hkind, rfl, hallow, hpolicy, rfl⟩, ?_, ?_⟩
  · show some (template.nextRunAt.getD ((computeNextRun template.kind created none).getD created)) = _
    rw [hnext, hkind, hcompute]
    rfl
  · have hge := @anchor_le_occurrence every anchor (occurrencesBefore every anchor created.secs)
    unfold firstHorizon
    cases hd : DateTime.fromTimestamp
        (occurrence every anchor (occurrencesBefore every anchor created.secs)) with
    | some d =>
      have hsecs := (fromTimestamp_eq_some.mp hd).1
      show anchor.secs ≤ d.secs
      omega
    | none =>
      -- that there is no instant so late means that the anchor is before the creation
      show anchor.secs ≤ created.secs
      by_contra hlate
      have hnone : occurrencesBefore every anchor created.secs = 0 := by
        have hle : occurrencesBefore every anchor created.secs ≤ 0 :=
          (occurrencesBefore_le hp).mpr (by
            rw [occurrence_zero]
            omega)
        omega
      have hlo := anchor.le_secs
      have hhi := anchor.secs_le
      rw [hnone, occurrence_zero, fromTimestamp_eq_none] at hd
      omega

theorem mem_instants_terms (hp : Periodic every) :
    t ∈ instants (terms anchor.secs every.toNat (occurrencesUpTo every anchor last)) ↔
      t ≤ last ∧ t.nanos = 0 ∧ ∃ k : ℕ, t.secs = anchor.secs + k * every.toNat := by
  unfold instants
  simp only [List.mem_filterMap, mem_terms, fromTimestamp_eq_some]
  constructor
  · rintro ⟨x, ⟨k, hk, rfl⟩, hsecs, hnanos⟩
    have hle : occurrence every anchor k ≤ last.secs := (lt_occurrencesUpTo hp).mp hk
    refine ⟨(le_iff_secs hnanos).mpr ?_, hnanos, k, hsecs⟩
    rw [hsecs]
    exact hle
  · rintro ⟨hle, hnanos, k, hsecs⟩
    rw [le_iff_secs hnanos] at hle
    have hk : k < occurrencesUpTo every anchor last := by
      rw [lt_occurrencesUpTo hp]
      show anchor.secs + k * every.toNat ≤ last.secs
      omega
    exact ⟨term anchor.secs every.toNat k, ⟨k, hk, rfl⟩, hsecs, hnanos⟩

theorem pairwise_instants {xs : List ℤ} (h : xs.Pairwise (· < ·)) : (instants xs).Pairwise (· < ·) := by
  unfold instants
  rw [List.pairwise_filterMap]
  refine h.imp fun {a b} hab d hd e he => ?_
  obtain ⟨hdsecs, -⟩ := fromTimestamp_eq_some.mp hd
  obtain ⟨hesecs, -⟩ := fromTimestamp_eq_some.mp he
  rw [DateTime.lt_iff]
  omega

/-- Whatever the spacing of the ticks, a schedule that skips nothing has materialized its
occurrences up to the last tick, each once and in order, if that tick has reached the
horizon of its creation, and nothing before; its cursor is never moved back. -/
theorem ticks_materialize (s : InMemoryScheduleStore) (hp : Periodic every)
    {template : ScheduleTemplate} (hkind : template.kind = .interval every anchor)
    (hallow : template.overlapPolicy = .allow)
    (hpolicy : template.missedRunPolicy = .catchUpBounded maxOccurrences)
    (hnext : template.nextRunAt = none) (haccepts : Accepts materialize id) (ts : List Tick)
    (horder : InOrder ts) (hlast : ts.getLast?.map Tick.now = some last)
    (hmax : occurrencesUpTo every anchor last ≤ maxOccurrences) :
    (∀ t, t ∈ materializedTimes id ((s.create id template created).ticks materialize ts).2 ↔
        firstHorizon every anchor created ≤ last ∧
          t ≤ last ∧ t.nanos = 0 ∧ ∃ k : ℕ, t.secs = anchor.secs + k * every.toNat) ∧
      (materializedTimes id ((s.create id template created).ticks materialize ts).2).Pairwise (· < ·) ∧
      ∀ before after, ts = before ++ after →
        Advanced (((s.create id template created).ticks materialize before).1.cursor id)
          (((s.create id template created).ticks materialize ts).1.cursor id) := by
  have htimes := ticks_untouched hp haccepts ts (get?_create s id template created)
    (untouched_newRecord hp hkind hallow hpolicy hnext) horder hlast hmax
  refine ⟨fun t => ?_, ?_, ?_⟩
  · rw [htimes]
    split
    · next hdue => rw [mem_instants_terms hp, and_iff_right hdue]
    · next hdue => simp [hdue]
  · rw [htimes]
    split
    · exact pairwise_instants (pairwise_terms (step_pos hp) _)
    · exact List.Pairwise.nil
  · rintro before after rfl
    rw [ticks_append]
    exact advanced_ticks _ after

instance neZero_hundred : NeZero (100 : ℕ) := ⟨by decide⟩

/-- Some second of the epoch. -/
def atSecond (n : Fin 100) : DateTime where
  secs := n
  nanos := 0
  le_secs := by omega
  secs_le := by omega

/-- Every ten seconds from the epoch on. -/
def everyTen : ScheduleTemplate where
  kind := .interval 10 (atSecond 0)
  overlapPolicy := .allow
  missedRunPolicy := .catchUpBounded 3
  nextRunAt := none

theorem ticks_materialize_everyTen :
    (∀ t, t ∈ materializedTimes "nightly"
        ((empty.create "nightly" everyTen (atSecond 5)).ticks (fun _ _ => .ok "job")
          [⟨atSecond 7, fun _ => 0⟩, ⟨atSecond 20, fun _ => 1⟩]).2 ↔
        firstHorizon 10 (atSecond 0) (atSecond 5) ≤ atSecond 20 ∧
          t ≤ atSecond 20 ∧ t.nanos = 0 ∧
            ∃ k : ℕ, t.secs = (atSecond 0).secs + k * (10 : UInt64).toNat) ∧
      (materializedTimes "nightly"
        ((empty.create "nightly" everyTen (atSecond 5)).ticks (fun _ _ => .ok "job")
          [⟨atSecond 7, fun _ => 0⟩, ⟨atSecond 20, fun _ => 1⟩]).2).Pairwise (· < ·) ∧
      ∀ before after, [⟨atSecond 7, fun _ => 0⟩, ⟨atSecond 20, fun _ => 1⟩] = before ++ after →
        Advanced
          (((empty.create "nightly" everyTen (atSecond 5)).ticks (fun _ _ => .ok "job")
            before).1.cursor "nightly")
          (((empty.create "nightly" everyTen (atSecond 5)).ticks (fun _ _ => .ok "job")
            [⟨atSecond 7, fun _ => 0⟩, ⟨atSecond 20, fun _ => 1⟩]).1.cursor "nightly") :=
  ticks_materialize empty ⟨by decide, by decide⟩ rfl rfl rfl rfl (fun _ _ _ => ⟨"job", rfl⟩)
    [⟨atSecond 7, fun _ => 0⟩, ⟨atSecond 20, fun _ => 1⟩]
    (by simp [InOrder, DateTime.le_iff, atSecond]) rfl (by decide)

/-- An occurrence before the creation of its schedule is not materialized by a tick before the
horizon: the schedule is not due. -/
theorem tick_before_horizon :
    occurrence 10 (atSecond 0) 0 ≤ (atSecond 7).secs ∧
      materializedTimes "nightly"
        ((empty.create "nightly" everyTen (atSecond 5)).ticks (fun _ _ => .ok "job")
          [⟨atSecond 7, fun _ => 0⟩]).2 = [] := by
  decide +kernel

end Codegg.Jobs.InMemoryScheduleStore
