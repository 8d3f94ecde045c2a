import Codegg.Projection.ReplayFollower

/-!
# When a follower misses nothing

The two reads of a resume are related to the history of the stream. From that, what one step
of the system preserves, and what a run does.
-/
namespace Codegg.Projection

open Codegg.Library ProjectionReplayStore

variable {json : Json} {policy : RetentionPolicy}

/-! ### The two reads -/

section

variable {s : ProjectionReplayStore} {sub : ReplaySubscription} {cursor : ProjectionCursor}
  {desc : ProjectionStreamDescriptor} {id : ProjectionStreamId} {fromSeq base : ℕ}
  {kept : List ProjectionEnvelope} {rows : List ProjectionReplayRow} {xs : List ProjectionEnvelope}

theorem resumeLookup_cases (sub : ReplaySubscription) (cursor : ProjectionCursor)
    (s : ProjectionReplayStore) :
    (∃ reason descriptor requested,
        resumeLookup sub cursor s = .error (.resync reason descriptor requested)) ∨
      (∃ st, s.stream cursor.streamId = some st ∧
        st.descriptor.highWaterSeq = cursor.eventSeq ∧
        resumeLookup sub cursor s = .error (.empty st.descriptor.highWaterSeq
          ⟨cursor.streamId, st.descriptor.highWaterSeq, st.descriptor.projectionVersion⟩)) ∨
      ∃ st, s.stream cursor.streamId = some st ∧ cursor.eventSeq < st.descriptor.highWaterSeq ∧
        resumeLookup sub cursor s = .ok st.descriptor := by
  unfold resumeLookup
  by_cases hsub : sub.streamId ≠ cursor.streamId
  · rw [if_pos hsub]
    exact .inl ⟨_, _, _, rfl⟩
  rw [if_neg hsub]
  cases hdesc : s.lookupStreamById cursor.streamId with
  | none => exact .inl ⟨_, _, _, rfl⟩
  | some desc =>
    obtain ⟨st, hst, hactive⟩ := Option.bind_eq_some_iff.mp hdesc
    have hst' : st.descriptor = desc := by
      split at hactive
      · exact Option.some.inj hactive
      · cases hactive
    subst hst'
    dsimp only
    by_cases hend : st.descriptor.highWaterSeq = cursor.eventSeq
    · rw [if_pos hend]
      exact .inr (.inl ⟨st, hst, hend, rfl⟩)
    rw [if_neg hend]
    by_cases hahead : cursor.eventSeq > st.descriptor.highWaterSeq
    · rw [if_pos hahead]
      exact .inl ⟨_, _, _, rfl⟩
    rw [if_neg hahead]
    by_cases hexpired : cursor.eventSeq < st.descriptor.retentionFloorSeq
    · rw [if_pos hexpired]
      exact .inl ⟨_, _, _, rfl⟩
    rw [if_neg hexpired]
    by_cases hversion : sub.projectionVersion ≠ st.descriptor.projectionVersion
    · rw [if_pos hversion]
      exact .inl ⟨_, _, _, rfl⟩
    rw [if_neg hversion]
    exact .inr (.inr ⟨st, hst, by omega, rfl⟩)

/-- A page holds the rows of some of the events after a number, from the first on. -/
theorem eventsAfter_stored (hstored : Stored json (s.rows id) kept)
    (hnumbered : Numbered (·.eventSeq) (base + 1) kept) (fromSeq : ℕ) :
    ∃ k, Stored json (s.eventsAfter id fromSeq maxReplayEvents maxReplayBytes)
        ((kept.drop (fromSeq - base)).take k) ∧
      (kept.drop (fromSeq - base) ≠ [] → 0 < k) := by
  have hafter : kept.filter (fun e => decide (fromSeq < e.eventSeq)) = kept.drop (fromSeq - base) := by
    have hle := hnumbered.filter_le (fromSeq + 1)
    simpa [Nat.succ_le_iff] using hle
  have hrows := hstored.filter fun n => decide (fromSeq < n)
  rw [hafter] at hrows
  unfold eventsAfter
  generalize (s.rows id).filter (fun r => decide (fromSeq < r.eventSeq)) = rows at hrows
  obtain ⟨k, hk, hkpos⟩ := limitRows_eq_take maxReplayEvents rows
  obtain ⟨m, hm, hmpos⟩ := pageRows_eq_take maxReplayBytes 0 []
    (limitRows maxReplayEvents rows)
  rw [hm, hk, List.take_take]
  refine ⟨min m k, hrows.take _, fun hne => ?_⟩
  have hrowsne : rows ≠ [] := by
    have hlength := hrows.length_eq
    intro hnil
    rw [hnil] at hlength
    exact hne (List.length_eq_zero_iff.mp hlength.symm)
  have hkpos' := hkpos (by decide) hrowsne
  have hlimitne : limitRows maxReplayEvents rows ≠ [] := by
    rw [hk]
    intro hnil
    have hlength := congrArg List.length hnil
    have hpos := List.length_pos_of_ne_nil hrowsne
    simp only [List.length_take, List.length_nil] at hlength
    omega
  have hmpos' := hmpos rfl hlimitne
  omega

theorem resumeRows_of_stored (hstored : Stored json rows xs)
    (hbehind : cursor.eventSeq < desc.highWaterSeq) :
    resumeRows json cursor desc rows =
      if xs = [] then .resync .historyGap (some desc) (some cursor)
      else .replayed xs desc.highWaterSeq
        ⟨cursor.streamId, (xs.getLast?.map (·.eventSeq)).getD cursor.eventSeq,
          desc.projectionVersion⟩ := by
  have hlast : rows.getLast?.map (·.eventSeq) = xs.getLast?.map (·.eventSeq) := by
    rw [← List.getLast?_map, ← List.getLast?_map, hstored.eventSeqs]
  unfold resumeRows
  simp [hstored.decoded, hlast, hbehind]

/-- A resume that is behind answers with what the stream still holds after the cursor. -/
theorem resumeEvents_cases (hstored : Stored json (s.rows cursor.streamId) kept)
    (hnumbered : Numbered (·.eventSeq) (base + 1) kept)
    (hbehind : cursor.eventSeq < desc.highWaterSeq) :
    kept.drop (cursor.eventSeq - base) = [] ∧
        resumeEvents json cursor desc s = .resync .historyGap (some desc) (some cursor) ∨
      ∃ k next, (kept.drop (cursor.eventSeq - base)).take k ≠ [] ∧
        resumeEvents json cursor desc s =
          .replayed ((kept.drop (cursor.eventSeq - base)).take k) desc.highWaterSeq next ∧
        next.streamId = cursor.streamId ∧
        next.eventSeq =
          max cursor.eventSeq base + ((kept.drop (cursor.eventSeq - base)).take k).length := by
  obtain ⟨k, hpage, hpos⟩ := eventsAfter_stored hstored hnumbered cursor.eventSeq
  unfold resumeEvents
  rw [resumeRows_of_stored hpage hbehind]
  by_cases hnil : kept.drop (cursor.eventSeq - base) = []
  · refine .inl ⟨hnil, ?_⟩
    rw [hnil, List.take_nil, if_pos rfl]
  · have hk := hpos hnil
    have hne : (kept.drop (cursor.eventSeq - base)).take k ≠ [] := by
      rw [Ne, List.take_eq_nil_iff]
      rintro (hzero | hempty)
      · omega
      · exact hnil hempty
    have hdrop : cursor.eventSeq - base ≤ kept.length := by
      rw [List.drop_eq_nil_iff] at hnil
      omega
    have hpagenumbered := (hnumbered.drop hdrop).take k
    have hlast := hpagenumbered.getLast? hne
    refine .inr ⟨k, _, hne, if_neg hne, rfl, ?_⟩
    rw [hlast, Option.getD_some]
    dsimp only
    omega

end

/-! ### Every run -/

theorem MaintenanceTick.consistent_next {s : ProjectionReplayStore}
    {published : List (ProjectionStreamId × ProjectionEnvelope)}
    (h : Consistent json s published) (tick : MaintenanceTick) :
    Consistent json (tick.next policy s).1 published := by
  obtain ⟨streams, phase⟩ := tick
  cases streams with
  | nil => exact h
  | cons desc streams =>
    cases phase with
    | count =>
      unfold MaintenanceTick.next
      dsimp only
      split <;> exact h
    | delete newFloor => exact h.deleteBefore newFloor
    | setFloor newFloor => exact h.setRetentionFloor newFloor

namespace ReplaySystem

variable {σ : ReplaySystem} {start : ℕ} {outcome : ResumeOutcome}

/-- The store agrees with the log, and a resume in progress is behind. -/
structure Coherent (json : Json) (σ : ReplaySystem) : Prop where
  consistent : Consistent json σ.store σ.published
  looking : ∀ desc, σ.looked = some desc →
    σ.cursor.eventSeq < desc.highWaterSeq ∧ desc.highWaterSeq ≤ σ.log.length

theorem coherent_initial (sub : ReplaySubscription) (cursor : ProjectionCursor) :
    Coherent json (initial sub cursor) where
  consistent := .empty
  looking := fun _ h => by cases h

theorem log_answer (hstream : (outcome.cursor σ.cursor).streamId = σ.cursor.streamId) :
    (σ.answer outcome).log = σ.log := by
  unfold log answer
  rw [hstream]

theorem Coherent.answer (h : Coherent json σ) (outcome : ResumeOutcome) :
    Coherent json (σ.answer outcome) where
  consistent := h.consistent
  looking := fun _ hlooked => by cases hlooked

theorem Coherent.lookup (h : Coherent json σ) : Coherent json σ.lookup := by
  unfold ReplaySystem.lookup
  cases hlooked : σ.looked with
  | some desc => exact h
  | none =>
    obtain ⟨_, _, _, hread⟩ | ⟨st, _, _, hread⟩ | ⟨st, hst, hbehind, hread⟩ :=
      resumeLookup_cases σ.sub σ.cursor σ.store
    · rw [hread]
      exact h.answer _
    · rw [hread]
      exact h.answer _
    · rw [hread]
      refine ⟨h.consistent, fun desc hdesc => ?_⟩
      cases hdesc
      exact ⟨hbehind, (h.consistent.kept _ st hst).highWater.le⟩

theorem Coherent.readEvents (h : Coherent json σ) : Coherent json (σ.readEvents json) := by
  unfold ReplaySystem.readEvents
  cases σ.looked with
  | none => exact h
  | some desc => exact h.answer _

theorem Coherent.step (hjson : json.RoundTrips) (h : Coherent json σ) (action : ReplayAction) :
    Coherent json (σ.step json policy action) := by
  cases action with
  | publish projections =>
    refine ⟨h.consistent.publish hjson projections, fun desc hdesc => ?_⟩
    obtain ⟨hbehind, hle⟩ := h.looking desc hdesc
    refine ⟨hbehind, hle.trans ?_⟩
    unfold ReplaySystem.step log
    rw [logOf_append, List.length_append]
    exact Nat.le_add_right _ _
  | insertStream id kind projectId workspaceId sessionId =>
    exact ⟨h.consistent.insertStream kind projectId workspaceId sessionId, h.looking⟩
  | setLifecycle id lifecycle => exact ⟨h.consistent.setLifecycle lifecycle, h.looking⟩
  | startTick => exact ⟨h.consistent, h.looking⟩
  | nextOfTick i =>
    unfold ReplaySystem.step
    dsimp only
    split
    · exact h
    · next tick _ => exact ⟨MaintenanceTick.consistent_next h.consistent tick, h.looking⟩
  | lookup => exact h.lookup
  | readEvents => exact h.readEvents

/-! ### Reads that hold the next event -/

/-- A faithful system with its cursor in the log, if the client has moved. -/
structure Followed (start : ℕ) (σ : ReplaySystem) : Prop extends Faithful start σ where
  start_le : start ≤ σ.cursor.eventSeq
  within : σ.cursor.eventSeq = start ∨ σ.cursor.eventSeq ≤ σ.log.length

theorem delivered_answer (outcome : ResumeOutcome) :
    (σ.answer outcome).delivered = σ.delivered ++ outcome.events := by
  simp [delivered, ReplaySystem.answer]

/-- What a faithful client was sent, as a part of the log. -/
theorem Faithful.delivered_window (h : Faithful start σ) (hσ : Coherent json σ) :
    σ.delivered = (σ.log.take σ.cursor.eventSeq).drop start :=
  h.delivered_eq.trans ((hσ.consistent.numbered _).filter_window start _)

/-- A faithful client that gets another answer. -/
theorem Followed.answer (h : Followed start σ)
    (hstream : (outcome.cursor σ.cursor).streamId = σ.cursor.streamId)
    (hdelivered : σ.delivered ++ outcome.events = σ.log.filter fun e =>
      decide (start < e.eventSeq) && decide (e.eventSeq ≤ (outcome.cursor σ.cursor).eventSeq))
    (hreplayed : ∀ events highWater next, outcome = .replayed events highWater next →
      Numbered (·.eventSeq) (σ.cursor.eventSeq + 1) events ∧
        next.eventSeq = σ.cursor.eventSeq + events.length)
    (hempty : ∀ highWater next, outcome = .empty highWater next →
      ∀ e ∈ σ.log, start < e.eventSeq → e ∈ σ.delivered ++ outcome.events)
    (hle : σ.cursor.eventSeq ≤ (outcome.cursor σ.cursor).eventSeq)
    (hwithin : (outcome.cursor σ.cursor).eventSeq = start ∨
      (outcome.cursor σ.cursor).eventSeq ≤ σ.log.length) :
    Followed start (σ.answer outcome) where
  delivered_eq := by
    rw [delivered_answer, log_answer hstream]
    exact hdelivered
  replayed := by
    intro a ha events highWater next houtcome
    rcases List.mem_append.mp ha with ha | ha
    · exact h.replayed a ha events highWater next houtcome
    · cases List.mem_singleton.mp ha
      exact hreplayed events highWater next houtcome
  empty := by
    intro a ha highWater next houtcome e he hstart
    rw [delivered_answer]
    have he' : (σ.cursor.streamId, e) ∈ a.published := hstream ▸ he
    rcases List.mem_append.mp ha with ha | ha
    · exact List.mem_append_left _ (h.empty a ha highWater next houtcome e he' hstart)
    · cases List.mem_singleton.mp ha
      exact hempty highWater next houtcome e (mem_logOf.mpr he') hstart
  start_le := h.start_le.trans hle
  within := by
    rw [log_answer hstream]
    exact hwithin

theorem Followed.resync (h : Followed start σ) (reason : ProjectionResyncReason)
    (descriptor : Option ProjectionStreamDescriptor) (requested : Option ProjectionCursor) :
    Followed start (σ.answer (.resync reason descriptor requested)) := by
  refine h.answer rfl ?_ (fun _ _ _ hx => by cases hx) (fun _ _ hx => by cases hx) le_rfl h.within
  show σ.delivered ++ [] = _
  rw [List.append_nil]
  exact h.delivered_eq

theorem Followed.lookup (h : Followed start σ) (hσ : Coherent json σ) : Followed start σ.lookup := by
  unfold ReplaySystem.lookup
  cases hlooked : σ.looked with
  | some desc => exact h
  | none =>
    obtain ⟨_, _, _, hread⟩ | ⟨st, hst, hend, hread⟩ | ⟨st, _, _, hread⟩ :=
      resumeLookup_cases σ.sub σ.cursor σ.store
    · rw [hread]
      exact h.resync _ _ _
    · have hlength : st.descriptor.highWaterSeq = σ.log.length :=
        (hσ.consistent.kept _ st hst).highWater
      have hall : σ.delivered ++ [] = σ.log.filter fun e =>
          decide (start < e.eventSeq) && decide (e.eventSeq ≤ σ.cursor.eventSeq) := by
        rw [List.append_nil]
        exact h.delivered_eq
      rw [hread, hend]
      refine h.answer rfl hall (fun _ _ _ hx => by cases hx) ?_ le_rfl h.within
      rintro _ _ - e he hstart
      have hupper := ((hσ.consistent.numbered _).mem_range he).2
      have hupper' : e.eventSeq < 1 + σ.log.length := hupper
      show e ∈ σ.delivered ++ []
      rw [hall, List.mem_filter]
      refine ⟨he, ?_⟩
      simp only [Bool.and_eq_true, decide_eq_true_eq]
      omega
    · rw [hread]
      exact ⟨⟨h.delivered_eq, h.replayed, h.empty⟩, h.start_le, h.within⟩

/-- The next event of a client that is behind is held if it is not lost, or if all are. -/
theorem nextHeld_iff {lost kept : List ProjectionEnvelope} (hlog : σ.log = lost ++ kept)
    (hstored : Stored json (σ.store.rows σ.cursor.streamId) kept)
    (hnumbered : Numbered (·.eventSeq) (lost.length + 1) kept)
    (hbehind : σ.cursor.eventSeq < σ.log.length) :
    σ.NextHeld ↔ lost.length ≤ σ.cursor.eventSeq ∨ kept = [] := by
  have hlength : σ.log.length = lost.length + kept.length := by rw [hlog, List.length_append]
  constructor
  · rintro (hrow | hnone)
    · obtain ⟨e, he, heq⟩ := (hstored.exists_iff (· = σ.cursor.eventSeq + 1)).mp hrow
      have hlower := (hnumbered.mem_range he).1
      exact .inl (by omega)
    · by_cases hkept : kept = []
      · exact .inr hkept
      · have hpos := List.length_pos_of_ne_nil hkept
        obtain ⟨row, hrow, hseq⟩ := (hstored.exists_iff (· = lost.length + 1)).mpr
          (hnumbered.exists_mem le_rfl (by omega))
        have hle := hnone row hrow
        exact .inl (by omega)
  · rintro (hheld | hempty)
    · exact .inl ((hstored.exists_iff (· = σ.cursor.eventSeq + 1)).mpr
        (hnumbered.exists_mem (by omega) (by omega)))
    · have hrows : (σ.store.rows σ.cursor.streamId).length = 0 := by
        rw [hstored.length_eq, hempty]
        rfl
      rw [List.length_eq_zero_iff] at hrows
      refine .inr fun row hrow => ?_
      rw [hrows] at hrow
      cases hrow

/-- If the next event is held, a read goes on from it. -/
theorem Followed.readEvents (h : Followed start σ) (hσ : Coherent json σ)
    (hheld : σ.looked.isSome → σ.NextHeld) : Followed start (σ.readEvents json) := by
  unfold ReplaySystem.readEvents
  cases hlooked : σ.looked with
  | none => exact h
  | some desc =>
    obtain ⟨hbehind, hle⟩ := hσ.looking desc hlooked
    obtain ⟨lost, kept, hlog, hstored, hnumbered⟩ := hσ.consistent.rows σ.cursor.streamId
    dsimp only
    obtain ⟨-, hread⟩ | ⟨k, next, hne, hread, hstream, hnext⟩ :=
      resumeEvents_cases hstored hnumbered hbehind
    · rw [hread]
      exact h.resync _ _ _
    have hkept : lost.length ≤ σ.cursor.eventSeq := by
      rcases (nextHeld_iff hlog hstored hnumbered (hbehind.trans_le hle)).mp
        (hheld (by rw [hlooked]; rfl)) with hkept | hempty
      · exact hkept
      · rw [hempty, List.drop_nil, List.take_nil] at hne
        exact absurd rfl hne
    -- what is left after the cursor is the log after it
    have hafter : kept.drop (σ.cursor.eventSeq - lost.length) = σ.log.drop σ.cursor.eventSeq := by
      show _ = (logOf _ _).drop _
      rw [hlog, List.drop_append, List.drop_eq_nil_of_le hkept, List.nil_append]
    rw [hafter, max_eq_left hkept] at hnext
    rw [hafter] at hread
    have hpage : Numbered (·.eventSeq) (σ.cursor.eventSeq + 1)
        ((σ.log.drop σ.cursor.eventSeq).take k) := by
      have hall := ((hσ.consistent.numbered σ.cursor.streamId).drop (hbehind.trans_le hle).le).take k
      rw [Nat.add_comm 1] at hall
      exact hall
    have hcount : ((σ.log.drop σ.cursor.eventSeq).take k).length ≤
        σ.log.length - σ.cursor.eventSeq := by
      rw [List.length_take, List.length_drop]
      exact Nat.min_le_right _ _
    rw [hread]
    refine h.answer hstream ?_ ?_ (fun _ _ hx => by cases hx) ?_ ?_
    · have hwindow : σ.log.filter (fun e =>
          decide (start < e.eventSeq) && decide (e.eventSeq ≤ next.eventSeq)) =
            (σ.log.take next.eventSeq).drop start :=
        (hσ.consistent.numbered _).filter_window start _
      have htake : σ.log.take next.eventSeq =
          σ.log.take σ.cursor.eventSeq ++ (σ.log.drop σ.cursor.eventSeq).take k := by
        rw [hnext, List.take_add, List.length_take, ← List.take_eq_take_min]
      have hstart : start ≤ (σ.log.take σ.cursor.eventSeq).length := by
        have hstart' := h.start_le
        rw [List.length_take]
        omega
      refine Eq.trans ?_ hwindow.symm
      rw [htake, List.drop_append_of_le_length hstart, h.delivered_window hσ]
      rfl
    · intro events highWater next' hx
      cases hx
      exact ⟨hpage, hnext⟩
    · show σ.cursor.eventSeq ≤ next.eventSeq
      omega
    · show next.eventSeq = start ∨ next.eventSeq ≤ σ.log.length
      omega

theorem Followed.step (hjson : json.RoundTrips) (h : Followed start σ) (hσ : Coherent json σ)
    (action : ReplayAction) (hheld : action = .readEvents → σ.looked.isSome → σ.NextHeld) :
    Followed start (σ.step json policy action) := by
  have hsame : ∀ store ticks,
      Followed start { σ with store := store, ticks := ticks } := fun store ticks =>
    ⟨⟨h.delivered_eq, h.replayed, h.empty⟩, h.start_le, h.within⟩
  cases action with
  | publish projections =>
    have hlog : (σ.step json policy (.publish projections)).log =
        σ.log ++ logOf (σ.store.publish json projections).2 σ.cursor.streamId := logOf_append
    have hnumbered : Numbered (·.eventSeq) 1 (σ.step json policy (.publish projections)).log :=
      (hσ.step hjson (.publish projections)).consistent.numbered _
    refine ⟨⟨?_, h.replayed, h.empty⟩, h.start_le, ?_⟩
    · show σ.delivered = (σ.step json policy (.publish projections)).log.filter fun e =>
        decide (start < e.eventSeq) && decide (e.eventSeq ≤ σ.cursor.eventSeq)
      rw [hnumbered.filter_window, h.delivered_window hσ, hlog]
      rcases h.within with hwithin | hwithin
      · rw [hwithin, List.drop_eq_nil_of_le (List.length_take_le _ _),
          List.drop_eq_nil_of_le (List.length_take_le _ _)]
      · rw [List.take_append_of_le_length hwithin]
    · show σ.cursor.eventSeq = start ∨
        σ.cursor.eventSeq ≤ (σ.step json policy (.publish projections)).log.length
      rw [hlog, List.length_append]
      have hwithin := h.within
      omega
  | insertStream id kind projectId workspaceId sessionId => exact hsame _ σ.ticks
  | setLifecycle id lifecycle => exact hsame _ σ.ticks
  | startTick => exact hsame σ.store _
  | nextOfTick i =>
    unfold ReplaySystem.step
    dsimp only
    split
    · exact h
    · exact hsame _ _
  | lookup => exact h.lookup hσ
  | readEvents => exact h.readEvents hσ (hheld rfl)

/-! ### Reads that do not -/

/-- Some page did not go on where it was asked from. -/
def Gap (σ : ReplaySystem) : Prop :=
  ∃ a ∈ σ.answers, ∃ events highWater next, a.outcome = .replayed events highWater next ∧
    ¬ Numbered (·.eventSeq) (a.asked + 1) events

theorem Gap.not_faithful (h : Gap σ) : ¬ Faithful start σ := by
  obtain ⟨a, ha, events, highWater, next, houtcome, hnot⟩ := h
  intro hfaithful
  exact hnot (hfaithful.replayed a ha events highWater next houtcome).1

theorem Gap.answer (h : Gap σ) (outcome : ResumeOutcome) : Gap (σ.answer outcome) := by
  obtain ⟨a, ha, hgap⟩ := h
  exact ⟨a, List.mem_append_left _ ha, hgap⟩

theorem Gap.step (h : Gap σ) (action : ReplayAction) : Gap (σ.step json policy action) := by
  cases action with
  | publish projections => exact h
  | insertStream id kind projectId workspaceId sessionId => exact h
  | setLifecycle id lifecycle => exact h
  | startTick => exact h
  | nextOfTick i =>
    unfold ReplaySystem.step
    dsimp only
    split <;> exact h
  | lookup =>
    unfold ReplaySystem.step ReplaySystem.lookup
    dsimp only
    split
    · exact h
    · split
      · exact h.answer _
      · exact h
  | readEvents =>
    unfold ReplaySystem.step ReplaySystem.readEvents
    dsimp only
    split
    · exact h
    · exact h.answer _

theorem Gap.run (h : Gap σ) (actions : List ReplayAction) : Gap (σ.run json policy actions) := by
  induction actions generalizing σ with
  | nil => exact h
  | cons action actions ih => exact ih (h.step action)

/-- If the next event is not held, a read leaves a gap. -/
theorem gap_readEvents (hσ : Coherent json σ) (hlooked : σ.looked.isSome)
    (hnot : ¬ σ.NextHeld) : Gap (σ.readEvents json) := by
  obtain ⟨desc, hdesc⟩ := Option.isSome_iff_exists.mp hlooked
  obtain ⟨hbehind, hle⟩ := hσ.looking desc hdesc
  obtain ⟨lost, kept, hlog, hstored, hnumbered⟩ := hσ.consistent.rows σ.cursor.streamId
  rw [nextHeld_iff hlog hstored hnumbered (hbehind.trans_le hle), not_or] at hnot
  obtain ⟨hlost, hne⟩ := hnot
  have hzero : σ.cursor.eventSeq - lost.length = 0 := by omega
  unfold ReplaySystem.readEvents
  rw [hdesc]
  dsimp only
  obtain ⟨hnil, -⟩ | ⟨k, next, hpage, hread, -, -⟩ := resumeEvents_cases hstored hnumbered hbehind
  · rw [hzero] at hnil
    exact absurd hnil hne
  rw [hzero] at hread hpage
  rw [hread]
  refine ⟨_, List.mem_append_right _ (List.mem_singleton.mpr rfl), _, _, _, rfl, fun hcursor => ?_⟩
  have hbase := (hnumbered.take k).base_eq hcursor hpage
  dsimp only at hbase
  omega

/-! ### Runs -/

theorem Followed.run (hjson : json.RoundTrips) (h : Followed start σ) (hσ : Coherent json σ)
    (actions : List ReplayAction) (hheld : ReadsHeld json policy σ actions) :
    Followed start (σ.run json policy actions) := by
  induction actions generalizing σ with
  | nil => exact h
  | cons action actions ih =>
    exact ih (h.step hjson hσ action hheld.1) (hσ.step hjson action) hheld.2

theorem gap_run (hjson : json.RoundTrips) (hσ : Coherent json σ) (actions : List ReplayAction)
    (hnot : ¬ ReadsHeld json policy σ actions) : Gap (σ.run json policy actions) := by
  induction actions generalizing σ with
  | nil => exact absurd trivial hnot
  | cons action actions ih =>
    by_cases hheld : action = .readEvents → σ.looked.isSome → σ.NextHeld
    · exact ih (hσ.step hjson action) fun hrest => hnot ⟨hheld, hrest⟩
    · push Not at hheld
      obtain ⟨rfl, hlooked, hnext⟩ := hheld
      exact (gap_readEvents hσ hlooked hnext).run actions

/-- Whatever is published and pruned in between, a client that follows a stream is sent every
event after its first cursor exactly once and in order, up to date when it is told so, if and
only if no resume reads the events when the next one has been deleted and a later one has not. -/
theorem run_faithful_iff (hjson : json.RoundTrips) (policy : RetentionPolicy)
    (sub : ReplaySubscription) (cursor : ProjectionCursor) (actions : List ReplayAction) :
    Faithful cursor.eventSeq ((initial sub cursor).run json policy actions) ↔
      ReadsHeld json policy (initial sub cursor) actions := by
  constructor
  · intro h
    by_contra hnot
    exact (gap_run hjson (coherent_initial sub cursor) actions hnot).not_faithful h
  · intro hheld
    have hinitial : Followed cursor.eventSeq (initial sub cursor) :=
      ⟨⟨rfl, (fun _ ha => by cases ha), (fun _ ha => by cases ha)⟩, le_rfl, .inl rfl⟩
    exact (hinitial.run hjson (coherent_initial sub cursor) actions hheld).toFaithful

def sampleEvent (eventSeq : ℕ) : ProjectionEnvelope := sampleEnvelope eventSeq (.diagnostic "c" "m")

def sampleText (eventSeq : String) : String :=
  "\x7b\"protocol_version\":1,\"event_seq\":" ++ eventSeq ++
    ",\"timestamp_ms\":0,\"session_id\":\"s\",\"turn_id\":null,\"scope\":\"session\"," ++
    "\"payload\":\x7b\"kind\":\"diagnostic\",\"code\":\"c\",\"message\":\"m\"\x7d\x7d"

/-- The JSON library on three events. -/
def sampleJson : Json where
  encode
    | ⟨1, 1, 0, some "s", none, .session, .diagnostic "c" "m"⟩ => some (sampleText "1")
    | ⟨1, 2, 0, some "s", none, .session, .diagnostic "c" "m"⟩ => some (sampleText "2")
    | ⟨1, 3, 0, some "s", none, .session, .diagnostic "c" "m"⟩ => some (sampleText "3")
    | _ => none
  decode text :=
    if text = sampleText "1" then some (sampleEvent 1)
    else if text = sampleText "2" then some (sampleEvent 2)
    else if text = sampleText "3" then some (sampleEvent 3)
    else none

theorem sampleJson_roundTrips : sampleJson.RoundTrips := by
  have h21 : sampleText "2" ≠ sampleText "1" := by decide +kernel
  have h31 : sampleText "3" ≠ sampleText "1" := by decide +kernel
  have h32 : sampleText "3" ≠ sampleText "2" := by decide +kernel
  intro envelope text h
  simp only [sampleJson] at h
  split at h
  all_goals cases h
  · simp [sampleJson, sampleEvent, sampleEnvelope]
  · simp [sampleJson, if_neg h21, sampleEvent, sampleEnvelope]
  · simp [sampleJson, if_neg h31, if_neg h32, sampleEvent, sampleEnvelope]

/-- Two of three events are kept; the first is deleted between the reads of a resume. -/
def sampleActions : List ReplayAction :=
  [.insertStream "session-s" .session "p" (some "w") (some "s"),
    .publish [("session-s", sampleEvent 0), ("session-s", sampleEvent 0),
      ("session-s", sampleEvent 0)],
    .startTick, .nextOfTick 0, .lookup, .nextOfTick 0, .readEvents]

theorem sample_faithful_iff :
    Faithful 0 ((initial ⟨"session-s", 1⟩ ⟨"session-s", 0, 1⟩).run sampleJson ⟨2, 2⟩ sampleActions) ↔
      ReadsHeld sampleJson ⟨2, 2⟩ (initial ⟨"session-s", 1⟩ ⟨"session-s", 0, 1⟩) sampleActions :=
  run_faithful_iff sampleJson_roundTrips ⟨2, 2⟩ ⟨"session-s", 1⟩ ⟨"session-s", 0, 1⟩ sampleActions

/-- The client is sent the second and the third event as if there had been no first. -/
theorem resume_skips_pruned :
    ((initial ⟨"session-s", 1⟩ ⟨"session-s", 0, 1⟩).run sampleJson ⟨2, 2⟩
        sampleActions).delivered.map (·.eventSeq) = [2, 3] ∧
      ¬ Faithful 0
        ((initial ⟨"session-s", 1⟩ ⟨"session-s", 0, 1⟩).run sampleJson ⟨2, 2⟩ sampleActions) := by
  have hdelivered : ((initial ⟨"session-s", 1⟩ ⟨"session-s", 0, 1⟩).run sampleJson ⟨2, 2⟩
      sampleActions).delivered.map (·.eventSeq) = [2, 3] := by decide +kernel
  refine ⟨hdelivered, fun h => ?_⟩
  rw [h.delivered_eq] at hdelivered
  exact absurd hdelivered (by decide +kernel)

end ReplaySystem

end Codegg.Projection
