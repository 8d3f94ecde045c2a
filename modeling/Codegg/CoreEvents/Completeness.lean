import Mathlib.Data.List.Basic
import Codegg.CoreEvents.Log

/-!
# What a client that resumes is sent

The ring holds events that were published, and the database all that are stored of them. Both
are invariants of every run. What a replay leaves out is read off them.
-/
namespace Codegg.CoreEvents

open Codegg.Library EventLog CoreEventRow

variable {capacity : ℕ} {hasPool : Bool} {h h' : History}

variable {event envelope : Envelope} {log : EventLog} {rows : List CoreEventRow}
  {row : CoreEventRow} {before after : List (Envelope × Phase)} {fromEventSeq : ℕ}
  {filter : EventFilter}

section Invariant

/-- What the log knows of the events that were given a number. -/
structure Invariant (h : History) : Prop where
  numbered : Numbered Envelope.eventSeq 1 h.published
  next : h.log.nextSeq = h.published.length + 1
  publishing : ∀ p ∈ h.log.publishing, p.1 ∈ h.published
  ring : ∀ event ∈ h.log.ring, event ∈ h.published
  stored : ∀ rows ∈ h.log.rows, ∀ row ∈ rows, ∃ event ∈ h.published,
    persists event = true ∧ event.row = row
  distinct : ∀ rows ∈ h.log.rows, (rows.map eventSeq).Nodup
  inserted : ∀ rows ∈ h.log.rows, ∀ event ∈ h.published, persists event = true →
    event.row ∈ rows ∨ (event, Phase.sequenced) ∈ h.log.publishing ∨
      (event, Phase.pushed) ∈ h.log.publishing

theorem invariant_new : Invariant ⟨.new capacity hasPool, []⟩ := by
  constructor <;> simp [EventLog.new]

/-- The number of a published event belongs to no other. -/
theorem Invariant.eq_of_eventSeq (hinv : Invariant h) {event' : Envelope} (he : event ∈ h.published)
    (he' : event' ∈ h.published) (hseq : event.eventSeq = event'.eventSeq) : event = event' := by
  have hnodup : (h.published.map Envelope.eventSeq).Nodup := by
    rw [hinv.numbered]
    exact List.nodup_range'
  exact List.inj_on_of_nodup_map hnodup he he' hseq

theorem Invariant.eq_of_row (hinv : Invariant h) {event' : Envelope} (he : event ∈ h.published)
    (he' : event' ∈ h.published) (hrow : event.row = event'.row) : event = event' :=
  hinv.eq_of_eventSeq he he' (congrArg eventSeq hrow)

theorem mem_pushRing (hmem : event ∈ log.pushRing envelope) :
    event ∈ log.ring ∨ event = envelope := by
  unfold pushRing at hmem
  rw [List.mem_append, List.mem_singleton] at hmem
  refine hmem.imp_left fun hring => ?_
  split_ifs at hring
  · exact List.mem_of_mem_tail hring
  · exact hring

theorem nodup_insertRow (hnodup : (rows.map eventSeq).Nodup) :
    ((insertRow rows row).map eventSeq).Nodup := by
  unfold insertRow
  split_ifs with hmem
  · exact hnodup
  · rw [List.map_append]
    exact hnodup.append (List.nodup_singleton _) (by simpa using hmem)

theorem mem_insertRow {row' : CoreEventRow} (hmem : row' ∈ insertRow rows row) :
    row' ∈ rows ∨ row' = row := by
  unfold insertRow at hmem
  split_ifs at hmem
  · exact .inl hmem
  · simpa using hmem

theorem subset_insertRow {rows : List CoreEventRow} {row row' : CoreEventRow}
    (hmem : row' ∈ rows) : row' ∈ insertRow rows row := by
  unfold insertRow
  split_ifs
  · exact hmem
  · simp [hmem]

/-- A row that is ignored is there already. -/
theorem Invariant.row_mem_insertRow (hinv : Invariant h) (hrows : h.log.rows = some rows)
    (henv : envelope ∈ h.published) :
    envelope.row ∈ insertRow rows envelope.row := by
  unfold insertRow
  split_ifs with hmem
  · obtain ⟨row, hrow, hseq⟩ := List.mem_map.mp hmem
    obtain ⟨event, hevent, -, rfl⟩ := hinv.stored rows hrows row hrow
    rw [← hinv.eq_of_eventSeq hevent henv hseq]
    exact hrow
  · simp

theorem Invariant.fetchSeq (hinv : Invariant h) (timestampMs : ℤ)
    (sessionId turnId : Option String) (payload : CoreEvent) :
    Invariant ⟨(h.log.fetchSeq timestampMs sessionId turnId payload).2,
      h.published ++ [(h.log.fetchSeq timestampMs sessionId turnId payload).1]⟩ where
  numbered := by
    refine numbered_append.mpr ⟨hinv.numbered, ?_⟩
    simp [numbered_cons, EventLog.fetchSeq, hinv.next, Nat.add_comm]
  next := by simp [EventLog.fetchSeq, hinv.next]
  publishing p hp := by
    rcases List.mem_append.mp hp with hp | hp
    · exact List.mem_append_left _ (hinv.publishing p hp)
    · obtain rfl := List.mem_singleton.mp hp
      simp [EventLog.fetchSeq]
  ring event hevent := List.mem_append_left _ (hinv.ring event hevent)
  stored rows hrows row hrow := by
    obtain ⟨event, hevent, hstored⟩ := hinv.stored rows hrows row hrow
    exact ⟨event, List.mem_append_left _ hevent, hstored⟩
  distinct := hinv.distinct
  inserted rows hrows event hevent hpersists := by
    rcases List.mem_append.mp hevent with hevent | hevent
    · rcases hinv.inserted rows hrows event hevent hpersists with hrow | hseq | hpushed
      · exact .inl hrow
      · exact .inr (.inl (List.mem_append_left _ hseq))
      · exact .inr (.inr (List.mem_append_left _ hpushed))
    · obtain rfl := List.mem_singleton.mp hevent
      exact .inr (.inl (by simp [EventLog.fetchSeq]))

theorem Invariant.push (hinv : Invariant h)
    (hat : h.log.publishing = before ++ (envelope, .sequenced) :: after) :
    Invariant { h with log := { h.log with
      ring := h.log.pushRing envelope
      publishing := before ++ (envelope, .pushed) :: after } } where
  numbered := hinv.numbered
  next := hinv.next
  publishing p hp := by
    have hpub := hinv.publishing
    simp only [hat, List.mem_append, List.mem_cons] at hpub hp
    rcases hp with hp | rfl | hp
    · exact hpub p (.inl hp)
    · exact hpub (envelope, .sequenced) (.inr (.inl rfl))
    · exact hpub p (.inr (.inr hp))
  ring event hevent := by
    rcases mem_pushRing hevent with hring | rfl
    · exact hinv.ring event hring
    · exact hinv.publishing (event, .sequenced) (by simp [hat])
  stored := hinv.stored
  distinct := hinv.distinct
  inserted rows hrows event hevent hpersists := by
    have hcases := hinv.inserted rows hrows event hevent hpersists
    simp only [hat, List.mem_append, List.mem_cons, Prod.mk.injEq] at hcases ⊢
    tauto

theorem Invariant.insert (hinv : Invariant h)
    (hat : h.log.publishing = before ++ (envelope, .pushed) :: after) :
    Invariant { h with log := { h.log with
      rows := h.log.persist envelope
      publishing := before ++ (envelope, .inserted) :: after } } := by
  have henv : envelope ∈ h.published := hinv.publishing (envelope, .pushed) (by simp [hat])
  refine ⟨hinv.numbered, hinv.next, ?_, hinv.ring, ?_, ?_, ?_⟩
  · intro p hp
    have hpub := hinv.publishing
    simp only [hat, List.mem_append, List.mem_cons] at hpub hp
    rcases hp with hp | rfl | hp
    · exact hpub p (.inl hp)
    · exact henv
    · exact hpub p (.inr (.inr hp))
  · intro rows hrows row hrow
    dsimp only [persist] at hrows
    split_ifs at hrows with hpersists
    · obtain ⟨rows₀, hrows₀, rfl⟩ := Option.map_eq_some_iff.mp hrows
      rcases mem_insertRow hrow with hrow | rfl
      · exact hinv.stored rows₀ hrows₀ row hrow
      · exact ⟨envelope, henv, hpersists, rfl⟩
    · exact hinv.stored rows hrows row hrow
  · intro rows hrows
    dsimp only [persist] at hrows
    split_ifs at hrows with hpersists
    · obtain ⟨rows₀, hrows₀, rfl⟩ := Option.map_eq_some_iff.mp hrows
      exact nodup_insertRow (hinv.distinct rows₀ hrows₀)
    · exact hinv.distinct rows hrows
  · intro rows hrows event hevent hpers
    dsimp only [persist] at hrows
    by_cases heq : event = envelope
    · subst heq
      rw [if_pos hpers] at hrows
      obtain ⟨rows₀, hrows₀, rfl⟩ := Option.map_eq_some_iff.mp hrows
      exact .inl (hinv.row_mem_insertRow hrows₀ hevent)
    · split_ifs at hrows with hpersists
      · obtain ⟨rows₀, hrows₀, rfl⟩ := Option.map_eq_some_iff.mp hrows
        have hcases := hinv.inserted rows₀ hrows₀ event hevent hpers
        have hkeep := @subset_insertRow rows₀ envelope.row event.row
        simp only [hat, List.mem_append, List.mem_cons, Prod.mk.injEq] at hcases ⊢
        tauto
      · have hcases := hinv.inserted rows hrows event hevent hpers
        simp only [hat, List.mem_append, List.mem_cons, Prod.mk.injEq, reduceCtorEq] at hcases ⊢
        tauto

theorem Invariant.send (hinv : Invariant h)
    (hat : h.log.publishing = before ++ (envelope, .inserted) :: after) :
    Invariant { h with log := { h.log with publishing := before ++ after } } where
  numbered := hinv.numbered
  next := hinv.next
  publishing p hp := by
    refine hinv.publishing p ?_
    simp only [hat, List.mem_append, List.mem_cons] at hp ⊢
    tauto
  ring := hinv.ring
  stored := hinv.stored
  distinct := hinv.distinct
  inserted rows hrows event hevent hpersists := by
    have hcases := hinv.inserted rows hrows event hevent hpersists
    simp only [hat, List.mem_append, List.mem_cons, Prod.mk.injEq, reduceCtorEq, and_false] at hcases ⊢
    tauto

theorem Invariant.step (hinv : Invariant h) (hstep : Step h h') : Invariant h' := by
  cases hstep with
  | fetchSeq timestampMs sessionId turnId payload =>
    exact hinv.fetchSeq timestampMs sessionId turnId payload
  | push before after envelope hat => exact hinv.push hat
  | insert before after envelope hat => exact hinv.insert hat
  | send before after envelope hat => exact hinv.send hat

theorem Reachable.invariant (hreach : Reachable capacity hasPool h) : Invariant h := by
  induction hreach with
  | new => exact invariant_new
  | step _ hstep ih => exact ih.step hstep

end Invariant

section Replay

/-- An event that a client has not seen and is to get. -/
def Missed (h : History) (fromEventSeq : ℕ) (filter : EventFilter) (event : Envelope) : Prop :=
  event ∈ h.published ∧ fromEventSeq < event.eventSeq ∧ eventMatchesFilter filter event = true

/-- A replay has each event that was missed, once and in order. Events are compared without the
time. -/
structure ReplaysExactly (h : History) (fromEventSeq : ℕ) (filter : EventFilter)
    (replay : List Envelope) : Prop where
  increasing : replay.Pairwise fun event event' => event.eventSeq < event'.eventSeq
  exact : ∀ row, row ∈ replay.map Envelope.row ↔
    ∃ event, Missed h fromEventSeq filter event ∧ event.row = row

/-- There is no database, or the first event of the ring that the filter lets through is the
next. -/
def EventLog.answersFromRing (log : EventLog) (fromEventSeq : ℕ) (filter : EventFilter) : Bool :=
  log.rows.isNone || (log.ringEvents fromEventSeq filter).head?.any fun first =>
    first.eventSeq ≤ saturatingSucc fromEventSeq

/-- The events that were missed were pushed in order, and are in the ring yet. -/
structure HeldInOrder (h : History) (fromEventSeq : ℕ) (filter : EventFilter) : Prop where
  held : ∀ event, Missed h fromEventSeq filter event → event ∈ h.log.ring
  increasing : (h.log.ringEvents fromEventSeq filter).Pairwise
    fun event event' => event.eventSeq < event'.eventSeq

/-- The store that answers has what was missed. -/
def Retained (h : History) (fromEventSeq : ℕ) (filter : EventFilter) : Prop :=
  if h.log.answersFromRing fromEventSeq filter then HeldInOrder h fromEventSeq filter
  else ∀ event, Missed h fromEventSeq filter event → persists event = true

theorem replayFrom_ring (hring : log.answersFromRing fromEventSeq filter = true) :
    log.replayFrom fromEventSeq filter = log.ringEvents fromEventSeq filter := by
  unfold answersFromRing at hring
  unfold replayFrom
  dsimp only
  split_ifs with hfirst
  · rfl
  · have hnone : log.rows = none := by simpa [hfirst] using hring
    rw [hnone]

theorem replayFrom_db (hring : log.answersFromRing fromEventSeq filter = false) :
    ∃ rows, log.rows = some rows ∧
      log.replayFrom fromEventSeq filter = replayFromDb rows fromEventSeq filter := by
  unfold answersFromRing at hring
  rw [Bool.or_eq_false_iff] at hring
  obtain ⟨rows, hrows⟩ : ∃ rows, log.rows = some rows := by
    simpa [Option.isSome_iff_exists] using hring.1
  refine ⟨rows, hrows, ?_⟩
  unfold replayFrom
  rw [if_neg (by simp [hring.2]), hrows]

theorem mem_selectRows {selects : CoreEventRow → Bool} :
    row ∈ selectRows rows selects ↔ row ∈ rows ∧ selects row = true := by
  unfold selectRows
  rw [List.mem_insertionSort, List.mem_filter]

/-- Rows with different numbers are selected in strictly increasing order. -/
theorem selectRows_increasing (selects : CoreEventRow → Bool)
    (hdistinct : (rows.map eventSeq).Nodup) :
    (selectRows rows selects).Pairwise fun row row' => row.eventSeq < row'.eventSeq := by
  have hsorted : (selectRows rows selects).Pairwise
      fun row row' => row.eventSeq ≤ row'.eventSeq := List.pairwise_insertionSort _ _
  have hnodup : ((selectRows rows selects).map eventSeq).Nodup := by
    have hperm := (List.perm_insertionSort (fun r r' : CoreEventRow => r.eventSeq ≤ r'.eventSeq)
      (rows.filter selects)).map eventSeq
    exact hperm.nodup_iff.mpr (hdistinct.sublist (List.filter_sublist.map _))
  rw [List.nodup_iff_pairwise_ne, List.pairwise_map] at hnodup
  exact (hsorted.and hnodup).imp fun h => lt_of_le_of_ne h.1 h.2

/-- What the database answers, by what is in it. -/
theorem mem_replayFromDb :
    row ∈ (replayFromDb rows fromEventSeq filter).map Envelope.row ↔
      fromEventSeq < 2 ^ 63 ∧ row ∈ rows ∧ fromEventSeq < row.eventSeq ∧
        eventMatchesFilter filter row.envelope = true := by
  unfold replayFromDb
  split_ifs with hlt
  · simp only [List.mem_map, List.mem_filter, mem_selectRows, Bool.and_eq_true, decide_eq_true_eq]
    constructor
    · rintro ⟨_, ⟨⟨row', ⟨hrow, hseq, hmatch⟩, rfl⟩, -⟩, rfl⟩
      exact ⟨hlt, hrow, hseq, hmatch⟩
    · rintro ⟨-, hrow, hseq, hmatch⟩
      exact ⟨row.envelope, ⟨⟨row, ⟨hrow, hseq, hmatch⟩, rfl⟩, hmatch⟩, rfl⟩
  · simp only [List.map_nil, List.not_mem_nil, hlt, false_and]

theorem replayFromDb_increasing (fromEventSeq : ℕ) (filter : EventFilter)
    (hdistinct : (rows.map eventSeq).Nodup) :
    (replayFromDb rows fromEventSeq filter).Pairwise
      fun event event' => event.eventSeq < event'.eventSeq := by
  unfold replayFromDb
  split_ifs
  · refine List.Pairwise.filter _ (List.pairwise_map.mpr ?_)
    exact selectRows_increasing _ hdistinct
  · exact .nil

/-- Without a publisher under way the database has every event that is stored. -/
theorem Invariant.mem_rows (hinv : Invariant h) (hquiet : h.log.publishing = [])
    (hrows : h.log.rows = some rows) (hevent : event ∈ h.published) :
    event.row ∈ rows ↔ persists event = true := by
  constructor
  · intro hrow
    obtain ⟨event', hevent', hpersists, heq⟩ := hinv.stored rows hrows _ hrow
    rwa [← hinv.eq_of_row hevent' hevent heq]
  · intro hpersists
    simpa [hquiet] using hinv.inserted rows hrows event hevent hpersists

/-- A publisher that is not interrupted. -/
def History.publish (h : History) (timestampMs : ℤ) (sessionId turnId : Option String)
    (payload : CoreEvent) : History :=
  let envelope := (h.log.fetchSeq timestampMs sessionId turnId payload).1
  { log := { h.log with
      nextSeq := h.log.nextSeq + 1
      ring := h.log.pushRing envelope
      rows := h.log.persist envelope }
    published := h.published ++ [envelope] }

theorem Reachable.publish (hreach : Reachable capacity hasPool h) (hquiet : h.log.publishing = [])
    (timestampMs : ℤ) (sessionId turnId : Option String) (payload : CoreEvent) :
    Reachable capacity hasPool (h.publish timestampMs sessionId turnId payload) := by
  obtain ⟨⟨capacity', nextSeq, ring, rows, publishing⟩, published⟩ := h
  subst hquiet
  have hfetched := hreach.step (.fetchSeq _ timestampMs sessionId turnId payload)
  have hpushed := hfetched.step (.push _ [] [] _ rfl)
  have hinserted := hpushed.step (.insert _ [] [] _ rfl)
  exact hinserted.step (.send _ [] [] _ rfl)

/-- A turn of one session, and a delta of another that is not stored. -/
def deltaBehindTurn : History :=
  ((History.mk (.new 8 true) []).publish 0 (some "a") none ⟨.turnStarted, "t"⟩).publish 1
    (some "b") none ⟨.other "turn_text_delta", "d"⟩

theorem reachable_deltaBehindTurn : Reachable 8 true deltaBehindTurn :=
  (Reachable.new.publish rfl 0 (some "a") none ⟨.turnStarted, "t"⟩).publish rfl 1 (some "b") none
    ⟨.other "turn_text_delta", "d"⟩

end Replay

end Codegg.CoreEvents
