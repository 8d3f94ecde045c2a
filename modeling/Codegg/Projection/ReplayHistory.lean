import Codegg.Projection.ReplayStore
import Codegg.Library.Numbered

/-!
# What a stream still holds of its history

The rows of a stream are what pruning has left of the events that were published in it, which
are numbered from 1: some first events are lost, all others kept. Publication, pruning and
the other writes keep it so.
-/
namespace Codegg.Projection

open Codegg.Library ProjectionReplayStore ProjectionStream

/-- The rows are those written for the events. -/
def Stored (json : Json) (rows : List ProjectionReplayRow) (events : List ProjectionEnvelope) :
    Prop :=
  (rows.map fun r => (r.eventSeq, json.decode r.payloadJson)) =
    events.map fun e => (e.eventSeq, some e)

section

variable {json : Json} {rows rows' : List ProjectionReplayRow}
  {events events' : List ProjectionEnvelope} {n : ℕ}

theorem stored_nil : Stored json [] [] := rfl

theorem Stored.append (h : Stored json rows events) (h' : Stored json rows' events') :
    Stored json (rows ++ rows') (events ++ events') := by
  unfold Stored at *
  rw [List.map_append, List.map_append, h, h']

theorem Stored.take (h : Stored json rows events) (k : ℕ) :
    Stored json (rows.take k) (events.take k) := by
  unfold Stored at *
  rw [List.map_take, List.map_take, h]

/-- Rows that are chosen by their numbers are the rows of the events so chosen. -/
theorem Stored.filter (h : Stored json rows events) (p : ℕ → Bool) :
    Stored json (rows.filter fun r => p r.eventSeq) (events.filter fun e => p e.eventSeq) := by
  have hrows := List.filter_map (p := fun x : ℕ × Option ProjectionEnvelope => p x.1)
    (f := fun r : ProjectionReplayRow => (r.eventSeq, json.decode r.payloadJson)) (l := rows)
  have hevents := List.filter_map (p := fun x : ℕ × Option ProjectionEnvelope => p x.1)
    (f := fun e : ProjectionEnvelope => (e.eventSeq, some e)) (l := events)
  rw [h, hevents] at hrows
  exact hrows.symm

theorem Stored.eventSeqs (h : Stored json rows events) :
    rows.map (·.eventSeq) = events.map (·.eventSeq) := by
  have hfst := congrArg (List.map Prod.fst) h
  simpa [Function.comp_def] using hfst

theorem Stored.decoded (h : Stored json rows events) :
    (rows.filterMap fun r => json.decode r.payloadJson) = events := by
  have hsnd := congrArg (List.filterMap Prod.snd) h
  simpa [List.filterMap_map] using hsnd

theorem Stored.length_eq (h : Stored json rows events) : rows.length = events.length := by
  have hlength := congrArg List.length h
  simpa using hlength

/-- A row has some number exactly if an event has. -/
theorem Stored.exists_iff (h : Stored json rows events) (P : ℕ → Prop) :
    (∃ r ∈ rows, P r.eventSeq) ↔ ∃ e ∈ events, P e.eventSeq := by
  have hrows : (∃ n ∈ rows.map (·.eventSeq), P n) ↔ ∃ r ∈ rows, P r.eventSeq := by simp
  have hevents : (∃ n ∈ events.map (·.eventSeq), P n) ↔ ∃ e ∈ events, P e.eventSeq := by simp
  rw [← hrows, ← hevents, h.eventSeqs]

/-! ### Pages -/

/-- A page is the beginning of what is read, with at least its first row. -/
theorem pageRows_eq_take (maxBytes totalBytes : ℕ) (result rows : List ProjectionReplayRow) :
    ∃ k, pageRows maxBytes totalBytes result rows = result ++ rows.take k ∧
      (result = [] → rows ≠ [] → 0 < k) := by
  induction rows generalizing totalBytes result with
  | nil => exact ⟨0, by simp [pageRows], fun _ h => absurd rfl h⟩
  | cons row rows ih =>
    unfold pageRows
    by_cases hfull : totalBytes + row.payloadBytes > maxBytes ∧ !result.isEmpty
    · refine ⟨0, by simp [hfull], fun hresult => ?_⟩
      simp [hresult] at hfull
    · obtain ⟨k, hk, -⟩ := ih (totalBytes + row.payloadBytes) (result ++ [row])
      refine ⟨k + 1, ?_, fun _ _ => Nat.succ_pos k⟩
      simp only [if_neg hfull, hk, List.take_succ_cons, List.append_assoc, List.singleton_append]

theorem limitRows_eq_take (maxCount : ℕ) (rows : List ProjectionReplayRow) :
    ∃ k, limitRows maxCount rows = rows.take k ∧
      (0 < maxCount → rows ≠ [] → 0 < k) := by
  unfold limitRows
  split
  · exact ⟨maxCount, rfl, fun h _ => h⟩
  · refine ⟨rows.length, List.take_length.symm, fun _ hne => ?_⟩
    exact List.length_pos_of_ne_nil hne

end

/-! ### The history of a stream -/

/-- A stream in which the logged events have been published: it holds the last of them. -/
structure Kept (json : Json) (log : List ProjectionEnvelope) (st : ProjectionStream) : Prop where
  numbered : Numbered (·.eventSeq) 1 log
  nextSeq : st.nextSeq = log.length + 1
  highWater : st.descriptor.highWaterSeq = log.length
  suffix : ∃ lost kept, log = lost ++ kept ∧ Stored json st.events kept

namespace Kept

variable {json : Json} {log lost kept : List ProjectionEnvelope} {st : ProjectionStream}
  {n : ℕ}

theorem numbered_kept (h : Kept json log st) (hlog : log = lost ++ kept) :
    Numbered (·.eventSeq) (lost.length + 1) kept := by
  have hnumbered := h.numbered
  rw [hlog, numbered_append, Nat.add_comm 1] at hnumbered
  exact hnumbered.2

/-- An update of other columns. -/
theorem of_eq {st' : ProjectionStream} (h : Kept json log st) (hnext : st'.nextSeq = st.nextSeq)
    (hhigh : st'.descriptor.highWaterSeq = st.descriptor.highWaterSeq)
    (hevents : st'.events = st.events) : Kept json log st' where
  numbered := h.numbered
  nextSeq := hnext.trans h.nextSeq
  highWater := hhigh.trans h.highWater
  suffix := hevents ▸ h.suffix

theorem deleteBefore (h : Kept json log st) (f : ℕ) :
    Kept json log { st with events := st.events.filter fun r => !decide (r.eventSeq < f) } where
  numbered := h.numbered
  nextSeq := h.nextSeq
  highWater := h.highWater
  suffix := by
    obtain ⟨lost, kept, hlog, hstored⟩ := h.suffix
    have hfilter : kept.filter (fun e => !decide (e.eventSeq < f)) =
        kept.drop (f - (lost.length + 1)) := by
      rw [← (h.numbered_kept hlog).filter_le f]
      simp [← decide_not]
    refine ⟨lost ++ kept.take (f - (lost.length + 1)), kept.drop (f - (lost.length + 1)), ?_, ?_⟩
    · rw [List.append_assoc, List.take_append_drop]
      exact hlog
    · rw [← hfilter]
      exact hstored.filter fun n => !decide (n < f)

/-- The next event of a stream. -/
theorem persist (h : Kept json log st) {envelope : ProjectionEnvelope} {text : String}
    {bytes : ℕ} {st' : ProjectionStream} (hseq : envelope.eventSeq = st.nextSeq)
    (hdecode : json.decode text = some envelope)
    (hrow : insertRow { st with nextSeq := st.nextSeq + 1 }
      ⟨st.nextSeq, text, bytes⟩ = some st') :
    Kept json (log ++ [envelope])
      { st' with descriptor := { st'.descriptor with highWaterSeq := st.nextSeq } } := by
  obtain ⟨lost, kept, hlog, hstored⟩ := h.suffix
  have hlength : log.length = lost.length + kept.length := by rw [hlog, List.length_append]
  have hnumber := h.nextSeq
  have hbelow : ∀ r ∈ st.events, r.eventSeq < st.nextSeq := by
    intro r hr
    obtain ⟨e, he, hre⟩ := (hstored.exists_iff (· = r.eventSeq)).mp ⟨r, hr, rfl⟩
    have hlt := ((h.numbered_kept hlog).mem_range he).2
    omega
  have hst' : st' =
      { st with
        nextSeq := st.nextSeq + 1
        events := st.events ++ [⟨st.nextSeq, text, bytes⟩] } := by
    have hall : st.events.filter (fun r => decide (r.eventSeq < st.nextSeq)) = st.events :=
      List.filter_eq_self.mpr fun r hr => decide_eq_true (hbelow r hr)
    have hnone : st.events.filter (fun r => decide (st.nextSeq < r.eventSeq)) = [] := by
      refine List.filter_eq_nil_iff.mpr fun r hr => ?_
      have hlt := hbelow r hr
      simp only [decide_eq_true_eq]
      omega
    unfold insertRow at hrow
    split at hrow
    · cases hrow
    · cases hrow
      rw [hall, hnone]
  subst hst'
  exact {
    numbered := by
      refine numbered_append.mpr ⟨h.numbered, numbered_cons.mpr ⟨?_, numbered_nil⟩⟩
      omega
    nextSeq := by
      rw [List.length_append, h.nextSeq]
      rfl
    highWater := by
      rw [List.length_append, h.nextSeq]
      rfl
    suffix := by
      refine ⟨lost, kept ++ [envelope], by rw [hlog, List.append_assoc], hstored.append ?_⟩
      simp [Stored, hdecode, hseq] }

end Kept

/-! ### The history of a store -/

/-- The events published in one stream. -/
def logOf (published : List (ProjectionStreamId × ProjectionEnvelope)) (id : ProjectionStreamId) :
    List ProjectionEnvelope :=
  (published.filter fun p => decide (p.1 = id)).map (·.2)

section

variable {published published' : List (ProjectionStreamId × ProjectionEnvelope)}
  {id : ProjectionStreamId} {e : ProjectionEnvelope}

theorem mem_logOf : e ∈ logOf published id ↔ (id, e) ∈ published := by
  simp [logOf]

theorem logOf_append :
    logOf (published ++ published') id = logOf published id ++ logOf published' id := by
  simp [logOf]

theorem logOf_singleton (id id' : ProjectionStreamId) (e : ProjectionEnvelope) :
    logOf [(id', e)] id = if id = id' then [e] else [] := by
  by_cases hid : id = id'
  · simp [logOf, hid]
  · simp [logOf, hid, Ne.symm hid]

end

/-- What persisting an event has read and written. -/
theorem persistEvent_eq_some {json : Json} {s s' : ProjectionReplayStore} {id : ProjectionStreamId}
    {projection envelope : ProjectionEnvelope}
    (h : s.persistEvent json id projection = some (s', envelope)) :
    ∃ st text st', s.stream id = some st ∧
      envelope = { projection with eventSeq := st.nextSeq } ∧
      json.encode envelope = some text ∧
      insertRow { st with nextSeq := st.nextSeq + 1 }
        ⟨st.nextSeq, text, text.utf8ByteSize⟩ = some st' ∧
      ∀ id', s'.stream id' =
        if id' = id then
          some { st' with descriptor := { st'.descriptor with highWaterSeq := st.nextSeq } }
        else s.stream id' := by
  unfold persistEvent nextEventSeqTx
    insertEventTx at h
  cases hst : s.stream id with
  | none => simp [hst] at h
  | some st =>
    cases htext : json.encode { projection with eventSeq := st.nextSeq } with
    | none => simp [hst, htext] at h
    | some text =>
      cases hrow : insertRow { st with nextSeq := st.nextSeq + 1 }
          ⟨st.nextSeq, text, text.utf8ByteSize⟩ with
      | none => simp [stream_update, hst, htext, hrow] at h
      | some st' =>
        have hresult : ((s.update id fun st => { st with nextSeq := st.nextSeq + 1 }).update id
            fun _ => st').updateHighWaterTx id st.nextSeq = s' ∧
              { projection with eventSeq := st.nextSeq } = envelope := by
          simpa [stream_update, hst, htext, hrow] using h
        obtain ⟨rfl, rfl⟩ := hresult
        refine ⟨st, text, st', rfl, rfl, htext, hrow, fun id' => ?_⟩
        unfold updateHighWaterTx
        by_cases hid : id' = id
        · simp [stream_update, hid, hst]
        · simp [stream_update, hid]

/-- Every stream of a store holds what is left of its history. -/
structure Consistent (json : Json) (s : ProjectionReplayStore)
    (published : List (ProjectionStreamId × ProjectionEnvelope)) : Prop where
  kept : ∀ id st, s.stream id = some st → Kept json (logOf published id) st
  absent : ∀ id, s.stream id = none → logOf published id = []

attribute [local simp] logOf ProjectionReplayStore.stream_update ProjectionReplayStore.persistEvents

namespace Consistent

variable {json : Json} {s s' : ProjectionReplayStore} {id : ProjectionStreamId}
  {published : List (ProjectionStreamId × ProjectionEnvelope)}

theorem empty : Consistent json .empty [] where
  kept := fun _ _ h => by cases h
  absent := fun _ _ => rfl

theorem numbered (h : Consistent json s published) (id : ProjectionStreamId) :
    Numbered (·.eventSeq) 1 (logOf published id) := by
  cases hst : s.stream id with
  | none =>
    rw [h.absent id hst]
    exact numbered_nil
  | some st => exact (h.kept id st hst).numbered

theorem rows (h : Consistent json s published) (id : ProjectionStreamId) :
    ∃ lost kept, logOf published id = lost ++ kept ∧ Stored json (s.rows id) kept ∧
      Numbered (·.eventSeq) (lost.length + 1) kept := by
  unfold ProjectionReplayStore.rows
  cases hst : s.stream id with
  | none => exact ⟨[], [], h.absent id hst, stored_nil, numbered_nil⟩
  | some st =>
    have hkept := h.kept id st hst
    obtain ⟨lost, kept, hlog, hstored⟩ := hkept.suffix
    exact ⟨lost, kept, hlog, hstored, hkept.numbered_kept hlog⟩

/-- A write to one stream that keeps its history. -/
theorem update {f : ProjectionStream → ProjectionStream} (h : Consistent json s published)
    (hf : ∀ log st, Kept json log st → Kept json log (f st)) :
    Consistent json (s.update id f) published where
  kept := by
    intro id' st hst
    rw [stream_update] at hst
    split at hst
    · next hid =>
      obtain ⟨old, hold, rfl⟩ := Option.map_eq_some_iff.mp hst
      exact hid ▸ hf _ old (h.kept id old hold)
    · exact h.kept id' st hst
  absent := by
    intro id' hst
    rw [stream_update] at hst
    split at hst
    · next hid => exact hid ▸ h.absent id (Option.map_eq_none_iff.mp hst)
    · exact h.absent id' hst

theorem setLifecycle (h : Consistent json s published) (lifecycle : StreamLifecycle) :
    Consistent json (s.setLifecycle id lifecycle) published :=
  h.update fun _ _ hst => hst.of_eq rfl rfl rfl

theorem setRetentionFloor (h : Consistent json s published) (f : ℕ) :
    Consistent json (s.setRetentionFloor id f) published :=
  h.update fun _ _ hst => hst.of_eq rfl rfl rfl

theorem deleteBefore (h : Consistent json s published) (f : ℕ) :
    Consistent json (s.deleteBefore id f) published :=
  h.update fun _ _ hst => hst.deleteBefore f

theorem insertStream (h : Consistent json s published) (kind : ProjectionStreamKind)
    (projectId : String) (workspaceId sessionId : Option String) :
    Consistent json (s.insertStream id kind projectId workspaceId sessionId) published := by
  unfold ProjectionReplayStore.insertStream
  cases hst : s.stream id with
  | some st => exact h
  | none =>
    have hlog := h.absent id hst
    constructor
    · intro id' st' hst'
      unfold stream at hst'
      rw [SortedMap.get?_insert] at hst'
      split at hst'
      · next hid =>
        cases hst'
        rw [hid, hlog]
        exact ⟨numbered_nil, rfl, rfl, [], [], rfl, stored_nil⟩
      · exact h.kept id' st' hst'
    · intro id' hst'
      unfold stream at hst'
      rw [SortedMap.get?_insert] at hst'
      split at hst'
      · cases hst'
      · exact h.absent id' hst'

/-- An event that is persisted is the next of its stream. -/
theorem persistEvent (hjson : json.RoundTrips) (h : Consistent json s published)
    {projection envelope : ProjectionEnvelope}
    (hpersist : s.persistEvent json id projection = some (s', envelope)) :
    Consistent json s' (published ++ [(id, envelope)]) := by
  obtain ⟨st, text, st', hst, henvelope, htext, hrow, hstreams⟩ := persistEvent_eq_some hpersist
  have hpersisted := (h.kept id st hst).persist (congrArg (·.eventSeq) henvelope)
    (hjson envelope text htext) hrow
  constructor
  · intro id' other hother
    rw [hstreams] at hother
    rw [logOf_append, logOf_singleton]
    split at hother
    · next hid =>
      cases hother
      rw [if_pos hid, hid]
      exact hpersisted
    · next hid =>
      rw [if_neg hid, List.append_nil]
      exact h.kept id' other hother
  · intro id' hother
    rw [hstreams] at hother
    rw [logOf_append, logOf_singleton]
    split at hother
    · cases hother
    · next hid =>
      rw [if_neg hid, List.append_nil]
      exact h.absent id' hother

theorem persistEvents (hjson : json.RoundTrips) (h : Consistent json s published)
    (projections : List (ProjectionStreamId × ProjectionEnvelope))
    {persisted : List (ProjectionStreamId × ProjectionEnvelope)}
    (hpersist : s.persistEvents json projections = some (s', persisted)) :
    Consistent json s' (published ++ persisted) := by
  induction projections generalizing s published persisted with
  | nil =>
    cases hpersist
    rw [List.append_nil]
    exact h
  | cons p projections ih =>
    obtain ⟨id, projection⟩ := p
    cases hone : s.persistEvent json id projection with
    | none => simp [hone] at hpersist
    | some one =>
      obtain ⟨s₁, envelope⟩ := one
      cases hothers : s₁.persistEvents json projections with
      | none => simp [hone, hothers] at hpersist
      | some others =>
        obtain ⟨s₂, rest⟩ := others
        have hresult : s₂ = s' ∧ (id, envelope) :: rest = persisted := by
          simpa [hone, hothers] using hpersist
        obtain ⟨rfl, rfl⟩ := hresult
        have hconsistent := ih (h.persistEvent hjson hone) hothers
        rw [List.append_assoc] at hconsistent
        exact hconsistent

/-- A publication, whether it commits or is rolled back. -/
theorem publish (hjson : json.RoundTrips) (h : Consistent json s published)
    (projections : List (ProjectionStreamId × ProjectionEnvelope)) :
    Consistent json (s.publish json projections).1
      (published ++ (s.publish json projections).2) := by
  unfold ProjectionReplayStore.publish
  cases hpersist : s.persistEvents json projections with
  | none =>
    show Consistent json s (published ++ [])
    rw [List.append_nil]
    exact h
  | some result => exact h.persistEvents hjson projections hpersist

end Consistent

end Codegg.Projection
