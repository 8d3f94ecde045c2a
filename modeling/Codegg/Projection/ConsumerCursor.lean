import Codegg.Projection.Consumer

/-!
# The consumer's cursor

Over any run of a consumer, the snapshot it holds is the one installed last with the events
of consecutive sequence numbers after it taken in, and the cursor stands at the last of
them. The one way to break this is an explicit resync signal that is next in sequence: the
reducer leaves a diagnostic in the snapshot and does not move it.

An invariant of runs is proved once for all calls: it has to hold of a freshly installed
snapshot and to survive each event, in the state the event finds the consumer in.
-/
namespace Codegg.Projection

open Codegg.Library ProjectionReducer

namespace HeadlessProjectionConsumer

variable (debug : Option String → String)

/-- The fields that say where in which stream the consumer is. -/
structure View where
  descriptor : Option ProjectionStreamDescriptor
  snapshot : Option SessionProjectionSnapshot
  cursor : Option ProjectionCursor
  installed : Option SessionProjectionSnapshot
  absorbed : List ProjectionEnvelope

def view (c : HeadlessProjectionConsumer) : View where
  descriptor := c.descriptor
  snapshot := c.snapshot
  cursor := c.cursor
  installed := c.installed
  absorbed := c.absorbed

/-- The view right after a snapshot was installed. -/
def View.fresh (descriptor : ProjectionStreamDescriptor) (snapshot : SessionProjectionSnapshot)
    (cursor : ProjectionCursor) : View where
  descriptor := some descriptor
  snapshot := some { sanitizeSnapshot snapshot with eventSeq := cursor.eventSeq }
  cursor := some cursor
  installed := some { sanitizeSnapshot snapshot with eventSeq := cursor.eventSeq }
  absorbed := []

/-- The events a batch makes the consumer look at, each with the consumer before it. -/
def replaySteps (c : HeadlessProjectionConsumer) :
    List ProjectionEnvelope → List (HeadlessProjectionConsumer × ProjectionEnvelope)
  | [] => []
  | event :: events =>
    (c, event) :: match c.applyEvent debug event with
      | (.resyncRequired _ _, _) => []
      | (.error _, _) => []
      | (_, c) => replaySteps c events

def batchSteps (c : HeadlessProjectionConsumer) (batch : ProjectionReplayBatch) :
    List (HeadlessProjectionConsumer × ProjectionEnvelope) :=
  match c.installBatchSnapshot batch with
  | (.error _, _) => []
  | (.ok (), c) => replaySteps debug c batch.events

/-- The events a call makes the consumer look at, each with the consumer before it. -/
def callSteps (c : HeadlessProjectionConsumer) :
    Call → List (HeadlessProjectionConsumer × ProjectionEnvelope)
  | .applyEvent envelope => [(c, envelope)]
  | .acceptReplay batch => batchSteps debug c batch
  | .acceptResponse (.projectionReplay subscriptionId batch) =>
      batchSteps debug { c with subscriptionId := subscriptionId.or c.subscriptionId } batch
  | _ => []

def runSteps (c : HeadlessProjectionConsumer) :
    List Call → List (HeadlessProjectionConsumer × ProjectionEnvelope)
  | [] => []
  | call :: calls => callSteps debug c call ++ runSteps (c.perform debug call) calls

section Runs

variable {debug} {c : HeadlessProjectionConsumer} {Inv : View → Prop}
  {Good : HeadlessProjectionConsumer → ProjectionEnvelope → Prop}

/-- A descriptor that passes the check names the snapshot's session. -/
theorem sessionId_of_validStream {descriptor : ProjectionStreamDescriptor}
    {snapshot : SessionProjectionSnapshot} (h : c.validStream descriptor snapshot = true) :
    descriptor.sessionId = some snapshot.primarySessionId := by
  simp only [validStream, Bool.and_eq_true, beq_iff_eq] at h
  exact h.1.1.2

/-- Subscribing leaves the view alone or installs a snapshot of the descriptor's session. -/
theorem acceptSubscribed_view (c : HeadlessProjectionConsumer) (subscriptionId : ProjectionSubscriptionId)
    (descriptor : ProjectionStreamDescriptor) (bundle : ProjectionSnapshotBundle)
    (cursor : ProjectionCursor) :
    (c.acceptSubscribed subscriptionId descriptor bundle cursor).2.view = c.view ∨
      ∃ snapshot, bundle = .one snapshot ∧
        descriptor.sessionId = some snapshot.primarySessionId ∧
        (c.acceptSubscribed subscriptionId descriptor bundle cursor).2.view =
          .fresh descriptor snapshot cursor := by
  rw [acceptSubscribed]
  cases bundle with
  | boundedSessionList | lspDiagnostics => exact .inl rfl
  | one snapshot =>
    dsimp only [singleSnapshot]
    split
    · exact .inl rfl
    · rename_i hvalid
      split
      · exact .inl rfl
      · have hsession := sessionId_of_validStream (not_not.mp hvalid)
        exact .inr ⟨snapshot, rfl, hsession, rfl⟩

/-- A batch without a snapshot, or with one that is refused, leaves the view alone; else its
snapshot is installed at its own sequence number. -/
theorem installBatchSnapshot_view (c : HeadlessProjectionConsumer) (batch : ProjectionReplayBatch) :
    (c.installBatchSnapshot batch).2.view = c.view ∨
      ∃ snapshot cursor, batch.snapshot = some (.one snapshot) ∧
        cursor.eventSeq = snapshot.eventSeq ∧
        batch.descriptor.sessionId = some snapshot.primarySessionId ∧
        (c.installBatchSnapshot batch).2.view = .fresh batch.descriptor snapshot cursor := by
  rw [installBatchSnapshot]
  cases hb : batch.snapshot with
  | none => exact .inl rfl
  | some bundle =>
    cases bundle with
    | boundedSessionList | lspDiagnostics => exact .inl rfl
    | one snapshot =>
      dsimp only [singleSnapshot]
      split
      · exact .inl rfl
      · rename_i hvalid
        have hsession := sessionId_of_validStream (not_not.mp hvalid)
        exact .inr ⟨snapshot, {
          streamId := batch.descriptor.streamId
          eventSeq := snapshot.eventSeq
          projectionVersion := batch.descriptor.projectionVersion }, rfl, rfl, hsession, rfl⟩

theorem connect_view (c : HeadlessProjectionConsumer) (daemon : ProjectionCapabilities) : (c.connect daemon).2.view = c.view := by
  rw [connect]
  split
  · rfl
  · split
    · rfl
    · split <;> rfl

theorem connectFromResponse_view (c : HeadlessProjectionConsumer) (supported : Bool) (version : ℕ) :
    (c.connectFromResponse supported version).2.view = c.view := by
  rw [connectFromResponse]
  split
  · exact connect_view c _
  · rfl

theorem acceptArtifactHandles_view (c : HeadlessProjectionConsumer) (handles : List ProjectionArtifactHandleDto) :
    (c.acceptArtifactHandles handles).2.view = c.view := by
  rw [acceptArtifactHandles]
  split
  · rfl
  · split <;> rfl

theorem acceptArtifactOutcome_view (c : HeadlessProjectionConsumer) (outcome : ProjectionArtifactReadOutcome) :
    (c.acceptArtifactOutcome outcome).2.view = c.view := by
  cases outcome with
  | failed => rfl
  | ok response =>
    rw [acceptArtifactOutcome]
    split
    · rfl
    · split <;> rfl

variable (hfresh : ∀ {descriptor : ProjectionStreamDescriptor}
    {snapshot : SessionProjectionSnapshot} {cursor : ProjectionCursor},
    descriptor.sessionId = some snapshot.primarySessionId →
      Inv (.fresh descriptor snapshot cursor))
  (hevent : ∀ {c : HeadlessProjectionConsumer} {e : ProjectionEnvelope}, Inv c.view → Good c e →
    Inv (c.applyEvent debug e).2.view)

variable (Inv Good) in
include hevent in
theorem replayEvents_invariant {events : List ProjectionEnvelope} {counts : HeadlessReplayOutcome}
    (h : Inv c.view) (hgood : ∀ p ∈ replaySteps debug c events, Good p.1 p.2) :
    Inv (replayEvents debug counts c events).2.view := by
  induction events generalizing c counts with
  | nil => exact h
  | cons e events ih =>
    have hnext := hevent h (hgood (c, e) List.mem_cons_self)
    rw [replayEvents]
    rw [replaySteps] at hgood
    have hrest := fun p hp => hgood p (List.mem_cons_of_mem _ hp)
    rcases hap : c.applyEvent debug e with ⟨outcome, c'⟩
    rw [hap] at hnext hrest
    cases outcome with
    | applied | duplicate | ignoredNonPublic | reconciled => exact ih hnext hrest
    | resyncRequired | error => exact hnext

include hfresh hevent in
theorem acceptReplay_invariant {batch : ProjectionReplayBatch} (h : Inv c.view)
    (hgood : ∀ p ∈ batchSteps debug c batch, Good p.1 p.2) :
    Inv (c.acceptReplay debug batch).2.view := by
  have hinstalled : Inv (c.installBatchSnapshot batch).2.view := by
    rcases installBatchSnapshot_view c batch with hsame | ⟨snapshot, cursor, -, -, hsession, hnew⟩
    · exact hsame ▸ h
    · exact hnew ▸ hfresh hsession
  rw [acceptReplay]
  rw [batchSteps] at hgood
  rcases hin : c.installBatchSnapshot batch with ⟨result, c'⟩
  rw [hin] at hinstalled hgood
  cases result with
  | error => exact hinstalled
  | ok =>
    dsimp only
    split
    · exact hinstalled
    · split
      · exact hinstalled
      · exact replayEvents_invariant Inv Good hevent hinstalled hgood

include hfresh in
theorem acceptSubscribed_invariant {subscriptionId : ProjectionSubscriptionId}
    {descriptor : ProjectionStreamDescriptor} {bundle : ProjectionSnapshotBundle}
    {cursor : ProjectionCursor} (h : Inv c.view) :
    Inv (c.acceptSubscribed subscriptionId descriptor bundle cursor).2.view := by
  rcases acceptSubscribed_view c subscriptionId descriptor bundle cursor with
    hsame | ⟨snapshot, -, hsession, hnew⟩
  · exact hsame ▸ h
  · exact hnew ▸ hfresh hsession

include hfresh in
theorem acceptResync_invariant {reason : ProjectionResyncReason}
    {descriptor : Option ProjectionStreamDescriptor} {bundle : Option ProjectionSnapshotBundle}
    (h : Inv c.view) : Inv (c.acceptResync reason descriptor bundle).2.view := by
  cases descriptor with
  | none => exact h
  | some descriptor =>
    cases bundle with
    | none => exact h
    | some bundle =>
      dsimp only [acceptResync]
      split
      · exact h
      · exact acceptSubscribed_invariant hfresh h

include hfresh hevent in
/-- What holds of a freshly installed snapshot and survives each event survives a call. -/
theorem perform_invariant {call : Call} (h : Inv c.view)
    (hgood : ∀ p ∈ callSteps debug c call, Good p.1 p.2) :
    Inv (c.perform debug call).view := by
  cases call with
  | connect daemon => exact connect_view c daemon ▸ h
  | acceptSubscribed => exact acceptSubscribed_invariant hfresh h
  | acceptReplay => exact acceptReplay_invariant hfresh hevent h hgood
  | applyEvent e => exact hevent h (hgood _ (List.mem_singleton_self _))
  | disconnect => exact h
  | acceptResponse response =>
    cases response with
    | projectionCapabilitiesResponse supported version =>
      exact connectFromResponse_view c supported version ▸ h
    | projectionSubscribed => exact acceptSubscribed_invariant hfresh h
    | projectionReplay => exact acceptReplay_invariant hfresh hevent h hgood
    | projectionResyncRequired => exact acceptResync_invariant hfresh h
    | projectionArtifactList handles => exact acceptArtifactHandles_view c handles ▸ h
    | projectionArtifactRead outcome => exact acceptArtifactOutcome_view c outcome ▸ h
    | other => exact h

variable (Inv Good) in
include hfresh hevent in
/-- The invariant rule for runs. -/
theorem run_invariant {calls : List Call} (h : Inv c.view)
    (hgood : ∀ p ∈ runSteps debug c calls, Good p.1 p.2) : Inv (c.run debug calls).view := by
  induction calls generalizing c with
  | nil => exact h
  | cons call calls ih =>
    rw [runSteps] at hgood
    exact ih (perform_invariant hfresh hevent h fun p hp => hgood p (List.mem_append_left _ hp))
      fun p hp => hgood p (List.mem_append_right _ hp)

end Runs

/-!
## Events in sequence
-/

/-- The snapshot after one more event: applied when it is public, skipped otherwise. -/
def takeIn (s : SessionProjectionSnapshot) (e : ProjectionEnvelope) : SessionProjectionSnapshot :=
  if eventIsPublic e.payload (some s) then (ProjectionReducer.apply s e.toInput debug {}).2
  else skipEvent e s

/-- A snapshot is held, the stream is that of its session and the cursor stands where it
does. -/
structure View.At (v : View) (snapshot : SessionProjectionSnapshot) (cursor : ProjectionCursor)
    (descriptor : ProjectionStreamDescriptor) : Prop where
  snapshot_eq : v.snapshot = some snapshot
  cursor_eq : v.cursor = some cursor
  descriptor_eq : v.descriptor = some descriptor
  session : descriptor.sessionId = some snapshot.primarySessionId
  position : cursor.eventSeq = snapshot.eventSeq

/-- The snapshot is the installed one with the absorbed events taken in, which follow it
without a gap, and the cursor stands at the last of them. -/
structure View.Tracking (v : View) (snapshot base : SessionProjectionSnapshot)
    (cursor : ProjectionCursor) (descriptor : ProjectionStreamDescriptor) : Prop
    extends v.At snapshot cursor descriptor where
  installed_eq : v.installed = some base
  consecutive : v.absorbed.map (·.eventSeq) = List.range' (base.eventSeq + 1) v.absorbed.length
  last : snapshot.eventSeq = base.eventSeq + v.absorbed.length
  fold : snapshot = v.absorbed.foldl (takeIn debug) base

/-- Nothing was installed yet, or the view tracks what was. -/
def View.Tracked (v : View) : Prop :=
  (v.snapshot = none ∧ v.cursor = none ∧ v.descriptor = none) ∨
    ∃ snapshot base cursor descriptor, v.Tracking debug snapshot base cursor descriptor

/-- The event is the next one of the consumer's stream. -/
def IsNext (c : HeadlessProjectionConsumer) (e : ProjectionEnvelope) : Prop :=
  ∃ cursor descriptor, c.cursor = some cursor ∧ c.descriptor = some descriptor ∧
    envelopeMatchesDescriptor e descriptor = true ∧ e.eventSeq = cursor.eventSeq + 1

section Events

variable {debug} {c : HeadlessProjectionConsumer} {e : ProjectionEnvelope}
  {descriptor : ProjectionStreamDescriptor} {snapshot base : SessionProjectionSnapshot}
  {cursor : ProjectionCursor}

theorem View.tracked_fresh (h : descriptor.sessionId = some snapshot.primarySessionId) :
    (View.fresh descriptor snapshot cursor).Tracked debug :=
  .inr ⟨_, _, cursor, descriptor, ⟨rfl, rfl, rfl, h, rfl⟩, rfl, rfl, rfl, rfl⟩

theorem sessionId_of_matches (h : envelopeMatchesDescriptor e descriptor = true) :
    e.sessionId = descriptor.sessionId := by
  simp only [envelopeMatchesDescriptor, Bool.and_eq_true, beq_iff_eq] at h
  exact h.1.2

/-- An event of the snapshot's own session is in its scope. -/
theorem checkScope_of_session (h : e.sessionId = some snapshot.primarySessionId) :
    checkScope snapshot e.toInput {} = true := by
  simp [checkScope, ProjectionEnvelope.toInput, h]

theorem settleEvent_of_advances {r : Reduction} (h : r.1.advances = true) :
    (c.settleEvent cursor e r).2 = c.moveTo cursor e (some r.2) := by
  rcases r with ⟨outcome, s⟩
  cases outcome with
  | applied | reconciled => rfl
  | duplicate | scopeMismatch | resyncRequired | error => cases h

/-- What an event does to a consumer with a snapshot: nothing to its view; or it is the next
event and is taken in; or it is the next event and a resync signal. -/
theorem applyEvent_cases (h : c.view.At snapshot cursor descriptor) :
    (c.applyEvent debug e).2.view = c.view ∨
    (IsNext c e ∧ e.payload.isResyncRequired = true ∧
      (c.applyEvent debug e).2.view = { c.view with
        snapshot := some (applyPayload snapshot e.toInput).2 }) ∨
    (IsNext c e ∧ (c.applyEvent debug e).2.view = { c.view with
        snapshot := some (takeIn debug snapshot e)
        cursor := some { cursor with eventSeq := e.eventSeq }
        absorbed := c.absorbed ++ [e] } ∧
      (takeIn debug snapshot e).eventSeq = e.eventSeq ∧
      (takeIn debug snapshot e).primarySessionId = snapshot.primarySessionId) := by
  have hcursor : c.cursor = some cursor := h.cursor_eq
  have hdescriptor : c.descriptor = some descriptor := h.descriptor_eq
  have hsnapshot : c.snapshot = some snapshot := h.snapshot_eq
  simp only [applyEvent, hcursor, hdescriptor]
  split
  · exact .inl rfl
  rename_i hmatch
  have hmatch : envelopeMatchesDescriptor e descriptor = true := by simpa using hmatch
  split
  · exact .inl rfl
  split
  · exact .inl rfl
  rename_i hseq
  have hseq : e.eventSeq = cursor.eventSeq + 1 := by simpa using hseq
  have hnext : IsNext c e := ⟨cursor, descriptor, hcursor, hdescriptor, hmatch, hseq⟩
  rw [hsnapshot]
  split
  · rename_i hhidden
    have hskip : takeIn debug snapshot e = skipEvent e snapshot := by
      rw [takeIn, if_neg hhidden]
    refine .inr (.inr ⟨hnext, ?_, by rw [hskip]; rfl, by rw [hskip]; rfl⟩)
    rw [hskip]
    rfl
  · rename_i hpublic
    have htake : takeIn debug snapshot e = (apply snapshot e.toInput debug {}).2 := by
      rw [takeIn, if_pos (not_not.mp hpublic)]
    have hscope : checkScope snapshot e.toInput {} = true :=
      checkScope_of_session ((sessionId_of_matches hmatch).trans h.session)
    have hafter : snapshot.eventSeq < e.toInput.eventSeq := by
      have := h.position
      show snapshot.eventSeq < e.eventSeq
      omega
    dsimp only
    -- the reducer can only refuse the version or run the payload
    by_cases hversion : versionSupported {} e.toInput.protocolVersion = true
    · have hap : apply snapshot e.toInput debug {} =
          stamp e.toInput (applyPayload snapshot e.toInput) :=
        apply_of_next hversion hscope hafter
      cases hres : e.payload.isResyncRequired with
      | true =>
        cases hp : e.payload with
        | resyncRequired a b =>
          have hpay : applyPayload snapshot e.toInput = resyncRequired snapshot e.toInput a b :=
            applyPayload_of_resync hp
          rw [hap, hpay]
          exact .inr (.inl ⟨hnext, rfl, rfl⟩)
        | _ => simp [hp, ProjectionEvent.isResyncRequired] at hres
      | false =>
        have hstamp := stamp_advances snapshot e.toInput hres
        rw [← hap, ← htake] at hstamp
        rw [settleEvent_of_advances hstamp.1, ← htake]
        exact .inr (.inr ⟨hnext, rfl, hstamp.2.1, hstamp.2.2⟩)
    · have hrefused : apply snapshot e.toInput debug {} =
          (.error (.unsupportedProtocolVersion e.toInput.protocolVersion 1 1), snapshot) := by
        rw [apply, if_pos hversion]
        rfl
      rw [hrefused]
      refine .inl ?_
      show View.mk c.descriptor (some snapshot) c.cursor c.installed c.absorbed = c.view
      rw [← hsnapshot]
      rfl

end Events

/-- The next event of the stream is an explicit resync signal. -/
def SignalsResync (c : HeadlessProjectionConsumer) (e : ProjectionEnvelope) : Prop :=
  IsNext c e ∧ e.payload.isResyncRequired = true

/-- Whenever a snapshot is held, the cursor stands where the snapshot does, and the snapshot
is the one installed last with the events taken in since, whose sequence numbers follow it
one by one. -/
def CursorLaw (c : HeadlessProjectionConsumer) : Prop :=
  ∀ snapshot, c.snapshot = some snapshot → ∃ cursor base,
    c.cursor = some cursor ∧ c.installed = some base ∧ cursor.eventSeq = snapshot.eventSeq ∧
    c.absorbed.map (·.eventSeq) = List.range' (base.eventSeq + 1) c.absorbed.length ∧
    snapshot = c.absorbed.foldl (takeIn debug) base

section Law

variable {debug} {c : HeadlessProjectionConsumer} {e : ProjectionEnvelope}

/-- An event that is not a resync signal keeps the view tracked. -/
theorem applyEvent_tracked (h : c.view.Tracked debug) (hquiet : ¬ SignalsResync c e) :
    (c.applyEvent debug e).2.view.Tracked debug := by
  rcases h with ⟨hsnapshot, hcursor, hdescriptor⟩ | ⟨snapshot, base, cursor, descriptor, h⟩
  · have hnone : c.cursor = none := hcursor
    have hsame : (c.applyEvent debug e).2 = c := by simp [applyEvent, hnone]
    rw [hsame]
    exact .inl ⟨hsnapshot, hcursor, hdescriptor⟩
  · rcases applyEvent_cases (e := e) h.toAt with
      hsame | ⟨hnext, hsignal, -⟩ | ⟨hnext, hview, hseq, hsession⟩
    · exact hsame ▸ .inr ⟨snapshot, base, cursor, descriptor, h⟩
    · exact absurd ⟨hnext, hsignal⟩ hquiet
    · obtain ⟨cursor', descriptor', hc, -, -, hstep⟩ := hnext
      have hcursor : cursor' = cursor := by
        have : some cursor' = some cursor := hc.symm.trans h.cursor_eq
        simpa using this
      rw [hcursor] at hstep
      have hposition := h.position
      have hlast := h.last
      have habsorbed : c.view.absorbed = c.absorbed := rfl
      rw [hview]
      refine .inr ⟨takeIn debug snapshot e, base, { cursor with eventSeq := e.eventSeq },
        descriptor, ⟨rfl, rfl, h.descriptor_eq, ?_, hseq.symm⟩, h.installed_eq, ?_, ?_, ?_⟩
      · rw [hsession]
        exact h.session
      · have hconsecutive := h.consecutive
        rw [habsorbed] at hconsecutive hlast
        simp only [List.map_append, List.map_cons, List.map_nil, List.length_append,
          List.length_singleton, List.range'_concat, hconsecutive, Nat.one_mul]
        rw [show e.eventSeq = base.eventSeq + 1 + c.absorbed.length by omega]
      · rw [habsorbed] at hlast
        simp only [List.length_append, List.length_singleton]
        omega
      · have hfold := h.fold
        rw [habsorbed] at hfold
        simp [← hfold]

theorem cursorLaw_of_tracked (h : c.view.Tracked debug) : CursorLaw debug c := by
  intro snapshot hsnapshot
  rcases h with ⟨hnone, -, -⟩ | ⟨snapshot', base, cursor, descriptor, h⟩
  · have : c.snapshot = none := hnone
    rw [hsnapshot] at this
    cases this
  · have hsome : some snapshot' = some snapshot := h.snapshot_eq.symm.trans hsnapshot
    cases hsome
    exact ⟨cursor, base, h.cursor_eq, h.installed_eq, h.position, h.consecutive, h.fold⟩

/-- In every run in which no event that is next in sequence is a resync signal, the consumer
keeps the cursor law. -/
theorem run_cursorLaw (capabilities : ProjectionCapabilities) (calls : List Call)
    (hquiet : ∀ p ∈ runSteps debug (withCapabilities capabilities) calls,
      ¬ SignalsResync p.1 p.2) :
    CursorLaw debug ((withCapabilities capabilities).run debug calls) := by
  have hstart : (withCapabilities capabilities).view.Tracked debug := .inl ⟨rfl, rfl, rfl⟩
  have htracked := run_invariant (View.Tracked debug) (fun c e => ¬ SignalsResync c e)
    View.tracked_fresh applyEvent_tracked hstart hquiet
  exact cursorLaw_of_tracked htracked

end Law

/-- A subscription and three deliveries: the next event, the same again, and one after a gap. -/
def sampleCalls : List Call :=
  [.connect {}, .acceptSubscribed "sub" sampleDescriptor (.one sampleSnapshot) ⟨"session-s", 0, 1⟩,
    .applyEvent (sampleEnvelope 1 (.modelSelected "m" 0)),
    .applyEvent (sampleEnvelope 1 (.modelSelected "m" 0)),
    .applyEvent (sampleEnvelope 3 (.modelSelected "n" 0))]

theorem run_cursorLaw_sampleCalls :
    (∀ p ∈ runSteps plainDebug (withCapabilities {}) sampleCalls, ¬ SignalsResync p.1 p.2) ∧
      CursorLaw plainDebug ((withCapabilities {}).run plainDebug sampleCalls) := by
  have hquiet : ∀ p ∈ runSteps plainDebug (withCapabilities {}) sampleCalls,
      p.2.payload.isResyncRequired = false := by decide +kernel
  have hnone : ∀ p ∈ runSteps plainDebug (withCapabilities {}) sampleCalls,
      ¬ SignalsResync p.1 p.2 := by
    intro p hp hsignal
    rw [SignalsResync, hquiet p hp] at hsignal
    cases hsignal.2
  exact ⟨hnone, run_cursorLaw {} sampleCalls hnone⟩

/-- A subscription and a resync signal that is next in sequence. -/
def signalCalls : List Call :=
  [.connect {}, .acceptSubscribed "sub" sampleDescriptor (.one sampleSnapshot) ⟨"session-s", 0, 1⟩,
    .applyEvent (sampleEnvelope 1 (.resyncRequired 1 5))]

/-- The signal leaves a diagnostic in the snapshot although no event was taken in. -/
theorem cursorLaw_broken_by_signal :
    ¬ CursorLaw plainDebug ((withCapabilities {}).run plainDebug signalCalls) := by
  intro hlaw
  have hheld : ((withCapabilities {}).run plainDebug signalCalls).snapshot.map
      (·.diagnostics.length) = some 1 := by decide +kernel
  have habsorbed : ((withCapabilities {}).run plainDebug signalCalls).absorbed.length = 0 := by
    decide +kernel
  have hinstalled : ((withCapabilities {}).run plainDebug signalCalls).installed.map
      (·.diagnostics.length) = some 0 := by decide +kernel
  obtain ⟨snapshot, hsnapshot, hone⟩ := Option.map_eq_some_iff.mp hheld
  obtain ⟨cursor, base, -, hbase, -, -, hfold⟩ := hlaw snapshot hsnapshot
  rw [List.length_eq_zero_iff.mp habsorbed, List.foldl_nil] at hfold
  rw [hbase] at hinstalled
  rw [hfold] at hone
  simp only [Option.map_some, Option.some.injEq] at hinstalled
  omega

end HeadlessProjectionConsumer

end Codegg.Projection
