import Codegg.Projection.Visibility

/-!
# Text that is not public has no influence on a consumer

Scrubbing a call empties the text of the messages, tools and reasoning in it that are not
public. A tool's result belongs to the tool the consumer finds for it. Two sequences of
calls that differ in such text only are equal once scrubbed, and a consumer that goes
through one of them ends with the snapshot it would have had with the other.
-/
namespace Codegg.Projection

open Codegg.Library ProjectionReducer

namespace HeadlessProjectionConsumer

/-!
## Scrubbing
-/

def scrubMessage (m : MessageProjection) : MessageProjection :=
  if publicMessage m then m else { m with text := "" }

def scrubTool (t : ToolProjection) : ToolProjection :=
  if publicTool t then t
  else { t with toolName := "", arguments := .summary "", output := .summary "" }

def scrubTurn (turn : TurnProjection) : TurnProjection :=
  { turn with
    messages := turn.messages.map scrubMessage
    tools := turn.tools.map scrubTool }

def scrubSnapshot (s : SessionProjectionSnapshot) : SessionProjectionSnapshot :=
  { s with
    activeTurn := s.activeTurn.map scrubTurn
    recentTurns := s.recentTurns.map scrubTurn }

def scrubBundle : ProjectionSnapshotBundle → ProjectionSnapshotBundle
  | .one snapshot => .one (scrubSnapshot snapshot)
  | bundle => bundle

/-- The event as it may be known to a consumer with the given snapshot. -/
def scrubEvent (snapshot : Option SessionProjectionSnapshot) (event : ProjectionEvent) :
    ProjectionEvent :=
  match event with
  | .turnStarted turn => .turnStarted (scrubTurn turn)
  | .messageAppended message => .messageAppended (scrubMessage message)
  | .reasoningAppended messageId _ => .reasoningAppended messageId ""
  | .toolStarted tool => .toolStarted (scrubTool tool)
  | .toolCompleted toolId _ success durationMs completedAt =>
      if eventIsPublic event snapshot then event
      else .toolCompleted toolId (.summary "") success durationMs completedAt
  | .toolFailed toolId _ completedAt =>
      if eventIsPublic event snapshot then event else .toolFailed toolId "" completedAt
  | _ => event

def scrubEnvelope (snapshot : Option SessionProjectionSnapshot) (e : ProjectionEnvelope) :
    ProjectionEnvelope :=
  { e with payload := scrubEvent snapshot e.payload }

variable (debug : Option String → String) (c : HeadlessProjectionConsumer)

/-- The events of a batch, each as the consumer that reaches it may know it. -/
def scrubEvents (c : HeadlessProjectionConsumer) : List ProjectionEnvelope → List ProjectionEnvelope
  | [] => []
  | e :: events => scrubEnvelope c.snapshot e :: scrubEvents (c.applyEvent debug e).2 events

def scrubBatch (batch : ProjectionReplayBatch) : ProjectionReplayBatch :=
  { batch with
    snapshot := batch.snapshot.map scrubBundle
    events := scrubEvents debug (c.installBatchSnapshot batch).2 batch.events }

def scrubResponse : CoreResponse → CoreResponse
  | .projectionSubscribed subscriptionId descriptor snapshot cursor =>
      .projectionSubscribed subscriptionId descriptor (scrubBundle snapshot) cursor
  | .projectionReplay subscriptionId batch =>
      .projectionReplay subscriptionId
        (scrubBatch debug { c with subscriptionId := subscriptionId.or c.subscriptionId } batch)
  | .projectionResyncRequired reason descriptor snapshot =>
      .projectionResyncRequired reason descriptor (snapshot.map scrubBundle)
  | response => response

def scrubCall : Call → Call
  | .acceptSubscribed subscriptionId descriptor bundle cursor =>
      .acceptSubscribed subscriptionId descriptor (scrubBundle bundle) cursor
  | .acceptResponse response => .acceptResponse (scrubResponse debug c response)
  | .acceptReplay batch => .acceptReplay (scrubBatch debug c batch)
  | .applyEvent e => .applyEvent (scrubEnvelope c.snapshot e)
  | call => call

/-- The calls of a run, each as the consumer that receives it may know it. -/
def scrubRun (c : HeadlessProjectionConsumer) : List Call → List Call
  | [] => []
  | call :: calls => scrubCall debug c call :: scrubRun (c.perform debug call) calls

/-!
## The ghost of a consumer

No call reads the events taken in.
-/

/-- The consumer without the record of the events taken in. -/
def core : HeadlessProjectionConsumer := { c with absorbed := [] }

/-- Two answers that differ in the consumers' ghosts at most. -/
def Alike {β : Type} (x y : β × HeadlessProjectionConsumer) : Prop :=
  x.1 = y.1 ∧ x.2.core = y.2.core

section Ghost

variable {debug c} {c' : HeadlessProjectionConsumer} {e : ProjectionEnvelope} {β : Type}

theorem Alike.symm {x y : β × HeadlessProjectionConsumer} (h : Alike x y) : Alike y x :=
  ⟨h.1.symm, h.2.symm⟩

theorem Alike.trans {x y z : β × HeadlessProjectionConsumer} (h : Alike x y) (h' : Alike y z) :
    Alike x z :=
  ⟨h.1.trans h'.1, h.2.trans h'.2⟩

theorem settleEvent_core {cursor : ProjectionCursor} {r : Reduction} :
    Alike (c.settleEvent cursor e r) (c.core.settleEvent cursor e r) := by
  rcases r with ⟨outcome, s⟩
  cases outcome <;> exact ⟨rfl, rfl⟩

theorem applyEvent_core : Alike (c.applyEvent debug e) (c.core.applyEvent debug e) := by
  have hcursor : c.core.cursor = c.cursor := rfl
  have hdescriptor : c.core.descriptor = c.descriptor := rfl
  have hsnapshot : c.core.snapshot = c.snapshot := rfl
  rw [applyEvent, applyEvent, hcursor, hdescriptor, hsnapshot]
  split
  · exact ⟨rfl, rfl⟩
  split
  · exact ⟨rfl, rfl⟩
  split
  · exact ⟨rfl, rfl⟩
  split
  · exact ⟨rfl, rfl⟩
  split
  · exact ⟨rfl, rfl⟩
  split
  · exact ⟨rfl, rfl⟩
  split
  · exact ⟨rfl, rfl⟩
  · exact settleEvent_core

theorem applyEvent_congr (h : c.core = c'.core) :
    Alike (c.applyEvent debug e) (c'.applyEvent debug e) :=
  applyEvent_core.trans (h ▸ applyEvent_core.symm)

theorem replayEvents_congr {events : List ProjectionEnvelope} {counts : HeadlessReplayOutcome}
    (h : c.core = c'.core) :
    Alike (replayEvents debug counts c events) (replayEvents debug counts c' events) := by
  induction events generalizing c c' counts with
  | nil => exact ⟨rfl, congrArg (fun k => { k with connectionState := .attached }) h⟩
  | cons e events ih =>
    have halike : Alike (c.applyEvent debug e) (c'.applyEvent debug e) := applyEvent_congr h
    rw [replayEvents, replayEvents]
    rcases hc : c.applyEvent debug e with ⟨outcome, c₁⟩
    rcases hc' : c'.applyEvent debug e with ⟨outcome', c₂⟩
    rw [hc, hc'] at halike
    obtain ⟨rfl, hcore⟩ : outcome = outcome' ∧ c₁.core = c₂.core := halike
    cases outcome with
    | applied | duplicate | ignoredNonPublic | reconciled => exact ih hcore
    | resyncRequired reason =>
      exact ⟨rfl, congrArg (fun k => { k with lastResyncReason := some reason }) hcore⟩
    | error => exact ⟨rfl, hcore⟩

theorem connect_core (daemon : ProjectionCapabilities) :
    Alike (c.connect daemon) (c.core.connect daemon) := by
  have hcapabilities : c.core.capabilities = c.capabilities := rfl
  rw [connect, connect, hcapabilities]
  split
  · exact ⟨rfl, rfl⟩
  split
  · exact ⟨rfl, rfl⟩
  split <;> exact ⟨rfl, rfl⟩

theorem connectFromResponse_core (supported : Bool) (version : ℕ) :
    Alike (c.connectFromResponse supported version)
      (c.core.connectFromResponse supported version) := by
  rw [connectFromResponse, connectFromResponse]
  split
  · exact connect_core _
  · exact ⟨rfl, rfl⟩

theorem acceptSubscribed_core (subscriptionId : ProjectionSubscriptionId)
    (descriptor : ProjectionStreamDescriptor) (bundle : ProjectionSnapshotBundle)
    (cursor : ProjectionCursor) :
    Alike (c.acceptSubscribed subscriptionId descriptor bundle cursor)
      (c.core.acceptSubscribed subscriptionId descriptor bundle cursor) := by
  have hvalid : ∀ s, c.core.validStream descriptor s = c.validStream descriptor s := fun _ => rfl
  rw [acceptSubscribed, acceptSubscribed]
  split
  · exact ⟨rfl, rfl⟩
  rw [hvalid]
  split
  · exact ⟨rfl, rfl⟩
  split <;> exact ⟨rfl, rfl⟩

theorem installBatchSnapshot_core (batch : ProjectionReplayBatch) :
    Alike (c.installBatchSnapshot batch) (c.core.installBatchSnapshot batch) := by
  have hvalid : ∀ s, c.core.validStream batch.descriptor s = c.validStream batch.descriptor s :=
    fun _ => rfl
  rw [installBatchSnapshot, installBatchSnapshot]
  split
  · exact ⟨rfl, rfl⟩
  split
  · exact ⟨rfl, rfl⟩
  simp only [hvalid]
  split <;> exact ⟨rfl, rfl⟩

/-- The replay of a batch from alike consumers, over event lists that replay alike. -/
theorem acceptReplay_alike {batch batch' : ProjectionReplayBatch}
    (hinstall : Alike (c.installBatchSnapshot batch) (c'.installBatchSnapshot batch'))
    (hdescriptor : batch'.descriptor = batch.descriptor)
    (hnext : batch'.nextCursor = batch.nextCursor)
    (hevents : ∀ counts, (c.installBatchSnapshot batch).1 = .ok () →
      Alike (replayEvents debug counts (c.installBatchSnapshot batch).2 batch.events)
        (replayEvents debug counts (c'.installBatchSnapshot batch').2 batch'.events)) :
    Alike (c.acceptReplay debug batch) (c'.acceptReplay debug batch') := by
  rw [acceptReplay, acceptReplay]
  rcases hc : c.installBatchSnapshot batch with ⟨answer, c₁⟩
  rcases hc' : c'.installBatchSnapshot batch' with ⟨answer', c₂⟩
  rw [hc, hc'] at hinstall hevents
  obtain ⟨rfl, hcore⟩ : answer = answer' ∧ c₁.core = c₂.core := hinstall
  cases answer with
  | error => exact ⟨rfl, hcore⟩
  | ok =>
    have hd : c₂.descriptor = c₁.descriptor := (congrArg (·.descriptor) hcore).symm
    have hs : c₂.snapshot = c₁.snapshot := (congrArg (·.snapshot) hcore).symm
    have hcur : c₂.cursor = c₁.cursor := (congrArg (·.cursor) hcore).symm
    simp only [hd, hs, hcur, hdescriptor, hnext]
    split
    · exact ⟨rfl, hcore⟩
    split
    · exact ⟨rfl, hcore⟩
    · exact hevents _ rfl

theorem acceptReplay_core (batch : ProjectionReplayBatch) :
    Alike (c.acceptReplay debug batch) (c.core.acceptReplay debug batch) :=
  acceptReplay_alike (installBatchSnapshot_core batch) rfl rfl fun _ _ =>
    replayEvents_congr (installBatchSnapshot_core batch).2

theorem acceptArtifactHandles_core (handles : List ProjectionArtifactHandleDto) :
    Alike (c.acceptArtifactHandles handles) (c.core.acceptArtifactHandles handles) := by
  have hsnapshot : c.core.snapshot = c.snapshot := rfl
  rw [acceptArtifactHandles, acceptArtifactHandles, hsnapshot]
  split
  · exact ⟨rfl, rfl⟩
  split <;> exact ⟨rfl, rfl⟩

theorem acceptArtifactOutcome_core (outcome : ProjectionArtifactReadOutcome) :
    Alike (c.acceptArtifactOutcome outcome) (c.core.acceptArtifactOutcome outcome) := by
  have hhandles : c.core.artifactHandles = c.artifactHandles := rfl
  cases outcome with
  | failed => exact ⟨rfl, rfl⟩
  | ok response =>
    rw [acceptArtifactOutcome, acceptArtifactOutcome, hhandles]
    split
    · exact ⟨rfl, rfl⟩
    split <;> exact ⟨rfl, rfl⟩

theorem acceptResync_core (reason : ProjectionResyncReason)
    (descriptor : Option ProjectionStreamDescriptor) (bundle : Option ProjectionSnapshotBundle) :
    Alike (c.acceptResync reason descriptor bundle)
      (c.core.acceptResync reason descriptor bundle) := by
  have hid : (c.core.demandResync reason).subscriptionId = (c.demandResync reason).subscriptionId :=
    rfl
  cases descriptor with
  | none => exact ⟨rfl, rfl⟩
  | some descriptor =>
    cases bundle with
    | none => exact ⟨rfl, rfl⟩
    | some bundle =>
      dsimp only [acceptResync]
      rw [hid]
      split
      · exact ⟨rfl, rfl⟩
      · exact acceptSubscribed_core _ _ _ _

theorem perform_core (call : Call) :
    (c.perform debug call).core = (c.core.perform debug call).core := by
  cases call with
  | connect daemon => exact (connect_core daemon).2
  | acceptSubscribed subscriptionId descriptor bundle cursor =>
    exact (acceptSubscribed_core subscriptionId descriptor bundle cursor).2
  | acceptReplay batch => exact (acceptReplay_core batch).2
  | applyEvent e => exact applyEvent_core.2
  | disconnect => rfl
  | acceptResponse response =>
    cases response with
    | projectionCapabilitiesResponse supported version =>
      exact (connectFromResponse_core supported version).2
    | projectionSubscribed subscriptionId descriptor bundle cursor =>
      exact (acceptSubscribed_core subscriptionId descriptor bundle cursor).2
    | projectionReplay subscriptionId batch => exact (acceptReplay_core batch).2
    | projectionResyncRequired reason descriptor bundle =>
      exact (acceptResync_core reason descriptor bundle).2
    | projectionArtifactList handles => exact (acceptArtifactHandles_core handles).2
    | projectionArtifactRead outcome => exact (acceptArtifactOutcome_core outcome).2
    | other => rfl

theorem run_congr {calls : List Call} (h : c.core = c'.core) :
    (c.run debug calls).core = (c'.run debug calls).core := by
  induction calls generalizing c c' with
  | nil => exact h
  | cons call calls ih =>
    have hnext : (c.perform debug call).core = (c'.perform debug call).core := by
      rw [perform_core, h, ← perform_core]
    exact ih hnext

end Ghost

/-!
## Scrubbing changes nothing
-/

section Scrub

variable {debug c} {e : ProjectionEnvelope} {s : SessionProjectionSnapshot}
  {snapshot : Option SessionProjectionSnapshot} {event : ProjectionEvent}

theorem publicMessage_scrubMessage (m : MessageProjection) :
    publicMessage (scrubMessage m) = publicMessage m := by
  rw [scrubMessage]
  split <;> rfl

theorem publicTool_scrubTool (t : ToolProjection) : publicTool (scrubTool t) = publicTool t := by
  rw [scrubTool]
  split <;> rfl

theorem sanitizeTurn_scrubTurn (turn : TurnProjection) :
    sanitizeTurn (scrubTurn turn) = sanitizeTurn turn := by
  have hmessages : (turn.messages.map scrubMessage).filter publicMessage =
      turn.messages.filter publicMessage :=
    filter_map_eq publicMessage_scrubMessage fun m hm => by rw [scrubMessage, if_pos hm]
  have htools : (turn.tools.map scrubTool).filter publicTool = turn.tools.filter publicTool :=
    filter_map_eq publicTool_scrubTool fun t ht => by rw [scrubTool, if_pos ht]
  simp only [sanitizeTurn, scrubTurn, hmessages, htools]

/-- What is stripped on installation does not depend on the text of what goes. -/
theorem sanitizeSnapshot_scrubSnapshot (s : SessionProjectionSnapshot) :
    sanitizeSnapshot (scrubSnapshot s) = sanitizeSnapshot s := by
  simp only [sanitizeSnapshot, scrubSnapshot, Option.map_map, List.map_map, Function.comp_def,
    sanitizeTurn_scrubTurn]

theorem acceptSubscribed_scrub (c : HeadlessProjectionConsumer)
    (subscriptionId : ProjectionSubscriptionId) (descriptor : ProjectionStreamDescriptor)
    (bundle : ProjectionSnapshotBundle) (cursor : ProjectionCursor) :
    c.acceptSubscribed subscriptionId descriptor (scrubBundle bundle) cursor =
      c.acceptSubscribed subscriptionId descriptor bundle cursor := by
  cases bundle with
  | one s =>
    have hvalid : c.validStream descriptor (scrubSnapshot s) = c.validStream descriptor s := rfl
    simp only [acceptSubscribed, scrubBundle, singleSnapshot, hvalid,
      sanitizeSnapshot_scrubSnapshot]
  | boundedSessionList | lspDiagnostics => rfl

theorem installBatchSnapshot_scrub (batch : ProjectionReplayBatch) :
    c.installBatchSnapshot (scrubBatch debug c batch) = c.installBatchSnapshot batch := by
  rw [installBatchSnapshot, installBatchSnapshot]
  dsimp only [scrubBatch]
  cases batch.snapshot with
  | none => rfl
  | some bundle =>
    cases bundle with
    | one s =>
      simp only [Option.map_some, scrubBundle, singleSnapshot, sanitizeSnapshot_scrubSnapshot]
    | boundedSessionList | lspDiagnostics => rfl

theorem eventIsPublic_scrubEvent :
    eventIsPublic (scrubEvent snapshot event) snapshot = eventIsPublic event snapshot := by
  cases event with
  | messageAppended message => exact publicMessage_scrubMessage message
  | toolStarted tool => exact publicTool_scrubTool tool
  | toolCompleted | toolFailed =>
    rw [scrubEvent]
    split <;> rfl
  | _ => rfl

theorem PublicTurn.scrubTurn_eq {turn : TurnProjection} (h : PublicTurn turn) :
    scrubTurn turn = turn := by
  have hmessages : turn.messages.map scrubMessage = turn.messages := by
    refine (List.map_congr_left fun m hm => ?_).trans (List.map_id _)
    simp [scrubMessage, publicMessage, h.messages m hm]
  have htools : turn.tools.map scrubTool = turn.tools := by
    refine (List.map_congr_left fun t ht => ?_).trans (List.map_id _)
    simp [scrubTool, publicTool, h.tools t ht]
  rw [scrubTurn, hmessages, htools]

/-- An event that goes to the reducer holds nothing to scrub. -/
theorem scrubEvent_eq (hpublic : eventIsPublic event snapshot = true)
    (hstart : ∀ turn, event = .turnStarted turn → PublicTurn turn) :
    scrubEvent snapshot event = event := by
  cases event with
  | turnStarted turn => rw [scrubEvent, (hstart turn rfl).scrubTurn_eq]
  | messageAppended message =>
    have hm : publicMessage message = true := hpublic
    rw [scrubEvent, scrubMessage, if_pos hm]
  | toolStarted tool =>
    have ht : publicTool tool = true := hpublic
    rw [scrubEvent, scrubTool, if_pos ht]
  | toolCompleted | toolFailed => rw [scrubEvent, if_pos hpublic]
  | reasoningAppended => cases hpublic
  | _ => rfl

theorem applyEvent_scrub (h : StartsPublic c e) :
    Alike (c.applyEvent debug e) (c.applyEvent debug (scrubEnvelope c.snapshot e)) := by
  have hseq : (scrubEnvelope c.snapshot e).eventSeq = e.eventSeq := rfl
  have hmatches : ∀ d, envelopeMatchesDescriptor (scrubEnvelope c.snapshot e) d =
      envelopeMatchesDescriptor e d := fun _ => rfl
  have hpayload : eventIsPublic (scrubEnvelope c.snapshot e).payload c.snapshot =
      eventIsPublic e.payload c.snapshot := eventIsPublic_scrubEvent
  rw [applyEvent, applyEvent, hseq, hpayload]
  simp only [hmatches]
  split
  · exact ⟨rfl, rfl⟩
  rename_i cursor hcursor
  split
  · exact ⟨rfl, rfl⟩
  rename_i descriptor hdescriptor
  split
  · exact ⟨rfl, rfl⟩
  rename_i hmatch
  split
  · exact ⟨rfl, rfl⟩
  split
  · exact ⟨rfl, rfl⟩
  rename_i hnext
  split
  · exact ⟨rfl, rfl⟩
  rename_i hpublic
  -- the event reaches the reducer, so it is its own scrubbing
  have hstart := h ⟨cursor, descriptor, hcursor, hdescriptor, not_not.mp hmatch, not_not.mp hnext⟩
  have hsame : scrubEnvelope c.snapshot e = e := by
    rw [scrubEnvelope, scrubEvent_eq (not_not.mp hpublic) hstart]
  rw [hsame]
  exact ⟨rfl, rfl⟩

theorem replayEvents_scrub {events : List ProjectionEnvelope} {counts : HeadlessReplayOutcome}
    (h : ∀ p ∈ replaySteps debug c events, StartsPublic p.1 p.2) :
    Alike (replayEvents debug counts c events)
      (replayEvents debug counts c (scrubEvents debug c events)) := by
  induction events generalizing c counts with
  | nil => exact ⟨rfl, rfl⟩
  | cons e events ih =>
    have halike : Alike (c.applyEvent debug e)
        (c.applyEvent debug (scrubEnvelope c.snapshot e)) :=
      applyEvent_scrub (h (c, e) List.mem_cons_self)
    have hrest := fun p hp => h p (List.mem_cons_of_mem _ hp)
    rw [scrubEvents, replayEvents, replayEvents]
    rcases hc : c.applyEvent debug e with ⟨outcome, c₁⟩
    rcases hc' : c.applyEvent debug (scrubEnvelope c.snapshot e) with ⟨outcome', c₂⟩
    rw [hc, hc'] at halike
    rw [hc] at hrest
    obtain ⟨rfl, hcore⟩ : outcome = outcome' ∧ c₁.core = c₂.core := halike
    cases outcome with
    | applied | duplicate | ignoredNonPublic | reconciled =>
      exact (ih hrest).trans (replayEvents_congr hcore)
    | resyncRequired reason =>
      exact ⟨rfl, congrArg (fun k => { k with lastResyncReason := some reason }) hcore⟩
    | error => exact ⟨rfl, hcore⟩

theorem acceptReplay_scrub {batch : ProjectionReplayBatch}
    (h : ∀ p ∈ batchSteps debug c batch, StartsPublic p.1 p.2) :
    Alike (c.acceptReplay debug batch) (c.acceptReplay debug (scrubBatch debug c batch)) := by
  refine acceptReplay_alike ?_ rfl rfl fun counts hok => ?_
  · rw [installBatchSnapshot_scrub]
    exact ⟨rfl, rfl⟩
  · rw [installBatchSnapshot_scrub]
    refine replayEvents_scrub fun p hp => h p ?_
    rw [batchSteps]
    rcases hc : c.installBatchSnapshot batch with ⟨answer, c₁⟩
    rw [hc] at hok hp
    cases hok
    exact hp

theorem acceptResync_scrub (c : HeadlessProjectionConsumer) (reason : ProjectionResyncReason)
    (descriptor : Option ProjectionStreamDescriptor) (bundle : Option ProjectionSnapshotBundle) :
    (c.acceptResync reason descriptor (bundle.map scrubBundle)).2 =
      (c.acceptResync reason descriptor bundle).2 := by
  cases descriptor with
  | none => rfl
  | some descriptor =>
    cases bundle with
    | none => rfl
    | some bundle =>
      have hseq : bundleSeq (scrubBundle bundle) = bundleSeq bundle := by cases bundle <;> rfl
      simp only [acceptResync, Option.map_some, hseq, acceptSubscribed_scrub]

theorem perform_scrub {call : Call} (h : ∀ p ∈ callSteps debug c call, StartsPublic p.1 p.2) :
    (c.perform debug call).core = (c.perform debug (scrubCall debug c call)).core := by
  cases call with
  | connect | disconnect => rfl
  | acceptSubscribed subscriptionId descriptor bundle cursor =>
    simp only [scrubCall, perform, acceptSubscribed_scrub]
  | acceptReplay batch => exact (acceptReplay_scrub h).2
  | applyEvent e => exact (applyEvent_scrub (h _ (List.mem_singleton_self _))).2
  | acceptResponse response =>
    cases response with
    | projectionSubscribed subscriptionId descriptor bundle cursor =>
      simp only [scrubCall, scrubResponse, perform, acceptResponse, acceptSubscribed_scrub]
    | projectionReplay subscriptionId batch => exact (acceptReplay_scrub h).2
    | projectionResyncRequired reason descriptor bundle =>
      exact (congrArg core (acceptResync_scrub c reason descriptor bundle)).symm
    | projectionCapabilitiesResponse | projectionArtifactList | projectionArtifactRead | other =>
      rfl

/-- A run over the scrubbed calls ends with the same consumer. -/
theorem run_scrub {calls : List Call} (h : ∀ p ∈ runSteps debug c calls, StartsPublic p.1 p.2) :
    (c.run debug calls).core = (c.run debug (scrubRun debug c calls)).core := by
  induction calls generalizing c with
  | nil => rfl
  | cons call calls ih =>
    have hcall := perform_scrub fun p hp => h p (List.mem_append_left _ hp)
    have hcalls := ih fun p hp => h p (List.mem_append_right _ hp)
    exact hcalls.trans (run_congr hcall)

/-- When the turns that events start hold public messages and tools only, so does the
consumer's snapshot, and runs that differ only in the text of what is not public end with the
same snapshot. -/
theorem run_visibility (capabilities : ProjectionCapabilities) (calls calls' : List Call)
    (h : ∀ p ∈ runSteps debug (withCapabilities capabilities) calls, StartsPublic p.1 p.2)
    (h' : ∀ p ∈ runSteps debug (withCapabilities capabilities) calls', StartsPublic p.1 p.2) :
    (∀ s, ((withCapabilities capabilities).run debug calls).snapshot = some s → PublicOnly s) ∧
      (scrubRun debug (withCapabilities capabilities) calls =
          scrubRun debug (withCapabilities capabilities) calls' →
        ((withCapabilities capabilities).run debug calls).snapshot =
          ((withCapabilities capabilities).run debug calls').snapshot) := by
  refine ⟨run_public capabilities h, fun hsame => ?_⟩
  have hcore : ((withCapabilities capabilities).run debug calls).core =
      ((withCapabilities capabilities).run debug calls').core := by
    rw [run_scrub h, run_scrub h', hsame]
  exact congrArg (·.snapshot) hcore

end Scrub

/-- A turn with one message. -/
def sampleTurn (visibility : VisibilityClass) (text : String) : TurnProjection where
  turnId := "t"
  status := .active
  startedAt := 0
  updatedAt := 0
  stopReason := none
  error := none
  messages := [{
    messageId := "m"
    parentTurnId := "t"
    role := .assistant
    text := text
    toolCallId := none
    visibility := visibility
    createdAt := 0
    truncated := false }]
  tools := []
  pendingPermissions := []
  pendingQuestions := []
  agentTree := []
  subagentCount := 0
  inputTokens := none
  outputTokens := none
  cachedTokens := none
  reasoningTokens := none
  contextLimit := none

/-- A public turn, then an internal message and some reasoning. -/
def reasoningCalls (text : String) : List Call :=
  [.connect {}, .acceptSubscribed "sub" sampleDescriptor (.one sampleSnapshot) ⟨"session-s", 0, 1⟩,
    .applyEvent (sampleEnvelope 1 (.turnStarted (sampleTurn .pub "hello"))),
    .applyEvent (sampleEnvelope 2 (.messageAppended {
      messageId := "n"
      parentTurnId := "t"
      role := .system
      text := text
      toolCallId := none
      visibility := .internal
      createdAt := 0
      truncated := false })),
    .applyEvent (sampleEnvelope 3 (.reasoningAppended "m" text))]

theorem run_visibility_reasoningCalls :
    ((withCapabilities {}).run plainDebug (reasoningCalls "red")).snapshot =
      ((withCapabilities {}).run plainDebug (reasoningCalls "green")).snapshot := by
  have hred : ∀ p ∈ runSteps plainDebug (withCapabilities {}) (reasoningCalls "red"),
      startsPublic p.2 = true := by decide +kernel
  have hgreen : ∀ p ∈ runSteps plainDebug (withCapabilities {}) (reasoningCalls "green"),
      startsPublic p.2 = true := by decide +kernel
  exact (run_visibility {} (reasoningCalls "red") (reasoningCalls "green")
    (fun p hp => startsPublic_spec p.1 (hred p hp))
    (fun p hp => startsPublic_spec p.1 (hgreen p hp))).2 rfl

/-- A turn that starts with an internal message. -/
def leakingCalls : List Call :=
  [.connect {}, .acceptSubscribed "sub" sampleDescriptor (.one sampleSnapshot) ⟨"session-s", 0, 1⟩,
    .applyEvent (sampleEnvelope 1 (.turnStarted (sampleTurn .internal "secret")))]

/-- The internal message of a started turn is in the consumer's snapshot. -/
theorem started_turn_leaks :
    ∃ s, ((withCapabilities {}).run plainDebug leakingCalls).snapshot = some s ∧
      ¬ PublicOnly s := by
  have hheld : ((withCapabilities {}).run plainDebug leakingCalls).snapshot.map
      (fun s => s.activeTurn.map fun turn => turn.messages.map (·.visibility)) =
      some (some [.internal]) := by decide +kernel
  obtain ⟨s, hs, hactive⟩ := Option.map_eq_some_iff.mp hheld
  obtain ⟨turn, hturn, hmessages⟩ := Option.map_eq_some_iff.mp hactive
  refine ⟨s, hs, fun hpublic => ?_⟩
  have hmem : VisibilityClass.internal ∈ turn.messages.map (·.visibility) := by simp [hmessages]
  obtain ⟨m, hm, hinternal⟩ := List.mem_map.mp hmem
  have := (hpublic.active turn hturn).messages m hm
  rw [hinternal] at this
  cases this

end HeadlessProjectionConsumer

end Codegg.Projection
