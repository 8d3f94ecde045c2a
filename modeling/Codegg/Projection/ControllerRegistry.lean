import Codegg.Projection.Controller

/-!
# The controller's registry of subscriptions

The records and the snapshots of a controller belong together: at most as many records as
the limit allows, no stream and no subscription id twice, a snapshot for exactly the streams
that have a record, and each record delivered up to where its snapshot stands.

`install_subscription` does not look at the subscription id it is given and `install_replay`
neither at the stream nor at the number of subscriptions. In a run whose installations meet
these conditions the registry stays well formed.
-/
namespace Codegg.Projection

open Codegg.Library ProjectionReducer ProjectionClientController

variable {descriptor : ProjectionStreamDescriptor} {r : SubscriptionRecord}

namespace ProjectionClientController

variable {debug : Option String → String} {c c' : ProjectionClientController}
  {subscriptionId : ProjectionSubscriptionId}

structure Registry (c : ProjectionClientController) : Prop where
  limit : c.subscriptions.length ≤ maxControllerSubscriptions
  streams : (c.subscriptions.map (·.streamId)).Nodup
  ids : (c.subscriptions.map (·.subscriptionId)).Nodup
  keys : ∀ streamId, (c.snapshots streamId).isSome ↔
    streamId ∈ c.subscriptions.map (·.streamId)
  seqs : ∀ r ∈ c.subscriptions, ∀ s, c.snapshots r.streamId = some s →
    r.lastDeliveredSeq = s.eventSeq
  acks : ∀ r ∈ c.subscriptions, r.lastAckedSeq ≤ r.lastDeliveredSeq

theorem registry_empty (hsubs : c.subscriptions = []) (hsnaps : c.snapshots = fun _ => none) :
    Registry c := by
  constructor <;> simp [hsubs, hsnaps]

/-- The registry is about the records and the snapshots only. -/
theorem Registry.congr (h : Registry c) (hsubs : c'.subscriptions = c.subscriptions)
    (hsnaps : c'.snapshots = c.snapshots) : Registry c' where
  limit := by rw [hsubs]; exact h.limit
  streams := by rw [hsubs]; exact h.streams
  ids := by rw [hsubs]; exact h.ids
  keys := by rw [hsubs, hsnaps]; exact h.keys
  seqs := by rw [hsubs, hsnaps]; exact h.seqs
  acks := by rw [hsubs]; exact h.acks

/-- A record for a new id and a new stream, below the limit. -/
theorem Registry.add (h : Registry c) {snapshot : SessionProjectionSnapshot}
    (hlimit : c.subscriptions.length < maxControllerSubscriptions)
    (hstream : descriptor.streamId ∉ c.subscriptions.map (·.streamId))
    (hid : subscriptionId ∉ c.subscriptions.map (·.subscriptionId)) (hsubs : c'.subscriptions =
      c.subscriptions ++ [freshRecord subscriptionId descriptor snapshot.eventSeq])
    (hsnaps : c'.snapshots = Function.update c.snapshots descriptor.streamId (some snapshot)) :
    Registry c' where
  limit := by
    rw [hsubs, List.length_append, List.length_singleton]
    omega
  streams := by
    rw [hsubs, List.map_append, List.nodup_append]
    refine ⟨h.streams, List.nodup_singleton _, ?_⟩
    intro a ha b hb hab
    rw [List.map_singleton, List.mem_singleton] at hb
    have he : a = descriptor.streamId := hab.trans hb
    exact hstream (he ▸ ha)
  ids := by
    rw [hsubs, List.map_append, List.nodup_append]
    refine ⟨h.ids, List.nodup_singleton _, ?_⟩
    intro a ha b hb hab
    rw [List.map_singleton, List.mem_singleton] at hb
    have he : a = subscriptionId := hab.trans hb
    exact hid (he ▸ ha)
  keys := by
    intro streamId
    rw [hsubs, hsnaps]
    by_cases hs : streamId = descriptor.streamId
    · subst hs
      simp [freshRecord, SubscriptionRecord.streamId]
    · have hne : streamId ≠ (freshRecord subscriptionId descriptor snapshot.eventSeq).streamId := hs
      simp [Function.update_of_ne hs, hne, h.keys streamId]
  seqs := by
    intro r hr s hs
    rw [hsubs, List.mem_append, List.mem_singleton] at hr
    rw [hsnaps] at hs
    rcases hr with hr | rfl
    · have hne : r.streamId ≠ descriptor.streamId := fun he =>
        hstream (he ▸ List.mem_map_of_mem hr)
      rw [Function.update_of_ne hne] at hs
      exact h.seqs r hr s hs
    · have hs' : some snapshot = some s := by
        simpa [freshRecord, SubscriptionRecord.streamId] using hs
      cases hs'
      rfl
  acks := by
    intro r hr
    rw [hsubs, List.mem_append, List.mem_singleton] at hr
    rcases hr with hr | rfl
    · exact h.acks r hr
    · exact le_rfl

theorem record_mem (h : c.record subscriptionId = some r) :
    r ∈ c.subscriptions ∧ r.subscriptionId = subscriptionId :=
  ⟨List.mem_of_find?_eq_some h, by simpa using List.find?_some h⟩

/-- Records are told apart by their stream and by their id. -/
theorem Registry.eq_of_subscriptionId (h : Registry c) {r' : SubscriptionRecord}
    (hr : r ∈ c.subscriptions) (hr' : r' ∈ c.subscriptions)
    (he : r.subscriptionId = r'.subscriptionId) : r = r' :=
  List.inj_on_of_nodup_map h.ids hr hr' he

theorem Registry.eq_of_streamId (h : Registry c) {r' : SubscriptionRecord}
    (hr : r ∈ c.subscriptions) (hr' : r' ∈ c.subscriptions) (he : r.streamId = r'.streamId) :
    r = r' :=
  List.inj_on_of_nodup_map h.streams hr hr' he

/-- A record leaves together with its snapshot. -/
theorem Registry.remove (h : Registry c) (hr : c.record subscriptionId = some r)
    (hsubs : c'.subscriptions =
      c.subscriptions.filter fun r => r.subscriptionId != subscriptionId)
    (hsnaps : c'.snapshots = Function.update c.snapshots r.streamId none) : Registry c' := by
  obtain ⟨hmem, hid⟩ := record_mem hr
  have hsub : c'.subscriptions.Sublist c.subscriptions := hsubs ▸ List.filter_sublist
  have hkept : ∀ x ∈ c'.subscriptions, x ∈ c.subscriptions ∧ x.streamId ≠ r.streamId := by
    intro x hx
    rw [hsubs, List.mem_filter] at hx
    refine ⟨hx.1, fun he => ?_⟩
    have : x = r := h.eq_of_streamId hx.1 hmem he
    simp [this, hid] at hx
  exact {
    limit := hsub.length_le.trans h.limit
    streams := h.streams.sublist (hsub.map _)
    ids := h.ids.sublist (hsub.map _)
    keys := by
      intro streamId
      rw [hsnaps]
      by_cases hs : streamId = r.streamId
      · subst hs
        simp only [Function.update_self, Option.isSome_none, Bool.false_eq_true, false_iff]
        intro hin
        obtain ⟨x, hx, he⟩ := List.mem_map.mp hin
        exact (hkept x hx).2 he
      · rw [Function.update_of_ne hs, h.keys]
        constructor
        · intro hin
          obtain ⟨x, hx, rfl⟩ := List.mem_map.mp hin
          refine List.mem_map_of_mem ?_
          rw [hsubs, List.mem_filter]
          refine ⟨hx, ?_⟩
          have hne : x.subscriptionId ≠ subscriptionId := fun he =>
            hs (congrArg _ (h.eq_of_subscriptionId hx hmem (he.trans hid.symm)))
          simp [hne]
        · intro hin
          obtain ⟨x, hx, rfl⟩ := List.mem_map.mp hin
          exact List.mem_map_of_mem (hkept x hx).1
    seqs := by
      intro x hx s hs
      rw [hsnaps, Function.update_of_ne (hkept x hx).2] at hs
      exact h.seqs x (hkept x hx).1 s hs
    acks := fun x hx => h.acks x (hkept x hx).1 }

/-- A record and its snapshot move together. -/
theorem Registry.update (h : Registry c) {f : SubscriptionRecord → SubscriptionRecord}
    {s : SessionProjectionSnapshot} (hr : c.record subscriptionId = some r)
    (hstream : ∀ x, (f x).streamId = x.streamId)
    (hid : ∀ x, (f x).subscriptionId = x.subscriptionId)
    (hseq : (f r).lastDeliveredSeq = s.eventSeq)
    (hack : (f r).lastAckedSeq ≤ (f r).lastDeliveredSeq)
    (hsubs : c'.subscriptions = (c.updateRecord subscriptionId f).subscriptions)
    (hsnaps : c'.snapshots = Function.update c.snapshots r.streamId (some s)) : Registry c' := by
  obtain ⟨hmem, hrid⟩ := record_mem hr
  have hmap : c'.subscriptions =
      c.subscriptions.map fun x => if x.subscriptionId = subscriptionId then f x else x := by
    have hin : subscriptionId ∈ c.subscriptions.map (·.subscriptionId) :=
      hrid ▸ List.mem_map_of_mem hmem
    rw [hsubs, updateRecord, updateFirst_eq_map h.ids hin]
    rfl
  have hcases : ∀ x ∈ c'.subscriptions,
      x = f r ∨ (x ∈ c.subscriptions ∧ x.streamId ≠ r.streamId) := by
    intro x hx
    rw [hmap] at hx
    obtain ⟨y, hy, rfl⟩ := List.mem_map.mp hx
    by_cases hyid : y.subscriptionId = subscriptionId
    · rw [if_pos hyid, h.eq_of_subscriptionId hy hmem (hyid.trans hrid.symm)]
      exact .inl rfl
    · rw [if_neg hyid]
      refine .inr ⟨hy, fun he => hyid ?_⟩
      rw [h.eq_of_streamId hy hmem he, hrid]
  have hstreams : c'.subscriptions.map (·.streamId) = c.subscriptions.map (·.streamId) := by
    rw [hmap, List.map_map]
    refine List.map_congr_left fun x _ => ?_
    simp only [Function.comp]
    split
    · exact hstream x
    · rfl
  have hids : c'.subscriptions.map (·.subscriptionId) =
      c.subscriptions.map (·.subscriptionId) := by
    rw [hmap, List.map_map]
    refine List.map_congr_left fun x _ => ?_
    simp only [Function.comp]
    split
    · exact hid x
    · rfl
  exact {
    limit := by
      rw [hmap, List.length_map]
      exact h.limit
    streams := hstreams ▸ h.streams
    ids := hids ▸ h.ids
    keys := by
      intro streamId
      rw [hsnaps, hstreams]
      by_cases hs : streamId = r.streamId
      · subst hs
        simpa using ⟨r, hmem, rfl⟩
      · rw [Function.update_of_ne hs]
        exact h.keys streamId
    seqs := by
      intro x hx t ht
      rw [hsnaps] at ht
      rcases hcases x hx with rfl | ⟨hx, hne⟩
      · rw [hstream, Function.update_self] at ht
        cases ht
        exact hseq
      · rw [Function.update_of_ne hne] at ht
        exact h.seqs x hx t ht
    acks := by
      intro x hx
      rcases hcases x hx with rfl | ⟨hx, -⟩
      · exact hack
      · exact h.acks x hx }

/-- A record keeps its place when its snapshot does. -/
theorem Registry.updateRecord (h : Registry c) {f : SubscriptionRecord → SubscriptionRecord}
    (hstream : ∀ x, (f x).streamId = x.streamId)
    (hid : ∀ x, (f x).subscriptionId = x.subscriptionId)
    (hseq : ∀ x, (f x).lastDeliveredSeq = x.lastDeliveredSeq)
    (hack : ∀ x, x.lastAckedSeq ≤ x.lastDeliveredSeq →
      (f x).lastAckedSeq ≤ (f x).lastDeliveredSeq) :
    Registry (c.updateRecord subscriptionId f) := by
  cases hr : c.record subscriptionId with
  | none =>
    refine h.congr ?_ rfl
    rw [ProjectionClientController.updateRecord, updateFirst_eq_none_iff.mpr hr]
    rfl
  | some r =>
    obtain ⟨hmem, -⟩ := record_mem hr
    have hheld : (c.snapshots r.streamId).isSome := (h.keys _).mpr (List.mem_map_of_mem hmem)
    obtain ⟨s, hs⟩ := Option.isSome_iff_exists.mp hheld
    refine h.update hr hstream hid ((hseq r).trans (h.seqs r hmem s hs)) (hack r (h.acks r hmem))
      rfl ?_
    rw [← hs, Function.update_eq_self]
    rfl

theorem negotiate_registry (h : Registry c) (daemon : Option ProjectionCapabilities) :
    Registry (c.negotiate daemon) := by
  cases daemon with
  | none => exact h.congr rfl rfl
  | some daemon =>
    dsimp only [negotiate]
    split
    · split <;> exact h.congr rfl rfl
    · exact h.congr rfl rfl

/-- A subscription that passes the checks of `install_subscription` has an id of its own. -/
def FreshId (c : ProjectionClientController) (subscriptionId : ProjectionSubscriptionId)
    (descriptor : ProjectionStreamDescriptor) : Prop :=
  c.mode = .projectionPrimary → c.subscriptions.length < maxControllerSubscriptions →
    c.holdsStream descriptor.streamId = false →
    subscriptionId ∉ c.subscriptions.map (·.subscriptionId)

theorem not_mem_of_holdsStream {streamId : ProjectionStreamId}
    (h : ¬ c.holdsStream streamId = true) : streamId ∉ c.subscriptions.map (·.streamId) := by
  simpa [holdsStream] using h

theorem installSubscription_registry (h : Registry c) (snapshot : SessionProjectionSnapshot)
    (hid : FreshId c subscriptionId descriptor) :
    Registry (c.installSubscription subscriptionId descriptor snapshot).2 := by
  rw [installSubscription]
  split
  · exact h
  · rename_i hmode
    split
    · exact h.congr rfl rfl
    · split
      · exact h.congr rfl rfl
      · rename_i hstream
        have hlimit : c.subscriptions.length < maxControllerSubscriptions := by omega
        exact h.add hlimit (not_mem_of_holdsStream hstream)
          (hid (not_not.mp hmode) hlimit (by simpa using hstream)) rfl rfl

/-- A replay that is accepted replaces the record of its own stream or adds one for a new
stream below the limit. -/
def ReplaysOwnStream (debug : Option String → String) (c : ProjectionClientController)
    (subscriptionId : ProjectionSubscriptionId) (descriptor : ProjectionStreamDescriptor)
    (events : List ProjectionEnvelope) (initial : SessionProjectionSnapshot) : Prop :=
  c.mode = .projectionPrimary → (replayAll debug initial events).isSome →
    (c.subscriptions.filter fun r => r.subscriptionId != subscriptionId).length <
      maxControllerSubscriptions ∧
    ∀ r ∈ c.subscriptions, r.subscriptionId = subscriptionId ↔ r.streamId = descriptor.streamId

theorem installReplay_registry (h : Registry c) {events : List ProjectionEnvelope}
    (snapshot : Option ProjectionSnapshotBundle) {initial : SessionProjectionSnapshot}
    (hown : ReplaysOwnStream debug c subscriptionId descriptor events initial) :
    Registry (c.installReplay debug subscriptionId descriptor events snapshot initial).2 := by
  rw [installReplay]
  split
  · exact h
  · rename_i hmode
    split
    · exact h.congr rfl rfl
    · rename_i current hreplay
      obtain ⟨hlimit, hown⟩ := hown (not_not.mp hmode) (by rw [hreplay]; rfl)
      have hid : subscriptionId ∉
          (c.subscriptions.filter fun r => r.subscriptionId != subscriptionId).map
            (·.subscriptionId) := by
        intro hin
        obtain ⟨x, hx, he⟩ := List.mem_map.mp hin
        simp [he] at hx
      have hstream : descriptor.streamId ∉
          (c.subscriptions.filter fun r => r.subscriptionId != subscriptionId).map
            (·.streamId) := by
        intro hin
        obtain ⟨x, hx, he⟩ := List.mem_map.mp hin
        rw [List.mem_filter] at hx
        simp [(hown x hx.1).mpr he] at hx
      cases hr : c.record subscriptionId with
      | none =>
        have hall : c.subscriptions.filter (fun r => r.subscriptionId != subscriptionId) =
            c.subscriptions := by
          refine List.filter_eq_self.mpr fun x hx => ?_
          have := List.find?_eq_none.mp hr x hx
          simpa using this
        rw [hall] at hlimit hid hstream
        exact h.add hlimit hstream hid (by rw [hall]) rfl
      | some r =>
        -- the old record goes with its snapshot, which is that of the same stream
        obtain ⟨hmem, hrid⟩ := record_mem hr
        have hremoved : Registry { c with
            subscriptions := c.subscriptions.filter fun r => r.subscriptionId != subscriptionId
            snapshots := Function.update c.snapshots r.streamId none } :=
          h.remove hr rfl rfl
        refine hremoved.add hlimit hstream hid rfl ?_
        rw [(hown r hmem).mp hrid, Function.update_idem]

theorem applyEnvelopeOnStream_registry (h : Registry c) (streamId : ProjectionStreamId)
    (envelope : ProjectionEnvelope) :
    Registry (c.applyEnvelopeOnStream debug subscriptionId streamId envelope).2 := by
  rw [applyEnvelopeOnStream]
  split
  · exact h
  split
  · exact h.congr rfl rfl
  rename_i r hr
  split
  · exact h.congr rfl rfl
  split
  · exact h.congr rfl rfl
  split
  · exact h.congr rfl rfl
  split
  · exact h
  split
  · exact h.congr rfl rfl
  rename_i snapshot hsnapshot
  obtain ⟨hmem, hrid⟩ := record_mem hr
  have hseq := apply_eventSeq snapshot envelope.toInput debug {}
  have hplace := h.seqs r hmem snapshot hsnapshot
  have hacked := h.acks r hmem
  rcases hanswer : apply snapshot envelope.toInput debug {} with ⟨outcome, s⟩
  rw [hanswer] at hseq
  -- an answer that does not advance leaves the snapshot where the record stands
  have hkeep : s.eventSeq = snapshot.eventSeq → Registry { c with
      snapshots := Function.update c.snapshots r.streamId (some s) } := by
    intro hsame
    have hid : c.subscriptions = (c.updateRecord subscriptionId id).subscriptions := by
      have hin : subscriptionId ∈ c.subscriptions.map (·.subscriptionId) :=
        hrid ▸ List.mem_map_of_mem hmem
      rw [updateRecord, updateFirst_eq_map h.ids hin]
      simp
    exact h.update hr (fun _ => rfl) (fun _ => rfl) (hplace.trans hsame.symm) hacked hid rfl
  have hmove : ∀ {c'' : ProjectionClientController}, s.eventSeq = envelope.eventSeq →
      envelope.eventSeq > r.lastDeliveredSeq →
      c''.subscriptions =
        (c.updateRecord subscriptionId (delivered envelope.eventSeq)).subscriptions →
      c''.snapshots = Function.update c.snapshots r.streamId (some s) → Registry c'' := by
    intro c'' hs hnewer hsubs hsnaps
    have hback : (delivered envelope.eventSeq r).lastAckedSeq ≤
        (delivered envelope.eventSeq r).lastDeliveredSeq := hacked.trans (le_of_lt hnewer)
    exact h.update (f := delivered envelope.eventSeq) (s := s) hr (fun _ => rfl) (fun _ => rfl)
      hs.symm hback hsubs hsnaps
  have hnewer : envelope.eventSeq > r.lastDeliveredSeq := by
    omega
  cases outcome with
  | applied => exact hmove hseq hnewer rfl rfl
  | reconciled => exact hmove hseq hnewer rfl rfl
  | duplicate => exact hkeep hseq
  | scopeMismatch => exact hkeep hseq
  | resyncRequired =>
    have hmarked : Registry (updateRecord { c with
        snapshots := Function.update c.snapshots r.streamId (some s) } subscriptionId
        fun r => { r with state := .resyncRequired }) :=
      (hkeep hseq).updateRecord (fun _ => rfl) (fun _ => rfl) (fun _ => rfl) fun _ hx => hx
    exact hmarked.congr rfl rfl
  | error err =>
    cases err with
    | unsupportedProtocolVersion => exact (hkeep hseq).congr rfl rfl
    | sequenceRegression => exact hkeep hseq
    | scopeMismatch => exact hkeep hseq

theorem acked_registry (h : Registry c) : Registry (c.updateRecord subscriptionId acked) :=
  h.updateRecord (fun _ => rfl) (fun _ => rfl) (fun _ => rfl) fun _ _ => le_rfl

theorem unsubscribe_registry (h : Registry c) : Registry (c.unsubscribe subscriptionId).2 := by
  rw [unsubscribe]
  split
  · exact h
  · rename_i r hr
    exact h.remove hr (eraseP_eq_filter subscriptionId h.ids) rfl

/-- The condition an operation has to meet in the state it finds. -/
def Admissible (debug : Option String → String) (c : ProjectionClientController) :
    Operation → Prop
  | .installSubscription subscriptionId descriptor _ => FreshId c subscriptionId descriptor
  | .installReplay subscriptionId descriptor events _ initial =>
      ReplaysOwnStream debug c subscriptionId descriptor events initial
  | _ => True

theorem perform_registry (h : Registry c) {op : Operation} (hop : Admissible debug c op) :
    Registry (c.perform debug op) := by
  cases op with
  | negotiate daemon => exact negotiate_registry h daemon
  | installSubscription subscriptionId descriptor snapshot =>
    exact installSubscription_registry h snapshot hop
  | installReplay subscriptionId descriptor events snapshot initial =>
    exact installReplay_registry h snapshot hop
  | applyEnvelopeOnStream subscriptionId streamId envelope =>
    exact applyEnvelopeOnStream_registry h streamId envelope
  | requestResync subscriptionId reason =>
    have hmarked : Registry { c with lastResyncReason := some reason } := h.congr rfl rfl
    exact hmarked.updateRecord (fun _ => rfl) (fun _ => rfl) (fun _ => rfl) fun _ hx => hx
  | tryAck subscriptionId =>
    show Registry (c.tryAck subscriptionId).2
    rw [tryAck]
    split
    · exact h
    · split
      · exact h
      · exact acked_registry h
  | forceAck subscriptionId =>
    show Registry (c.forceAck subscriptionId).2
    rw [forceAck]
    split
    · exact h
    · exact acked_registry h
  | unsubscribe subscriptionId => exact unsubscribe_registry h
  | enterRawCompatibility reason => exact registry_empty rfl rfl
  | onReconnect => exact registry_empty rfl rfl

def run (debug : Option String → String) (c : ProjectionClientController) (ops : List Operation) :
    ProjectionClientController :=
  ops.foldl (fun c op => c.perform debug op) c

/-- Every operation of the run meets its condition in the state it finds. -/
def AdmissibleRun (debug : Option String → String) (c : ProjectionClientController) :
    List Operation → Prop
  | [] => True
  | op :: ops => Admissible debug c op ∧ AdmissibleRun debug (c.perform debug op) ops

theorem Registry.run (h : Registry c) {ops : List Operation}
    (hops : AdmissibleRun debug c ops) : Registry (c.run debug ops) := by
  induction ops generalizing c with
  | nil => exact h
  | cons op ops ih => exact ih (perform_registry h hops.1) hops.2

/-- The registry of a controller stays well formed over every run whose installations use
fresh subscription ids and whose replays keep to their own stream and to the limit. -/
theorem run_registry (debug : Option String → String) (capabilities : ProjectionCapabilities)
    (ops : List Operation) (hops : AdmissibleRun debug (new capabilities) ops) :
    Registry ((new capabilities).run debug ops) :=
  Registry.run (registry_empty rfl rfl) hops

/-- A subscription that is replayed under its own id. -/
def sampleOperations : List Operation :=
  [.negotiate (some {}),
    .installSubscription "one" sampleDescriptor sampleSnapshot,
    .applyEnvelopeOnStream "one" "session-s" (sampleEnvelope 1 (.runProgress "r" "half way" 5)),
    .tryAck "one",
    .installReplay "one" sampleDescriptor [sampleEnvelope 1 (.runProgress "r" "half way" 5)] none
      sampleSnapshot,
    .forceAck "one"]

theorem run_registry_sampleOperations :
    Registry ((new {}).run plainDebug sampleOperations) := by
  refine run_registry plainDebug {} sampleOperations
    ⟨trivial, ?_, trivial, trivial, ?_, trivial, trivial⟩
  · intro _ _ _
    exact List.not_mem_nil
  · intro _ _
    decide +kernel

/-- The replay under a second id does not look at the streams that are held already. -/
theorem replay_duplicates_stream :
    ¬ Registry ((new {}).run plainDebug
      [.negotiate (some {}),
        .installSubscription "one" sampleDescriptor sampleSnapshot,
        .installReplay "two" sampleDescriptor [] none sampleSnapshot]) := by
  intro h
  have hstreams := h.streams
  revert hstreams
  decide +kernel

end ProjectionClientController

end Codegg.Projection
