import Codegg.Projection.ControllerRegistry
import Codegg.Projection.ConsumerCursor

/-!
# Deliveries to a subscription

An envelope that passes the controller's checks and is newer than the last one delivered
goes to the reducer, also when envelopes between the two are missing. In a run in which no
envelope reaches the reducer out of order, out of the snapshot's session or as a resync
signal, the subscription's snapshot is the reducer folded over consecutive events of the
stream, and what would leave a gap is answered with a resync request, as by the headless
consumer.
-/
namespace Codegg.Projection

open Codegg.Library ProjectionReducer

namespace ProjectionClientController

/-- An envelope with the stream the transport delivers it on. -/
abbrev Delivery := ProjectionStreamId × ProjectionEnvelope

section Runs

variable (debug : Option String → String) (c : ProjectionClientController)
  (subscriptionId : ProjectionSubscriptionId)

def deliver (d : Delivery) : ControllerApplyOutcome × ProjectionClientController :=
  c.applyEnvelopeOnStream debug subscriptionId d.1 d.2

def deliverAll (deliveries : List Delivery) : ProjectionClientController :=
  deliveries.foldl (fun c d => (deliver debug c subscriptionId d).2) c

/-- The envelope passes every check before the reducer's scope check. -/
def ReachesReducer (r : SubscriptionRecord) (d : Delivery) : Prop :=
  c.mode = .projectionPrimary ∧
    d.2.protocolVersion = c.negotiatedVersion.getD d.2.protocolVersion ∧
    r.streamId = d.1 ∧ offSession r d.2 = false ∧ r.lastDeliveredSeq < d.2.eventSeq ∧
    versionSupported {} d.2.protocolVersion = true

/-- An envelope that reaches the reducer is the next one, of the snapshot's session and not a
resync signal. -/
def InOrder (d : Delivery) : Prop :=
  ∀ r snapshot, c.record subscriptionId = some r → c.snapshots r.streamId = some snapshot →
    ReachesReducer c r d → d.2.eventSeq = r.lastDeliveredSeq + 1 ∧
      checkScope snapshot d.2.toInput {} = true ∧ d.2.payload.isResyncRequired = false

instance (r : SubscriptionRecord) (d : Delivery) : Decidable (ReachesReducer c r d) :=
  inferInstanceAs (Decidable (_ ∧ _))

instance (d : Delivery) : Decidable (InOrder c subscriptionId d) :=
  match hr : c.record subscriptionId with
  | none => isTrue fun r snapshot h => by simp [hr] at h
  | some r =>
    match hs : c.snapshots r.streamId with
    | none => isTrue fun r' snapshot h h' => by simp_all
    | some snapshot =>
      decidable_of_iff (ReachesReducer c r d → d.2.eventSeq = r.lastDeliveredSeq + 1 ∧
          checkScope snapshot d.2.toInput {} = true ∧ d.2.payload.isResyncRequired = false)
        ⟨fun h r' snapshot' hr' hs' => by simp_all, fun h => h r snapshot hr hs⟩

/-- Every delivery is in order in the state it finds. -/
def InOrderRun (c : ProjectionClientController) : List Delivery → Prop
  | [] => True
  | d :: deliveries =>
    InOrder c subscriptionId d ∧ InOrderRun (deliver debug c subscriptionId d).2 deliveries

instance decidableInOrderRun (c : ProjectionClientController) :
    (deliveries : List Delivery) → Decidable (InOrderRun debug subscriptionId c deliveries)
  | [] => isTrue trivial
  | d :: deliveries =>
    have := decidableInOrderRun (deliver debug c subscriptionId d).2 deliveries
    inferInstanceAs (Decidable (_ ∧ _))

/-- The canonical reducer, one envelope after another. -/
def reduceAll (snapshot : SessionProjectionSnapshot) (envelopes : List ProjectionEnvelope) :
    SessionProjectionSnapshot :=
  envelopes.foldl (fun s e => (apply s e.toInput debug {}).2) snapshot

/-- The subscription holds a snapshot of its stream and has delivered all of it. -/
def Holds (streamId : ProjectionStreamId) (snapshot : SessionProjectionSnapshot) : Prop :=
  ∃ r, c.record subscriptionId = some r ∧ r.streamId = streamId ∧
    c.snapshots streamId = some snapshot ∧ r.lastDeliveredSeq = snapshot.eventSeq

/-- The subscription's snapshot is the reducer folded over envelopes that were delivered on
its stream, from the one after `base` to the last delivered one without a gap. -/
def FoldsRun (streamId : ProjectionStreamId) (base : SessionProjectionSnapshot)
    (deliveries : List Delivery) : Prop :=
  ∃ envelopes : List ProjectionEnvelope,
    envelopes.Sublist ((deliveries.filter fun d => d.1 == streamId).map (·.2)) ∧
    envelopes.map (·.eventSeq) = List.range' (base.eventSeq + 1) envelopes.length ∧
    (reduceAll debug base envelopes).eventSeq = base.eventSeq + envelopes.length ∧
    Holds c subscriptionId streamId (reduceAll debug base envelopes)

/-- The envelope skips events the subscription has not seen. -/
def LeavesGap (d : Delivery) : Prop :=
  c.mode = .projectionPrimary ∧
    ∃ r, c.record subscriptionId = some r ∧ r.lastDeliveredSeq + 1 < d.2.eventSeq

/-- The controller asks for a resync and leaves its snapshots alone, and so does a headless
consumer that the envelope leaves a gap for. -/
def ResyncsInstead (d : Delivery) : Prop :=
  (∃ reason lastSeq envelopeSeq,
    (deliver debug c subscriptionId d).1 = .resyncRequested reason lastSeq envelopeSeq) ∧
  (deliver debug c subscriptionId d).2.snapshots = c.snapshots ∧
  ∀ (consumer : HeadlessProjectionConsumer) (cursor : ProjectionCursor)
    (descriptor : ProjectionStreamDescriptor), consumer.cursor = some cursor →
    consumer.descriptor = some descriptor → cursor.eventSeq + 1 < d.2.eventSeq →
    (∃ reason, (consumer.applyEvent debug d.2).1 = .resyncRequired reason cursor) ∧
      (consumer.applyEvent debug d.2).2.snapshot = consumer.snapshot

/-- No event is lost silently: after every delivery the snapshot is a fold over consecutive
events, and an envelope that would leave a gap leads to a resync request. -/
def LossFree (streamId : ProjectionStreamId) (base : SessionProjectionSnapshot)
    (deliveries : List Delivery) : Prop :=
  (∀ taken, taken <+: deliveries →
    FoldsRun debug (deliverAll debug c subscriptionId taken) subscriptionId streamId base taken) ∧
  ∀ taken d, taken ++ [d] <+: deliveries →
    LeavesGap (deliverAll debug c subscriptionId taken) subscriptionId d →
    ResyncsInstead debug (deliverAll debug c subscriptionId taken) subscriptionId d

end Runs

variable {debug : Option String → String} {c : ProjectionClientController}
  {subscriptionId : ProjectionSubscriptionId} {streamId : ProjectionStreamId}
  {r : SubscriptionRecord} {base snapshot : SessionProjectionSnapshot} {d : Delivery}
  {deliveries : List Delivery}

theorem record_updateRecord {f : SubscriptionRecord → SubscriptionRecord}
    (hf : ∀ x, (f x).subscriptionId = x.subscriptionId) :
    (c.updateRecord subscriptionId f).record subscriptionId =
      (c.record subscriptionId).map f := by
  refine find?_updateFirst fun x hx => ?_
  rw [hf]
  exact hx

/-- What an installed subscription holds. -/
theorem installSubscription_holds {descriptor : ProjectionStreamDescriptor}
    (hmode : c.mode = .projectionPrimary)
    (hlimit : c.subscriptions.length < maxControllerSubscriptions)
    (hstream : c.holdsStream descriptor.streamId = false)
    (hid : c.record subscriptionId = none) :
    Holds (c.installSubscription subscriptionId descriptor snapshot).2 subscriptionId
      descriptor.streamId snapshot := by
  have hroom : ¬ maxControllerSubscriptions ≤ c.subscriptions.length := by omega
  rw [installSubscription, if_neg (not_not.mpr hmode), if_neg hroom, if_neg (by simp [hstream])]
  refine ⟨freshRecord subscriptionId descriptor snapshot.eventSeq, ?_, rfl, ?_, rfl⟩
  · have hnone : c.subscriptions.find? (fun r => r.subscriptionId == subscriptionId) = none := hid
    simp [record, hnone, freshRecord]
  · simp

/-- An envelope the next one of which reaches the reducer is taken in. -/
theorem settleEnvelope_of_advances {outcome : ApplyOutcome} {session : String}
    (h : outcome.advances = true) :
    (c.settleEnvelope subscriptionId r d.2 session outcome).2.record subscriptionId =
        (c.record subscriptionId).map (delivered d.2.eventSeq) ∧
      (c.settleEnvelope subscriptionId r d.2 session outcome).2.snapshots = c.snapshots := by
  have hrecord : (c.updateRecord subscriptionId (delivered d.2.eventSeq)).record subscriptionId =
      (c.record subscriptionId).map (delivered d.2.eventSeq) :=
    record_updateRecord fun _ => rfl
  cases outcome with
  | applied => exact ⟨hrecord, rfl⟩
  | reconciled => exact ⟨hrecord, rfl⟩
  | duplicate | scopeMismatch | resyncRequired | error => cases h

/-- What a delivery in order does: it leaves the record and the snapshots alone, and asks for
a resync if it would leave a gap; or it is the next envelope and is reduced. -/
theorem deliver_cases (debug : Option String → String) (hr : c.record subscriptionId = some r)
    (hsnapshot : c.snapshots r.streamId = some snapshot)
    (hseq : r.lastDeliveredSeq = snapshot.eventSeq) (hin : InOrder c subscriptionId d) :
    ((deliver debug c subscriptionId d).2.record subscriptionId = some r ∧
      (deliver debug c subscriptionId d).2.snapshots = c.snapshots ∧
      (LeavesGap c subscriptionId d → ∃ reason lastSeq envelopeSeq,
        (deliver debug c subscriptionId d).1 = .resyncRequested reason lastSeq envelopeSeq)) ∨
    (d.1 = r.streamId ∧ d.2.eventSeq = snapshot.eventSeq + 1 ∧
      (deliver debug c subscriptionId d).2.record subscriptionId =
        some (delivered d.2.eventSeq r) ∧
      (deliver debug c subscriptionId d).2.snapshots = Function.update c.snapshots r.streamId
        (some (apply snapshot d.2.toInput debug {}).2) ∧
      (apply snapshot d.2.toInput debug {}).2.eventSeq = d.2.eventSeq) := by
  rw [deliver, applyEnvelopeOnStream]
  split
  · rename_i hmode
    exact .inl ⟨hr, rfl, fun hgap => absurd hgap.1 hmode⟩
  rename_i hmode
  simp only [hr]
  split
  · exact .inl ⟨hr, rfl, fun _ => ⟨_, _, _, rfl⟩⟩
  rename_i hnegotiated
  split
  · exact .inl ⟨hr, rfl, fun _ => ⟨_, _, _, rfl⟩⟩
  rename_i hstream
  split
  · exact .inl ⟨hr, rfl, fun _ => ⟨_, _, _, rfl⟩⟩
  rename_i hsession
  split
  · refine .inl ⟨hr, rfl, fun hgap => ?_⟩
    obtain ⟨-, r', hr', hgap⟩ := hgap
    rw [hr] at hr'
    cases hr'
    omega
  simp only [hsnapshot]
  by_cases hversion : versionSupported {} d.2.toInput.protocolVersion = true
  · have hreaches : ReachesReducer c r d :=
      ⟨not_not.mp hmode, not_not.mp hnegotiated, not_not.mp hstream, by simpa using hsession,
        by omega, hversion⟩
    obtain ⟨hnext, hscope, hquiet⟩ := hin r snapshot hr hsnapshot hreaches
    have hafter : snapshot.eventSeq < d.2.toInput.eventSeq := by
      show snapshot.eventSeq < d.2.eventSeq
      omega
    have happly : apply snapshot d.2.toInput debug {} =
        stamp d.2.toInput (applyPayload snapshot d.2.toInput) :=
      apply_of_next hversion hscope hafter
    obtain ⟨hadvances, hplace, -⟩ := stamp_advances snapshot d.2.toInput hquiet
    rw [← happly] at hadvances hplace
    refine .inr ⟨(not_not.mp hstream).symm, by omega, ?_, ?_, hplace⟩
    · rw [(settleEnvelope_of_advances hadvances).1]
      show (c.record subscriptionId).map _ = _
      rw [hr]
      rfl
    · rw [(settleEnvelope_of_advances hadvances).2]
  · have hrefused : apply snapshot d.2.toInput debug {} =
        (.error (.unsupportedProtocolVersion d.2.toInput.protocolVersion 1 1), snapshot) := by
      rw [apply, if_pos hversion]
      rfl
    rw [hrefused]
    refine .inl ⟨hr, ?_, fun _ => ⟨_, _, _, rfl⟩⟩
    show Function.update c.snapshots r.streamId (some snapshot) = c.snapshots
    rw [← hsnapshot, Function.update_eq_self]

theorem foldsRun_nil (h : Holds c subscriptionId streamId base) :
    FoldsRun debug c subscriptionId streamId base [] :=
  ⟨[], List.nil_sublist _, rfl, rfl, h⟩

/-- A delivery in order extends the run by its envelope or not at all. -/
theorem FoldsRun.deliver (h : FoldsRun debug c subscriptionId streamId base deliveries)
    (hin : InOrder c subscriptionId d) :
    FoldsRun debug (deliver debug c subscriptionId d).2 subscriptionId streamId base
      (deliveries ++ [d]) := by
  obtain ⟨envelopes, hsub, hconsecutive, hlast, r, hr, rfl, hsnapshot, hseq⟩ := h
  have hmono : ((deliveries.filter fun x => x.1 == r.streamId).map (·.2)).Sublist
      (((deliveries ++ [d]).filter fun x => x.1 == r.streamId).map (·.2)) := by
    rw [List.filter_append]
    exact (List.sublist_append_left _ _).map _
  rcases deliver_cases debug hr hsnapshot hseq hin with
    ⟨hrecord, hsame, -⟩ | ⟨hstream, hnext, hrecord, hmoved, hplace⟩
  · exact ⟨envelopes, hsub.trans hmono, hconsecutive, hlast, r, hrecord, rfl,
      hsame ▸ hsnapshot, hseq⟩
  · have hreduced : reduceAll debug base (envelopes ++ [d.2]) =
        (apply (reduceAll debug base envelopes) d.2.toInput debug {}).2 := by
      simp [reduceAll]
    refine ⟨envelopes ++ [d.2], ?_, ?_, ?_, delivered d.2.eventSeq r, hrecord, rfl, ?_, ?_⟩
    · rw [List.filter_append, List.map_append]
      have hlast : [d].filter (fun x => x.1 == r.streamId) = [d] := by simp [hstream]
      rw [hlast]
      exact hsub.append (List.Sublist.refl _)
    · rw [List.map_append, hconsecutive, List.length_append, List.length_singleton,
        List.range'_concat]
      simp only [List.map_singleton, Nat.one_mul]
      rw [show d.2.eventSeq = base.eventSeq + 1 + envelopes.length by omega]
    · rw [hreduced, List.length_append, List.length_singleton]
      omega
    · rw [hmoved, hreduced, Function.update_self]
    · rw [hreduced, hplace]
      rfl

theorem deliverAll_append (taken : List Delivery) :
    deliverAll debug c subscriptionId (taken ++ [d]) =
      (deliver debug (deliverAll debug c subscriptionId taken) subscriptionId d).2 := by
  simp [deliverAll]

theorem inOrderRun_of_append {taken rest : List Delivery}
    (h : InOrderRun debug subscriptionId c (taken ++ rest)) :
    InOrderRun debug subscriptionId c taken ∧
      InOrderRun debug subscriptionId (deliverAll debug c subscriptionId taken) rest := by
  induction taken generalizing c with
  | nil => exact ⟨trivial, h⟩
  | cons d taken ih =>
    obtain ⟨htaken, hrest⟩ := ih h.2
    exact ⟨⟨h.1, htaken⟩, hrest⟩

theorem foldsRun_deliverAll (h : Holds c subscriptionId streamId base)
    (hin : InOrderRun debug subscriptionId c deliveries) :
    FoldsRun debug (deliverAll debug c subscriptionId deliveries) subscriptionId streamId base
      deliveries := by
  induction deliveries using List.reverseRecOn with
  | nil => exact foldsRun_nil h
  | append_singleton taken d ih =>
    obtain ⟨htaken, hd, -⟩ := inOrderRun_of_append hin
    rw [deliverAll_append]
    exact (ih htaken).deliver hd

/-- A headless consumer asks for a resync when the envelope would leave a gap. -/
theorem consumer_resyncs {consumer : HeadlessProjectionConsumer} {cursor : ProjectionCursor}
    {descriptor : ProjectionStreamDescriptor} {envelope : ProjectionEnvelope}
    (hcursor : consumer.cursor = some cursor) (hdescriptor : consumer.descriptor = some descriptor)
    (hgap : cursor.eventSeq + 1 < envelope.eventSeq) :
    (∃ reason, (consumer.applyEvent debug envelope).1 = .resyncRequired reason cursor) ∧
      (consumer.applyEvent debug envelope).2.snapshot = consumer.snapshot := by
  simp only [HeadlessProjectionConsumer.applyEvent, hcursor, hdescriptor]
  split
  · exact ⟨⟨_, rfl⟩, rfl⟩
  · rw [if_neg (by omega), if_pos (by omega)]
    exact ⟨⟨_, rfl⟩, rfl⟩

/-- No event is lost silently in a run whose deliveries reach the reducer in order, within the
snapshot's session and without a resync signal. -/
theorem deliverAll_lossFree (h : Holds c subscriptionId streamId base)
    (hin : InOrderRun debug subscriptionId c deliveries) :
    LossFree debug c subscriptionId streamId base deliveries := by
  constructor
  · rintro taken ⟨rest, rfl⟩
    exact foldsRun_deliverAll h (inOrderRun_of_append hin).1
  · rintro taken d ⟨rest, rfl⟩ hgap
    rw [List.append_assoc] at hin
    obtain ⟨htaken, hd, -⟩ := inOrderRun_of_append hin
    obtain ⟨envelopes, -, -, -, r, hr, rfl, hsnapshot, hseq⟩ := foldsRun_deliverAll h htaken
    rcases deliver_cases debug hr hsnapshot hseq hd with
      ⟨-, hsame, hresync⟩ | ⟨-, hnext, -⟩
    · exact ⟨hresync hgap, hsame, fun _ _ _ => consumer_resyncs⟩
    · obtain ⟨-, r', hr', hgap⟩ := hgap
      rw [hr] at hr'
      cases hr'
      omega

/-- A negotiated controller with one subscription. -/
def subscribedController : ProjectionClientController :=
  (((new {}).negotiate (some {})).installSubscription "sub" sampleDescriptor sampleSnapshot).2

theorem subscribedController_holds :
    Holds subscribedController "sub" "session-s" sampleSnapshot :=
  installSubscription_holds rfl (by decide) rfl rfl

/-- The next event, the same again, one of another stream and the one after. -/
def sampleDeliveries : List Delivery :=
  [("session-s", sampleEnvelope 1 (.modelSelected "m" 0)),
    ("session-s", sampleEnvelope 1 (.modelSelected "m" 0)),
    ("session-t", sampleEnvelope 7 (.modelSelected "n" 0)),
    ("session-s", sampleEnvelope 2 (.modelSelected "n" 0))]

theorem deliverAll_lossFree_sampleDeliveries :
    InOrderRun plainDebug "sub" subscribedController sampleDeliveries ∧
      LossFree plainDebug subscribedController "sub" "session-s" sampleSnapshot
        sampleDeliveries := by
  have hin : InOrderRun plainDebug "sub" subscribedController sampleDeliveries := by
    decide +kernel
  exact ⟨hin, deliverAll_lossFree subscribedController_holds hin⟩

/-- The second event of the stream is applied although the first was never delivered. -/
theorem gap_applied_silently :
    ¬ LossFree plainDebug subscribedController "sub" "session-s" sampleSnapshot
      [("session-s", sampleEnvelope 2 (.modelSelected "m" 0))] := by
  rintro ⟨-, hgaps⟩
  obtain ⟨⟨reason, lastSeq, envelopeSeq, hresync⟩, -⟩ :=
    hgaps [] ("session-s", sampleEnvelope 2 (.modelSelected "m" 0)) (List.prefix_refl _)
      ⟨rfl, freshRecord "sub" sampleDescriptor 0, rfl, by decide⟩
  cases hresync

end ProjectionClientController

end Codegg.Projection
