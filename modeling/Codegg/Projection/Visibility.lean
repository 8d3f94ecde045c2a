import Codegg.Projection.ConsumerCursor
import Codegg.Projection.Redaction

/-!
# What a headless consumer lets through

Snapshots are stripped of messages and tools that are not public when they are installed,
and events about such messages and tools are skipped. A turn that arrives whole in a
`TurnStarted` event is not looked into. When those turns hold nothing but public messages
and tools, neither does the consumer's snapshot, and the text of what is not public has no
influence on it.
-/
namespace Codegg.Projection

open Codegg.Library ProjectionReducer

namespace HeadlessProjectionConsumer

/-- The turn holds public messages and tools only. -/
structure PublicTurn (turn : TurnProjection) : Prop where
  messages : ∀ m ∈ turn.messages, m.visibility = .pub
  tools : ∀ t ∈ turn.tools, t.visibility = .pub

/-- The active turn and the recent ones hold public messages and tools only. -/
structure PublicOnly (s : SessionProjectionSnapshot) : Prop where
  active : ∀ turn, s.activeTurn = some turn → PublicTurn turn
  recent : ∀ turn ∈ s.recentTurns, PublicTurn turn

variable {debug : Option String → String} {s : SessionProjectionSnapshot}
  {input : ReducerEventInput} {turn : TurnProjection}

theorem publicTurn_redact :
    PublicTurn (turn.redact (List.filter publicMessage) (List.filter publicTool)) where
  messages m hm := by
    have := (List.mem_filter.mp hm).2
    simpa [publicMessage] using this
  tools t ht := by
    have := (List.mem_filter.mp ht).2
    simpa [publicTool] using this

theorem PublicTurn.redact_eq (h : PublicTurn turn) :
    turn.redact (List.filter publicMessage) (List.filter publicTool) = turn := by
  have hmessages : turn.messages.filter publicMessage = turn.messages :=
    List.filter_eq_self.mpr fun m hm => by simp [publicMessage, h.messages m hm]
  have htools : turn.tools.filter publicTool = turn.tools :=
    List.filter_eq_self.mpr fun t ht => by simp [publicTool, h.tools t ht]
  rw [TurnProjection.redact, hmessages, htools]

theorem publicOnly_redact {diagnostics : List ProjectionDiagnostic} :
    PublicOnly (s.redact (List.filter publicMessage) (List.filter publicTool) diagnostics) where
  active turn hturn := by
    obtain ⟨t, -, rfl⟩ := Option.map_eq_some_iff.mp hturn
    exact publicTurn_redact
  recent turn hturn := by
    obtain ⟨t, -, rfl⟩ := List.mem_map.mp hturn
    exact publicTurn_redact

theorem PublicOnly.redact_eq (h : PublicOnly s) :
    s.redact (List.filter publicMessage) (List.filter publicTool) s.diagnostics = s := by
  have hactive : s.activeTurn.map
      (TurnProjection.redact (List.filter publicMessage) (List.filter publicTool)) =
      s.activeTurn := by
    cases hturn : s.activeTurn with
    | none => rfl
    | some turn => rw [Option.map_some, (h.active turn hturn).redact_eq]
  have hrecent : s.recentTurns.map
      (TurnProjection.redact (List.filter publicMessage) (List.filter publicTool)) =
      s.recentTurns := by
    refine (List.map_congr_left fun turn hturn => ?_).trans (List.map_id _)
    exact (h.recent turn hturn).redact_eq
  rw [SessionProjectionSnapshot.redact, hactive, hrecent]

theorem PublicOnly.congr {s' : SessionProjectionSnapshot} (h : PublicOnly s)
    (hactive : s'.activeTurn = s.activeTurn) (hrecent : s'.recentTurns = s.recentTurns) :
    PublicOnly s' :=
  ⟨hactive ▸ h.active, hrecent ▸ h.recent⟩

/-- A change of the active turn only. -/
theorem PublicOnly.setActive {s' : SessionProjectionSnapshot} (h : PublicOnly s)
    (hactive : s'.activeTurn = some turn) (hrecent : s'.recentTurns = s.recentTurns)
    (hturn : PublicTurn turn) : PublicOnly s' where
  active t ht := by
    rw [hactive] at ht
    cases ht
    exact hturn
  recent := hrecent ▸ h.recent

theorem PublicOnly.pushRecentTurn (h : PublicOnly s) (hturn : PublicTurn turn) :
    PublicOnly (s.pushRecentTurn turn) where
  active := h.active
  recent t ht := by
    rcases List.mem_cons.mp (List.mem_of_mem_take ht) with rfl | ht
    · exact hturn
    · exact h.recent t ht

theorem publicTurn_sanitizeTurn : PublicTurn (sanitizeTurn turn) where
  messages m hm := by
    have := (List.mem_filter.mp hm).2
    simpa [publicMessage] using this
  tools t ht := by
    obtain ⟨t, hkept, rfl⟩ := List.mem_map.mp ht
    have := (List.mem_filter.mp hkept).2
    simpa [publicTool, sanitizeTool] using this

theorem publicOnly_sanitizeSnapshot : PublicOnly (sanitizeSnapshot s) where
  active turn hturn := by
    obtain ⟨t, -, rfl⟩ := Option.map_eq_some_iff.mp hturn
    exact publicTurn_sanitizeTurn
  recent turn hturn := by
    obtain ⟨t, -, rfl⟩ := List.mem_map.mp hturn
    exact publicTurn_sanitizeTurn

theorem normalise_visibility (m : MessageProjection) : m.normalise.visibility = m.visibility := by
  rw [MessageProjection.normalise]
  split <;> rfl

theorem PublicTurn.normalise (h : PublicTurn turn) : PublicTurn turn.normalise where
  messages m hm := by
    obtain ⟨m, hin, rfl⟩ := List.mem_map.mp hm
    rw [normalise_visibility]
    exact h.messages m hin
  tools t ht := by
    obtain ⟨t, hin, rfl⟩ := List.mem_map.mp ht
    exact h.tools t hin

/-- What is public stays public in a turn when a public message or tool joins it. -/
theorem PublicTurn.pushMessage {m : MessageProjection} (h : PublicTurn turn)
    (hm : m.visibility = .pub) :
    PublicTurn { turn with messages := pushBounded maxProjectionMessages turn.messages m } where
  messages x hx := by
    rcases mem_pushBounded hx with hx | rfl
    · exact h.messages x hx
    · exact hm
  tools := h.tools

theorem PublicTurn.pushTool {t : ToolProjection} (h : PublicTurn turn)
    (ht : t.visibility = .pub) :
    PublicTurn { turn with tools := pushBounded maxProjectionRecentTools turn.tools t } where
  messages := h.messages
  tools x hx := by
    rcases mem_pushBounded hx with hx | rfl
    · exact h.tools x hx
    · exact ht

theorem PublicTurn.updateTool {p : ToolProjection → Bool} {f : ToolProjection → ToolProjection}
    {tools : List ToolProjection} (h : PublicTurn turn)
    (hup : updateFirst p f turn.tools = some tools)
    (hf : ∀ t, (f t).visibility = t.visibility) : PublicTurn { turn with tools := tools } where
  messages := h.messages
  tools x hx := by
    rcases mem_updateFirst hup hx with hx | ⟨y, hy, rfl⟩
    · exact h.tools x hx
    · rw [hf]
      exact h.tools y (List.mem_of_find?_eq_some hy)

theorem PublicOnly.onActiveTurn {code message : String} {f : TurnProjection → Reduction}
    (h : PublicOnly s)
    (hf : ∀ turn, PublicTurn turn → PublicOnly (f turn).2) :
    PublicOnly (onActiveTurn s input code message f).2 := by
  rw [ProjectionReducer.onActiveTurn]
  split
  · exact h.congr rfl rfl
  · rename_i turn hactive
    exact hf turn (h.active turn hactive)

/-- A public payload keeps the snapshot public when a turn it starts is. -/
theorem applyPayload_publicOnly (h : PublicOnly s)
    (hpublic : eventIsPublic input.payload (some s) = true)
    (hstart : ∀ turn, input.payload = .turnStarted turn → PublicTurn turn) :
    PublicOnly (applyPayload s input).2 := by
  cases hcontent : input.payload.carriesContent with
  | false =>
    -- a public snapshot is its own redaction, so the result is one too
    have hredacted : Redacted (List.filter publicMessage) (List.filter publicTool)
        (applyPayload s input) (applyPayload (s.redact _ _ s.diagnostics) input) :=
      applyPayload_redact hcontent
    obtain ⟨diagnostics, hr⟩ := hredacted
    rw [h.redact_eq] at hr
    rw [hr]
    exact publicOnly_redact
  | true =>
    rw [applyPayload]
    cases hp : input.payload with
    | turnStarted turn =>
      have hturn := (hstart turn hp).normalise
      dsimp only [turnStarted]
      cases hactive : s.activeTurn with
      | none => exact h.setActive rfl rfl hturn
      | some prev => exact (h.pushRecentTurn (h.active prev hactive)).setActive rfl rfl hturn
    | messageAppended message =>
      have hm : message.visibility = .pub := by
        simpa [hp, eventIsPublic, publicMessage] using hpublic
      refine h.onActiveTurn fun turn hturn => ?_
      exact h.setActive rfl rfl (hturn.pushMessage ((normalise_visibility message).trans hm))
    | reasoningAppended => simp [hp, eventIsPublic] at hpublic
    | toolStarted tool =>
      have ht : tool.visibility = .pub := by
        simpa [hp, eventIsPublic, publicTool] using hpublic
      exact h.onActiveTurn fun turn hturn => h.setActive rfl rfl (hturn.pushTool ht)
    | toolCompleted | toolFailed =>
      refine h.onActiveTurn fun turn hturn => ?_
      split
      · rename_i hup
        exact h.setActive rfl rfl (hturn.updateTool hup fun _ => rfl)
      · exact h.setActive rfl rfl (hturn.pushTool rfl)
    | _ => simp [hp, ProjectionEvent.carriesContent] at hcontent

theorem apply_publicOnly (h : PublicOnly s)
    (hpublic : eventIsPublic input.payload (some s) = true)
    (hstart : ∀ turn, input.payload = .turnStarted turn → PublicTurn turn) :
    PublicOnly (apply s input debug {}).2 := by
  rcases @apply_cases s input debug {} with ⟨e, hap⟩ | ⟨-, hap⟩ | ⟨-, hap⟩ | ⟨-, -, -, hap⟩
  · exact hap ▸ h
  · exact hap ▸ h
  · exact hap ▸ h.congr rfl rfl
  · have hpayload := applyPayload_publicOnly h hpublic hstart
    rw [hap, stamp]
    split
    · exact hpayload.congr rfl rfl
    · exact hpayload

section Events

variable {c : HeadlessProjectionConsumer} {e : ProjectionEnvelope}

theorem settleEvent_snapshot {cursor : ProjectionCursor} {r : Reduction} :
    (c.settleEvent cursor e r).2.snapshot = some r.2 := by
  rcases r with ⟨outcome, s⟩
  cases outcome <;> rfl

/-- What an event does to the snapshot: nothing, or it is the next one and is skipped, or it
is the next one, public, and reduced. -/
theorem applyEvent_snapshot (debug : Option String → String) (c : HeadlessProjectionConsumer)
    (e : ProjectionEnvelope) :
    (c.applyEvent debug e).2.snapshot = c.snapshot ∨
    ∃ s, c.snapshot = some s ∧ IsNext c e ∧
      ((c.applyEvent debug e).2.snapshot = some (skipEvent e s) ∨
        (eventIsPublic e.payload (some s) = true ∧
          (c.applyEvent debug e).2.snapshot = some (apply s e.toInput debug {}).2)) := by
  rw [applyEvent]
  cases hcursor : c.cursor with
  | none => exact .inl rfl
  | some cursor =>
  cases hdescriptor : c.descriptor with
  | none => exact .inl rfl
  | some descriptor =>
  dsimp only
  split
  · exact .inl rfl
  rename_i hmatch
  split
  · exact .inl rfl
  split
  · exact .inl rfl
  rename_i hseq
  have hnext : IsNext c e :=
    ⟨cursor, descriptor, hcursor, hdescriptor, not_not.mp hmatch, not_not.mp hseq⟩
  cases hsnapshot : c.snapshot with
  | none =>
    split
    · exact .inl rfl
    · exact .inl hsnapshot
  | some s =>
    split
    · exact .inr ⟨s, rfl, hnext, .inl rfl⟩
    · rename_i hpublic
      exact .inr ⟨s, rfl, hnext, .inr ⟨not_not.mp hpublic, settleEvent_snapshot⟩⟩

/-- A turn the event starts, when it is the next one, holds public messages and tools only. -/
def StartsPublic (c : HeadlessProjectionConsumer) (e : ProjectionEnvelope) : Prop :=
  IsNext c e → ∀ turn, e.payload = .turnStarted turn → PublicTurn turn

/-- The check of an event alone that is enough for `StartsPublic`. -/
def startsPublic (e : ProjectionEnvelope) : Bool :=
  match e.payload with
  | .turnStarted turn => turn.messages.all publicMessage && turn.tools.all publicTool
  | _ => true

theorem startsPublic_spec (c : HeadlessProjectionConsumer) (h : startsPublic e = true) :
    StartsPublic c e := by
  intro _ turn hturn
  simp only [startsPublic, hturn, Bool.and_eq_true, List.all_eq_true, publicMessage, publicTool,
    beq_iff_eq] at h
  exact ⟨h.1, h.2⟩

/-- The snapshot of a view, when there is one, is public. -/
def View.Public (v : View) : Prop := ∀ s, v.snapshot = some s → PublicOnly s

theorem View.public_fresh {descriptor : ProjectionStreamDescriptor} {cursor : ProjectionCursor} :
    (View.fresh descriptor s cursor).Public := by
  intro s' hs
  cases hs
  exact publicOnly_sanitizeSnapshot.congr rfl rfl

theorem applyEvent_public (h : c.view.Public) (hstart : StartsPublic c e) :
    (c.applyEvent debug e).2.view.Public := by
  intro s' hs'
  have hs' : (c.applyEvent debug e).2.snapshot = some s' := hs'
  rcases applyEvent_snapshot debug c e with hsame | ⟨s, hs, hnext, hskip | ⟨hpublic, hreduced⟩⟩
  · rw [hsame] at hs'
    exact h s' hs'
  · rw [hskip] at hs'
    cases hs'
    exact (h s hs).congr rfl rfl
  · rw [hreduced] at hs'
    cases hs'
    exact apply_publicOnly (h s hs) hpublic (hstart hnext)

theorem run_public (capabilities : ProjectionCapabilities) {calls : List Call}
    (hstart : ∀ p ∈ runSteps debug (withCapabilities capabilities) calls,
      StartsPublic p.1 p.2) :
    ((withCapabilities capabilities).run debug calls).view.Public := by
  have hnone : (withCapabilities capabilities).view.Public := by
    intro s hs
    cases hs
  exact run_invariant View.Public StartsPublic (fun _ => View.public_fresh) applyEvent_public
    hnone hstart

end Events

end HeadlessProjectionConsumer

end Codegg.Projection
