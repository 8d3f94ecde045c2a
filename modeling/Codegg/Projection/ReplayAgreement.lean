import Codegg.Projection.Controller
import Codegg.Projection.Visibility

/-!
# One replay batch in both clients

The controller applies the events of a batch to its own snapshot and lets the snapshot of
the batch take the place of the result. The headless consumer installs the batch's snapshot
first and applies the events to it. With a snapshot in the batch they agree exactly when no
event moves the consumer past that snapshot. Without one they agree as long as the events
follow each other on the consumer's stream and what the consumer does not see changes
nothing of what it does see.
-/
namespace Codegg.Projection

open Codegg.Library ProjectionReducer ProjectionClientController

namespace HeadlessProjectionConsumer

variable {A B s : SessionProjectionSnapshot} {input : ReducerEventInput}
  {turn : TurnProjection} {debug : Option String → String}

/-!
## Sanitising
-/

theorem sanitizeOutput_sanitizeOutput (output : ToolOutputProjection) :
    sanitizeOutput (sanitizeOutput output) = sanitizeOutput output := by
  cases output with
  | inline text =>
    rw [sanitizeOutput]
    split
    · have hshort := truncateStr_le text maxProjectionStringBytes
      rw [sanitizeOutput, if_neg (by omega)]
    · rename_i hshort
      rw [sanitizeOutput, if_neg hshort]
  | pending | summary | truncatedOutput | handle => rfl

theorem sanitizeTurn_sanitizeTurn (turn : TurnProjection) :
    sanitizeTurn (sanitizeTurn turn) = sanitizeTurn turn := by
  have hpublic : ∀ t, publicTool (sanitizeTool t) = publicTool t := fun _ => rfl
  have htwice : ∀ t, sanitizeTool (sanitizeTool t) = sanitizeTool t := by
    intro t
    simp [sanitizeTool, sanitizeOutput_sanitizeOutput]
  simp [sanitizeTurn, List.filter_map, hpublic, htwice]

theorem sanitizeSnapshot_sanitizeSnapshot (s : SessionProjectionSnapshot) :
    sanitizeSnapshot (sanitizeSnapshot s) = sanitizeSnapshot s := by
  simp [sanitizeSnapshot, Function.comp_def,
    sanitizeTurn_sanitizeTurn]

/-- Sanitising is a redaction. -/
theorem sanitizeSnapshot_eq_redact : sanitizeSnapshot s = s.redact (List.filter publicMessage)
    (fun tools => (tools.filter publicTool).map sanitizeTool) [] := rfl

/-- What is seen after a payload without content depends on what is seen before. -/
theorem sanitize_applyPayload_of_plain (h : sanitizeSnapshot A = sanitizeSnapshot B)
    (hplain : input.payload.carriesContent = false) :
    sanitizeSnapshot (applyPayload A input).2 = sanitizeSnapshot (applyPayload B input).2 := by
  have hseen : ∀ s, sanitizeSnapshot (applyPayload s input).2 =
      { (applyPayload (sanitizeSnapshot s) input).2 with diagnostics := [] } := by
    intro s
    have hredacted : Redacted (List.filter publicMessage)
        (fun tools => (tools.filter publicTool).map sanitizeTool) (applyPayload s input)
        (applyPayload (s.redact _ _ []) input) := applyPayload_redact hplain
    obtain ⟨diagnostics, hr⟩ := hredacted
    rw [sanitizeSnapshot_eq_redact, sanitizeSnapshot_eq_redact, hr]
    rfl
  rw [hseen A, hseen B, h]

/-!
## Payloads with content
-/

/-- What the full snapshot `A` and the consumer's snapshot `B` show of their active turns
changes in the same way: a message or tool that joins drops one that is seen from both or
from neither, reasoning is not added to a message that is seen, and a tool's result belongs
to a tool that is known, and seen in both or in neither. -/
def SeesAlike (A B : SessionProjectionSnapshot) (payload : ProjectionEvent) : Prop :=
  ∀ ta tb, A.activeTurn = some ta → B.activeTurn = some tb →
    match payload with
    | .messageAppended m => evicts publicMessage maxProjectionMessages ta.messages =
        (publicMessage m && evicts publicMessage maxProjectionMessages tb.messages)
    | .reasoningAppended messageId _ =>
        match ta.messages.find? fun m => m.messageId == messageId with
        | some m => publicMessage m = false
        | none => evicts publicMessage maxProjectionMessages ta.messages = false
    | .toolStarted t => evicts publicTool maxProjectionRecentTools ta.tools =
        (publicTool t && evicts publicTool maxProjectionRecentTools tb.tools)
    | .toolCompleted toolId _ _ _ _ =>
        ∃ t, (ta.tools.find? fun t => t.toolId == toolId) = some t ∧
          publicTool t = eventIsPublic payload (some B)
    | .toolFailed toolId _ _ =>
        ∃ t, (ta.tools.find? fun t => t.toolId == toolId) = some t ∧
          publicTool t = eventIsPublic payload (some B)
    | _ => True

section Content

variable {ta tb : TurnProjection}

theorem sanitize_setActive (h : sanitizeSnapshot A = sanitizeSnapshot B)
    (hturn : sanitizeTurn ta = sanitizeTurn tb) :
    sanitizeSnapshot { A with activeTurn := some ta } =
      sanitizeSnapshot { B with activeTurn := some tb } := by
  have hA : sanitizeSnapshot { A with activeTurn := some ta } =
      { sanitizeSnapshot A with activeTurn := some (sanitizeTurn ta) } := rfl
  have hB : sanitizeSnapshot { B with activeTurn := some tb } =
      { sanitizeSnapshot B with activeTurn := some (sanitizeTurn tb) } := rfl
  rw [hA, hB, h, hturn]

/-- The full snapshot's active turn changed and the consumer's did not. -/
theorem sanitize_setActive_left (h : sanitizeSnapshot A = sanitizeSnapshot B)
    (hB : B.activeTurn = some tb) (hturn : sanitizeTurn ta = sanitizeTurn tb) :
    sanitizeSnapshot { A with activeTurn := some ta } = sanitizeSnapshot B := by
  have hsame : { B with activeTurn := some tb } = B := by rw [← hB]
  rw [sanitize_setActive h hturn, hsame]

theorem sanitize_messages (h : sanitizeTurn ta = sanitizeTurn tb)
    {xs ys : List MessageProjection} (hlist : xs.filter publicMessage = ys.filter publicMessage) :
    sanitizeTurn { ta with messages := xs } = sanitizeTurn { tb with messages := ys } := by
  have ha : sanitizeTurn { ta with messages := xs } =
      { sanitizeTurn ta with messages := xs.filter publicMessage } := rfl
  have hb : sanitizeTurn { tb with messages := ys } =
      { sanitizeTurn tb with messages := ys.filter publicMessage } := rfl
  rw [ha, hb, h, hlist]

theorem sanitize_tools (h : sanitizeTurn ta = sanitizeTurn tb) {xs ys : List ToolProjection}
    (hlist : (xs.filter publicTool).map sanitizeTool = (ys.filter publicTool).map sanitizeTool) :
    sanitizeTurn { ta with tools := xs } = sanitizeTurn { tb with tools := ys } := by
  have ha : sanitizeTurn { ta with tools := xs } =
      { sanitizeTurn ta with tools := (xs.filter publicTool).map sanitizeTool } := rfl
  have hb : sanitizeTurn { tb with tools := ys } =
      { sanitizeTurn tb with tools := (ys.filter publicTool).map sanitizeTool } := rfl
  rw [ha, hb, h, hlist]

theorem messages_of_sanitizeTurn (h : sanitizeTurn ta = sanitizeTurn tb) :
    ta.messages.filter publicMessage = tb.messages.filter publicMessage :=
  congrArg (·.messages) h

theorem tools_of_sanitizeTurn (h : sanitizeTurn ta = sanitizeTurn tb) :
    (ta.tools.filter publicTool).map sanitizeTool = (tb.tools.filter publicTool).map sanitizeTool :=
  congrArg (·.tools) h

/-- The active turns of two snapshots that look alike. -/
theorem activeTurn_of_sanitize (h : sanitizeSnapshot A = sanitizeSnapshot B) :
    (A.activeTurn = none ∧ B.activeTurn = none) ∨
      ∃ ta tb, A.activeTurn = some ta ∧ B.activeTurn = some tb ∧
        sanitizeTurn ta = sanitizeTurn tb := by
  have hmap : A.activeTurn.map sanitizeTurn = B.activeTurn.map sanitizeTurn :=
    congrArg (·.activeTurn) h
  cases hA : A.activeTurn with
  | none =>
    rw [hA] at hmap
    exact .inl ⟨rfl, by simpa using hmap.symm⟩
  | some ta =>
    rw [hA] at hmap
    obtain ⟨tb, hB, htb⟩ := Option.map_eq_some_iff.mp hmap.symm
    exact .inr ⟨ta, tb, rfl, hB, htb.symm⟩

theorem sanitize_turnStarted (h : sanitizeSnapshot A = sanitizeSnapshot B) :
    sanitizeSnapshot (turnStarted A input turn).2 = sanitizeSnapshot (turnStarted B input turn).2 := by
  have hseen : ∀ s : SessionProjectionSnapshot, sanitizeSnapshot (turnStarted s input turn).2 =
      { (turnStarted (sanitizeSnapshot s) input turn).2 with
        activeTurn := some (sanitizeTurn turn.normalise) } := by
    intro s
    cases hs : s.activeTurn <;>
      simp [turnStarted, sanitizeSnapshot, SessionProjectionSnapshot.pushRecentTurn, hs]
  rw [hseen A, hseen B, h]

theorem sanitize_messageAppended (h : sanitizeSnapshot A = sanitizeSnapshot B)
    {m : MessageProjection} (hsees : SeesAlike A B (.messageAppended m)) :
    sanitizeSnapshot (messageAppended A input m).2 =
      sanitizeSnapshot (if publicMessage m then (messageAppended B input m).2 else B) := by
  rcases activeTurn_of_sanitize h with ⟨hA, hB⟩ | ⟨ta, tb, hA, hB, hturn⟩
  · simp only [messageAppended, onActiveTurn, hA, hB]
    split <;> exact h
  · have hevicts : evicts publicMessage maxProjectionMessages ta.messages =
        (publicMessage m && evicts publicMessage maxProjectionMessages tb.messages) :=
      hsees ta tb hA hB
    have hlists := messages_of_sanitizeTurn hturn
    simp only [messageAppended, onActiveTurn, hA, hB]
    split
    · rename_i hm
      refine sanitize_setActive h (sanitize_messages hturn ?_)
      rw [filter_pushBounded, filter_pushBounded, hlists, hevicts, hm, Bool.true_and]
    · rename_i hm
      have hhidden : publicMessage m.normalise = false := by
        simpa [publicMessage, normalise_visibility] using hm
      refine sanitize_setActive_left h hB (sanitize_messages hturn ?_)
      rw [filter_pushBounded, hevicts, hlists]
      simp [hm, hhidden]

theorem sanitize_toolStarted (h : sanitizeSnapshot A = sanitizeSnapshot B)
    {t : ToolProjection} (hsees : SeesAlike A B (.toolStarted t)) :
    sanitizeSnapshot (toolStarted A input t).2 =
      sanitizeSnapshot (if publicTool t then (toolStarted B input t).2 else B) := by
  rcases activeTurn_of_sanitize h with ⟨hA, hB⟩ | ⟨ta, tb, hA, hB, hturn⟩
  · simp only [toolStarted, onActiveTurn, hA, hB]
    split <;> exact h
  · have hevicts : evicts publicTool maxProjectionRecentTools ta.tools =
        (publicTool t && evicts publicTool maxProjectionRecentTools tb.tools) :=
      hsees ta tb hA hB
    have hlists := tools_of_sanitizeTurn hturn
    simp only [toolStarted, onActiveTurn, hA, hB]
    split
    · rename_i ht
      refine sanitize_setActive h (sanitize_tools hturn ?_)
      rw [filter_pushBounded, filter_pushBounded, hevicts, ht, Bool.true_and]
      split <;> simp [hlists]
    · rename_i ht
      have hhidden : publicTool t.normalise = false := by
        have hkept : publicTool t.normalise = publicTool t := rfl
        simpa [hkept] using ht
      refine sanitize_setActive_left h hB (sanitize_tools hturn ?_)
      rw [filter_pushBounded, hevicts]
      simp [ht, hhidden, hlists]

theorem sanitize_reasoningAppended (h : sanitizeSnapshot A = sanitizeSnapshot B)
    {messageId delta : String} (hsees : SeesAlike A B (.reasoningAppended messageId delta)) :
    sanitizeSnapshot (reasoningAppended A input messageId delta).2 = sanitizeSnapshot B := by
  rcases activeTurn_of_sanitize h with ⟨hA, hB⟩ | ⟨ta, tb, hA, hB, hturn⟩
  · simp only [reasoningAppended, onActiveTurn, hA]
    exact h
  · have hsees := hsees ta tb hA hB
    have hlists := messages_of_sanitizeTurn hturn
    simp only [reasoningAppended, onActiveTurn, hA]
    cases hfind : ta.messages.find? fun m => m.messageId == messageId with
    | none =>
      simp only [hfind] at hsees
      rw [updateFirst_eq_none_iff.mpr hfind]
      refine sanitize_setActive_left h hB (sanitize_messages hturn ?_)
      rw [filter_pushBounded, hsees, hlists]
      have hhidden : ∀ m : MessageProjection, m.visibility = .internal →
          [m.normalise].filter publicMessage = [] := by
        intro m hm
        simp [publicMessage, normalise_visibility, hm]
      rw [hhidden _ rfl]
      simp
    | some m =>
      simp only [hfind] at hsees
      split
      · rename_i messages hup
        refine sanitize_setActive_left h hB (sanitize_messages hturn ?_)
        have hunseen := filter_updateFirst_of_hidden
          (f := fun m => { m with
            text := m.text ++ truncateStr delta maxProjectionStringBytes
            visibility := .internal }) hfind hsees rfl
        rw [hup, Option.getD_some] at hunseen
        rw [hunseen, hlists]
      · rename_i hnone
        rw [updateFirst_eq_none_iff, hfind] at hnone
        cases hnone

/-- The result of a tool goes to a tool that is seen in both snapshots or in neither. -/
theorem sanitize_updateTool (hturn : sanitizeTurn ta = sanitizeTurn tb) {toolId : String}
    {f : ToolProjection → ToolProjection} {t : ToolProjection}
    (hvisible : ∀ x, publicTool (f x) = publicTool x)
    (hover : ∀ x, f (sanitizeTool x) = f x)
    (hfind : (ta.tools.find? fun t => t.toolId == toolId) = some t)
    (hseen : publicTool t = (tb.tools.find? fun t => t.toolId == toolId).any publicTool)
    {xs : List ToolProjection}
    (hxs : updateFirst (fun t => t.toolId == toolId) f ta.tools = some xs) :
    (publicTool t = false → sanitizeTurn { ta with tools := xs } = sanitizeTurn tb) ∧
    (publicTool t = true → ∃ ys,
      updateFirst (fun t => t.toolId == toolId) f tb.tools = some ys ∧
        sanitizeTurn { ta with tools := xs } = sanitizeTurn { tb with tools := ys }) := by
  have hlists := tools_of_sanitizeTurn hturn
  constructor
  · intro ht
    have hunseen := filter_updateFirst_of_hidden hfind ht ((hvisible t).trans ht)
    rw [hxs, Option.getD_some] at hunseen
    exact sanitize_tools hturn (by rw [hunseen, hlists])
  · intro ht
    rw [ht] at hseen
    obtain ⟨y, hy, hpublic⟩ := (Option.any_eq_true _ _).mp hseen.symm
    have hsome : updateFirst (fun t => t.toolId == toolId) f tb.tools ≠ none := by
      rw [Ne, updateFirst_eq_none_iff, hy]
      simp
    obtain ⟨ys, hys⟩ := Option.ne_none_iff_exists'.mp hsome
    have hupa := filter_updateFirst_of_seen hfind ht hvisible
    have hupb := filter_updateFirst_of_seen hy hpublic hvisible
    rw [hxs, Option.getD_some] at hupa
    rw [hys, Option.getD_some] at hupb
    have hid : ∀ x, ((sanitizeTool x).toolId == toolId) = (x.toolId == toolId) := fun _ => rfl
    refine ⟨ys, hys, sanitize_tools hturn ?_⟩
    rw [hupa, hupb, map_updateFirst hid hover, map_updateFirst hid hover, hlists]

/-- A tool's result as the two result events have it, from what they do to a known tool. -/
theorem sanitize_toolResult (h : sanitizeSnapshot A = sanitizeSnapshot B) {toolId code message : String}
    {f : ToolProjection → ToolProjection} {g : TurnProjection → List ToolProjection}
    (hvisible : ∀ x, publicTool (f x) = publicTool x)
    (hover : ∀ x, f (sanitizeTool x) = f x)
    (hsees : ∀ ta tb, A.activeTurn = some ta → B.activeTurn = some tb →
      ∃ t, (ta.tools.find? fun t => t.toolId == toolId) = some t ∧
        publicTool t = (tb.tools.find? fun t => t.toolId == toolId).any publicTool) :
    let result := fun s : SessionProjectionSnapshot => (onActiveTurn s input code message fun turn =>
      match updateFirst (fun t => t.toolId == toolId) f turn.tools with
      | some tools => (.applied, { s with activeTurn := some { turn with tools := tools } })
      | none => (.reconciled, { s with activeTurn := some { turn with tools := g turn } })).2
    sanitizeSnapshot (result A) = sanitizeSnapshot
      (if B.activeTurn.any fun turn =>
        (turn.tools.find? fun t => t.toolId == toolId).any publicTool then result B else B) := by
  intro result
  rcases activeTurn_of_sanitize h with ⟨hA, hB⟩ | ⟨ta, tb, hA, hB, hturn⟩
  · simp only [result, onActiveTurn, hA, hB]
    exact h
  · obtain ⟨t, hfind, hseen⟩ := hsees ta tb hA hB
    have hsome : updateFirst (fun t => t.toolId == toolId) f ta.tools ≠ none := by
      rw [Ne, updateFirst_eq_none_iff, hfind]
      simp
    obtain ⟨xs, hxs⟩ := Option.ne_none_iff_exists'.mp hsome
    obtain ⟨hidden, hshown⟩ := sanitize_updateTool hturn hvisible hover hfind hseen hxs
    simp only [result, onActiveTurn, hA, hB, hxs, Option.any_some, ← hseen]
    cases ht : publicTool t with
    | false => exact sanitize_setActive_left h hB (hidden ht)
    | true =>
      obtain ⟨ys, hys, hsame⟩ := hshown ht
      simp only [hys]
      exact sanitize_setActive h hsame

/-- What is seen after the full snapshot has taken in a payload, and after the consumer has. -/
theorem sanitize_applyPayload (h : sanitizeSnapshot A = sanitizeSnapshot B)
    (hsees : SeesAlike A B input.payload) :
    sanitizeSnapshot (applyPayload A input).2 = sanitizeSnapshot
      (if eventIsPublic input.payload (some B) then (applyPayload B input).2 else B) := by
  cases hcontent : input.payload.carriesContent with
  | false =>
    cases hpublic : eventIsPublic input.payload (some B) with
    | true => exact sanitize_applyPayload_of_plain h hcontent
    | false =>
      -- a diagnostic or an unknown variant: only a diagnostic is recorded
      rw [applyPayload]
      cases hp : input.payload with
      | diagnostic | unknown => exact h
      | turnStarted | messageAppended | reasoningAppended | toolStarted | toolCompleted
      | toolFailed => simp [hp, ProjectionEvent.carriesContent] at hcontent
      | _ => simp [hp, eventIsPublic] at hpublic
  | true =>
    rw [applyPayload, applyPayload]
    cases hp : input.payload with
    | turnStarted turn =>
      exact sanitize_turnStarted h
    | messageAppended m => exact sanitize_messageAppended h (hp ▸ hsees)
    | reasoningAppended messageId delta => exact sanitize_reasoningAppended h (hp ▸ hsees)
    | toolStarted t => exact sanitize_toolStarted h (hp ▸ hsees)
    | toolCompleted toolId output success durationMs completedAt =>
      have hpublic : eventIsPublic (.toolCompleted toolId output success durationMs completedAt)
          (some B) = B.activeTurn.any fun turn =>
            (turn.tools.find? fun t => t.toolId == toolId).any publicTool := by
        cases hB : B.activeTurn <;> simp [eventIsPublic, hB]
      rw [hp] at hsees
      rw [hpublic]
      refine sanitize_toolResult h (fun _ => rfl) (fun _ => rfl) fun ta tb hA hB => ?_
      obtain ⟨t, hfind, hseen⟩ := hsees ta tb hA hB
      rw [hpublic, hB] at hseen
      exact ⟨t, hfind, hseen⟩
    | toolFailed toolId error completedAt =>
      have hpublic : eventIsPublic (.toolFailed toolId error completedAt) (some B) =
          B.activeTurn.any fun turn =>
            (turn.tools.find? fun t => t.toolId == toolId).any publicTool := by
        cases hB : B.activeTurn <;> simp [eventIsPublic, hB]
      rw [hp] at hsees
      rw [hpublic]
      refine sanitize_toolResult h (fun _ => rfl) (fun _ => rfl) fun ta tb hA hB => ?_
      obtain ⟨t, hfind, hseen⟩ := hsees ta tb hA hB
      rw [hpublic, hB] at hseen
      exact ⟨t, hfind, hseen⟩
    | _ => simp [hp, ProjectionEvent.carriesContent] at hcontent

end Content

/-!
## Batches without a snapshot
-/

/-- The events follow each other on the consumer's stream, and each changes what is seen in
both snapshots alike; after an event that is not of the stream nothing is newer. -/
def InStep (debug : Option String → String) (descriptor : ProjectionStreamDescriptor)
    (A B : SessionProjectionSnapshot) : List ProjectionEnvelope → Prop
  | [] => True
  | e :: events =>
    if envelopeMatchesDescriptor e descriptor then
      if e.eventSeq ≤ B.eventSeq then InStep debug descriptor A B events
      else e.eventSeq = B.eventSeq + 1 ∧ SeesAlike A B e.payload ∧
        InStep debug descriptor (apply A e.toInput debug {}).2 (takeIn debug B e) events
    else ∀ x ∈ e :: events, x.eventSeq ≤ B.eventSeq

section Replay

open ProjectionClientController (replayAll)

variable {c : HeadlessProjectionConsumer} {e : ProjectionEnvelope}
  {events : List ProjectionEnvelope} {X : SessionProjectionSnapshot}
  {cursor : ProjectionCursor} {descriptor : ProjectionStreamDescriptor}

/-- An event the controller's replay lets pass: a duplicate, or one that takes effect. -/
theorem replayAll_step (h : replayAll debug A (e :: events) = some X) :
    (e.eventSeq ≤ A.eventSeq ∧ replayAll debug A events = some X) ∨
    (A.eventSeq < e.eventSeq ∧ versionSupported {} e.protocolVersion = true ∧
      e.payload.isResyncRequired = false ∧
      apply A e.toInput debug {} = stamp e.toInput (applyPayload A e.toInput) ∧
      replayAll debug (apply A e.toInput debug {}).2 events = some X) := by
  rw [replayAll] at h
  rcases @apply_cases A e.toInput debug {} with
    ⟨err, hap⟩ | ⟨hold, hap⟩ | ⟨-, hap⟩ | ⟨hversion, hscope, hseq, hap⟩
  · rw [hap] at h
    cases h
  · rw [hap] at h
    exact .inl ⟨hold, h⟩
  · rw [hap] at h
    cases h
  · cases hres : e.payload.isResyncRequired with
    | true =>
      cases hp : e.payload with
      | resyncRequired a b =>
        have hpay : applyPayload A e.toInput = resyncRequired A e.toInput a b :=
          applyPayload_of_resync hp
        rw [hap, hpay] at h
        cases h
      | _ => simp [hp, ProjectionEvent.isResyncRequired] at hres
    | false =>
      obtain ⟨hadvances, -, -⟩ := stamp_advances A e.toInput hres
      refine .inr ⟨hseq, hversion, rfl, hap, ?_⟩
      rw [← hap] at hadvances
      rcases houtcome : apply A e.toInput debug {} with ⟨outcome, A'⟩
      rw [houtcome] at h hadvances
      cases outcome with
      | applied | reconciled => exact h
      | duplicate | scopeMismatch | resyncRequired | error => cases hadvances

/-- Events that are not newer leave the controller's replay where it is. -/
theorem replayAll_of_old (h : replayAll debug A events = some X)
    (hold : ∀ e ∈ events, e.eventSeq ≤ A.eventSeq) : X = A := by
  induction events with
  | nil => exact (Option.some.inj h).symm
  | cons e events ih =>
    rcases replayAll_step h with ⟨-, hrest⟩ | ⟨hnewer, -⟩
    · exact ih hrest fun x hx => hold x (List.mem_cons_of_mem _ hx)
    · have := hold e List.mem_cons_self
      omega

/-- The next event in both clients. -/
theorem sanitize_takeIn (h : sanitizeSnapshot A = sanitizeSnapshot B)
    (hsession : e.sessionId = some B.primarySessionId) (hnewer : B.eventSeq < e.eventSeq)
    (hversion : versionSupported {} e.protocolVersion = true)
    (hsees : SeesAlike A B e.payload) (hquiet : e.payload.isResyncRequired = false) :
    sanitizeSnapshot (stamp e.toInput (applyPayload A e.toInput)).2 =
      sanitizeSnapshot (takeIn debug B e) := by
  have hpayload : sanitizeSnapshot (applyPayload A e.toInput).2 = sanitizeSnapshot
      (if eventIsPublic e.payload (some B) then (applyPayload B e.toInput).2 else B) :=
    sanitize_applyPayload h hsees
  have hstamp : ∀ s : SessionProjectionSnapshot, sanitizeSnapshot
      { s with eventSeq := e.eventSeq, generatedAtMs := e.timestampMs } =
      { sanitizeSnapshot s with eventSeq := e.eventSeq, generatedAtMs := e.timestampMs } :=
    fun _ => rfl
  have hA : (stamp e.toInput (applyPayload A e.toInput)).2 =
      { (applyPayload A e.toInput).2 with
        eventSeq := e.eventSeq, generatedAtMs := e.timestampMs } := by
    rw [stamp, if_pos (applyPayload_steady hquiet).advances]
    rfl
  have hB : takeIn debug B e =
      { (if eventIsPublic e.payload (some B) then (applyPayload B e.toInput).2 else B) with
        eventSeq := e.eventSeq, generatedAtMs := e.timestampMs } := by
    rw [takeIn]
    split
    · rw [apply_of_next hversion (checkScope_of_session hsession) hnewer, stamp,
        if_pos (applyPayload_steady hquiet).advances]
      rfl
    · rfl
  rw [hA, hB, hstamp, hstamp, hpayload]

variable {counts outcome : HeadlessReplayOutcome}

/-- The answer to an event of another stream, or after a gap. -/
theorem applyEvent_stops (debug : Option String → String) (hat : c.view.At B cursor descriptor)
    (hstop : envelopeMatchesDescriptor e descriptor = false ∨ B.eventSeq + 1 < e.eventSeq) :
    ∃ reason c', c.applyEvent debug e = (.resyncRequired reason cursor, c') ∧
      c'.snapshot = some B := by
  have hcursor : c.cursor = some cursor := hat.cursor_eq
  have hdescriptor : c.descriptor = some descriptor := hat.descriptor_eq
  have hposition := hat.position
  simp only [applyEvent, hcursor, hdescriptor]
  split
  · exact ⟨_, _, rfl, hat.snapshot_eq⟩
  · rename_i hmatch
    have hgap : B.eventSeq + 1 < e.eventSeq := by
      rcases hstop with hforeign | hgap
      · exact absurd hforeign (by simpa using hmatch)
      · exact hgap
    rw [if_neg (by omega), if_pos (by omega)]
    exact ⟨_, _, rfl, hat.snapshot_eq⟩

theorem applyEvent_duplicate (hat : c.view.At B cursor descriptor)
    (hmatch : envelopeMatchesDescriptor e descriptor = true) (hold : e.eventSeq ≤ B.eventSeq) :
    c.applyEvent debug e = (.duplicate cursor, c) := by
  have hcursor : c.cursor = some cursor := hat.cursor_eq
  have hdescriptor : c.descriptor = some descriptor := hat.descriptor_eq
  have hposition := hat.position
  simp only [applyEvent, hcursor, hdescriptor]
  rw [if_neg (by simp [hmatch]), if_pos (by omega)]

/-- The answer to the next event of the stream. -/
theorem applyEvent_of_next (hat : c.view.At B cursor descriptor)
    (hmatch : envelopeMatchesDescriptor e descriptor = true)
    (hnext : e.eventSeq = B.eventSeq + 1) :
    c.applyEvent debug e = if eventIsPublic e.payload (some B) then
        c.settleEvent cursor e (apply B e.toInput debug {})
      else (.ignoredNonPublic e.eventSeq, c.moveTo cursor e (some (skipEvent e B))) := by
  have hcursor : c.cursor = some cursor := hat.cursor_eq
  have hdescriptor : c.descriptor = some descriptor := hat.descriptor_eq
  have hsnapshot : c.snapshot = some B := hat.snapshot_eq
  have hposition := hat.position
  simp only [applyEvent, hcursor, hdescriptor, hsnapshot]
  rw [if_neg (by simp [hmatch]), if_neg (by omega), if_neg (by omega)]
  cases eventIsPublic e.payload (some B) <;> rfl

/-- The reducer takes in the next event of the stream, unless it refuses its version. -/
theorem apply_next_or_refused (debug : Option String → String)
    (hat : c.view.At B cursor descriptor)
    (hmatch : envelopeMatchesDescriptor e descriptor = true)
    (hnext : e.eventSeq = B.eventSeq + 1) :
    apply B e.toInput debug {} = stamp e.toInput (applyPayload B e.toInput) ∨
      apply B e.toInput debug {} =
        (.error (.unsupportedProtocolVersion e.toInput.protocolVersion 1 1), B) := by
  by_cases hversion : versionSupported {} e.toInput.protocolVersion = true
  · have hsession : e.sessionId = some B.primarySessionId :=
      (sessionId_of_matches hmatch).trans hat.session
    have hnewer : B.eventSeq < e.toInput.eventSeq := by
      show B.eventSeq < e.eventSeq
      omega
    exact .inl (apply_of_next hversion (checkScope_of_session hsession) hnewer)
  · refine .inr ?_
    rw [apply, if_pos hversion]
    rfl

/-- Past the next event of the stream the replay goes on with the event taken in, unless it
is a resync signal or the reducer refuses its version. -/
theorem replayEvents_next (hat : c.view.At B cursor descriptor)
    (hmatch : envelopeMatchesDescriptor e descriptor = true)
    (hnext : e.eventSeq = B.eventSeq + 1) (hquiet : e.payload.isResyncRequired = false)
    (hok : (replayEvents debug counts c (e :: events)).1 = .ok outcome) :
    ∃ counts' c', replayEvents debug counts c (e :: events) =
        replayEvents debug counts' c' events ∧
      c'.view.At (takeIn debug B e) { cursor with eventSeq := e.eventSeq } descriptor := by
  have hdescriptor : c.descriptor = some descriptor := hat.descriptor_eq
  rw [replayEvents, applyEvent_of_next hat hmatch hnext] at hok ⊢
  cases hpublic : eventIsPublic e.payload (some B) with
  | false =>
    have htake : takeIn debug B e = skipEvent e B := by simp [takeIn, hpublic]
    exact ⟨_, _, rfl, by rw [htake]; exact ⟨rfl, rfl, hdescriptor, hat.session, rfl⟩⟩
  | true =>
    have htake : takeIn debug B e = (apply B e.toInput debug {}).2 := by simp [takeIn, hpublic]
    rw [hpublic] at hok
    rw [htake]
    rcases apply_next_or_refused debug hat hmatch hnext with happly | hrefused
    · obtain ⟨hadvances, hseq, hprimary⟩ := stamp_advances B e.toInput hquiet
      rw [← happly] at hadvances hseq hprimary
      rcases hanswer : apply B e.toInput debug {} with ⟨answer, B'⟩
      rw [hanswer] at hadvances hseq hprimary
      have hat' : (c.moveTo cursor e (some B')).view.At B'
          { cursor with eventSeq := e.eventSeq } descriptor :=
        ⟨rfl, rfl, hdescriptor, hat.session.trans (congrArg some hprimary.symm), hseq.symm⟩
      cases answer with
      | applied | reconciled => exact ⟨_, _, rfl, hat'⟩
      | duplicate | scopeMismatch | resyncRequired | error => cases hadvances
    · rw [hrefused] at hok
      cases hok

/-- A resync signal that is next ends the consumer's replay. -/
theorem replayEvents_signal (hat : c.view.At B cursor descriptor)
    (hmatch : envelopeMatchesDescriptor e descriptor = true)
    (hnext : e.eventSeq = B.eventSeq + 1) (hsignal : e.payload.isResyncRequired = true)
    (hok : (replayEvents debug counts c (e :: events)).1 = .ok outcome) :
    ∃ Y, (replayEvents debug counts c (e :: events)).2.snapshot = some Y ∧
      sanitizeSnapshot Y = sanitizeSnapshot B := by
  cases hp : e.payload with
  | resyncRequired a b =>
    have hpublic : eventIsPublic e.payload (some B) = true := by rw [hp]; rfl
    rw [replayEvents, applyEvent_of_next hat hmatch hnext, if_pos hpublic] at hok ⊢
    rcases apply_next_or_refused debug hat hmatch hnext with happly | hrefused
    · have hpay : applyPayload B e.toInput = resyncRequired B e.toInput a b :=
        applyPayload_of_resync hp
      rw [happly, hpay]
      exact ⟨_, rfl, rfl⟩
    · rw [hrefused] at hok
      cases hok
  | _ => simp [hp, ProjectionEvent.isResyncRequired] at hsignal

/-- Without a snapshot in the batch, events in step lead both clients to what looks alike. -/
theorem replay_sanitize (hat : c.view.At B cursor descriptor)
    (h : sanitizeSnapshot A = sanitizeSnapshot B) (hstep : InStep debug descriptor A B events)
    (hall : replayAll debug A events = some X)
    (hok : (replayEvents debug counts c events).1 = .ok outcome) :
    ∃ Y, (replayEvents debug counts c events).2.snapshot = some Y ∧
      sanitizeSnapshot X = sanitizeSnapshot Y := by
  induction events generalizing c A B cursor counts with
  | nil =>
    cases hall
    exact ⟨B, hat.snapshot_eq, h⟩
  | cons e events ih =>
    have hplace : A.eventSeq = B.eventSeq := congrArg (·.eventSeq) h
    rw [InStep] at hstep
    split at hstep
    · rename_i hmatch
      split at hstep
      · -- a duplicate for the consumer is one for the controller
        rename_i hold
        rw [replayEvents, applyEvent_duplicate hat hmatch hold] at hok ⊢
        rcases replayAll_step hall with ⟨-, hrest⟩ | ⟨hnewer, -⟩
        · exact ih hat h hstep hrest hok
        · omega
      · obtain ⟨hnext, hsees, hstep⟩ := hstep
        rcases replayAll_step hall with ⟨hold, -⟩ | ⟨-, hversion, hquiet, happly, hrest⟩
        · omega
        · obtain ⟨counts', c', hreplay, hat'⟩ := replayEvents_next hat hmatch hnext hquiet hok
          have hsession : e.sessionId = some B.primarySessionId :=
            (sessionId_of_matches hmatch).trans hat.session
          have hnewer : B.eventSeq < e.eventSeq := by omega
          have halike : sanitizeSnapshot (apply A e.toInput debug {}).2 =
              sanitizeSnapshot (takeIn debug B e) := by
            rw [happly]
            exact sanitize_takeIn h hsession hnewer hversion hsees hquiet
          rw [hreplay] at hok ⊢
          exact ih hat' halike hstep hrest hok
    · rename_i hforeign
      obtain ⟨reason, c', hanswer, hsnapshot⟩ :=
        applyEvent_stops debug hat (.inl (by simpa using hforeign))
      rw [replayAll_of_old hall (by simpa [hplace] using hstep), replayEvents, hanswer]
      exact ⟨B, hsnapshot, h⟩
/-!
## Batches with a snapshot
-/

/-- The first event that is not an old one of the stream is the one after the snapshot. -/
def Overtaken (descriptor : ProjectionStreamDescriptor) (eventSeq : ℕ) :
    List ProjectionEnvelope → Prop
  | [] => False
  | e :: events =>
    if envelopeMatchesDescriptor e descriptor ∧ e.eventSeq ≤ eventSeq then
      Overtaken descriptor eventSeq events
    else envelopeMatchesDescriptor e descriptor = true ∧ e.eventSeq = eventSeq + 1 ∧
      e.payload.isResyncRequired = false

/-- A snapshot is held that has reached a place in the stream of its session. -/
def View.Reached (n : ℕ) (v : View) : Prop :=
  ∃ s cursor descriptor, v.At s cursor descriptor ∧ n ≤ s.eventSeq

theorem applyEvent_reached {n : ℕ} (h : c.view.Reached n) :
    (c.applyEvent debug e).2.view.Reached n := by
  obtain ⟨s, cursor, descriptor, hat, hle⟩ := h
  rcases applyEvent_cases (e := e) hat with
    hsame | ⟨-, hsignal, hview⟩ | ⟨⟨cursor', -, hc, -, -, hstep⟩, hview, hseq, hsession⟩
  · rw [hsame]
    exact ⟨s, cursor, descriptor, hat, hle⟩
  · cases hp : e.payload with
    | resyncRequired a b =>
      have hpay : applyPayload s e.toInput = resyncRequired s e.toInput a b :=
        applyPayload_of_resync hp
      rw [hview, hpay]
      exact ⟨_, cursor, descriptor, ⟨rfl, hat.cursor_eq, hat.descriptor_eq, hat.session,
        hat.position⟩, hle⟩
    | _ => simp [hp, ProjectionEvent.isResyncRequired] at hsignal
  · have hcursor : cursor' = cursor := by
      have : some cursor' = some cursor := hc.symm.trans hat.cursor_eq
      simpa using this
    have hposition := hat.position
    rw [hview]
    refine ⟨_, { cursor with eventSeq := e.eventSeq }, descriptor, ⟨rfl, rfl,
      hat.descriptor_eq, hat.session.trans (congrArg some hsession.symm), hseq.symm⟩, ?_⟩
    rw [hseq, hstep, hcursor]
    omega

/-- The batch's snapshot is overtaken by the consumer's replay, or it is what both show. -/
theorem replayEvents_overtaken {S : SessionProjectionSnapshot}
    (hat : c.view.At (sanitizeSnapshot S) cursor descriptor)
    (hok : (replayEvents debug counts c events).1 = .ok outcome) :
    ∃ Y, (replayEvents debug counts c events).2.snapshot = some Y ∧
      (sanitizeSnapshot S = sanitizeSnapshot Y ↔ ¬ Overtaken descriptor S.eventSeq events) := by
  have hidem := sanitizeSnapshot_sanitizeSnapshot S
  have hplace : (sanitizeSnapshot S).eventSeq = S.eventSeq := rfl
  induction events generalizing counts with
  | nil => exact ⟨_, hat.snapshot_eq, by simp [Overtaken, hidem]⟩
  | cons e events ih =>
    rw [Overtaken]
    split
    · rename_i hold
      rw [replayEvents, applyEvent_duplicate hat hold.1 hold.2] at hok ⊢
      exact ih hok
    rename_i hnew
    by_cases hmatch : envelopeMatchesDescriptor e descriptor = true
    · have hnewer : ¬ e.eventSeq ≤ S.eventSeq := fun hle => hnew ⟨hmatch, hle⟩
      by_cases hnext : e.eventSeq = S.eventSeq + 1
      · cases hsignal : e.payload.isResyncRequired with
        | true =>
          obtain ⟨Y, hY, hsame⟩ := replayEvents_signal hat hmatch hnext hsignal hok
          exact ⟨Y, hY, by simp [hsame, hidem]⟩
        | false =>
          obtain ⟨counts', c', hreplay, hat'⟩ := replayEvents_next hat hmatch hnext hsignal hok
          have hstart : c'.view.Reached (S.eventSeq + 1) :=
            ⟨_, _, _, hat', hnext.symm.trans_le hat'.position.le⟩
          have hend : (replayEvents debug counts' c' events).2.view.Reached (S.eventSeq + 1) :=
            replayEvents_invariant (View.Reached (S.eventSeq + 1)) (fun _ _ => True)
              (fun h _ => applyEvent_reached h) hstart fun _ _ => trivial
          obtain ⟨Y, cursor', descriptor', hY, hpast⟩ := hend
          rw [hreplay]
          refine ⟨Y, hY.snapshot_eq, iff_of_false (fun hsame => ?_) (by simp [hmatch, hnext])⟩
          have hseq : S.eventSeq = Y.eventSeq := congrArg (·.eventSeq) hsame
          omega
      · obtain ⟨reason, c', hanswer, hsnapshot⟩ := applyEvent_stops (e := e) debug hat (.inr (by omega))
        rw [replayEvents, hanswer]
        exact ⟨_, hsnapshot, by simp [hidem, hnext]⟩
    · obtain ⟨reason, c', hanswer, hsnapshot⟩ :=
        applyEvent_stops debug hat (.inl (by simpa using hmatch))
      rw [replayEvents, hanswer]
      exact ⟨_, hsnapshot, by simp [hidem, hmatch]⟩

/-- A consumer that holds a snapshot stands at its place in the stream of its session. -/
theorem run_at {capabilities : ProjectionCapabilities} {calls : List Call}
    (h : ((withCapabilities capabilities).run debug calls).snapshot = some B) :
    ∃ cursor descriptor,
      ((withCapabilities capabilities).run debug calls).view.At B cursor descriptor := by
  have hstart : (withCapabilities capabilities).view.snapshot = none ∨
      (withCapabilities capabilities).view.Reached 0 := .inl rfl
  have hfresh : ∀ {descriptor : ProjectionStreamDescriptor} {s : SessionProjectionSnapshot}
      {cursor : ProjectionCursor}, descriptor.sessionId = some s.primarySessionId →
      (View.fresh descriptor s cursor).snapshot = none ∨
        (View.fresh descriptor s cursor).Reached 0 :=
    fun hsession => .inr ⟨_, _, _, ⟨rfl, rfl, rfl, hsession, rfl⟩, Nat.zero_le _⟩
  have hevent : ∀ {c : HeadlessProjectionConsumer} {e : ProjectionEnvelope},
      (c.view.snapshot = none ∨ c.view.Reached 0) → True →
      (c.applyEvent debug e).2.view.snapshot = none ∨ (c.applyEvent debug e).2.view.Reached 0 := by
    intro c e h _
    rcases h with hnone | hreached
    · rcases applyEvent_snapshot debug c e with hsame | ⟨s, hs, -⟩
      · exact .inl (hsame.trans hnone)
      · have hnone : c.snapshot = none := hnone
        rw [hnone] at hs
        cases hs
    · exact .inr (applyEvent_reached hreached)
  have hend : ((withCapabilities capabilities).run debug calls).view.snapshot = none ∨
      ((withCapabilities capabilities).run debug calls).view.Reached 0 :=
    run_invariant (fun v => v.snapshot = none ∨ v.Reached 0) (fun _ _ => True) hfresh hevent
      hstart fun _ _ => trivial
  rcases hend with hnone | ⟨s, cursor, descriptor, hat, -⟩
  · have hnone : ((withCapabilities capabilities).run debug calls).snapshot = none := hnone
    rw [hnone] at h
    cases h
  · have hsame : some s = some B := hat.snapshot_eq.symm.trans h
    cases hsame
    exact ⟨cursor, descriptor, hat⟩

end Replay

end HeadlessProjectionConsumer

open HeadlessProjectionConsumer

/-- Both clients hold a snapshot of the stream, at the same sequence number and the same up
to sanitising. -/
def Agree (controller : ProjectionClientController) (consumer : HeadlessProjectionConsumer)
    (streamId : ProjectionStreamId) : Prop :=
  ∃ X Y, controller.snapshots streamId = some X ∧ consumer.snapshot = some Y ∧
    X.eventSeq = Y.eventSeq ∧ sanitizeSnapshot X = sanitizeSnapshot Y

/-- No event overtakes the snapshot of the batch; without one, the events are in step. -/
def Compatible (debug : Option String → String) (initial B : SessionProjectionSnapshot)
    (batch : ProjectionReplayBatch) : Prop :=
  match batch.snapshot with
  | some (.one S) => ¬ Overtaken batch.descriptor S.eventSeq batch.events
  | _ => InStep debug batch.descriptor initial B batch.events

section Agreement

variable {debug : Option String → String} {controller : ProjectionClientController}
  {consumer : HeadlessProjectionConsumer} {subscriptionId : ProjectionSubscriptionId}
  {batch : ProjectionReplayBatch} {initial B S : SessionProjectionSnapshot}
  {cursor : ProjectionCursor} {descriptor : ProjectionStreamDescriptor}
  {outcome : HeadlessReplayOutcome}

/-- What the controller holds after a replay it did not refuse. -/
theorem installReplay_snapshot
    (h : ∀ reason, (controller.installReplay debug subscriptionId batch.descriptor batch.events
      batch.snapshot initial).1 ≠ .failed reason) :
    ∃ X, replayAll debug initial batch.events = some X ∧
      (controller.installReplay debug subscriptionId batch.descriptor batch.events batch.snapshot
        initial).2.snapshots batch.descriptor.streamId =
        some (chooseSnapshot X batch.snapshot) := by
  rw [installReplay] at h ⊢
  split at h
  · exact absurd rfl (h _)
  · rename_i hmode
    rw [if_neg hmode]
    cases hall : replayAll debug initial batch.events with
    | none =>
      rw [hall] at h
      exact absurd rfl (h _)
    | some X => exact ⟨X, rfl, by simp⟩

/-- What the consumer goes through when it accepts a batch. -/
theorem acceptReplay_events (h : (consumer.acceptReplay debug batch).1 = .ok outcome) :
    ∃ c counts, consumer.installBatchSnapshot batch = (.ok (), c) ∧
      c.descriptor = some batch.descriptor ∧
      consumer.acceptReplay debug batch = replayEvents debug counts c batch.events := by
  rw [acceptReplay] at h ⊢
  rcases hin : consumer.installBatchSnapshot batch with ⟨answer, c⟩
  rw [hin] at h
  cases answer with
  | error => cases h
  | ok =>
    dsimp only at h ⊢
    split at h
    · cases h
    · rename_i hdescriptor
      split at h
      · cases h
      · rename_i hheld
        rw [if_neg hdescriptor, if_neg hheld]
        exact ⟨c, _, rfl, not_not.mp hdescriptor, rfl⟩

theorem agree_iff_of_snapshot (hS : batch.snapshot = some (.one S))
    (haccepted : ∀ reason, (controller.installReplay debug subscriptionId batch.descriptor
      batch.events batch.snapshot initial).1 ≠ .failed reason)
    (hok : (consumer.acceptReplay debug batch).1 = .ok outcome) :
    Agree (controller.installReplay debug subscriptionId batch.descriptor batch.events
        batch.snapshot initial).2 (consumer.acceptReplay debug batch).2
        batch.descriptor.streamId ↔
      ¬ Overtaken batch.descriptor S.eventSeq batch.events := by
  obtain ⟨X, -, hX⟩ := installReplay_snapshot haccepted
  obtain ⟨c, counts, hin, -, hreplay⟩ := acceptReplay_events hok
  have hchosen : chooseSnapshot X batch.snapshot = S := by
    rw [hS]
    rfl
  rw [hchosen] at hX
  have hat : ∃ cursor, c.view.At (sanitizeSnapshot S) cursor batch.descriptor := by
    rw [installBatchSnapshot, hS] at hin
    dsimp only [singleSnapshot] at hin
    split at hin
    · cases hin
    · rename_i hvalid
      cases hin
      have hsession := sessionId_of_validStream (not_not.mp hvalid)
      exact ⟨_, rfl, rfl, rfl, hsession, rfl⟩
  obtain ⟨cursor, hat⟩ := hat
  rw [hreplay] at hok ⊢
  obtain ⟨Y, hY, hiff⟩ := replayEvents_overtaken hat hok
  rw [← hiff]
  constructor
  · rintro ⟨X', Y', hX', hY', -, hsame⟩
    rw [hX] at hX'
    rw [hY] at hY'
    cases hX'
    cases hY'
    exact hsame
  · intro hsame
    exact ⟨S, Y, hX, hY, congrArg (·.eventSeq) hsame, hsame⟩

theorem agree_of_inStep (hnone : batch.snapshot = none)
    (hat : consumer.view.At B cursor descriptor)
    (hsame : sanitizeSnapshot initial = sanitizeSnapshot B)
    (haccepted : ∀ reason, (controller.installReplay debug subscriptionId batch.descriptor
      batch.events batch.snapshot initial).1 ≠ .failed reason)
    (hok : (consumer.acceptReplay debug batch).1 = .ok outcome)
    (hstep : InStep debug batch.descriptor initial B batch.events) :
    Agree (controller.installReplay debug subscriptionId batch.descriptor batch.events
        batch.snapshot initial).2 (consumer.acceptReplay debug batch).2
        batch.descriptor.streamId := by
  obtain ⟨X, hall, hX⟩ := installReplay_snapshot haccepted
  obtain ⟨c, counts, hin, hdescriptor, hreplay⟩ := acceptReplay_events hok
  rw [installBatchSnapshot, hnone] at hin
  cases hin
  have hd : descriptor = batch.descriptor := by
    have : some descriptor = some batch.descriptor := hat.descriptor_eq.symm.trans hdescriptor
    simpa using this
  rw [hd] at hat
  have hchosen : chooseSnapshot X batch.snapshot = X := by
    rw [hnone]
    rfl
  rw [hchosen] at hX
  rw [hreplay] at hok ⊢
  obtain ⟨Y, hY, halike⟩ := replay_sanitize hat hsame hstep hall hok
  exact ⟨X, Y, hX, hY, congrArg (·.eventSeq) halike, halike⟩

/-- Both clients end a replay batch they accept, from starting snapshots that look the same,
in agreement when the batch is compatible; with a snapshot in the batch they do so only
then. -/
theorem replay_agreement (capabilities : ProjectionCapabilities) (calls : List Call)
    (hheld : ((withCapabilities capabilities).run debug calls).snapshot = some B)
    (hsame : sanitizeSnapshot initial = sanitizeSnapshot B)
    (haccepted : ∀ reason, (controller.installReplay debug subscriptionId batch.descriptor
      batch.events batch.snapshot initial).1 ≠ .failed reason)
    (hok : (((withCapabilities capabilities).run debug calls).acceptReplay debug batch).1 =
      .ok outcome) :
    (Compatible debug initial B batch → Agree
      (controller.installReplay debug subscriptionId batch.descriptor batch.events batch.snapshot
        initial).2
      (((withCapabilities capabilities).run debug calls).acceptReplay debug batch).2
      batch.descriptor.streamId) ∧
    (batch.snapshot.isSome → Agree
      (controller.installReplay debug subscriptionId batch.descriptor batch.events batch.snapshot
        initial).2
      (((withCapabilities capabilities).run debug calls).acceptReplay debug batch).2
      batch.descriptor.streamId → Compatible debug initial B batch) := by
  obtain ⟨cursor, descriptor, hat⟩ := run_at hheld
  cases hb : batch.snapshot with
  | none =>
    refine ⟨fun hcompatible => ?_, fun hsome => by cases hsome⟩
    rw [Compatible, hb] at hcompatible
    have hagree := agree_of_inStep hb hat hsame haccepted hok hcompatible
    rw [hb] at hagree
    exact hagree
  | some bundle =>
    cases bundle with
    | one S =>
      have hiff := agree_iff_of_snapshot hb haccepted hok
      rw [Compatible, hb]
      rw [hb] at hiff
      exact ⟨hiff.mpr, fun _ => hiff.mp⟩
    | boundedSessionList | lspDiagnostics =>
      -- a bundle for other consumers is refused by this one
      obtain ⟨c, counts, hin, -, -⟩ := acceptReplay_events hok
      rw [installBatchSnapshot, hb] at hin
      cases hin

end Agreement

/-- A consumer subscribed at the start of the sample stream. -/
def subscribeCalls : List Call :=
  [.connect {}, .acceptSubscribed "sub" sampleDescriptor (.one sampleSnapshot) ⟨"session-s", 0, 1⟩]

def negotiatedController : ProjectionClientController :=
  (new {}).negotiate (some {})

def sampleBatch (snapshot : Option ProjectionSnapshotBundle) : ProjectionReplayBatch where
  descriptor := sampleDescriptor
  events := [sampleEnvelope 1 (.modelSelected "m" 0)]
  snapshot := snapshot
  nextCursor := none

theorem replay_agreement_sampleBatch :
    Agree (negotiatedController.installReplay plainDebug "sub" sampleDescriptor
        (sampleBatch none).events none sampleSnapshot).2
      (((withCapabilities {}).run plainDebug subscribeCalls).acceptReplay plainDebug
        (sampleBatch none)).2 "session-s" := by
  have hheld : ((withCapabilities {}).run plainDebug subscribeCalls).snapshot =
      some sampleSnapshot := rfl
  have haccepted : ∀ reason, (negotiatedController.installReplay plainDebug "sub"
      (sampleBatch none).descriptor (sampleBatch none).events (sampleBatch none).snapshot
      sampleSnapshot).1 ≠ .failed reason := by
    intro reason h
    cases h
  have hok : (((withCapabilities {}).run plainDebug subscribeCalls).acceptReplay plainDebug
      (sampleBatch none)).1 = .ok ⟨1, 0, 0, none⟩ := rfl
  refine (replay_agreement {} subscribeCalls hheld rfl haccepted hok).1 ?_
  exact ⟨rfl, fun _ _ _ _ => trivial, trivial⟩

/-- Both clients accept the batch; the controller loses the event after its snapshot. -/
theorem replay_loses_event :
    (∀ reason, (negotiatedController.installReplay plainDebug "sub" sampleDescriptor
      (sampleBatch (some (.one sampleSnapshot))).events (some (.one sampleSnapshot))
      sampleSnapshot).1 ≠ .failed reason) ∧
    (((withCapabilities {}).run plainDebug subscribeCalls).acceptReplay plainDebug
      (sampleBatch (some (.one sampleSnapshot)))).1 = .ok ⟨1, 0, 0, none⟩ ∧
    ¬ Agree (negotiatedController.installReplay plainDebug "sub" sampleDescriptor
        (sampleBatch (some (.one sampleSnapshot))).events (some (.one sampleSnapshot))
        sampleSnapshot).2
      (((withCapabilities {}).run plainDebug subscribeCalls).acceptReplay plainDebug
        (sampleBatch (some (.one sampleSnapshot)))).2 "session-s" := by
  refine ⟨fun reason h => (by cases h), rfl, ?_⟩
  rintro ⟨X, Y, hX, hY, hseq, -⟩
  have hcontroller : X.eventSeq = 0 := by
    cases hX
    rfl
  have hconsumer : Y.eventSeq = 1 := by
    cases hY
    rfl
  omega

end Codegg.Projection
