import Codegg.Projection.SummaryCounters

/-!
# Inputs that are delivered again

Each input of a session may be delivered again, at any time and as often as it pleases.
-/
namespace Codegg.Projection.ProjectionReducer

/-- The inputs in their order, with some that were delivered before in between. -/
inductive Redelivered : List ReducerEventInput → List ReducerEventInput → Prop
  | nil : Redelivered [] []
  | next {inputs delivered} (h : Redelivered inputs delivered) (input) :
    Redelivered (inputs ++ [input]) (delivered ++ [input])
  | again {inputs delivered input} (h : Redelivered inputs delivered) (hinput : input ∈ inputs) :
    Redelivered inputs (delivered ++ [input])

variable {s : SessionProjectionSnapshot} {input : ReducerEventInput}
  {inputs delivered : List ReducerEventInput} (debug : Option String → String)
  (config : ReducerConfig)

/-- An input of the session that is no signal to start over. -/
def Own (sessionId : String) (input : ReducerEventInput) : Prop :=
  input.sessionId = some sessionId ∧ input.payload.isResyncRequired = false

/-- The input is refused, or the snapshot is past it. -/
def Settled (s : SessionProjectionSnapshot) (input : ReducerEventInput) : Prop :=
  versionSupported config input.protocolVersion = true → input.eventSeq ≤ s.eventSeq

theorem apply_of_settled (hown : Own s.primarySessionId input) (h : Settled config s input) :
    (apply s input debug config).2 = s := by
  rcases @apply_cases s input debug config with ⟨e, heq⟩ | ⟨-, heq⟩ | ⟨hforeign, -⟩ |
    ⟨hversion, -, hnewer, -⟩
  · rw [heq]
  · rw [heq]
  · simp [checkScope, hown.1] at hforeign
  · exact absurd (h hversion) (by omega)

theorem apply_settles (hown : Own s.primarySessionId input) :
    (apply s input debug config).2.primarySessionId = s.primarySessionId ∧
      s.eventSeq ≤ (apply s input debug config).2.eventSeq ∧
      Settled config (apply s input debug config).2 input := by
  by_cases h : Settled config s input
  · rw [apply_of_settled debug config hown h]
    exact ⟨rfl, le_rfl, h⟩
  · simp only [Settled, Classical.not_imp, not_le] at h
    rw [apply_of_next h.1 (by simp [checkScope, hown.1]) h.2]
    obtain ⟨-, hseq, hsession⟩ := stamp_advances s input hown.2
    exact ⟨hsession, by omega, fun _ => hseq.ge⟩

/-- The snapshot stays in its session and past what was delivered, so repeats find it there. -/
theorem Redelivered.settled (h : Redelivered inputs delivered)
    (hown : ∀ input ∈ inputs, Own s.primarySessionId input) :
    after debug config s delivered = after debug config s inputs ∧
      (after debug config s inputs).primarySessionId = s.primarySessionId ∧
      ∀ input ∈ inputs, Settled config (after debug config s inputs) input := by
  induction h with
  | nil => exact ⟨rfl, rfl, by simp⟩
  | next h last ih =>
    obtain ⟨hsame, hsession, hsettled⟩ := ih fun input hinput => hown input (by simp [hinput])
    obtain ⟨hkept, hle, hlast⟩ := apply_settles debug config (hsession ▸ hown last (by simp))
    rw [after_concat, after_concat, hsame]
    refine ⟨rfl, hkept.trans hsession, fun input hinput => ?_⟩
    rcases List.mem_append.mp hinput with hinput | hinput
    · exact fun hversion => (hsettled input hinput hversion).trans hle
    · rwa [List.mem_singleton.mp hinput]
  | again h hinput ih =>
    obtain ⟨hsame, hsession, hsettled⟩ := ih hown
    rw [after_concat, hsame,
      apply_of_settled debug config (hsession ▸ hown _ hinput) (hsettled _ hinput)]
    exact ⟨rfl, hsession, hsettled⟩

/-- Inputs that are delivered again change nothing. -/
theorem after_redelivered (h : Redelivered inputs delivered)
    (hown : ∀ input ∈ inputs, Own s.primarySessionId input) :
    after debug config s delivered = after debug config s inputs :=
  (h.settled debug config hown).1

theorem sampleInputs_redelivered :
    after debugId {} (.empty "s" "p" "w") (sampleInputs ++ sampleInputs.take 1) =
      after debugId {} (.empty "s" "p" "w") sampleInputs :=
  after_redelivered _ _ ((Redelivered.next (.next .nil _) _).again (by simp))
    (by simp [sampleInputs, Own]; decide)

end Codegg.Projection.ProjectionReducer
