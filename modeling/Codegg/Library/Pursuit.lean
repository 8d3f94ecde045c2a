import Codegg.Library.StateError

/-!
# A run that follows another

Two runs of the same computation from related states. The second is allowed to
know where the first one ends, and to give up. Both are needed for a replay: the
first run wrote the journal that the second one reads, and the second one stops
where it does not recognise itself.
-/
namespace Codegg.Library

variable {ε σ α β : Type}

structure Pursuit (ε σ : Type) where
  /-- The states in which the second run follows the first. -/
  R : σ → σ → Prop
  /-- What is known of the state in which the first run ends. -/
  A : σ → Prop
  /-- How the first run moves. -/
  M : σ → σ → Prop
  /-- The second run gives up with an error, while the first is in a state. -/
  S : σ → ε → σ → Prop
  refl : ∀ s, M s s
  trans : ∀ a b c, M a b → M b c → M a c
  back : ∀ {s s'}, M s s' → A s' → A s
  later : ∀ {s s' e t}, M s s' → S s e t → S s' e t

/-- The same outcome in related states. -/
inductive Matched (R : σ → σ → Prop) : EStateM.Result ε σ α → EStateM.Result ε σ α → Prop
  | ok (a : α) {s t : σ} (h : R s t) : Matched R (.ok a s) (.ok a t)
  | error (e : ε) {s t : σ} (h : R s t) : Matched R (.error e s) (.error e t)

/-- Going on in the same way from matched outcomes. -/
theorem Matched.bind {R : σ → σ → Prop} {x y : EStateM ε σ α} {f g : α → EStateM ε σ β} {s t : σ}
    (h : Matched R (x s) (y t)) (hf : ∀ a s' t', R s' t' → Matched R (f a s') (g a t')) :
    Matched R ((x >>= f) s) ((y >>= g) t) := by
  cases hs : x s with
  | ok a s' =>
    cases ht : y t with
    | ok b t' =>
      rw [hs, ht] at h
      rw [bind_of_ok hs, bind_of_ok ht]
      cases h with
      | ok _ hR => exact hf a s' t' hR
    | error e t' =>
      rw [hs, ht] at h
      cases h
  | error e s' =>
    cases ht : y t with
    | ok b t' =>
      rw [hs, ht] at h
      cases h
    | error e' t' =>
      rw [hs, ht] at h
      rw [bind_of_error hs, bind_of_error ht]
      cases h with
      | error _ hR => exact .error e hR

namespace Pursuit

variable (P : Pursuit ε σ)

structure Follows (x : EStateM ε σ α) : Prop where
  moves : Moves P.M x
  follows : ∀ s t, P.R s t → P.A (finalState (x s)) →
    Matched P.R (x s) (x t) ∨ ∃ e t', x t = .error e t' ∧ P.S (finalState (x s)) e t'

variable {P}

theorem Follows.pure (a : α) : P.Follows (Pure.pure a) :=
  ⟨.pure P.refl a, fun _ _ h _ => .inl (.ok a h)⟩

theorem Follows.throw (e : ε) : P.Follows (MonadExcept.throw e : EStateM ε σ α) :=
  ⟨.throw P.refl e, fun _ _ h _ => .inl (.error e h)⟩

theorem Follows.bind {x : EStateM ε σ α} {f : α → EStateM ε σ β} (hx : P.Follows x)
    (hf : ∀ a, P.Follows (f a)) : P.Follows (x >>= f) := by
  refine ⟨.bind P.trans hx.moves fun a => (hf a).moves, ?_⟩
  intro s t h hA
  cases hs : x s with
  | error e s' =>
    rw [bind_of_error hs] at hA ⊢
    have hA' : P.A (finalState (x s)) := by rw [hs]; exact hA
    rcases hx.follows s t h hA' with hm | ⟨e', t', ht, hS⟩
    · rw [hs] at hm
      cases hm' : x t with
      | ok a t' =>
        rw [hm'] at hm
        cases hm
      | error e' t' =>
        rw [hm'] at hm
        rw [bind_of_error hm']
        cases hm with
        | error _ hR => exact .inl (.error e hR)
    · rw [hs] at hS
      exact .inr ⟨e', t', bind_of_error ht, hS⟩
  | ok a s' =>
    rw [bind_of_ok hs] at hA ⊢
    -- The first part ended where the rest of the run has moved on from.
    have hmove : P.M s' (finalState (f a s')) := (hf a).moves s'
    have hA' : P.A (finalState (x s)) := by
      rw [hs]
      exact P.back hmove hA
    rcases hx.follows s t h hA' with hm | ⟨e', t', ht, hS⟩
    · rw [hs] at hm
      cases hm' : x t with
      | error e' t' =>
        rw [hm'] at hm
        cases hm
      | ok b t' =>
        rw [hm'] at hm
        rw [bind_of_ok hm']
        cases hm with
        | ok _ hR => exact (hf a).follows s' t' hR hA
    · rw [hs] at hS
      exact .inr ⟨e', t', bind_of_error ht, P.later hmove hS⟩

/-- The pursuit of a run by itself: an invariant. -/
def diagonal (ε : Type) (I : σ → Prop) : Pursuit ε σ where
  R := fun s t => t = s ∧ I s
  A := fun _ => True
  M := fun _ _ => True
  S := fun _ _ _ => False
  refl := fun _ => trivial
  trans := fun _ _ _ _ _ => trivial
  back := fun _ _ => trivial
  later := fun _ h => h

theorem diagonal_follows {I : σ → Prop} {x : EStateM ε σ α}
    (h : ∀ s, I s → I (finalState (x s))) : (diagonal ε I).Follows x := by
  refine ⟨fun _ => trivial, ?_⟩
  intro s t hst _
  obtain ⟨rfl, hI⟩ : t = s ∧ I s := hst
  have hf := h t hI
  cases hx : x t with
  | ok a s' =>
    rw [hx] at hf
    exact .inl (.ok a ⟨rfl, hf⟩)
  | error e s' =>
    rw [hx] at hf
    exact .inl (.error e ⟨rfl, hf⟩)

end Pursuit

end Codegg.Library
