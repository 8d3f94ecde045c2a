import Mathlib.Tactic

/-!
# Reasoning about computations with state and errors

Ways to speak about a computation that changes a state and may fail, all closed under
sequencing:

* `Returns x a`: some run of `x` returns `a`;
* `Moves R x`: every run of `x` moves the state along `R`, failed or not;
* `Triple P x Q E`: from a state in `P`, the outcome satisfies `Q` or `E`;
* `Tighter stop x y`: `x` does what `y` does, unless it stops early;
* `Matches R x y`: `x` and `y` both fail, or have related results.
-/
namespace Codegg.Library

open MonadExcept

variable {ε σ α β : Type}

/-- The state a computation ends in, failed or not. -/
def finalState : EStateM.Result ε σ α → σ
  | .ok _ s => s
  | .error _ s => s

@[simp] theorem finalState_ok (a : α) (s : σ) :
    finalState (.ok a s : EStateM.Result ε σ α) = s := rfl

@[simp] theorem finalState_error (e : ε) (s : σ) :
    finalState (.error e s : EStateM.Result ε σ α) = s := rfl

variable {x : EStateM ε σ α} {f : α → EStateM ε σ β} {s s' : σ} {a : α} {e : ε} {b : β}

theorem bind_of_ok (h : x s = .ok a s') : (x >>= f) s = f a s' := by
  show EStateM.bind x f s = f a s'
  simp only [EStateM.bind, h]

theorem bind_of_error (h : x s = .error e s') : (x >>= f) s = .error e s' := by
  show EStateM.bind x f s = .error e s'
  simp only [EStateM.bind, h]

theorem get_bind (f : σ → EStateM ε σ β) (s : σ) : (MonadState.get >>= f) s = f s s := rfl

theorem throw_bind (e : ε) (f : α → EStateM ε σ β) (s : σ) :
    ((throw e : EStateM ε σ α) >>= f) s = .error e s := rfl

/-- Stop with an error under a condition. -/
def failIf (c : Prop) [Decidable c] (e : ε) : EStateM ε σ Unit :=
  if c then throw e else Pure.pure ()

theorem failIf_bind (c : Prop) [Decidable c] (e : ε) (f : Unit → EStateM ε σ α) (s : σ) :
    (failIf c e >>= f) s = if c then .error e s else f () s := by
  unfold failIf
  split_ifs <;> rfl

theorem failIf_eq_ok {c : Prop} [Decidable c] {u : Unit} (h : failIf c e s = .ok u s') :
    ¬c ∧ s' = s := by
  unfold failIf at h
  split at h
  · cases h
  · rename_i hc
    cases h
    exact ⟨hc, rfl⟩

theorem finalState_map (f : α → β) (x : EStateM ε σ α) (s : σ) :
    finalState ((f <$> x) s) = finalState (x s) := by
  show finalState (EStateM.map f x s) = finalState (x s)
  simp only [EStateM.map]
  split <;> rename_i h <;> rw [h] <;> rfl

theorem map_of_ok (h : x s = .ok a s') (f : α → β) :
    (f <$> x) s = .ok (f a) s' := by
  show EStateM.map f x s = .ok (f a) s'
  simp only [EStateM.map, h]

theorem map_eq_ok {f : α → β} (h : (f <$> x) s = .ok b s') : ∃ a, x s = .ok a s' ∧ f a = b := by
  change EStateM.map f x s = .ok b s' at h
  cases hx : x s with
  | ok a s'' =>
    simp only [EStateM.map, hx] at h
    cases h
    exact ⟨a, rfl, rfl⟩
  | error e s'' =>
    simp only [EStateM.map, hx] at h
    cases h

theorem map_eq_error {f : α → β} :
    (f <$> x) s = .error e s' ↔ x s = .error e s' := by
  change EStateM.map f x s = .error e s' ↔ x s = .error e s'
  cases hx : x s with
  | ok a s'' => simp [EStateM.map, hx]
  | error e' s'' => simp [EStateM.map, hx]

/-- Case analysis on the first part of a sequence. -/
theorem bind_cases (s : σ) {C : EStateM.Result ε σ β → Prop}
    (hok : ∀ a s', x s = .ok a s' → C (f a s')) (herr : ∀ e s', x s = .error e s' → C (.error e s')) :
    C ((x >>= f) s) := by
  cases h : x s with
  | ok a s' =>
    rw [bind_of_ok h]
    exact hok a s' h
  | error e s' =>
    rw [bind_of_error h]
    exact herr e s' h

/-- A sequence that succeeds is two computations that do. -/
theorem bind_eq_ok {s'' : σ} (h : (x >>= f) s = .ok b s'') :
    ∃ a s', x s = .ok a s' ∧ f a s' = .ok b s'' := by
  cases hx : x s with
  | ok a s' =>
    rw [bind_of_ok hx] at h
    exact ⟨a, s', rfl, h⟩
  | error e s' =>
    rw [bind_of_error hx] at h
    cases h

/-! ### Returning a value -/

def Returns (x : EStateM ε σ α) (a : α) : Prop := ∃ s s', x s = .ok a s'

namespace Returns

theorem of_pure {b : α} (h : Returns (Pure.pure a : EStateM ε σ α) b) : b = a := by
  obtain ⟨s, s', h⟩ := h
  cases h
  rfl

theorem of_bind (h : Returns (x >>= f) b) :
    ∃ a, Returns x a ∧ Returns (f a) b := by
  obtain ⟨s, s', h⟩ := h
  obtain ⟨a, t, hx, hf⟩ := bind_eq_ok h
  exact ⟨a, ⟨s, t, hx⟩, ⟨t, s', hf⟩⟩

/-- What follows the first part of a sequence, whatever that part returns. -/
theorem of_seq {y : EStateM ε σ β} (h : Returns (x >>= fun _ => y) b) : Returns y b := by
  obtain ⟨_, _, hy⟩ := h.of_bind
  exact hy

theorem of_bind_pure {f : α → β} (h : Returns (x >>= fun a => Pure.pure (f a)) b) :
    ∃ a, Returns x a ∧ b = f a := by
  obtain ⟨a, hx, hf⟩ := h.of_bind
  exact ⟨a, hx, hf.of_pure⟩

theorem not_throw : ¬Returns (throw e : EStateM ε σ α) a := by
  rintro ⟨s, s', h⟩
  cases h

end Returns

/-! ### Moving along a relation -/

def Moves (R : σ → σ → Prop) (x : EStateM ε σ α) : Prop := ∀ s, R s (finalState (x s))

namespace Moves

variable {R : σ → σ → Prop}

theorem pure (hr : ∀ s, R s s) (a : α) : Moves R (Pure.pure a : EStateM ε σ α) := fun s => hr s

theorem throw (hr : ∀ s, R s s) (e : ε) :
    Moves R (throw e : EStateM ε σ α) := fun s => hr s

theorem get (hr : ∀ s, R s s) : Moves R (MonadState.get : EStateM ε σ σ) := fun s => hr s

theorem bind (ht : ∀ a b c, R a b → R b c → R a c) (hx : Moves R x) (hf : ∀ a, Moves R (f a)) :
    Moves R (x >>= f) := by
  intro s
  have hs := hx s
  refine bind_cases s (C := fun r => R s (finalState r)) ?_ ?_
  · intro a s' h
    rw [h] at hs
    exact ht _ _ _ hs (hf a s')
  · intro e s' h
    rw [h] at hs
    exact hs

theorem modify {f : σ → σ} (h : ∀ s, R s (f s)) : Moves R (modifyThe σ f : EStateM ε σ PUnit) :=
  h

end Moves

/-- The state is not touched. -/
abbrev ReadOnly (x : EStateM ε σ α) : Prop := Moves Eq x

namespace ReadOnly

theorem pure (a : α) : ReadOnly (Pure.pure a : EStateM ε σ α) := Moves.pure (fun _ => rfl) a

theorem throw (e : ε) : ReadOnly (throw e : EStateM ε σ α) :=
  Moves.throw (fun _ => rfl) e

theorem get : ReadOnly (MonadState.get : EStateM ε σ σ) := Moves.get fun _ => rfl

theorem bind (hx : ReadOnly x) (hf : ∀ a, ReadOnly (f a)) : ReadOnly (x >>= f) :=
  Moves.bind (R := Eq) (fun _ _ _ h h' => h.trans h') hx hf

theorem failIf (c : Prop) [Decidable c] (e : ε) :
    ReadOnly (Library.failIf c e : EStateM ε σ Unit) := by
  unfold Library.failIf
  split
  · exact throw e
  · exact pure ()

theorem of_ok (h : ReadOnly x) (hx : x s = .ok a s') :
    s' = s := by
  have hs := h s
  rw [hx] at hs
  exact hs.symm

/-- A sequence that succeeds, and whose first part does not touch the state. -/
theorem bind_eq_ok (h : ReadOnly x) (hb : (x >>= f) s = .ok b s') :
    ∃ a, x s = .ok a s ∧ f a s = .ok b s' := by
  obtain ⟨a, t, hx, hf⟩ := Library.bind_eq_ok hb
  obtain rfl := h.of_ok hx
  exact ⟨a, hx, hf⟩

end ReadOnly

/-! ### Checks and transactions -/

section

variable {r : Except ε α}

theorem liftExcept_ok (h : r = .ok a) (s : σ) : (liftExcept r : EStateM ε σ α) s = .ok a s := by
  rw [h]
  rfl

theorem liftExcept_error (h : r = .error e) (s : σ) :
    (liftExcept r : EStateM ε σ α) s = .error e s := by
  rw [h]
  rfl

theorem liftExcept_eq_ok (h : (liftExcept r : EStateM ε σ α) s = .ok a s') :
    r = .ok a ∧ s' = s := by
  cases r with
  | ok b =>
    cases h
    exact ⟨rfl, rfl⟩
  | error e => cases h

theorem readOnly_liftExcept (r : Except ε α) : ReadOnly (liftExcept r : EStateM ε σ α) := by
  cases r with
  | ok a => exact .pure a
  | error e => exact .throw e

end

/-- What a failure leaves, of the state before and the state it stopped in. -/
class Rollback (σ : Type) where
  rollBack : σ → σ → σ

/-- Roll back on failure. -/
def transaction [Rollback σ] (x : EStateM ε σ α) : EStateM ε σ α := fun s =>
  match x s with
  | .ok a s' => .ok a s'
  | .error e s' => .error e (Rollback.rollBack s s')

theorem transaction_eq_ok [Rollback σ] (h : transaction x s = .ok a s') : x s = .ok a s' := by
  unfold transaction at h
  split at h
  · rename_i hx
    rwa [hx]
  · cases h

theorem transaction_eq_error [Rollback σ] (h : transaction x s = .error e s') :
    ∃ t, x s = .error e t ∧ s' = Rollback.rollBack s t := by
  unfold transaction at h
  split at h
  · cases h
  · rename_i hx
    cases h
    exact ⟨_, hx, rfl⟩

/-! ### Pre- and postconditions -/

/-- An outcome satisfies `Q` if it is a success and `E` if it is a failure. -/
def Meets (Q : α → σ → Prop) (E : ε → σ → Prop) : EStateM.Result ε σ α → Prop
  | .ok a s => Q a s
  | .error e s => E e s

/-- Returning another value afterwards changes nothing about the states. -/
theorem Meets.then_pure {A : σ → Prop} {E : ε → σ → Prop} (h : Meets (fun _ => A) E (x s)) (b : β) :
    Meets (fun _ => A) E ((x >>= fun _ => Pure.pure b) s) := by
  cases hx : x s with
  | ok a s' =>
    rw [hx] at h
    rw [bind_of_ok hx]
    exact h
  | error e s' =>
    rw [hx] at h
    rw [bind_of_error hx]
    exact h

def Triple (P : σ → Prop) (x : EStateM ε σ α) (Q : α → σ → Prop) (E : ε → σ → Prop) : Prop :=
  ∀ s, P s → Meets Q E (x s)

namespace Triple

variable {P : σ → Prop} {Q : α → σ → Prop} {E : ε → σ → Prop}

theorem of_ok (h : Triple P x Q E) (hs : P s) (hx : x s = .ok a s') : Q a s' := by
  have := h s hs
  rwa [hx] at this

theorem of_error (h : Triple P x Q E) (hs : P s) (hx : x s = .error e s') : E e s' := by
  have := h s hs
  rwa [hx] at this

theorem pure (h : ∀ s, P s → Q a s) : Triple P (Pure.pure a : EStateM ε σ α) Q E := h

theorem throw (h : ∀ s, P s → E e s) :
    Triple P (throw e : EStateM ε σ α) Q E := h

theorem bind {R : α → σ → Prop} {S : β → σ → Prop} (hx : Triple P x R E)
    (hf : ∀ a, Triple (R a) (f a) S E) :
    Triple P (x >>= f) S E := by
  intro s hs
  refine bind_cases s (C := Meets S E) ?_ ?_
  · intro a s' h
    exact hf a s' (hx.of_ok hs h)
  · intro e s' h
    exact hx.of_error hs h

theorem conseq {P' : σ → Prop} {Q' : α → σ → Prop} {E' : ε → σ → Prop} (h : Triple P x Q E)
    (hp : ∀ s, P' s → P s) (hq : ∀ a s, Q a s → Q' a s) (he : ∀ e s, E e s → E' e s) :
    Triple P' x Q' E' := by
  intro s hs
  cases hx : x s with
  | ok a s' => exact hq a s' (h.of_ok (hp s hs) hx)
  | error e s' => exact he e s' (h.of_error (hp s hs) hx)

theorem failIf {c : Prop} [Decidable c] {R : Unit → σ → Prop} (he : ∀ s, P s → c → E e s)
    (hok : ∀ s, P s → ¬c → R () s) :
    Triple P (Library.failIf c e : EStateM ε σ Unit) R E := by
  intro s hs
  by_cases hc : c
  · rw [Library.failIf, if_pos hc]
    exact he s hs hc
  · rw [Library.failIf, if_neg hc]
    exact hok s hs hc

theorem modify {f : σ → σ} {R : PUnit → σ → Prop} (h : ∀ s, P s → R ⟨⟩ (f s)) :
    Triple P (modifyThe σ f : EStateM ε σ PUnit) R E := h

theorem liftExcept_bind {r : Except ε α} {S : β → σ → Prop} (he : ∀ e s, P s → E e s)
    (h : ∀ a, r = .ok a → Triple P (f a) S E) : Triple P (liftExcept r >>= f) S E := by
  cases r with
  | ok a => exact h a rfl
  | error e => exact fun s hs => he e s hs

/-- A computation that goes on with the state it reads. -/
theorem get_bind {f : σ → EStateM ε σ β} {S : β → σ → Prop}
    (h : ∀ s, P s → Meets S E (f s s)) : Triple P (MonadState.get >>= f) S E := h

/-- What does not touch the state keeps every property of it. -/
theorem readOnly (h : ReadOnly x) :
    Triple P x (fun _ => P) (fun _ => P) := by
  intro s hs
  have hm := h s
  cases hx : x s with
  | ok a s' =>
    rw [hx] at hm
    rw [show s = s' from hm] at hs
    exact hs
  | error e s' =>
    rw [hx] at hm
    rw [show s = s' from hm] at hs
    exact hs

/-- The final state of a computation that keeps a property has it. -/
theorem finalState {A : σ → Prop} (h : Triple P x (fun _ => A) (fun _ => A)) (hs : P s) :
    A (Library.finalState (x s)) := by
  cases hx : x s with
  | ok a s' => exact h.of_ok hs hx
  | error e s' => exact h.of_error hs hx

/-- A relation along which a computation moves gives every postcondition it implies. -/
theorem of_moves {R : σ → σ → Prop} (hx : Moves R x) (hq : ∀ s s', P s → R s s' → ∀ a, Q a s')
    (he : ∀ s s', P s → R s s' → ∀ e, E e s') :
    Triple P x Q E := by
  intro s hs
  have hm := hx s
  cases h : x s with
  | ok a s' =>
    rw [h] at hm
    exact hq s s' hs hm a
  | error e s' =>
    rw [h] at hm
    exact he s s' hs hm e

end Triple

/-! ### Stopping early -/

def Tighter (stop : ε → Prop) (x y : EStateM ε σ α) : Prop :=
  ∀ s, x s = y s ∨ ∃ e s', x s = .error e s' ∧ stop e

namespace Tighter

variable {stop : ε → Prop}

theorem refl (x : EStateM ε σ α) : Tighter stop x x := fun _ => .inl rfl

theorem throw (h : stop e) (y : EStateM ε σ α) :
    Tighter stop (throw e) y := fun s => .inr ⟨e, s, rfl, h⟩

theorem bind {y : EStateM ε σ α} {g : α → EStateM ε σ β} (hx : Tighter stop x y)
    (hf : ∀ a, Tighter stop (f a) (g a)) : Tighter stop (x >>= f) (y >>= g) := by
  intro s
  rcases hx s with he | ⟨e, s', hs, hstop⟩
  · cases h : y s with
    | ok a s' =>
      rw [bind_of_ok (he.trans h), bind_of_ok h]
      exact hf a s'
    | error e s' =>
      rw [bind_of_error (he.trans h), bind_of_error h]
      exact .inl rfl
  · exact .inr ⟨e, s', bind_of_error hs, hstop⟩

/-- What goes on alike after the same start. -/
theorem after {x : EStateM ε σ α} {g : α → EStateM ε σ β} (hf : ∀ a, Tighter stop (f a) (g a)) :
    Tighter stop (x >>= f) (x >>= g) :=
  bind (refl x) hf

/-- A check that the tighter computation makes with the smaller bound. -/
theorem guard {p q : Prop} [Decidable p] [Decidable q] (hpq : q → p) {e' : ε} (he : stop e)
    {y : EStateM ε σ α} (hx : Tighter stop x y) :
    Tighter stop (if p then MonadExcept.throw e else x)
      (if q then MonadExcept.throw e' else y) := by
  by_cases hp : p
  · rw [if_pos hp]
    exact throw he _
  · rw [if_neg hp, if_neg (fun hq => hp (hpq hq))]
    exact hx

end Tighter

/-! ### Folds that stop -/

section

variable {τ : Type}

/-- Two outcomes that are both failures, or related results. -/
inductive Matches (R : σ → τ → Prop) : Except ε σ → Option τ → Prop
  | ok {s : σ} {t : τ} (h : R s t) : Matches R (.ok s) (some t)
  | error (e : ε) : Matches R (.error e) none

variable {R R' : σ → τ → Prop}

theorem Matches.bind {x : Except ε σ} {y : Option τ} (h : Matches R x y) {f : σ → Except ε σ}
    {g : τ → Option τ} (hnext : ∀ s t, R s t → Matches R' (f s) (g t)) :
    Matches R' (x >>= f) (y >>= g) := by
  cases h with
  | ok h => exact hnext _ _ h
  | error e => exact .error e

theorem Matches.ok_iff {x : Except ε σ} {y : Option τ} (h : Matches R x y) {P : σ → Prop}
    {Q : τ → Prop} (hresult : ∀ s t, R s t → (P s ↔ Q t)) :
    (∃ s, x = .ok s ∧ P s) ↔ ∃ t, y = some t ∧ Q t := by
  cases h with
  | ok h => simpa using hresult _ _ h
  | error e => simp

/-- A fold over the parts that items are made of follows a fold over the items. -/
theorem matches_foldlM_flatMap {f : σ → β → Except ε σ} {g : τ → α → Option τ} {parts : α → List β}
    {items : List α}
    (hstep : ∀ item ∈ items, ∀ s t, R s t → Matches R ((parts item).foldlM f s) (g t item))
    {s : σ} {t : τ} (h : R s t) :
    Matches R ((items.flatMap parts).foldlM f s) (items.foldlM g t) := by
  induction items generalizing s t with
  | nil => exact .ok h
  | cons item items ih =>
    rw [List.flatMap_cons, List.foldlM_append]
    have hfirst := hstep item (by simp) s t h
    exact hfirst.bind fun s' t' h' => ih (fun next hnext => hstep next (by simp [hnext])) h'

end

end Codegg.Library
