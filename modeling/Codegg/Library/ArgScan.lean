import Mathlib.Data.List.Basic

/-!
# Scanning the words of a command line

A scanner takes the words from left to right. A word is taken alone, or with one or two of the
words that follow it, or with all of them. Which of these it is depends on the word and on a
little of what came before, so the words can be cut into arguments before anything is made of
them. What each of these arguments keeps, the scan keeps.
-/
namespace Codegg.Library.ArgScan

/-- How many of the words that follow a word takes with it. -/
inductive Width
  | alone
  | one
  | two
  | rest
  deriving DecidableEq

/-- A word and the words it takes with it. -/
structure Arg (τ : Type*) where
  head : τ
  taken : List τ
  deriving DecidableEq

/-- How a command line is cut into arguments: what a word takes, by what came before. -/
structure Grammar (τ ρ : Type*) where
  width : ρ → τ → Width
  after : ρ → Arg τ → ρ

section Reading

variable {τ ρ : Type*} (g : Grammar τ ρ)

def Grammar.read : ρ → List τ → List (Arg τ)
  | _, [] => []
  | r, t :: ts =>
    match g.width r t with
    | .alone => ⟨t, []⟩ :: Grammar.read (g.after r ⟨t, []⟩) ts
    | .one =>
      match ts with
      | [] => [⟨t, []⟩]
      | v :: ts => ⟨t, [v]⟩ :: Grammar.read (g.after r ⟨t, [v]⟩) ts
    | .two =>
      match ts with
      | [] => [⟨t, []⟩]
      | [v] => [⟨t, [v]⟩]
      | v :: w :: ts => ⟨t, [v, w]⟩ :: Grammar.read (g.after r ⟨t, [v, w]⟩) ts
    | .rest => [⟨t, ts⟩]

-- The equations are generated here, before several proofs ask for them at once.
attribute [local grind =] Grammar.read

@[simp] theorem Grammar.read_nil (r : ρ) : g.read r [] = [] := by
  simp [Grammar.read]

/-- The words of a reading, in order, are the command line. -/
theorem Grammar.words_read (r : ρ) (ts : List τ) :
    (g.read r ts).flatMap (fun a => a.head :: a.taken) = ts := by
  fun_induction Grammar.read g r ts <;> simp_all

variable {g}

variable {r : ρ} {t : τ} {ts : List τ}

theorem Grammar.read_alone (h : g.width r t = .alone) :
    g.read r (t :: ts) = ⟨t, []⟩ :: g.read (g.after r ⟨t, []⟩) ts := by
  rw [Grammar.read.eq_def]
  simp [h]

theorem Grammar.read_rest (h : g.width r t = .rest) :
    g.read r (t :: ts) = [⟨t, ts⟩] := by
  rw [Grammar.read.eq_def]
  simp [h]

theorem Grammar.read_one {v : τ} (h : g.width r t = .one) :
    g.read r (t :: v :: ts) = ⟨t, [v]⟩ :: g.read (g.after r ⟨t, [v]⟩) ts := by
  simp [Grammar.read, h]

theorem Grammar.read_two {v w : τ} (h : g.width r t = .two) :
    g.read r (t :: v :: w :: ts) = ⟨t, [v, w]⟩ :: g.read (g.after r ⟨t, [v, w]⟩) ts := by
  simp [Grammar.read, h]

end Reading

section Scanning

universe u

variable {ε σ τ ρ : Type*}

/-- What a scanner does at a word. -/
inductive Step (ε σ τ : Type*)
  | next (s : σ)
  | one (k : Option τ → Except ε σ)
  | two (k : Option τ → Option τ → Except ε σ)
  | rest (k : List τ → Except ε σ)
  | fail (e : ε)

/-- A step that takes the word alone and can fail. -/
def Step.attempt : Except ε σ → Step ε σ τ
  | .ok s => .next s
  | .error e => .fail e

def Step.width : Step ε σ τ → Option Width
  | .next _ => some .alone
  | .one _ => some .one
  | .two _ => some .two
  | .rest _ => some .rest
  | .fail _ => none

def scan (step : σ → τ → Step ε σ τ) : σ → List τ → Except ε σ
  | s, [] => .ok s
  | s, t :: ts =>
    match step s t with
    | .next s' => scan step s' ts
    | .one k =>
      match ts with
      | [] => k none
      | v :: ts => k (some v) >>= fun s' => scan step s' ts
    | .two k =>
      match ts with
      | [] => k none none
      | [v] => k (some v) none
      | v :: w :: ts => k (some v) (some w) >>= fun s' => scan step s' ts
    | .rest k => k ts
    | .fail e => .error e

-- The equations are generated here, before several proofs ask for them at once.
attribute [local grind =] scan

/-- What a step makes of a whole argument. -/
def Step.apply (step : Step ε σ τ) (taken : List τ) : Except ε σ :=
  match step with
  | .next s => .ok s
  | .one k => k taken[0]?
  | .two k => k taken[0]? taken[1]?
  | .rest k => k taken
  | .fail e => .error e

@[simp] theorem Step.apply_next (s : σ) (taken : List τ) :
    (.next s : Step ε σ τ).apply taken = .ok s := rfl

@[simp] theorem Step.apply_one (k : Option τ → Except ε σ) (taken : List τ) :
    (Step.one k).apply taken = k taken[0]? := rfl

@[simp] theorem Step.apply_two (k : Option τ → Option τ → Except ε σ) (taken : List τ) :
    (Step.two k).apply taken = k taken[0]? taken[1]? := rfl

@[simp] theorem Step.apply_rest (k : List τ → Except ε σ) (taken : List τ) :
    (Step.rest k).apply taken = k taken := rfl

@[simp] theorem Step.apply_fail (e : ε) (taken : List τ) :
    (Step.fail e : Step ε σ τ).apply taken = .error e := rfl

@[simp] theorem Step.apply_attempt (x : Except ε σ) (taken : List τ) :
    (Step.attempt x : Step ε σ τ).apply taken = x := by
  cases x <;> rfl

@[simp] theorem Step.width_next (s : σ) : (Step.next s : Step ε σ τ).width = some .alone := rfl

@[simp] theorem Step.width_one (k : Option τ → Except ε σ) : (Step.one k).width = some .one := rfl

@[simp] theorem Step.width_two (k : Option τ → Option τ → Except ε σ) :
    (Step.two k).width = some .two := rfl

@[simp] theorem Step.width_rest (k : List τ → Except ε σ) :
    (Step.rest k).width = some .rest := rfl

@[simp] theorem Step.width_attempt (x : Except ε σ) (w : Width) :
    (Step.attempt x : Step ε σ τ).width = some w ↔ (∃ s, x = .ok s) ∧ w = .alone := by
  cases x <;> simp [Step.attempt, Step.width, eq_comm]

@[simp] theorem ok_bind {α β : Type u} (a : α) (f : α → Except ε β) :
    (Except.ok a >>= f) = f a := rfl

@[simp] theorem error_bind {α β : Type u} (e : ε) (f : α → Except ε β) :
    (Except.error e >>= f) = .error e := rfl

/-- A scanner cuts the words as a grammar does, of whose state its own holds `state`. -/
structure Cuts (g : Grammar τ ρ) (state : σ → ρ) (step : σ → τ → Step ε σ τ) : Prop where
  width : ∀ s t w, (step s t).width = some w → g.width (state s) t = w
  after : ∀ s t taken s', (step s t).width ≠ some .rest → (step s t).apply taken = .ok s' →
    state s' = g.after (state s) ⟨t, taken⟩

variable {g : Grammar τ ρ} {state : σ → ρ} {step : σ → τ → Step ε σ τ}

/-- The rule for a scan. `I` holds of the arguments read so far while more can follow, `F` of all
of them: once everything left was taken, or when nothing is left. -/
theorem Cuts.scan_rule (h : Cuts g state step) (I F : List (Arg τ) → σ → Prop)
    (hstep : ∀ read s a s', I read s → (step s a.head).width ≠ some .rest →
      ((step s a.head).width = some .alone → a.taken = []) →
      (step s a.head).apply a.taken = .ok s' → I (read ++ [a]) s')
    (hrest : ∀ read s a s', I read s → (step s a.head).width = some .rest →
      (step s a.head).apply a.taken = .ok s' → F (read ++ [a]) s')
    (hend : ∀ read s, I read s → F read s)
    {s s' : σ} {ts : List τ} (hinit : I [] s) (hscan : scan step s ts = .ok s') :
    F (g.read (state s) ts) s' := by
  suffices ∀ read, I read s → F (read ++ g.read (state s) ts) s' from this [] hinit
  clear hinit
  fun_induction scan step s ts with
  | case1 s =>
    intro read hread
    cases hscan
    simpa using hend read _ hread
  | case2 s t ts s₁ hs ih =>
    intro read hread
    have hw : g.width (state s) t = .alone := h.width s t _ (by simp [hs])
    have ha : state s₁ = g.after (state s) ⟨t, []⟩ := h.after s t [] s₁ (by simp [hs]) (by simp [hs])
    have hnext := hstep read s ⟨t, []⟩ s₁ hread (by simp [hs]) (by simp [hs]) (by simp [hs])
    rw [Grammar.read_alone hw, ← ha]
    simpa using ih hscan _ hnext
  | case3 s t k hs =>
    intro read hread
    have hw : g.width (state s) t = .one := h.width s t _ (by simp [hs])
    have hnext := hstep read s ⟨t, []⟩ s' hread (by simp [hs]) (by simp [hs]) (by simpa [hs] using hscan)
    simpa [Grammar.read, hw] using hend _ _ hnext
  | case4 s t k hs v ts ih =>
    intro read hread
    have hw : g.width (state s) t = .one := h.width s t _ (by simp [hs])
    cases hk : k (some v) with
    | error e =>
      rw [hk] at hscan
      cases hscan
    | ok s₁ =>
      rw [hk] at hscan
      have ha : state s₁ = g.after (state s) ⟨t, [v]⟩ :=
        h.after s t [v] s₁ (by simp [hs]) (by simp [hs, hk])
      have hnext := hstep read s ⟨t, [v]⟩ s₁ hread (by simp [hs]) (by simp [hs]) (by simp [hs, hk])
      rw [Grammar.read_one hw, ← ha]
      simpa using ih s₁ hscan _ hnext
  | case5 s t k hs =>
    intro read hread
    have hw : g.width (state s) t = .two := h.width s t _ (by simp [hs])
    have hnext := hstep read s ⟨t, []⟩ s' hread (by simp [hs]) (by simp [hs]) (by simpa [hs] using hscan)
    simpa [Grammar.read, hw] using hend _ _ hnext
  | case6 s t k hs v =>
    intro read hread
    have hw : g.width (state s) t = .two := h.width s t _ (by simp [hs])
    have hnext := hstep read s ⟨t, [v]⟩ s' hread (by simp [hs]) (by simp [hs]) (by simpa [hs] using hscan)
    simpa [Grammar.read, hw] using hend _ _ hnext
  | case7 s t k hs v w ts ih =>
    intro read hread
    have hw : g.width (state s) t = .two := h.width s t _ (by simp [hs])
    cases hk : k (some v) (some w) with
    | error e =>
      rw [hk] at hscan
      cases hscan
    | ok s₁ =>
      rw [hk] at hscan
      have ha : state s₁ = g.after (state s) ⟨t, [v, w]⟩ :=
        h.after s t [v, w] s₁ (by simp [hs]) (by simp [hs, hk])
      have hnext := hstep read s ⟨t, [v, w]⟩ s₁ hread (by simp [hs]) (by simp [hs]) (by simp [hs, hk])
      rw [Grammar.read_two hw, ← ha]
      simpa using ih s₁ hscan _ hnext
  | case8 s t ts k hs =>
    intro read hread
    have hw : g.width (state s) t = .rest := h.width s t _ (by simp [hs])
    rw [Grammar.read_rest hw]
    exact hrest read s ⟨t, ts⟩ s' hread (by simp [hs]) (by simpa [hs] using hscan)
  | case9 s t ts e hs => cases hscan

/-- What holds of the arguments read so far, and is kept by each further argument, holds at the
end of a scan. No argument before the last takes everything that is left. -/
theorem Cuts.scan_invariant (h : Cuts g state step) (I : List (Arg τ) → σ → Prop)
    {s s' : σ} {ts : List τ} (hinit : I [] s)
    (hstep : ∀ read s a s', (∀ b ∈ read, ∃ r, g.width r b.head ≠ .rest) → I read s →
      (step s a.head).apply a.taken = .ok s' → I (read ++ [a]) s')
    (hscan : scan step s ts = .ok s') : I (g.read (state s) ts) s' := by
  refine h.scan_rule
    (fun read s => (∀ b ∈ read, ∃ r, g.width r b.head ≠ .rest) ∧ I read s) I ?_ ?_ ?_
    ⟨by simp, hinit⟩ hscan
  · intro read s a s' hread hw _ ha
    refine ⟨?_, hstep read s a s' hread.1 hread.2 ha⟩
    intro b hb
    rcases List.mem_append.mp hb with hb | hb
    · exact hread.1 b hb
    · obtain rfl : b = a := by simpa using hb
      cases hstep : step s b.head with
      | fail e => simp [hstep] at ha
      | rest k => simp [hstep] at hw
      | next s₁ => exact ⟨state s, by rw [h.width s b.head .alone (by simp [hstep])]; simp⟩
      | one k => exact ⟨state s, by rw [h.width s b.head .one (by simp [hstep])]; simp⟩
      | two k => exact ⟨state s, by rw [h.width s b.head .two (by simp [hstep])]; simp⟩
  · exact fun read s a s' hread _ ha => hstep read s a s' hread.1 hread.2 ha
  · exact fun read s hread => hread.2

end Scanning

section Folds

variable {α β : Type*}

/-- The last value written to a place that some arguments write to. -/
def lastSome (f : α → Option β) (as : List α) : Option β := (as.filterMap f).getLast?

@[simp] theorem lastSome_nil (f : α → Option β) : lastSome f [] = none := rfl

@[simp] theorem lastSome_append_singleton (f : α → Option β) (as : List α) (a : α) :
    lastSome f (as ++ [a]) = (f a).or (lastSome f as) := by
  unfold lastSome
  cases h : f a <;> simp [h]

end Folds

end Codegg.Library.ArgScan
