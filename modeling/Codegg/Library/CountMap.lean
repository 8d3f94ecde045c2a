import Mathlib.Tactic

/-!
# Counting maps

A map from keys to counters of a fixed width. An addition creates the counter and
wraps around at its width; a subtraction saturates and removes a counter that
reaches zero. `Counts` says that the map stores exactly a given function: a
positive value as a counter, zero as no counter.
-/
namespace Codegg.Library

/-- A map of counters, queried by key only. -/
abbrev CountMap (K : Type*) := K → Option ℕ

namespace CountMap

variable {K : Type*} [DecidableEq K]

def count (m : CountMap K) (k : K) : ℕ := (m k).getD 0

def add (width : ℕ) (m : CountMap K) (k : K) (n : ℕ) : CountMap K :=
  Function.update m k (some ((m.count k + n) % 2 ^ width))

def sub (m : CountMap K) (k : K) (n : ℕ) : CountMap K :=
  match m k with
  | none => m
  | some c => Function.update m k (if c - n = 0 then none else some (c - n))

def addAll (width : ℕ) (m : CountMap K) (l : List (K × ℕ)) : CountMap K :=
  l.foldl (fun m p => add width m p.1 p.2) m

def subAll (m : CountMap K) (l : List (K × ℕ)) : CountMap K :=
  l.foldl (fun m p => sub m p.1 p.2) m

/-- The total that a list of weighted keys gives to one key. -/
def weight (l : List (K × ℕ)) (k : K) : ℕ := ((l.filter (fun p => p.1 = k)).map Prod.snd).sum

omit [DecidableEq K] in
/-- The map stores exactly `f`. -/
def Counts (m : CountMap K) (f : K → ℕ) : Prop :=
  ∀ k, m k = if f k = 0 then none else some (f k)

@[simp] theorem weight_nil (k : K) : weight [] k = 0 := rfl

@[simp] theorem weight_cons (p : K × ℕ) (l : List (K × ℕ)) (k : K) :
    weight (p :: l) k = (if p.1 = k then p.2 else 0) + weight l k := by
  unfold weight
  by_cases h : p.1 = k <;> simp [h]

theorem weight_append (l l' : List (K × ℕ)) (k : K) :
    weight (l ++ l') k = weight l k + weight l' k := by
  induction l with
  | nil => simp
  | cons p l ih => rw [List.cons_append, weight_cons, weight_cons, ih, Nat.add_assoc]

theorem weight_perm {l l' : List (K × ℕ)} (h : l.Perm l') (k : K) : weight l k = weight l' k :=
  ((h.filter _).map _).sum_eq

theorem weight_eq_zero {l : List (K × ℕ)} {k : K} (h : k ∉ l.map Prod.fst) : weight l k = 0 := by
  induction l with
  | nil => rfl
  | cons p l ih =>
    rw [List.map_cons, List.mem_cons, not_or] at h
    rw [weight_cons, if_neg (Ne.symm h.1), ih h.2]

omit [DecidableEq K] in
theorem Counts.count_eq {m : CountMap K} {f : K → ℕ} (h : Counts m f) (k : K) :
    m.count k = f k := by
  unfold count
  rw [h k]
  split_ifs with h0
  · exact h0.symm
  · rfl

theorem Counts.add (width : ℕ) {m : CountMap K} {f : K → ℕ} (h : Counts m f) {k : K} {n : ℕ}
    (hn : 0 < n) (hfit : f k + n < 2 ^ width) :
    Counts (m.add width k n) (fun k' => f k' + if k = k' then n else 0) := by
  intro k'
  unfold CountMap.add
  simp only [h.count_eq]
  by_cases hk : k = k'
  · subst hk
    rw [Function.update_self, Nat.mod_eq_of_lt hfit, if_pos rfl, if_neg (by omega)]
  · rw [Function.update_of_ne (Ne.symm hk), if_neg hk]
    exact h k'

theorem Counts.sub {m : CountMap K} {f : K → ℕ} (h : Counts m f) (k : K) (n : ℕ) :
    Counts (m.sub k n) (fun k' => f k' - if k = k' then n else 0) := by
  intro k'
  unfold CountMap.sub
  rw [h k]
  by_cases hk : k = k'
  · subst hk
    by_cases h0 : f k = 0
    · simp [h0, h k]
    · simp [h0]
  · by_cases h0 : f k = 0
    · simp [h0, h k', hk]
    · simp [h0, h k', hk, Function.update_of_ne (Ne.symm hk)]

theorem Counts.addAll (width : ℕ) {l : List (K × ℕ)} (hpos : ∀ p ∈ l, 0 < p.2)
    {m : CountMap K} {f : K → ℕ} (h : Counts m f)
    (hfit : ∀ p ∈ l, f p.1 + weight l p.1 < 2 ^ width) :
    Counts (m.addAll width l) (fun k => f k + weight l k) := by
  induction l generalizing m f with
  | nil => simpa [CountMap.addAll] using h
  | cons p l ih =>
    have hp := hfit p List.mem_cons_self
    rw [weight_cons, if_pos rfl] at hp
    have hstep : Counts (m.add width p.1 p.2) (fun k' => f k' + if p.1 = k' then p.2 else 0) :=
      h.add width (hpos p List.mem_cons_self) (by omega)
    have hrest := ih (fun q hq => hpos q (List.mem_cons_of_mem _ hq)) hstep (by
      intro q hq
      have hk := hfit q (List.mem_cons_of_mem _ hq)
      rw [weight_cons] at hk
      omega)
    intro k
    simp only [weight_cons, ← Nat.add_assoc]
    exact hrest k

theorem Counts.subAll (l : List (K × ℕ)) {m : CountMap K} {f : K → ℕ} (h : Counts m f) :
    Counts (m.subAll l) (fun k => f k - weight l k) := by
  induction l generalizing m f with
  | nil => simpa [CountMap.subAll] using h
  | cons p l ih =>
    intro k
    simp only [weight_cons, ← Nat.sub_sub]
    exact ih (h.sub p.1 p.2) k

end CountMap
end Codegg.Library
