import Mathlib.Tactic

/-!
# Fields joined by a separator

A list of fields is written one after the other with a separator between them and
nothing to escape a separator inside a field. Fields without separators can be told
apart again, given their number; a separator inside a field can be taken for one
between fields.
-/
namespace Codegg.Library

variable {α : Type*}

/-! ### Joining -/

theorem intercalate_append {sep : List α} {xs ys : List (List α)} (hx : xs ≠ []) (hy : ys ≠ []) :
    sep.intercalate (xs ++ ys) = sep.intercalate xs ++ sep ++ sep.intercalate ys := by
  induction xs with
  | nil => exact absurd rfl hx
  | cons x xs ih =>
    cases xs with
    | nil =>
      obtain ⟨y, ys, rfl⟩ := List.exists_cons_of_ne_nil hy
      simp
    | cons x' xs =>
      have hrest := ih (List.cons_ne_nil x' xs)
      simp only [List.cons_append, List.intercalate_cons_cons] at hrest ⊢
      rw [hrest]
      simp

/-- Two neighbours and the separator between them, read as one field. -/
theorem intercalate_merge (sep : α) (before : List (List α)) (x y : List α)
    (after : List (List α)) :
    [sep].intercalate (before ++ (x ++ sep :: y) :: after) =
      [sep].intercalate (before ++ x :: y :: after) := by
  have hpair : [sep].intercalate ((x ++ sep :: y) :: after) =
      [sep].intercalate (x :: y :: after) := by
    cases after <;> simp
  cases before with
  | nil => exact hpair
  | cons b before =>
    rw [intercalate_append (List.cons_ne_nil b before) (List.cons_ne_nil _ after),
      intercalate_append (List.cons_ne_nil b before) (List.cons_ne_nil x _), hpair]

section

variable [DecidableEq α]

/-- The separators of a text are those between the fields and those inside them. -/
theorem count_intercalate (sep : α) {fields : List (List α)} (h : fields ≠ []) :
    ([sep].intercalate fields).count sep + 1 =
      fields.length + (fields.map (List.count sep)).sum := by
  induction fields with
  | nil => exact absurd rfl h
  | cons x fields ih =>
    cases fields with
    | nil => simp [Nat.add_comm]
    | cons y fields =>
      have hrest := ih (List.cons_ne_nil y fields)
      rw [List.intercalate_cons_cons, List.count_append, List.count_append, List.map_cons,
        List.sum_cons, List.length_cons]
      simp only [List.count_singleton_self]
      omega

/-- Fields without separators are determined by the text and their number. -/
theorem intercalate_inj {sep : α} {xs ys : List (List α)} (hlength : xs.length = ys.length)
    (hclean : ∀ x ∈ xs, sep ∉ x) (h : [sep].intercalate xs = [sep].intercalate ys) : xs = ys := by
  by_cases hx : xs = []
  · subst hx
    exact (List.eq_nil_of_length_eq_zero hlength.symm).symm
  · have hy : ys ≠ [] := fun hnil => hx (List.eq_nil_of_length_eq_zero (by rw [hlength, hnil]; rfl))
    have hcountx := count_intercalate sep hx
    have hcounty := count_intercalate sep hy
    have hzero : (xs.map (List.count sep)).sum = 0 := by
      refine List.sum_eq_zero fun n hn => ?_
      obtain ⟨x, hx, rfl⟩ := List.mem_map.mp hn
      exact List.count_eq_zero.mpr (hclean x hx)
    rw [h] at hcountx
    have hzero' : (ys.map (List.count sep)).sum = 0 := by omega
    have hclean' : ∀ y ∈ ys, sep ∉ y := fun y hy => List.count_eq_zero.mp
      (List.sum_eq_zero_iff.mp hzero' _ (List.mem_map_of_mem hy))
    rw [← List.splitOn_intercalate sep hclean hx, h, List.splitOn_intercalate sep hclean' hy]

end

/-- A separator inside one of several fields can be moved between them: other fields give the
same text, whatever stands before and after. -/
theorem exists_moved {sep : α} {fields : List (List α)} {field : List α} (htwo : 2 ≤ fields.length)
    (hmem : field ∈ fields) (hsep : sep ∈ field) :
    ∃ others, others.length = fields.length ∧ others ≠ fields ∧ ∀ before after,
      [sep].intercalate (before ++ others ++ after) = [sep].intercalate (before ++ fields ++ after) := by
  obtain ⟨init, rest, rfl⟩ := List.append_of_mem hmem
  obtain ⟨x, y, rfl⟩ := List.append_of_mem hsep
  cases rest with
  | cons z rest =>
    refine ⟨init ++ x :: (y ++ sep :: z) :: rest, by simp, ?_, fun before after => ?_⟩
    · intro h
      have hx := (List.cons.inj (List.append_cancel_left h)).1
      simp at hx
    · have hleft := intercalate_merge sep (before ++ init ++ [x]) y z (rest ++ after)
      have hright := intercalate_merge sep (before ++ init) x y (z :: (rest ++ after))
      simp only [List.append_assoc, List.cons_append, List.nil_append] at hleft hright ⊢
      rw [hleft, hright]
  | nil =>
    obtain ⟨front, p, rfl⟩ : ∃ front p, init = front ++ [p] := by
      cases init using List.reverseRecOn with
      | nil => simp at htwo
      | append_singleton front p => exact ⟨front, p, rfl⟩
    refine ⟨front ++ (p ++ sep :: x) :: [y], by simp, ?_, fun before after => ?_⟩
    · intro h
      rw [List.append_assoc] at h
      have hp := (List.cons.inj (List.append_cancel_left h)).1
      simp at hp
    · have hleft := intercalate_merge sep (before ++ front) p x (y :: after)
      have hright := intercalate_merge sep (before ++ front ++ [p]) x y after
      simp only [List.append_assoc, List.cons_append, List.nil_append] at hleft hright ⊢
      rw [hleft, hright]


/-! ### Fields that are numbers -/

theorem natRepr_injective : Function.Injective Nat.repr := by
  intro m n h
  rw [← @Nat.ofDigitChars_ten_toDigits m, String.ofList_injective h, Nat.ofDigitChars_ten_toDigits]

theorem isDigit_of_mem_natRepr {n : ℕ} {c : Char} (h : c ∈ n.repr.toList) : c.isDigit = true := by
  rw [Nat.repr_eq_ofList_toDigits, String.toList_ofList] at h
  exact Nat.isDigit_of_mem_toDigits (by decide) (by decide) h

theorem natRepr_ne_empty (n : ℕ) : n.repr ≠ "" := by
  intro h
  have hdigits : Nat.toDigits 10 n = [] := by
    exact String.ofList_injective h
  simp at hdigits

theorem mem_intRepr {n : ℤ} {c : Char} (h : c ∈ n.repr.toList) : c.isDigit = true ∨ c = '-' := by
  rw [Int.repr_eq_if] at h
  split at h
  · exact .inl (isDigit_of_mem_natRepr h)
  · rw [String.toList_append, List.mem_append] at h
    rcases h with h | h
    · exact .inr (by simpa using h)
    · exact .inl (isDigit_of_mem_natRepr h)

theorem intRepr_ne_empty (n : ℤ) : n.repr ≠ "" := by
  rw [Int.repr_eq_if]
  split
  · exact natRepr_ne_empty _
  · intro h
    have hlist := congrArg String.toList h
    simp at hlist

theorem intRepr_injective : Function.Injective Int.repr := by
  -- a sign is not a digit
  have hsign : ∀ k l : ℕ, k.repr ≠ "-" ++ l.repr := by
    intro k l h
    have hmem : '-' ∈ k.repr.toList := by
      rw [h]
      simp
    exact absurd (isDigit_of_mem_natRepr hmem) (by decide)
  intro m n h
  rw [Int.repr_eq_if, Int.repr_eq_if] at h
  split at h
  · split at h
    · have := natRepr_injective h
      omega
    · exact absurd h (hsign _ _)
  · split at h
    · exact absurd h.symm (hsign _ _)
    · have hrest : (-m).toNat.repr = (-n).toNat.repr := by
        have hlists := congrArg String.toList h
        rw [String.toList_append, String.toList_append] at hlists
        exact String.toList_injective (List.append_cancel_left hlists)
      have := natRepr_injective hrest
      omega

end Codegg.Library
