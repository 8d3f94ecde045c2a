import Mathlib.Data.List.Nodup
import Mathlib.Data.List.Basic
import Mathlib.Tactic

/-!
# Lists that keep the latest row of each key

Recording a row removes the row that has its key and puts the new one at the end. A lookup
reads the list from its end. After any number of recordings the lookup of a key gives the
row recorded last under it, and no two rows have the same key.
-/
namespace Codegg.Library

variable {ρ κ : Type} [DecidableEq κ] (key : ρ → κ)

/-- The last row of the list with this key. -/
def latestRow (k : κ) (rows : List ρ) : Option ρ := rows.reverse.find? fun r => key r = k

/-- The list with `r` in the place of the rows that have its key. -/
def recordRow (rows : List ρ) (r : ρ) : List ρ := rows.filter (fun d => key d ≠ key r) ++ [r]

variable {key}

@[simp] theorem latestRow_nil (k : κ) : latestRow key k [] = none := rfl

theorem latestRow_append_singleton (k : κ) (rows : List ρ) (r : ρ) :
    latestRow key k (rows ++ [r]) = if key r = k then some r else latestRow key k rows := by
  by_cases h : key r = k <;> simp [latestRow, h]

/-- Rows of other keys do not matter to a lookup. -/
theorem latestRow_filter {k : κ} {rows : List ρ} {p : ρ → Bool}
    (h : ∀ r ∈ rows, key r = k → p r = true) :
    latestRow key k (rows.filter p) = latestRow key k rows := by
  induction rows using List.reverseRecOn with
  | nil => rfl
  | append_singleton rows r ih =>
    have hrows := ih fun d hd => h d (List.mem_append_left _ hd)
    rw [latestRow_append_singleton]
    cases hp : p r with
    | true => simp [hp, latestRow_append_singleton, hrows]
    | false =>
      have hk : key r ≠ k := fun he => by simp [h r (by simp) he] at hp
      simp [hp, hk, hrows]

theorem latestRow_recordRow (k : κ) (rows : List ρ) (r : ρ) :
    latestRow key k (recordRow key rows r) =
      if key r = k then some r else latestRow key k rows := by
  rw [recordRow, latestRow_append_singleton]
  split
  · rfl
  · rename_i hk
    refine latestRow_filter fun d _ hd => ?_
    simpa [hd] using fun he => hk he.symm

theorem mem_recordRow {rows : List ρ} {r d : ρ} (h : d ∈ recordRow key rows r) :
    d ∈ rows ∨ d = r := by
  simp only [recordRow, List.mem_append, List.mem_filter, List.mem_singleton] at h
  exact h.imp_left And.left

/-- One row for each key, before and after. -/
theorem nodup_recordRow {rows : List ρ} (h : (rows.map key).Nodup) (r : ρ) :
    ((recordRow key rows r).map key).Nodup := by
  have hkept : ((rows.filter fun d => key d ≠ key r).map key).Nodup :=
    h.sublist (List.filter_sublist.map key)
  rw [recordRow, List.map_append, List.nodup_append]
  refine ⟨hkept, List.nodup_singleton _, ?_⟩
  intro k hk k' hk'
  simp only [List.mem_map, List.mem_filter] at hk
  obtain ⟨d, ⟨-, hd⟩, rfl⟩ := hk
  simp only [List.map_cons, List.map_nil, List.mem_singleton] at hk'
  subst hk'
  simpa using hd

/-! ### Any number of recordings -/

theorem latestRow_foldl_recordRow (k : κ) (rows recorded : List ρ) :
    latestRow key k (recorded.foldl (recordRow key) rows) =
      (latestRow key k recorded).or (latestRow key k rows) := by
  induction recorded using List.reverseRecOn with
  | nil => simp
  | append_singleton recorded r ih =>
    rw [List.foldl_concat, latestRow_recordRow, latestRow_append_singleton, ih]
    split <;> simp

theorem nodup_foldl_recordRow {rows : List ρ} (h : (rows.map key).Nodup) (recorded : List ρ) :
    ((recorded.foldl (recordRow key) rows).map key).Nodup := by
  induction recorded generalizing rows with
  | nil => exact h
  | cons r recorded ih => exact ih (nodup_recordRow h r)

theorem mem_foldl_recordRow {rows recorded : List ρ} {d : ρ}
    (h : d ∈ recorded.foldl (recordRow key) rows) : d ∈ rows ∨ d ∈ recorded := by
  induction recorded generalizing rows with
  | nil => exact .inl h
  | cons r recorded ih =>
    rcases ih h with hd | hd
    · rcases mem_recordRow hd with hd | rfl
      · exact .inl hd
      · exact .inr List.mem_cons_self
    · exact .inr (List.mem_cons_of_mem _ hd)

end Codegg.Library
