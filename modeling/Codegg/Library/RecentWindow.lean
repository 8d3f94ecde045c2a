import Mathlib.Tactic
import Mathlib.Data.List.DropRight

/-!
# Tables of the last entries

A table of bounded size that drops one of its entries to make room holds the last entries of
its history as long as the one it drops is the oldest. Any other choice loses an entry that
is still among the last ones.
-/
namespace Codegg.Library

variable {κ ν : Type}

/-- A new entry goes to the end; a full table drops the entry at a position first. -/
def pushEvicting (capacity victim : ℕ) (table : List (κ × ν)) (entry : κ × ν) : List (κ × ν) :=
  (if capacity ≤ table.length then table.eraseIdx (victim % table.length) else table) ++ [entry]

variable {capacity victim : ℕ} {table history : List (κ × ν)} {entry : κ × ν}

/-- The window moves by one. -/
theorem rtake_concat {α : Type} (hcapacity : 0 < capacity) (history : List α) (entry : α) :
    (history ++ [entry]).rtake capacity =
      (if capacity ≤ (history.rtake capacity).length then (history.rtake capacity).tail
        else history.rtake capacity) ++ [entry] := by
  obtain ⟨n, rfl⟩ := Nat.exists_eq_succ_of_ne_zero hcapacity.ne'
  rw [List.rtake_concat_succ]
  congr 1
  simp only [List.rtake, List.length_drop, List.tail_drop]
  split_ifs with hfull
  · congr 1
    omega
  · rw [show history.length - n = 0 by omega, show history.length - n.succ = 0 by omega]

/-- Dropping the oldest entry keeps the last ones. -/
theorem pushEvicting_oldest (hcapacity : 0 < capacity) (htable : table = history.rtake capacity)
    (hvictim : capacity ≤ table.length → victim % table.length = 0) :
    pushEvicting capacity victim table entry = (history ++ [entry]).rtake capacity := by
  rw [rtake_concat hcapacity, ← htable, pushEvicting]
  split_ifs with hfull
  · rw [hvictim hfull, List.eraseIdx_zero]
  · rfl

/-- Dropping another entry loses one of the last ones. -/
theorem exists_lost_of_pushEvicting (hcapacity : 0 < capacity)
    (htable : table = history.rtake capacity) (hkeys : (table.map Prod.fst).Nodup)
    (hentry : entry.1 ∉ table.map Prod.fst) (hfull : capacity ≤ table.length)
    (hvictim : victim % table.length ≠ 0) :
    ∃ lost ∈ (history ++ [entry]).rtake capacity,
      lost.1 ∉ (pushEvicting capacity victim table entry).map Prod.fst := by
  have hlt : victim % table.length < table.length := Nat.mod_lt _ (by omega)
  refine ⟨table.get ⟨victim % table.length, hlt⟩, ?_, ?_⟩
  · rw [rtake_concat hcapacity, ← htable, if_pos hfull]
    refine List.mem_append_left _ (List.mem_iff_getElem.mpr ⟨victim % table.length - 1, ?_, ?_⟩)
    · rw [List.length_tail]
      omega
    · simp only [List.getElem_tail]
      congr 1
      omega
  · rw [pushEvicting, if_pos hfull, List.map_append, List.mem_append, not_or]
    constructor
    · rw [← List.eraseIdx_map]
      intro hmem
      obtain ⟨i, hi, hne, hget⟩ := List.mem_eraseIdx_iff_getElem.mp hmem
      have hlt' : victim % table.length < (table.map Prod.fst).length := by
        rwa [List.length_map]
      have hsame : (table.map Prod.fst)[i] = (table.map Prod.fst)[victim % table.length] := by
        rw [hget, List.getElem_map]
        rfl
      exact hne (hkeys.getElem_inj_iff.mp hsame)
    · intro hmem
      have hself : table.get ⟨victim % table.length, hlt⟩ ∈ table := List.get_mem _ _
      rw [List.map_singleton, List.mem_singleton] at hmem
      exact hentry (hmem ▸ List.mem_map_of_mem hself)

/-- New keys keep the keys of the table apart. -/
theorem nodup_keys_pushEvicting (hkeys : (table.map Prod.fst).Nodup)
    (hentry : entry.1 ∉ table.map Prod.fst) :
    ((pushEvicting capacity victim table entry).map Prod.fst).Nodup := by
  have hsub : (if capacity ≤ table.length then table.eraseIdx (victim % table.length)
      else table).Sublist table := by
    split_ifs
    · exact List.eraseIdx_sublist _ _
    · exact List.Sublist.refl _
  rw [pushEvicting, List.map_append, List.map_singleton]
  refine List.Nodup.append (hkeys.sublist (hsub.map _)) (List.nodup_singleton _) ?_
  rw [List.disjoint_singleton]
  exact fun hmem => hentry ((hsub.map _).subset hmem)

theorem lookup_of_mem [BEq κ] [LawfulBEq κ] (hkeys : (table.map Prod.fst).Nodup)
    (hmem : entry ∈ table) : table.lookup entry.1 = some entry.2 := by
  induction table with
  | nil => cases hmem
  | cons head rest ih =>
    rw [List.map_cons, List.nodup_cons] at hkeys
    rcases List.mem_cons.mp hmem with rfl | hrest
    · exact List.lookup_cons_self
    · have hne : (entry.1 == head.1) = false := by
        rw [beq_eq_false_iff_ne]
        intro heq
        exact hkeys.1 (heq ▸ List.mem_map_of_mem hrest)
      rw [List.lookup_cons, hne]
      exact ih hkeys.2 hrest

end Codegg.Library
