import Mathlib.Data.List.Sort
import Mathlib.Tactic

/-!
# Key-ordered maps

A map whose bindings are kept in a list that is strictly increasing in the key.
Iteration over it is iteration in key order. The order is a field, so a map with
a repeated or misplaced key cannot be built.

Every operation is described in two ways: pointwise, by `get?`, and as a whole,
by a permutation that singles out the binding of one key and keeps the rest.
-/
namespace Codegg.Library

/-- A search in an increasing list finds the least element that passes the test. -/
theorem find?_eq_some_of_sorted {K : Type*} [LinearOrder K] {ks : List K}
    (hs : ks.Pairwise (· < ·)) {P : K → Bool} {k : K} :
    ks.find? P = some k ↔ k ∈ ks ∧ P k = true ∧ ∀ k' ∈ ks, k' < k → P k' = false := by
  induction ks with
  | nil => simp
  | cons a l ih =>
    obtain ⟨ha, hl⟩ := List.pairwise_cons.mp hs
    cases hP : P a with
    | true =>
      rw [List.find?_cons_of_pos hP, Option.some.injEq]
      constructor
      · intro hk
        subst hk
        refine ⟨List.mem_cons_self, hP, ?_⟩
        intro k' hk' hlt
        rcases List.mem_cons.mp hk' with he | hm
        · exact absurd hlt (he ▸ lt_irrefl _)
        · exact absurd (hlt.trans (ha k' hm)) (lt_irrefl _)
      · intro h
        obtain ⟨hk, -, hmin⟩ := h
        rcases List.mem_cons.mp hk with he | hm
        · exact he.symm
        · have := hmin a List.mem_cons_self (ha k hm)
          simp [hP] at this
    | false =>
      rw [List.find?_cons_of_neg (by simp [hP])]
      refine (ih hl).trans ?_
      constructor
      · intro h
        obtain ⟨hk, hPk, hmin⟩ := h
        refine ⟨List.mem_cons_of_mem _ hk, hPk, ?_⟩
        intro k' hk' hlt
        rcases List.mem_cons.mp hk' with he | hm
        · rw [he, hP]
        · exact hmin k' hm hlt
      · intro h
        obtain ⟨hk, hPk, hmin⟩ := h
        have hka : k ≠ a := fun he => by simp [he, hP] at hPk
        refine ⟨(List.mem_cons.mp hk).resolve_left hka, hPk, ?_⟩
        intro k' hm hlt
        exact hmin k' (List.mem_cons_of_mem _ hm) hlt

/-- Bindings in strictly increasing key order. -/
structure SortedMap (K V : Type*) [LinearOrder K] where
  toList : List (K × V)
  sorted : toList.Pairwise (fun a b => a.1 < b.1)

namespace SortedMap

variable {K V : Type*} [LinearOrder K]

@[ext] theorem ext {m m' : SortedMap K V} (h : m.toList = m'.toList) : m = m' := by
  cases m
  cases m'
  simpa using h

def empty : SortedMap K V := ⟨[], List.Pairwise.nil⟩

@[simp] theorem toList_empty : (empty : SortedMap K V).toList = [] := rfl

def get? (m : SortedMap K V) (k : K) : Option V :=
  (m.toList.find? (fun p => p.1 = k)).map Prod.snd

def keys (m : SortedMap K V) : List K := m.toList.map Prod.fst

def values (m : SortedMap K V) : List V := m.toList.map Prod.snd

/-- The bindings of every other key. -/
def rest (m : SortedMap K V) (k : K) : List (K × V) := m.toList.filter (fun p => !decide (p.1 = k))

theorem mem_toList_iff (m : SortedMap K V) (k : K) (v : V) :
    (k, v) ∈ m.toList ↔ m.get? k = some v := by
  obtain ⟨l, hl⟩ := m
  induction l with
  | nil => simp [get?]
  | cons p l ih =>
    obtain ⟨hp, hl'⟩ := List.pairwise_cons.mp hl
    have hh := ih hl'
    by_cases hk : p.1 = k
    · have hnot : (k, v) ∉ l := fun hm => lt_irrefl k (hk ▸ hp (k, v) hm)
      simp only [List.mem_cons, get?, List.find?_cons, hk, decide_true, Option.map_some,
        Option.some.injEq, hnot, or_false]
      constructor
      · intro he
        rw [← he]
      · intro he
        rw [← hk, ← he]
    · have hne : (k, v) ≠ p := fun he => hk (by rw [← he])
      simp [List.mem_cons, get?, List.find?_cons, hk, hne, hh]

theorem get?_empty (k : K) : (empty : SortedMap K V).get? k = none := rfl

theorem keys_sorted (m : SortedMap K V) : m.keys.Pairwise (· < ·) :=
  List.pairwise_map.mpr m.sorted

theorem keys_nodup (m : SortedMap K V) : m.keys.Nodup :=
  m.keys_sorted.imp (fun h => ne_of_lt h)

theorem mem_keys_iff (m : SortedMap K V) (k : K) : k ∈ m.keys ↔ ∃ v, m.get? k = some v := by
  simp only [keys, List.mem_map, Prod.exists, ← mem_toList_iff]
  constructor
  · rintro ⟨k', v, hm, rfl⟩
    exact ⟨v, hm⟩
  · rintro ⟨v, hm⟩
    exact ⟨k, v, hm, rfl⟩

theorem mem_rest_iff (m : SortedMap K V) (k : K) (p : K × V) :
    p ∈ m.rest k ↔ p ∈ m.toList ∧ p.1 ≠ k := by simp [rest]

/-- The binding of `k`, if there is one, and the bindings of the other keys make
up the whole map. -/
theorem perm_rest (m : SortedMap K V) (k : K) :
    m.toList.Perm ((m.get? k).toList.map (fun v => (k, v)) ++ m.rest k) := by
  have hnodup : m.toList.Nodup := List.Nodup.of_map _ m.keys_nodup
  refine (List.perm_ext_iff_of_nodup hnodup ?_).mpr ?_
  · rw [List.nodup_append]
    refine ⟨?_, hnodup.filter _, ?_⟩
    · cases m.get? k <;> simp
    · intro a ha b hb he
      simp only [List.mem_map] at ha
      obtain ⟨v, -, rfl⟩ := ha
      exact ((m.mem_rest_iff k b).mp hb).2 (by rw [← he])
  · rintro ⟨k', v⟩
    simp only [List.mem_append, mem_rest_iff]
    by_cases hk : k' = k
    · subst hk
      simp [mem_toList_iff]
    · simp [hk, Ne.symm hk]

/-- Bind `k` to `f` of its current binding, in place or at its ordered position. -/
def upsertList (k : K) (f : Option V → V) : List (K × V) → List (K × V)
  | [] => [(k, f none)]
  | (k', v) :: l =>
      if k < k' then (k, f none) :: (k', v) :: l
      else if k = k' then (k, f (some v)) :: l
      else (k', v) :: upsertList k f l

theorem key_upsertList {k : K} {f : Option V → V} {l : List (K × V)} {p : K × V}
    (h : p ∈ upsertList k f l) : p.1 = k ∨ p ∈ l := by
  induction l with
  | nil =>
    simp only [upsertList, List.mem_singleton] at h
    exact .inl (by rw [h])
  | cons q l ih =>
    simp only [upsertList] at h
    split_ifs at h with h1 h2
    · rcases List.mem_cons.mp h with he | hm
      · exact .inl (by rw [he])
      · exact .inr hm
    · rcases List.mem_cons.mp h with he | hm
      · exact .inl (by rw [he])
      · exact .inr (List.mem_cons_of_mem _ hm)
    · rcases List.mem_cons.mp h with he | hm
      · exact .inr (he ▸ List.mem_cons_self)
      · exact (ih hm).imp_right (List.mem_cons_of_mem _)

theorem upsertList_sorted (k : K) (f : Option V → V) {l : List (K × V)}
    (h : l.Pairwise (fun a b => a.1 < b.1)) :
    (upsertList k f l).Pairwise (fun a b => a.1 < b.1) := by
  induction l with
  | nil => simp [upsertList]
  | cons q l ih =>
    obtain ⟨hq, hl⟩ := List.pairwise_cons.mp h
    simp only [upsertList]
    split_ifs with h1 h2
    · refine List.pairwise_cons.mpr ⟨?_, h⟩
      intro p hp
      rcases List.mem_cons.mp hp with rfl | hm
      · exact h1
      · exact h1.trans (hq p hm)
    · subst h2
      exact List.pairwise_cons.mpr ⟨hq, hl⟩
    · refine List.pairwise_cons.mpr ⟨?_, ih hl⟩
      intro p hp
      rcases key_upsertList hp with he | hm
      · rw [he]
        exact lt_of_le_of_ne (not_lt.mp h1) (Ne.symm h2)
      · exact hq p hm

def upsert (m : SortedMap K V) (k : K) (f : Option V → V) : SortedMap K V :=
  ⟨upsertList k f m.toList, upsertList_sorted k f m.sorted⟩

theorem find?_upsertList (k k' : K) (f : Option V → V) {l : List (K × V)}
    (h : l.Pairwise (fun a b => a.1 < b.1)) :
    ((upsertList k f l).find? (fun p => p.1 = k')).map Prod.snd =
      if k' = k then some (f ((l.find? (fun p => p.1 = k)).map Prod.snd))
      else (l.find? (fun p => p.1 = k')).map Prod.snd := by
  induction l with
  | nil =>
    by_cases hk : k' = k
    · simp [upsertList, hk]
    · simp [upsertList, hk, Ne.symm hk]
  | cons q l ih =>
    obtain ⟨k₁, v⟩ := q
    obtain ⟨hq, hl⟩ := List.pairwise_cons.mp h
    have hh := ih hl
    simp only [upsertList]
    by_cases h1 : k < k₁
    · have hnone : ((k₁, v) :: l).find? (fun p => p.1 = k) = none := by
        rw [List.find?_eq_none]
        intro p hp
        rcases List.mem_cons.mp hp with rfl | hm
        · simpa using ne_of_gt h1
        · simpa using ne_of_gt (h1.trans (hq p hm))
      rw [if_pos h1, hnone]
      by_cases hk : k' = k
      · simp [hk]
      · rw [List.find?_cons_of_neg (by simpa using Ne.symm hk), if_neg hk]
    · rw [if_neg h1]
      by_cases h2 : k = k₁
      · subst h2
        by_cases hk : k' = k
        · simp [hk]
        · simp [hk, Ne.symm hk]
      · rw [if_neg h2]
        by_cases h3 : k₁ = k'
        · have hk : k' ≠ k := fun he => h2 (h3.trans he).symm
          simp [h3, hk]
        · rw [List.find?_cons_of_neg (by simpa using h3), hh,
            List.find?_cons_of_neg (by simpa using Ne.symm h2),
            List.find?_cons_of_neg (by simpa using h3)]

theorem get?_upsert (m : SortedMap K V) (k k' : K) (f : Option V → V) :
    (m.upsert k f).get? k' = if k' = k then some (f (m.get? k)) else m.get? k' :=
  find?_upsertList k k' f m.sorted

/-- Bind a key, whatever it was bound to before. -/
def insert (m : SortedMap K V) (k : K) (v : V) : SortedMap K V := m.upsert k (fun _ => v)

theorem get?_insert (m : SortedMap K V) (k k' : K) (v : V) :
    (m.insert k v).get? k' = if k' = k then some v else m.get? k' :=
  get?_upsert m k k' _

/-- The first `n` bindings. -/
def take (m : SortedMap K V) (n : ℕ) : SortedMap K V :=
  ⟨m.toList.take n, m.sorted.sublist (List.take_sublist n _)⟩

theorem get?_of_get?_take {m : SortedMap K V} {n : ℕ} {k : K} {v : V}
    (h : (m.take n).get? k = some v) : m.get? k = some v := by
  rw [← mem_toList_iff] at h ⊢
  exact List.mem_of_mem_take h

theorem rest_upsert (m : SortedMap K V) (k : K) (f : Option V → V) :
    (m.upsert k f).rest k = m.rest k := by
  simp only [rest, upsert]
  induction m.toList with
  | nil => simp [upsertList]
  | cons q l ih =>
    simp only [upsertList]
    split_ifs with h1 h2
    · simp
    · simp [h2]
    · simp [List.filter_cons, ih]

theorem perm_upsert (m : SortedMap K V) (k : K) (f : Option V → V) :
    (m.upsert k f).toList.Perm ((k, f (m.get? k)) :: m.rest k) := by
  have h := (m.upsert k f).perm_rest k
  rwa [rest_upsert, get?_upsert, if_pos rfl] at h

/-- Rewrite the binding of `k` in place; a map without that key is unchanged. -/
def modify (m : SortedMap K V) (k : K) (f : V → V) : SortedMap K V where
  toList := m.toList.map (fun p => if p.1 = k then (p.1, f p.2) else p)
  sorted := by
    rw [List.pairwise_map]
    refine m.sorted.imp ?_
    intro a b h
    split_ifs <;> exact h

/-- Rewrite every binding. -/
def mapValues {U : Type*} (m : SortedMap K V) (f : V → U) : SortedMap K U where
  toList := m.toList.map (fun p => (p.1, f p.2))
  sorted := List.pairwise_map.mpr m.sorted

theorem get?_modify (m : SortedMap K V) (k k' : K) (f : V → V) :
    (m.modify k f).get? k' = if k' = k then (m.get? k).map f else m.get? k' := by
  have hkey : ((fun p : K × V => decide (p.1 = k')) ∘
      fun p => if p.1 = k then (p.1, f p.2) else p) = fun p => decide (p.1 = k') := by
    funext p
    simp only [Function.comp_apply]
    split_ifs <;> rfl
  simp only [get?, modify, List.find?_map, hkey]
  split_ifs with h
  · subst h
    cases hf : m.toList.find? (fun p => decide (p.1 = k')) with
    | none => rfl
    | some p =>
      have hp := List.find?_some hf
      simp only [decide_eq_true_eq] at hp
      simp [hp]
  · cases hf : m.toList.find? (fun p => decide (p.1 = k')) with
    | none => rfl
    | some p =>
      have hp := List.find?_some hf
      simp only [decide_eq_true_eq] at hp
      simp [hp, h]

theorem rest_modify (m : SortedMap K V) (k : K) (f : V → V) :
    (m.modify k f).rest k = m.rest k := by
  simp only [rest, modify]
  induction m.toList with
  | nil => rfl
  | cons q l ih => by_cases h : q.1 = k <;> simp [h, ih]

theorem keys_modify (m : SortedMap K V) (k : K) (f : V → V) : (m.modify k f).keys = m.keys := by
  simp only [keys, modify, List.map_map]
  apply List.map_congr_left
  intro p _
  simp only [Function.comp_apply]
  split_ifs <;> rfl

/-- The bindings of some keys. -/
def filterKeys (m : SortedMap K V) (p : K → Bool) : SortedMap K V :=
  ⟨m.toList.filter fun b => p b.1, m.sorted.sublist List.filter_sublist⟩

theorem get?_filterKeys (m : SortedMap K V) (p : K → Bool) (k : K) :
    (m.filterKeys p).get? k = if p k then m.get? k else none := by
  have hmem : ∀ v, (m.filterKeys p).get? k = some v ↔ p k = true ∧ m.get? k = some v := by
    intro v
    rw [← mem_toList_iff, ← mem_toList_iff, filterKeys, List.mem_filter, and_comm]
  ext v
  split <;> simp_all

/-- Changes of single bindings one after the other: only those of a key matter for it. -/
theorem get?_foldl_modify {A : Type*} (key : A → K) (change : A → V → V) (changes : List A)
    (m : SortedMap K V) (k : K) :
    (changes.foldl (fun m a => m.modify (key a) (change a)) m).get? k =
      (changes.filter fun a => decide (key a = k)).foldl (fun v a => v.map (change a))
        (m.get? k) := by
  induction changes generalizing m with
  | nil => rfl
  | cons a changes ih =>
    rw [List.foldl_cons, ih, get?_modify]
    by_cases hk : key a = k
    · rw [if_pos hk.symm, List.filter_cons_of_pos (by simpa using hk), List.foldl_cons, hk]
    · rw [if_neg (Ne.symm hk), List.filter_cons_of_neg (by simpa using hk)]

/-- Two maps with the same lookups are equal. -/
theorem ext_get? {m m' : SortedMap K V} (h : ∀ k, m.get? k = m'.get? k) : m = m' := by
  have hperm : m.toList.Perm m'.toList := by
    refine (List.perm_ext_iff_of_nodup (List.Nodup.of_map _ m.keys_nodup)
      (List.Nodup.of_map _ m'.keys_nodup)).mpr ?_
    rintro ⟨k, v⟩
    rw [mem_toList_iff, mem_toList_iff, h k]
  refine ext (hperm.eq_of_pairwise ?_ m.sorted m'.sorted)
  intro a b _ _ hab hba
  exact absurd (hab.trans hba) (lt_irrefl _)

/-- The values that bear a key, in a map in which every value bears its own. -/
theorem filter_values {f : V → K} (m : SortedMap K V)
    (hf : ∀ k v, m.get? k = some v → f v = k) (k : K) :
    m.values.filter (fun v => decide (f v = k)) = (m.get? k).toList := by
  have hkey : ∀ p ∈ m.toList, f p.2 = p.1 := fun p hp => hf p.1 p.2 ((m.mem_toList_iff _ _).mp hp)
  have hfilter : m.toList.filter (fun p => decide (f p.2 = k)) =
      m.toList.filter (fun p => decide (p.1 = k)) :=
    List.filter_congr fun p hp => by rw [hkey p hp]
  have hrest : (m.rest k).filter (fun p => decide (p.1 = k)) = [] := by
    simp [rest]
  have hone : ((m.get? k).toList.map fun v => (k, v)).filter (fun p => decide (p.1 = k)) =
      (m.get? k).toList.map fun v => (k, v) := by
    cases m.get? k <;> simp
  have hperm := (m.perm_rest k).filter (fun p => decide (p.1 = k))
  rw [List.filter_append, hrest, hone] at hperm
  have heq : m.toList.filter (fun p => decide (p.1 = k)) =
      (m.get? k).toList.map fun v => (k, v) := by
    cases hk : m.get? k with
    | none =>
      rw [hk] at hperm
      exact List.perm_nil.mp hperm
    | some v =>
      rw [hk] at hperm
      exact List.perm_singleton.mp hperm
  unfold values
  rw [List.filter_map]
  show (m.toList.filter (fun p => decide (f p.2 = k))).map Prod.snd = _
  rw [hfilter, heq]
  simp

/-- A search over the bindings is a search over the keys. -/
theorem map_fst_find? (m : SortedMap K V) (P : K × V → Bool) :
    (m.toList.find? P).map Prod.fst =
      m.keys.find? (fun k => ((m.get? k).map (fun v => P (k, v))).getD false) := by
  have h : ∀ p ∈ m.toList, P p = ((m.get? p.1).map (fun v => P (p.1, v))).getD false := by
    intro p hp
    rw [(m.mem_toList_iff p.1 p.2).mp hp]
    rfl
  rw [keys, List.find?_map]
  congr 1
  exact List.find?_congr h

/-! ### Contents

The values of a map may themselves be containers. `bag f` gathers everything they
hold; an update of one key changes it by what that key gains or loses.
-/

section Bag

variable {α : Type*}

/-- Everything held under any key, in key order. -/
def bag (m : SortedMap K V) (f : K → V → List α) : List α :=
  m.toList.flatMap (fun p => f p.1 p.2)

@[simp] theorem bag_empty (f : K → V → List α) : (empty : SortedMap K V).bag f = [] := rfl

theorem mem_bag {m : SortedMap K V} {f : K → V → List α} {x : α} :
    x ∈ m.bag f ↔ ∃ k v, m.get? k = some v ∧ x ∈ f k v := by
  simp only [bag, List.mem_flatMap, Prod.exists, mem_toList_iff]

theorem bag_perm (m : SortedMap K V) (f : K → V → List α) (k : K) :
    (m.bag f).Perm
      (((m.get? k).map (f k)).getD [] ++ (m.rest k).flatMap (fun p => f p.1 p.2)) := by
  have h := (m.perm_rest k).flatMap_right (fun p => f p.1 p.2)
  cases hk : m.get? k <;> simpa [hk, bag] using h

/-- Adding `xs` under one key adds `xs` to the contents. -/
theorem bag_upsert {m : SortedMap K V} {f : K → V → List α} {k : K} {u : Option V → V}
    (xs : List α) (h : (f k (u (m.get? k))).Perm (xs ++ ((m.get? k).map (f k)).getD [])) :
    ((m.upsert k u).bag f).Perm (xs ++ m.bag f) := by
  have h1 := (m.upsert k u).bag_perm f k
  rw [rest_upsert, get?_upsert, if_pos rfl] at h1
  have h2 := (m.bag_perm f k).append_left xs
  rw [← List.append_assoc] at h2
  exact h1.trans ((h.append_right _).trans h2.symm)

/-- Taking `xs` away under one key takes `xs` out of the contents. -/
theorem bag_modify {m : SortedMap K V} {f : K → V → List α} {k : K} {v : V} {u : V → V}
    (xs : List α) (hk : m.get? k = some v) (h : (f k v).Perm (xs ++ f k (u v))) :
    (m.bag f).Perm (xs ++ (m.modify k u).bag f) := by
  have h1 := (m.modify k u).bag_perm f k
  rw [rest_modify, get?_modify, if_pos rfl, hk] at h1
  have h2 := m.bag_perm f k
  rw [hk] at h2
  have h3 := h1.append_left xs
  rw [← List.append_assoc] at h3
  exact h2.trans ((h.append_right _).trans h3.symm)

end Bag

end SortedMap
end Codegg.Library
