import Mathlib.Tactic

/-!
# Lists with a cap

A capped list drops its oldest element when a new one arrives. An element can also be
changed in place: the first one with a property, or a new one at the end when there is
none. `Within` says that a list keeps its cap and that all its elements have a property;
each operation keeps it when the element it adds or changes has the property.
-/
namespace Codegg.Library

variable {α : Type*} {P : α → Prop} {p : α → Bool} {f : α → α} {cap : ℕ} {l l' : List α} {x : α}

/-- Append to a list, dropping the oldest element of a full one. -/
def pushBounded (cap : ℕ) (l : List α) (x : α) : List α :=
  (if cap ≤ l.length then l.drop 1 else l) ++ [x]

/-- Change the first element with a property. There is no result without one. -/
def updateFirst (p : α → Bool) (f : α → α) : List α → Option (List α)
  | [] => none
  | x :: l => if p x then some (f x :: l) else (updateFirst p f l).map (x :: ·)

/-- Change the first element with a property, or append one. -/
def upsert (cap : ℕ) (p : α → Bool) (f : α → α) (l : List α) (x : α) : List α :=
  (updateFirst p f l).getD (pushBounded cap l x)

structure Within (cap : ℕ) (P : α → Prop) (l : List α) : Prop where
  length_le : l.length ≤ cap
  all : ∀ x ∈ l, P x

attribute [local simp] updateFirst

theorem updateFirst_eq_none_iff : updateFirst p f l = none ↔ l.find? p = none := by
  induction l with
  | nil => simp
  | cons y l ih => by_cases hy : p y <;> simp [hy, ih]

theorem length_updateFirst (h : updateFirst p f l = some l') : l'.length = l.length := by
  induction l generalizing l' with
  | nil => cases h
  | cons y l ih =>
    rw [updateFirst] at h
    split at h
    · cases h
      simp
    · obtain ⟨t, ht, rfl⟩ := Option.map_eq_some_iff.mp h
      simp [ih ht]

/-- What is in the changed list was there before, or is the change of the element found. -/
theorem mem_updateFirst (h : updateFirst p f l = some l') (hx : x ∈ l') :
    x ∈ l ∨ ∃ y, l.find? p = some y ∧ x = f y := by
  induction l generalizing l' with
  | nil => cases h
  | cons y l ih =>
    rw [updateFirst] at h
    split at h
    · rename_i hy
      cases h
      rcases List.mem_cons.mp hx with rfl | hx
      · exact .inr ⟨y, by simp [hy], rfl⟩
      · exact .inl (List.mem_cons_of_mem _ hx)
    · rename_i hy
      obtain ⟨t, ht, rfl⟩ := Option.map_eq_some_iff.mp h
      rcases List.mem_cons.mp hx with rfl | hx
      · exact .inl List.mem_cons_self
      · rcases ih ht hx with hx | ⟨z, hz, rfl⟩
        · exact .inl (List.mem_cons_of_mem _ hx)
        · exact .inr ⟨z, by simp [hy, hz], rfl⟩

/-- The change finds the element it changed again when it keeps the property. -/
theorem find?_updateFirst (hf : ∀ y, p y = true → p (f y) = true) :
    ((updateFirst p f l).getD l).find? p = (l.find? p).map f := by
  induction l with
  | nil => rfl
  | cons y l ih =>
    by_cases hy : p y
    · simp [hy, hf y hy]
    · cases hup : updateFirst p f l with
      | none => simpa [hy] using ih
      | some t => simpa [hy] using ih

/-- When a key occurs once, changing the first element that has it changes every one. -/
theorem updateFirst_eq_map {κ : Type*} [DecidableEq κ] {key : α → κ} {k : κ}
    (hnodup : (l.map key).Nodup) (hk : k ∈ l.map key) :
    updateFirst (fun y => key y == k) f l = some (l.map fun y => if key y = k then f y else y) := by
  induction l with
  | nil => simp at hk
  | cons y l ih =>
    obtain ⟨hy, hnodup⟩ := List.nodup_cons.mp hnodup
    by_cases hyk : key y = k
    · have hrest : l.map (fun z => if key z = k then f z else z) = l := by
        refine (List.map_congr_left fun z hz => ?_).trans (List.map_id l)
        have hzk : key z ≠ k := by
          intro he
          exact hy (List.mem_map.mpr ⟨z, hz, he.trans hyk.symm⟩)
        simp [hzk]
      simp [hyk, hrest]
    · have hk : k ∈ l.map key := by
        rcases List.mem_cons.mp hk with hk | hk
        · exact absurd hk.symm hyk
        · exact hk
      simp [hyk, ih hnodup hk]

/-- When a key occurs once, removing the first element that has it removes every one. -/
theorem eraseP_eq_filter {κ : Type*} [DecidableEq κ] {key : α → κ} (k : κ)
    (hnodup : (l.map key).Nodup) :
    l.eraseP (fun y => key y == k) = l.filter fun y => key y != k := by
  induction l with
  | nil => rfl
  | cons y l ih =>
    obtain ⟨hy, hnodup⟩ := List.nodup_cons.mp hnodup
    by_cases hyk : key y = k
    · have hrest : l.filter (fun z => key z != k) = l := by
        refine List.filter_eq_self.mpr fun z hz => ?_
        have hzk : key z ≠ k := by
          intro he
          exact hy (List.mem_map.mpr ⟨z, hz, he.trans hyk.symm⟩)
        simp [hzk]
      simp [hyk, hrest]
    · simp [hyk, ih hnodup]

/-- A change that keeps the property, and keeps what has it, is not seen through a filter. -/
theorem filter_map_eq (hp : ∀ y, p (f y) = p y) (hf : ∀ y, p y = true → f y = y) :
    (l.map f).filter p = l.filter p := by
  induction l with
  | nil => rfl
  | cons y l ih =>
    by_cases hy : p y = true
    · simp [hy, hf, ih]
    · simp [hp, hy, ih]

theorem mem_pushBounded {y : α} (h : y ∈ pushBounded cap l x) : y ∈ l ∨ y = x := by
  rw [pushBounded, List.mem_append, List.mem_singleton] at h
  rcases h with h | h
  · split at h
    · exact .inl (List.mem_of_mem_drop h)
    · exact .inl h
  · exact .inr h

/-- Making room for an element drops one with the property. -/
def evicts (p : α → Bool) (cap : ℕ) (l : List α) : Bool := cap ≤ l.length && l.head?.any p

/-- Through a filter an insertion is an insertion, and a loss when the oldest element is
dropped and seen. -/
theorem filter_pushBounded :
    (pushBounded cap l x).filter p =
      (if evicts p cap l then (l.filter p).drop 1 else l.filter p) ++ [x].filter p := by
  rw [pushBounded]
  by_cases hcap : cap ≤ l.length
  · cases l with
    | nil => simp [evicts]
    | cons y l => by_cases hy : p y <;> simp_all [evicts]
  · simp [evicts, hcap]

/-- A change of an element that is not seen through a filter. -/
theorem filter_updateFirst_of_hidden {q : α → Bool} {y : α} (h : l.find? q = some y)
    (hy : p y = false) (hf : p (f y) = false) :
    ((updateFirst q f l).getD l).filter p = l.filter p := by
  induction l with
  | nil => rfl
  | cons z l ih =>
    by_cases hz : q z
    · have hzy : z = y := by simpa [hz] using h
      subst hzy
      simp [hz, hf, hy]
    · have hrest : l.find? q = some y := by simpa [hz] using h
      have ih := ih hrest
      cases hup : updateFirst q f l with
      | none => simp [hz, hup]
      | some t =>
        rw [hup, Option.getD_some] at ih
        by_cases hpz : p z <;> simp [hz, hup, hpz, ih]

/-- A change of an element that is seen is that change of what is seen. -/
theorem filter_updateFirst_of_seen {q : α → Bool} {y : α} (h : l.find? q = some y)
    (hy : p y = true) (hf : ∀ z, p (f z) = p z) :
    ((updateFirst q f l).getD l).filter p =
      (updateFirst q f (l.filter p)).getD (l.filter p) := by
  induction l with
  | nil => rfl
  | cons z l ih =>
    by_cases hz : q z
    · have hzy : z = y := by simpa [hz] using h
      subst hzy
      simp [hz, hf, hy]
    · have hrest : l.find? q = some y := by simpa [hz] using h
      have ih := ih hrest
      have hsome : updateFirst q f l ≠ none := by
        rw [Ne, updateFirst_eq_none_iff, hrest]
        simp
      obtain ⟨t, hup⟩ := Option.ne_none_iff_exists'.mp hsome
      rw [hup, Option.getD_some] at ih
      by_cases hpz : p z
      · cases hseen : updateFirst q f (l.filter p) <;>
          simp [hz, hup, hpz, ih]
      · simp [hz, hup, hpz, ih]

/-- A change that overrides what `g` does can be made after `g`. -/
theorem map_updateFirst {q : α → Bool} {g : α → α} (hq : ∀ z, q (g z) = q z)
    (hf : ∀ z, f (g z) = f z) :
    ((updateFirst q f l).getD l).map g =
      (updateFirst q (fun z => g (f z)) (l.map g)).getD (l.map g) := by
  induction l with
  | nil => rfl
  | cons z l ih =>
    by_cases hz : q z
    · simp [hz, hq, hf]
    · cases hup : updateFirst q f l <;>
        cases hmap : updateFirst q (fun z => g (f z)) (l.map g) <;>
          simp_all

/-- Changes that agree on what `g` sees make lists that do. -/
theorem map_updateFirst_congr {β : Type*} {g : α → β} {f' : α → α}
    (hf : ∀ y, g (f y) = g (f' y)) :
    (updateFirst p f l).map (List.map g) = (updateFirst p f' l).map (List.map g) := by
  induction l with
  | nil => rfl
  | cons y l ih =>
    by_cases hy : p y
    · simp [hy, hf]
    · have hrest := congrArg (Option.map (g y :: ·)) ih
      simpa [hy, Function.comp_def] using hrest

theorem map_updateFirst_eq {β : Type*} {g : α → β} (hf : ∀ y, g (f y) = g y)
    (h : updateFirst p f l = some l') : l'.map g = l.map g := by
  induction l generalizing l' with
  | nil => cases h
  | cons y l ih =>
    rw [updateFirst] at h
    by_cases hy : p y
    · rw [if_pos hy] at h
      cases h
      simp [hf]
    · rw [if_neg hy] at h
      obtain ⟨t, ht, rfl⟩ := Option.map_eq_some_iff.mp h
      simp [ih ht]

theorem map_pushBounded {β : Type*} (g : α → β) :
    (pushBounded cap l x).map g = pushBounded cap (l.map g) (g x) := by
  rw [pushBounded, pushBounded, List.length_map]
  split_ifs <;> simp

theorem map_upsert_congr {β : Type*} {g : α → β} {f' : α → α} {x' : α}
    (hf : ∀ y, g (f y) = g (f' y)) (hx : g x = g x') :
    (upsert cap p f l x).map g = (upsert cap p f' l x').map g := by
  have hup := map_updateFirst_congr (p := p) (l := l) hf
  rw [upsert, upsert]
  cases h : updateFirst p f l <;> cases h' : updateFirst p f' l
  · simp [map_pushBounded, hx]
  · simp [h, h'] at hup
  · simp [h, h'] at hup
  · simpa [h, h'] using hup

/-- How many elements have a property of what `g` sees. -/
theorem length_filter_congr {β : Type*} {g : α → β} (q : β → Bool) (h : l.map g = l'.map g) :
    (l.filter fun y => q (g y)).length = (l'.filter fun y => q (g y)).length := by
  have hcount := congrArg (List.countP q) h
  rw [List.countP_map, List.countP_map, List.countP_eq_length_filter,
    List.countP_eq_length_filter] at hcount
  exact hcount

/-- A full list that holds one element only. -/
def CopiesOf (cap : ℕ) (x : α) (l : List α) : Prop := cap ≤ l.length ∧ ∀ y ∈ l, y = x

theorem tail_append_eq_self_iff (hl : l ≠ []) : l.tail ++ [x] = l ↔ ∀ y ∈ l, y = x := by
  induction l with
  | nil => exact absurd rfl hl
  | cons z l ih =>
    cases l with
    | nil => simp [eq_comm]
    | cons w l =>
      have hrest : l ++ [x] = w :: l ↔ ∀ y ∈ w :: l, y = x := ih (List.cons_ne_nil w l)
      rw [List.tail_cons, List.cons_append, List.cons_eq_cons, hrest, List.forall_mem_cons (a := z)]
      constructor
      · rintro ⟨rfl, hall⟩
        exact ⟨hall w List.mem_cons_self, hall⟩
      · rintro ⟨rfl, hall⟩
        exact ⟨hall w List.mem_cons_self, hall⟩

/-- A new element leaves the list as it was only among its own copies. -/
theorem pushBounded_eq_self_iff (hcap : 0 < cap) : pushBounded cap l x = l ↔ CopiesOf cap x l := by
  rw [pushBounded, CopiesOf]
  by_cases hfull : cap ≤ l.length
  · have hl : l ≠ [] := List.ne_nil_of_length_pos (by omega)
    rw [if_pos hfull, List.drop_one, tail_append_eq_self_iff hl, and_iff_right hfull]
  · simp [hfull]

theorem length_pushBounded (hcap : 0 < cap) (h : l.length ≤ cap) :
    (pushBounded cap l x).length ≤ cap := by
  rw [pushBounded]
  split <;> simp only [List.length_append, List.length_drop, List.length_singleton] <;> omega

namespace Within

theorem nil : Within cap P [] := ⟨Nat.zero_le _, by simp⟩

theorem subset (h : Within cap P l) (hlen : l'.length ≤ l.length) (hsub : ∀ x ∈ l', x ∈ l) :
    Within cap P l' :=
  ⟨hlen.trans h.length_le, fun x hx => h.all x (hsub x hx)⟩

theorem push (h : Within cap P l) (hx : P x) (hcap : 0 < cap) :
    Within cap P (pushBounded cap l x) where
  length_le := length_pushBounded hcap h.length_le
  all y hy := by
    rcases mem_pushBounded hy with hy | rfl
    · exact h.all y hy
    · exact hx

theorem update (h : Within cap P l) (hl : updateFirst p f l = some l')
    (hf : ∀ x, l.find? p = some x → P x → P (f x)) : Within cap P l' where
  length_le := (length_updateFirst hl).trans_le h.length_le
  all y hy := by
    rcases mem_updateFirst hl hy with hy | ⟨z, hz, rfl⟩
    · exact h.all y hy
    · exact hf z hz (h.all z (List.mem_of_find?_eq_some hz))

theorem upsert (h : Within cap P l) (hcap : 0 < cap)
    (hf : ∀ x, l.find? p = some x → P x → P (f x)) (hx : l.find? p = none → P x) :
    Within cap P (upsert cap p f l x) := by
  rw [Library.upsert]
  cases hl : updateFirst p f l with
  | none => exact h.push (hx (updateFirst_eq_none_iff.mp hl)) hcap
  | some l' => exact h.update hl hf

/-- A record that takes the place of one, or is new. -/
theorem replace (h : Within cap P l) (hx : P x) (hcap : 0 < cap) :
    Within cap P (Library.upsert cap p (fun _ => x) l x) :=
  h.upsert hcap (fun _ _ _ => hx) fun _ => hx

theorem filter (h : Within cap P l) (q : α → Bool) : Within cap P (l.filter q) :=
  h.subset (List.length_filter_le _ _) fun _ hx => (List.mem_filter.mp hx).1

theorem drop (h : Within cap P l) (n : ℕ) : Within cap P (l.drop n) :=
  h.subset (by simp) fun _ hx => List.mem_of_mem_drop hx

theorem map {β : Type*} {Q : β → Prop} {g : α → β} (h : Within cap P l)
    (hg : ∀ x ∈ l, P x → Q (g x)) : Within cap Q (l.map g) where
  length_le := by simpa using h.length_le
  all y hy := by
    obtain ⟨x, hx, rfl⟩ := List.mem_map.mp hy
    exact hg x hx (h.all x hx)

/-- A list cut to the cap is within it. -/
theorem take (hl : ∀ x ∈ l.take cap, P x) : Within cap P (l.take cap) where
  length_le := List.length_take_le _ _
  all := hl

end Within

end Codegg.Library
