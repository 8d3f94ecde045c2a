import Mathlib.Tactic

/-!
# Tables with a primary key and a second unique key

A table is a list of rows. No two rows have the same identity, and no two rows
share a slot (a second key, such as a position within a group). A statement that
gives rows new slots visits them one at a time and is checked after each of them, so
it can fail on a clash with a row it has not come to yet.
-/
namespace Codegg.Library

variable {ρ ι κ : Type} {ident : ρ → ι} {slot : ρ → κ}

structure UniqueTable (ρ : Type) {ι κ : Type} (ident : ρ → ι) (slot : ρ → κ) where
  rows : List ρ
  idents_nodup : (rows.map ident).Nodup
  slots_nodup : (rows.map slot).Nodup

/-- A change of a row that leaves both of its keys as they are. -/
structure ColumnUpdate (ρ : Type) {ι κ : Type} (ident : ρ → ι) (slot : ρ → κ) where
  apply : ρ → ρ
  ident_apply : ∀ r, ident (apply r) = ident r
  slot_apply : ∀ r, slot (apply r) = slot r

variable {r r' : ρ} {t t' : UniqueTable ρ ident slot} {i : ι} {p : ρ → Bool} {f : ρ → ρ}
  {changes : List (ι × (ρ → ρ))}

namespace UniqueTable

def empty : UniqueTable ρ ident slot := ⟨[], List.nodup_nil, List.nodup_nil⟩

theorem ident_inj (t : UniqueTable ρ ident slot) (hr : r ∈ t.rows) (hr' : r' ∈ t.rows)
    (h : ident r = ident r') : r = r' :=
  List.inj_on_of_nodup_map t.idents_nodup hr hr' h

theorem slot_inj (t : UniqueTable ρ ident slot) (hr : r ∈ t.rows) (hr' : r' ∈ t.rows)
    (h : slot r = slot r') : r = r' :=
  List.inj_on_of_nodup_map t.slots_nodup hr hr' h

/-! ### Reading -/

def get? [DecidableEq ι] (t : UniqueTable ρ ident slot) (i : ι) : Option ρ :=
  t.rows.find? fun r => ident r = i

theorem get?_eq_some [DecidableEq ι] :
    t.get? i = some r ↔ r ∈ t.rows ∧ ident r = i := by
  constructor
  · intro h
    exact ⟨List.mem_of_find?_eq_some h, by simpa using List.find?_some h⟩
  · rintro ⟨hr, hi⟩
    cases h : t.get? i with
    | none =>
      have := List.find?_eq_none.mp h r hr
      simp [hi] at this
    | some r' =>
      have hr' := List.mem_of_find?_eq_some h
      have hi' : ident r' = i := by simpa using List.find?_some h
      rw [t.ident_inj hr hr' (hi.trans hi'.symm)]

theorem get?_eq_none [DecidableEq ι] :
    t.get? i = none ↔ ∀ r ∈ t.rows, ident r ≠ i := by
  simp [get?]

/-! ### Updates that leave the keys alone, and deletions -/

def updateRow (p : ρ → Bool) (u : ColumnUpdate ρ ident slot) (r : ρ) : ρ :=
  if p r then u.apply r else r

theorem ident_updateRow (p : ρ → Bool) (u : ColumnUpdate ρ ident slot) (r : ρ) :
    ident (updateRow p u r) = ident r := by
  unfold updateRow
  split
  · exact u.ident_apply r
  · rfl

theorem slot_updateRow (p : ρ → Bool) (u : ColumnUpdate ρ ident slot) (r : ρ) :
    slot (updateRow p u r) = slot r := by
  unfold updateRow
  split
  · exact u.slot_apply r
  · rfl

/-- `UPDATE … SET … WHERE p` -/
def updateWhere (p : ρ → Bool) (u : ColumnUpdate ρ ident slot) (t : UniqueTable ρ ident slot) :
    UniqueTable ρ ident slot where
  rows := t.rows.map (updateRow p u)
  idents_nodup := by
    rw [List.map_map]
    have h : ident ∘ updateRow p u = ident := funext fun r => ident_updateRow p u r
    rw [h]
    exact t.idents_nodup
  slots_nodup := by
    rw [List.map_map]
    have h : slot ∘ updateRow p u = slot := funext fun r => slot_updateRow p u r
    rw [h]
    exact t.slots_nodup

/-- How many rows a condition selects. -/
def affected (p : ρ → Bool) (t : UniqueTable ρ ident slot) : ℕ := t.rows.countP p

/-- `DELETE … WHERE p` -/
def deleteWhere (p : ρ → Bool) (t : UniqueTable ρ ident slot) : UniqueTable ρ ident slot where
  rows := t.rows.filter fun r => !p r
  idents_nodup := t.idents_nodup.sublist (List.filter_sublist.map ident)
  slots_nodup := t.slots_nodup.sublist (List.filter_sublist.map slot)

theorem get?_updateWhere [DecidableEq ι] (p : ρ → Bool) (u : ColumnUpdate ρ ident slot)
    (t : UniqueTable ρ ident slot) (i : ι) :
    (t.updateWhere p u).get? i = (t.get? i).map (updateRow p u) := by
  simp [get?, updateWhere, ident_updateRow]

theorem get?_deleteWhere [DecidableEq ι] (p : ρ → Bool) (t : UniqueTable ρ ident slot) (i : ι) :
    (t.deleteWhere p).get? i = (t.get? i).filter fun r => !p r := by
  ext r
  rw [Option.filter_eq_some_iff, get?_eq_some, get?_eq_some]
  simp only [deleteWhere, List.mem_filter]
  tauto

theorem mem_updateWhere {u : ColumnUpdate ρ ident slot} :
    r' ∈ (t.updateWhere p u).rows ↔ ∃ r ∈ t.rows, updateRow p u r = r' :=
  List.mem_map

theorem affected_eq_zero :
    t.affected p = 0 ↔ ∀ r ∈ t.rows, p r = false := by
  simp [affected]

/-- Rows that a condition selects, counted by their identities: if each comes from a row
of another table that a condition selects there, there are at most as many. -/
theorem affected_le {q : ρ → Bool}
    (h : ∀ r' ∈ t'.rows, p r' = true → ∃ r ∈ t.rows, q r = true ∧ ident r = ident r') :
    t'.affected p ≤ t.affected q := by
  have hnodup : ((t'.rows.filter p).map ident).Nodup :=
    t'.idents_nodup.sublist (List.filter_sublist.map ident)
  have hsub : (t'.rows.filter p).map ident ⊆ (t.rows.filter q).map ident := by
    intro i hi
    obtain ⟨r', hr', rfl⟩ := List.mem_map.mp hi
    obtain ⟨hmem', hp⟩ := List.mem_filter.mp hr'
    obtain ⟨r, hmem, hq, hident⟩ := h r' hmem' hp
    exact List.mem_map.mpr ⟨r, List.mem_filter.mpr ⟨hmem, hq⟩, hident⟩
  have hle := (List.subperm_of_subset hnodup hsub).length_le
  simpa [affected, List.countP_eq_length_filter] using hle

/-- One more row is selected when a row that was not is added to the selection. -/
theorem affected_or_ident [DecidableEq ι] (hr : r ∈ t.rows) (hp : p r = false) :
    t.affected (fun x => p x || decide (ident x = ident r)) = t.affected p + 1 := by
  obtain ⟨before, after, hrows⟩ := List.append_of_mem hr
  have hother : ∀ x ∈ before ++ after, ident x ≠ ident r := by
    have hnodup := t.idents_nodup
    rw [hrows, List.map_append] at hnodup
    intro x hx heq
    have hmem : ident r ∈ before.map ident ++ after.map ident := by
      rw [← List.map_append, ← heq]
      exact List.mem_map_of_mem hx
    exact (List.nodup_middle.mp hnodup).notMem hmem
  have hcount : ∀ l ⊆ before ++ after,
      l.countP (fun x => p x || decide (ident x = ident r)) = l.countP p := by
    intro l hl
    refine List.countP_congr fun x hx => ?_
    simp [hother x (hl hx)]
  rw [affected, affected, hrows, List.countP_append, List.countP_cons,
    hcount before (List.subset_append_left _ _),
    hcount after (List.subset_append_right _ _)]
  simp [hp]
  omega

/-! ### Statements checked against both keys -/

variable [DecidableEq ι] [DecidableEq κ]

def ofRows? (rows : List ρ) : Option (UniqueTable ρ ident slot) :=
  if h : (rows.map ident).Nodup ∧ (rows.map slot).Nodup then some ⟨rows, h.1, h.2⟩ else none

theorem ofRows?_eq_some {rows : List ρ} :
    ofRows? rows = some t ↔ t.rows = rows := by
  unfold ofRows?
  constructor
  · intro h
    split at h
    · cases h
      rfl
    · cases h
  · rintro rfl
    rw [dif_pos ⟨t.idents_nodup, t.slots_nodup⟩]

theorem ofRows?_isSome {rows : List ρ} (hi : (rows.map ident).Nodup)
    (hs : (rows.map slot).Nodup) : ∃ t : UniqueTable ρ ident slot, ofRows? rows = some t :=
  ⟨⟨rows, hi, hs⟩, ofRows?_eq_some.mpr rfl⟩

/-- `INSERT`, refused when one of the keys is taken. -/
def insert? (r : ρ) (t : UniqueTable ρ ident slot) : Option (UniqueTable ρ ident slot) :=
  ofRows? (t.rows ++ [r])

theorem insert?_isSome (hi : ∀ r' ∈ t.rows, ident r' ≠ ident r)
    (hs : ∀ r' ∈ t.rows, slot r' ≠ slot r) :
    ∃ t', t.insert? r = some t' := by
  apply ofRows?_isSome
  · rw [List.map_append, List.nodup_append]
    refine ⟨t.idents_nodup, by simp, ?_⟩
    intro i hmem j hj
    obtain ⟨r', hr', rfl⟩ := List.mem_map.mp hmem
    obtain rfl : j = ident r := by simpa using hj
    exact hi r' hr'
  · rw [List.map_append, List.nodup_append]
    refine ⟨t.slots_nodup, by simp, ?_⟩
    intro k hmem l hl
    obtain ⟨r', hr', rfl⟩ := List.mem_map.mp hmem
    obtain rfl : l = slot r := by simpa using hl
    exact hs r' hr'

theorem insert?_rows (h : t.insert? r = some t') :
    t'.rows = t.rows ++ [r] :=
  ofRows?_eq_some.mp h

/-- A row that was inserted had a new identity. -/
theorem fresh_of_insert? (h : t.insert? r = some t') :
    ∀ r' ∈ t.rows, ident r' ≠ ident r := by
  have hnodup := t'.idents_nodup
  rw [insert?_rows h, List.map_append, List.nodup_append] at hnodup
  intro r' hr'
  exact hnodup.2.2 (ident r') (List.mem_map_of_mem hr') (ident r) (by simp)

theorem affected_insert? (h : t.insert? r = some t') (p : ρ → Bool) :
    t'.affected p = t.affected p + if p r then 1 else 0 := by
  rw [affected, insert?_rows h, List.countP_append, List.countP_singleton, affected]

/-- One row replaced by its change. -/
def setOne (ident : ρ → ι) (i : ι) (f : ρ → ρ) (r : ρ) : ρ := if ident r = i then f r else r

theorem setOne_self (h : ident r = i) : setOne ident i f r = f r :=
  if_pos h

theorem setOne_other (h : ident r ≠ i) : setOne ident i f r = r :=
  if_neg h

theorem ident_setOne (hf : ∀ r, ident (f r) = ident r) (r : ρ) :
    ident (setOne ident i f r) = ident r := by
  by_cases h : ident r = i
  · rw [setOne_self h, hf]
  · rw [setOne_other h]

/-- A change of one row, whatever it does to the slot. -/
def setRow? (i : ι) (f : ρ → ρ) (t : UniqueTable ρ ident slot) :
    Option (UniqueTable ρ ident slot) :=
  ofRows? (t.rows.map (setOne ident i f))

/-- Changes of single rows one after the other; the first clash stops them. -/
def setRows? : List (ι × (ρ → ρ)) → UniqueTable ρ ident slot → Option (UniqueTable ρ ident slot)
  | [], t => some t
  | (i, f) :: changes, t => (t.setRow? i f).bind (setRows? changes)

/-- What a list of changes makes of a row. -/
def changed (ident : ρ → ι) : List (ι × (ρ → ρ)) → ρ → ρ
  | [], r => r
  | (i, f) :: changes, r => changed ident changes (setOne ident i f r)

/-- The changes keep the identities and give slots that no other row has, neither
while it waits for its own change nor after it. -/
structure Clear (changes : List (ι × (ρ → ρ))) (t : UniqueTable ρ ident slot) : Prop where
  distinct : (changes.map Prod.fst).Nodup
  ident_eq : ∀ c ∈ changes, ∀ r, ident (c.2 r) = ident r
  old : ∀ before c after, changes = before ++ c :: after → ∀ r ∈ t.rows, ident r = c.1 →
    ∀ r' ∈ t.rows, r' ≠ r → ident r' ∉ before.map Prod.fst → slot (c.2 r) ≠ slot r'
  new : ∀ c ∈ changes, ∀ r ∈ t.rows, ident r = c.1 → ∀ d ∈ changes, ∀ r' ∈ t.rows,
    ident r' = d.1 → r' ≠ r → slot (c.2 r) ≠ slot (d.2 r')

/-- A row that no change names stays. -/
theorem changed_of_not_mem (h : ident r ∉ changes.map Prod.fst) : changed ident changes r = r := by
  induction changes with
  | nil => rfl
  | cons c changes ih =>
    rw [List.map_cons, List.mem_cons, not_or] at h
    rw [changed, setOne_other h.1, ih h.2]

/-- A row that one change names gets that change. -/
theorem changed_of_mem (hd : (changes.map Prod.fst).Nodup) (hf : ∀ r, ident (f r) = ident r)
    (h : (i, f) ∈ changes) (hr : ident r = i) : changed ident changes r = f r := by
  induction changes with
  | nil => cases h
  | cons c changes ih =>
    obtain ⟨hc, hd⟩ := List.nodup_cons.mp hd
    rcases List.mem_cons.mp h with rfl | h
    · rw [changed, setOne_self hr]
      apply changed_of_not_mem
      rw [hf, hr]
      exact hc
    · have hne : ident r ≠ c.1 := by
        rintro heq
        exact hc (List.mem_map.mpr ⟨(i, f), h, hr.symm.trans heq⟩)
      rw [changed, setOne_other hne, ih hd h]

theorem setRow?_isSome (hf : ∀ r, ident (f r) = ident r)
    (hold : ∀ r ∈ t.rows, ident r = i → ∀ r' ∈ t.rows, r' ≠ r → slot (f r) ≠ slot r') :
    ∃ t', t.setRow? i f = some t' := by
  apply ofRows?_isSome
  · rw [List.map_map]
    have h : ident ∘ setOne ident i f = ident := funext fun r => ident_setOne hf r
    rw [h]
    exact t.idents_nodup
  · rw [List.map_map]
    refine t.idents_nodup.of_map.map_on ?_
    intro r hr r' hr' h
    simp only [Function.comp_apply] at h
    by_contra hne
    by_cases hi : ident r = i <;> by_cases hi' : ident r' = i
    · exact hne (t.ident_inj hr hr' (hi.trans hi'.symm))
    · rw [setOne_self hi, setOne_other hi'] at h
      exact hold r hr hi r' hr' (Ne.symm hne) h
    · rw [setOne_other hi, setOne_self hi'] at h
      exact hold r' hr' hi' r hr hne h.symm
    · rw [setOne_other hi, setOne_other hi'] at h
      exact hne (t.slot_inj hr hr' h)

omit [DecidableEq κ] in
/-- What is clear stays clear when the first change has been made. -/
theorem Clear.tail {i : ι} {f : ρ → ρ} {changes : List (ι × (ρ → ρ))}
    {t t' : UniqueTable ρ ident slot} (h : Clear ((i, f) :: changes) t)
    (hrows : t'.rows = t.rows.map (setOne ident i f)) : Clear changes t' := by
  have hmem : (i, f) ∈ (i, f) :: changes := List.mem_cons_self
  have hident := ident_setOne (h.ident_eq _ hmem) (i := i)
  obtain ⟨hi, hnodup⟩ := List.nodup_cons.mp h.distinct
  -- a row that the remaining changes name is still the row it was
  have hother : ∀ c ∈ changes, ∀ r, ident r = c.1 → ident r ≠ i := by
    intro c hc r hr heq
    exact hi (List.mem_map.mpr ⟨c, hc, hr.symm.trans heq⟩)
  refine ⟨hnodup, fun c hc => h.ident_eq c (List.mem_cons_of_mem _ hc), ?_, ?_⟩
  · intro before c after hsplit r hr hrc r' hr' hne hwaits
    have hc : c ∈ changes := by simp [hsplit]
    rw [hrows] at hr hr'
    obtain ⟨s, hs, rfl⟩ := List.mem_map.mp hr
    obtain ⟨s', hs', rfl⟩ := List.mem_map.mp hr'
    rw [hident] at hrc
    rw [setOne_other (hother c hc s hrc)] at hne ⊢
    by_cases hi' : ident s' = i
    · rw [setOne_self hi'] at hne ⊢
      have hss : s' ≠ s := by
        rintro rfl
        exact hother c hc s' hrc hi'
      exact h.new c (List.mem_cons_of_mem _ hc) s hs hrc (i, f) hmem s' hs' hi' hss
    · rw [setOne_other hi'] at hne hwaits ⊢
      refine h.old ((i, f) :: before) c after (by rw [hsplit, List.cons_append]) s hs hrc s' hs'
        hne ?_
      simp [hi', hwaits]
  · intro c hc r hr hrc d hd r' hr' hrd hne
    rw [hrows] at hr hr'
    obtain ⟨s, hs, rfl⟩ := List.mem_map.mp hr
    obtain ⟨s', hs', rfl⟩ := List.mem_map.mp hr'
    rw [hident] at hrc hrd
    rw [setOne_other (hother c hc s hrc)] at hne ⊢
    rw [setOne_other (hother d hd s' hrd)] at hne ⊢
    exact h.new c (List.mem_cons_of_mem _ hc) s hs hrc d (List.mem_cons_of_mem _ hd) s' hs' hrd hne

/-- Changes whose slots are clear all go through. -/
theorem setRows?_spec (h : Clear changes t) :
    ∃ t', t.setRows? changes = some t' ∧ t'.rows = t.rows.map (changed ident changes) := by
  induction changes generalizing t with
  | nil => exact ⟨t, rfl, (List.map_id' t.rows).symm⟩
  | cons c changes ih =>
    obtain ⟨i, f⟩ := c
    have hmem : (i, f) ∈ (i, f) :: changes := List.mem_cons_self
    have hold := h.old [] (i, f) changes rfl
    obtain ⟨t₁, ht₁⟩ := setRow?_isSome (t := t) (h.ident_eq _ hmem)
      fun r hr hi r' hr' hne => hold r hr hi r' hr' hne List.not_mem_nil
    have hrows : t₁.rows = t.rows.map (setOne ident i f) := ofRows?_eq_some.mp ht₁
    obtain ⟨t', ht', hrows'⟩ := ih (h.tail hrows)
    refine ⟨t', by rw [setRows?, ht₁, Option.bind_some, ht'], ?_⟩
    rw [hrows', hrows, List.map_map]
    rfl

/-- A change to a slot that another row holds is refused. -/
theorem setRow?_eq_none (hr : r ∈ t.rows) (hi : ident r = i) (hr' : r' ∈ t.rows)
    (hi' : ident r' ≠ i) (hslot : slot (f r) = slot r') : t.setRow? i f = none := by
  rw [setRow?, ofRows?, dif_neg]
  rintro ⟨_, hnodup⟩
  rw [List.map_map] at hnodup
  have heq : r = r' := by
    apply List.inj_on_of_nodup_map hnodup hr hr'
    rw [Function.comp_apply, Function.comp_apply, setOne_self hi, setOne_other hi', hslot]
  exact hi' (heq ▸ hi)

/-- A change to the slot of a row that still waits for its own change stops them. -/
theorem setRows?_eq_none {before after : List (ι × (ρ → ρ))} (hr : r ∈ t.rows)
    (hi : ident r = i) (hr' : r' ∈ t.rows) (hi' : ident r' ≠ i)
    (hnew : i ∉ before.map Prod.fst) (hwaits : ident r' ∉ before.map Prod.fst)
    (hslot : slot (f r) = slot r') : t.setRows? (before ++ (i, f) :: after) = none := by
  induction before generalizing t with
  | nil => rw [List.nil_append, setRows?, setRow?_eq_none hr hi hr' hi' hslot, Option.bind_none]
  | cons c before ih =>
    rw [List.map_cons, List.mem_cons, not_or] at hnew hwaits
    rw [List.cons_append, setRows?, Option.bind_eq_none_iff]
    intro t₁ ht₁
    have hstays : ∀ q ∈ t.rows, ident q ≠ c.1 → q ∈ t₁.rows := by
      intro q hq hne
      rw [ofRows?_eq_some.mp ht₁]
      exact List.mem_map.mpr ⟨q, hq, setOne_other hne⟩
    have hr₁ : r ∈ t₁.rows := hstays r hr (by rw [hi]; exact hnew.1)
    exact ih hr₁ (hstays r' hr' hwaits.1) hnew.2 hwaits.2

end UniqueTable

end Codegg.Library
