import Codegg.PromptQueue.Capacity

/-!
# Renumbering

The renumbering moves all rows of a session up by a fixed band, then writes the dense
ordinals. SQLite checks `UNIQUE (session_id, ordinal)` after each row, in the order of
the insertions, so the first statement goes through exactly if no row is one band below
a row inserted after it. Then the second one meets no row in its way.
-/
namespace Codegg.PromptQueue

open Codegg.Library UniqueTable UserPromptQueueEntryRecord

/-! ### The merged order -/

/-- The order written by a merge: the desired identities at the operable ranks, all
other entries where they were. -/
structure Merged (live : List UserPromptQueueLiveEntry) (desired merged : List String) :
    Prop where
  perm : merged.Perm (desired ++ (live.filter (!·.status.isOperable)).map (·.id))
  length_eq : merged.length = live.length
  kept : ∀ (k : ℕ) (entry : UserPromptQueueLiveEntry), live[k]? = some entry →
    entry.status.isOperable = false → merged[k]? = some entry.id

theorem mergeOperableIntoLive_spec (live : List UserPromptQueueLiveEntry) (desired : List String)
    (h : desired.length = live.countP (·.status.isOperable)) :
    ∃ merged, mergeOperableIntoLive live desired = .ok merged ∧ Merged live desired merged := by
  induction live generalizing desired with
  | nil =>
    have hnil : desired = [] := List.eq_nil_of_length_eq_zero h
    subst hnil
    exact ⟨[], rfl, by simp, rfl, by simp⟩
  | cons entry live ih =>
    cases ho : entry.status.isOperable with
    | true =>
      cases desired with
      | nil => simp [ho] at h
      | cons id desired =>
        obtain ⟨merged, hm, hspec⟩ := ih desired (by simpa [ho] using h)
        refine ⟨id :: merged, by simp [mergeOperableIntoLive, ho, hm, Except.map], ?_, ?_, ?_⟩
        · simpa [ho] using hspec.perm
        · simp [hspec.length_eq]
        · intro k e hk he
          cases k with
          | zero =>
            obtain rfl : entry = e := by simpa using hk
            rw [ho] at he
            cases he
          | succ k => simpa using hspec.kept k e (by simpa using hk) he
    | false =>
      obtain ⟨merged, hm, hspec⟩ := ih desired (by simpa [ho] using h)
      refine ⟨entry.id :: merged, ?_, ?_, ?_, ?_⟩
      · cases desired <;> simp [mergeOperableIntoLive, ho, hm, Except.map]
      · rw [List.filter_cons, ho]
        exact (hspec.perm.cons entry.id).trans List.perm_middle.symm
      · simp [hspec.length_eq]
      · intro k e hk he
        cases k with
        | zero =>
          obtain rfl : entry = e := by simpa using hk
          rfl
        | succ k => simpa using hspec.kept k e (by simpa using hk) he

/-! ### The lists of a table that keeps to its capacity -/

variable {r : UserPromptQueueEntryRecord} {c : RowChange} {merged : List String}

section

variable {t : EntryTable} {sessionId : String} {nowMs : ℤ}

theorem length_filter_le (h : Retained t) {p : UserPromptQueueEntryRecord → Bool}
    (hp : ∀ r, p r = true → r.ownedBy sessionId = true) :
    (selectOrdered p t).length ≤ maxRetainedPerSession := by
  rw [selectOrdered, List.length_insertionSort, ← List.countP_eq_length_filter]
  exact (List.countP_mono_left fun r _ hr => hp r hr).trans (h sessionId)

theorem ownedBy_of_isLiveAt (h : r.isLiveAt sessionId nowMs = true) :
    r.ownedBy sessionId = true := by
  simp only [isLiveAt, Bool.and_eq_true] at h
  exact h.1.1

theorem projectedRows_eq (h : Retained t) :
    projectedRows sessionId nowMs t = selectOrdered (·.isLiveAt sessionId nowMs) t :=
  List.take_of_length_le (length_filter_le h fun _ => ownedBy_of_isLiveAt)

theorem operableRows_eq (h : Retained t) :
    operableRows sessionId nowMs t = selectOrdered (·.isOperableAt sessionId nowMs) t :=
  List.take_of_length_le (length_filter_le h fun _ hr =>
    ownedBy_of_isLiveAt (isLiveAt_of_isOperableAt hr))

theorem selectOrdered_perm (p : UserPromptQueueEntryRecord → Bool) (t : EntryTable) :
    (selectOrdered p t).Perm (t.rows.filter p) :=
  List.perm_insertionSort _ _

theorem nodup_ids_selectOrdered (p : UserPromptQueueEntryRecord → Bool) (t : EntryTable) :
    ((selectOrdered p t).map (·.id)).Nodup :=
  ((selectOrdered_perm p t).map _).nodup_iff.mpr
    (t.idents_nodup.sublist (List.filter_sublist.map _))

/-- The operable rows are those of the live ones that are pending. -/
theorem operable_perm (h : Retained t) :
    (operableRows sessionId nowMs t).Perm
      ((projectedRows sessionId nowMs t).filter (·.status.isOperable)) := by
  rw [operableRows_eq h, projectedRows_eq h]
  refine (selectOrdered_perm _ t).trans ?_
  refine List.Perm.trans ?_ ((selectOrdered_perm _ t).filter _).symm
  rw [List.filter_filter]
  refine List.Perm.of_eq (List.filter_congr fun r _ => ?_)
  rw [isOperableAt_eq, Bool.and_comm]

/-- No two live rows share an ordinal. -/
theorem strict_selectOrdered {p : UserPromptQueueEntryRecord → Bool}
    (hp : ∀ r, p r = true → r.ownedBy sessionId = true) :
    (selectOrdered p t).Pairwise fun a b => a.ordinal < b.ordinal := by
  have hnodup : (selectOrdered p t).Nodup := (nodup_ids_selectOrdered p t).of_map _
  refine ((pairwise_selectOrdered p t).and hnodup).imp_of_mem ?_
  intro a b ha hb hab
  obtain ⟨hle, hne⟩ := hab
  obtain ⟨ha, hpa⟩ := mem_selectOrdered.mp ha
  obtain ⟨hb, hpb⟩ := mem_selectOrdered.mp hb
  refine lt_of_le_of_ne hle fun heq => hne (t.slot_inj ha hb ?_)
  have hsa : a.sessionId = sessionId := of_decide_eq_true (hp a hpa)
  have hsb : b.sessionId = sessionId := of_decide_eq_true (hp b hpb)
  simp [slot, hsa, hsb, heq]

end

/-! ### The two statements -/

/-- No row of the session is one band below a row that was inserted after it. -/
def Apart (sessionId : String) (t : EntryTable) : Prop :=
  t.rows.Pairwise fun r r' => r.sessionId = sessionId → r'.sessionId = sessionId →
    r'.ordinal ≠ r.ordinal + renumberBandOffset

section

variable {t : EntryTable} {sessionId : String} {nowMs : ℤ}

theorem fst_displacements (sessionId : String) (t : EntryTable) :
    (displacements sessionId t).map Prod.fst = sessionIds sessionId t := by
  simp [displacements, sessionIds, Function.comp_def]

theorem mem_displacements (h : c ∈ displacements sessionId t) :
    c.1 ∈ sessionIds sessionId t ∧ c.2 = displaceRow := by
  refine ⟨fst_displacements sessionId t ▸ List.mem_map_of_mem h, ?_⟩
  obtain ⟨_, _, rfl⟩ := List.mem_map.mp h
  rfl

/-- A row that a displacement names is one of the session. -/
theorem session_of_displacement (h : c ∈ displacements sessionId t)
    (hr : r ∈ t.rows) (hid : r.id = c.1) : r.sessionId = sessionId := by
  obtain ⟨r', hr', hs, hid'⟩ := mem_sessionIds.mp (mem_displacements h).1
  rw [t.ident_inj hr hr' (hid.trans hid'.symm)]
  exact hs

/-- Rows that still wait for their displacement were inserted later. -/
theorem waiting_of_displacements {r' : UserPromptQueueEntryRecord} {before after : List RowChange}
    (hsplit : displacements sessionId t = before ++ c :: after) (hr : r ∈ t.rows)
    (hid : r.id = c.1) (hr' : r' ∈ t.rows) (hs' : r'.sessionId = sessionId) (hne : r' ≠ r)
    (hwaits : r'.id ∉ before.map Prod.fst) :
    ∃ front back, t.rows.filter (·.ownedBy sessionId) = front ++ r :: back ∧ r' ∈ back := by
  obtain ⟨front, rest, hrows, hfront, hrest⟩ := List.map_eq_append_iff.mp hsplit
  obtain ⟨q, back, rfl, hq, _⟩ := List.map_eq_cons_iff.mp hrest
  have hqmem : q ∈ t.rows.filter (·.ownedBy sessionId) := by simp [hrows]
  obtain rfl : q = r := by
    apply t.ident_inj (List.mem_filter.mp hqmem).1 hr
    exact (congrArg Prod.fst hq).trans hid.symm
  refine ⟨front, back, hrows, ?_⟩
  have hmem : r' ∈ front ++ q :: back := by
    rw [← hrows]
    exact List.mem_filter.mpr ⟨hr', decide_eq_true hs'⟩
  rcases List.mem_append.mp hmem with hmem | hmem
  · refine absurd ?_ hwaits
    rw [← hfront]
    exact List.mem_map.mpr ⟨_, List.mem_map_of_mem hmem, rfl⟩
  · exact (List.mem_cons.mp hmem).resolve_left hne

theorem clear_displacements (h : Apart sessionId t) :
    UniqueTable.Clear (displacements sessionId t) t := by
  refine ⟨?_, ?_, ?_, ?_⟩
  · rw [fst_displacements]
    exact nodup_sessionIds sessionId t
  · intro c hc r
    rw [(mem_displacements hc).2]
    rfl
  · intro before c after hsplit r hr hid r' hr' hne hwaits heq
    have hc : c ∈ displacements sessionId t := by simp [hsplit]
    rw [(mem_displacements hc).2] at heq
    have hs := session_of_displacement hc hr hid
    have hpair := Prod.mk.inj heq
    have hs' : r'.sessionId = sessionId := hpair.1.symm.trans hs
    obtain ⟨front, back, hrows, hback⟩ :=
      waiting_of_displacements hsplit hr hid hr' hs' hne hwaits
    have hpairs := List.Pairwise.filter (·.ownedBy sessionId) h
    rw [hrows, List.pairwise_append, List.pairwise_cons] at hpairs
    exact hpairs.2.1.1 r' hback hs hs' hpair.2.symm
  · intro c hc r hr hid d hd r' hr' hid' hne heq
    rw [(mem_displacements hc).2, (mem_displacements hd).2] at heq
    have hpair := Prod.mk.inj heq
    have hordinal : r.ordinal = r'.ordinal := Nat.add_right_cancel hpair.2
    exact hne (t.slot_inj hr' hr (Prod.ext hpair.1.symm hordinal.symm))

/-- A row after the displacement of its session. -/
def displaced (sessionId : String) (r : UserPromptQueueEntryRecord) :
    UserPromptQueueEntryRecord :=
  if r.sessionId = sessionId then displaceRow r else r

theorem displacements_rows (h : Apart sessionId t) :
    ∃ t', t.setRows? (displacements sessionId t) = some t' ∧
      t'.rows = t.rows.map (displaced sessionId) := by
  obtain ⟨t', ht', hrows⟩ := setRows?_spec (clear_displacements h)
  refine ⟨t', ht', ?_⟩
  rw [hrows]
  apply List.map_congr_left
  intro r hr
  by_cases hs : r.sessionId = sessionId
  · rw [displaced, if_pos hs]
    apply changed_of_mem (i := r.id)
    · rw [fst_displacements]
      exact nodup_sessionIds sessionId t
    · exact fun _ => rfl
    · exact List.mem_map.mpr ⟨r, List.mem_filter.mpr ⟨hr, decide_eq_true hs⟩, rfl⟩
    · rfl
  · rw [displaced, if_neg hs]
    apply changed_of_not_mem
    rw [fst_displacements]
    intro hmem
    obtain ⟨r', hr', hs', hid⟩ := mem_sessionIds.mp hmem
    exact hs (t.ident_inj hr hr' hid.symm ▸ hs')

/-- A row one band below a later one clashes with it. -/
theorem displacements_clash (h : ¬Apart sessionId t) :
    t.setRows? (displacements sessionId t) = none := by
  rw [Apart, List.pairwise_iff_forall_sublist] at h
  push Not at h
  obtain ⟨r, r', hsub, hs, hs', hband⟩ := h
  obtain ⟨front, back, hrows, hr, hback⟩ := List.cons_sublist_iff.mp hsub
  obtain ⟨before, between, rfl⟩ := List.append_of_mem hr
  have hr' : r' ∈ back := List.singleton_sublist.mp hback
  rw [List.append_assoc, List.cons_append] at hrows
  have hnodup : (before.map (·.id) ++ r.id :: (between ++ back).map (·.id)).Nodup := by
    simpa [hrows] using t.idents_nodup
  obtain ⟨_, hlater, hfresh⟩ := List.nodup_append.mp hnodup
  have hmem' : r'.id ∈ (between ++ back).map (·.id) :=
    List.mem_map_of_mem (List.mem_append_right between hr')
  have hbefore : ((before.filter (·.ownedBy sessionId)).map fun q =>
      (q.id, displaceRow)).map Prod.fst ⊆ before.map (·.id) := by
    rw [List.map_map]
    exact List.map_subset _ (List.filter_subset_self before)
  have hsplit : displacements sessionId t =
      (before.filter (·.ownedBy sessionId)).map (fun q => (q.id, displaceRow)) ++
        (r.id, displaceRow) ::
          ((between ++ back).filter (·.ownedBy sessionId)).map fun q => (q.id, displaceRow) := by
    simp [displacements, hrows, hs, UserPromptQueueEntryRecord.ownedBy]
  rw [hsplit]
  have hr : r ∈ t.rows := by simp [hrows]
  have hr' : r' ∈ t.rows := by simp [hrows, hr']
  refine setRows?_eq_none hr rfl hr' ?_ ?_ ?_ ?_
  · exact fun heq => (List.nodup_cons.mp hlater).1 (heq ▸ hmem')
  · exact fun hmem => hfresh _ (hbefore hmem) _ List.mem_cons_self rfl
  · exact fun hmem => hfresh _ (hbefore hmem) _ (List.mem_cons_of_mem _ hmem') rfl
  · exact Prod.ext (hs.trans hs'.symm) hband.symm

/-! ### The dense ordinals -/

theorem fst_denseTargets (sessionId : String) (merged : List String) :
    (denseTargets sessionId merged).map Prod.fst = merged := by
  rw [denseTargets, List.map_map]
  exact List.zipIdx_map_fst 0 merged

theorem mem_denseTargets :
    c ∈ denseTargets sessionId merged ↔
      ∃ k, merged[k]? = some c.1 ∧ c.2 = placeRow sessionId k := by
  constructor
  · intro h
    obtain ⟨target, ht, rfl⟩ := List.mem_map.mp h
    exact ⟨target.2, List.mem_zipIdx_iff_getElem?.mp ht, rfl⟩
  · rintro ⟨k, hk, hc⟩
    exact List.mem_map.mpr ⟨(c.1, k), List.mem_zipIdx_iff_getElem?.mpr hk, by rw [← hc]⟩

/-- A row after both statements. -/
def renumbered (sessionId : String) (merged : List String) (r : UserPromptQueueEntryRecord) :
    UserPromptQueueEntryRecord :=
  if r.id ∈ merged then { r with ordinal := merged.idxOf r.id } else displaced sessionId r

theorem displaced_eq (h : r.sessionId = sessionId) :
    displaced sessionId r = displaceRow r :=
  if_pos h

theorem kept_displaced (sessionId : String) (r : UserPromptQueueEntryRecord) :
    Kept r (displaced sessionId r) := by
  unfold displaced
  split
  · exact Kept.refl _
  · exact Kept.refl _

theorem kept_renumbered (sessionId : String) (merged : List String)
    (r : UserPromptQueueEntryRecord) : Kept r (renumbered sessionId merged r) := by
  unfold renumbered
  split
  · rfl
  · exact kept_displaced sessionId r

/-- The displaced rows of the session are above every ordinal that is written next. -/
theorem le_ordinal_displaced (h : r.sessionId = sessionId) :
    renumberBandOffset ≤ (displaced sessionId r).ordinal := by
  rw [displaced_eq h]
  exact Nat.le_add_left _ _

theorem clear_denseTargets {t₁ : EntryTable} (hrows : t₁.rows = t.rows.map (displaced sessionId))
    (hnodup : merged.Nodup) (hlen : merged.length ≤ maxRetainedPerSession) :
    UniqueTable.Clear (denseTargets sessionId merged) t₁ := by
  have hsmall : ∀ k i, merged[k]? = some i → k < renumberBandOffset := by
    intro k i hk
    have hlt : k < merged.length := (List.getElem?_eq_some_iff.mp hk).1
    have hband : maxRetainedPerSession < renumberBandOffset := by decide
    omega
  refine ⟨by rwa [fst_denseTargets], ?_, ?_, ?_⟩
  · intro c hc r
    obtain ⟨k, _, hplace⟩ := mem_denseTargets.mp hc
    rw [hplace]
    exact (kept_placeRow sessionId k r).id_eq
  · intro before c after hsplit r hr hid r' hr' hne _ heq
    have hc : c ∈ denseTargets sessionId merged := by simp [hsplit]
    obtain ⟨k, hk, hplace⟩ := mem_denseTargets.mp hc
    rw [hplace] at heq
    by_cases hs : r.sessionId = sessionId
    · -- the row gets a small ordinal, and the other one has been displaced
      rw [placeRow, if_pos hs] at heq
      have hpair := Prod.mk.inj heq
      rw [hrows] at hr'
      obtain ⟨s', _, rfl⟩ := List.mem_map.mp hr'
      have hs' : s'.sessionId = sessionId :=
        (kept_displaced sessionId s').session.symm.trans (hpair.1.symm.trans hs)
      have hle := le_ordinal_displaced hs'
      have hlt := hsmall k c.1 hk
      have hordinal : k = (displaced sessionId s').ordinal := hpair.2
      omega
    · rw [placeRow, if_neg hs] at heq
      exact hne (t₁.slot_inj hr' hr heq.symm)
  · intro c hc r hr hid d hd r' hr' hid' hne heq
    obtain ⟨k, hk, hplace⟩ := mem_denseTargets.mp hc
    obtain ⟨l, hl, hplace'⟩ := mem_denseTargets.mp hd
    rw [hplace, hplace'] at heq
    have hsession : r.sessionId = r'.sessionId := by
      have hfst := congrArg Prod.fst heq
      have h1 := (kept_placeRow sessionId k r).session
      have h2 := (kept_placeRow sessionId l r').session
      exact h1.symm.trans (hfst.trans h2)
    by_cases hs : r.sessionId = sessionId
    · rw [placeRow, if_pos hs, placeRow, if_pos (hsession ▸ hs)] at heq
      have hkl : k = l := (Prod.mk.inj heq).2
      subst hkl
      have hcd : c.1 = d.1 := Option.some.inj (hk.symm.trans hl)
      exact hne (t₁.ident_inj hr' hr (hid'.trans (hcd.symm.trans hid.symm)))
    · rw [placeRow, if_neg hs, placeRow, if_neg (hsession ▸ hs)] at heq
      exact hne (t₁.slot_inj hr' hr heq.symm)

theorem denseTargets_rows {t₁ : EntryTable} (hrows : t₁.rows = t.rows.map (displaced sessionId))
    (hnodup : merged.Nodup) (hlen : merged.length ≤ maxRetainedPerSession)
    (hsub : merged ⊆ sessionIds sessionId t) :
    ∃ t₂, t₁.setRows? (denseTargets sessionId merged) = some t₂ ∧
      t₂.rows = t.rows.map (renumbered sessionId merged) := by
  obtain ⟨t₂, ht₂, hrows₂⟩ := setRows?_spec (clear_denseTargets hrows hnodup hlen)
  refine ⟨t₂, ht₂, ?_⟩
  rw [hrows₂, hrows, List.map_map]
  apply List.map_congr_left
  intro r hr
  have hid : (displaced sessionId r).id = r.id := (kept_displaced sessionId r).id_eq
  rw [Function.comp_apply]
  by_cases hmem : r.id ∈ merged
  · obtain ⟨r', hr', hs', hid'⟩ := mem_sessionIds.mp (hsub hmem)
    obtain rfl : r' = r := t.ident_inj hr' hr hid'
    have hget : merged[merged.idxOf r'.id]? = some r'.id :=
      List.getElem?_eq_some_iff.mpr ⟨List.idxOf_lt_length_of_mem hmem, List.getElem_idxOf _⟩
    rw [renumbered, if_pos hmem,
      changed_of_mem (i := r'.id) (f := placeRow sessionId (merged.idxOf r'.id))
        (by rwa [fst_denseTargets]) (fun s => (kept_placeRow sessionId _ s).id_eq)
        (mem_denseTargets.mpr ⟨merged.idxOf r'.id, hget, rfl⟩) hid,
      displaced_eq hs', placeRow, if_pos (show (displaceRow r').sessionId = sessionId from hs')]
    rfl
  · rw [renumbered, if_neg hmem]
    apply changed_of_not_mem
    rwa [fst_denseTargets, hid]

end

end Codegg.PromptQueue
