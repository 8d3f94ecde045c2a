import Codegg.Scheduler.FairQueue

/-!
# The representation invariant of the fair queue

The queue keeps the same jobs in four places: the class lanes, the index, the
total and the per-workspace counts. `located` flattens the lanes into one list of
entries with the class and workspace under which each is stored, and every
operation is described by what it adds to that list or takes out of it. The
invariant relates the other three structures to the list.
-/
namespace Codegg.Scheduler

open Codegg.Library FairJobQueue SortedMap LaneQueue

variable {J W : Type} [LinearOrder W]

variable {q : FairJobQueue J W} {w : W} {e : QueueEntry J W} {q' : LaneQueue J W} {j : J}
  {c : PriorityClass} {ts : List (J × W)}

namespace LaneQueue

/-- The entries of one class with the workspace key of their lane. -/
def located (q : LaneQueue J W) : List (W × QueueEntry J W) :=
  q.lanes.bag (fun w lane => lane.entries.map (fun e => (w, e)))

@[simp] theorem located_new (c : PriorityClass) : (new c : LaneQueue J W).located = [] := rfl

theorem mem_located {q : LaneQueue J W} :
    (w, e) ∈ q.located ↔ ∃ lane, q.lanes.get? w = some lane ∧ e ∈ lane.entries := by
  simp only [located, mem_bag, List.mem_map, Prod.mk.injEq]
  constructor
  · rintro ⟨w', lane, hl, e', he, rfl, rfl⟩
    exact ⟨lane, hl, he⟩
  · rintro ⟨lane, hl, he⟩
    exact ⟨w, lane, hl, e, he, rfl, rfl⟩

theorem total_eq (q : LaneQueue J W) : q.total = q.located.length := by
  simp [total, located, bag, values, Function.comp_def]

theorem hasEntry_iff {q : LaneQueue J W} :
    q.hasEntry w = true ↔ ∃ e, (w, e) ∈ q.located := by
  simp only [mem_located, hasEntry]
  cases h : q.lanes.get? w with
  | none => simp
  | some lane => cases hl : lane.entries <;> simp [hl]

theorem located_admitEntry (q : LaneQueue J W) (e : QueueEntry J W) :
    (q.admitEntry e).located.Perm ((e.workspaceId, e) :: q.located) := by
  refine bag_upsert [(e.workspaceId, e)] ?_
  cases h : q.lanes.get? e.workspaceId with
  | none => simp [WorkspaceLane.push]
  | some lane =>
    simp only [WorkspaceLane.push, List.map_append]
    exact List.perm_append_comm

/-- The selected lane has an entry. -/
theorem hasEntry_of_selectNext {q : LaneQueue J W} (h : q.selectNext = some w) :
    q.hasEntry w = true := by
  simp only [selectNext, Option.or_eq_some_iff] at h
  rcases h with h | ⟨-, h⟩
  · have := List.find?_some h
    simp only [Bool.and_eq_true] at this
    exact this.2
  · exact List.find?_some h

/-- A class with an entry has a selected lane. -/
theorem exists_selectNext {q : LaneQueue J W} (h : q.located ≠ []) :
    ∃ w, q.selectNext = some w := by
  obtain ⟨⟨w, e⟩, hm⟩ := List.exists_mem_of_ne_nil _ h
  have hw : q.hasEntry w = true := hasEntry_iff.mpr ⟨e, hm⟩
  obtain ⟨lane, hl, -⟩ := mem_located.mp hm
  have hsome : (q.lanes.keys.find? q.hasEntry).isSome := by
    rw [List.find?_isSome]
    exact ⟨w, (q.lanes.mem_keys_iff w).mpr ⟨lane, hl⟩, hw⟩
  obtain ⟨w', hw'⟩ := Option.isSome_iff_exists.mp hsome
  rw [selectNext, hw']
  cases q.lanes.keys.find? (fun ws => !decide (q.cursor = some ws) && q.hasEntry ws) with
  | none => exact ⟨w', rfl⟩
  | some w'' => exact ⟨w'', rfl⟩

/-- What the removal of the head of the selected lane does. -/
theorem popFront_spec {q : LaneQueue J W} (h : q.popFront = some (e, q')) :
    ∃ w lane, q.selectNext = some w ∧ q.lanes.get? w = some lane ∧ lane.entries.head? = some e ∧
      q' = { q with
        lanes := q.lanes.modify w (fun l => { l with entries := l.entries.tail }) } := by
  simp only [popFront, Option.bind_eq_bind, Option.bind_eq_some_iff, Option.some.injEq,
    Prod.mk.injEq] at h
  obtain ⟨w, hw, lane, hl, e', he, rfl, hq⟩ := h
  exact ⟨w, lane, hw, hl, he, hq.symm⟩

theorem located_popFront {q : LaneQueue J W} (h : q.popFront = some (e, q')) :
    ∃ w, q.selectNext = some w ∧ q.located.Perm ((w, e) :: q'.located) := by
  obtain ⟨w, lane, hw, hl, he, rfl⟩ := popFront_spec h
  refine ⟨w, hw, bag_modify [(w, e)] hl ?_⟩
  obtain ⟨rest, hrest⟩ : ∃ rest, lane.entries = e :: rest :=
    List.head?_eq_some_iff.mp he
  simp [hrest]

theorem exists_popFront {q : LaneQueue J W} (h : q.located ≠ []) :
    ∃ e q', q.popFront = some (e, q') := by
  obtain ⟨w, hw⟩ := exists_selectNext h
  obtain ⟨e, hm⟩ := hasEntry_iff.mp (hasEntry_of_selectNext hw)
  obtain ⟨lane, hl, he⟩ := mem_located.mp hm
  obtain ⟨e', he'⟩ : ∃ e', lane.entries.head? = some e' := by
    cases hc : lane.entries with
    | nil => simp [hc] at he
    | cons a l => exact ⟨a, rfl⟩
  simp only [popFront, hw, hl, he', Option.bind_eq_bind, Option.bind_some]
  exact ⟨_, _, rfl⟩

variable [DecidableEq J]

theorem located_removeByIdInWorkspace {q : LaneQueue J W}
    (h : q.removeByIdInWorkspace j w = some (e, q')) :
    e.jobId = j ∧ q.located.Perm ((w, e) :: q'.located) := by
  simp only [removeByIdInWorkspace, Option.bind_eq_bind, Option.bind_eq_some_iff,
    Option.some.injEq, Prod.mk.injEq] at h
  obtain ⟨lane, hl, e', he, rfl, rfl⟩ := h
  refine ⟨by simpa using List.find?_some he, bag_modify [(w, e')] hl ?_⟩
  have hperm : lane.entries.Perm (e' :: lane.entries.eraseP (fun x => x.jobId = j)) := by
    obtain ⟨hj, as, bs, hsplit, has⟩ := List.find?_eq_some_iff_append.mp he
    have hnone : ∀ a ∈ as, ¬ decide (a.jobId = j) = true := by
      intro a ha
      simpa using has a ha
    rw [hsplit, List.eraseP_append_right _ hnone,
      List.eraseP_cons_of_pos (p := fun x : QueueEntry J W => decide (x.jobId = j)) hj]
    exact List.perm_middle
  simpa using hperm.map (fun x => (w, x))

theorem removeByIdInWorkspace_eq_none {q : LaneQueue J W} :
    q.removeByIdInWorkspace j w = none ↔ ∀ e, (w, e) ∈ q.located → e.jobId ≠ j := by
  simp only [removeByIdInWorkspace, Option.bind_eq_bind, mem_located]
  cases hl : q.lanes.get? w with
  | none => simp
  | some lane =>
    cases hf : lane.entries.find? (fun e => decide (e.jobId = j)) with
    | none =>
      have hnone := List.find?_eq_none.mp hf
      simpa [hf] using hnone
    | some e =>
      have hj := List.find?_some hf
      have hm := List.mem_of_find?_eq_some hf
      simp only [hf, Option.bind_some, reduceCtorEq, false_iff, not_forall]
      exact ⟨e, ⟨lane, rfl, hm⟩, by simpa using hj⟩

theorem located_removeById {q : LaneQueue J W} (h : q.removeById j = some (e, q')) :
    e.jobId = j ∧ ∃ w, q.located.Perm ((w, e) :: q'.located) := by
  obtain ⟨w, -, hw⟩ := List.exists_of_findSome?_eq_some h
  obtain ⟨hj, hp⟩ := located_removeByIdInWorkspace hw
  exact ⟨hj, w, hp⟩

theorem removeById_eq_none {q : LaneQueue J W} :
    q.removeById j = none ↔ ∀ x ∈ q.located, x.2.jobId ≠ j := by
  simp only [removeById, List.findSome?_eq_none_iff, removeByIdInWorkspace_eq_none]
  constructor
  · rintro h ⟨w, e⟩ hm
    obtain ⟨lane, hl, -⟩ := mem_located.mp hm
    exact h w ((q.lanes.mem_keys_iff w).mpr ⟨lane, hl⟩) e hm
  · intro h w _ e hm
    exact h (w, e) hm

end LaneQueue

namespace FairJobQueue

/-- An entry with the class and the workspace of the lane that holds it. -/
abbrev Located (J W : Type) := PriorityClass × W × QueueEntry J W

/-- All entries of a map of class queues, with their places. -/
def locatedIn (lanes : SortedMap PriorityClass (LaneQueue J W)) : List (Located J W) :=
  lanes.bag (fun c queue => queue.located.map (fun x => (c, x)))

def located (q : FairJobQueue J W) : List (Located J W) := locatedIn q.lanes

theorem mem_locatedIn {lanes : SortedMap PriorityClass (LaneQueue J W)} {x : W × QueueEntry J W} :
    (c, x) ∈ locatedIn lanes ↔ ∃ queue, lanes.get? c = some queue ∧ x ∈ queue.located := by
  simp only [locatedIn, SortedMap.mem_bag, List.mem_map, Prod.mk.injEq]
  constructor
  · rintro ⟨c', queue, hq, x', hx, rfl, rfl⟩
    exact ⟨queue, hq, hx⟩
  · rintro ⟨queue, hq, hx⟩
    exact ⟨c, queue, hq, x, hx, rfl, rfl⟩

/-- The cursors are not part of the contents. -/
@[simp] theorem locatedIn_setCursor (lanes : SortedMap PriorityClass (LaneQueue J W))
    (c : PriorityClass) (cursor : Option W) :
    locatedIn (setCursor lanes c cursor) = locatedIn lanes := by
  simp only [locatedIn, setCursor, SortedMap.bag, SortedMap.modify, List.flatMap_map]
  congr 1
  funext p
  split_ifs <;> rfl

/-- Admitting an entry into its class adds it in its own place. -/
theorem locatedIn_admitEntry (lanes : SortedMap PriorityClass (LaneQueue J W))
    (e : QueueEntry J W) :
    (locatedIn (lanes.upsert e.effectiveClass
      (fun queue => (queue.getD (.new e.effectiveClass)).admitEntry e))).Perm
      ((e.effectiveClass, e.workspaceId, e) :: locatedIn lanes) := by
  refine SortedMap.bag_upsert [(e.effectiveClass, e.workspaceId, e)] ?_
  cases lanes.get? e.effectiveClass with
  | none =>
    simpa using ((LaneQueue.new e.effectiveClass).located_admitEntry e).map
      (fun x => (e.effectiveClass, x))
  | some queue => simpa using (queue.located_admitEntry e).map (fun x => (e.effectiveClass, x))

/-- Replacing a class queue by one that lost an entry takes that entry out. -/
theorem locatedIn_remove {lanes : SortedMap PriorityClass (LaneQueue J W)} {queue : LaneQueue J W}
    {u : LaneQueue J W → LaneQueue J W} (hq : lanes.get? c = some queue)
    (h : queue.located.Perm ((w, e) :: (u queue).located)) :
    (locatedIn lanes).Perm ((c, w, e) :: locatedIn (lanes.modify c u)) := by
  refine bag_modify [(c, w, e)] hq ?_
  simpa using h.map (fun x => (c, x))

theorem locatedIn_removeFirst {f : LaneQueue J W → Option (QueueEntry J W × LaneQueue J W)}
    {lanes : SortedMap PriorityClass (LaneQueue J W)} (h : q.removeFirst f = some (e, lanes))
    (hf : ∀ queue queue', f queue = some (e, queue') →
      ∃ w, queue.located.Perm ((w, e) :: queue'.located)) :
    ∃ c w queue queue', f queue = some (e, queue') ∧
      q.located.Perm ((c, w, e) :: locatedIn lanes) := by
  obtain ⟨⟨c, queue⟩, hm, hr⟩ := List.exists_of_findSome?_eq_some h
  simp only [Option.map_eq_some_iff, Prod.exists] at hr
  obtain ⟨e', queue', hqueue, rfl, rfl⟩ := hr
  obtain ⟨w, hw⟩ := hf queue queue' hqueue
  exact ⟨c, w, queue, queue', hqueue,
    locatedIn_remove ((q.lanes.mem_toList_iff c queue).mp hm) hw⟩

/-! ### The invariant -/

/-- The job and the workspace of a stored entry. -/
def ticket (x : Located J W) : J × W := (x.2.2.jobId, x.2.2.workspaceId)

/-- The index and the counts describe exactly the tickets `ts`. -/
structure Accounts (q : FairJobQueue J W) (ts : List (J × W)) : Prop where
  nodup : (ts.map Prod.fst).Nodup
  index : ∀ j w, q.jobIndex j = some w ↔ (j, w) ∈ ts
  total : q.totalCount = ts.length
  perWorkspace : ∀ w, (q.perWorkspaceCount w).getD 0 = ts.countP (fun t => t.2 = w)
  total_le : q.totalCount ≤ q.cfg.queue.maxTotal
  perWorkspace_le : ∀ w, (q.perWorkspaceCount w).getD 0 ≤ q.cfg.queue.maxPerWorkspace

/-- Every entry is stored under its own class and workspace, and is accounted for. -/
structure Inv (q : FairJobQueue J W) : Prop where
  placed : ∀ x ∈ q.located, x.1 = x.2.2.effectiveClass ∧ x.2.1 = x.2.2.workspaceId
  accounts : Accounts q (q.located.map ticket)

namespace Accounts

theorem perm {ts' : List (J × W)} (h : Accounts q ts) (hp : ts.Perm ts') : Accounts q ts' where
  nodup := (hp.map Prod.fst).nodup_iff.mp h.nodup
  index j w := (h.index j w).trans hp.mem_iff
  total := h.total.trans hp.length_eq
  perWorkspace w := (h.perWorkspace w).trans (hp.countP_eq _)
  total_le := h.total_le
  perWorkspace_le := h.perWorkspace_le

theorem index_eq_none_iff (h : Accounts q ts) : q.jobIndex j = none ↔ j ∉ ts.map Prod.fst := by
  constructor
  · intro hn hm
    obtain ⟨⟨j', w⟩, hm', rfl⟩ := List.mem_map.mp hm
    have := (h.index j' w).mpr hm'
    simp [hn] at this
  · intro hm
    cases hi : q.jobIndex j with
    | none => rfl
    | some w => exact absurd (List.mem_map_of_mem ((h.index j w).mp hi)) hm

end Accounts

theorem inv_new (cfg : ResolvedSchedulerConfig) : Inv (new cfg : FairJobQueue J W) where
  placed := by simp [located, locatedIn, new]
  accounts :=
    { nodup := by simp [located, locatedIn, new]
      index := by simp [located, locatedIn, new]
      total := by simp [located, locatedIn, new]
      perWorkspace := by simp [located, locatedIn, new]
      total_le := by simp [new]
      perWorkspace_le := by simp [new] }

/-! ### Operations -/

variable [DecidableEq J]

/-- A successful removal takes out one entry, of the job asked for. -/
theorem located_removeEntry {lanes : SortedMap PriorityClass (LaneQueue J W)}
    (h : q.removeEntry j = some (e, lanes)) :
    e.jobId = j ∧ ∃ c w, q.located.Perm ((c, w, e) :: locatedIn lanes) := by
  have hscan : q.removeFirst (fun queue => queue.removeById j) = some (e, lanes) →
      e.jobId = j ∧ ∃ c w, q.located.Perm ((c, w, e) :: locatedIn lanes) := by
    intro hs
    obtain ⟨c, w, queue, queue', hf, hp⟩ := locatedIn_removeFirst hs
      (fun queue queue' hf => (located_removeById hf).2)
    exact ⟨(located_removeById hf).1, c, w, hp⟩
  simp only [removeEntry] at h
  cases hi : q.jobIndex j with
  | none =>
    rw [hi] at h
    exact hscan h
  | some ws =>
    rw [hi] at h
    rcases Option.or_eq_some_iff.mp h with hw | ⟨-, hs⟩
    · obtain ⟨c, w, queue, queue', hf, hp⟩ := locatedIn_removeFirst hw
        (fun queue queue' hf => ⟨ws, (located_removeByIdInWorkspace hf).2⟩)
      exact ⟨(located_removeByIdInWorkspace hf).1, c, w, hp⟩
    · exact hscan hs

/-- Only a job that is not queued is not found. -/
theorem not_mem_of_removeEntry_eq_none (h : q.removeEntry j = none) :
    ∀ x ∈ q.located, x.2.2.jobId ≠ j := by
  have hscan : q.removeFirst (fun queue => queue.removeById j) = none := by
    simp only [removeEntry] at h
    cases hi : q.jobIndex j with
    | none => rwa [hi] at h
    | some ws =>
      rw [hi] at h
      exact (Option.or_eq_none_iff.mp h).2
  simp only [removeFirst, List.findSome?_eq_none_iff, Option.map_eq_none_iff] at hscan
  rintro ⟨c, x⟩ hm
  obtain ⟨queue, hq, hx⟩ := mem_locatedIn.mp hm
  exact removeById_eq_none.mp
    (hscan (c, queue) ((q.lanes.mem_toList_iff c queue).mpr hq)) x hx

/-- Accounting for the departure of one entry. -/
theorem Accounts.forget (h : Accounts q ((e.jobId, e.workspaceId) :: ts)) :
    Accounts (q.forget e) ts := by
  have hnodup := h.nodup
  rw [List.map_cons, List.nodup_cons] at hnodup
  have htotal := h.total
  have hcount : ∀ w, ((q.forget e).perWorkspaceCount w).getD 0 =
      ts.countP (fun t => t.2 = w) := by
    intro w
    have hw := h.perWorkspace w
    rw [List.countP_cons] at hw
    by_cases hwe : w = e.workspaceId
    · subst hwe
      cases hc : q.perWorkspaceCount e.workspaceId with
      | none => simp [hc] at hw
      | some n =>
        simp only [hc, Option.getD_some] at hw
        simp [FairJobQueue.forget, hc, hw]
    · simp only [Ne.symm hwe] at hw
      simpa [FairJobQueue.forget, Function.update_of_ne hwe] using hw
  refine ⟨hnodup.2, ?_, ?_, hcount, ?_, ?_⟩
  · intro j w
    by_cases hj : j = e.jobId
    · subst hj
      simp only [FairJobQueue.forget, Function.update_self, reduceCtorEq, false_iff]
      exact fun hm => hnodup.1 (List.mem_map.mpr ⟨(e.jobId, w), hm, rfl⟩)
    · simp [FairJobQueue.forget, h.index, hj]
  · simp [FairJobQueue.forget, htotal]
  · exact (Nat.sub_le _ _).trans h.total_le
  · intro w
    refine le_trans ?_ (h.perWorkspace_le w)
    rw [hcount w, h.perWorkspace w]
    exact (List.sublist_cons_self _ _).countP_le

/-- An indexed job is found in the lanes of its workspace: the index is never stale. -/
theorem Inv.exists_indexed (h : Inv q) (hi : q.jobIndex j = some w) :
    ∃ e, q.indexed j w = some e ∧ e.jobId = j := by
  obtain ⟨⟨c, w', e⟩, hx, ht⟩ := List.mem_map.mp ((h.accounts.index j w).mp hi)
  simp only [ticket, Prod.mk.injEq] at ht
  obtain ⟨hj, hw⟩ := ht
  have hw' : w' = w := (h.placed _ hx).2.trans hw
  subst hw'
  obtain ⟨queue, hq, hm⟩ := mem_locatedIn.mp hx
  obtain ⟨lane, hl, he⟩ := mem_located.mp hm
  have hsome : (q.indexed j w').isSome := by
    rw [indexed, List.find?_isSome]
    refine ⟨e, ?_, by simpa using hj⟩
    rw [List.mem_flatMap]
    refine ⟨lane, ?_, he⟩
    rw [List.mem_filterMap]
    exact ⟨queue, List.mem_map_of_mem ((q.lanes.mem_toList_iff c queue).mpr hq), hl⟩
  obtain ⟨e', he'⟩ := Option.isSome_iff_exists.mp hsome
  exact ⟨e', he', by simpa using List.find?_some he'⟩

/-- An insertion either accepts a job that was not queued, or changes nothing. -/
theorem Inv.insert_cases (h : Inv q) (e : QueueEntry J W) :
    (q.jobIndex e.jobId = none ∧ q.totalCount < q.cfg.queue.maxTotal ∧
      (q.perWorkspaceCount e.workspaceId).getD 0 < q.cfg.queue.maxPerWorkspace ∧
      q.insert e = q.insertFresh e ∧ (q.insert e).1 = .ok none) ∨
    ((q.insert e).1 ≠ .ok none ∧ (q.insert e).2 = q) := by
  cases hi : q.jobIndex e.jobId with
  | some w =>
    obtain ⟨p, hp, -⟩ := h.exists_indexed hi
    simp [insert, hi, hp]
  | none =>
    simp only [insert, hi, insertFresh]
    split_ifs with h1 h2
    · simp
    · simp
    · left
      exact ⟨trivial, not_le.mp h1, not_le.mp h2, trivial, rfl⟩

theorem located_insertFresh (h1 : q.totalCount < q.cfg.queue.maxTotal)
    (h2 : (q.perWorkspaceCount e.workspaceId).getD 0 < q.cfg.queue.maxPerWorkspace) :
    (q.insertFresh e).2.located.Perm ((e.effectiveClass, e.workspaceId, e) :: q.located) := by
  rw [insertFresh, if_neg (not_le.mpr h1), if_neg (not_le.mpr h2)]
  exact locatedIn_admitEntry q.lanes e

theorem Accounts.insertFresh (h : Accounts q ts) (hi : q.jobIndex e.jobId = none)
    (h1 : q.totalCount < q.cfg.queue.maxTotal)
    (h2 : (q.perWorkspaceCount e.workspaceId).getD 0 < q.cfg.queue.maxPerWorkspace) :
    Accounts (q.insertFresh e).2 ((e.jobId, e.workspaceId) :: ts) := by
  have hnew := h.index_eq_none_iff.mp hi
  rw [FairJobQueue.insertFresh, if_neg (not_le.mpr h1), if_neg (not_le.mpr h2)]
  refine ⟨?_, ?_, ?_, ?_, ?_, ?_⟩
  · exact List.nodup_cons.mpr ⟨hnew, h.nodup⟩
  · intro j w
    by_cases hj : j = e.jobId
    · subst hj
      have hno : (e.jobId, w) ∉ ts := fun hm => hnew (List.mem_map_of_mem hm)
      simp [hno, eq_comm]
    · simp [h.index, hj]
  · simp [h.total]
  · intro w
    rw [List.countP_cons, ← h.perWorkspace w]
    by_cases hw : w = e.workspaceId
    · subst hw
      simp
    · simp [Function.update_of_ne hw, Ne.symm hw]
  · exact h1
  · intro w
    by_cases hw : w = e.workspaceId
    · subst hw
      simpa using h2
    · simpa [Function.update_of_ne hw] using h.perWorkspace_le w

/-! ### Aging -/

omit [DecidableEq J] in
theorem locatedIn_aged (q : FairJobQueue J W) (now : ℤ) :
    locatedIn (q.aged now) =
      q.located.map (fun x => (x.1, x.2.1, x.2.2.recomputeAging q.cfg now)) := by
  simp only [located, locatedIn, aged, LaneQueue.located, bag, mapValues,
    List.flatMap_map, List.map_flatMap, List.map_map, Function.comp_def]

omit [DecidableEq J] in
theorem promotions_eq (q : FairJobQueue J W) (now : ℤ) :
    q.promotions now = (q.located.filter (fun x =>
        decide ((x.2.2.recomputeAging q.cfg now).effectiveClass ≠ x.2.2.effectiveClass))).map
      (fun x => (x.1, x.2.2.recomputeAging q.cfg now)) := by
  simp only [promotions, located, locatedIn, LaneQueue.located, bag,
    List.map_flatMap, List.filter_flatMap, List.map_map, List.filter_map]
  congr 1
  funext p
  congr 1
  funext r
  induction r.2.entries with
  | nil => rfl
  | cons e es ih =>
    by_cases h : (e.recomputeAging q.cfg now).effectiveClass = e.effectiveClass
    · simpa [h] using ih
    · simpa [h] using ih

/-- Promoting one entry moves it to its own class and leaves the rest in place. -/
theorem locatedIn_promote {lanes : SortedMap PriorityClass (LaneQueue J W)}
    {xs : List (Located J W)} (h : (locatedIn lanes).Perm ((c, w, e) :: xs))
    (hnodup : ((locatedIn lanes).map (fun x => x.2.2.jobId)).Nodup) :
    (locatedIn (promote lanes (c, e))).Perm ((e.effectiveClass, e.workspaceId, e) :: xs) := by
  have hmem : (c, w, e) ∈ locatedIn lanes := h.mem_iff.mpr List.mem_cons_self
  obtain ⟨queue, hq, hx⟩ := mem_locatedIn.mp hmem
  obtain ⟨⟨e', queue'⟩, hr⟩ : ∃ r, queue.removeById e.jobId = some r := by
    by_contra hno
    have hnone := Option.eq_none_iff_forall_ne_some.mpr (fun r hr => hno ⟨r, hr⟩)
    exact removeById_eq_none.mp hnone (w, e) hx rfl
  obtain ⟨hj, w', hp⟩ := located_removeById hr
  have hrem : (locatedIn lanes).Perm ((c, w', e') :: locatedIn (lanes.modify c
      (fun queue => ((queue.removeById e.jobId).map Prod.snd).getD queue))) :=
    locatedIn_remove hq (by simpa [hr] using hp)
  have hsame : (c, w', e') = (c, w, e) :=
    List.inj_on_of_nodup_map hnodup (hrem.mem_iff.mpr List.mem_cons_self) hmem hj
  rw [hsame] at hrem
  have hxs := (hrem.symm.trans h).cons_inv
  exact (locatedIn_admitEntry _ e).trans (hxs.cons _)

/-- Promoting a list of entries moves each of them to its own class. -/
theorem locatedIn_foldl_promote (ps : List (Located J W))
    {lanes : SortedMap PriorityClass (LaneQueue J W)} {xs : List (Located J W)}
    (h : (locatedIn lanes).Perm (ps ++ xs))
    (hnodup : ((locatedIn lanes).map (fun x => x.2.2.jobId)).Nodup) :
    (locatedIn ((ps.map (fun x => (x.1, x.2.2))).foldl promote lanes)).Perm
      (ps.map (fun x => (x.2.2.effectiveClass, x.2.2.workspaceId, x.2.2)) ++ xs) := by
  induction ps generalizing lanes xs with
  | nil => simpa using h
  | cons p ps ih =>
    obtain ⟨c, w, e⟩ := p
    have hstep := locatedIn_promote h hnodup
    have hnodup' : ((locatedIn (promote lanes (c, e))).map (fun x => x.2.2.jobId)).Nodup := by
      have hids := (hstep.map (fun x => x.2.2.jobId)).trans (h.map (fun x => x.2.2.jobId)).symm
      exact hids.nodup_iff.mpr hnodup
    have hmid : (locatedIn (promote lanes (c, e))).Perm
        (ps ++ (e.effectiveClass, e.workspaceId, e) :: xs) :=
      hstep.trans List.perm_middle.symm
    exact (ih hmid hnodup').trans List.perm_middle

/-- Aging re-files every entry under its recomputed class. -/
theorem Inv.located_recomputeAging (h : Inv q) (now : ℤ) :
    (q.recomputeAging now).located.Perm (q.located.map (fun x =>
      ((x.2.2.recomputeAging q.cfg now).effectiveClass, x.2.1,
        x.2.2.recomputeAging q.cfg now))) := by
  let age : Located J W → Located J W := fun x => (x.1, x.2.1, x.2.2.recomputeAging q.cfg now)
  let changed : Located J W → Bool := fun x =>
    decide ((x.2.2.recomputeAging q.cfg now).effectiveClass ≠ x.2.2.effectiveClass)
  have hsplit : (locatedIn (q.aged now)).Perm
      ((q.located.filter changed).map age ++ (q.located.filter (fun x => !changed x)).map age) := by
    rw [locatedIn_aged, ← List.map_append]
    exact (List.filter_append_perm changed q.located).symm.map age
  have hnodup : ((locatedIn (q.aged now)).map (fun x => x.2.2.jobId)).Nodup := by
    have hn := h.accounts.nodup
    rw [List.map_map] at hn
    rw [locatedIn_aged, List.map_map]
    exact hn
  have hfold := locatedIn_foldl_promote _ hsplit hnodup
  have hps : q.promotions now =
      ((q.located.filter changed).map age).map (fun x => (x.1, x.2.2)) := by
    rw [promotions_eq, List.map_map]
    rfl
  rw [← hps, List.map_map] at hfold
  refine hfold.trans ?_
  refine List.Perm.trans ?_ ((List.filter_append_perm changed q.located).map _)
  rw [List.map_append]
  refine List.Perm.append (List.Perm.of_eq ?_) (List.Perm.of_eq ?_)
  · refine List.map_congr_left (fun x hx => ?_)
    have hw := (h.placed x (List.mem_of_mem_filter hx)).2
    simp [age, QueueEntry.recomputeAging, hw]
  · refine List.map_congr_left (fun x hx => ?_)
    have hc := (h.placed x (List.mem_of_mem_filter hx)).1
    have hsame : (x.2.2.recomputeAging q.cfg now).effectiveClass = x.2.2.effectiveClass := by
      simpa [changed] using (List.mem_filter.mp hx).2
    simp [age, hsame, hc]

/-! ### Selection and peeking -/

omit [DecidableEq J] in
theorem exists_pickClass_of_located (h : q.pickClass = some c) :
    ∃ queue, q.lanes.get? c = some queue ∧ queue.located ≠ [] := by
  simp only [pickClass, Option.map_eq_some_iff, Prod.exists] at h
  obtain ⟨c', queue, hf, rfl⟩ := h
  refine ⟨queue, (q.lanes.mem_toList_iff c' queue).mp (List.mem_of_find?_eq_some hf), ?_⟩
  have hp := List.find?_some hf
  intro hnil
  simp [total_eq, hnil] at hp

/-- What a successful selection does: the head of the chosen lane is taken out and
forgotten, the burst counter and the cursor of the class advance. -/
theorem selectNext_cases {q' : FairJobQueue J W} {o : SelectionOutcome J W}
    (h : q.selectNext = some (o, q')) :
    ∃ queue queue' w, q.pickClass = some o.class_ ∧ q.lanes.get? o.class_ = some queue ∧
      queue.popFront = some (o.entry, queue') ∧ queue.selectNext = some w ∧
      q.located.Perm ((o.class_, w, o.entry) :: q'.located) ∧
      q' = { q.forget o.entry with
        highPriorityBurst := bumpBurst q.highPriorityBurst o.class_
        lanes := setCursor (q.lanes.modify o.class_ (fun _ => queue')) o.class_
          (some o.entry.workspaceId) } := by
  simp only [selectNext] at h
  split_ifs at h with h0
  simp only [Option.bind_eq_bind, Option.bind_eq_some_iff, Prod.exists] at h
  obtain ⟨c, hc, queue, hq, e, queue', hpop, rfl, rfl⟩ := h
  obtain ⟨w, hw, hp⟩ := located_popFront hpop
  refine ⟨queue, queue', w, hc, hq, hpop, hw, ?_, rfl⟩
  have hrem := locatedIn_remove (u := fun _ => queue') hq hp
  simpa [located, forget] using hrem

omit [DecidableEq J] in
/-- Two maps of class queues that differ in their cursors at most. -/
def SameUpToCursors (lanes lanes' : SortedMap PriorityClass (LaneQueue J W)) : Prop :=
  ∀ c cursor, (lanes.get? c).map (fun queue => { queue with cursor }) =
    (lanes'.get? c).map (fun queue => { queue with cursor })

omit [DecidableEq J] in
theorem sameUpToCursors_setCursor (lanes : SortedMap PriorityClass (LaneQueue J W))
    (c : PriorityClass) (cursor : Option W) :
    SameUpToCursors lanes (setCursor lanes c cursor) := by
  intro c' cursor'
  rw [setCursor, get?_modify]
  split_ifs with h
  · rw [h, Option.map_map]
    rfl
  · rfl

omit [DecidableEq J] in
/-- Peeking moves nothing but cursors and the burst counter. -/
theorem peekLoop_spec (limit : ℕ) (q : FairJobQueue J W) :
    ∃ lanes burst, (peekLoop limit q).2 = { q with lanes, highPriorityBurst := burst } ∧
      SameUpToCursors q.lanes lanes := by
  induction limit generalizing q with
  | zero => exact ⟨q.lanes, q.highPriorityBurst, rfl, fun _ _ => rfl⟩
  | succ limit ih =>
    simp only [peekLoop]
    split
    · exact ⟨q.lanes, q.highPriorityBurst, rfl, fun _ _ => rfl⟩
    · next c e heq =>
      obtain ⟨lanes, burst, hq, hsame⟩ := ih { q with
        lanes := setCursor q.lanes c (some e.workspaceId)
        highPriorityBurst := bumpBurst q.highPriorityBurst c }
      refine ⟨lanes, burst, hq, ?_⟩
      intro c' cursor
      rw [sameUpToCursors_setCursor q.lanes c (some e.workspaceId) c' cursor, hsame c' cursor]

omit [DecidableEq J] in
/-- Writing back a list of cursors, one per class. -/
theorem get?_foldl_setCursor (saved : List (PriorityClass × Option W))
    (hnodup : (saved.map Prod.fst).Nodup) (lanes : SortedMap PriorityClass (LaneQueue J W))
    (c : PriorityClass) :
    (saved.foldl (fun lanes p => setCursor lanes p.1 p.2) lanes).get? c =
      match saved.find? (fun p => p.1 = c) with
      | some p => (lanes.get? c).map (fun queue => { queue with cursor := p.2 })
      | none => lanes.get? c := by
  induction saved generalizing lanes with
  | nil => rfl
  | cons p saved ih =>
    rw [List.map_cons, List.nodup_cons] at hnodup
    rw [List.foldl_cons, ih hnodup.2, setCursor, get?_modify]
    by_cases hp : p.1 = c
    · have hnone : saved.find? (fun p => p.1 = c) = none := by
        rw [List.find?_eq_none]
        intro r hr hrc
        simp only [decide_eq_true_eq] at hrc
        exact hnodup.1 (List.mem_map.mpr ⟨r, hr, hrc.trans hp.symm⟩)
      simp [hnone, hp]
    · simp [hp, Ne.symm hp]

omit [DecidableEq J] in
theorem find?_savedCursors (lanes : SortedMap PriorityClass (LaneQueue J W))
    (c : PriorityClass) :
    (lanes.toList.map (fun p => (p.1, p.2.cursor))).find? (fun p => p.1 = c) =
      (lanes.get? c).map (fun queue => (c, queue.cursor)) := by
  rw [List.find?_map, get?, Option.map_map]
  cases hf : lanes.toList.find? (fun p => decide (p.1 = c)) with
  | none => rw [Function.comp_def, hf, Option.map_none, Option.map_none]
  | some p =>
    have hp : p.1 = c := by simpa using List.find?_some hf
    rw [Function.comp_def, hf, Option.map_some, Option.map_some, Function.comp_apply, hp]

omit [DecidableEq J] in
/-- Peeking leaves the queue exactly as it was. -/
theorem peekCandidates_snd (q : FairJobQueue J W) (limit : ℕ) :
    (q.peekCandidates limit).2 = q := by
  simp only [peekCandidates]
  split_ifs with h0
  · rfl
  · obtain ⟨lanes, burst, hq, hsame⟩ := peekLoop_spec limit q
    have hlanes : (q.lanes.toList.map (fun p => (p.1, p.2.cursor))).foldl
        (fun lanes p => setCursor lanes p.1 p.2) lanes = q.lanes := by
      refine ext_get? (fun c => ?_)
      have hnodup : ((q.lanes.toList.map (fun p => (p.1, p.2.cursor))).map Prod.fst).Nodup := by
        rw [List.map_map]
        exact q.lanes.keys_nodup
      rw [get?_foldl_setCursor _ hnodup, find?_savedCursors]
      cases hc : q.lanes.get? c with
      | none => simpa [hc] using (hsame c none).symm
      | some queue =>
        have hs := (hsame c queue.cursor).symm
        rwa [hc, Option.map_some] at hs
    simp only [hq, hlanes]

/-! ### Whole runs -/

/-- The operations of the queue. -/
inductive QueueOp (J W : Type)
  | insert (e : QueueEntry J W)
  | remove (jobId : J) (reason : QueueRemovalReason)
  | recomputeAging (now : ℤ)
  | selectNext
  | peekCandidates (limit : ℕ)

/-- The queue after one operation. -/
def apply (q : FairJobQueue J W) : QueueOp J W → FairJobQueue J W
  | .insert e => (q.insert e).2
  | .remove j reason => (q.remove j reason).2
  | .recomputeAging now => q.recomputeAging now
  | .selectNext => (q.selectNext.map Prod.snd).getD q
  | .peekCandidates limit => (q.peekCandidates limit).2

/-- The payloads of the jobs that were inserted and neither removed nor selected
since: what a caller expects the queue to hold. -/
abbrev Ledger (J W : Type) := J → Option (QueueEntry J W)

/-- The ledger after one operation on `q`. -/
def Ledger.apply (live : Ledger J W) (q : FairJobQueue J W) : QueueOp J W → Ledger J W
  | .insert e =>
    match (q.insert e).1 with
    | .ok none => Function.update live e.jobId (some e)
    | _ => live
  | .remove j _ => Function.update live j none
  | .recomputeAging _ => live
  | .selectNext =>
    match q.selectNext with
    | some (o, _) => Function.update live o.entry.jobId none
    | none => live
  | .peekCandidates _ => live

/-- Run a list of operations, keeping the ledger beside the queue. -/
def runOps : FairJobQueue J W × Ledger J W → List (QueueOp J W) → FairJobQueue J W × Ledger J W
  | s, [] => s
  | s, op :: ops => runOps (s.1.apply op, s.2.apply s.1 op) ops

/-- The queue holds the jobs of the ledger, with the payload they were inserted
with up to the effective class. -/
structure Holds (q : FairJobQueue J W) (live : Ledger J W) : Prop where
  sound : ∀ x ∈ q.located, ∃ p, live x.2.2.jobId = some p ∧
    x.2.2 = { p with effectiveClass := x.2.2.effectiveClass }
  complete : ∀ j p, live j = some p → ∃ x ∈ q.located, x.2.2.jobId = j

/-- An entry that is taken out and forgotten leaves a queue that satisfies the
invariant. -/
theorem Inv.taken {q' : FairJobQueue J W} (h : Inv q)
    (hp : q.located.Perm ((c, w, e) :: q'.located)) (hcfg : q'.cfg = q.cfg)
    (hcount : q'.perWorkspaceCount = (q.forget e).perWorkspaceCount)
    (htotal : q'.totalCount = (q.forget e).totalCount)
    (hindex : q'.jobIndex = (q.forget e).jobIndex) : Inv q' := by
  have hacc : Accounts (q.forget e) (q'.located.map ticket) :=
    (h.accounts.perm (hp.map ticket)).forget
  refine ⟨fun x hx => h.placed x (hp.mem_iff.mpr (List.mem_cons_of_mem _ hx)), ?_⟩
  constructor
  · exact hacc.nodup
  · rw [hindex]
    exact hacc.index
  · rw [htotal]
    exact hacc.total
  · rw [hcount]
    exact hacc.perWorkspace
  · rw [htotal, hcfg]
    exact hacc.total_le
  · rw [hcount, hcfg]
    exact hacc.perWorkspace_le

variable {live : Ledger J W}

/-- The other jobs are still held. -/
theorem Holds.taken {q' : FairJobQueue J W} (hl : Holds q live) (h : Inv q)
    (hp : q.located.Perm ((c, w, e) :: q'.located)) :
    Holds q' (Function.update live e.jobId none) := by
  have hids := (hp.map (fun x => x.2.2.jobId)).nodup_iff.mp
    (by simpa [ticket, Function.comp_def] using h.accounts.nodup)
  rw [List.map_cons, List.nodup_cons] at hids
  constructor
  · intro x hx
    have hne : x.2.2.jobId ≠ e.jobId := fun he => hids.1 (List.mem_map.mpr ⟨x, hx, he⟩)
    obtain ⟨p, hlive, hsame⟩ := hl.sound x (hp.mem_iff.mpr (List.mem_cons_of_mem _ hx))
    exact ⟨p, by rwa [Function.update_of_ne hne], hsame⟩
  · intro j p hj
    by_cases hje : j = e.jobId
    · simp [hje] at hj
    · rw [Function.update_of_ne hje] at hj
      obtain ⟨x, hx, hxj⟩ := hl.complete j p hj
      rcases List.mem_cons.mp (hp.mem_iff.mp hx) with rfl | hx'
      · exact absurd hxj.symm hje
      · exact ⟨x, hx', hxj⟩

/-- A selection keeps the invariant. -/
theorem Inv.of_selectNext {q' : FairJobQueue J W} {o : SelectionOutcome J W} (h : Inv q)
    (hs : q.selectNext = some (o, q')) : Inv q' := by
  obtain ⟨queue, queue', w, -, -, -, -, hp, rfl⟩ := selectNext_cases hs
  exact h.taken hp rfl rfl rfl rfl

theorem Inv.insert (h : Inv q) (hl : Holds q live) (e : QueueEntry J W) :
    Inv (q.insert e).2 ∧ Holds (q.insert e).2 (live.apply q (.insert e)) := by
  rcases h.insert_cases e with ⟨hi, h1, h2, heq, hok⟩ | ⟨hno, hsame⟩
  · have hp := located_insertFresh h1 h2
    have hacc := h.accounts.insertFresh hi h1 h2
    simp only [Ledger.apply, hok]
    rw [heq]
    refine ⟨⟨?_, hacc.perm (hp.map ticket).symm⟩, ?_, ?_⟩
    · intro x hx
      rcases List.mem_cons.mp (hp.mem_iff.mp hx) with rfl | hx'
      · exact ⟨rfl, rfl⟩
      · exact h.placed x hx'
    · intro x hx
      rcases List.mem_cons.mp (hp.mem_iff.mp hx) with rfl | hx'
      · exact ⟨e, by simp, rfl⟩
      · have hne : x.2.2.jobId ≠ e.jobId := by
          intro he
          apply h.accounts.index_eq_none_iff.mp hi
          rw [List.map_map]
          exact List.mem_map.mpr ⟨x, hx', he⟩
        rw [Function.update_of_ne hne]
        exact hl.sound x hx'
    · intro j p hj
      by_cases hje : j = e.jobId
      · exact ⟨(e.effectiveClass, e.workspaceId, e), hp.mem_iff.mpr List.mem_cons_self, hje.symm⟩
      · rw [Function.update_of_ne hje] at hj
        obtain ⟨x, hx, hxj⟩ := hl.complete j p hj
        exact ⟨x, hp.mem_iff.mpr (List.mem_cons_of_mem _ hx), hxj⟩
  · have hlive : live.apply q (.insert e) = live := by simp [Ledger.apply]
    rw [hsame, hlive]
    exact ⟨h, hl⟩

theorem Inv.remove (h : Inv q) (hl : Holds q live) (j : J) (reason : QueueRemovalReason) :
    Inv (q.remove j reason).2 ∧
      Holds (q.remove j reason).2 (Function.update live j none) := by
  simp only [FairJobQueue.remove]
  cases hr : q.removeEntry j with
  | some r =>
    obtain ⟨rfl, c, w, hp⟩ := located_removeEntry hr
    exact ⟨h.taken hp rfl rfl rfl rfl, hl.taken h hp⟩
  | none =>
    have hno := not_mem_of_removeEntry_eq_none hr
    refine ⟨h, ?_, ?_⟩
    · intro x hx
      rw [Function.update_of_ne (hno x hx)]
      exact hl.sound x hx
    · intro j' p hj
      by_cases hje : j' = j
      · simp [hje] at hj
      · rw [Function.update_of_ne hje] at hj
        exact hl.complete j' p hj

theorem Inv.recomputeAging (h : Inv q) (hl : Holds q live) (now : ℤ) :
    Inv (q.recomputeAging now) ∧ Holds (q.recomputeAging now) live := by
  have hp := h.located_recomputeAging now
  have hmem : ∀ x, x ∈ (q.recomputeAging now).located ↔ ∃ y ∈ q.located,
      ((y.2.2.recomputeAging q.cfg now).effectiveClass, y.2.1,
        y.2.2.recomputeAging q.cfg now) = x := fun x => hp.mem_iff.trans List.mem_map
  have htickets : (q.located.map ticket).Perm ((q.recomputeAging now).located.map ticket) := by
    have hm := (hp.map ticket).symm
    rwa [List.map_map] at hm
  refine ⟨⟨?_, ?_⟩, ?_, ?_⟩
  · intro x hx
    obtain ⟨y, hy, rfl⟩ := (hmem x).mp hx
    exact ⟨rfl, (h.placed y hy).2⟩
  · have hacc := h.accounts.perm htickets
    exact ⟨hacc.nodup, hacc.index, hacc.total, hacc.perWorkspace, hacc.total_le,
      hacc.perWorkspace_le⟩
  · intro x hx
    obtain ⟨y, hy, rfl⟩ := (hmem x).mp hx
    obtain ⟨p, hlive, hsame⟩ := hl.sound y hy
    refine ⟨p, hlive, ?_⟩
    simp only [QueueEntry.recomputeAging]
    rw [hsame]
  · intro j p hj
    obtain ⟨y, hy, hyj⟩ := hl.complete j p hj
    exact ⟨_, (hmem _).mpr ⟨y, hy, rfl⟩, hyj⟩

theorem Inv.selectNext (h : Inv q) (hl : Holds q live) :
    Inv (q.apply .selectNext) ∧ Holds (q.apply .selectNext) (live.apply q .selectNext) := by
  simp only [apply, Ledger.apply]
  cases hs : q.selectNext with
  | none => exact ⟨h, hl⟩
  | some r =>
    obtain ⟨queue, queue', w, -, -, -, -, hp, -⟩ := selectNext_cases hs
    exact ⟨h.of_selectNext hs, hl.taken h hp⟩

/-- One operation keeps the invariant and the jobs. -/
theorem Inv.apply (h : Inv q) (hl : Holds q live) (op : QueueOp J W) :
    Inv (q.apply op) ∧ Holds (q.apply op) (live.apply q op) := by
  cases op with
  | insert e => exact h.insert hl e
  | remove j reason => exact h.remove hl j reason
  | recomputeAging now => exact h.recomputeAging hl now
  | selectNext => exact h.selectNext hl
  | peekCandidates limit =>
    simp only [FairJobQueue.apply, peekCandidates_snd]
    exact ⟨h, hl⟩

theorem Inv.runOps {s : FairJobQueue J W × Ledger J W} (h : Inv s.1) (hl : Holds s.1 s.2)
    (ops : List (QueueOp J W)) : Inv (runOps s ops).1 ∧ Holds (runOps s ops).1 (runOps s ops).2 := by
  induction ops generalizing s with
  | nil => exact ⟨h, hl⟩
  | cons op ops ih =>
    obtain ⟨h', hl'⟩ := h.apply hl op
    exact ih h' hl'

theorem cfg_insert (q : FairJobQueue J W) (e : QueueEntry J W) : (q.insert e).2.cfg = q.cfg := by
  simp only [insert, insertFresh]
  split
  · split
    · rfl
    · split_ifs <;> rfl
  · split_ifs <;> rfl

theorem cfg_apply (q : FairJobQueue J W) (op : QueueOp J W) : (q.apply op).cfg = q.cfg := by
  cases op with
  | insert e => exact cfg_insert q e
  | remove j reason =>
    simp only [apply, remove]
    cases q.removeEntry j <;> rfl
  | recomputeAging now => rfl
  | selectNext =>
    simp only [apply]
    cases hs : q.selectNext with
    | none => rfl
    | some r =>
      obtain ⟨queue, queue', w, -, -, -, -, -, hq⟩ := selectNext_cases hs
      simp only [Option.map_some]
      rw [hq]
      rfl
  | peekCandidates limit => rw [apply, peekCandidates_snd]

theorem cfg_runOps (s : FairJobQueue J W × Ledger J W) (ops : List (QueueOp J W)) :
    (runOps s ops).1.cfg = s.1.cfg := by
  induction ops generalizing s with
  | nil => rfl
  | cons op ops ih => rw [runOps, ih, cfg_apply]

/-- The queue and the ledger after a list of operations on a new queue. -/
def runNew (cfg : ResolvedSchedulerConfig) (ops : List (QueueOp J W)) :
    FairJobQueue J W × Ledger J W :=
  runOps (new cfg, fun _ => none) ops

theorem inv_runNew (cfg : ResolvedSchedulerConfig) (ops : List (QueueOp J W)) :
    Inv (runNew cfg ops).1 ∧ Holds (runNew cfg ops).1 (runNew cfg ops).2 :=
  (inv_new cfg).runOps ⟨by simp [located, locatedIn, new], by simp⟩ ops

/-- The entries of the lane of workspace `w` in class `c`. -/
def laneEntries (q : FairJobQueue J W) (c : PriorityClass) (w : W) : List (QueueEntry J W) :=
  match q.lanes.get? c with
  | some queue => ((queue.lanes.get? w).map WorkspaceLane.entries).getD []
  | none => []

omit [DecidableEq J] in
theorem mem_laneEntries : e ∈ q.laneEntries c w ↔ (c, w, e) ∈ q.located := by
  simp only [located, mem_locatedIn, mem_located, laneEntries]
  cases q.lanes.get? c with
  | none => simp
  | some queue => cases hq : queue.lanes.get? w <;> simp [hq]

theorem Inv.countP_eq_one (h : Inv q) {x : Located J W} (hx : x ∈ q.located) :
    q.located.countP (fun y => y.2.2.jobId = x.2.2.jobId) = 1 := by
  have hn := h.accounts.nodup
  rw [List.map_map] at hn
  have hone := List.count_eq_one_of_mem hn (List.mem_map_of_mem hx)
  rw [List.count, List.countP_map] at hone
  rw [← hone]
  exact List.countP_congr (fun y _ => by simp [ticket])

end FairJobQueue

end Codegg.Scheduler
