import Codegg.Library.Rotation
import Codegg.Scheduler.ClassSelection

/-!
# Fairness between the workspaces of a class

Inside a class the queue remembers only the workspace it served last. A class
queue is a rotation of its lanes, and the selections that draw from the class are
turns of that rotation, whatever is selected from other classes in between.
-/
namespace Codegg.Scheduler

open Codegg.Library LaneQueue Rotation

variable {J W : Type} [LinearOrder W]

namespace LaneQueue

/-- A class queue as a rotation: the lanes, their lengths and the cursor. -/
def rotation (q : LaneQueue J W) : Rotation W where
  keys := q.lanes.keys
  sorted := q.lanes.keys_sorted
  load w := ((q.lanes.get? w).map (fun lane => lane.entries.length)).getD 0
  cursor := q.cursor

theorem hasEntry_eq (q : LaneQueue J W) (w : W) :
    q.hasEntry w = decide (0 < q.rotation.load w) := by
  cases hq : q.lanes.get? w with
  | none => simp [hasEntry, rotation, hq]
  | some lane => cases hl : lane.entries <;> simp [hasEntry, rotation, hq, hl]

theorem selectNext_eq_next (q : LaneQueue J W) : q.selectNext = q.rotation.next := by
  have hload : q.hasEntry = fun w => decide (0 < q.rotation.load w) := funext q.hasEntry_eq
  have htest : (fun w => decide (decide (0 < q.rotation.load w) = true ∧
      (!decide (q.rotation.cursor = some w)) = true)) =
      fun w => !decide (q.cursor = some w) && decide (0 < q.rotation.load w) := by
    funext w
    rw [Bool.and_comm, Bool.decide_and, Bool.decide_eq_true, Bool.decide_eq_true]
    rfl
  unfold selectNext next active
  rw [List.find?_filter, List.head?_filter, hload, htest]
  rfl

/-- Taking the head of the selected lane and moving the cursor is one turn. -/
theorem rotation_popFront {q q' : LaneQueue J W} {e : QueueEntry J W} {w : W}
    (h : q.popFront = some (e, q')) (hw : q.selectNext = some w) :
    ({ q' with cursor := some w } : LaneQueue J W).rotation = q.rotation.serve w := by
  obtain ⟨w', lane, hw', hl, -, rfl⟩ := popFront_spec h
  have hww : w' = w := Option.some.inj (hw'.symm.trans hw)
  subst hww
  simp only [rotation, Rotation.serve, Rotation.mk.injEq, SortedMap.keys_modify, true_and,
    and_true]
  funext v
  rw [SortedMap.get?_modify, Function.update_apply]
  split_ifs with hv
  · simp [hl]
  · rfl

end LaneQueue

variable {q : FairJobQueue J W}

namespace FairJobQueue

/-- The rotation of one class; a class that was never used has no lanes. -/
def rotationOf (q : FairJobQueue J W) (c : PriorityClass) : Rotation W :=
  ((q.lanes.get? c).getD (.new c)).rotation

/-- The workspaces with an entry in a class, in increasing order. -/
def waiting (q : FairJobQueue J W) (c : PriorityClass) : List W :=
  match q.lanes.get? c with
  | some queue => queue.lanes.keys.filter queue.hasEntry
  | none => []

/-- The workspace that a class served last. -/
def cursorOf (q : FairJobQueue J W) (c : PriorityClass) : Option W :=
  (q.lanes.get? c).bind cursor

theorem waiting_eq (q : FairJobQueue J W) (c : PriorityClass) :
    q.waiting c = (q.rotationOf c).active := by
  unfold waiting rotationOf
  cases q.lanes.get? c with
  | none => rfl
  | some queue => exact List.filter_congr (fun w _ => queue.hasEntry_eq w)

theorem cursorOf_eq (q : FairJobQueue J W) (c : PriorityClass) :
    q.cursorOf c = (q.rotationOf c).cursor := by
  unfold cursorOf rotationOf
  cases q.lanes.get? c <;> rfl

theorem length_laneEntries (q : FairJobQueue J W) (c : PriorityClass) (w : W) :
    (q.laneEntries c w).length = (q.rotationOf c).load w := by
  unfold laneEntries rotationOf
  cases q.lanes.get? c with
  | none => rfl
  | some queue => cases hq : queue.lanes.get? w <;> simp [LaneQueue.rotation, hq]

theorem mem_waiting {c : PriorityClass} {w : W} :
    w ∈ q.waiting c ↔ ∃ e, (c, w, e) ∈ q.located := by
  have hload := (q.length_laneEntries c w).symm
  rw [waiting_eq, mem_active, hload, List.length_pos_iff_exists_mem]
  simp only [mem_laneEntries]
  constructor
  · exact fun h => h.2
  · intro h
    refine ⟨?_, h⟩
    obtain ⟨e, he⟩ := h
    obtain ⟨queue, hq, hx⟩ := mem_locatedIn.mp he
    obtain ⟨lane, hl, -⟩ := mem_located.mp hx
    unfold rotationOf
    rw [hq]
    exact (queue.lanes.mem_keys_iff w).mpr ⟨lane, hl⟩

theorem classTotal_pos_iff {c : PriorityClass} :
    0 < q.classTotal c ↔ ∃ x ∈ q.located, x.1 = c := by
  unfold classTotal
  constructor
  · intro h
    cases hq : q.lanes.get? c with
    | none => simp [hq] at h
    | some queue =>
      rw [hq, Option.map_some, Option.getD_some, total_eq,
        List.length_pos_iff_exists_mem] at h
      obtain ⟨x, hx⟩ := h
      exact ⟨(c, x), mem_locatedIn.mpr ⟨queue, hq, hx⟩, rfl⟩
  · intro h
    obtain ⟨⟨c', x⟩, hx, rfl⟩ := h
    obtain ⟨queue, hq, hm⟩ := mem_locatedIn.mp hx
    rw [hq, Option.map_some, total_eq]
    exact List.length_pos_of_mem hm

/-- Each waiting workspace has an entry to be served. -/
theorem length_waiting_le (q : FairJobQueue J W) (c : PriorityClass) :
    (q.waiting c).length ≤ q.located.countP (fun x => x.1 = c) := by
  have hnodup : (q.waiting c).Nodup := by
    rw [waiting_eq]
    exact (q.rotationOf c).active_nodup
  have hsub : q.waiting c ⊆ (q.located.filter (fun x => x.1 = c)).map (fun x => x.2.1) := by
    intro w hw
    obtain ⟨e, he⟩ := mem_waiting.mp hw
    exact List.mem_map.mpr ⟨(c, w, e), List.mem_filter.mpr ⟨he, by simp⟩, rfl⟩
  have hle := (hnodup.subperm hsub).length_le
  rwa [List.length_map, ← List.countP_eq_length_filter] at hle

variable [DecidableEq J]

/-- A selection from a class is a turn of its rotation. -/
theorem Inv.rotationOf_selectNext {q' : FairJobQueue J W} {o : SelectionOutcome J W} (h : Inv q)
    (hs : q.selectNext = some (o, q')) (c : PriorityClass) :
    if o.class_ = c then
      (q.rotationOf c).next = some o.entry.workspaceId ∧
        q'.rotationOf c = (q.rotationOf c).serve o.entry.workspaceId
    else q'.rotationOf c = q.rotationOf c := by
  obtain ⟨queue, queue', w, -, hq, hpop, hw, hp, hq'⟩ := selectNext_cases hs
  have hwe : w = o.entry.workspaceId := (h.placed _ (hp.mem_iff.mpr List.mem_cons_self)).2
  subst hwe
  have hget : q'.lanes.get? c = if c = o.class_ then
      some { queue' with cursor := some o.entry.workspaceId } else q.lanes.get? c := by
    rw [hq', setCursor, SortedMap.get?_modify, SortedMap.get?_modify, SortedMap.get?_modify]
    split_ifs <;> simp_all
  unfold rotationOf
  rw [hget]
  by_cases hc : o.class_ = c
  · subst hc
    rw [if_pos rfl, if_pos rfl, hq, Option.getD_some]
    exact ⟨by rw [← selectNext_eq_next, hw], rotation_popFront hpop hw⟩
  · rw [if_neg hc, if_neg (Ne.symm hc)]

/-- The workspaces of those among the next `n` selections that draw from `c`. -/
def servedFrom (c : PriorityClass) : ℕ → FairJobQueue J W → List W
  | 0, _ => []
  | n + 1, q =>
    match q.selectNext with
    | none => []
    | some (o, q') =>
      if o.class_ = c then o.entry.workspaceId :: servedFrom c n q' else servedFrom c n q'

/-- The selections from a class are the turns of its rotation. -/
theorem Inv.servedFrom_eq (h : Inv q) (c : PriorityClass) (n : ℕ) :
    ∃ m, servedFrom c n q = served m (q.rotationOf c) := by
  induction n generalizing q with
  | zero => exact ⟨0, rfl⟩
  | succ n ih =>
    unfold servedFrom
    cases hs : q.selectNext with
    | none => exact ⟨0, rfl⟩
    | some r =>
      obtain ⟨m, hm⟩ := ih (h.of_selectNext hs)
      have hrot := h.rotationOf_selectNext hs c
      simp only
      split_ifs at hrot ⊢ with hc
      · refine ⟨m + 1, ?_⟩
        rw [served, hrot.1, hm, hrot.2]
      · exact ⟨m, by rw [hm, hrot]⟩

/-- A selection succeeds while anything is queued. -/
theorem Inv.exists_selectNext (h : Inv q) (hne : q.located ≠ []) :
    ∃ o q', q.selectNext = some (o, q') := by
  obtain ⟨x, hx⟩ := List.exists_mem_of_ne_nil _ hne
  obtain ⟨c, hc⟩ := exists_pickClass (classTotal_pos_iff.mpr ⟨x, hx, rfl⟩)
  obtain ⟨queue, hq, hloc⟩ := exists_pickClass_of_located hc
  obtain ⟨e, queue', hpop⟩ := exists_popFront hloc
  have htotal : q.totalCount ≠ 0 := by
    rw [h.accounts.total, List.length_map]
    exact fun h0 => hne (List.length_eq_zero_iff.mp h0)
  simp only [FairJobQueue.selectNext, if_neg htotal, hc, hq, hpop, Option.bind_eq_bind,
    Option.bind_some]
  exact ⟨_, _, rfl⟩

/-- Selecting until the queue is empty serves every entry of a class. -/
theorem Inv.length_servedFrom (h : Inv q) (c : PriorityClass) :
    (servedFrom c q.located.length q).length = q.located.countP (fun x => x.1 = c) := by
  induction hn : q.located.length generalizing q with
  | zero =>
    rw [List.length_eq_zero_iff.mp hn]
    rfl
  | succ n ih =>
    have hne : q.located ≠ [] := by
      intro h0
      simp [h0] at hn
    obtain ⟨o, q', hs⟩ := h.exists_selectNext hne
    obtain ⟨queue, queue', w, -, -, -, -, hp, -⟩ := selectNext_cases hs
    have hn' : q'.located.length = n := by
      have hlen := hp.length_eq
      rw [List.length_cons] at hlen
      omega
    have hrec := ih (h.of_selectNext hs) hn'
    unfold servedFrom
    rw [hs, hp.countP_eq, List.countP_cons]
    simp only [decide_eq_true_eq]
    split_ifs with hc
    · rw [List.length_cons, hrec]
    · rw [hrec, Nat.add_zero]

/-- In every reachable state, let `ws` be the workspaces that wait in a class. The
next `ws.length` selections from the class serve different workspaces exactly when
all but the last two in line have a single entry there. -/
theorem workspace_fair_iff (cfg : ResolvedSchedulerConfig) (ops : List (QueueOp J W))
    (c : PriorityClass) :
    let q := (runNew cfg ops).1
    let ws := q.waiting c
    (∃ n, ws.length ≤ (servedFrom c n q).length) ∧
    ((∀ n, ((servedFrom c n q).take ws.length).Nodup) ↔
      ∀ w ∈ (Rotation.serviceOrder ws (q.cursorOf c)).take (ws.length - 2),
        (q.laneEntries c w).length = 1) := by
  intro q ws
  have h : Inv q := (inv_runNew cfg ops).1
  have hreach : ws.length ≤ (servedFrom c q.located.length q).length := by
    rw [h.length_servedFrom]
    exact q.length_waiting_le c
  refine ⟨⟨q.located.length, hreach⟩, ?_⟩
  have hround : (∀ n, ((servedFrom c n q).take ws.length).Nodup) ↔
      (Rotation.served ws.length (q.rotationOf c)).Nodup := by
    constructor
    · intro hall
      have hn := hall q.located.length
      obtain ⟨m, hm⟩ := h.servedFrom_eq c q.located.length
      have hlen := Rotation.length_served_le m (q.rotationOf c)
      rw [hm] at hn hreach
      rwa [Rotation.take_served, min_eq_left (hreach.trans hlen)] at hn
    · intro hn n
      obtain ⟨m, hm⟩ := h.servedFrom_eq c n
      rw [hm, Rotation.take_served, min_comm, ← Rotation.take_served]
      exact hn.sublist (List.take_sublist _ _)
  have hws : ws = (q.rotationOf c).active := q.waiting_eq c
  rw [hround, hws, Rotation.served_nodup_iff, cursorOf_eq]
  simp only [length_laneEntries]
  rfl

/-- Two jobs each in the first two workspaces and one in the third. -/
def threeWorkspaces : List (QueueOp ℕ ℕ) :=
  [.insert ⟨1, 1, .normal, 0, 0, .normal⟩, .insert ⟨2, 1, .normal, 0, 0, .normal⟩,
    .insert ⟨3, 2, .normal, 0, 0, .normal⟩, .insert ⟨4, 2, .normal, 0, 0, .normal⟩,
    .insert ⟨5, 3, .normal, 0, 0, .normal⟩]

/-- Three workspaces wait, but the first one is served again before the third. -/
theorem third_workspace_waits :
    let q := (runNew .default threeWorkspaces).1
    q.waiting .normal = [1, 2, 3] ∧ servedFrom .normal 3 q = [1, 2, 1] ∧
      ¬ ((servedFrom .normal 3 q).take (q.waiting .normal).length).Nodup := by
  decide

end FairJobQueue

end Codegg.Scheduler
