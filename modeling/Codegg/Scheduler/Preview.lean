import Codegg.Scheduler.WorkspaceFairness

/-!
# Peeking at the next selections

`peek_candidates` runs the selection rule without taking anything out. As long as
its turns go to different lanes, the heads it reads are the entries that selection
would take; the second time it comes to a lane it reads the same head again. When
that happens is decided by the burst rule, which says how many of the turns go to a
class, and by the number of workspaces that wait there.
-/
namespace Codegg.Scheduler.FairJobQueue

open Codegg.Library Rotation

variable {J W : Type} [LinearOrder W]

/-! ### Turns -/

/-- The lane of the next turn and its head. -/
def nextTurn (q : FairJobQueue J W) : Option (Located J W) := do
  let c ← q.pickClass
  let w ← (q.rotationOf c).next
  let e ← (q.laneEntries c w).head?
  some (c, w, e)

/-- A turn that takes nothing out: the cursor and the burst counter advance. -/
def noted (q : FairJobQueue J W) (x : Located J W) : FairJobQueue J W :=
  { q with
    lanes := setCursor q.lanes x.1 (some x.2.2.workspaceId)
    highPriorityBurst := bumpBurst q.highPriorityBurst x.1 }

/-- The next `n` turns when nothing is taken out. -/
def turns : ℕ → FairJobQueue J W → List (Located J W)
  | 0, _ => []
  | n + 1, q =>
    match q.nextTurn with
    | none => []
    | some x => x :: turns n (q.noted x)

variable {q : FairJobQueue J W} {c first lower : PriorityClass} {x : Located J W} {n : ℕ}

theorem nextTurn_eq_some {w : W} {e : QueueEntry J W} :
    q.nextTurn = some (c, w, e) ↔ q.pickClass = some c ∧ (q.rotationOf c).next = some w ∧
      (q.laneEntries c w).head? = some e := by
  simp only [nextTurn, Option.bind_eq_bind, Option.bind_eq_some_iff, Option.some.injEq,
    Prod.mk.injEq]
  constructor
  · rintro ⟨c', hc, w', hw, e', he, rfl, rfl, rfl⟩
    exact ⟨hc, hw, he⟩
  · rintro ⟨hc, hw, he⟩
    exact ⟨c, hc, w, hw, e, he, rfl, rfl, rfl⟩

theorem mem_located_of_nextTurn (h : q.nextTurn = some x) : x ∈ q.located := by
  exact mem_laneEntries.mp (List.mem_of_mem_head? (nextTurn_eq_some.mp h).2.2)

/-- The turn is read off the class queue as `peek_candidates` does. -/
theorem nextTurn_eq_front (q : FairJobQueue J W) :
    q.nextTurn.map (fun x => (x.1, x.2.2)) = (do
      let c ← q.pickClass
      let queue ← q.lanes.get? c
      let entry ← queue.front
      some (c, entry)) := by
  unfold nextTurn rotationOf laneEntries LaneQueue.front
  cases q.pickClass with
  | none => rfl
  | some c =>
    cases hq : q.lanes.get? c with
    | none =>
      simp only [Option.bind_eq_bind, Option.bind_some, hq]
      cases (LaneQueue.rotation (.new c : LaneQueue J W)).next <;> rfl
    | some queue =>
      simp only [Option.bind_eq_bind, Option.bind_some, hq, Option.getD_some,
        ← LaneQueue.selectNext_eq_next]
      cases queue.selectNext with
      | none => rfl
      | some w =>
        cases hl : queue.lanes.get? w with
        | none => simp [hl]
        | some lane => cases hh : lane.entries.head? <;> simp [hl]

/-- The peek loop reads the heads of the turns. -/
theorem peekLoop_fst (n : ℕ) (q : FairJobQueue J W) :
    (peekLoop n q).1 = (turns n q).map (fun x => x.2.2) := by
  induction n generalizing q with
  | zero => rfl
  | succ n ih =>
    rw [peekLoop, turns, ← nextTurn_eq_front]
    cases q.nextTurn with
    | none => rfl
    | some x =>
      simp only [List.map_cons, ← ih]
      rfl

/-! ### What a noted turn leaves -/

section Noted

variable (q : FairJobQueue J W) (x : Located J W)

theorem located_noted : (q.noted x).located = q.located := locatedIn_setCursor _ _ _

theorem maxBurst_noted : (q.noted x).maxBurst = q.maxBurst := rfl

theorem burst_noted : (q.noted x).highPriorityBurst = bumpBurst q.highPriorityBurst x.1 := rfl

theorem get?_noted (c : PriorityClass) : (q.noted x).lanes.get? c =
    if c = x.1 then (q.lanes.get? c).map
      (fun queue => { queue with cursor := some x.2.2.workspaceId })
    else q.lanes.get? c := by
  rw [noted, setCursor, SortedMap.get?_modify]
  split_ifs with hc
  · rw [hc]
  · rfl

theorem laneEntries_noted (c : PriorityClass) (w : W) :
    (q.noted x).laneEntries c w = q.laneEntries c w := by
  unfold laneEntries
  rw [get?_noted]
  split_ifs with hc
  · cases q.lanes.get? c <;> rfl
  · rfl

theorem classTotal_noted (c : PriorityClass) : (q.noted x).classTotal c = q.classTotal c := by
  unfold classTotal
  rw [get?_noted]
  split_ifs with hc
  · cases q.lanes.get? c <;> rfl
  · rfl

variable {q x}

theorem rotationOf_noted (h : x ∈ q.located) (hw : x.2.2.workspaceId = x.2.1)
    (c : PriorityClass) : (q.noted x).rotationOf c =
      if x.1 = c then (q.rotationOf c).note x.2.1 else q.rotationOf c := by
  obtain ⟨queue, hq, -⟩ := mem_locatedIn.mp h
  unfold rotationOf
  rw [get?_noted, hw]
  by_cases hc : x.1 = c
  · subst hc
    rw [if_pos rfl, if_pos rfl, hq]
    rfl
  · rw [if_neg (Ne.symm hc), if_neg hc]

end Noted

/-- There is a turn as long as anything is queued. -/
theorem exists_nextTurn (h : x ∈ q.located) :
    ∃ y, q.nextTurn = some y := by
  obtain ⟨c, hc⟩ := exists_pickClass (classTotal_pos_iff.mpr ⟨x, h, rfl⟩)
  obtain ⟨⟨c', w, e⟩, hm, rfl⟩ := classTotal_pos_iff.mp (pickClass_eq_some.mp hc).1
  have hactive : (q.rotationOf c').active ≠ [] := by
    rw [← waiting_eq]
    exact List.ne_nil_of_mem (mem_waiting.mpr ⟨e, hm⟩)
  obtain ⟨w', hw'⟩ := exists_next hactive
  have hmem := mem_active_of_next hw'
  rw [← waiting_eq, mem_waiting] at hmem
  obtain ⟨e', he'⟩ := hmem
  have hne : q.laneEntries c' w' ≠ [] := List.ne_nil_of_mem (mem_laneEntries.mpr he')
  exact ⟨_, nextTurn_eq_some.mpr ⟨hc, hw', List.head?_eq_some_head hne⟩⟩

/-- As many turns as asked for, if anything is queued. -/
theorem length_turns (h : x ∈ q.located) (n : ℕ) :
    (turns n q).length = n := by
  induction n generalizing q with
  | zero => rfl
  | succ n ih =>
    obtain ⟨y, hy⟩ := exists_nextTurn h
    rw [turns, hy]
    simp only [List.length_cons]
    rw [ih ((located_noted q y).symm ▸ h)]

/-- The same lane gives the same entry in every turn. -/
theorem head?_of_mem_turns {w : W} {e : QueueEntry J W} (h : (c, w, e) ∈ turns n q) :
    (q.laneEntries c w).head? = some e := by
  induction n generalizing q with
  | zero => simp [turns] at h
  | succ n ih =>
    rw [turns] at h
    cases hy : q.nextTurn with
    | none => simp [hy] at h
    | some y =>
      simp only [hy, List.mem_cons] at h
      rcases h with rfl | h
      · exact (nextTurn_eq_some.mp hy).2.2
      · rw [← laneEntries_noted q y]
        exact ih h

/-! ### Turns and selections -/

/-- The queue `q'` lacks the head of one lane of `q`. -/
structure Lacks (c : PriorityClass) (w : W) (q q' : FairJobQueue J W) : Prop where
  cfg_eq : q'.cfg = q.cfg
  burst_eq : q'.highPriorityBurst = q.highPriorityBurst
  cursor_eq : ∀ r, q'.cursorOf r = q.cursorOf r
  tail : q'.laneEntries c w = (q.laneEntries c w).tail
  same : ∀ r v, (r, v) ≠ (c, w) → q'.laneEntries r v = q.laneEntries r v

namespace Lacks

variable {q q' : FairJobQueue J W} {c : PriorityClass} {w : W}

theorem subset (h : Lacks c w q q') : q'.located ⊆ q.located := by
  rintro ⟨r, v, e⟩ hm
  rw [← mem_laneEntries] at hm ⊢
  by_cases heq : (r, v) = (c, w)
  · cases heq
    rw [h.tail] at hm
    exact List.mem_of_mem_tail hm
  · rwa [h.same r v heq] at hm

theorem classTotal_pos (h : Lacks c w q q') {r : PriorityClass} (hr : 0 < q'.classTotal r) :
    0 < q.classTotal r := by
  obtain ⟨x, hx, hxr⟩ := classTotal_pos_iff.mp hr
  exact classTotal_pos_iff.mpr ⟨x, h.subset hx, hxr⟩

theorem maxBurst_eq (h : Lacks c w q q') : q'.maxBurst = q.maxBurst := by
  rw [maxBurst, maxBurst, h.cfg_eq]

/-- A turn at another lane is the same turn. -/
theorem nextTurn_eq (h : Lacks c w q q') (hx : q.nextTurn = some x) (hne : (x.1, x.2.1) ≠ (c, w)) :
    q'.nextTurn = some x := by
  obtain ⟨r, v, e⟩ := x
  obtain ⟨hclass, hnext, hhead⟩ := nextTurn_eq_some.mp hx
  have hentries : q'.laneEntries r v = q.laneEntries r v := h.same r v hne
  have hhead' : (q'.laneEntries r v).head? = some e := by rw [hentries, hhead]
  have hmem : (r, v, e) ∈ q'.located := mem_laneEntries.mp (List.mem_of_mem_head? hhead')
  have hpos' : 0 < q'.classTotal r := classTotal_pos_iff.mpr ⟨_, hmem, rfl⟩
  obtain ⟨hpos, hdue, hmin⟩ := pickClass_eq_some.mp hclass
  refine nextTurn_eq_some.mpr ⟨pickClass_eq_some.mpr ⟨hpos', ?_, ?_⟩, ?_, hhead'⟩
  · rcases hdue with hlow | hburst | hrest
    · exact .inl hlow
    · exact .inr (.inl (by rw [h.burst_eq, h.maxBurst_eq]; exact hburst))
    · refine .inr (.inr fun r' hr' => ?_)
      by_contra hne'
      have := h.classTotal_pos (Nat.pos_of_ne_zero hne')
      have := hrest r' hr'
      omega
  · intro r' hr' hpos'' hdue'
    apply hmin r' hr' (h.classTotal_pos hpos'')
    rcases hdue' with hlow | hburst | hrest
    · exact .inl hlow
    · rw [h.burst_eq, h.maxBurst_eq] at hburst
      exact .inr (.inl hburst)
    · have := hrest r hr'
      omega
  · have hcursor : (q'.rotationOf r).cursor = (q.rotationOf r).cursor := by
      rw [← cursorOf_eq, ← cursorOf_eq, h.cursor_eq]
    refine next_of_subset hcursor ?_ hnext ?_
    · intro v' hv'
      rw [← waiting_eq, mem_waiting] at hv' ⊢
      obtain ⟨e', he'⟩ := hv'
      exact ⟨e', h.subset he'⟩
    · rw [← waiting_eq, mem_waiting]
      exact ⟨e, hmem⟩

theorem cursorOf_noted (h : x ∈ q.located) (r : PriorityClass) :
    (q.noted x).cursorOf r = if r = x.1 then some x.2.2.workspaceId else q.cursorOf r := by
  obtain ⟨queue, hq, -⟩ := mem_locatedIn.mp h
  unfold cursorOf
  rw [get?_noted]
  split_ifs with hr
  · subst hr
    rw [hq]
    rfl
  · rfl

theorem noted (h : Lacks c w q q') (hx : x ∈ q.located) (hx' : x ∈ q'.located) :
    Lacks c w (q.noted x) (q'.noted x) where
  cfg_eq := h.cfg_eq
  burst_eq := by rw [burst_noted, burst_noted, h.burst_eq]
  cursor_eq r := by rw [cursorOf_noted hx, cursorOf_noted hx', h.cursor_eq]
  tail := by rw [laneEntries_noted, laneEntries_noted, h.tail]
  same r v hne := by rw [laneEntries_noted, laneEntries_noted, h.same r v hne]

/-- A lane that is not visited may lack its head. -/
theorem turns_eq (h : Lacks c w q q') (havoid : ∀ x ∈ turns n q, (x.1, x.2.1) ≠ (c, w)) :
    turns n q' = turns n q := by
  induction n generalizing q q' with
  | zero => rfl
  | succ n ih =>
    rw [turns] at havoid ⊢
    rw [turns]
    cases hx : q.nextTurn with
    | none =>
      cases hx' : q'.nextTurn with
      | none => rfl
      | some y =>
        obtain ⟨z, hz⟩ := exists_nextTurn (h.subset (mem_located_of_nextTurn hx'))
        rw [hx] at hz
        cases hz
    | some x =>
      simp only [hx, List.mem_cons, forall_eq_or_imp] at havoid
      have hx' := h.nextTurn_eq hx havoid.1
      rw [hx']
      simp only [List.cons.injEq, true_and]
      exact ih (h.noted (mem_located_of_nextTurn hx) (mem_located_of_nextTurn hx')) havoid.2

end Lacks

/-- The candidates are the heads of the turns. -/
theorem Inv.peekCandidates_fst (h : Inv q) (n : ℕ) :
    (q.peekCandidates n).1 = (turns n q).map (fun x => x.2.2) := by
  rw [peekCandidates]
  split_ifs with h0
  · rcases h0 with htotal | rfl
    · rw [h.accounts.total, List.length_map, List.length_eq_zero_iff] at htotal
      cases n with
      | zero => rfl
      | succ n =>
        rw [turns]
        cases hx : q.nextTurn with
        | none => rfl
        | some x =>
          have hm := mem_located_of_nextTurn hx
          simp [htotal] at hm
    · rfl
  · exact peekLoop_fst n q

section Selections

variable [DecidableEq J]

/-- The entries of the next `n` selections. -/
def selections : ℕ → FairJobQueue J W → List (QueueEntry J W)
  | 0, _ => []
  | n + 1, q =>
    match q.selectNext with
    | none => []
    | some (o, q') => o.entry :: selections n q'

/-- A selection takes the head of the next turn; apart from that the turn is noted. -/
theorem Inv.selectNext_of_nextTurn (h : Inv q) (hx : q.nextTurn = some x) :
    ∃ q', q.selectNext = some (⟨x.2.2, x.1⟩, q') ∧ Lacks x.1 x.2.1 (q.noted x) q' := by
  obtain ⟨o, q', hs⟩ := h.exists_selectNext (List.ne_nil_of_mem (mem_located_of_nextTurn hx))
  obtain ⟨queue, queue', w, hc, hq, hpop, hw, hp, hq'⟩ := selectNext_cases hs
  obtain ⟨c, w', e⟩ := x
  obtain ⟨hc', hw', he⟩ := nextTurn_eq_some.mp hx
  obtain rfl : o.class_ = c := Option.some.inj (hc.symm.trans hc')
  have hrot : q.rotationOf o.class_ = queue.rotation := by rw [rotationOf, hq]; rfl
  rw [hrot, ← LaneQueue.selectNext_eq_next] at hw'
  obtain rfl : w = w' := Option.some.inj (hw.symm.trans hw')
  obtain ⟨w', lane, hw'', hl, hhead, rfl⟩ := LaneQueue.popFront_spec hpop
  obtain rfl : w = w' := Option.some.inj (hw.symm.trans hw'')
  have hlane : q.laneEntries o.class_ w = lane.entries := by
    unfold laneEntries
    rw [hq]
    simp [hl]
  rw [hlane] at he
  obtain rfl : o.entry = e := Option.some.inj (hhead.symm.trans he)
  have hget : ∀ r, q'.lanes.get? r = if r = o.class_ then
      some { queue with
        lanes := queue.lanes.modify w (fun l => { l with entries := l.entries.tail })
        cursor := some o.entry.workspaceId }
      else q.lanes.get? r := by
    intro r
    rw [hq', setCursor, SortedMap.get?_modify, SortedMap.get?_modify, SortedMap.get?_modify]
    split_ifs <;> simp_all
  have hentries : ∀ r v, q'.laneEntries r v =
      if (r, v) = (o.class_, w) then lane.entries.tail else q.laneEntries r v := by
    intro r v
    unfold laneEntries
    rw [hget]
    by_cases hr : r = o.class_
    · subst hr
      rw [if_pos rfl, hq]
      simp only [SortedMap.get?_modify]
      by_cases hv : v = w
      · subst hv
        simp [hl]
      · simp [hv]
    · simp [hr]
  refine ⟨q', hs, ?_⟩
  constructor
  · rw [hq']
    rfl
  · rw [hq']
    rfl
  · intro r
    rw [Lacks.cursorOf_noted (mem_located_of_nextTurn hx)]
    unfold cursorOf
    rw [hget]
    split_ifs <;> rfl
  · rw [hentries, if_pos rfl, laneEntries_noted, hlane]
  · intro r v hne
    rw [hentries, if_neg hne, laneEntries_noted]

/-- Turns at different lanes read what the selections take. -/
theorem Inv.selections_eq (h : Inv q) (hnodup : ((turns n q).map (fun x => (x.1, x.2.1))).Nodup) :
    selections n q = (turns n q).map (fun x => x.2.2) := by
  induction n generalizing q with
  | zero => rfl
  | succ n ih =>
    rw [turns] at hnodup ⊢
    rw [selections]
    cases hx : q.nextTurn with
    | none =>
      cases hs : q.selectNext with
      | none => rfl
      | some r =>
        obtain ⟨_, _, w, -, -, -, -, hp, -⟩ := selectNext_cases hs
        obtain ⟨y, hy⟩ := exists_nextTurn (hp.mem_iff.mpr List.mem_cons_self)
        rw [hx] at hy
        cases hy
    | some x =>
      simp only [hx, List.map_cons, List.nodup_cons] at hnodup
      obtain ⟨q', hs, hlacks⟩ := h.selectNext_of_nextTurn hx
      have hturns : turns n q' = turns n (q.noted x) := by
        refine hlacks.turns_eq fun y hy heq => hnodup.1 ?_
        exact heq ▸ List.mem_map_of_mem hy
      rw [hs]
      simp only [List.map_cons, List.cons.injEq, true_and]
      rw [ih (h.of_selectNext hs) (hturns ▸ hnodup.2), hturns]

/-- No job is selected twice. -/
theorem Inv.selections_nodup (h : Inv q) (n : ℕ) :
    ((selections n q).map QueueEntry.jobId).Nodup ∧
      ∀ e ∈ selections n q, ∃ c w, (c, w, e) ∈ q.located := by
  induction n generalizing q with
  | zero => simp [selections]
  | succ n ih =>
    rw [selections]
    cases hs : q.selectNext with
    | none => simp
    | some r =>
      obtain ⟨_, _, w, -, -, -, -, hp, -⟩ := selectNext_cases hs
      obtain ⟨hnodup, hmem⟩ := ih (h.of_selectNext hs)
      have hjobs := (hp.map (fun x => x.2.2.jobId)).nodup_iff.mp (by
        have hall := h.accounts.nodup
        rw [List.map_map] at hall
        exact hall)
      simp only [List.map_cons, List.nodup_cons] at hjobs ⊢
      refine ⟨⟨?_, hnodup⟩, ?_⟩
      · intro hin
        obtain ⟨e, he, hj⟩ := List.mem_map.mp hin
        obtain ⟨c, v, hloc⟩ := hmem e he
        exact hjobs.1 (List.mem_map.mpr ⟨_, hloc, hj⟩)
      · intro e he
        rcases List.mem_cons.mp he with rfl | he
        · exact ⟨_, w, hp.mem_iff.mpr List.mem_cons_self⟩
        · obtain ⟨c, v, hloc⟩ := hmem e he
          exact ⟨c, v, hp.mem_iff.mpr (List.mem_cons_of_mem _ hloc)⟩

/-- Peeking predicts the selections exactly if its turns go to different lanes. -/
theorem Inv.peek_eq_selections_iff (h : Inv q) (n : ℕ) :
    (q.peekCandidates n).1 = selections n q ↔
      ((turns n q).map (fun x => (x.1, x.2.1))).Nodup := by
  rw [h.peekCandidates_fst]
  constructor
  · intro heq
    have hnodup := (h.selections_nodup n).1.of_map
    rw [← heq] at hnodup
    have hheads : (turns n q).map (fun x => some x.2.2) =
        ((turns n q).map (fun x => (x.1, x.2.1))).map
          (fun p => (q.laneEntries p.1 p.2).head?) := by
      rw [List.map_map]
      refine List.map_congr_left fun x hx => ?_
      exact (head?_of_mem_turns hx).symm
    have hsome := hnodup.map (Option.some_injective _)
    rw [List.map_map] at hsome
    exact List.Nodup.of_map _ (hheads ▸ hsome)
  · exact fun hnodup => (h.selections_eq hnodup).symm

end Selections

/-! ### How many turns a class gets -/

/-- The classes in the order of the selection loop. -/
def classes : List PriorityClass := [.urgent, .interactive, .normal, .background, .maintenance]

/-- The most urgent class with a job. -/
def firstWaiting (q : FairJobQueue J W) : Option PriorityClass :=
  classes.find? fun c => decide (0 < q.classTotal c)

/-- The class that is served instead of `first` when the burst is used up. -/
def yieldsTo (q : FairJobQueue J W) (first : PriorityClass) : Option PriorityClass :=
  if first.isHigh then
    (classes.find? fun c => decide (first < c) && !c.isHigh && decide (0 < q.classTotal c)).or
      (classes.find? fun c => decide (first < c) && decide (0 < q.classTotal c))
  else none

/-- How many of `n` turns go to the class that `first` yields to. -/
def yieldedTurns (q : FairJobQueue J W) (lower : PriorityClass) (n : ℕ) : ℕ :=
  let left := q.maxBurst - q.highPriorityBurst
  if lower.isHigh then n - left
  else if n ≤ left then 0 else (n - left - 1) / (q.maxBurst + 1) + 1

theorem classes_sorted : classes.Pairwise (· < ·) := by decide

theorem mem_classes (c : PriorityClass) : c ∈ classes := by cases c <;> decide

theorem find?_classes {p : PriorityClass → Bool} :
    classes.find? p = some c ↔ p c = true ∧ ∀ c' < c, p c' = false := by
  rw [find?_eq_some_of_sorted classes_sorted]
  exact ⟨fun h => ⟨h.2.1, fun c' hc' => h.2.2 c' (mem_classes c') hc'⟩,
    fun h => ⟨mem_classes c, h.1, fun c' _ hc' => h.2 c' hc'⟩⟩

theorem firstWaiting_eq_some :
    q.firstWaiting = some c ↔ 0 < q.classTotal c ∧ ∀ c' < c, q.classTotal c' = 0 := by
  rw [firstWaiting, find?_classes]
  simp

theorem lt_of_isHigh {c' : PriorityClass} (h : c.isHigh = true) (h' : c'.isHigh = false) :
    c < c' := by
  revert h h'
  cases c <;> cases c' <;> decide

/-- The class that `first` yields to is the most urgent one that is not high, or a high one
if only high classes wait. -/
theorem yieldsTo_eq_some (h : q.yieldsTo first = some lower) :
    first.isHigh = true ∧ first < lower ∧ 0 < q.classTotal lower ∧
      (lower.isHigh = false ∧ (∀ c < lower, c.isHigh = false → q.classTotal c = 0) ∨
        lower.isHigh = true ∧ ∀ c, c.isHigh = false → q.classTotal c = 0) := by
  unfold yieldsTo at h
  split_ifs at h with hhigh
  rw [Option.or_eq_some_iff] at h
  rcases h with hlow | ⟨hnone, hrest⟩
  · obtain ⟨htest, hmin⟩ := find?_classes.mp hlow
    simp only [Bool.and_eq_true, decide_eq_true_eq, Bool.not_eq_true'] at htest
    refine ⟨hhigh, htest.1.1, htest.2, .inl ⟨htest.1.2, fun c hc hclow => ?_⟩⟩
    have := hmin c hc
    simpa [lt_of_isHigh hhigh hclow, hclow] using this
  · obtain ⟨htest, -⟩ := find?_classes.mp hrest
    simp only [Bool.and_eq_true, decide_eq_true_eq] at htest
    have hlows : ∀ c, c.isHigh = false → q.classTotal c = 0 := by
      intro c hclow
      have := List.find?_eq_none.mp hnone c (mem_classes c)
      simpa [lt_of_isHigh hhigh hclow, hclow] using this
    refine ⟨hhigh, htest.1, htest.2, .inr ⟨?_, hlows⟩⟩
    by_contra hlow
    have := hlows lower (by simpa using hlow)
    omega

/-- A high class that yields to none is followed by no waiting class. -/
theorem yieldsTo_eq_none (h : q.yieldsTo first = none) (hhigh : first.isHigh = true) :
    ∀ c, first < c → q.classTotal c = 0 := by
  rw [yieldsTo, if_pos hhigh, Option.or_eq_none_iff] at h
  intro c hc
  have := List.find?_eq_none.mp h.2 c (mem_classes c)
  simpa [hc] using this

theorem pickClass_of_yieldsTo_none (hfirst : q.firstWaiting = some first)
    (h : q.yieldsTo first = none) :
    q.pickClass = some first := by
  obtain ⟨hpos, hmin⟩ := firstWaiting_eq_some.mp hfirst
  refine pickClass_eq_some.mpr ⟨hpos, ?_, fun c hc hcpos => ?_⟩
  · by_cases hhigh : first.isHigh = true
    · exact .inr (.inr (yieldsTo_eq_none h hhigh))
    · exact .inl (by simpa using hhigh)
  · have := hmin c hc
    omega

theorem pickClass_of_yieldsTo_some (hfirst : q.firstWaiting = some first)
    (h : q.yieldsTo first = some lower) :
    q.pickClass = some (if q.highPriorityBurst < q.maxBurst then first else lower) := by
  obtain ⟨hhigh, hlt, hpos, hkind⟩ := yieldsTo_eq_some h
  split_ifs with hburst
  · exact (pickClass_of_burst_lt hburst first).mpr (firstWaiting_eq_some.mp hfirst)
  · rcases hkind with ⟨hlow, hmin⟩ | ⟨hlhigh, hlows⟩
    · exact (pickClass_of_burst_ge (not_lt.mp hburst) hlow hpos lower).mpr ⟨hlow, hpos, hmin⟩
    · -- two high classes and nothing else: the second one is served for good
      refine pickClass_eq_some.mpr ⟨hpos, .inr (.inr fun c hc => hlows c ?_), ?_⟩
      · revert hc hlt hhigh hlhigh
        cases first <;> cases lower <;> cases c <;> decide
      · intro c hc hcpos hdue
        rcases hdue with hclow | hless | hrest
        · have := hlows c hclow
          omega
        · exact hburst hless
        · have := hrest lower hc
          omega

section Counting

variable {q : FairJobQueue J W} (x : Located J W)

theorem firstWaiting_noted : (q.noted x).firstWaiting = q.firstWaiting := by
  simp [firstWaiting, classTotal_noted]

theorem yieldsTo_noted (c : PriorityClass) : (q.noted x).yieldsTo c = q.yieldsTo c := by
  simp [yieldsTo, classTotal_noted]

end Counting

/-- Without a class to yield to all turns go to the first class. -/
theorem class_of_mem_turns (hfirst : q.firstWaiting = some first) (h : q.yieldsTo first = none)
    (hx : x ∈ turns n q) : x.1 = first := by
  induction n generalizing q with
  | zero => simp [turns] at hx
  | succ n ih =>
    rw [turns] at hx
    cases hy : q.nextTurn with
    | none => simp [hy] at hx
    | some y =>
      simp only [hy, List.mem_cons] at hx
      rcases hx with rfl | hx
      · have hclass := (nextTurn_eq_some.mp hy).1
        exact Option.some.inj (hclass.symm.trans (pickClass_of_yieldsTo_none hfirst h))
      · exact ih (by rw [firstWaiting_noted, hfirst]) (by rw [yieldsTo_noted, h]) hx

theorem maxBurst_bounds (q : FairJobQueue J W) : 1 ≤ q.maxBurst ∧ q.maxBurst ≤ 2 ^ 32 - 1 := by
  have := q.cfg.fairness.maxHighPriorityBurst.toNat_lt
  unfold maxBurst
  omega

/-- How the number of yielded turns changes with one turn. -/
theorem yieldedTurns_succ (x : Located J W) (hhigh : first.isHigh = true) (n : ℕ)
    (hclass : x.1 = if q.highPriorityBurst < q.maxBurst then first else lower) :
    q.yieldedTurns lower (n + 1) = (q.noted x).yieldedTurns lower n +
      if q.highPriorityBurst < q.maxBurst then 0 else 1 := by
  obtain ⟨hone, hmax⟩ := q.maxBurst_bounds
  unfold yieldedTurns
  rw [maxBurst_noted, burst_noted]
  by_cases hburst : q.highPriorityBurst < q.maxBurst
  · rw [if_pos hburst] at hclass ⊢
    have hbump : bumpBurst q.highPriorityBurst x.1 = q.highPriorityBurst + 1 := by
      rw [hclass, bumpBurst, if_pos hhigh]
      omega
    have hleft : q.maxBurst - q.highPriorityBurst =
        q.maxBurst - (q.highPriorityBurst + 1) + 1 := by omega
    rw [hbump, hleft]
    simp [Nat.add_sub_add_right]
  · rw [if_neg hburst] at hclass ⊢
    have hleft : q.maxBurst - q.highPriorityBurst = 0 := by omega
    by_cases hlow : lower.isHigh = true
    · have hbump : q.maxBurst - bumpBurst q.highPriorityBurst x.1 = 0 := by
        rw [hclass, bumpBurst, if_pos hlow]
        omega
      simp only [hlow, if_true]
      omega
    · have hbump : bumpBurst q.highPriorityBurst x.1 = 0 := by
        rw [hclass, bumpBurst, if_neg hlow]
      have hzero : ¬n + 1 ≤ 0 := by omega
      simp only [hlow, hleft, hbump, Nat.sub_zero, Bool.false_eq_true, if_false, if_neg hzero,
        Nat.add_sub_cancel]
      by_cases hn : n ≤ q.maxBurst
      · rw [if_pos hn, Nat.div_eq_of_lt (by omega)]
      · rw [if_neg hn, Nat.div_eq_sub_div (by omega) (by omega), Nat.sub_sub]

theorem yieldedTurns_zero (q : FairJobQueue J W) (lower : PriorityClass) :
    q.yieldedTurns lower 0 = 0 := by
  unfold yieldedTurns
  split_ifs <;> simp

/-- How the turns are divided between the first class and the one it yields to. -/
theorem count_turns (hfirst : q.firstWaiting = some first) (h : q.yieldsTo first = some lower)
    (n : ℕ) :
    ((turns n q).map Prod.fst).count lower = q.yieldedTurns lower n ∧
      ((turns n q).map Prod.fst).count first = n - q.yieldedTurns lower n ∧
      q.yieldedTurns lower n ≤ n ∧
      ∀ c, c ≠ first → c ≠ lower → ((turns n q).map Prod.fst).count c = 0 := by
  obtain ⟨hhigh, hlt, hpos, -⟩ := yieldsTo_eq_some h
  induction n generalizing q with
  | zero => simp [turns, yieldedTurns_zero]
  | succ n ih =>
    obtain ⟨y, hy, -⟩ := classTotal_pos_iff.mp hpos
    obtain ⟨x, hx⟩ := exists_nextTurn hy
    have hclass : x.1 = if q.highPriorityBurst < q.maxBurst then first else lower :=
      Option.some.inj ((nextTurn_eq_some.mp hx).1.symm.trans (pickClass_of_yieldsTo_some hfirst h))
    obtain ⟨hl, hf, hle, hother⟩ := ih (q := q.noted x) (by rw [firstWaiting_noted, hfirst])
      (by rw [yieldsTo_noted, h]) (by rw [classTotal_noted]; exact hpos)
    rw [yieldedTurns_succ x hhigh n hclass, turns, hx]
    simp only [List.map_cons, List.count_cons, hl, hf]
    by_cases hburst : q.highPriorityBurst < q.maxBurst
    · rw [if_pos hburst] at hclass
      refine ⟨?_, ?_, by rw [if_pos hburst]; omega, fun c hcf hcl => ?_⟩
      · simp [hclass, hlt.ne, hburst]
      · simp [hclass, hburst]
        omega
      · simp [hother c hcf hcl, hclass, hcf.symm]
    · rw [if_neg hburst] at hclass
      refine ⟨?_, ?_, by rw [if_neg hburst]; omega, fun c hcf hcl => ?_⟩
      · simp [hclass, hburst]
      · simp [hclass, hlt.ne', hburst]
      · simp [hother c hcf hcl, hclass, hcl.symm]

/-- The turns of a class are the noted turns of its rotation. -/
theorem turns_class (hplaced : ∀ x ∈ q.located, x.2.2.workspaceId = x.2.1) (c : PriorityClass)
    (n : ℕ) :
    ((turns n q).filter (fun x => x.1 = c)).map (fun x => x.2.1) =
      previewed (((turns n q).map Prod.fst).count c) (q.rotationOf c) := by
  induction n generalizing q with
  | zero => rfl
  | succ n ih =>
    rw [turns]
    cases hx : q.nextTurn with
    | none => rfl
    | some x =>
      have hm := mem_located_of_nextTurn hx
      have hrec := ih (q := q.noted x) (fun y hy => hplaced y (located_noted q x ▸ hy))
      rw [rotationOf_noted hm (hplaced x hm)] at hrec
      simp only [List.map_cons, List.count_cons, List.filter_cons, decide_eq_true_eq, beq_iff_eq]
      by_cases hc : x.1 = c
      · rw [if_pos hc] at hrec
        have hnext : (q.rotationOf c).next = some x.2.1 := hc ▸ (nextTurn_eq_some.mp hx).2.1
        rw [if_pos hc, if_pos hc, previewed_of_next hnext, List.map_cons, hrec]
      · rw [if_neg hc] at hrec
        rw [if_neg hc, if_neg hc, hrec, Nat.add_zero]

/-- Pairs differ if under every first part the second parts differ. -/
theorem nodup_pairs_iff {A B C : Type} [DecidableEq A] (f : C → A) (g : C → B) (l : List C) :
    (l.map (fun x => (f x, g x))).Nodup ↔
      ∀ a, ((l.filter (fun x => f x = a)).map g).Nodup := by
  simp only [List.Nodup, List.pairwise_map, List.pairwise_filter, decide_eq_true_eq, ne_eq,
    Prod.mk.injEq, not_and]
  constructor
  · intro h a
    exact h.imp fun hxy hx hy => hxy (hx.trans hy.symm)
  · intro h
    rw [List.pairwise_iff_getElem]
    intro i j hi hj hij hf
    exact List.pairwise_iff_getElem.mp (h (f l[i])) i j hi hj hij rfl hf.symm

/-- How many turns of a class can go to different lanes. -/
def distinctHeads (q : FairJobQueue J W) (c : PriorityClass) : ℕ := min 2 (q.waiting c).length

/-- The turns go to different lanes exactly if no class gets more of them than it has
different lanes to offer. -/
theorem nodup_turns_iff (hplaced : ∀ x ∈ q.located, x.2.2.workspaceId = x.2.1) (n : ℕ) :
    ((turns n q).map (fun x => (x.1, x.2.1))).Nodup ↔
      ∀ c, ((turns n q).map Prod.fst).count c ≤ q.distinctHeads c := by
  rw [nodup_pairs_iff (fun x => x.1) (fun x => x.2.1) (turns n q)]
  refine forall_congr' fun c => ?_
  rw [turns_class hplaced, distinctHeads, waiting_eq]
  by_cases hactive : (q.rotationOf c).active = []
  · have hnone : ((turns n q).map Prod.fst).count c = 0 := by
      rw [List.count_eq_zero]
      intro hc
      obtain ⟨⟨c', w, e⟩, hx, rfl⟩ := List.mem_map.mp hc
      have hhead := List.mem_of_mem_head? (head?_of_mem_turns hx)
      have hw := mem_waiting.mpr ⟨e, mem_laneEntries.mp hhead⟩
      rw [waiting_eq, hactive] at hw
      simp at hw
    simp [hnone, previewed]
  · exact previewed_nodup_iff hactive _

/-- No class is asked for more entries than it has different heads. -/
def PreviewExact (q : FairJobQueue J W) (n : ℕ) : Prop :=
  ∀ first, q.firstWaiting = some first →
    (q.yieldsTo first = none → n ≤ q.distinctHeads first) ∧
    ∀ lower, q.yieldsTo first = some lower →
      q.yieldedTurns lower n ≤ q.distinctHeads lower ∧
      n - q.yieldedTurns lower n ≤ q.distinctHeads first

theorem previewExact_iff (q : FairJobQueue J W) (n : ℕ) :
    q.PreviewExact n ↔ ∀ c, ((turns n q).map Prod.fst).count c ≤ q.distinctHeads c := by
  unfold PreviewExact
  cases hfirst : q.firstWaiting with
  | none =>
    have hturns : turns n q = [] := by
      cases n with
      | zero => rfl
      | succ n =>
        rw [turns]
        cases hx : q.nextTurn with
        | none => rfl
        | some x =>
          have hpos := classTotal_pos_iff.mpr ⟨x, mem_located_of_nextTurn hx, rfl⟩
          have := List.find?_eq_none.mp hfirst x.1 (mem_classes _)
          simp [hpos] at this
    simp [hturns]
  | some first =>
    simp only [Option.some.injEq, forall_eq']
    obtain ⟨hpos, -⟩ := firstWaiting_eq_some.mp hfirst
    cases hyield : q.yieldsTo first with
    | none =>
      simp only [forall_const, reduceCtorEq, false_implies, implies_true, and_true]
      have hall : ∀ c ∈ (turns n q).map Prod.fst, c = first := by
        intro c hc
        obtain ⟨x, hx, rfl⟩ := List.mem_map.mp hc
        exact class_of_mem_turns hfirst hyield hx
      obtain ⟨y, hy, -⟩ := classTotal_pos_iff.mp hpos
      have hcount : ((turns n q).map Prod.fst).count first = n := by
        rw [List.count_eq_length.mpr fun c hc => (hall c hc).symm, List.length_map,
          length_turns hy]
      constructor
      · intro hn c
        by_cases hc : c = first
        · rw [hc, hcount]
          exact hn
        · rw [List.count_eq_zero.mpr fun hmem => hc (hall c hmem)]
          exact Nat.zero_le _
      · intro h
        rw [← hcount]
        exact h first
    | some lower =>
      obtain ⟨hl, hf, hle, hother⟩ := count_turns hfirst hyield n
      simp only [reduceCtorEq, false_implies, true_and, Option.some.injEq, forall_eq']
      constructor
      · rintro ⟨hlower, hrest⟩ c
        by_cases hc : c = lower
        · rw [hc, hl]
          exact hlower
        · by_cases hc' : c = first
          · rw [hc', hf]
            exact hrest
          · rw [hother c hc' hc]
            exact Nat.zero_le _
      · intro h
        exact ⟨hl ▸ h lower, hf ▸ h first⟩

/-- In every reachable state, peeking leaves the queue as it is; it predicts the next `n`
selections exactly if no class is asked for more entries than it has different heads. -/
theorem peek_predicts_iff [DecidableEq J] (cfg : ResolvedSchedulerConfig)
    (ops : List (QueueOp J W)) (n : ℕ) :
    let q := (runNew cfg ops).1
    (q.peekCandidates n).1 = selections n q ∧ (q.peekCandidates n).2 = q ↔ q.PreviewExact n := by
  intro q
  have h : Inv q := (inv_runNew cfg ops).1
  rw [peekCandidates_snd, h.peek_eq_selections_iff, previewExact_iff,
    nodup_turns_iff fun x hx => (h.placed x hx).2.symm]
  simp

/-- Three jobs of one workspace: the same head is read twice. -/
theorem peek_repeats_head :
    let q := (runNew .default
      [.insert ⟨1, 1, .normal, 0, 0, .normal⟩, .insert ⟨2, 1, .normal, 0, 0, .normal⟩,
        .insert (⟨3, 1, .normal, 0, 0, .normal⟩ : QueueEntry ℕ ℕ)]).1
    (q.peekCandidates 2).1.map QueueEntry.jobId = [1, 1] ∧
      (selections 2 q).map QueueEntry.jobId = [1, 2] ∧
      (q.peekCandidates 2).1 ≠ selections 2 q := by
  decide

end Codegg.Scheduler.FairJobQueue
