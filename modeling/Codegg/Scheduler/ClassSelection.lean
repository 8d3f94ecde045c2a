import Codegg.Scheduler.FairQueueInvariant

/-!
# Class selection and the burst floor

Which class a selection draws from depends on the lanes and on the burst counter.
The counter is read back as a property of the history: it is the number of
consecutive high-class selections that were made last, up to saturation.
-/
namespace Codegg.Scheduler.FairJobQueue

open Codegg.Library FairJobQueue

variable {J W : Type} [LinearOrder W]

/-- Number of entries that wait in a class. -/
def classTotal (q : FairJobQueue J W) (c : PriorityClass) : ℕ :=
  ((q.lanes.get? c).map LaneQueue.total).getD 0

/-- The burst floor lets `c` be served. -/
def Due (q : FairJobQueue J W) (c : PriorityClass) : Prop :=
  c.isHigh = false ∨ q.highPriorityBurst < q.maxBurst ∨ ∀ r, c < r → q.classTotal r = 0

attribute [local simp] classTotal

theorem exists_lower_iff (q : FairJobQueue J W) (c : PriorityClass) :
    q.lanes.toList.any (fun r => decide (c < r.1) && decide (0 < r.2.total)) = true ↔
      ∃ r, c < r ∧ 0 < q.classTotal r := by
  simp only [List.any_eq_true, Prod.exists, Bool.and_eq_true, decide_eq_true_eq,
    SortedMap.mem_toList_iff]
  constructor
  · intro h
    obtain ⟨r, queue, hq, hc, ht⟩ := h
    exact ⟨r, hc, by simpa [hq] using ht⟩
  · intro h
    obtain ⟨r, hc, ht⟩ := h
    cases hq : q.lanes.get? r with
    | none => simp [hq] at ht
    | some queue => exact ⟨r, queue, hq, hc, by simpa [hq] using ht⟩

/-- The test of the selection loop. -/
theorem pickTest_iff (q : FairJobQueue J W) (c : PriorityClass) :
    ((q.lanes.get? c).map (fun queue =>
      if queue.total = 0 then false
      else if c.isHigh then
        if q.highPriorityBurst < q.maxBurst then true
        else !(q.lanes.toList.any (fun r => decide (c < r.1) && decide (0 < r.2.total)))
      else true)).getD false = true ↔ 0 < q.classTotal c ∧ q.Due c := by
  have hlower := q.exists_lower_iff c
  cases hq : q.lanes.get? c with
  | none => simp [hq]
  | some queue =>
    simp only [classTotal, hq, Option.map_some, Option.getD_some]
    by_cases ht : queue.total = 0
    · simp [ht]
    · rw [if_neg ht]
      have hpos : 0 < queue.total := Nat.pos_of_ne_zero ht
      by_cases hh : c.isHigh = true
      · rw [if_pos hh]
        by_cases hb : q.highPriorityBurst < q.maxBurst
        · simp [hb, hpos, Due]
        · rw [if_neg hb, Bool.not_eq_true', ← Bool.not_eq_true, hlower]
          simp [hpos, Due, hh, hb]
      · simp [hpos, Due, hh]

variable {q : FairJobQueue J W} {c l : PriorityClass} {history : List PriorityClass}

/-- The chosen class is the most urgent one that waits and is due. -/
theorem pickClass_eq_some :
    q.pickClass = some c ↔
      0 < q.classTotal c ∧ q.Due c ∧ ∀ c' < c, 0 < q.classTotal c' → ¬ q.Due c' := by
  have hkey : ∀ c', 0 < q.classTotal c' → c' ∈ q.lanes.keys := by
    intro c' hc'
    rw [SortedMap.mem_keys_iff]
    cases hq : q.lanes.get? c' with
    | none => simp [hq] at hc'
    | some queue => exact ⟨queue, rfl⟩
  rw [pickClass, SortedMap.map_fst_find?, find?_eq_some_of_sorted q.lanes.keys_sorted,
    pickTest_iff]
  constructor
  · intro h
    obtain ⟨-, ⟨hpos, hdue⟩, hmin⟩ := h
    refine ⟨hpos, hdue, ?_⟩
    intro c' hlt hpos' hdue'
    have htest := hmin c' (hkey c' hpos') hlt
    rw [← Bool.not_eq_true, pickTest_iff] at htest
    exact htest ⟨hpos', hdue'⟩
  · intro h
    obtain ⟨hpos, hdue, hmin⟩ := h
    refine ⟨hkey c hpos, ⟨hpos, hdue⟩, ?_⟩
    intro c' _ hlt
    rw [← Bool.not_eq_true, pickTest_iff]
    exact fun h' => hmin c' hlt h'.1 h'.2

theorem pickClass_of_burst_lt (h : q.highPriorityBurst < q.maxBurst) (c : PriorityClass) :
    q.pickClass = some c ↔ 0 < q.classTotal c ∧ ∀ c' < c, q.classTotal c' = 0 := by
  have hdue : ∀ c', q.Due c' := fun c' => .inr (.inl h)
  simp [pickClass_eq_some, hdue]

/-- A high class is not due after a full burst while a lower class waits. -/
theorem due_iff_of_waiting (h : q.maxBurst ≤ q.highPriorityBurst) (hl : l.isHigh = false)
    (hw : 0 < q.classTotal l) (c : PriorityClass) :
    q.Due c ↔ c.isHigh = false := by
  constructor
  · intro hd
    rcases hd with hd | hd | hd
    · exact hd
    · omega
    · by_contra hc
      have hlt : c < l := by
        revert hl hc
        cases c <;> cases l <;> decide
      have := hd l hlt
      omega
  · exact fun hd => .inl hd

theorem pickClass_of_burst_ge (h : q.maxBurst ≤ q.highPriorityBurst) (hl : l.isHigh = false)
    (hw : 0 < q.classTotal l) (c : PriorityClass) :
    q.pickClass = some c ↔ c.isHigh = false ∧ 0 < q.classTotal c ∧
      ∀ c' < c, c'.isHigh = false → q.classTotal c' = 0 := by
  simp only [pickClass_eq_some, due_iff_of_waiting h hl hw]
  constructor
  · intro hc
    obtain ⟨hpos, hlow, hmin⟩ := hc
    refine ⟨hlow, hpos, ?_⟩
    intro c' hlt hlow'
    by_contra hne
    exact hmin c' hlt (Nat.pos_of_ne_zero hne) hlow'
  · intro hc
    obtain ⟨hlow, hpos, hmin⟩ := hc
    refine ⟨hpos, hlow, ?_⟩
    intro c' hlt hpos' hlow'
    have := hmin c' hlt hlow'
    omega

/-- Some class is chosen whenever some class waits. -/
theorem exists_pickClass (h : 0 < q.classTotal c) :
    ∃ c', q.pickClass = some c' := by
  -- the least urgent waiting class is due, so the waiting and due classes have a least one
  let waiting : Finset PriorityClass :=
    {.urgent, .interactive, .normal, .background, .maintenance}
  have hall : ∀ c' : PriorityClass, c' ∈ waiting := by
    intro c'
    cases c' <;> decide
  classical
  obtain ⟨last, hlast, hmax⟩ := (waiting.filter (fun c' => 0 < q.classTotal c')).exists_maximal
    ⟨c, Finset.mem_filter.mpr ⟨hall c, h⟩⟩
  have hdue : q.Due last := by
    refine .inr (.inr ?_)
    intro r hr
    by_contra hne
    have hle := hmax (Finset.mem_filter.mpr ⟨hall r, Nat.pos_of_ne_zero hne⟩) hr.le
    exact absurd hr (not_lt.mpr hle)
  obtain ⟨best, hbest, hmin⟩ :=
    (waiting.filter (fun c' => 0 < q.classTotal c' ∧ q.Due c')).exists_minimal
      ⟨last, Finset.mem_filter.mpr ⟨hall last, (Finset.mem_filter.mp hlast).2, hdue⟩⟩
  obtain ⟨-, hpos, hbdue⟩ := Finset.mem_filter.mp hbest
  refine ⟨best, pickClass_eq_some.mpr ⟨hpos, hbdue, ?_⟩⟩
  intro c' hlt hpos' hdue'
  have hle := hmin (Finset.mem_filter.mpr ⟨hall c', hpos', hdue'⟩) hlt.le
  exact absurd hlt (not_lt.mpr hle)

/-! ### The history of selections -/

/-- Length of the block of high classes that ends a history. -/
def highRun (history : List PriorityClass) : ℕ :=
  (history.reverse.takeWhile PriorityClass.isHigh).length

theorem highRun_concat (history : List PriorityClass) (c : PriorityClass) :
    highRun (history ++ [c]) = if c.isHigh then highRun history + 1 else 0 := by
  rw [highRun, List.reverse_append, List.reverse_singleton, List.singleton_append,
    List.takeWhile_cons]
  split_ifs <;> simp [highRun]

/-- A block of high classes at the end is part of the final run. -/
theorem length_le_highRun (history block : List PriorityClass)
    (h : ∀ c ∈ block, c.isHigh = true) : block.length ≤ highRun (history ++ block) := by
  induction block using List.reverseRecOn with
  | nil => simp
  | append_singleton block c ih =>
    have hb := ih (fun c' hc' => h c' (List.mem_append_left _ hc'))
    have hc : c.isHigh = true := h c (by simp)
    rw [← List.append_assoc, highRun_concat, if_pos hc, List.length_append, List.length_singleton]
    omega

/-- The counter records the final run of the history, up to saturation. -/
def BurstRecords (q : FairJobQueue J W) (history : List PriorityClass) : Prop :=
  q.highPriorityBurst = min (highRun history) (2 ^ 32 - 1)

theorem BurstRecords.lt_maxBurst_iff (h : BurstRecords q history) :
    q.highPriorityBurst < q.maxBurst ↔ highRun history < q.maxBurst := by
  have hmax : q.maxBurst ≤ 2 ^ 32 - 1 := by
    have := q.cfg.fairness.maxHighPriorityBurst.toNat_lt
    simp only [maxBurst]
    omega
  rw [h]
  omega

variable [DecidableEq J]

/-- The classes that the selections among `ops` draw from, in order. -/
def selectedClasses (q : FairJobQueue J W) : List (QueueOp J W) → List PriorityClass
  | [] => []
  | op :: ops =>
    (match op with
      | .selectNext => (q.selectNext.map (fun r => r.1.class_)).toList
      | _ => []) ++ selectedClasses (q.apply op) ops

theorem burst_apply_of_ne {op : QueueOp J W} (h : op ≠ .selectNext) :
    (q.apply op).highPriorityBurst = q.highPriorityBurst := by
  cases op with
  | insert e =>
    simp only [apply, insert, insertFresh]
    split
    · split
      · rfl
      · split_ifs <;> rfl
    · split_ifs <;> rfl
  | remove j reason =>
    simp only [apply, remove]
    cases q.removeEntry j <;> rfl
  | recomputeAging now => rfl
  | selectNext => exact absurd rfl h
  | peekCandidates limit => rw [apply, peekCandidates_snd]

theorem maxBurst_apply (q : FairJobQueue J W) (op : QueueOp J W) :
    (q.apply op).maxBurst = q.maxBurst := by
  simp [maxBurst, cfg_apply]

/-- One operation extends the history by what it selects. -/
theorem BurstRecords.apply (h : BurstRecords q history) (op : QueueOp J W) :
    BurstRecords (q.apply op) (history ++ selectedClasses q [op]) := by
  by_cases hop : op = .selectNext
  · subst hop
    simp only [selectedClasses, List.append_nil]
    cases hs : q.selectNext with
    | none => simpa [FairJobQueue.apply, hs] using h
    | some r =>
      obtain ⟨o, q'⟩ := r
      obtain ⟨queue, queue', w, -, -, -, -, -, hq'⟩ := selectNext_cases hs
      have hburst : q'.highPriorityBurst = bumpBurst q.highPriorityBurst o.class_ := by rw [hq']
      simp only [FairJobQueue.apply, hs, Option.map_some, Option.getD_some, Option.toList_some]
      rw [BurstRecords, hburst, bumpBurst, highRun_concat]
      unfold BurstRecords at h
      split_ifs <;> omega
  · have hnil : selectedClasses q [op] = [] := by
      cases op <;> simp_all [selectedClasses]
    rw [hnil, List.append_nil, BurstRecords, burst_apply_of_ne hop]
    exact h

theorem selectedClasses_cons (q : FairJobQueue J W) (op : QueueOp J W)
    (ops : List (QueueOp J W)) :
    selectedClasses q (op :: ops) = selectedClasses q [op] ++ selectedClasses (q.apply op) ops := by
  simp [selectedClasses]

theorem BurstRecords.runOps {s : FairJobQueue J W × Ledger J W} (h : BurstRecords s.1 history)
    (ops : List (QueueOp J W)) :
    BurstRecords (runOps s ops).1 (history ++ selectedClasses s.1 ops) := by
  induction ops generalizing s history with
  | nil => simpa [runOps, selectedClasses] using h
  | cons op ops ih =>
    rw [selectedClasses_cons, ← List.append_assoc]
    exact ih (s := (s.1.apply op, s.2.apply s.1 op)) (h.apply op)

/-- `l` has an entry before each of the operations. -/
def WaitsThrough (l : PriorityClass) (q : FairJobQueue J W) : List (QueueOp J W) → Prop
  | [] => True
  | op :: ops => 0 < q.classTotal l ∧ WaitsThrough l (q.apply op) ops

/-- While a class below the burst classes waits, a high class is selected only
before the burst is full. -/
theorem highRun_lt_of_selected (hl : l.isHigh = false) (hrec : BurstRecords q history)
    {ops : List (QueueOp J W)} (hw : WaitsThrough l q ops) {before after : List PriorityClass}
    (hsel : selectedClasses q ops = before ++ c :: after) (hc : c.isHigh = true) :
    highRun (history ++ before) < q.maxBurst := by
  induction ops generalizing q history before with
  | nil => simp [selectedClasses] at hsel
  | cons op ops ih =>
    obtain ⟨hpos, hw'⟩ := hw
    rw [selectedClasses_cons] at hsel
    have hcont : ∀ before', selectedClasses (q.apply op) ops = before' ++ c :: after →
        before = selectedClasses q [op] ++ before' → highRun (history ++ before) < q.maxBurst := by
      intro before' h' hb
      rw [hb, ← List.append_assoc, ← maxBurst_apply q op]
      exact ih (hrec.apply op) hw' h'
    cases hone : selectedClasses q [op] with
    | nil =>
      rw [hone] at hsel
      exact hcont before hsel (by simp [hone])
    | cons c' rest =>
      -- a single operation selects one class
      have hop : op = .selectNext := by
        cases op <;> simp_all [selectedClasses]
      subst hop
      cases hs : q.selectNext with
      | none => simp [selectedClasses, hs] at hone
      | some r =>
        simp only [selectedClasses, hs, Option.map_some, Option.toList_some, List.append_nil,
          List.cons.injEq] at hone
        obtain ⟨hc', hrest⟩ := hone
        have hsel1 : selectedClasses q [.selectNext] = [c'] := by simp [selectedClasses, hs, hc']
        rw [hsel1] at hsel
        cases before with
        | nil =>
          obtain ⟨rfl, -⟩ := List.cons.inj hsel
          obtain ⟨queue, queue', w, hpick, -⟩ := selectNext_cases hs
          rw [List.append_nil, ← hrec.lt_maxBurst_iff]
          by_contra hge
          have hlow := (pickClass_of_burst_ge (not_lt.mp hge) hl hpos _).mp hpick
          rw [hc', hc] at hlow
          simp at hlow
        | cons b before =>
          obtain ⟨rfl, htail⟩ := List.cons.inj hsel
          exact hcont before htail (by simp [hsel1])

/-- The law of class selection. Until `maxBurst` high-class selections have been
made in a row the most urgent waiting class is served; after that the most urgent
waiting class below the burst classes, if one waits; and no such class waits behind
more than `maxBurst` consecutive high-class selections. -/
theorem class_selection_law (cfg : ResolvedSchedulerConfig) (ops : List (QueueOp J W)) :
    let q := (runNew cfg ops).1
    let n := highRun (selectedClasses (new cfg : FairJobQueue J W) ops)
    let maxBurst := max cfg.fairness.maxHighPriorityBurst.toNat 1
    (n < maxBurst → ∀ c, q.pickClass = some c ↔
      0 < q.classTotal c ∧ ∀ c' < c, q.classTotal c' = 0) ∧
    (maxBurst ≤ n → (∃ l, l.isHigh = false ∧ 0 < q.classTotal l) → ∀ c,
      q.pickClass = some c ↔ c.isHigh = false ∧ 0 < q.classTotal c ∧
        ∀ c' < c, c'.isHigh = false → q.classTotal c' = 0) ∧
    ((∃ c, 0 < q.classTotal c) → ∃ c, q.pickClass = some c ∧ 0 < q.classTotal c) ∧
    (∀ l more, l.isHigh = false → WaitsThrough l q more → ∀ before block after,
      selectedClasses q more = before ++ block ++ after → (∀ c ∈ block, c.isHigh = true) →
        block.length ≤ maxBurst) := by
  intro q n maxBurst
  have hrec : BurstRecords q (selectedClasses (new cfg : FairJobQueue J W) ops) := by
    have h0 : BurstRecords (new cfg : FairJobQueue J W) [] := rfl
    exact h0.runOps (s := (new cfg, fun _ => none)) ops
  have hmax : q.maxBurst = maxBurst := by
    have hcfg : q.cfg = cfg := cfg_runOps _ ops
    simp [FairJobQueue.maxBurst, hcfg, maxBurst]
  have hiff := hrec.lt_maxBurst_iff
  rw [hmax] at hiff
  refine ⟨?_, ?_, ?_, ?_⟩
  · intro hn
    exact pickClass_of_burst_lt (hmax ▸ hiff.mpr hn)
  · intro hn hlow
    obtain ⟨l, hl, hpos⟩ := hlow
    have hge : q.maxBurst ≤ q.highPriorityBurst := by
      rw [hmax]
      exact not_lt.mp (fun hlt => absurd (hiff.mp hlt) (not_lt.mpr hn))
    exact pickClass_of_burst_ge hge hl hpos
  · intro hex
    obtain ⟨c, hpos⟩ := hex
    obtain ⟨c', hc'⟩ := exists_pickClass hpos
    exact ⟨c', hc', (pickClass_eq_some.mp hc').1⟩
  · intro l more hl hw before block after hsel hhigh
    cases hb : block using List.reverseRecOn with
    | nil => simp
    | append_singleton block' c =>
      subst hb
      have hsel' : selectedClasses q more = (before ++ block') ++ c :: after := by
        rw [hsel]
        simp
      have hlt := highRun_lt_of_selected hl hrec hw hsel' (hhigh c (by simp))
      have hlen := length_le_highRun (selectedClasses (new cfg : FairJobQueue J W) ops ++ before)
        block' (fun c' hc' => hhigh c' (List.mem_append_left _ hc'))
      rw [List.append_assoc] at hlen
      rw [List.length_append, List.length_singleton]
      omega

/-- A queue with two normal jobs and a background job, and a burst of one. -/
def normalBeforeBackground : List (QueueOp ℕ ℕ) :=
  [.insert ⟨1, 0, .normal, 0, 0, .normal⟩, .insert ⟨2, 0, .normal, 0, 0, .normal⟩,
    .insert ⟨3, 0, .background, 0, 0, .background⟩]

/-- Normal selections are not counted by the burst: the background job waits
behind two of them although the burst is one. -/
theorem background_waits_behind_normal :
    let cfg := { ResolvedSchedulerConfig.default with
      fairness := { maxHighPriorityBurst := 1, agingSecs := 300 } }
    let q := (runNew cfg normalBeforeBackground).1
    selectedClasses q [.selectNext, .selectNext] = [.normal, .normal] ∧
      q.classTotal .background = 1 ∧
      (q.apply .selectNext).classTotal .background = 1 ∧
      ((q.apply .selectNext).apply .selectNext).classTotal .background = 1 ∧
      cfg.fairness.maxHighPriorityBurst.toNat = 1 := by
  decide

end Codegg.Scheduler.FairJobQueue
