import Mathlib.Data.Prod.Lex
import Mathlib.Data.List.Sort
import Codegg.Library.LockProgram
import Mathlib.Data.String.Basic

/-!
# The locks of the document service

Every operation as the acquisitions and releases of its code. A document has a lock for
its state and a gate that keeps an operation apart from others across several critical
sections. Which documents an operation walks is what the map had when it looked, so the
lists are parameters here; an early return is a shorter list.
-/
namespace Codegg.Documents

open Codegg.Library

inductive DocumentLock where
  | key (keyString : String)
  | gate (id : String)
  | document (id : String)
  deriving DecidableEq, Repr

/-- Keys come before gates, gates before documents, and gates are ordered by identity. -/
def DocumentLock.rank : DocumentLock → ℕ ×ₗ String
  | .key _ => toLex (0, "")
  | .gate id => toLex (1, id)
  | .document _ => toLex (2, "")

/-- An operation that has been called. -/
inductive ServiceCall where
  | openDocument (keyString id : String)
  | openNew (keyString : String) (firstWalk secondWalk : List String)
  | snapshot (id : String)
  | status (id : String)
  | acquireWriter (id : String)
  | change (id : String) (dirtyWalk residentWalk : List String)
  | lockCleanPaths (documents candidates : List String) (checked : ℕ)
  | captureSave (id : String)
  | commitSave (id : String)
  | markDiskConflict (id : String)
  | refreshCleanFromDisk (id : String)
  | reloadVerified (id : String)
  | detachDocument (id : String)
  | detachClient (documents evictWalk : List String)
  deriving DecidableEq, Repr

/-- One critical section under the lock of a document. -/
def underLock (id : String) : List (LockAction DocumentLock) :=
  [.acquire (.document id), .release (.document id)]

/-- The locks of several documents, one at a time. -/
def walk (ids : List String) : List (LockAction DocumentLock) := ids.flatMap underLock

/-- `entry.key() != excluded` -/
def excluding (id : String) (ids : List String) : List String := ids.filter (· ≠ id)

/-- The identities of a map come once each. -/
def sortedIds (ids : List String) : List String := ids.dedup.insertionSort (· ≤ ·)

namespace ServiceCall

def program : ServiceCall → List (LockAction DocumentLock)
  | .openDocument keyString id =>
    .acquire (.key keyString) :: (underLock id ++ [.release (.key keyString)])
  | .openNew keyString firstWalk secondWalk =>
    .acquire (.key keyString) ::
      (walk firstWalk ++ (walk secondWalk ++ [.release (.key keyString)]))
  | .change id dirtyWalk residentWalk =>
    underLock id ++ [.acquire (.gate id), .acquire (.document id)] ++
      walk (excluding id dirtyWalk) ++ walk (excluding id residentWalk) ++
      [.release (.document id), .release (.gate id)]
  | .lockCleanPaths documents candidates checked =>
    walk documents ++ (sortedIds candidates).map (fun id => .acquire (.gate id)) ++
      walk ((sortedIds candidates).take checked) ++
      (sortedIds candidates).map fun id => .release (.gate id)
  | .snapshot id | .status id | .acquireWriter id | .captureSave id | .commitSave id
  | .markDiskConflict id | .refreshCleanFromDisk id | .reloadVerified id
  | .detachDocument id => underLock id
  | .detachClient documents evictWalk => walk documents ++ walk evictWalk

/-- The document that a change is about. -/
def changes : ServiceCall → Option String
  | .change id _ _ => some id
  | _ => none

/-- What an operation may hold when it acquires a lock: locks of lower rank; and a change
holds the gate and the lock of its own document while it looks at the others. -/
def Allows (call : ServiceCall) (held : List DocumentLock) (l : DocumentLock) : Prop :=
  (∀ h ∈ held, h.rank < l.rank) ∨
    ∃ d e, call.changes = some d ∧ held = [.document d, .gate d] ∧ l = .document e ∧ d ≠ e

end ServiceCall

abbrev ServiceTask := LockTask ServiceCall DocumentLock

/-- A call is made, or a task does its next action. -/
inductive LockStep where
  | start (call : ServiceCall)
  | run (task : ℕ)
  deriving DecidableEq, Repr

def lockStep (tasks : List ServiceTask) : LockStep → List ServiceTask
  | .start call => tasks ++ [⟨call, [], call.program⟩]
  | .run task => stepTask tasks task

def lockRun (tasks : List ServiceTask) (steps : List LockStep) : List ServiceTask :=
  steps.foldl lockStep tasks

/-- A change that has the lock of its own document for good. -/
def Keeps (t : ServiceTask) (d : String) : Prop :=
  t.origin.changes = some d ∧ DocumentLock.document d ∈ t.held ∧ DocumentLock.gate d ∈ t.held

/-- A change keeps its own document, and has yet to look at one that another change keeps. -/
def Owes (tasks : List ServiceTask) (i j : ℕ) : Prop :=
  ∃ a b d e, tasks[i]? = some a ∧ tasks[j]? = some b ∧ Keeps a d ∧
    LockAction.acquire (DocumentLock.document e) ∈ a.rest ∧ Keeps b e

/-- A change is about to take the lock of its own document for good. -/
def TakesOwn (t : ServiceTask) : Prop :=
  ∃ d, t.origin.changes = some d ∧ t.next = some (.document d) ∧ DocumentLock.gate d ∈ t.held

/-- No change takes the lock of its own document where this closes a ring of changes, each
with the document of the next one still to look at. -/
def ClearStep (tasks : List ServiceTask) : LockStep → Prop
  | .start _ => True
  | .run task => ∀ t ∈ tasks[task]?, TakesOwn t →
      ¬Relation.TransGen (Owes (stepTask tasks task)) task task

def ClearLockRun : List ServiceTask → List LockStep → Prop
  | _, [] => True
  | tasks, step :: steps => ClearStep tasks step ∧ ClearLockRun (lockStep tasks step) steps

/-! ### The programs keep to the order -/

section

variable {call : ServiceCall} {held : List DocumentLock} {rest : List (LockAction DocumentLock)}

theorem rank_lt_document {h : DocumentLock} {id : String} (hd : ∀ e, h ≠ .document e) :
    h.rank < (DocumentLock.document id).rank := by
  cases h with
  | key keyString => exact Prod.Lex.left _ _ (by decide)
  | gate g => exact Prod.Lex.left _ _ (by decide)
  | document e => exact absurd rfl (hd e)

theorem disciplined_walk (ids : List String)
    (hids : ∀ id ∈ ids, call.Allows held (.document id))
    (hrest : Disciplined call.Allows held rest) :
    Disciplined call.Allows held (walk ids ++ rest) := by
  induction ids with
  | nil => exact hrest
  | cons id ids ih =>
    have hone := ih fun i hi => hids i (List.mem_cons_of_mem id hi)
    refine ⟨hids id List.mem_cons_self, ?_⟩
    show Disciplined call.Allows ((DocumentLock.document id :: held).erase (.document id)) _
    rw [List.erase_cons_head]
    exact hone

theorem disciplined_underLock {id : String} (hid : call.Allows held (.document id))
    (hrest : Disciplined call.Allows held rest) :
    Disciplined call.Allows held (underLock id ++ rest) := by
  have hwalk := disciplined_walk [id] (by simpa using hid) hrest
  simpa [walk] using hwalk

theorem disciplined_releases (held locks : List DocumentLock) :
    Disciplined call.Allows held (locks.map .release) := by
  induction locks generalizing held with
  | nil => trivial
  | cons l locks ih => exact ih (held.erase l)

theorem disciplined_gates {ids : List String} (hsorted : ids.Pairwise (· < ·))
    (hlower : ∀ h ∈ held, ∀ id ∈ ids, h.rank < (DocumentLock.gate id).rank)
    (hrest : Disciplined call.Allows ((ids.map .gate).reverse ++ held) rest) :
    Disciplined call.Allows held (ids.map (fun id => .acquire (.gate id)) ++ rest) := by
  induction ids generalizing held with
  | nil => exact hrest
  | cons id ids ih =>
    obtain ⟨hfirst, hothers⟩ := List.pairwise_cons.mp hsorted
    refine ⟨.inl fun h hh => hlower h hh id List.mem_cons_self, ?_⟩
    refine ih hothers ?_ ?_
    · intro h hh i hi
      rcases List.mem_cons.mp hh with rfl | hh
      · exact Prod.Lex.right _ (hfirst i hi)
      · exact hlower h hh i (List.mem_cons_of_mem id hi)
    · simpa using hrest

theorem pairwise_sortedIds (ids : List String) : (sortedIds ids).Pairwise (· < ·) := by
  have hle : (sortedIds ids).Pairwise (· ≤ ·) := List.pairwise_insertionSort _ _
  have hnodup : (sortedIds ids).Nodup :=
    (List.perm_insertionSort _ _).nodup_iff.mpr (List.nodup_dedup ids)
  exact (hle.and hnodup).imp fun h => lt_of_le_of_ne h.1 h.2

theorem disciplined_program (call : ServiceCall) : Disciplined call.Allows [] call.program := by
  have hnone : ∀ l, call.Allows [] l := fun l => .inl fun h hh => absurd hh List.not_mem_nil
  have hsingle : ∀ id, Disciplined call.Allows [] (underLock id) := fun id => by
    have hlock : Disciplined call.Allows [] (underLock id ++ []) :=
      disciplined_underLock (hnone (.document id)) trivial
    simpa using hlock
  have hkey : ∀ keyString id, call.Allows [.key keyString] (.document id) := by
    intro keyString id
    refine .inl fun h hh => rank_lt_document fun e => ?_
    obtain rfl := List.mem_singleton.mp hh
    exact DocumentLock.noConfusion
  cases call with
  | openDocument keyString id =>
    exact ⟨hnone _, disciplined_underLock (hkey keyString id) trivial⟩
  | openNew keyString firstWalk secondWalk =>
    refine ⟨hnone _, disciplined_walk _ (fun id _ => hkey keyString id) ?_⟩
    exact disciplined_walk _ (fun id _ => hkey keyString id) trivial
  | change id dirtyWalk residentWalk =>
    have hwalks : ∀ i ∈ excluding id dirtyWalk ++ excluding id residentWalk,
        ServiceCall.Allows (.change id dirtyWalk residentWalk) [.document id, .gate id]
          (.document i) := by
      intro i hi
      refine .inr ⟨id, i, rfl, rfl, rfl, ?_⟩
      rintro rfl
      simp [excluding] at hi
    rw [ServiceCall.program]
    simp only [List.append_assoc]
    refine disciplined_underLock (hnone _) ⟨hnone _, ?_, ?_⟩
    · refine .inl fun h hh => rank_lt_document fun e => ?_
      obtain rfl := List.mem_singleton.mp hh
      exact DocumentLock.noConfusion
    · refine disciplined_walk _ (fun i hi => hwalks i (List.mem_append_left _ hi)) ?_
      exact disciplined_walk _ (fun i hi => hwalks i (List.mem_append_right _ hi)) trivial
  | lockCleanPaths documents candidates checked =>
    rw [ServiceCall.program]
    simp only [List.append_assoc]
    refine disciplined_walk _ (fun id _ => hnone _) (disciplined_gates (pairwise_sortedIds _)
      (fun h hh => absurd hh List.not_mem_nil) ?_)
    refine disciplined_walk _ (fun id _ => .inl fun h hh => rank_lt_document fun e => ?_) ?_
    · simp only [List.append_nil, List.mem_reverse, List.mem_map] at hh
      obtain ⟨g, -, rfl⟩ := hh
      exact DocumentLock.noConfusion
    · have hreleases :=
        @disciplined_releases (.lockCleanPaths documents candidates checked)
        (((sortedIds candidates).map .gate).reverse ++ []) ((sortedIds candidates).map .gate)
      rwa [List.map_map] at hreleases
  | detachClient documents evictWalk =>
    have hevict : Disciplined (ServiceCall.detachClient documents evictWalk).Allows []
        (walk evictWalk ++ []) := disciplined_walk _ (fun id _ => hnone (.document id)) trivial
    have hboth := disciplined_walk documents (fun id _ => hnone (.document id)) hevict
    simpa [ServiceCall.program] using hboth
  | snapshot id | status id | acquireWriter id | captureSave id | commitSave id
  | markDiskConflict id | refreshCleanFromDisk id | reloadVerified id
  | detachDocument id => exact hsingle id

end

/-! ### Deadlocks are rings of changes -/

section

variable {tasks : List ServiceTask} {i j : ℕ}

/-- Every task goes on with its program. -/
def Orderly (tasks : List ServiceTask) : Prop :=
  ∀ t ∈ tasks, Disciplined t.origin.Allows t.held t.rest

/-- A change that keeps its own document waits for another one. -/
def BlockedChange (tasks : List ServiceTask) (i : ℕ) : Prop :=
  ∃ a d e, tasks[i]? = some a ∧ a.origin.changes = some d ∧
    a.held = [.document d, .gate d] ∧ a.next = some (.document e)

/-- The rank of the lock a task waits for. -/
def waitRank (tasks : List ServiceTask) (i : ℕ) : ℕ ×ₗ String :=
  (tasks[i]?.bind LockTask.next).elim (toLex (0, "")) DocumentLock.rank

theorem waitRank_eq {a : ServiceTask} {l : DocumentLock} (ha : tasks[i]? = some a)
    (hl : a.next = some l) : waitRank tasks i = l.rank := by
  rw [waitRank, ha, Option.bind_some, hl]
  rfl

/-- A task that waits holds lower locks only, or is a change at the other documents. -/
theorem next_cases (h : Orderly tasks) {a : ServiceTask} {l : DocumentLock}
    (ha : tasks[i]? = some a) (hl : a.next = some l) :
    (∀ k ∈ a.held, k.rank < l.rank) ∨ BlockedChange tasks i := by
  rcases (h a (List.mem_of_getElem? ha)).next hl with hrank | ⟨d, e, hd, hheld, rfl, -⟩
  · exact .inl hrank
  · exact .inr ⟨a, d, e, ha, hd, hheld, hl⟩

/-- A cycle of tasks that wait is a ring of changes. -/
theorem ring_of_deadlocked (h : Orderly tasks) (hdead : Deadlocked tasks) :
    ∃ i, Relation.TransGen (Owes tasks) i i := by
  obtain ⟨i, hcycle⟩ := hdead
  have hcycle := cycle_succ hcycle
  have hclosed : ∀ a b, BlockedChange tasks a →
      (WaitsFor tasks a b ∧ ∃ c, WaitsFor tasks b c) → BlockedChange tasks b := by
    rintro a b ⟨t, d, e, ht, -, -, hnext⟩ ⟨⟨t', b', l, ht', hb, hl, hmem⟩, c, hwaits⟩
    obtain ⟨b'', _, l', hb', _, hl', _⟩ := hwaits
    obtain rfl := Option.some.inj (ht.symm.trans ht')
    obtain rfl := Option.some.inj (hb.symm.trans hb')
    obtain rfl := Option.some.inj (hnext.symm.trans hl)
    rcases next_cases h hb hl' with hrank | hblocked
    · exfalso
      have hlt := hrank _ hmem
      have hlow : (∀ f, l' ≠ .document f) → l'.rank < (DocumentLock.document e).rank :=
        rank_lt_document
      cases l' with
      | document f => exact lt_irrefl _ hlt
      | key keyString => exact lt_asymm hlt (hlow fun _ => DocumentLock.noConfusion)
      | gate g => exact lt_asymm hlt (hlow fun _ => DocumentLock.noConfusion)
    · exact hblocked
  have hrank : ∀ a b, ¬BlockedChange tasks b →
      (WaitsFor tasks a b ∧ ∃ c, WaitsFor tasks b c) → waitRank tasks a < waitRank tasks b := by
    rintro a b hfree ⟨⟨t, b', l, ht, hb, hl, hmem⟩, c, hwaits⟩
    obtain ⟨b'', _, l', hb', _, hl', _⟩ := hwaits
    obtain rfl := Option.some.inj (hb.symm.trans hb')
    rw [waitRank_eq ht hl, waitRank_eq hb hl']
    exact (next_cases h hb hl').resolve_right hfree l hmem
  have hinside : ∀ a b, BlockedChange tasks a →
      (WaitsFor tasks a b ∧ ∃ c, WaitsFor tasks b c) → Owes tasks a b := by
    intro a b hblocked hedge
    obtain ⟨t', d', e', hb, hchange', hheld', -⟩ := hclosed a b hblocked hedge
    obtain ⟨t, d, e, ht, hchange, hheld, hnext⟩ := hblocked
    obtain ⟨⟨u, v, l, hu, hv, hl, hmem⟩, -⟩ := hedge
    obtain rfl := Option.some.inj (ht.symm.trans hu)
    obtain rfl := Option.some.inj (hb.symm.trans hv)
    obtain rfl := Option.some.inj (hnext.symm.trans hl)
    have heq : e = d' := by
      rw [hheld'] at hmem
      simpa using hmem
    subst heq
    obtain ⟨rest, hrest⟩ := LockTask.next_eq_some hnext
    refine ⟨t, t', d, e, ht, hb, ⟨hchange, ?_, ?_⟩, ?_, hchange', hmem, ?_⟩
    · rw [hheld]
      exact List.mem_cons_self
    · rw [hheld]
      exact List.mem_cons_of_mem _ List.mem_cons_self
    · rw [hrest]
      exact List.mem_cons_self
    · rw [hheld']
      exact List.mem_cons_of_mem _ List.mem_cons_self
  exact ⟨i, cycle_inside hclosed hinside (cycle_mem (waitRank tasks) hclosed hrank hcycle) hcycle⟩

theorem Orderly.step (h : Orderly tasks) (step : LockStep) : Orderly (lockStep tasks step) := by
  cases step with
  | start call =>
    intro t ht
    rcases List.mem_append.mp ht with ht | ht
    · exact h t ht
    · obtain rfl := List.mem_singleton.mp ht
      exact disciplined_program call
  | run task =>
    intro t' ht'
    obtain ⟨n, hn⟩ := List.mem_iff_getElem?.mp ht'
    obtain ⟨t, ht, rfl | ⟨-, rfl⟩⟩ := getElem?_stepTask hn
    · exact h t' (List.mem_of_getElem? ht)
    · rw [origin_advance]
      exact (h t (List.mem_of_getElem? ht)).advance

/-- No ring of changes. -/
def Ringless (tasks : List ServiceTask) : Prop := ∀ i, ¬Relation.TransGen (Owes tasks) i i

/-- A change comes to keep its document by taking the document's lock under its gate. -/
theorem keeps_of_advance {t : ServiceTask} {d : String}
    (hd : Disciplined t.origin.Allows t.held t.rest) (h : Keeps (advance tasks t) d) :
    Keeps t d ∨ TakesOwn t := by
  obtain ⟨hchange, hdocument, hgate⟩ := h
  rw [origin_advance] at hchange
  rcases mem_held_advance hdocument with hheld | ⟨hnext, heq⟩
  · rcases mem_held_advance hgate with hgate | ⟨hnext, -⟩
    · exact .inl ⟨hchange, hheld, hgate⟩
    · -- a gate is not acquired under the lock of a document
      exfalso
      rcases hd.next hnext with hrank | ⟨_, _, -, -, hl, -⟩
      · exact lt_asymm (hrank _ hheld) (rank_lt_document fun _ => DocumentLock.noConfusion)
      · cases hl
  · refine .inr ⟨d, hchange, hnext, ?_⟩
    rw [heq] at hgate
    rcases List.mem_cons.mp hgate with hbad | hgate
    · cases hbad
    · exact hgate

theorem Ringless.step (h : Ringless tasks) (horderly : Orderly tasks) {step : LockStep}
    (hclear : ClearStep tasks step) : Ringless (lockStep tasks step) := by
  cases step with
  | start call =>
    have hold : ∀ (n : ℕ) (t : ServiceTask) (d : String),
        (tasks ++ [(⟨call, [], call.program⟩ : ServiceTask)])[n]? = some t → Keeps t d →
          tasks[n]? = some t := by
      intro n t d hn hkeeps
      rcases Nat.lt_or_ge n tasks.length with hlt | hge
      · rwa [List.getElem?_append_left hlt] at hn
      · rw [List.getElem?_append_right hge] at hn
        have hnew : t = ⟨call, [], call.program⟩ :=
          List.mem_singleton.mp (List.mem_of_getElem? hn)
        subst hnew
        exact absurd hkeeps.2.1 List.not_mem_nil
    intro i hring
    refine h i (Relation.TransGen.mono (fun x y hxy => ?_) i i hring)
    obtain ⟨a, b, d, e, ha, hb, hkeeps, hmem, hkeeps'⟩ := hxy
    exact ⟨a, b, d, e, hold x a d ha hkeeps, hold y b e hb hkeeps', hkeeps, hmem, hkeeps'⟩
  | run task =>
    have hedge : ∀ x y, Owes (stepTask tasks task) x y →
        (∀ t ∈ tasks[task]?, TakesOwn t → x ≠ task ∧ y ≠ task) → Owes tasks x y := by
      rintro x y ⟨a', b', d, e, ha', hb', hkeeps, hmem, hkeeps'⟩ haway
      obtain ⟨a, ha, hfrom⟩ := getElem?_stepTask ha'
      obtain ⟨b, hb, hfrom'⟩ := getElem?_stepTask hb'
      refine ⟨a, b, d, e, ha, hb, ?_, ?_, ?_⟩
      · rcases hfrom with rfl | ⟨rfl, rfl⟩
        · exact hkeeps
        · exact (keeps_of_advance (horderly a (List.mem_of_getElem? ha)) hkeeps).resolve_right
            fun htakes => (haway a ha htakes).1 rfl
      · rcases hfrom with rfl | ⟨rfl, rfl⟩
        · exact hmem
        · exact mem_rest_advance hmem
      · rcases hfrom' with rfl | ⟨rfl, rfl⟩
        · exact hkeeps'
        · exact (keeps_of_advance (horderly b (List.mem_of_getElem? hb)) hkeeps').resolve_right
            fun htakes => (haway b hb htakes).2 rfl
    by_cases htakes : ∃ t ∈ tasks[task]?, TakesOwn t
    · obtain ⟨t, ht, htakes⟩ := htakes
      exact cycle_through (fun x y hxy hx hy => hedge x y hxy fun _ _ _ => ⟨hx, hy⟩) h
        (hclear t ht htakes)
    · intro i hring
      exact h i (Relation.TransGen.mono (fun x y hxy =>
        hedge x y hxy fun t ht htakes' => absurd ⟨t, ht, htakes'⟩ htakes) i i hring)

/-- In every run in which no change closes a ring, no operations wait for each other in a
cycle. -/
theorem run_no_deadlock (steps : List LockStep) (h : ClearLockRun [] steps) :
    ¬Deadlocked (lockRun [] steps) := by
  have hrun : ∀ (tasks : List ServiceTask) (steps : List LockStep), Orderly tasks →
      Ringless tasks → ClearLockRun tasks steps →
        Orderly (lockRun tasks steps) ∧ Ringless (lockRun tasks steps) := by
    intro tasks steps
    induction steps generalizing tasks with
    | nil => exact fun horderly hringless _ => ⟨horderly, hringless⟩
    | cons step steps ih =>
      exact fun horderly hringless hclear =>
        ih _ (horderly.step step) (hringless.step horderly hclear.1) hclear.2
  have hempty : Ringless [] := by
    intro i hring
    obtain ⟨j, ⟨a, b, d, e, ha, -⟩, -⟩ := Relation.TransGen.head'_iff.mp hring
    cases ha
  obtain ⟨horderly, hringless⟩ := hrun [] steps (fun t ht => absurd ht List.not_mem_nil) hempty h
  intro hdead
  obtain ⟨i, hring⟩ := ring_of_deadlocked horderly hdead
  exact hringless i hring

end

/-! ### Two changes -/

instance (tasks : List ServiceTask) (i j : ℕ) : Decidable (Owes tasks i j) :=
  decidable_of_iff (∃ a ∈ tasks[i]?, ∃ b ∈ tasks[j]?, ∃ d ∈ a.origin.changes,
    ∃ e ∈ b.origin.changes, (DocumentLock.document d ∈ a.held ∧ DocumentLock.gate d ∈ a.held) ∧
      LockAction.acquire (DocumentLock.document e) ∈ a.rest ∧
      DocumentLock.document e ∈ b.held ∧ DocumentLock.gate e ∈ b.held)
    ⟨fun ⟨a, ha, b, hb, d, hd, e, he, hown, hmem, hown'⟩ =>
      ⟨a, b, d, e, ha, hb, ⟨hd, hown⟩, hmem, he, hown'⟩,
    fun ⟨a, b, d, e, ha, hb, ⟨hd, hown⟩, hmem, he, hown'⟩ =>
      ⟨a, ha, b, hb, d, hd, e, he, hown, hmem, hown'⟩⟩

/-- A change that has no kept document to look at closes no ring. -/
theorem clearStep_of_no_edge {tasks : List ServiceTask} {task : ℕ}
    (h : ∀ j < (stepTask tasks task).length, ¬Owes (stepTask tasks task) task j) :
    ClearStep tasks (.run task) := by
  intro t _ _ hring
  obtain ⟨j, hedge, -⟩ := Relation.TransGen.head'_iff.mp hring
  have hlt : j < (stepTask tasks task).length := by
    obtain ⟨_, b, _, _, _, hb, _⟩ := hedge
    exact (List.getElem?_eq_some_iff.mp hb).1
  exact h j hlt hedge

/-- The second change gets as far as the gate of its document, and goes on when the first
one is through. -/
theorem run_no_deadlock_in_turn :
    ¬Deadlocked (lockRun [] [.start (.change "a" [] ["a", "b"]),
      .start (.change "b" [] ["a", "b"]), .run 0, .run 0, .run 1, .run 1, .run 1, .run 0, .run 0,
      .run 0, .run 0, .run 0, .run 0, .run 1, .run 1, .run 1]) := by
  refine run_no_deadlock _ ?_
  repeat' first
    | exact trivial
    | exact clearStep_of_no_edge (by decide)
    | refine ⟨?_, ?_⟩

/-- Two clients change two documents: each takes the lock of its own one, and then each
wants that of the other. -/
def crossedChanges : List LockStep :=
  [.start (.change "a" [] ["a", "b"]), .start (.change "b" [] ["a", "b"]),
    .run 0, .run 0, .run 0, .run 0, .run 1, .run 1, .run 1, .run 1]

theorem crossedChanges_deadlock : Deadlocked (lockRun [] crossedChanges) := by
  refine ⟨0, .tail (.single (b := 1) ?_) ?_⟩
  · exact ⟨_, _, .document "b", rfl, rfl, rfl, by decide⟩
  · exact ⟨_, _, .document "a", rfl, rfl, rfl, by decide⟩

end Codegg.Documents
