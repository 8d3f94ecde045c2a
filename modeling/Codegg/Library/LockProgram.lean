import Mathlib.Logic.Relation
import Mathlib.Tactic

/-!
# Programs over locks

A task is a sequence of acquisitions and releases, with the locks it holds. Tasks run
interleaved; an acquisition goes through when nobody holds the lock. A task waits for
another one when its next action is to acquire a lock that one holds, and a deadlock is a
cycle of tasks that wait.

Locks that are taken in the order of some rank do not lead to a deadlock. The rule here
also allows for tasks that break the order: a cycle then runs through such tasks only.
-/
namespace Codegg.Library

variable {ι L : Type}

inductive LockAction (L : Type) where
  | acquire (l : L)
  | release (l : L)
  deriving DecidableEq, Repr

/-- A task with its origin, the locks it holds and what it has yet to do. -/
structure LockTask (ι L : Type) where
  origin : ι
  held : List L
  rest : List (LockAction L)
  deriving DecidableEq, Repr

variable {t : LockTask ι L} {l : L} {tasks : List (LockTask ι L)}

namespace LockTask

/-- The lock a task is about to acquire. -/
def next (t : LockTask ι L) : Option L :=
  match t.rest with
  | .acquire l :: _ => some l
  | _ => none

theorem next_eq_some (h : t.next = some l) :
    ∃ rest, t.rest = .acquire l :: rest := by
  rw [next] at h
  split at h
  · next l' rest heq =>
    cases h
    exact ⟨rest, heq⟩
  · cases h

end LockTask

variable [DecidableEq L]

def isFree (tasks : List (LockTask ι L)) (l : L) : Bool := tasks.all fun t => !t.held.contains l

/-- What a task is after its next action, which is not an acquisition that has to wait. -/
def advance (tasks : List (LockTask ι L)) (t : LockTask ι L) : LockTask ι L :=
  match t.rest with
  | .acquire l :: rest => if isFree tasks l then { t with held := l :: t.held, rest := rest } else t
  | .release l :: rest => { t with held := t.held.erase l, rest := rest }
  | [] => t

/-- The next action of one task. -/
def stepTask (tasks : List (LockTask ι L)) (i : ℕ) : List (LockTask ι L) :=
  match tasks[i]? with
  | some t => tasks.set i (advance tasks t)
  | none => tasks

@[simp] theorem origin_advance (tasks : List (LockTask ι L)) (t : LockTask ι L) :
    (advance tasks t).origin = t.origin := by
  rw [advance]
  split
  · split <;> rfl
  · rfl
  · rfl

theorem mem_rest_advance {x : LockAction L} (h : x ∈ (advance tasks t).rest) : x ∈ t.rest := by
  obtain ⟨origin, held, rest⟩ := t
  rw [advance] at h
  cases rest with
  | nil => exact h
  | cons action rest =>
    cases action with
    | acquire l =>
      simp only at h
      split at h
      · exact List.mem_cons_of_mem _ h
      · exact h
    | release l => exact List.mem_cons_of_mem _ h

/-- What a task holds after an action was held before, or has just been acquired. -/
theorem mem_held_advance (h : l ∈ (advance tasks t).held) :
    l ∈ t.held ∨ (t.next = some l ∧ (advance tasks t).held = l :: t.held) := by
  obtain ⟨origin, held, rest⟩ := t
  rw [advance] at h ⊢
  cases rest with
  | nil => exact Or.inl h
  | cons action rest =>
    cases action with
    | acquire k =>
      simp only at h ⊢
      split at h
      · next hfree =>
        rw [if_pos hfree]
        rcases List.mem_cons.mp h with rfl | h
        · exact Or.inr ⟨rfl, rfl⟩
        · exact Or.inl h
      · exact Or.inl h
    | release k => exact Or.inl (List.mem_of_mem_erase h)

theorem getElem?_stepTask {i j : ℕ} {t' : LockTask ι L} (h : (stepTask tasks i)[j]? = some t') :
    ∃ t, tasks[j]? = some t ∧ (t' = t ∨ (j = i ∧ t' = advance tasks t)) := by
  rw [stepTask] at h
  cases hi : tasks[i]? with
  | none =>
    rw [hi] at h
    exact ⟨t', h, Or.inl rfl⟩
  | some t =>
    rw [hi] at h
    by_cases hij : i = j
    · subst hij
      obtain ⟨hlt, -⟩ := List.getElem?_eq_some_iff.mp hi
      rw [List.getElem?_set_self hlt] at h
      exact ⟨t, hi, Or.inr ⟨rfl, (Option.some.inj h).symm⟩⟩
    · rw [List.getElem?_set_ne hij] at h
      exact ⟨t', h, Or.inl rfl⟩

/-! ### Waiting -/

def WaitsFor (tasks : List (LockTask ι L)) (i j : ℕ) : Prop :=
  ∃ a b l, tasks[i]? = some a ∧ tasks[j]? = some b ∧ a.next = some l ∧ l ∈ b.held

/-- A cycle of tasks that wait for each other. -/
def Deadlocked (tasks : List (LockTask ι L)) : Prop :=
  ∃ i, Relation.TransGen (WaitsFor tasks) i i

/-! ### Discipline -/

/-- Every acquisition still to come is allowed with what is held then. -/
def Disciplined (allowed : List L → L → Prop) : List L → List (LockAction L) → Prop
  | _, [] => True
  | held, .acquire l :: rest => allowed held l ∧ Disciplined allowed (l :: held) rest
  | held, .release l :: rest => Disciplined allowed (held.erase l) rest

variable {allowed : List L → L → Prop}

theorem Disciplined.advance (h : Disciplined allowed t.held t.rest) :
    Disciplined allowed (advance tasks t).held (advance tasks t).rest := by
  obtain ⟨origin, held, rest⟩ := t
  rw [Library.advance]
  cases rest with
  | nil => exact h
  | cons action rest =>
    cases action with
    | acquire l =>
      simp only
      split
      · exact h.2
      · exact h
    | release l => exact h

theorem Disciplined.next (h : Disciplined allowed t.held t.rest) (hnext : t.next = some l) :
    allowed t.held l := by
  obtain ⟨rest, hrest⟩ := LockTask.next_eq_some hnext
  rw [hrest] at h
  exact h.1

/-! ### Cycles -/

section

variable {α β : Type} {W : α → α → Prop} {P : α → Prop}

variable {a : α}

/-- A cycle along which a rank grows outside a set that it does not leave is inside the
set. -/
theorem cycle_mem [Preorder β] (rank : α → β) (hclosed : ∀ a b, P a → W a b → P b)
    (hrank : ∀ a b, ¬P b → W a b → rank a < rank b) (h : Relation.TransGen W a a) :
    P a := by
  have hgrows : ∀ {b c}, Relation.TransGen W b c → ¬P c → rank b < rank c := by
    intro b c hbc hc
    induction hbc with
    | single hw => exact hrank _ _ hc hw
    | tail hbc' hw ih =>
      have hmid := fun hmid => hc (hclosed _ _ hmid hw)
      exact (ih hmid).trans (hrank _ _ hc hw)
  by_contra ha
  exact lt_irrefl _ (hgrows h ha)

/-- Inside the set such a cycle is a cycle of the relation the set is about. -/
theorem cycle_inside {Q : α → α → Prop} (hclosed : ∀ a b, P a → W a b → P b)
    (hinside : ∀ a b, P a → W a b → Q a b) (ha : P a) (h : Relation.TransGen W a a) :
    Relation.TransGen Q a a := by
  have hall : ∀ {b c}, Relation.TransGen W b c → P b → Relation.TransGen Q b c ∧ P c := by
    intro b c hbc hb
    induction hbc with
    | single hw => exact ⟨.single (hinside _ _ hb hw), hclosed _ _ hb hw⟩
    | tail _ hw ih => exact ⟨ih.1.tail (hinside _ _ ih.2 hw), hclosed _ _ ih.2 hw⟩
  exact (hall h ha).1

/-- On a cycle every point has a successor. -/
theorem cycle_succ (h : Relation.TransGen W a a) :
    Relation.TransGen (fun b c => W b c ∧ ∃ d, W c d) a a := by
  have hall : ∀ {b c}, Relation.TransGen W b c → (∃ d, W c d) →
      Relation.TransGen (fun b c => W b c ∧ ∃ d, W c d) b c := by
    intro b c hbc
    induction hbc with
    | single hw => exact fun hc => .single ⟨hw, hc⟩
    | tail _ hw ih => exact fun hc => (ih ⟨_, hw⟩).tail ⟨hw, hc⟩
  obtain ⟨d, hd, -⟩ := Relation.TransGen.head'_iff.mp h
  exact hall h ⟨d, hd⟩

/-- Edges that all touch one point close a cycle through that point only. -/
theorem cycle_through {Q R : α → α → Prop} {p : α} (hQ : ∀ a b, R a b → a ≠ p → b ≠ p → Q a b)
    (hacyclic : ∀ a, ¬Relation.TransGen Q a a) (hp : ¬Relation.TransGen R p p) (a : α) :
    ¬Relation.TransGen R a a := by
  intro h
  have hsplit : ∀ {b c}, Relation.TransGen R b c → b ≠ p → c ≠ p →
      Relation.TransGen Q b c ∨ (Relation.TransGen R b p ∧ Relation.TransGen R p c) := by
    intro b c hbc hb hc
    induction hbc with
    | single hw => exact Or.inl (.single (hQ _ _ hw hb hc))
    | @tail d c hbd hw ih =>
      by_cases hd : d = p
      · subst hd
        exact Or.inr ⟨hbd, .single hw⟩
      · rcases ih hd with hq | ⟨hbp, hpd⟩
        · exact Or.inl (hq.tail (hQ _ _ hw hd hc))
        · exact Or.inr ⟨hbp, hpd.tail hw⟩
  by_cases ha : a = p
  · exact hp (ha ▸ h)
  · rcases hsplit h ha ha with hq | ⟨hap, hpa⟩
    · exact hacyclic a hq
    · exact hp (hpa.trans hap)

end

end Codegg.Library
