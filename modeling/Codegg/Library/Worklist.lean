import Mathlib.Logic.Relation
import Mathlib.Tactic

/-!
# Search with a worklist

A worklist holds nodes that have been found and not yet expanded. Expanding a node
adds those of its children that were never found before, each once, to the worklist
and to the nodes found so far. The root counts as found from the start but is not
among them.

When all children come from a finite universe, as many expansions as there are nodes
in it, and one more for the root, empty the worklist. What has been found then is
exactly what can be reached from the root, each node once, without the root.

A relation stays acyclic under one more pair exactly when the second component does not
reach the first.
-/
namespace Codegg.Library.Worklist

variable {α : Type*} [DecidableEq α]

/-- The nodes to expand, the next one first, and the nodes found, in order. -/
structure State (α : Type*) where
  queue : List α
  found : List α

def visit (root : α) (st : State α) (child : α) : State α :=
  if child = root ∨ child ∈ st.found then st else ⟨child :: st.queue, st.found ++ [child]⟩

def expand (children : α → List α) (root current : α) (st : State α) : State α :=
  (children current).foldl (visit root) st

def search (children : α → List α) (root : α) : ℕ → State α → List α
  | 0, st => st.found
  | _ + 1, ⟨[], found⟩ => found
  | fuel + 1, ⟨current :: queue, found⟩ =>
      search children root fuel (expand children root current ⟨queue, found⟩)

/-- Visiting a list of nodes finds its new members, each once. -/
theorem foldl_visit (root : α) (cs : List α) (st : State α) :
    ∃ new, cs.foldl (visit root) st = ⟨new.reverse ++ st.queue, st.found ++ new⟩ ∧
      new.Nodup ∧ (∀ c ∈ new, c ∈ cs ∧ c ≠ root ∧ c ∉ st.found) ∧
      ∀ c ∈ cs, c = root ∨ c ∈ st.found ++ new := by
  induction cs generalizing st with
  | nil => exact ⟨[], by simp, by simp, by simp, by simp⟩
  | cons c cs ih =>
    rw [List.foldl_cons]
    by_cases hc : c = root ∨ c ∈ st.found
    · rw [visit, if_pos hc]
      obtain ⟨new, heq, hnodup, hnew, hall⟩ := ih st
      refine ⟨new, heq, hnodup, fun x hx => ?_, fun x hx => ?_⟩
      · exact ⟨List.mem_cons_of_mem _ (hnew x hx).1, (hnew x hx).2⟩
      · rcases List.mem_cons.mp hx with rfl | hx
        · exact hc.imp_right (List.mem_append_left _)
        · exact hall x hx
    · rw [visit, if_neg hc]
      obtain ⟨hroot, hfound⟩ := not_or.mp hc
      obtain ⟨new, heq, hnodup, hnew, hall⟩ := ih ⟨c :: st.queue, st.found ++ [c]⟩
      have hnot : c ∉ new := fun h => (hnew c h).2.2 (by simp)
      refine ⟨c :: new, by simp [heq], List.nodup_cons.mpr ⟨hnot, hnodup⟩, fun x hx => ?_,
        fun x hx => ?_⟩
      · rcases List.mem_cons.mp hx with rfl | hx
        · exact ⟨List.mem_cons_self, hroot, hfound⟩
        · obtain ⟨hcs, hne, hx'⟩ := hnew x hx
          exact ⟨List.mem_cons_of_mem _ hcs, hne, fun h => hx' (List.mem_append_left _ h)⟩
      · rcases List.mem_cons.mp hx with rfl | hx
        · exact .inr (by simp)
        · refine (hall x hx).imp_right fun h => ?_
          simpa [or_assoc] using h

section Reachability

variable (children : α → List α) (root : α)

/-- `b` is a child of `a`. -/
def Child (a b : α) : Prop := b ∈ children a

/-- What holds between two expansions: every node found is reached from the root, and
a node that was found is still to be expanded or has all its children found. -/
structure Searching (st : State α) : Prop where
  nodup : st.found.Nodup
  notRoot : root ∉ st.found
  reached : ∀ x ∈ st.found, Relation.TransGen (Child children) root x
  queued : ∀ x ∈ st.queue, x ∈ root :: st.found
  expanded : ∀ x ∈ root :: st.found, x ∈ st.queue ∨
    ∀ y ∈ children x, y ∈ root :: st.found

variable {children root}

omit [DecidableEq α] in
theorem searching_start : Searching children root ⟨[root], []⟩ where
  nodup := List.nodup_nil
  notRoot := List.not_mem_nil
  reached _ hx := absurd hx List.not_mem_nil
  queued _ hx := hx
  expanded _ hx := .inl hx

theorem Searching.expand {current : α} {queue found : List α}
    (h : Searching children root ⟨current :: queue, found⟩) :
    ∃ new, expand children root current ⟨queue, found⟩ =
        ⟨new.reverse ++ queue, found ++ new⟩ ∧ (∀ x ∈ new, x ∈ children current) ∧
      Searching children root ⟨new.reverse ++ queue, found ++ new⟩ := by
  obtain ⟨new, heq, hnodup, hnew, hall⟩ := foldl_visit root (children current) ⟨queue, found⟩
  have hcurrent : current ∈ root :: found := h.queued current List.mem_cons_self
  have hreach : ∀ x ∈ new, Relation.TransGen (Child children) root x := by
    intro x hx
    rcases List.mem_cons.mp hcurrent with rfl | hmem
    · exact .single (hnew x hx).1
    · exact (h.reached current hmem).tail (hnew x hx).1
  refine ⟨new, heq, fun x hx => (hnew x hx).1, ?_, ?_, ?_, ?_, ?_⟩
  · exact List.nodup_append.mpr ⟨h.nodup, hnodup, fun a ha b hb hab => (hnew b hb).2.2 (hab ▸ ha)⟩
  · intro hroot
    rcases List.mem_append.mp hroot with hroot | hroot
    · exact h.notRoot hroot
    · exact (hnew root hroot).2.1 rfl
  · intro x hx
    rcases List.mem_append.mp hx with hx | hx
    · exact h.reached x hx
    · exact hreach x hx
  · intro x hx
    rcases List.mem_append.mp hx with hx | hx
    · exact List.mem_cons_of_mem _ (List.mem_append_right _ (List.mem_reverse.mp hx))
    · have := h.queued x (List.mem_cons_of_mem _ hx)
      rw [List.mem_cons] at this ⊢
      exact this.imp_right (List.mem_append_left _)
  · intro x hx
    by_cases hxnew : x ∈ new
    · exact .inl (List.mem_append_left _ (List.mem_reverse.mpr hxnew))
    · have hold : x ∈ root :: found := by
        simp only [List.mem_cons, List.mem_append] at hx ⊢
        tauto
      rcases h.expanded x hold with hq | hchildren
      · rcases List.mem_cons.mp hq with rfl | hq
        · right
          intro y hy
          rw [List.mem_cons]
          exact hall y hy
        · exact .inl (List.mem_append_right _ hq)
      · right
        intro y hy
        have := hchildren y hy
        rw [List.mem_cons] at this ⊢
        exact this.imp_right (List.mem_append_left _)

/-- The worklist is empty after `n` expansions, with these nodes found. -/
inductive Ends (children : α → List α) (root : α) : State α → ℕ → List α → Prop
  | empty (found : List α) : Ends children root ⟨[], found⟩ 0 found
  | next {current : α} {queue found : List α} {n : ℕ} {result : List α}
      (rest : Ends children root (Worklist.expand children root current ⟨queue, found⟩) n result) :
      Ends children root ⟨current :: queue, found⟩ (n + 1) result

/-- The fuel bounds the number of expansions that the search makes. -/
theorem Searching.ends {U : List α} (hU : ∀ x, ∀ y ∈ children x, y ∈ U) {fuel : ℕ}
    {st : State α} (h : Searching children root st) (hfound : ∀ x ∈ st.found, x ∈ U)
    (hfuel : st.queue.length + U.length ≤ fuel + st.found.length) :
    ∃ n ≤ fuel, Ends children root st n (Worklist.search children root fuel st) := by
  induction fuel generalizing st with
  | zero =>
    obtain ⟨queue, found⟩ := st
    have hle : found.length ≤ U.length :=
      (h.nodup.subperm (fun x hx => hfound x hx)).length_le
    have hempty : queue = [] := List.eq_nil_of_length_eq_zero (by simp only at hfuel; omega)
    subst hempty
    exact ⟨0, le_rfl, .empty found⟩
  | succ fuel ih =>
    obtain ⟨queue, found⟩ := st
    cases queue with
    | nil => exact ⟨0, Nat.zero_le _, .empty found⟩
    | cons current queue =>
      obtain ⟨new, heq, hnew, hnext⟩ := h.expand
      obtain ⟨n, hn, hends⟩ := ih hnext (fun x hx => by
        rcases List.mem_append.mp hx with hx | hx
        · exact hfound x hx
        · exact hU current x (hnew x hx)) (by
        simp only [List.length_cons, List.length_append, List.length_reverse] at hfuel ⊢
        omega)
      rw [← heq] at hends
      exact ⟨n + 1, Nat.succ_le_succ hn, .next hends⟩

theorem Ends.searching {st : State α} {n : ℕ} {result : List α} (h : Ends children root st n result)
    (hst : Searching children root st) : Searching children root ⟨[], result⟩ := by
  induction h with
  | empty found => exact hst
  | next rest ih =>
    obtain ⟨new, heq, -, hnext⟩ := hst.expand
    exact ih (heq ▸ hnext)

/-- With enough fuel the search ends with an empty worklist. -/
theorem Searching.search {U : List α} (hU : ∀ x, ∀ y ∈ children x, y ∈ U) {fuel : ℕ}
    {st : State α} (h : Searching children root st) (hfound : ∀ x ∈ st.found, x ∈ U)
    (hfuel : st.queue.length + U.length ≤ fuel + st.found.length) :
    Searching children root ⟨[], search children root fuel st⟩ := by
  obtain ⟨n, -, hends⟩ := h.ends hU hfound hfuel
  exact hends.searching h

omit [DecidableEq α] in
/-- The nodes found when the worklist is empty are those reached from the root. -/
theorem Searching.mem_iff {found : List α} (h : Searching children root ⟨[], found⟩) (x : α) :
    x ∈ found ↔ Relation.TransGen (Child children) root x ∧ x ≠ root := by
  constructor
  · intro hx
    exact ⟨h.reached x hx, fun he => h.notRoot (he ▸ hx)⟩
  · rintro ⟨hx, hne⟩
    have hclosed : ∀ y, Relation.TransGen (Child children) root y → y ∈ root :: found := by
      intro y hy
      induction hy with
      | single hy =>
        exact (h.expanded root List.mem_cons_self).resolve_left List.not_mem_nil _ hy
      | tail _ hstep ih => exact (h.expanded _ ih).resolve_left List.not_mem_nil _ hstep
    exact (List.mem_cons.mp (hclosed x hx)).resolve_left hne

end Reachability

section NewPair

open Relation

variable {β : Type*} {r : β → β → Prop} {a b : β}

def Acyclic (r : β → β → Prop) : Prop := ∀ x, ¬TransGen r x x

/-- The relation with one more pair. -/
def withPair (r : β → β → Prop) (a b x y : β) : Prop := r x y ∨ x = a ∧ y = b

/-- A path that uses the new pair reaches its first component and leaves from its second. -/
theorem transGen_withPair {x y : β} (h : TransGen (withPair r a b) x y) :
    TransGen r x y ∨ ReflTransGen r x a ∧ ReflTransGen r b y := by
  induction h with
  | single hstep =>
    rcases hstep with hr | ⟨rfl, rfl⟩
    · exact .inl (.single hr)
    · exact .inr ⟨.refl, .refl⟩
  | tail _ hstep ih =>
    rcases hstep with hr | ⟨rfl, rfl⟩
    · rcases ih with ih | ⟨hxa, hby⟩
      · exact .inl (ih.tail hr)
      · exact .inr ⟨hxa, hby.tail hr⟩
    · rcases ih with ih | ⟨hxa, -⟩
      · exact .inr ⟨ih.to_reflTransGen, .refl⟩
      · exact .inr ⟨hxa, .refl⟩

theorem acyclic_withPair_iff (h : Acyclic r) :
    Acyclic (withPair r a b) ↔ a ≠ b ∧ ¬TransGen r b a := by
  have hmono : ∀ {x y}, TransGen r x y → TransGen (withPair r a b) x y := fun hxy =>
    hxy.lift id fun _ _ => .inl
  have hnew : TransGen (withPair r a b) a b := .single (.inr ⟨rfl, rfl⟩)
  constructor
  · intro hac
    refine ⟨?_, fun hba => hac a (hnew.trans (hmono hba))⟩
    rintro rfl
    exact hac a hnew
  · rintro ⟨hne, hba⟩ x hx
    rcases transGen_withPair hx with hx | ⟨hxa, hbx⟩
    · exact h x hx
    · rcases reflTransGen_iff_eq_or_transGen.mp (hbx.trans hxa) with hab | hba'
      · exact hne hab
      · exact hba hba'

end NewPair

end Codegg.Library.Worklist
