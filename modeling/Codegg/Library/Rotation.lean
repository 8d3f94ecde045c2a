import Codegg.Library.SortedMap

/-!
# A rotation that remembers one client

A server draws from clients in a fixed order. It takes the first client with work
that is not the one served last, and that one only if nobody else has work. The
only memory is the client served last.

`served_nodup_iff` says when a round of such a server is fair, in terms of the
work that is queued when the round starts.
-/
namespace Codegg.Library

/-- Clients in increasing order, the work of each, and the client served last. -/
structure Rotation (W : Type*) [LinearOrder W] where
  keys : List W
  sorted : keys.Pairwise (· < ·)
  load : W → ℕ
  cursor : Option W

namespace Rotation

variable {W : Type*} [LinearOrder W]

/-- The clients with work. -/
def active (r : Rotation W) : List W := r.keys.filter (fun w => decide (0 < r.load w))

/-- The client to serve. -/
def next (r : Rotation W) : Option W :=
  (r.active.find? (fun w => !decide (r.cursor = some w))).or r.active.head?

/-- One unit of work of `w` is done. -/
def serve (r : Rotation W) (w : W) : Rotation W :=
  { r with load := Function.update r.load w (r.load w - 1), cursor := some w }

/-- The clients of the next `n` turns. -/
def served : ℕ → Rotation W → List W
  | 0, _ => []
  | n + 1, r =>
    match r.next with
    | none => []
    | some w => w :: served n (r.serve w)

/-- The waiting clients in the order in which they get their first turn: in
increasing order, except that the client served last comes second. -/
def serviceOrder (ws : List W) (cursor : Option W) : List W :=
  match ws with
  | a :: b :: rest => if cursor = some a then b :: a :: rest else a :: b :: rest
  | ws => ws

def order (r : Rotation W) : List W := serviceOrder r.active r.cursor

theorem mem_active {r : Rotation W} {w : W} : w ∈ r.active ↔ w ∈ r.keys ∧ 0 < r.load w := by
  simp [active]

theorem active_sorted (r : Rotation W) : r.active.Pairwise (· < ·) := r.sorted.filter _

theorem active_nodup (r : Rotation W) : r.active.Nodup :=
  r.active_sorted.imp (fun h => ne_of_lt h)

/-- The shapes of the line. -/
theorem order_cases (r : Rotation W) :
    (r.active = [] ∧ r.order = []) ∨ (∃ a, r.active = [a] ∧ r.order = [a]) ∨
    ∃ a b l, r.active = a :: b :: l ∧ a < b ∧
      ((r.cursor = some a ∧ r.order = b :: a :: l) ∨
        (r.cursor ≠ some a ∧ r.order = a :: b :: l)) := by
  have hs := r.active_sorted
  unfold order serviceOrder
  cases h : r.active with
  | nil => simp
  | cons a l =>
    cases l with
    | nil => simp
    | cons b l =>
      rw [h] at hs
      have hab : a < b := (List.pairwise_cons.mp hs).1 b List.mem_cons_self
      refine .inr (.inr ⟨a, b, l, rfl, hab, ?_⟩)
      by_cases hc : r.cursor = some a
      · exact .inl ⟨hc, by simp [hc]⟩
      · exact .inr ⟨hc, by simp [hc]⟩

theorem order_perm (r : Rotation W) : r.order.Perm r.active := by
  rcases r.order_cases with ⟨ha, ho⟩ | ⟨a, ha, ho⟩ | ⟨a, b, l, ha, -, ⟨-, ho⟩ | ⟨-, ho⟩⟩
  · rw [ha, ho]
  · rw [ha, ho]
  · rw [ha, ho]
    exact List.Perm.swap _ _ _
  · rw [ha, ho]

/-- The least waiting client that is not the cursor's is served. -/
theorem next_of_least {r : Rotation W} {w : W} (hw : w ∈ r.active) (hc : r.cursor ≠ some w)
    (hmin : ∀ w' ∈ r.active, w' < w → r.cursor = some w') : r.next = some w := by
  have hfind : r.active.find? (fun w => !decide (r.cursor = some w)) = some w := by
    rw [find?_eq_some_of_sorted r.active_sorted]
    refine ⟨hw, by simpa using hc, ?_⟩
    intro w' hw' hlt
    simpa using hmin w' hw' hlt
  rw [next, hfind, Option.some_or]

theorem next_eq (r : Rotation W) : r.next = r.order.head? := by
  rcases r.order_cases with ⟨ha, ho⟩ | ⟨a, ha, ho⟩ | ⟨a, b, l, ha, hab, ⟨hc, ho⟩ | ⟨hc, ho⟩⟩
  · simp [next, ha, ho]
  · rw [next, ha, ho]
    by_cases hc : r.cursor = some a <;> simp [hc]
  · simp [next, ha, ho, hc, hab.ne]
  · simp [next, ha, ho, hc]

/-- Whoever is next waits. -/
theorem mem_active_of_next {r : Rotation W} {w : W} (h : r.next = some w) : w ∈ r.active := by
  rw [next_eq] at h
  exact r.order_perm.mem_iff.mp (List.mem_of_mem_head? h)

theorem exists_next {r : Rotation W} (h : r.active ≠ []) : ∃ w, r.next = some w := by
  have horder : r.order ≠ [] := fun hnil => h (List.nil_perm.mp (hnil ▸ r.order_perm))
  exact ⟨r.order.head horder, by rw [next_eq, List.head?_eq_some_head]⟩

theorem load_serve (r : Rotation W) (w w' : W) :
    (r.serve w).load w' = if w' = w then r.load w - 1 else r.load w' := by
  simp [serve, Function.update_apply]

/-- A client with more work stays in the rotation. -/
theorem active_serve_of_two_le {r : Rotation W} {w : W} (h : 2 ≤ r.load w) :
    (r.serve w).active = r.active := by
  refine List.filter_congr (fun w' _ => ?_)
  rw [load_serve]
  split_ifs with hw
  · subst hw
    simp only [decide_eq_decide]
    omega
  · rfl

/-- A client without further work leaves the rotation. -/
theorem active_serve_of_one {r : Rotation W} {w : W} (h : r.load w = 1) :
    (r.serve w).active = r.active.erase w := by
  rw [r.active_nodup.erase_eq_filter]
  simp only [active, List.filter_filter]
  refine List.filter_congr (fun w' _ => ?_)
  rw [load_serve]
  by_cases hw : w' = w
  · simp [hw, h]
  · simp [hw]

theorem active_serve_subset (r : Rotation W) (w : W) : (r.serve w).active ⊆ r.active := by
  intro w' hw'
  obtain ⟨hk, hl⟩ := mem_active.mp hw'
  refine mem_active.mpr ⟨hk, ?_⟩
  rw [load_serve] at hl
  split_ifs at hl with he
  · subst he
    omega
  · exact hl

theorem served_subset (n : ℕ) (r : Rotation W) : served n r ⊆ r.active := by
  induction n generalizing r with
  | zero => simp [served]
  | succ n ih =>
    rw [served]
    split
    · simp
    · next w hw =>
      have hmem : w ∈ r.active := by
        rw [next_eq] at hw
        exact r.order_perm.mem_iff.mp (List.mem_of_mem_head? hw)
      intro w' hw'
      rcases List.mem_cons.mp hw' with he | hm
      · exact he ▸ hmem
      · exact r.active_serve_subset w (ih _ hm)

theorem take_served (k n : ℕ) (r : Rotation W) : (served n r).take k = served (min k n) r := by
  induction k generalizing n r with
  | zero => simp [served]
  | succ k ih =>
    cases n with
    | zero => simp [served]
    | succ n =>
      rw [Nat.succ_min_succ, served, served]
      split
      · simp
      · rw [List.take_succ_cons, ih]

theorem length_served_le (n : ℕ) (r : Rotation W) : (served n r).length ≤ n := by
  have h := take_served n n r
  rw [min_self] at h
  rw [← h]
  exact List.length_take_le _ _

/-- When the first in line has one unit of work, the line moves up. -/
theorem order_serve_of_one {r : Rotation W} {w : W} {rest : List W} (ho : r.order = w :: rest)
    (h : r.load w = 1) : (r.serve w).order = rest := by
  have hact := active_serve_of_one h
  have hfirst : (r.serve w).order = (r.serve w).active := by
    rcases (r.serve w).order_cases with ⟨ha, ho'⟩ | ⟨a, ha, ho'⟩ |
      ⟨a, b, l, ha, hab, ⟨hc, ho'⟩ | ⟨hc, ho'⟩⟩
    · rw [ha, ho']
    · rw [ha, ho']
    · have hwa : w = a := Option.some.inj hc
      have hnot : w ∉ (r.serve w).active := by
        rw [hact]
        exact r.active_nodup.not_mem_erase
      rw [ha, hwa] at hnot
      exact absurd List.mem_cons_self hnot
    · rw [ha, ho']
  rw [hfirst, hact]
  rcases r.order_cases with ⟨ha, ho'⟩ | ⟨a, ha, ho'⟩ | ⟨a, b, l, ha, hab, ⟨hc, ho'⟩ | ⟨hc, ho'⟩⟩
  · simp [ho'] at ho
  · rw [ho'] at ho
    obtain ⟨rfl, rfl⟩ := List.cons.inj ho
    rw [ha, List.erase_cons_head]
  · rw [ho'] at ho
    obtain ⟨rfl, rfl⟩ := List.cons.inj ho
    rw [ha, List.erase_cons_tail (by simpa using hab.ne), List.erase_cons_head]
  · rw [ho'] at ho
    obtain ⟨rfl, rfl⟩ := List.cons.inj ho
    rw [ha, List.erase_cons_head]

/-- When the first of two or more in line has further work, the second is served
next and then the first again. -/
theorem next_of_two_le {r : Rotation W} {w w' : W} {rest : List W}
    (ho : r.order = w :: w' :: rest) (h : 2 ≤ r.load w) :
    (r.serve w).next = some w' ∧ ((r.serve w).serve w').next = some w := by
  have hact := active_serve_of_two_le h
  have hsub := (r.serve w).active_serve_subset w'
  rw [hact] at hsub
  have hmem : ∀ v ∈ w :: w' :: rest, v ∈ r.active := fun v hv =>
    r.order_perm.mem_iff.mp (ho ▸ hv)
  have hne : w' ≠ w := by
    have hn := r.order_perm.nodup_iff.mpr r.active_nodup
    intro he
    simp [ho, he] at hn
  -- `w` keeps work after both turns
  have hw : w ∈ ((r.serve w).serve w').active := by
    refine mem_active.mpr ⟨(mem_active.mp (hmem w (by simp))).1, ?_⟩
    rw [load_serve, if_neg hne.symm, load_serve, if_pos rfl]
    omega
  have hw' : w' ∈ (r.serve w).active := by
    rw [hact]
    exact hmem w' (by simp)
  -- whoever is below one of the two is the other one
  have hlow : ∀ v ∈ r.active, (v < w → v = w') ∧ (v < w' → v = w) := by
    have hs := r.active_sorted
    intro v hv
    rcases r.order_cases with ⟨ha, ho'⟩ | ⟨a, ha, ho'⟩ |
      ⟨a, b, l, ha, hab, ⟨hc, ho'⟩ | ⟨hc, ho'⟩⟩
    · simp [ho'] at ho
    · simp [ho'] at ho
    · rw [ho'] at ho
      obtain ⟨rfl, hrest⟩ := List.cons.inj ho
      obtain ⟨rfl, rfl⟩ := List.cons.inj hrest
      rw [ha] at hs hv
      simp only [List.pairwise_cons, List.mem_cons] at hs hv
      rcases hv with rfl | rfl | hv
      · exact ⟨fun _ => rfl, fun hlt => absurd hlt (lt_irrefl _)⟩
      · exact ⟨fun hlt => absurd hlt (lt_irrefl _), fun hlt => absurd hlt (not_lt.mpr hab.le)⟩
      · exact ⟨fun hlt => absurd hlt (not_lt.mpr (hs.2.1 v hv).le),
          fun hlt => absurd hlt (not_lt.mpr (hs.1 v (.inr hv)).le)⟩
    · rw [ho'] at ho
      obtain ⟨rfl, hrest⟩ := List.cons.inj ho
      obtain ⟨rfl, rfl⟩ := List.cons.inj hrest
      rw [ha] at hs hv
      simp only [List.pairwise_cons, List.mem_cons] at hs hv
      rcases hv with rfl | rfl | hv
      · exact ⟨fun hlt => absurd hlt (lt_irrefl _), fun _ => rfl⟩
      · exact ⟨fun hlt => absurd hlt (not_lt.mpr hab.le), fun hlt => absurd hlt (lt_irrefl _)⟩
      · exact ⟨fun hlt => absurd hlt (not_lt.mpr (hs.1 v (.inr hv)).le),
          fun hlt => absurd hlt (not_lt.mpr (hs.2.1 v hv).le)⟩
  constructor
  · refine next_of_least hw' (by simpa [serve] using hne.symm) ?_
    intro v hv hlt
    rw [hact] at hv
    rw [(hlow v hv).2 hlt]
    rfl
  · refine next_of_least hw (by simpa [serve] using hne) ?_
    intro v hv hlt
    rw [(hlow v (hsub hv)).1 hlt]
    rfl

/-- A round, one turn for each waiting client, serves different clients exactly
when all but the last two in line have a single unit of work. -/
theorem served_nodup_iff (r : Rotation W) :
    (served r.active.length r).Nodup ↔ ∀ w ∈ r.order.take (r.active.length - 2), r.load w = 1 := by
  induction hk : r.active.length generalizing r with
  | zero => simp [served]
  | succ k ih =>
    have hlen : r.order.length = k + 1 := by rw [r.order_perm.length_eq, hk]
    obtain ⟨w, rest, ho⟩ : ∃ w rest, r.order = w :: rest :=
      List.exists_cons_of_length_eq_add_one hlen
    have hnext : r.next = some w := by rw [next_eq, ho, List.head?_cons]
    have hw : w ∈ r.active := r.order_perm.mem_iff.mp (by simp [ho])
    rw [served, hnext]
    by_cases hone : r.load w = 1
    · have hact := active_serve_of_one hone
      have hk' : (r.serve w).active.length = k := by
        rw [hact, List.length_erase_of_mem hw, hk, Nat.add_sub_cancel]
      have hnot : w ∉ served k (r.serve w) := by
        intro hm
        have := served_subset k _ hm
        rw [hact] at this
        exact r.active_nodup.not_mem_erase this
      have hloads : ∀ v ∈ rest, (r.serve w).load v = r.load v := by
        intro v hv
        have hn := r.order_perm.nodup_iff.mpr r.active_nodup
        rw [ho, List.nodup_cons] at hn
        have hne : v ≠ w := by
          intro he
          rw [he] at hv
          exact hn.1 hv
        rw [load_serve, if_neg hne]
      rw [List.nodup_cons, and_iff_right hnot, ih (r.serve w) hk', order_serve_of_one ho hone, ho]
      cases k with
      | zero => simp
      | succ k =>
        cases k with
        | zero => simp
        | succ k =>
          simp only [Nat.reduceSubDiff, List.take_succ_cons, List.mem_cons, forall_eq_or_imp, hone,
            true_and]
          constructor
          · intro h v hv
            rw [← hloads v (List.mem_of_mem_take hv)]
            exact h v hv
          · intro h v hv
            rw [hloads v (List.mem_of_mem_take hv)]
            exact h v hv
    · have htwo : 2 ≤ r.load w := by
        have := (mem_active.mp hw).2
        omega
      cases k with
      | zero => simp [served]
      | succ k =>
        obtain ⟨w', rest', rfl⟩ : ∃ w' rest', rest = w' :: rest' := by
          rw [ho] at hlen
          exact List.exists_cons_of_length_eq_add_one (Nat.succ_injective hlen)
        obtain ⟨h2, h3⟩ := next_of_two_le ho htwo
        have hne : w ≠ w' := by
          have hn := r.order_perm.nodup_iff.mpr r.active_nodup
          intro he
          simp [ho, he] at hn
        cases k with
        | zero => simp [served, h2, hne]
        | succ k => simp [served, h2, h3, ho, hone]

/-! ### Turns without work -/

/-- The turn of `w` is noted, but nothing of its work is done. -/
def note (r : Rotation W) (w : W) : Rotation W := { r with cursor := some w }

/-- The clients of `n` turns that are only noted. -/
def previewed : ℕ → Rotation W → List W
  | 0, _ => []
  | n + 1, r =>
    match r.next with
    | none => []
    | some w => w :: previewed n (r.note w)

theorem active_note (r : Rotation W) (w : W) : (r.note w).active = r.active := rfl

theorem previewed_of_next {r : Rotation W} {w : W} (h : r.next = some w) (n : ℕ) :
    previewed (n + 1) r = w :: previewed n (r.note w) := by
  rw [previewed, h]

/-- A server with one client with work notes it in every turn. -/
theorem previewed_of_one {r : Rotation W} {w : W} (h : r.active = [w]) (n : ℕ) :
    previewed n r = List.replicate n w := by
  induction n generalizing r with
  | zero => rfl
  | succ n ih =>
    have hnext : r.next = some w := by
      rw [next_eq, order, h]
      rfl
    rw [previewed_of_next hnext, ih (r := r.note w) h, List.replicate_succ]

/-- With several clients the first two alternate. -/
theorem next_note {r : Rotation W} {a b : W} {rest : List W} (h : r.active = a :: b :: rest)
    (w : W) : (r.note w).next = some (if w = a then b else a) := by
  rw [next_eq, order, active_note, h]
  unfold serviceOrder note
  simp only [Option.some.injEq]
  split_ifs <;> rfl

theorem previewed_of_two {r : Rotation W} {a b : W} {rest : List W}
    (h : r.active = a :: b :: rest) :
    ∃ x y, x ≠ y ∧ ∀ n, previewed (n + 2) r = x :: y :: previewed n ((r.note x).note y) ∧
      ((r.note x).note y).next = some x := by
  have hab : a ≠ b := by
    have hn := r.active_nodup
    rw [h] at hn
    exact fun heq => (List.nodup_cons.mp hn).1 (heq ▸ List.mem_cons_self)
  have hfirst : r.next = some (if r.cursor = some a then b else a) := by
    rw [next_eq, order, h]
    unfold serviceOrder
    simp only
    split_ifs <;> rfl
  by_cases hc : r.cursor = some a
  · rw [if_pos hc] at hfirst
    have hsecond := next_note h b
    rw [if_neg hab.symm] at hsecond
    have hthird := next_note (r := r.note b) h a
    rw [if_pos rfl] at hthird
    refine ⟨b, a, hab.symm, fun n => ⟨?_, hthird⟩⟩
    rw [previewed_of_next hfirst, previewed_of_next hsecond]
  · rw [if_neg hc] at hfirst
    have hsecond := next_note h a
    rw [if_pos rfl] at hsecond
    have hthird := next_note (r := r.note a) h b
    rw [if_neg hab.symm] at hthird
    refine ⟨a, b, hab, fun n => ⟨?_, hthird⟩⟩
    rw [previewed_of_next hfirst, previewed_of_next hsecond]

/-- Turns that are only noted go to different clients exactly as long as there are no more
than two of them, and no more than clients with work. -/
theorem previewed_nodup_iff {r : Rotation W} (h : r.active ≠ []) (n : ℕ) :
    (previewed n r).Nodup ↔ n ≤ min 2 r.active.length := by
  cases hact : r.active with
  | nil => exact absurd hact h
  | cons a rest =>
    cases rest with
    | nil =>
      rw [previewed_of_one hact, List.nodup_replicate, List.length_singleton]
      omega
    | cons b rest =>
      obtain ⟨x, y, hne, hturns⟩ := previewed_of_two hact
      match n with
      | 0 => simp [previewed]
      | 1 =>
        obtain ⟨w, hw⟩ : ∃ w, previewed 1 r = [w] := by
          have htwo := (hturns 0).1
          rw [previewed] at htwo ⊢
          cases hn : r.next with
          | none => simp [hn] at htwo
          | some w => exact ⟨w, rfl⟩
        rw [hw]
        simp
      | 2 =>
        rw [(hturns 0).1]
        simp [previewed, hne]
      | n + 3 =>
        rw [(hturns (n + 1)).1, previewed_of_next (hturns (n + 1)).2]
        simp only [List.nodup_cons, List.mem_cons, true_or, or_true, not_true_eq_false, false_and,
          false_iff]
        omega

/-- A client that is next stays next when others run out of work. -/
theorem next_of_subset {r r' : Rotation W} {w : W} (hcursor : r'.cursor = r.cursor)
    (hsub : r'.active ⊆ r.active) (hnext : r.next = some w) (hw : w ∈ r'.active) :
    r'.next = some w := by
  rw [next, Option.or_eq_some_iff] at hnext
  rcases hnext with hfind | ⟨hnone, hhead⟩
  · rw [find?_eq_some_of_sorted r.active_sorted] at hfind
    obtain ⟨-, hne, hmin⟩ := hfind
    refine next_of_least hw (by simpa [hcursor] using hne) ?_
    intro v hv hlt
    simpa [hcursor] using hmin v (hsub hv) hlt
  · have hall : ∀ v ∈ r.active, r.cursor = some v := by
      intro v hv
      simpa using List.find?_eq_none.mp hnone v hv
    have hcw : r.cursor = some w := hall w (List.mem_of_mem_head? hhead)
    have honly : ∀ v ∈ r'.active, v = w := by
      intro v hv
      exact Option.some.inj ((hall v (hsub hv)).symm.trans hcw)
    have hnone' : r'.active.find? (fun v => !decide (r'.cursor = some v)) = none := by
      rw [List.find?_eq_none]
      intro v hv
      simp [hcursor, hall v (hsub hv)]
    rw [next, hnone']
    cases hact : r'.active with
    | nil => simp [hact] at hw
    | cons v rest =>
      rw [honly v (hact ▸ List.mem_cons_self)]
      rfl

end Rotation
end Codegg.Library
