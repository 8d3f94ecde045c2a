import Codegg.PromptQueue.Lifecycle

/-!
# Delivery over whole runs

What holds of an entry over any sequence of operations by any callers, in the order
their transactions commit: its path through the status graph, and who gets to deliver
it. A claim is one transaction, so two claims are never between each other's
statements; the later one sees what the earlier one did.
-/
namespace Codegg.PromptQueue

open Codegg.Library UniqueTable

theorem run_append (db : QueueDatabase) (ops ops' : List Operation) :
    run db (ops ++ ops') = run (run db ops) ops' :=
  List.foldl_append

theorem run_snoc (db : QueueDatabase) (ops : List Operation) (op : Operation) :
    run db (ops ++ [op]) = after (run db ops) op :=
  run_append db ops [op]

/-! ### Finished entries -/

variable {r : UserPromptQueueEntryRecord} {db : QueueDatabase}

/-- A delivered or expired entry is there after any run, unchanged but for its ordinal. -/
theorem run_final (ops : List Operation) (db : QueueDatabase) {i : String}
    (hr : db.entries.get? i = some r) (hf : r.status.isFinal = true) :
    ∃ r', (run db ops).entries.get? i = some r' ∧ Kept r r' := by
  induction ops generalizing db r with
  | nil => exact ⟨r, hr, Kept.refl r⟩
  | cons op ops ih =>
    have hmove := moved_after db op i
    rw [hr] at hmove
    cases hr' : (after db op).entries.get? i with
    | none =>
      rw [hr'] at hmove
      have hpending : r.status = .pending := hmove
      rw [hpending] at hf
      cases hf
    | some r' =>
      rw [hr'] at hmove
      have hkept : Kept r r' := hmove.final hf
      have hf' : r'.status.isFinal = true := by rw [hkept.status]; exact hf
      obtain ⟨r'', hr'', hkept'⟩ := ih (after db op) hr' hf'
      exact ⟨r'', hr'', hkept.trans hkept'⟩

/-! ### Claims -/

/-- The operation puts an entry that was being delivered, or whose delivery failed,
back into the queue. -/
def Returns (db : QueueDatabase) (op : Operation) (i : String) : Prop :=
  ∃ r r', db.entries.get? i = some r ∧ (r.status = .delivering ∨ r.status = .failed) ∧
    (after db op).entries.get? i = some r' ∧ r'.status = .pending

/-- An entry that is not pending becomes so by being returned. -/
theorem exists_returns (ops : List Operation) (db : QueueDatabase) {i : String}
    {r' : UserPromptQueueEntryRecord} (hr : db.entries.get? i = some r) (hs : r.status ≠ .pending)
    (hr' : (run db ops).entries.get? i = some r') (hs' : r'.status = .pending) :
    ∃ earlier op later, ops = earlier ++ op :: later ∧ Returns (run db earlier) op i := by
  induction ops generalizing db r with
  | nil =>
    have heq : some r = some r' := hr.symm.trans hr'
    cases heq
    exact absurd hs' hs
  | cons op ops ih =>
    have hmove := moved_after db op i
    rw [hr] at hmove
    cases hr₁ : (after db op).entries.get? i with
    | none =>
      rw [hr₁] at hmove
      exact absurd hmove hs
    | some r₁ =>
      rw [hr₁] at hmove
      by_cases hs₁ : r₁.status = .pending
      · refine ⟨[], op, ops, rfl, r, r₁, hr, ?_, hr₁, hs₁⟩
        rcases hmove.status with heq | hstep
        · exact absurd (heq ▸ hs₁) hs
        · rw [hs₁] at hstep
          exact hstep.to_pending
      · obtain ⟨earlier, op', later, rfl, hret⟩ := ih (after db op) hr₁ hs₁ hr'
        exact ⟨op :: earlier, op', later, rfl, hret⟩

theorem pairwise_selectOrdered (p : UserPromptQueueEntryRecord → Bool) (table : EntryTable) :
    (selectOrdered p table).Pairwise fun a b => a.ordinal ≤ b.ordinal := by
  exact List.pairwise_insertionSort _ _

theorem mem_selectOrdered {p : UserPromptQueueEntryRecord → Bool} {table : EntryTable} :
    r ∈ selectOrdered p table ↔ r ∈ table.rows ∧ p r = true := by
  rw [selectOrdered, List.mem_insertionSort, List.mem_filter]

/-- `ORDER BY ordinal ASC LIMIT 1` -/
theorem head_selectOrdered {p : UserPromptQueueEntryRecord → Bool} {table : EntryTable}
    (h : (selectOrdered p table).head? = some r) :
    r ∈ table.rows ∧ p r = true ∧ ∀ r' ∈ table.rows, p r' = true → r.ordinal ≤ r'.ordinal := by
  obtain ⟨rest, hrest⟩ := List.head?_eq_some_iff.mp h
  have hmem : r ∈ selectOrdered p table := by rw [hrest]; exact List.mem_cons_self
  obtain ⟨hr, hp⟩ := mem_selectOrdered.mp hmem
  refine ⟨hr, hp, fun r' hr' hp' => ?_⟩
  have hpair := pairwise_selectOrdered p table
  have hmem' : r' ∈ selectOrdered p table := mem_selectOrdered.mpr ⟨hr', hp'⟩
  rw [hrest] at hpair hmem'
  rcases List.mem_cons.mp hmem' with rfl | hlater
  · exact le_rfl
  · exact List.rel_of_pairwise_cons hpair hlater

/-- The entry a claim returns: the one with the least ordinal of those it may take, as
it stands after the claim. -/
structure Claims (db : QueueDatabase) (op : Operation) (e : UserPromptQueueEntryRecord)
    (sessionId : String) (nowMs : ℤ) (row : UserPromptQueueEntryRecord) : Prop where
  op_eq : op = .claim sessionId nowMs
  mem : row ∈ db.entries.rows
  claimable : isClaimable sessionId nowMs row = true
  least : ∀ other ∈ db.entries.rows, isClaimable sessionId nowMs other = true →
    row.ordinal ≤ other.ordinal
  entry_eq : e = (claimRow nowMs).apply row
  taken : (after db op).entries.get? e.id = some e

/-- Taking a candidate that the table holds as pending. -/
theorem takeCandidate_eq {sessionId : String} {nowMs : ℤ} {owner : UserPromptQueueOwnerRecord}
    {row : UserPromptQueueEntryRecord} (hrow : row ∈ db.entries.rows)
    (hp : pendingIn sessionId row.id row = true) :
    takeCandidate sessionId nowMs owner row db =
      .ok (some ⟨(claimRow nowMs).apply row, owner.ownerPrincipal, owner.revision⟩)
        { db with entries :=
            db.entries.updateWhere (pendingIn sessionId row.id) (claimRow nowMs) } := by
  have haff : db.entries.affected (pendingIn sessionId row.id) ≠ 0 := by
    intro h
    have hfalse := affected_eq_zero.mp h row hrow
    rw [hp] at hfalse
    cases hfalse
  have hget : (db.entries.updateWhere (pendingIn sessionId row.id) (claimRow nowMs)).get? row.id =
      some ((claimRow nowMs).apply row) := by
    rw [get?_updateWhere, get?_eq_some.mpr ⟨hrow, rfl⟩, Option.map_some,
      updateRow, if_pos hp]
  show EStateM.Result.ok _ _ = _
  rw [if_neg haff, hget]
  rfl

theorem pendingIn_of_isClaimable {sessionId : String} {nowMs : ℤ}
    {row : UserPromptQueueEntryRecord} (h : isClaimable sessionId nowMs row = true) :
    pendingIn sessionId row.id row = true := by
  simp only [isClaimable, Bool.and_eq_true] at h
  simp only [pendingIn, Bool.and_eq_true, decide_eq_true_eq, true_and]
  exact ⟨h.1.1.1, of_decide_eq_true h.1.1.2⟩

theorem claimed_spec {op : Operation} {e : UserPromptQueueEntryRecord} (h : claimed db op = some e)
    :
    ∃ sessionId nowMs row, Claims db op e sessionId nowMs row := by
  unfold claimed at h
  split at h
  · rename_i claim db' hperform
    cases h
    cases op with
    | claim sessionId nowMs =>
      obtain ⟨a, ha, hclaim⟩ : ∃ a, claimNextForDelivery sessionId nowMs db = .ok a db' ∧
          Response.claim a = Response.claim (some claim) := by
        change EStateM.map _ _ _ = _ at hperform
        unfold EStateM.map at hperform
        split at hperform
        · rename_i a s hx
          injection hperform with h1 h2
          exact ⟨a, h2 ▸ hx, h1⟩
        · cases hperform
      injection hclaim with hclaim
      subst hclaim
      obtain ⟨_, s, hlift, hbody⟩ := bind_eq_ok (transaction_eq_ok ha)
      obtain ⟨_, rfl⟩ := liftExcept_eq_ok hlift
      rw [get_bind] at hbody
      cases howner : s.owners sessionId with
      | none =>
        rw [howner] at hbody
        cases hbody
      | some owner =>
        rw [howner] at hbody
        cases hhead : (selectOrdered (isClaimable sessionId nowMs) s.entries).head? with
        | none =>
          simp only [hhead] at hbody
          cases hbody
        | some row =>
          simp only [hhead] at hbody
          obtain ⟨hrow, hp, hleast⟩ := head_selectOrdered hhead
          have hpending := pendingIn_of_isClaimable hp
          rw [takeCandidate_eq hrow hpending] at hbody
          injection hbody with hentry hdb
          injection hentry with hentry
          subst hentry
          refine ⟨sessionId, nowMs, row, rfl, hrow, hp, hleast, rfl, ?_⟩
          have hafter : after s (.claim sessionId nowMs) = db' := by
            unfold after
            rw [hperform]
            rfl
          rw [hafter, ← hdb]
          show (s.entries.updateWhere _ _).get? row.id = _
          rw [get?_updateWhere, get?_eq_some.mpr ⟨hrow, rfl⟩,
            Option.map_some, updateRow, if_pos hpending]
    | _ =>
      change EStateM.map _ _ _ = _ at hperform
      unfold EStateM.map at hperform
      split at hperform
      · injection hperform with h1
        cases h1
      · cases hperform
  · cases h

/-- What every run guarantees. -/
structure DeliveryLifecycle (db : QueueDatabase) (ops : List Operation) : Prop where
  /-- Each operation moves each entry along one edge of the graph at most. -/
  moves : ∀ earlier op later, ops = earlier ++ op :: later → ∀ i,
    EntryMove (op.inserts i) ((run db earlier).entries.get? i)
      ((run db (earlier ++ [op])).entries.get? i)
  /-- A delivered or expired entry stays as it is, with the turn it was delivered to. -/
  final : ∀ earlier later, ops = earlier ++ later → ∀ i r,
    (run db earlier).entries.get? i = some r → r.status.isFinal = true →
      ∃ r', (run db ops).entries.get? i = some r' ∧ r'.status = r.status ∧
        r'.deliveredTurnId = r.deliveredTurnId ∧ Kept r r'
  /-- Of two claims of one entry the second succeeds only if the entry was put back. -/
  once : ∀ earlier op between op' later e e', ops = earlier ++ op :: (between ++ op' :: later) →
    claimed (run db earlier) op = some e →
    claimed (run db (earlier ++ op :: between)) op' = some e' → e.id = e'.id →
      ∃ b back b', between = b ++ back :: b' ∧
        Returns (run db (earlier ++ op :: b)) back e.id
  /-- A claimed entry was waiting, not expired and due, and no other such entry of its
  session has a smaller ordinal. -/
  eligible : ∀ earlier op later e, ops = earlier ++ op :: later →
    claimed (run db earlier) op = some e →
      ∃ sessionId nowMs row, Claims (run db earlier) op e sessionId nowMs row

theorem run_deliveryLifecycle (db : QueueDatabase) (ops : List Operation) :
    DeliveryLifecycle db ops where
  moves earlier op _ _ i := by
    rw [run_snoc]
    exact moved_after (run db earlier) op i
  final earlier later hops i r hr hf := by
    obtain ⟨r', hr', hkept⟩ := run_final later (run db earlier) hr hf
    rw [hops, run_append]
    exact ⟨r', hr', hkept.status, by rw [hkept], hkept⟩
  once earlier op between op' _ e e' _ hclaim hclaim' hid := by
    obtain ⟨_, _, row, hc⟩ := claimed_spec hclaim
    obtain ⟨_, _, row', hc'⟩ := claimed_spec hclaim'
    have hdelivering : e.status ≠ .pending := by
      rw [hc.entry_eq]
      intro h
      cases h
    have hrow' : (run (after (run db earlier) op) between).entries.get? e.id = some row' := by
      rw [← run_snoc, ← run_append, List.append_assoc, hid, hc'.entry_eq]
      exact UniqueTable.get?_eq_some.mpr ⟨hc'.mem, rfl⟩
    have hpending : row'.status = .pending := by
      have h := hc'.claimable
      simp only [isClaimable, Bool.and_eq_true, decide_eq_true_eq] at h
      exact h.1.1.2
    obtain ⟨b, back, b', hb, hret⟩ := exists_returns between _ hc.taken hdelivering hrow' hpending
    refine ⟨b, back, b', hb, ?_⟩
    rw [← run_snoc, ← run_append, List.append_assoc] at hret
    exact hret
  eligible _ _ _ _ _ hclaim := claimed_spec hclaim

end Codegg.PromptQueue
