import Codegg.PromptQueue.Ownership

/-!
# Sending the same prompt again

A client that does not hear of its `add` sends it again under the same identity, and
gets the entry that is there. The conflict is found by the insertion, which comes
after the check of the capacity: on a queue that is full the repeated request is
refused like a new one.
-/
namespace Codegg.PromptQueue

open Codegg.Library

/-- The request gives the entry back, and the live entries of all sessions are what they
were. -/
def Converges (request : QueueM UserPromptQueueLiveEntry) (r : UserPromptQueueEntryRecord)
    (nowMs : ℤ) (db : QueueDatabase) : Prop :=
  ∃ db', request db = .ok (liveFrom r) db' ∧ ∀ sessionId,
    selectOrdered (·.isLiveAt sessionId nowMs) db'.entries =
      selectOrdered (·.isLiveAt sessionId nowMs) db.entries

/-- Room for one more live entry, and for one more row. -/
structure HasRoom (db : QueueDatabase) (sessionId : String) (nowMs : ℤ) : Prop where
  live : liveCount sessionId nowMs db.entries < maxPending
  retained : db.entries.affected (·.ownedBy sessionId) < maxRetainedPerSession

/-- The queue has an owner, of a valid name. -/
def ValidlyOwned (sessionId : String) (db : QueueDatabase) : Prop :=
  ∃ record, db.owners sessionId = some record ∧ validatePrincipal record.ownerPrincipal = .ok ()

variable {db : QueueDatabase} {caller sessionId : String} {runAtMs : Option ℤ}

theorem AddAccepted.validlyOwned {db' : QueueDatabase} {entryId text : String} {nowMs : ℤ}
    (h : AddAccepted db caller sessionId entryId text runAtMs nowMs db') :
    ValidlyOwned sessionId db' := by
  rcases h.owners with ⟨⟨record, hrecord, rfl⟩, hkept⟩ | ⟨-, hstarted⟩
  · exact ⟨record, by rw [hkept, hrecord], h.principal⟩
  · exact ⟨firstOwner caller sessionId nowMs, by rw [hstarted, Function.update_self], h.principal⟩

theorem ValidlyOwned.after (op : Operation) (hfiled : OwnersFiled db)
    (h : ValidlyOwned sessionId db) :
    ValidlyOwned sessionId (after db op) := by
  obtain ⟨record, hrecord, hvalid⟩ := h
  cases ownersMove_after db op with
  | kept howners => exact ⟨record, by rw [howners, hrecord], hvalid⟩
  | @started _ sessionId' _ _ _ _ hunowned howners =>
    have hne : sessionId ≠ sessionId' := by
      rintro rfl
      rw [hunowned] at hrecord
      cases hrecord
    exact ⟨record, by rw [howners, Function.update_of_ne hne, hrecord], hvalid⟩
  | @moved _ recipient sessionId' _ nowMs current _ _ hrecipient howned _ _ howners =>
    rw [hfiled _ _ howned] at howners
    by_cases heq : sessionId = sessionId'
    · subst heq
      exact ⟨movedOwner recipient nowMs current, by rw [howners, Function.update_self], hrecipient⟩
    · exact ⟨record, by rw [howners, Function.update_of_ne heq, hrecord], hvalid⟩

theorem ValidlyOwned.run (hfiled : OwnersFiled db) (h : ValidlyOwned sessionId db)
    (ops : List Operation) :
    ValidlyOwned sessionId (run db ops) := by
  have hboth := run_keeps (P := fun s => OwnersFiled s ∧ ValidlyOwned sessionId s)
    (fun s op hs => ⟨(ownersMove_after s op).filed hs.1, hs.2.after op hs.1⟩) ⟨hfiled, h⟩ ops
  exact hboth.2

theorem OwnsOrStarts.filed {nowMs : ℤ} {db' : QueueDatabase}
    (h : OwnsOrStarts caller sessionId nowMs db db') (hfiled : OwnersFiled db) :
    OwnersFiled db' := by
  intro sessionId' record hrecord
  rcases h with ⟨-, hkept⟩ | ⟨-, hstarted⟩
  · exact hfiled sessionId' record (hkept ▸ hrecord)
  · rw [hstarted, Function.update_apply] at hrecord
    split at hrecord
    · rename_i heq
      cases hrecord
      exact heq.symm
    · exact hfiled sessionId' record hrecord

/-- A due time that was valid stays so, as the new expiry is a later one. -/
theorem validateRunAt_later {now₀ now : ℤ} (hlater : now₀ ≤ now)
    (h : validateRunAt runAtMs (saturatingAdd now₀ ttlMs) = .ok ()) :
    validateRunAt runAtMs (saturatingAdd now ttlMs) = .ok () := by
  have hexpiry : saturatingAdd now₀ ttlMs ≤ saturatingAdd now ttlMs := by
    unfold saturatingAdd
    omega
  cases runAtMs with
  | none => rfl
  | some runAt =>
    unfold validateRunAt at h ⊢
    dsimp only at h ⊢
    split at h
    · rename_i hlt
      rw [if_pos (hlt.trans_le hexpiry)]
    · cases h

/-- A request that succeeded once converges whenever its caller owns the queue, the entry
is still waiting, and there is room for one more. -/
theorem converges_of_room {entryId text : String} {textBytes : ℕ} {now : ℤ}
    {r : UserPromptQueueEntryRecord} (hprincipal : validatePrincipal caller = .ok ())
    (hentry : validateEntry entryId sessionId text = .ok textBytes)
    (hrunAt : validateRunAt runAtMs (saturatingAdd now ttlMs) = .ok ())
    (howner : IsOwner db sessionId caller) (hr : r ∈ db.entries.rows) (hid : r.id = entryId)
    (hsession : r.sessionId = sessionId) (hpending : r.status = .pending)
    (hexp : now < r.expiresAtMs) (hroom : HasRoom db sessionId now) :
    Converges (add caller sessionId entryId text runAtMs now) r now db := by
  obtain ⟨record, hrecord, hcaller⟩ := howner
  have hget : db.entries.get? entryId = some r := UniqueTable.get?_eq_some.mpr ⟨hr, hid⟩
  have hconverge : converge r sessionId now = .ok r := by
    rw [converge, if_neg (not_not.mpr hsession), if_pos ⟨hpending, hexp⟩]
  have hstored : ∀ row, insertOrConverge row sessionId now (some r) db = .ok r db :=
    fun _ => liftExcept_ok hconverge db
  refine ⟨db, ?_, fun _ => rfl⟩
  rw [add_of_room hprincipal hentry hrunAt hrecord hcaller hroom.live hroom.retained, hget]
  unfold transaction
  rw [bind_of_ok (hstored _)]
  rfl

/-- A repeated `add` converges on its entry exactly if the queue has room for another. -/
theorem add_converges_iff {db₀ db₁ : QueueDatabase} (hfiled : OwnersFiled db₀)
    {caller₀ sessionId entryId text : String} {runAtMs : Option ℤ} {now₀ : ℤ}
    {e : UserPromptQueueLiveEntry}
    (hadd : add caller₀ sessionId entryId text runAtMs now₀ db₀ = .ok e db₁)
    (between : List Operation) {caller : String} {now : ℤ} {r : UserPromptQueueEntryRecord}
    (howner : IsOwner (run db₁ between) sessionId caller)
    (hr : r ∈ (run db₁ between).entries.rows) (hid : r.id = entryId)
    (hsession : r.sessionId = sessionId) (hpending : r.status = .pending)
    (hexp : now < r.expiresAtMs) (hlater : now₀ ≤ now) :
    Converges (add caller sessionId entryId text runAtMs now) r now (run db₁ between) ↔
      HasRoom (run db₁ between) sessionId now := by
  have haccepted := add_ok hadd
  constructor
  · rintro ⟨db', hagain, -⟩
    exact ⟨(add_ok hagain).live, (add_ok hagain).retained⟩
  · intro hroom
    obtain ⟨textBytes, hentry⟩ := haccepted.entry
    -- the caller may have become the owner since, but then by a transfer to a valid name
    have hvalid : validatePrincipal caller = .ok () := by
      obtain ⟨record, hrecord, hvalid⟩ :=
        haccepted.validlyOwned.run (haccepted.owners.filed hfiled) between
      obtain ⟨record', hrecord', rfl⟩ := howner
      obtain rfl := Option.some.inj (hrecord.symm.trans hrecord')
      exact hvalid
    exact converges_of_room hvalid hentry (validateRunAt_later hlater haccepted.runAt) howner hr hid
      hsession hpending hexp hroom

def firstEntry : UserPromptQueueEntryRecord := newEntry "s" "e" "text" 0 4 none 0 ttlMs

/-- The queue goes to `bob` and back. -/
def thereAndBack : List Operation :=
  [.transfer "ada" "bob" 0 "s" 1, .transfer "bob" "ada" 1 "s" 2]

theorem add_converges_thereAndBack :
    HasRoom (run (after .empty (.add "ada" "s" "e" "text" none 0)) thereAndBack) "s" 5 ∧
      Converges (add "ada" "s" "e" "text" none 5) firstEntry 5
        (run (after .empty (.add "ada" "s" "e" "text" none 0)) thereAndBack) := by
  have hadd : add "ada" "s" "e" "text" none 0 .empty =
      .ok (liveFrom firstEntry) (after .empty (.add "ada" "s" "e" "text" none 0)) := rfl
  have howner : IsOwner (run (after .empty (.add "ada" "s" "e" "text" none 0)) thereAndBack)
      "s" "ada" := ⟨⟨"s", "ada", 2, 0, 2⟩, by decide, rfl⟩
  have hr : firstEntry ∈
      (run (after .empty (.add "ada" "s" "e" "text" none 0)) thereAndBack).entries.rows := by decide
  have hroom : HasRoom (run (after .empty (.add "ada" "s" "e" "text" none 0)) thereAndBack)
      "s" 5 := ⟨by decide, by decide⟩
  exact ⟨hroom, (add_converges_iff ownersFiled_empty hadd thereAndBack howner hr rfl rfl rfl
    (by decide) (by decide)).mpr hroom⟩

/-- An entry short of a full backlog, the `add` that fills the queue succeeds, and the same
`add` is refused after it. -/
theorem backlogged_refuses {n : ℕ} (h : Backlogged n db) (hn : n + 1 = maxPending) :
    ∃ e db₁ r, add "ada" "s" (entryName (n + 1)) "text" none 0 db = .ok e db₁ ∧
      IsOwner db₁ "s" "ada" ∧ r ∈ db₁.entries.rows ∧ r.id = entryName (n + 1) ∧
      r.sessionId = "s" ∧ r.status = .pending ∧ 0 < r.expiresAtMs ∧
      ¬Converges (add "ada" "s" (entryName (n + 1)) "text" none 0) r 0 db₁ := by
  obtain ⟨t', hrows, hadd⟩ := add_eq_ok (h.admissible (by omega))
  have hexp : 0 < saturatingAdd 0 ttlMs := by decide
  refine ⟨_, _, newEntry "s" (entryName (n + 1)) "text" (nextOrdinal "s" db.entries)
    "text".utf8ByteSize none 0 (saturatingAdd 0 ttlMs), hadd, h.owner, ?_, rfl, rfl, rfl, hexp, ?_⟩
  · rw [hrows]
    exact List.mem_append_right _ List.mem_cons_self
  · rintro ⟨db', hagain, -⟩
    have hfull := (h.add (by omega)).live
    rw [addNth, after, perform, finalState_map, hadd] at hfull
    have hroom := (add_ok hagain).live
    change liveCount "s" 0 t' = n + 1 at hfull
    change liveCount "s" 0 t' < maxPending at hroom
    omega

def almostFull : List Operation :=
  [addNth 0, .claim "s" 0, .markDeliveryFailed (entryName 0) "busy" 0] ++
    (List.range 63).map (fun i => addNth (0 + i + 1))

theorem full_queue_refuses_retry :
    ∃ e db₁ r, add "ada" "s" (entryName 64) "text" none 0 (run .empty almostFull) = .ok e db₁ ∧
      IsOwner db₁ "s" "ada" ∧ r ∈ db₁.entries.rows ∧ r.id = entryName 64 ∧ r.sessionId = "s" ∧
      r.status = .pending ∧ 0 < r.expiresAtMs ∧
      ¬Converges (add "ada" "s" (entryName 64) "text" none 0) r 0 db₁ := by
  have hbacklogged : Backlogged 63 (run .empty almostFull) := by
    rw [almostFull, run_append]
    exact backlogged_zero.addAll 63 (by decide)
  exact backlogged_refuses hbacklogged rfl

end Codegg.PromptQueue
