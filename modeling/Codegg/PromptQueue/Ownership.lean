import Codegg.PromptQueue.LiveLimit

/-!
# Who owns a queue

The owner row of a session is written by the first `add` or `adopt`, moved by
`transfer` under its revision, and never removed. Everything a client may do to a
queue checks the owner in the transaction that does it, so that what counts is the
order in which transactions commit.
-/
namespace Codegg.PromptQueue

open Codegg.Library ReadOnly Operation

def IsOwner (db : QueueDatabase) (sessionId caller : String) : Prop :=
  ∃ record, db.owners sessionId = some record ∧ record.ownerPrincipal = caller

variable {db db' : QueueDatabase} {sessionId caller : String} {record : UserPromptQueueOwnerRecord}
  {nowMs : ℤ} {expected : ℕ} {op : Operation}

theorem IsOwner.unique {caller' : String} (h : IsOwner db sessionId caller)
    (h' : IsOwner db sessionId caller') : caller = caller' := by
  obtain ⟨record, hrecord, rfl⟩ := h
  obtain ⟨record', hrecord', rfl⟩ := h'
  rw [Option.some.inj (hrecord.symm.trans hrecord')]

/-- The caller of a mutation and the session it is about. Delivery has no caller. -/
def Operation.mutator : Operation → Option (String × String)
  | .add caller sessionId _ _ _ _ => some (caller, sessionId)
  | .edit caller sessionId _ _ _ _ => some (caller, sessionId)
  | .delete caller sessionId _ _ => some (caller, sessionId)
  | .reorder caller sessionId _ _ => some (caller, sessionId)
  | .adopt caller sessionId _ => some (caller, sessionId)
  | .transfer caller _ _ sessionId _ => some (caller, sessionId)
  | .markSteerDelivered caller sessionId _ _ _ => some (caller, sessionId)
  | .listLive _ _ | .claim _ _ | .markDelivered _ _ _ | .markDeliveryFailed _ _ _
    | .releaseDelivery _ _ | .retryFailed _ _ | .resolveStranded _ _ _ => none

/-- The requests that give a queue without an owner one. -/
def Operation.starts : Operation → Bool
  | .add _ _ _ _ _ _ | .adopt _ _ _ => true
  | _ => false

/-- A transfer of the session's queue, whatever revision it expects. -/
def Operation.transfers (sessionId : String) : Operation → Bool
  | .transfer _ _ _ sessionId' _ => decide (sessionId' = sessionId)
  | _ => false

/-- A transfer of the session's queue that expects this revision. -/
def Operation.carries (sessionId : String) (expected : ℕ) : Operation → Bool
  | .transfer _ _ expected' sessionId' _ =>
    decide (expected' = expected) && decide (sessionId' = sessionId)
  | _ => false

def accepted (db : QueueDatabase) (op : Operation) : Bool :=
  match perform op db with
  | .ok _ _ => true
  | .error _ _ => false

/-- How many of the transfers of a run that expect this revision succeed. -/
def transfersWon (sessionId : String) (expected : ℕ) : QueueDatabase → List Operation → ℕ
  | _, [] => 0
  | db, op :: ops =>
    (if op.carries sessionId expected && accepted db op then 1 else 0) +
      transfersWon sessionId expected (after db op) ops

/-! ### Statements that leave the owners alone -/

/-- Whatever comes of it, the owner rows stay. -/
abbrev KeepsOwners {α : Type} (x : QueueM α) : Prop :=
  Moves (fun db db' => db'.owners = db.owners) x

theorem KeepsOwners.of_ok {α : Type} {x : QueueM α} (h : KeepsOwners x) {a : α}
    (hx : x db = .ok a db') : db'.owners = db.owners := by
  have hdb := h db
  rwa [hx] at hdb

theorem ownersWalk : Walk fun db db' => db'.owners = db.owners where
  refl _ := rfl
  trans _ _ _ h h' := h'.trans h
  update _ _ := rfl
  deleteRows _ _ := rfl
  moveRows _ := moves_moveRows (R := fun db db' => db'.owners = db.owners) (fun _ => rfl)
    fun _ _ _ => rfl

theorem keepsOwners_storeEntries (stored : Option EntryTable) :
    KeepsOwners (storeEntries stored) := by
  cases stored with
  | none => exact ownersWalk.keep (.throw _)
  | some entries => exact fun _ => rfl

theorem keepsOwners_insertOrConverge (row : UserPromptQueueEntryRecord) (sessionId : String)
    (nowMs : ℤ) (existing : Option UserPromptQueueEntryRecord) :
    KeepsOwners (insertOrConverge row sessionId nowMs existing) := by
  cases existing with
  | some existing => exact ownersWalk.keep (readOnly_liftExcept _)
  | none =>
    refine ownersWalk.seq ?_ fun _ => ownersWalk.keep (.pure _)
    exact ownersWalk.after .get fun _ => keepsOwners_storeEntries _

theorem keepsOwners_retryFailed (entryId : String) (nowMs : ℤ) :
    KeepsOwners (retryFailed entryId nowMs) := by
  refine ownersWalk.transaction ?_
  refine ownersWalk.checked fun _ => ?_
  refine ownersWalk.seq ?_ fun _ => ownersWalk.keep (.pure _)
  exact fun _ => rfl

/-! ### The three that write an owner row -/

/-- The owner row a queue starts with. -/
def firstOwner (caller sessionId : String) (nowMs : ℤ) : UserPromptQueueOwnerRecord :=
  ⟨sessionId, caller, 0, nowMs, nowMs⟩

/-- The caller owns the queue already, or starts it. -/
def OwnsOrStarts (caller sessionId : String) (nowMs : ℤ) (db db' : QueueDatabase) : Prop :=
  (IsOwner db sessionId caller ∧ db'.owners = db.owners) ∨
    (db.owners sessionId = none ∧ db'.owners =
      Function.update db.owners sessionId (some (firstOwner caller sessionId nowMs)))

theorem ownershipIn_owned :
    ownershipIn db sessionId = .owned record ↔ db.owners sessionId = some record := by
  unfold ownershipIn
  cases db.owners sessionId with
  | some record' => simp
  | none =>
    dsimp only
    split <;> simp

theorem ownershipIn_not_owned (h : ∀ record, ownershipIn db sessionId ≠ .owned record) :
    db.owners sessionId = none := by
  cases howner : db.owners sessionId with
  | none => rfl
  | some record => exact absurd (ownershipIn_owned.mpr howner) (h record)

theorem authorizeOwnedQueue_ok {u : Unit} (h : authorizeOwnedQueue caller sessionId db = .ok u db')
    :
    IsOwner db sessionId caller := by
  change ownedGate caller (ownershipIn db sessionId) db = .ok u db' at h
  cases hown : ownershipIn db sessionId with
  | owned record =>
    rw [hown] at h
    exact ⟨record, ownershipIn_owned.mp hown, not_not.mp (failIf_eq_ok h).1⟩
  | absent =>
    rw [hown] at h
    cases h
  | unowned =>
    rw [hown] at h
    cases h

/-- The computation succeeds only for the owner of the queue. -/
def Gated (caller sessionId : String) {α : Type} (x : QueueM α) : Prop :=
  ∀ db db' a, x db = .ok a db' → IsOwner db sessionId caller

theorem Gated.check {α β : Type} {e : Except UserPromptQueueError α} {f : α → QueueM β}
    (hf : ∀ a, Gated caller sessionId (f a)) :
    Gated caller sessionId (liftExcept e >>= f) := by
  intro db db' b h
  obtain ⟨a, -, h⟩ := bind_eq_ok (readOnly_liftExcept _) h
  exact hf a db db' b h

theorem Gated.authorize {β : Type} {f : Unit → QueueM β} :
    Gated caller sessionId (authorizeOwnedQueue caller sessionId >>= f) := by
  intro db db' b h
  obtain ⟨_, hauth, -⟩ := bind_eq_ok (readOnly_authorizeOwnedQueue _ _) h
  exact authorizeOwnedQueue_ok hauth

theorem Gated.transaction {α : Type} {x : QueueM α} (h : Gated caller sessionId x) :
    Gated caller sessionId (transaction x) :=
  fun db db' a hx => h db db' a (transaction_eq_ok hx)

theorem resolveOwnership_ok {ownership : UserPromptQueueOwnership}
    (h : resolveOwnership sessionId db = .ok ownership db') :
    ownershipIn db sessionId = ownership := by
  cases h
  rfl

/-- What an `add` that succeeds has found. -/
structure AddAccepted (db : QueueDatabase) (caller sessionId entryId text : String)
    (runAtMs : Option ℤ) (nowMs : ℤ) (db' : QueueDatabase) : Prop where
  principal : validatePrincipal caller = .ok ()
  entry : ∃ textBytes, validateEntry entryId sessionId text = .ok textBytes
  runAt : validateRunAt runAtMs (saturatingAdd nowMs ttlMs) = .ok ()
  live : db.entries.affected (·.isLiveAt sessionId nowMs) < maxPending
  retained : db.entries.affected (·.ownedBy sessionId) < maxRetainedPerSession
  owners : OwnsOrStarts caller sessionId nowMs db db'

theorem add_ok {entryId text : String} {runAtMs : Option ℤ} {entry : UserPromptQueueLiveEntry}
    (h : add caller sessionId entryId text runAtMs nowMs db = .ok entry db') :
    AddAccepted db caller sessionId entryId text runAtMs nowMs db' := by
  replace h := transaction_eq_ok h
  obtain ⟨_, hprincipal, h⟩ := bind_eq_ok (readOnly_liftExcept _) h
  obtain ⟨textBytes, hentry, h⟩ := bind_eq_ok (readOnly_liftExcept _) h
  obtain ⟨_, hrunAt, h⟩ := bind_eq_ok (readOnly_liftExcept _) h
  obtain ⟨ownership, hown, h⟩ := bind_eq_ok (readOnly_resolveOwnership _) h
  obtain ⟨_, hgate, h⟩ := bind_eq_ok (readOnly_addGate _ _) h
  obtain ⟨_, hcap, h⟩ := bind_eq_ok (readOnly_checkCapacityIn _ _) h
  obtain ⟨_, s, hadopt, h⟩ := bind_eq_ok h
  obtain ⟨_, -, h⟩ := bind_eq_ok get h
  obtain ⟨record, s', hstored, h⟩ := bind_eq_ok h
  obtain rfl := of_ok (pure _) h
  have hkept := (keepsOwners_insertOrConverge _ _ _ _).of_ok hstored
  obtain ⟨-, hlive, hretained⟩ :=
    (leads_checkCapacityIn sessionId nowMs fun _ => True).of_ok trivial hcap
  refine ⟨(liftExcept_eq_ok hprincipal).1, ⟨textBytes, (liftExcept_eq_ok hentry).1⟩,
    (liftExcept_eq_ok hrunAt).1, hlive, hretained, ?_⟩
  cases ownership with
  | owned owner =>
    obtain rfl := of_ok (pure _) hadopt
    exact .inl ⟨⟨owner, ownershipIn_owned.mp (resolveOwnership_ok hown),
      not_not.mp (failIf_eq_ok hgate).1⟩, hkept⟩
  | absent =>
    cases hadopt
    exact .inr ⟨ownershipIn_not_owned (by simp [resolveOwnership_ok hown]), hkept⟩
  | unowned => cases hgate

theorem adopt_ok (h : adopt caller sessionId nowMs db = .ok record db') :
    validatePrincipal caller = .ok () ∧ OwnsOrStarts caller sessionId nowMs db db' := by
  replace h := transaction_eq_ok h
  obtain ⟨_, hprincipal, h⟩ := bind_eq_ok (readOnly_liftExcept _) h
  obtain ⟨_, -, h⟩ := bind_eq_ok (readOnly_liftExcept _) h
  obtain ⟨ownership, hown, h⟩ := bind_eq_ok (readOnly_resolveOwnership _) h
  refine ⟨(liftExcept_eq_ok hprincipal).1, ?_⟩
  have hstart : ∀ {x : QueueM UserPromptQueueOwnerRecord}, ReadOnly x →
      db.owners sessionId = none →
      (insertOwner caller sessionId nowMs >>= fun _ => x) db = .ok record db' →
        OwnsOrStarts caller sessionId nowMs db db' := by
    intro x hx hnone hb
    obtain ⟨_, s, hinsert, hb⟩ := bind_eq_ok hb
    obtain rfl := hx.of_ok hb
    cases hinsert
    exact .inr ⟨hnone, rfl⟩
  have hread : ReadOnly (do
      liftExcept (((← get).owners sessionId).elim (.error UserPromptQueueError.notFound) .ok) :
        QueueM UserPromptQueueOwnerRecord) :=
    bind get fun _ => readOnly_liftExcept _
  cases ownership with
  | owned owner =>
    obtain ⟨_, hcaller, h⟩ := bind_eq_ok (failIf _ _) h
    obtain rfl := of_ok (pure _) h
    exact .inl ⟨⟨owner, ownershipIn_owned.mp (resolveOwnership_ok hown),
      not_not.mp (failIf_eq_ok hcaller).1⟩, rfl⟩
  | absent => exact hstart hread (ownershipIn_not_owned (by simp [resolveOwnership_ok hown])) h
  | unowned => exact hstart hread (ownershipIn_not_owned (by simp [resolveOwnership_ok hown])) h

/-- The owner row a transfer leaves. -/
def movedOwner (recipient : String) (nowMs : ℤ) (current : UserPromptQueueOwnerRecord) :
    UserPromptQueueOwnerRecord :=
  { current with
    ownerPrincipal := recipient, revision := current.revision + 1, updatedAtMs := nowMs }

/-- A transfer succeeds only for the owner and at the revision it expects. -/
theorem transfer_ok {recipient : String}
    (h : transfer caller recipient expected sessionId nowMs db = .ok record db') :
    validatePrincipal recipient = .ok () ∧ ∃ current, db.owners sessionId = some current ∧
      current.ownerPrincipal = caller ∧ current.revision = min expected (2 ^ 63 - 1) ∧
      db'.owners = Function.update db.owners current.sessionId
        (some (movedOwner recipient nowMs current)) := by
  replace h := transaction_eq_ok h
  obtain ⟨_, -, h⟩ := bind_eq_ok (readOnly_liftExcept _) h
  obtain ⟨_, hrecipient, h⟩ := bind_eq_ok (readOnly_liftExcept _) h
  obtain ⟨_, -, h⟩ := bind_eq_ok (readOnly_liftExcept _) h
  obtain ⟨ownership, hown, h⟩ := bind_eq_ok (readOnly_resolveOwnership _) h
  refine ⟨(liftExcept_eq_ok hrecipient).1, ?_⟩
  cases ownership with
  | owned current =>
    obtain ⟨_, hcaller, h⟩ := bind_eq_ok (failIf _ _) h
    obtain ⟨_, hrevision, h⟩ := bind_eq_ok (failIf _ _) h
    obtain ⟨_, s, hset, h⟩ := bind_eq_ok h
    obtain rfl := of_ok (pure _) h
    cases hset
    exact ⟨current, ownershipIn_owned.mp (resolveOwnership_ok hown),
      not_not.mp (failIf_eq_ok hcaller).1, not_not.mp (failIf_eq_ok hrevision).1, rfl⟩
  | absent => cases h
  | unowned => cases h

/-- What a transfer needs besides the revision it expects. -/
structure MayTransfer (db : QueueDatabase) (caller recipient sessionId : String) : Prop where
  owner : IsOwner db sessionId caller
  validCaller : validatePrincipal caller = .ok ()
  validRecipient : validatePrincipal recipient = .ok ()
  validSession : validateSessionId sessionId = .ok ()

theorem transfer_eq {recipient : String} (h : MayTransfer db caller recipient sessionId)
    {current : UserPromptQueueOwnerRecord} (hcurrent : db.owners sessionId = some current)
    (hrevision : current.revision = min expected (2 ^ 63 - 1)) (nowMs : ℤ) :
    ∃ record db', transfer caller recipient expected sessionId nowMs db = .ok record db' := by
  obtain ⟨record, hrecord, hcaller⟩ := h.owner
  obtain rfl := Option.some.inj (hrecord.symm.trans hcurrent)
  have hown : resolveOwnership sessionId db = .ok (.owned record) db := by
    rw [← ownershipIn_owned.mpr hcurrent]
    rfl
  refine ⟨movedOwner recipient nowMs record, ⟨db.entries, Function.update db.owners
    record.sessionId (some (movedOwner recipient nowMs record))⟩, ?_⟩
  rw [transfer]
  unfold transaction
  rw [bind_of_ok (liftExcept_ok h.validCaller db), bind_of_ok (liftExcept_ok h.validRecipient db),
    bind_of_ok (liftExcept_ok h.validSession db), bind_of_ok hown]
  dsimp only
  rw [bind_of_ok (failIf_ok (not_not.mpr hcaller) db),
    bind_of_ok (failIf_ok (not_not.mpr hrevision) db)]
  rfl

/-! ### One operation -/

/-- A refused operation changes nothing. -/
theorem perform_eq_error {e : UserPromptQueueError} (h : perform op db = .error e db') :
    db' = db := by
  cases op <;> exact (transaction_eq_error (map_eq_error.mp h)).choose_spec.2

theorem accepted_eq_true :
    accepted db op = true ↔ ∃ response db', perform op db = .ok response db' := by
  unfold accepted
  cases perform op db <;> simp

/-- What an operation does to the owner rows. -/
inductive OwnersMove (db : QueueDatabase) (op : Operation) (db' : QueueDatabase) : Prop
  | kept (owners : db'.owners = db.owners)
      (lost : ∀ sessionId, op.transfers sessionId = true → accepted db op = false)
  | started {caller sessionId : String} {nowMs : ℤ} (starts : op.starts = true)
      (mutator : op.mutator = some (caller, sessionId))
      (valid : validatePrincipal caller = .ok ()) (unowned : db.owners sessionId = none)
      (owners : db'.owners =
        Function.update db.owners sessionId (some (firstOwner caller sessionId nowMs)))
  | moved {caller recipient sessionId : String} {expected : ℕ} {nowMs : ℤ}
      {current : UserPromptQueueOwnerRecord}
      (transfer : op = .transfer caller recipient expected sessionId nowMs)
      (won : accepted db op = true) (valid : validatePrincipal recipient = .ok ())
      (owned : db.owners sessionId = some current) (caller_eq : current.ownerPrincipal = caller)
      (revision : current.revision = min expected (2 ^ 63 - 1))
      (owners : db'.owners = Function.update db.owners current.sessionId
        (some (movedOwner recipient nowMs current)))

theorem OwnsOrStarts.move (h : OwnsOrStarts caller sessionId nowMs db db')
    (hvalid : validatePrincipal caller = .ok ()) (hstarts : op.starts = true)
    (hmutator : op.mutator = some (caller, sessionId)) : OwnersMove db op db' := by
  rcases h with ⟨-, hkept⟩ | ⟨hnone, howners⟩
  · refine .kept hkept fun sessionId' htransfers => ?_
    cases op <;> cases hstarts <;> cases htransfers
  · exact .started hstarts hmutator hvalid hnone howners

theorem keepsOwners_perform (hstarts : op.starts = false)
    (htransfers : ∀ sessionId, op.transfers sessionId = false) : KeepsOwners (perform op) := by
  intro db
  by_cases hages : op.onlyAges = true
  · exact ownersWalk.perform hages db
  cases op with
  | add | adopt => cases hstarts
  | transfer _ _ _ sessionId _ => simp [transfers] at htransfers
  | retryFailed entryId nowMs =>
    rw [perform, finalState_map]
    exact keepsOwners_retryFailed entryId nowMs db
  | _ => exact absurd rfl hages

/-- The step lemma. -/
theorem ownersMove_after (db : QueueDatabase) (op : Operation) :
    OwnersMove db op (after db op) := by
  unfold after
  cases hperform : perform op db with
  | error e db' =>
    obtain rfl := perform_eq_error hperform
    refine .kept rfl fun _ _ => ?_
    rw [accepted, hperform]
  | ok response db' =>
    cases op with
    | add caller sessionId entryId text runAtMs nowMs =>
      obtain ⟨entry, hx, -⟩ := map_eq_ok hperform
      exact (add_ok hx).owners.move (add_ok hx).principal rfl rfl
    | adopt caller sessionId nowMs =>
      obtain ⟨record, hx, -⟩ := map_eq_ok hperform
      exact (adopt_ok hx).2.move (adopt_ok hx).1 rfl rfl
    | transfer caller recipient expected sessionId nowMs =>
      obtain ⟨record, hx, -⟩ := map_eq_ok hperform
      obtain ⟨hvalid, current, howned, hcaller, hrevision, howners⟩ := transfer_ok hx
      exact .moved rfl (accepted_eq_true.mpr ⟨_, _, hperform⟩) hvalid howned hcaller hrevision
        howners
    | _ =>
      refine .kept ((keepsOwners_perform rfl fun _ => rfl).of_ok hperform) fun _ htransfers => ?_
      cases htransfers

/-! ### Runs -/

/-- Every owner row is found under the session it names, which is the key of the table. -/
def OwnersFiled (db : QueueDatabase) : Prop :=
  ∀ sessionId record, db.owners sessionId = some record → record.sessionId = sessionId

theorem ownersFiled_empty : OwnersFiled .empty := fun _ _ h => nomatch h

theorem OwnersMove.filed (h : OwnersMove db op db') (hfiled : OwnersFiled db) :
    OwnersFiled db' := by
  intro sessionId record hrecord
  cases h with
  | kept howners =>
    rw [howners] at hrecord
    exact hfiled sessionId record hrecord
  | @started caller sessionId' nowMs _ _ _ _ howners =>
    rw [howners, Function.update_apply] at hrecord
    split at hrecord
    · rename_i heq
      cases hrecord
      exact heq.symm
    · exact hfiled sessionId record hrecord
  | @moved caller recipient sessionId' expected nowMs current _ _ _ _ _ _ howners =>
    rw [howners, Function.update_apply] at hrecord
    split at hrecord
    · rename_i heq
      cases hrecord
      exact heq.symm
    · exact hfiled sessionId record hrecord

/-- Whatever every step keeps holds at the end of a run. -/
theorem run_keeps {P : QueueDatabase → Prop} (hstep : ∀ db op, P db → P (after db op)) (h : P db)
    (ops : List Operation) : P (run db ops) := by
  induction ops generalizing db with
  | nil => exact h
  | cons op ops ih => exact ih (hstep db op h)

theorem run_filed (h : OwnersFiled db) (ops : List Operation) :
    OwnersFiled (run db ops) :=
  run_keeps (fun _ op hdb => (ownersMove_after _ op).filed hdb) h ops

/-- A queue stays with its owner unless a transfer of it succeeds. -/
theorem owner_of_lost (hfiled : OwnersFiled db) (hrecord : db.owners sessionId = some record)
    (hlost : (op.transfers sessionId && accepted db op) = false) :
    (after db op).owners sessionId = some record := by
  cases ownersMove_after db op with
  | kept howners => rw [howners, hrecord]
  | @started caller sessionId' nowMs _ _ _ hunowned howners =>
    have hne : sessionId ≠ sessionId' := by
      rintro rfl
      rw [hunowned] at hrecord
      cases hrecord
    rw [howners, Function.update_of_ne hne, hrecord]
  | @moved caller recipient sessionId' expected nowMs current htransfer hwon _ howned _ _ howners =>
    subst htransfer
    have hne : sessionId ≠ current.sessionId := by
      rw [hfiled _ _ howned]
      rintro rfl
      simp [transfers, hwon] at hlost
    rw [howners, Function.update_of_ne hne, hrecord]

/-- A transfer that succeeds is made at the revision it expects and adds one to it. -/
theorem owner_of_won (hfiled : OwnersFiled db)
    (hwon : (op.transfers sessionId && accepted db op) = true) :
    ∃ record record' expected, db.owners sessionId = some record ∧
      (after db op).owners sessionId = some record' ∧ op.carries sessionId expected = true ∧
      record.revision = min expected (2 ^ 63 - 1) ∧ record'.revision = record.revision + 1 := by
  rw [Bool.and_eq_true] at hwon
  cases ownersMove_after db op with
  | kept _ hlost => simp [hlost sessionId hwon.1] at hwon
  | started hstarts => cases op <;> simp [starts, transfers] at hstarts hwon
  | @moved caller recipient sessionId' expected nowMs current htransfer _ _ howned _ hrevision
      howners =>
    subst htransfer
    obtain rfl : sessionId' = sessionId := of_decide_eq_true hwon.1
    refine ⟨current, movedOwner recipient nowMs current, expected, howned, ?_, ?_, hrevision, rfl⟩
    · rw [howners, hfiled _ _ howned, Function.update_self]
    · simp [carries]

theorem carries_transfers (h : op.carries sessionId expected = true) :
    op.transfers sessionId = true := by
  cases op with
  | transfer =>
    simp only [carries, Bool.and_eq_true] at h
    exact h.2
  | _ => cases h

theorem carries_unique {expected' : ℕ} (h : op.carries sessionId expected = true)
    (h' : op.carries sessionId expected' = true) :
    expected = expected' := by
  cases op with
  | transfer =>
    simp only [carries, Bool.and_eq_true, decide_eq_true_eq] at h h'
    exact h.1.symm.trans h'.1
  | _ => cases h

/-- The revision grows by one with a transfer that succeeds, and with nothing else. -/
theorem revision_after (op : Operation) (hfiled : OwnersFiled db)
    (hrecord : db.owners sessionId = some record) :
    ∃ record', (after db op).owners sessionId = some record' ∧ record'.revision =
      record.revision + if op.transfers sessionId && accepted db op then 1 else 0 := by
  cases hwon : op.transfers sessionId && accepted db op with
  | false => exact ⟨record, owner_of_lost hfiled hrecord hwon, rfl⟩
  | true =>
    obtain ⟨record₁, record', expected, hrecord₁, hrecord', -, -, hrevision⟩ :=
      owner_of_won hfiled hwon
    obtain rfl := Option.some.inj (hrecord.symm.trans hrecord₁)
    exact ⟨record', hrecord', hrevision⟩

/-- Once the revision is past the one they expect, no transfers succeed. -/
theorem transfersWon_past (ops : List Operation) (hfiled : OwnersFiled db)
    (hrecord : db.owners sessionId = some record)
    (hpast : min expected (2 ^ 63 - 1) < record.revision) :
    transfersWon sessionId expected db ops = 0 := by
  induction ops generalizing db record with
  | nil => rfl
  | cons op ops ih =>
    obtain ⟨record', hrecord', hrevision⟩ := revision_after op hfiled hrecord
    have hrest := ih ((ownersMove_after db op).filed hfiled) hrecord' (by omega)
    rw [transfersWon, hrest, add_zero, ite_eq_right_iff]
    intro hwon
    rw [Bool.and_eq_true] at hwon
    obtain ⟨record₁, _, expected', hrecord₁, -, hcarries, hrevision₁, -⟩ :=
      owner_of_won hfiled (by rw [carries_transfers hwon.1, hwon.2]; rfl)
    obtain rfl := Option.some.inj (hrecord.symm.trans hrecord₁)
    obtain rfl := carries_unique hwon.1 hcarries
    omega

/-- After a transfer that expects a revision, no other one that expects it succeeds. -/
theorem transfersWon_after (hfiled : OwnersFiled db)
    (hwon : (op.carries sessionId expected && accepted db op) = true) (ops : List Operation) :
    transfersWon sessionId expected (after db op) ops = 0 := by
  rw [Bool.and_eq_true] at hwon
  obtain ⟨record, record', expected', -, hrecord', hcarries, hrevision, hnext⟩ :=
    owner_of_won hfiled (by rw [carries_transfers hwon.1, hwon.2]; rfl)
  obtain rfl := carries_unique hwon.1 hcarries
  exact transfersWon_past ops ((ownersMove_after db op).filed hfiled) hrecord' (by omega)

theorem transfersWon_le_one (ops : List Operation) (hfiled : OwnersFiled db) :
    transfersWon sessionId expected db ops ≤ 1 := by
  induction ops generalizing db with
  | nil => exact Nat.zero_le 1
  | cons op ops ih =>
    rw [transfersWon]
    split
    · rename_i hwon
      rw [transfersWon_after hfiled hwon]
    · have hrest := ih ((ownersMove_after db op).filed hfiled)
      omega

/-- Among the requests is a transfer by the owner, at the revision the queue is at. -/
def Contested (db : QueueDatabase) (sessionId : String) (expected : ℕ) (ops : List Operation) :
    Prop :=
  (∃ record, db.owners sessionId = some record ∧ record.revision = expected) ∧
    expected < 2 ^ 63 - 1 ∧
    ∃ caller recipient nowMs, MayTransfer db caller recipient sessionId ∧
      Operation.transfer caller recipient expected sessionId nowMs ∈ ops

/-- Then one of the transfers that expect that revision succeeds. -/
theorem transfersWon_of_contested (ops : List Operation) (hfiled : OwnersFiled db)
    (h : Contested db sessionId expected ops) : transfersWon sessionId expected db ops = 1 := by
  induction ops generalizing db with
  | nil =>
    obtain ⟨-, -, _, _, _, -, hmem⟩ := h
    cases hmem
  | cons op ops ih =>
    obtain ⟨⟨record, hrecord, hrevision⟩, hbound, caller, recipient, nowMs, hmay, hmem⟩ := h
    rw [transfersWon]
    cases hwon : op.carries sessionId expected && accepted db op with
    | true => rw [transfersWon_after hfiled hwon]; rfl
    | false =>
      -- no other transfer can succeed at this revision, so that nothing has changed
      have hlost : (op.transfers sessionId && accepted db op) = false := by
        by_contra hne
        rw [Bool.not_eq_false] at hne
        obtain ⟨record₁, _, expected', hrecord₁, -, hcarries, hrevision₁, -⟩ :=
          owner_of_won hfiled hne
        obtain rfl := Option.some.inj (hrecord.symm.trans hrecord₁)
        obtain rfl : expected' = expected := by omega
        rw [Bool.and_eq_true] at hne
        rw [hcarries, hne.2] at hwon
        cases hwon
      have hkept := owner_of_lost hfiled hrecord hlost
      have hlater : Operation.transfer caller recipient expected sessionId nowMs ∈ ops := by
        rcases List.mem_cons.mp hmem with rfl | hlater
        · have hcurrent : record.revision = min expected (2 ^ 63 - 1) := by omega
          obtain ⟨moved, db', htransfer⟩ := transfer_eq hmay hrecord hcurrent nowMs
          have hperform : perform (.transfer caller recipient expected sessionId nowMs) db =
              .ok (.owner moved) db' := map_of_ok htransfer Response.owner
          rw [accepted_eq_true.mpr ⟨_, _, hperform⟩] at hwon
          simp [carries] at hwon
        · exact hlater
      have howner : IsOwner (after db op) sessionId caller := by
        obtain ⟨record₁, hrecord₁, hcaller⟩ := hmay.owner
        obtain rfl := Option.some.inj (hrecord.symm.trans hrecord₁)
        exact ⟨record, hkept, hcaller⟩
      have hrest := ih ((ownersMove_after db op).filed hfiled) ⟨⟨record, hkept, hrevision⟩, hbound,
        caller, recipient, nowMs, { hmay with owner := howner }, hlater⟩
      rw [hrest]
      rfl

/-- A mutation that succeeds is the owner's, who may have become it just then. -/
theorem owner_of_accepted (hmutator : op.mutator = some (caller, sessionId))
    (haccepted : accepted db op = true) :
    IsOwner db sessionId caller ∨ (op.starts = true ∧ db.owners sessionId = none ∧
      IsOwner (after db op) sessionId caller) := by
  obtain ⟨response, db', hperform⟩ := accepted_eq_true.mp haccepted
  have hafter : after db op = db' := by rw [after, hperform]; rfl
  have hstarted : ∀ {nowMs : ℤ}, op.starts = true → OwnsOrStarts caller sessionId nowMs db db' →
      IsOwner db sessionId caller ∨ (op.starts = true ∧ db.owners sessionId = none ∧
        IsOwner (after db op) sessionId caller) := by
    rintro nowMs hstarts (⟨howner, -⟩ | ⟨hnone, howners⟩)
    · exact .inl howner
    · refine .inr ⟨hstarts, hnone, firstOwner caller sessionId nowMs, ?_, rfl⟩
      rw [hafter, howners, Function.update_self]
  cases op with
  | add =>
    cases hmutator
    obtain ⟨entry, hx, -⟩ := map_eq_ok hperform
    exact hstarted rfl (add_ok hx).owners
  | adopt =>
    cases hmutator
    obtain ⟨record, hx, -⟩ := map_eq_ok hperform
    exact hstarted rfl (adopt_ok hx).2
  | transfer =>
    cases hmutator
    obtain ⟨record, hx, -⟩ := map_eq_ok hperform
    obtain ⟨-, current, howned, hcaller, -, -⟩ := transfer_ok hx
    exact .inl ⟨current, howned, hcaller⟩
  | edit =>
    cases hmutator
    obtain ⟨entry, hx, -⟩ := map_eq_ok hperform
    refine .inl (Gated.transaction ?_ db db' entry hx)
    exact .check fun _ => .check fun _ => .authorize
  | delete | reorder =>
    cases hmutator
    obtain ⟨entries, hx, -⟩ := map_eq_ok hperform
    refine .inl (Gated.transaction ?_ db db' entries hx)
    exact .check fun _ => .check fun _ => .check fun _ => .authorize
  | markSteerDelivered =>
    cases hmutator
    obtain ⟨_, hx, -⟩ := map_eq_ok hperform
    refine .inl (Gated.transaction ?_ db db' _ hx)
    exact .check fun _ => .check fun _ => .check fun _ => .check fun _ => .authorize
  | _ => cases hmutator

/-- What holds all along a run from a database. -/
structure OwnershipFenced (db : QueueDatabase) (ops : List Operation) : Prop where
  oneOwner : ∀ earlier, earlier <+: ops → ∀ sessionId caller caller',
    IsOwner (run db earlier) sessionId caller → IsOwner (run db earlier) sessionId caller' →
      caller = caller'
  revision : ∀ earlier op later, ops = earlier ++ op :: later → ∀ sessionId record,
    (run db earlier).owners sessionId = some record →
      ∃ record', (run db (earlier ++ [op])).owners sessionId = some record' ∧ record'.revision =
        record.revision + if op.transfers sessionId && accepted (run db earlier) op then 1 else 0
  /-- Of the transfers that expect one revision at most one succeeds, from any moment on. -/
  fenced : ∀ earlier later, ops = earlier ++ later → ∀ sessionId expected,
    transfersWon sessionId expected (run db earlier) later ≤ 1
  /-- One does, if the queue is at that revision and one of them is the owner's. -/
  decided : ∀ earlier later, ops = earlier ++ later → ∀ sessionId expected,
    Contested (run db earlier) sessionId expected later →
      transfersWon sessionId expected (run db earlier) later = 1
  /-- A mutation that succeeds is the owner's, or the one that starts the queue. -/
  byOwner : ∀ earlier op later, ops = earlier ++ op :: later → ∀ caller sessionId,
    op.mutator = some (caller, sessionId) → accepted (run db earlier) op = true →
      IsOwner (run db earlier) sessionId caller ∨
        (op.starts = true ∧ (run db earlier).owners sessionId = none ∧
          IsOwner (run db (earlier ++ [op])) sessionId caller)

theorem run_ownershipFenced (db : QueueDatabase) (hfiled : OwnersFiled db)
    (ops : List Operation) : OwnershipFenced db ops where
  oneOwner _ _ _ _ _ h h' := h.unique h'
  revision earlier op later _ sessionId record hrecord := by
    rw [run_snoc]
    exact revision_after op (run_filed hfiled earlier) hrecord
  fenced earlier later _ _ _ := transfersWon_le_one later (run_filed hfiled earlier)
  decided earlier later _ _ _ h := transfersWon_of_contested later (run_filed hfiled earlier) h
  byOwner earlier op later _ caller sessionId hmutator haccepted := by
    rw [run_snoc]
    exact owner_of_accepted hmutator haccepted

/-- `ada` starts a queue and is asked twice to pass it on, at the same revision. -/
def twoTransfers (expected : ℕ) : List Operation :=
  [.adopt "ada" "s" 0, .transfer "ada" "bob" expected "s" 1,
    .transfer "ada" "cyd" expected "s" 2]

theorem run_ownershipFenced_twoTransfers :
    OwnersFiled .empty ∧ transfersWon "s" 0 .empty (twoTransfers 0) = 1 ∧
      OwnershipFenced .empty (twoTransfers 0) :=
  ⟨ownersFiled_empty, by decide, run_ownershipFenced .empty ownersFiled_empty (twoTransfers 0)⟩

/-- Of the transfers that expect a revision the queue is not at, none succeeds. -/
theorem staleTransfers_won : transfersWon "s" 7 .empty (twoTransfers 7) ≠ 1 := by
  decide

end Codegg.PromptQueue
