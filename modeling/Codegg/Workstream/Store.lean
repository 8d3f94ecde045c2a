import Codegg.Library.Worklist
import Codegg.Workstream.Claim

/-!
# The claim store

The operations as the statements they send. Each opens its transaction with the write
lock, so transactions take effect one after the other, and one that fails leaves the
database as it was. The readings of the clock, the random identities, the order in which
a query without `ORDER BY` lists its rows and the tables of the agent runs are whatever
the surroundings of a call make them.
-/
namespace Codegg.Workstream

open Codegg.Library

structure Session where
  db : WorkstreamDb
  /-- The coming readings of `now_ms`, the next one first. -/
  clock : ℕ → ℤ
  uuids : ℕ → String

abbrev ClaimM := EStateM WorkstreamClaimError Session

instance : Rollback Session := ⟨fun s s' => { s' with db := s.db }⟩

def nowMs : ClaimM ℤ := fun s =>
  .ok (s.clock 0) { s with clock := fun n => s.clock (n + 1) }

def newUuid : ClaimM String := fun s =>
  .ok (s.uuids 0) { s with uuids := fun n => s.uuids (n + 1) }

/-- The order in which a query lists its rows: any arrangement of them. -/
structure RowOrder where
  arrange : List ClaimRow → List ClaimRow
  perm : ∀ rows, (arrange rows).Perm rows

/-- Rows in the order they were inserted. -/
def RowOrder.inserted : RowOrder := ⟨id, fun _ => List.Perm.refl _⟩

/-! ### Single statements -/

def update (p : ClaimRow → Bool) (u : ClaimUpdate) : ClaimM ℕ := fun s =>
  .ok (s.db.claims.affected p) { s with db := { s.db with claims := s.db.claims.updateWhere p u } }

/-- `WHERE claim_id=? AND version=? AND lease_generation=?` -/
def casMatches (claimId : String) (version leaseGeneration : ℕ) (r : ClaimRow) : Bool :=
  decide (r.claimId = claimId) && decide (r.version = version) &&
    decide (r.leaseGeneration = leaseGeneration)

/-- A row whose claim is replaced; the keys and the target stay. -/
def claimUpdate (f : WorkstreamClaim → WorkstreamClaim)
    (hid : ∀ c, (f c).claimId = c.claimId) (hgroup : ∀ c, (f c).groupId = c.groupId) :
    ClaimUpdate where
  apply r := { r with toWorkstreamClaim := f r.toWorkstreamClaim }
  ident_apply r := hid r.toWorkstreamClaim
  slot_apply r := by simp only [ClaimRow.slot, hgroup]

/-- The row of an expired claim; its deadline stays in the table. -/
def expireClaim (now : ℤ) (c : WorkstreamClaim) : WorkstreamClaim :=
  { c with
    state := .released, version := c.version + 1, leaseGeneration := c.leaseGeneration + 1
    updatedAt := now }

def expireRow (now : ℤ) : ClaimUpdate := claimUpdate (expireClaim now) (fun _ => rfl) fun _ => rfl

def loadClaim (claimId : String) : ClaimM WorkstreamClaim := do
  match (← get).db.claims.get? claimId with
  | some row => return row.toWorkstreamClaim
  | none => throw .notFound

def leaseExpired (c : WorkstreamClaim) : ClaimM Bool :=
  match c.leaseExpiresAt with
  | none => pure false
  | some deadline => do return decide (deadline ≤ (← nowMs))

def eventRow (eventId : String) (c : WorkstreamClaim) (actor : ClaimActor)
    (action : ClaimAction) : ClaimEventRow where
  eventId := eventId
  claimId := c.claimId
  groupId := c.groupId
  actor := actor
  action := action
  version := c.version
  leaseGeneration := c.leaseGeneration
  createdAt := c.updatedAt

def ClaimEventRow.checked (e : ClaimEventRow) : Bool :=
  lengthWithin 128 e.actor.id && decide (1 ≤ e.version) && decide (1 ≤ e.leaseGeneration)

def insertClaimEvent (c : WorkstreamClaim) (actor : ClaimActor) (action : ClaimAction) :
    ClaimM Unit := do
  let db := (← get).db
  failIf (maxClaimEventsPerGroup ≤ db.events.affected fun e => decide (e.groupId = c.groupId))
    .capacity
  let row := eventRow (← newUuid) c actor action
  failIf (row.checked = false) .storage
  match db.events.insert? row with
  | none => throw .storage
  | some events => modify fun s => { s with db := { s.db with events := events } }

/-! ### Claiming -/

/-- A deadline that is not in the future, or too far in it. -/
def leaseRefused : Option ℤ → ClaimM Bool
  | none => pure false
  | some deadline => do
    if deadline ≤ (← nowMs) then return true
    else return decide (saturatingAdd (← nowMs) maxClaimLeaseMs < deadline)

def checkTaskMember (dir : Directory) (input : NewWorkstreamClaim) : ClaimM Unit :=
  match input.target with
  | .task taskId =>
    failIf (dir.hasMemberTask input.groupId input.projectId input.workspaceId taskId = false)
      .invalidTarget
  | _ => pure ()

/-- A second request with the key gives the claim of the first, if it asks for the same. -/
def converge (T : TextTables) (existing : WorkstreamClaim) (input : NewWorkstreamClaim)
    (target : String) : Except WorkstreamClaimError WorkstreamClaim := do
  if existing.projectId = input.projectId ∧ existing.workspaceId = input.workspaceId ∧
      existing.target.kind = input.target.kind then
    let text ← existing.target.normalized T
    if text = target ∧ existing.owner = input.actor then .ok existing
    else .error .idempotencyConflict
  else .error .idempotencyConflict

/-- Go through the active claims of the group: release those whose lease is over, and stop
at one that overlaps the new target. -/
def arbitrate (T : TextTables) (input : NewWorkstreamClaim) (target : String) :
    List ClaimRow → ClaimM Unit
  | [] => pure ()
  | row :: rows => do
    let current := row.toWorkstreamClaim
    if (← leaseExpired current) then
      let _ ← update (casMatches current.claimId current.version current.leaseGeneration)
        (expireRow (← nowMs))
      let expired := { expireClaim (← nowMs) current with leaseExpiresAt := none }
      insertClaimEvent expired expired.owner .expired
    else
      failIf (current.projectId ≠ input.projectId ∨ current.workspaceId ≠ input.workspaceId)
        .invalidDependency
      let text ← liftExcept (current.target.normalized T)
      failIf (targetsOverlap T current.target.kind text input.target.kind target = true) .overlap
    arbitrate T input target rows

def newClaim (input : NewWorkstreamClaim) (claimId : String) (now : ℤ) : WorkstreamClaim where
  claimId := claimId
  projectId := input.projectId
  workspaceId := input.workspaceId
  groupId := input.groupId
  target := input.target
  state := .claimed
  owner := input.actor
  version := 1
  leaseGeneration := 1
  leaseExpiresAt := input.leaseExpiresAt
  createdAt := now
  updatedAt := now

def insertClaim (row : ClaimRow) : ClaimM Unit := do
  let db := (← get).db
  failIf (row.checked = false) .storage
  failIf (activeTargetTaken row db.claims = true) .ownedByAnother
  match db.claims.insert? row with
  | none => throw .ownedByAnother
  | some claims => modify fun s => { s with db := { s.db with claims := claims } }

/-- The rows that a new claim of the group has to be compared with. -/
def activeRows (groupId : String) (table : ClaimTable) : List ClaimRow :=
  table.rows.filter fun r => decide (r.groupId = groupId) && r.state.isActive

def placeClaim (T : TextTables) (order : RowOrder) (input : NewWorkstreamClaim)
    (target : String) : ClaimM WorkstreamClaim := do
  let table := (← get).db.claims
  failIf (maxClaimsPerGroup ≤ table.affected fun r => decide (r.groupId = input.groupId)) .capacity
  arbitrate T input target (order.arrange (activeRows input.groupId table))
  let claimId ← newUuid
  let now ← nowMs
  let created := newClaim input claimId now
  insertClaim ⟨created, input.idempotencyKey⟩
  insertClaimEvent created created.owner .claimed
  return created

/-- `WHERE group_id = ? AND idempotency_key = ?` -/
def keyHolder (input : NewWorkstreamClaim) (table : ClaimTable) : Option ClaimRow :=
  table.rows.find? fun r => decide (r.slot = (input.groupId, input.idempotencyKey))

def claimLocked (T : TextTables) (dir : Directory) (order : RowOrder)
    (input : NewWorkstreamClaim) (target : String) : ClaimM WorkstreamClaim := do
  liftExcept (dir.validateGroupActor input.groupId input.projectId input.workspaceId input.actor)
  checkTaskMember dir input
  match keyHolder input (← get).db.claims with
  | some existing => liftExcept (converge T existing.toWorkstreamClaim input target)
  | none => placeClaim T order input target

def claim (T : TextTables) (dir : Directory) (order : RowOrder) (input : NewWorkstreamClaim) :
    ClaimM WorkstreamClaim := do
  let target ← liftExcept (input.target.normalized T)
  failIf (input.idempotencyKey = "" ∨
    maxClaimIdempotencyBytes < input.idempotencyKey.utf8ByteSize) .invalidTarget
  failIf ((← leaseRefused input.leaseExpiresAt) = true) .invalidTarget
  transaction (claimLocked T dir order { input with target := input.target.withText target } target)

/-! ### Transitions -/

def validateLease : Option ℤ → ClaimM (Option ℤ)
  | none => do
    let _ ← nowMs
    throw .invalidTransition
  | some deadline => do
    let now ← nowMs
    failIf (¬(now < deadline ∧ deadline ≤ saturatingAdd now maxClaimLeaseMs)) .invalidTransition
    return some deadline

structure TransitionTarget where
  state : ClaimState
  owner : Option ClaimActor
  deadline : Option ℤ
  bumpGeneration : Bool

def transitionTarget (c : WorkstreamClaim) (cas : ClaimCas) : ClaimM TransitionTarget :=
  match cas.transition, c.state with
  | .renew, .claimed => do return ⟨.claimed, none, ← validateLease cas.leaseExpiresAt, false⟩
  | .release, .offered | .release, .claimed | .release, .blocked =>
    return ⟨.released, none, none, true⟩
  | .block, .claimed => return ⟨.blocked, none, c.leaseExpiresAt, false⟩
  | .unblock, .blocked => return ⟨.claimed, none, c.leaseExpiresAt, false⟩
  | .complete, .claimed => return ⟨.completed, none, none, true⟩
  | .handoff, .claimed | .handoff, .blocked =>
    match cas.newOwner with
    | none => throw .invalidTransition
    | some owner => do
      failIf (owner = c.owner) .invalidTransition
      return ⟨.offered, some owner, ← validateLease cas.leaseExpiresAt, true⟩
  | .acceptOffer, .offered => return ⟨.claimed, none, c.leaseExpiresAt, false⟩
  | _, _ => throw .invalidTransition

def TransitionTarget.moved (t : TransitionTarget) (now : ℤ) (c : WorkstreamClaim) :
    WorkstreamClaim :=
  { c with
    state := t.state, owner := t.owner.getD c.owner, version := c.version + 1
    leaseGeneration := c.leaseGeneration + if t.bumpGeneration then 1 else 0
    leaseExpiresAt := t.deadline, updatedAt := now }

def moveRow (t : TransitionTarget) (now : ℤ) : ClaimUpdate :=
  claimUpdate (t.moved now) (fun _ => rfl) fun _ => rfl

def validateNewOwner (dir : Directory) (c : WorkstreamClaim) : Option ClaimActor → ClaimM Unit
  | none => pure ()
  | some owner => liftExcept (dir.validateGroupActor c.groupId c.projectId c.workspaceId owner)

def transitionLocked (dir : Directory) (cas : ClaimCas) : ClaimM WorkstreamClaim := do
  let current ← loadClaim cas.claimId
  liftExcept (dir.validateGroupActor current.groupId current.projectId current.workspaceId cas.actor)
  failIf (current.owner ≠ cas.actor) .ownedByAnother
  failIf (current.version ≠ cas.expectedVersion ∨
    current.leaseGeneration ≠ cas.expectedLeaseGeneration) .staleRevision
  failIf ((← leaseExpired current) = true) .staleRevision
  let next ← transitionTarget current cas
  validateNewOwner dir current next.owner
  let now ← nowMs
  let changed ← update (casMatches current.claimId cas.expectedVersion cas.expectedLeaseGeneration)
    (moveRow next now)
  failIf (changed ≠ 1) .staleRevision
  insertClaimEvent (next.moved now current) cas.actor (transitionAction cas.transition)
  return next.moved now current

def transition (dir : Directory) (cas : ClaimCas) : ClaimM WorkstreamClaim :=
  transaction (transitionLocked dir cas)

/-! ### Dependencies -/

/-- The claims that a claim waits for directly. -/
def prerequisiteClaims (table : DependencyTable) (claimId : String) : List String :=
  table.rows.filterMap fun d =>
    match d.prerequisite with
    | .claim id => if d.claimId = claimId then some id else none
    | .run _ => none

/-- `WITH RECURSIVE deps`: the claims that `start` waits for, directly or not. A row can be
found only once, so one expansion more than there are rows is enough. The start itself is
not listed when it is found again; it is never the claim asked for. -/
def recursiveDeps (table : DependencyTable) (start : String) : List String :=
  Worklist.search (prerequisiteClaims table) start (table.rows.length + 1) ⟨[start], []⟩

/-- `SELECT COUNT(*) … WHERE claim_id=? AND group_id=? AND project_id=? AND workspace_id=?` -/
def sameScopeClaim (table : ClaimTable) (c : WorkstreamClaim) (id : String) : Bool :=
  table.rows.any fun r => decide (r.claimId = id) && decide (r.groupId = c.groupId) &&
    decide (r.projectId = c.projectId) && decide (r.workspaceId = c.workspaceId)

def checkPrerequisite (dir : Directory) (db : WorkstreamDb) (c : WorkstreamClaim) :
    ClaimPrerequisite → Except WorkstreamClaimError Unit
  | .claim id =>
    if id = c.claimId then .error .dependencyCycle
    else if sameScopeClaim db.claims c id = false then .error .invalidDependency
    else if c.claimId ∈ recursiveDeps db.dependencies id then .error .dependencyCycle
    else .ok ()
  | .run id =>
    if id ∈ dir.scopedMembers c.groupId c.projectId c.workspaceId then .ok ()
    else .error .invalidDependency

/-- The row of a claim that gets a dependency. -/
def dependClaim (now : ℤ) (c : WorkstreamClaim) : WorkstreamClaim :=
  { c with version := c.version + 1, updatedAt := now }

def dependRow (now : ℤ) : ClaimUpdate := claimUpdate (dependClaim now) (fun _ => rfl) fun _ => rfl

def insertDependency (row : DependencyRow) : ClaimM Unit := do
  match (← get).db.dependencies.insert? row with
  | none => throw .dependencyCycle
  | some dependencies =>
    modify fun s => { s with db := { s.db with dependencies := dependencies } }

/-- What is checked before the prerequisite is looked at. -/
def checkDependent (dir : Directory) (db : WorkstreamDb) (claimId : String) (actor : ClaimActor)
    (expectedVersion : ℕ) : Except WorkstreamClaimError WorkstreamClaim :=
  match db.claims.get? claimId with
  | none => .error .notFound
  | some row =>
    match dir.validateGroupActor row.groupId row.projectId row.workspaceId actor with
    | .error e => .error e
    | .ok _ =>
      if row.owner ≠ actor then .error .ownedByAnother
      else if row.version ≠ expectedVersion then .error .staleRevision
      else if maxClaimDependencies ≤
          db.dependencies.affected (fun d => decide (d.claimId = claimId)) then .error .capacity
      else .ok row.toWorkstreamClaim

/-- The statements that write, once the checks are passed. -/
def recordDependency (claimId : String) (prerequisite : ClaimPrerequisite) (actor : ClaimActor)
    (expectedVersion : ℕ) (current : WorkstreamClaim) : ClaimM WorkstreamClaim := do
  let now ← nowMs
  insertDependency ⟨claimId, prerequisite, now⟩
  let changed ← update
    (fun r => decide (r.claimId = claimId) && decide (r.version = expectedVersion)) (dependRow now)
  failIf (changed ≠ 1) .staleRevision
  insertClaimEvent (dependClaim now current) actor .dependencyAdded
  return dependClaim now current

def addDependencyLocked (dir : Directory) (claimId : String) (prerequisite : ClaimPrerequisite)
    (actor : ClaimActor) (expectedVersion : ℕ) : ClaimM WorkstreamClaim := do
  let db := (← get).db
  let current ← liftExcept (checkDependent dir db claimId actor expectedVersion)
  liftExcept (checkPrerequisite dir db current prerequisite)
  recordDependency claimId prerequisite actor expectedVersion current

def addDependency (dir : Directory) (claimId : String) (prerequisite : ClaimPrerequisite)
    (actor : ClaimActor) (expectedVersion : ℕ) : ClaimM WorkstreamClaim :=
  transaction (addDependencyLocked dir claimId prerequisite actor expectedVersion)

/-! ### Handoff requests -/

def requestHandoffLocked (dir : Directory) (claimId : String) (actor : ClaimActor) :
    ClaimM Unit := do
  let current ← loadClaim claimId
  liftExcept (dir.validateGroupActor current.groupId current.projectId current.workspaceId actor)
  failIf (current.owner = actor ∨ ¬(current.state = .claimed ∨ current.state = .blocked))
    .invalidTransition
  insertClaimEvent { current with updatedAt := ← nowMs } actor .handoffRequested

def requestHandoff (dir : Directory) (claimId : String) (actor : ClaimActor) : ClaimM Unit :=
  transaction (requestHandoffLocked dir claimId actor)

/-! ### Runs -/

inductive Call where
  | claim (input : NewWorkstreamClaim)
  | transition (cas : ClaimCas)
  | addDependency (claimId : String) (prerequisite : ClaimPrerequisite) (actor : ClaimActor)
      (expectedVersion : ℕ)
  | requestHandoff (claimId : String) (actor : ClaimActor)

/-- A call with what surrounds it. -/
structure Step where
  call : Call
  directory : Directory
  order : RowOrder
  clock : ℕ → ℤ
  uuids : ℕ → String

namespace Step

variable (T : TextTables)

def perform (step : Step) : ClaimM (Option WorkstreamClaim) :=
  match step.call with
  | .claim input => some <$> claim T step.directory step.order input
  | .transition cas => some <$> transition step.directory cas
  | .addDependency claimId prerequisite actor expectedVersion =>
    some <$> addDependency step.directory claimId prerequisite actor expectedVersion
  | .requestHandoff claimId actor => (fun _ => none) <$> requestHandoff step.directory claimId actor

def outcome (db : WorkstreamDb) (step : Step) :
    EStateM.Result WorkstreamClaimError Session (Option WorkstreamClaim) :=
  step.perform T ⟨db, step.clock, step.uuids⟩

def reply (db : WorkstreamDb) (step : Step) :
    Except WorkstreamClaimError (Option WorkstreamClaim) :=
  match step.outcome T db with
  | .ok c _ => .ok c
  | .error e _ => .error e

def next (db : WorkstreamDb) (step : Step) : WorkstreamDb := (finalState (step.outcome T db)).db

variable {T}

theorem reply_eq_ok {db : WorkstreamDb} {step : Step} {c : Option WorkstreamClaim} :
    step.reply T db = .ok c ↔ ∃ s, step.outcome T db = .ok c s ∧ step.next T db = s.db := by
  unfold reply next
  cases step.outcome T db with
  | ok c' s => simp
  | error e s => simp

theorem reply_eq_error {db : WorkstreamDb} {step : Step} {e : WorkstreamClaimError} :
    step.reply T db = .error e ↔ ∃ s, step.outcome T db = .error e s := by
  unfold reply
  cases step.outcome T db with
  | ok c s => simp
  | error e' s => simp

end Step

/-- The database after calls in the order their transactions took effect. -/
def runSteps (T : TextTables) (db : WorkstreamDb) (steps : List Step) : WorkstreamDb :=
  steps.foldl (Step.next T) db

end Codegg.Workstream
