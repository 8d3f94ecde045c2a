import Codegg.PromptQueue.Store

/-!
# Intent claims of a workstream

A claim declares that an actor of a run group is responsible for a task, a path or an
interface. Its row carries a version, which every change raises, and a lease with a
generation of its own.
-/
namespace Codegg.Workstream

open Codegg.Library

def maxClaimTargetBytes : ℕ := 256

def maxClaimIdempotencyBytes : ℕ := 128

def maxClaimDependencies : ℕ := 32

def maxClaimsPerGroup : ℕ := 128

def maxClaimEventsPerGroup : ℕ := 4096

def maxClaimLeaseMs : ℤ := 24 * 60 * 60 * 1000

inductive ClaimActor where
  | principal (id : String)
  | run (id : String)
  deriving DecidableEq, Repr

def ClaimActor.id : ClaimActor → String
  | .principal id | .run id => id

inductive TargetKind where
  | task | path | interface
  deriving DecidableEq, Repr

inductive ClaimTarget where
  | task (id : String)
  | path (value : String)
  | interface (value : String)
  deriving DecidableEq, Repr

inductive ClaimState where
  | offered | claimed | released | blocked | completed
  deriving DecidableEq, Repr

/-- `state IN ('offered','claimed','blocked')` -/
def ClaimState.isActive : ClaimState → Bool
  | offered | claimed | blocked => true
  | released | completed => false

structure WorkstreamClaim where
  claimId : String
  projectId : String
  workspaceId : String
  groupId : String
  target : ClaimTarget
  state : ClaimState
  owner : ClaimActor
  version : ℕ
  leaseGeneration : ℕ
  leaseExpiresAt : Option ℤ
  createdAt : ℤ
  updatedAt : ℤ
  deriving DecidableEq, Repr

inductive ClaimPrerequisite where
  | claim (id : String)
  | run (id : String)
  deriving DecidableEq, Repr

structure NewWorkstreamClaim where
  projectId : String
  workspaceId : String
  groupId : String
  actor : ClaimActor
  target : ClaimTarget
  idempotencyKey : String
  leaseExpiresAt : Option ℤ

inductive ClaimTransition where
  | renew | release | block | unblock | complete | handoff | acceptOffer
  deriving DecidableEq, Repr

structure ClaimCas where
  claimId : String
  actor : ClaimActor
  expectedVersion : ℕ
  expectedLeaseGeneration : ℕ
  transition : ClaimTransition
  newOwner : Option ClaimActor
  leaseExpiresAt : Option ℤ

inductive WorkstreamClaimError where
  | storage | notFound | unauthorized | invalidTarget | idempotencyConflict | ownedByAnother
  | staleRevision | invalidTransition | capacity | overlap | dependencyCycle
  | invalidDependency
  deriving DecidableEq, Repr

/-! ### Targets -/

/-- What the store takes from the Unicode tables: normalization form C and lower case. -/
structure TextTables where
  nfc : String → String
  toLowercase : String → String

namespace ClaimTarget

def kind : ClaimTarget → TargetKind
  | task _ => .task
  | path _ => .path
  | interface _ => .interface

/-- The text as it is stored. -/
def text : ClaimTarget → String
  | task id => id
  | path value | interface value => value

def withText (text : String) : ClaimTarget → ClaimTarget
  | task id => task id
  | path _ => path text
  | interface _ => interface text

end ClaimTarget

def isBidiControl (ch : Char) : Bool :=
  let n := ch.toNat
  n == 0x061C || n == 0x200E || n == 0x200F || (decide (0x202A ≤ n) && decide (n ≤ 0x202E)) ||
    (decide (0x2066 ≤ n) && decide (n ≤ 0x2069))

/-- A segment that is empty, leaves its directory or holds too many wildcards. -/
def segmentRefused (part : List Char) : Bool :=
  part.isEmpty || part == ['.'] || part == ['.', '.'] ||
    decide (4 < part.count '*' + part.count '?') || decide (['*', '*'] <:+: part) ||
    part.any fun ch => ch == '[' || ch == ']' || ch == '{' || ch == '}'

/-- Refused before normalization. -/
def intentRefused (value : String) : Bool :=
  value.isEmpty || decide (maxClaimTargetBytes < value.utf8ByteSize) ||
    value.toList.head? == some '/' || value.toList.contains '\\' ||
    value.toList.contains (Char.ofNat 0)

/-- Refused after normalization. -/
def normalizedRefused (normalized : String) : Bool :=
  let segments := normalized.toList.splitOn '/'
  decide (maxClaimTargetBytes < normalized.utf8ByteSize) ||
    normalized.toList.any (fun ch => isControl ch || isBidiControl ch) ||
    segments.any segmentRefused || segments == [['*']] || segments == [['?']]

section Texts

variable (T : TextTables)

def normalizeRelativeIntent (value : String) : Except WorkstreamClaimError String :=
  if intentRefused value then .error .invalidTarget
  else if normalizedRefused (T.nfc value) then .error .invalidTarget
  else .ok (T.nfc value)

def ClaimTarget.normalized : ClaimTarget → Except WorkstreamClaimError String
  | .task id => .ok id
  | .path value | .interface value => normalizeRelativeIntent T value

theorem normalizeRelativeIntent_eq {value text : String}
    (h : normalizeRelativeIntent T value = .ok text) : text = T.nfc value := by
  unfold normalizeRelativeIntent at h
  split at h
  · cases h
  · split at h
    · cases h
    · cases h
      rfl

/-- The characters before the first wildcard. -/
def fixedPrefix (pattern : List Char) : List Char :=
  pattern.takeWhile fun ch => !(ch == '*' || ch == '?')

def targetsOverlap (leftKind : TargetKind) (left : String) (rightKind : TargetKind)
    (right : String) : Bool :=
  if leftKind = .task ∨ rightKind = .task then
    decide (leftKind = rightKind) && decide (left = right)
  else if left = right then true
  else
    let leftPrefix := fixedPrefix (T.toLowercase left).toList
    let rightPrefix := fixedPrefix (T.toLowercase right).toList
    rightPrefix.isPrefixOf leftPrefix || leftPrefix.isPrefixOf rightPrefix

theorem targetsOverlap_comm (leftKind rightKind : TargetKind) (left right : String) :
    targetsOverlap T leftKind left rightKind right =
      targetsOverlap T rightKind right leftKind left := by
  unfold targetsOverlap
  simp only [or_comm (a := leftKind = .task), eq_comm (a := left),
    eq_comm (a := leftKind) (b := rightKind)]
  rw [Bool.or_comm (List.isPrefixOf _ _)]

end Texts

/-! ### The tables of the agent runs

Other components write them; the store only reads. -/

inductive GroupOwnerKind where
  | turn | run
  deriving DecidableEq, Repr

structure AgentRunGroup where
  ownerKind : GroupOwnerKind
  ownerRunId : String
  ownerSessionId : Option String

inductive AgentRunStatus where
  | created | queued | preparing | running | waiting | cancelling | completed | failed
  | interrupted | cancelled
  deriving DecidableEq, Repr

/-- `r.status NOT IN ('completed','failed','interrupted','cancelled')` -/
def AgentRunStatus.isLive : AgentRunStatus → Bool
  | completed | failed | interrupted | cancelled => false
  | _ => true

structure AgentRun where
  taskId : String
  status : AgentRunStatus

structure AgentTask where
  projectId : String
  workspaceId : String
  deriving DecidableEq

structure Directory where
  groups : String → Option AgentRunGroup
  /-- Group and run of each membership. -/
  members : List (String × String)
  runs : String → Option AgentRun
  tasks : String → Option AgentTask
  /-- The origin principal of a session. -/
  originPrincipal : String → Option String

namespace Directory

variable (dir : Directory)

/-- The run's task belongs to the project and the workspace. -/
def inScope (projectId workspaceId runId : String) : Bool :=
  match dir.runs runId with
  | none => false
  | some run => decide (dir.tasks run.taskId = some ⟨projectId, workspaceId⟩)

/-- `agent_run_group_member gm JOIN agent_run r JOIN agent_task t` -/
def scopedMembers (groupId projectId workspaceId : String) : List String :=
  (dir.members.filter fun m => decide (m.1 = groupId) && dir.inScope projectId workspaceId m.2).map
    (·.2)

def actsFor (group : AgentRunGroup) (groupId projectId workspaceId : String) :
    ClaimActor → Bool
  | .run id =>
    (match dir.runs id with
      | none => false
      | some run => run.status.isLive) && dir.inScope projectId workspaceId id &&
      (decide (group.ownerRunId = id) || dir.members.contains (groupId, id))
  | .principal id =>
    decide (group.ownerKind = .turn) &&
      (match group.ownerSessionId with
        | none => false
        | some session => decide (dir.originPrincipal session = some id))

def validateGroupActor (groupId projectId workspaceId : String) (actor : ClaimActor) :
    Except WorkstreamClaimError Unit :=
  match dir.groups groupId with
  | none => .error .notFound
  | some group =>
    if dir.scopedMembers groupId projectId workspaceId = [] then .error .notFound
    else if dir.actsFor group groupId projectId workspaceId actor then .ok ()
    else .error .unauthorized

/-- The task is the task of a member run. -/
def hasMemberTask (groupId projectId workspaceId taskId : String) : Bool :=
  (dir.scopedMembers groupId projectId workspaceId).any fun runId =>
    decide ((dir.runs runId).map (·.taskId) = some taskId)

end Directory

/-! ### Rows -/

structure ClaimRow extends WorkstreamClaim where
  idempotencyKey : String
  deriving DecidableEq, Repr

/-- What `UNIQUE (group_id, idempotency_key)` is about. -/
def ClaimRow.slot (r : ClaimRow) : String × String := (r.groupId, r.idempotencyKey)

structure DependencyRow where
  claimId : String
  prerequisite : ClaimPrerequisite
  createdAt : ℤ
  deriving DecidableEq, Repr

/-- What the unique indexes of a claim's prerequisites are about. -/
def DependencyRow.edge (d : DependencyRow) : String × ClaimPrerequisite :=
  (d.claimId, d.prerequisite)

inductive ClaimAction where
  | claimed | renewed | released | blocked | unblocked | completed | handedOff | offerAccepted
  | handoffRequested | expired | dependencyAdded
  deriving DecidableEq, Repr

def transitionAction : ClaimTransition → ClaimAction
  | .renew => .renewed
  | .release => .released
  | .block => .blocked
  | .unblock => .unblocked
  | .complete => .completed
  | .handoff => .handedOff
  | .acceptOffer => .offerAccepted

structure ClaimEventRow where
  eventId : String
  claimId : String
  groupId : String
  actor : ClaimActor
  action : ClaimAction
  version : ℕ
  leaseGeneration : ℕ
  createdAt : ℤ
  deriving DecidableEq, Repr

abbrev ClaimTable := UniqueTable ClaimRow (fun r => r.claimId) ClaimRow.slot

abbrev ClaimUpdate := ColumnUpdate ClaimRow (fun r => r.claimId) ClaimRow.slot

abbrev DependencyTable := UniqueTable DependencyRow DependencyRow.edge DependencyRow.edge

abbrev ClaimEventTable := UniqueTable ClaimEventRow ClaimEventRow.eventId ClaimEventRow.eventId

structure WorkstreamDb where
  claims : ClaimTable
  dependencies : DependencyTable
  events : ClaimEventTable

def WorkstreamDb.empty : WorkstreamDb := ⟨.empty, .empty, .empty⟩

/-- `length(x) BETWEEN 1 AND limit`; SQLite counts the characters before the first NUL. -/
def lengthWithin (limit : ℕ) (s : String) : Bool :=
  let n := (s.toList.takeWhile fun ch => ch.toNat != 0).length
  decide (1 ≤ n) && decide (n ≤ limit)

def ClaimRow.checked (r : ClaimRow) : Bool :=
  lengthWithin 256 r.target.text && lengthWithin 128 r.owner.id &&
    lengthWithin 128 r.idempotencyKey && decide (1 ≤ r.version) && decide (1 ≤ r.leaseGeneration)

/-- The unique index on the targets of a group's active claims. -/
def activeTargetTaken (row : ClaimRow) (table : ClaimTable) : Bool :=
  table.rows.any fun r => r.state.isActive && decide (r.groupId = row.groupId) &&
    decide (r.target.kind = row.target.kind) && decide (r.target.text = row.target.text)

end Codegg.Workstream
