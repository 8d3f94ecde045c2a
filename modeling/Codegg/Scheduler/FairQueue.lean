import Codegg.Library.SortedMap
import Codegg.Scheduler.Config

/-!
# The fair job queue

Priority classes, one lane per workspace inside a class, and FIFO entries inside
a lane. Selection walks the classes from highest to lowest, subject to the burst
floor, and rotates over the workspaces of the chosen class. Aging moves entries
between classes without touching the persisted priority.

Workspace and job identifiers are opaque: the queue only orders the former and
compares the latter. Instants are nanoseconds. A hash map that is only queried
by key is a partial function.
-/
namespace Codegg.Scheduler

open Codegg.Library

inductive JobPriority
  | urgent
  | interactive
  | normal
  | background
  | maintenance
  deriving DecidableEq, Repr

/-- Effective priority class, the smallest rank being the most urgent. -/
inductive PriorityClass
  | urgent
  | interactive
  | normal
  | background
  | maintenance
  deriving Repr

namespace PriorityClass

def rank : PriorityClass → ℕ
  | urgent => 0
  | interactive => 1
  | normal => 2
  | background => 3
  | maintenance => 4

theorem rank_injective : Function.Injective rank := by
  intro a b h
  cases a <;> cases b <;> simp_all [rank]

instance : LinearOrder PriorityClass := LinearOrder.lift' rank rank_injective

def fromPriority : JobPriority → PriorityClass
  | .urgent => urgent
  | .interactive => interactive
  | .normal => normal
  | .background => background
  | .maintenance => maintenance

/-- Promote by one class per elapsed aging window, at most three times. -/
def withAging (p : JobPriority) (ageSecs agingSecs : ℕ) : PriorityClass :=
  let base := fromPriority p
  if agingSecs = 0 ∨ ageSecs < agingSecs then base
  else
    let promotions := min (ageSecs / agingSecs) 3
    match base.rank - promotions with
    | 0 => urgent
    | 1 => interactive
    | 2 => normal
    | 3 => background
    | _ => maintenance

/-- The two classes that the burst counter counts. -/
def isHigh : PriorityClass → Bool
  | urgent => true
  | interactive => true
  | _ => false

end PriorityClass

structure QueueEntry (J W : Type) where
  jobId : J
  workspaceId : W
  priority : JobPriority
  submittedAt : ℤ
  enqueuedAt : ℤ
  effectiveClass : PriorityClass
  deriving DecidableEq, Repr

namespace QueueEntry

variable {J W : Type}

/-- Whole seconds since submission; a clock that went backwards gives zero. -/
def ageSecs (e : QueueEntry J W) (now : ℤ) : ℕ :=
  ((now - e.submittedAt).tdiv 1000000000).toNat

def recomputeAging (e : QueueEntry J W) (cfg : ResolvedSchedulerConfig) (now : ℤ) :
    QueueEntry J W :=
  { e with effectiveClass := .withAging e.priority (e.ageSecs now) cfg.fairness.agingSecs }

end QueueEntry

inductive QueueInsertError
  | overflow
  | invalid (msg : String)
  deriving DecidableEq, Repr

inductive QueueRemovalReason
  | admitted
  | cancelled
  | expired
  | blocked
  | dropped
  deriving DecidableEq, Repr

/-- One workspace lane inside one priority class. -/
structure WorkspaceLane (J W : Type) where
  workspaceId : W
  entries : List (QueueEntry J W)

def WorkspaceLane.push {J W : Type} (lane : WorkspaceLane J W) (e : QueueEntry J W) :
    WorkspaceLane J W :=
  { lane with entries := lane.entries ++ [e] }

/-- One priority class: its workspace lanes and the workspace admitted last. -/
structure LaneQueue (J W : Type) [LinearOrder W] where
  class_ : PriorityClass
  lanes : SortedMap W (WorkspaceLane J W)
  cursor : Option W

namespace LaneQueue

variable {J W : Type} [DecidableEq J] [LinearOrder W]

def new (c : PriorityClass) : LaneQueue J W := ⟨c, .empty, none⟩

def total (q : LaneQueue J W) : ℕ := (q.lanes.values.map (fun l => l.entries.length)).sum

/-- Whether the lane of `ws` exists and has an entry. -/
def hasEntry (q : LaneQueue J W) (ws : W) : Bool :=
  match q.lanes.get? ws with
  | some lane => !lane.entries.isEmpty
  | none => false

/-- The lane to draw from: the first non-empty one that is not the cursor's, and
the cursor's own only when no other lane has an entry. -/
def selectNext (q : LaneQueue J W) : Option W :=
  (q.lanes.keys.find? (fun ws => !decide (q.cursor = some ws) && q.hasEntry ws)).or
    (q.lanes.keys.find? q.hasEntry)

/-- Head entry of the selected lane. -/
def front (q : LaneQueue J W) : Option (QueueEntry J W) := do
  let ws ← q.selectNext
  let lane ← q.lanes.get? ws
  lane.entries.head?

/-- Take the head entry out of the selected lane. -/
def popFront (q : LaneQueue J W) : Option (QueueEntry J W × LaneQueue J W) := do
  let ws ← q.selectNext
  let lane ← q.lanes.get? ws
  let entry ← lane.entries.head?
  some (entry,
    { q with lanes := q.lanes.modify ws (fun l => { l with entries := l.entries.tail }) })

def admitEntry (q : LaneQueue J W) (e : QueueEntry J W) : LaneQueue J W :=
  { q with
    lanes := q.lanes.upsert e.workspaceId
      (fun lane => (lane.getD ⟨e.workspaceId, []⟩).push e) }

def removeByIdInWorkspace (q : LaneQueue J W) (jobId : J) (ws : W) :
    Option (QueueEntry J W × LaneQueue J W) := do
  let lane ← q.lanes.get? ws
  let entry ← lane.entries.find? (fun e => e.jobId = jobId)
  some (entry,
    { q with
      lanes := q.lanes.modify ws (fun l =>
        { l with entries := l.entries.eraseP (fun e => e.jobId = jobId) }) })

def removeById (q : LaneQueue J W) (jobId : J) : Option (QueueEntry J W × LaneQueue J W) :=
  q.lanes.keys.findSome? (q.removeByIdInWorkspace jobId)

end LaneQueue

structure SelectionOutcome (J W : Type) where
  entry : QueueEntry J W
  class_ : PriorityClass
  deriving DecidableEq, Repr

structure FairJobQueue (J W : Type) [LinearOrder W] where
  cfg : ResolvedSchedulerConfig
  lanes : SortedMap PriorityClass (LaneQueue J W)
  highPriorityBurst : ℕ
  perWorkspaceCount : W → Option ℕ
  totalCount : ℕ
  jobIndex : J → Option W

namespace FairJobQueue

variable {J W : Type} [DecidableEq J] [LinearOrder W]

def new (cfg : ResolvedSchedulerConfig) : FairJobQueue J W :=
  ⟨cfg, .empty, 0, fun _ => none, 0, fun _ => none⟩

/-- The queued entry of an indexed job, searched for in its workspace's lanes. -/
def indexed (q : FairJobQueue J W) (jobId : J) (ws : W) : Option (QueueEntry J W) :=
  ((q.lanes.values.filterMap (fun queue => queue.lanes.get? ws)).flatMap
    WorkspaceLane.entries).find? (fun queued => queued.jobId = jobId)

/-- The bounds check and the insertion proper. -/
def insertFresh (q : FairJobQueue J W) (e : QueueEntry J W) :
    Except QueueInsertError (Option (QueueEntry J W)) × FairJobQueue J W :=
  if q.cfg.queue.maxTotal ≤ q.totalCount then (.error .overflow, q)
  else if q.cfg.queue.maxPerWorkspace ≤ (q.perWorkspaceCount e.workspaceId).getD 0 then
    (.error .overflow, q)
  else
    (.ok none,
      { q with
        lanes := q.lanes.upsert e.effectiveClass
          (fun queue => (queue.getD (.new e.effectiveClass)).admitEntry e)
        perWorkspaceCount := Function.update q.perWorkspaceCount e.workspaceId
          (some ((q.perWorkspaceCount e.workspaceId).getD 0 + 1))
        totalCount := q.totalCount + 1
        jobIndex := Function.update q.jobIndex e.jobId (some e.workspaceId) })

/-- Insert an entry. A job that is already queued is kept in place and returned;
a stale index entry is dropped before the normal insertion. -/
def insert (q : FairJobQueue J W) (e : QueueEntry J W) :
    Except QueueInsertError (Option (QueueEntry J W)) × FairJobQueue J W :=
  match q.jobIndex e.jobId with
  | some ws =>
    match q.indexed e.jobId ws with
    | some previous => (.ok (some previous), q)
    | none => insertFresh { q with jobIndex := Function.update q.jobIndex e.jobId none } e
  | none => insertFresh q e

/-- The first class queue from which `f` removes an entry. -/
def removeFirst (q : FairJobQueue J W)
    (f : LaneQueue J W → Option (QueueEntry J W × LaneQueue J W)) :
    Option (QueueEntry J W × SortedMap PriorityClass (LaneQueue J W)) :=
  q.lanes.toList.findSome? (fun p =>
    (f p.2).map (fun r => (r.1, q.lanes.modify p.1 (fun _ => r.2))))

/-- The removed entry and the lanes without it: the indexed workspace first, then
a full scan, and the full scan alone for a job that is not indexed. -/
def removeEntry (q : FairJobQueue J W) (jobId : J) :
    Option (QueueEntry J W × SortedMap PriorityClass (LaneQueue J W)) :=
  match q.jobIndex jobId with
  | some ws => (q.removeFirst (fun queue => queue.removeByIdInWorkspace jobId ws)).or
      (q.removeFirst (fun queue => queue.removeById jobId))
  | none => q.removeFirst (fun queue => queue.removeById jobId)

/-- Account for an entry that left the queue. -/
def forget (q : FairJobQueue J W) (e : QueueEntry J W) : FairJobQueue J W :=
  { q with
    jobIndex := Function.update q.jobIndex e.jobId none
    perWorkspaceCount := Function.update q.perWorkspaceCount e.workspaceId
      ((q.perWorkspaceCount e.workspaceId).map (· - 1))
    totalCount := q.totalCount - 1 }

def remove (q : FairJobQueue J W) (jobId : J) (reason : QueueRemovalReason) :
    Option (QueueEntry J W × QueueRemovalReason) × FairJobQueue J W :=
  match q.removeEntry jobId with
  | some (e, lanes) => (some (e, reason), { q with lanes }.forget e)
  | none => (none, q)

/-- The entries whose class changes at `now`, with the class they leave. -/
def promotions (q : FairJobQueue J W) (now : ℤ) :
    List (PriorityClass × QueueEntry J W) :=
  q.lanes.toList.flatMap (fun c => c.2.lanes.toList.flatMap (fun l =>
    l.2.entries.filterMap (fun e =>
      if (e.recomputeAging q.cfg now).effectiveClass ≠ e.effectiveClass then
        some (c.1, e.recomputeAging q.cfg now)
      else none)))

/-- Every entry with its class recomputed, still in the lane it was in. -/
def aged (q : FairJobQueue J W) (now : ℤ) : SortedMap PriorityClass (LaneQueue J W) :=
  q.lanes.mapValues (fun queue => { queue with
    lanes := queue.lanes.mapValues (fun lane => { lane with
      entries := lane.entries.map (fun e => e.recomputeAging q.cfg now) }) })

/-- Move one promoted entry from the class it left to its new class. -/
def promote (lanes : SortedMap PriorityClass (LaneQueue J W))
    (p : PriorityClass × QueueEntry J W) : SortedMap PriorityClass (LaneQueue J W) :=
  (lanes.modify p.1 (fun queue => ((queue.removeById p.2.jobId).map Prod.snd).getD queue)).upsert
    p.2.effectiveClass (fun queue => (queue.getD (.new p.2.effectiveClass)).admitEntry p.2)

def recomputeAging (q : FairJobQueue J W) (now : ℤ) : FairJobQueue J W :=
  { q with lanes := (q.promotions now).foldl promote (q.aged now) }

/-- The burst after which a lower class is due; it is at least one. -/
def maxBurst (q : FairJobQueue J W) : ℕ := max q.cfg.fairness.maxHighPriorityBurst.toNat 1

/-- The class to draw from. -/
def pickClass (q : FairJobQueue J W) : Option PriorityClass :=
  (q.lanes.toList.find? (fun p =>
    if p.2.total = 0 then false
    else if p.1.isHigh then
      if q.highPriorityBurst < q.maxBurst then true
      else !(q.lanes.toList.any (fun r => decide (p.1 < r.1) && decide (0 < r.2.total)))
    else true)).map Prod.fst

/-- The burst counter is a `u32` that saturates. -/
def bumpBurst (burst : ℕ) (c : PriorityClass) : ℕ :=
  if c.isHigh then min (burst + 1) (2 ^ 32 - 1) else 0

/-- Remember the workspace admitted last from a class. -/
def setCursor (lanes : SortedMap PriorityClass (LaneQueue J W)) (c : PriorityClass)
    (cursor : Option W) : SortedMap PriorityClass (LaneQueue J W) :=
  lanes.modify c (fun queue => { queue with cursor })

/-- The next entry and the queue without it. -/
def selectNext (q : FairJobQueue J W) : Option (SelectionOutcome J W × FairJobQueue J W) :=
  if q.totalCount = 0 then none
  else do
    let c ← q.pickClass
    let queue ← q.lanes.get? c
    let (entry, queue') ← queue.popFront
    let popped := { q with lanes := q.lanes.modify c (fun _ => queue') }.forget entry
    some (⟨entry, c⟩, { popped with
      highPriorityBurst := bumpBurst q.highPriorityBurst c
      lanes := setCursor popped.lanes c (some entry.workspaceId) })

/-- The peek loop: heads in selection order, advancing only cursors and burst. -/
def peekLoop : ℕ → FairJobQueue J W → List (QueueEntry J W) × FairJobQueue J W
  | 0, q => ([], q)
  | limit + 1, q =>
    match (do
      let c ← q.pickClass
      let queue ← q.lanes.get? c
      let entry ← queue.front
      some (c, entry)) with
    | none => ([], q)
    | some (c, entry) =>
      let (out, q') := peekLoop limit { q with
        lanes := setCursor q.lanes c (some entry.workspaceId)
        highPriorityBurst := bumpBurst q.highPriorityBurst c }
      (entry :: out, q')

/-- Up to `limit` candidates in selection order; cursors and burst are restored. -/
def peekCandidates (q : FairJobQueue J W) (limit : ℕ) :
    List (QueueEntry J W) × FairJobQueue J W :=
  if q.totalCount = 0 ∨ limit = 0 then ([], q)
  else
    let savedCursors := q.lanes.toList.map (fun p => (p.1, p.2.cursor))
    let (out, q') := peekLoop limit q
    (out, { q' with
      highPriorityBurst := q.highPriorityBurst
      lanes := savedCursors.foldl (fun lanes p => setCursor lanes p.1 p.2) q'.lanes })

end FairJobQueue

end Codegg.Scheduler
