import Codegg.Library.TextLines
import Codegg.Library.UniqueTable

/-!
# Entries of the user prompt queue

One table holds the prompts of all sessions. An entry has an identity of its own, and
its ordinal is unique within its session, whatever its status is.
-/
namespace Codegg.PromptQueue

open Codegg.Library

def maxEntryBytes : ℕ := 64 * 1024

def maxPending : ℕ := 64

def ttlMs : ℤ := 7 * 24 * 60 * 60 * 1000

def maxRetainedPerSession : ℕ := 256

def renumberBandOffset : ℕ := 1000000

inductive UserPromptQueueStatus where
  | pending | delivering | delivered | failed | expired
  deriving DecidableEq, Repr

namespace UserPromptQueueStatus

/-- Shown in the projection, counted against the backlog and swept by expiry. -/
def isLive : UserPromptQueueStatus → Bool
  | pending | delivering => true
  | _ => false

/-- Open to edits, deletions and reorders. -/
def isOperable : UserPromptQueueStatus → Bool
  | pending => true
  | _ => false

theorem isLive_of_isOperable {s : UserPromptQueueStatus} (h : s.isOperable = true) :
    s.isLive = true := by
  cases s <;> simp_all [isOperable, isLive]

theorem isOperable_iff {s : UserPromptQueueStatus} : s.isOperable = true ↔ s = pending := by
  cases s <;> simp [isOperable]

end UserPromptQueueStatus

structure UserPromptQueueEntryRecord where
  id : String
  sessionId : String
  ordinal : ℕ
  text : String
  textBytes : ℕ
  status : UserPromptQueueStatus
  failureReason : Option String
  createdAtMs : ℤ
  updatedAtMs : ℤ
  expiresAtMs : ℤ
  deliveredTurnId : Option String
  deliveredAtMs : Option ℤ
  runAtMs : Option ℤ
  deriving DecidableEq, Repr

namespace UserPromptQueueEntryRecord

/-- What `UNIQUE (session_id, ordinal)` is about. -/
def slot (r : UserPromptQueueEntryRecord) : String × ℕ := (r.sessionId, r.ordinal)

def ownedBy (sessionId : String) (r : UserPromptQueueEntryRecord) : Bool :=
  decide (r.sessionId = sessionId)

def isLiveAt (sessionId : String) (nowMs : ℤ) (r : UserPromptQueueEntryRecord) : Bool :=
  r.ownedBy sessionId && r.status.isLive && decide (nowMs < r.expiresAtMs)

def isOperableAt (sessionId : String) (nowMs : ℤ) (r : UserPromptQueueEntryRecord) : Bool :=
  r.ownedBy sessionId && r.status.isOperable && decide (nowMs < r.expiresAtMs)

/-- Live, but past its time to live. -/
def isOverdueAt (sessionId : String) (nowMs : ℤ) (r : UserPromptQueueEntryRecord) : Bool :=
  r.ownedBy sessionId && r.status.isLive && decide (r.expiresAtMs ≤ nowMs)

/-- `(run_at_ms IS NULL OR run_at_ms <= now)` -/
def isDueAt (nowMs : ℤ) (r : UserPromptQueueEntryRecord) : Bool :=
  match r.runAtMs with
  | none => true
  | some runAt => decide (runAt ≤ nowMs)

theorem isLiveAt_of_isOperableAt {sessionId : String} {nowMs : ℤ}
    {r : UserPromptQueueEntryRecord} (h : r.isOperableAt sessionId nowMs = true) :
    r.isLiveAt sessionId nowMs = true := by
  simp only [isOperableAt, isLiveAt, Bool.and_eq_true] at h ⊢
  exact ⟨⟨h.1.1, UserPromptQueueStatus.isLive_of_isOperable h.1.2⟩, h.2⟩

theorem isOperableAt_eq {sessionId : String} {nowMs : ℤ} {r : UserPromptQueueEntryRecord} :
    r.isOperableAt sessionId nowMs = (r.isLiveAt sessionId nowMs && r.status.isOperable) := by
  cases h : r.status <;>
    simp [isOperableAt, isLiveAt, h, UserPromptQueueStatus.isOperable,
      UserPromptQueueStatus.isLive]

end UserPromptQueueEntryRecord

/-- A live entry as the read projection shows it. -/
structure UserPromptQueueLiveEntry where
  id : String
  ordinal : ℕ
  text : String
  textBytes : ℕ
  status : UserPromptQueueStatus
  createdAtMs : ℤ
  expiresAtMs : ℤ
  runAtMs : Option ℤ
  deriving DecidableEq, Repr

def liveFrom (record : UserPromptQueueEntryRecord) : UserPromptQueueLiveEntry where
  id := record.id
  ordinal := record.ordinal
  text := record.text
  textBytes := record.textBytes
  status := record.status
  createdAtMs := record.createdAtMs
  expiresAtMs := record.expiresAtMs
  runAtMs := record.runAtMs

/-! ### Errors and validation -/

inductive UserPromptQueueError where
  | invalid (field message : String)
  | tooManyEntries (limit : ℕ)
  | entryTooLarge (limit : ℕ)
  | notFound
  | expired
  | notQueueOwner
  | queueUnowned
  | ownerRevisionConflict (expected current : ℕ)
  | orderMismatch
  | delivering
  | dueTimeAfterExpiry (runAtMs expiresAtMs : ℤ)
  | storage
  deriving DecidableEq, Repr

/-- Not empty, not too long, and without control characters. -/
def isBoundedText (limit : ℕ) (s : String) : Bool :=
  !s.isEmpty && decide (s.utf8ByteSize ≤ limit) && !s.toList.any isControl

/-- The shape check shared by all identities. -/
def validateIdentity (field message : String) (value : String) :
    Except UserPromptQueueError Unit :=
  if isBoundedText 128 value then .ok () else .error (.invalid field message)

def validateEntryId (entryId : String) : Except UserPromptQueueError Unit :=
  validateIdentity "id" "entry identity is empty, too long, or contains control characters" entryId

def validatePrincipal (principal : String) : Except UserPromptQueueError Unit :=
  validateIdentity "principal" "principal is empty, too long, or contains control characters"
    principal

def validateSessionId (sessionId : String) : Except UserPromptQueueError Unit :=
  validateIdentity "session_id"
    "session identity is empty, too long, or contains control characters" sessionId

def validateTurnId (turnId : String) : Except UserPromptQueueError Unit :=
  validateIdentity "turn_id" "turn identity is empty, too long, or contains control characters"
    turnId

def boundedReason (reason : String) : Except UserPromptQueueError String :=
  if reason.isEmpty then .error (.invalid "failure_reason" "delivery failure reason is empty")
  else if 64 < reason.utf8ByteSize || reason.toList.any isControl then
    .error (.invalid "failure_reason" "delivery failure reason must be a short code, not prose")
  else .ok reason

/-- A due time has to come before the expiry; one in the past is fine. -/
def validateRunAt (runAtMs : Option ℤ) (expiresAtMs : ℤ) : Except UserPromptQueueError Unit :=
  match runAtMs with
  | none => .ok ()
  | some runAt =>
    if runAt < expiresAtMs then .ok () else .error (.dueTimeAfterExpiry runAt expiresAtMs)

/-- The bounded fields of a candidate entry; the result is the byte count to store. -/
def validateEntry (entryId sessionId text : String) : Except UserPromptQueueError ℕ := do
  validateEntryId entryId
  validateSessionId sessionId
  if text.toList.all isWhitespace then
    throw (.invalid "text" "queue entry text must not be empty")
  if maxEntryBytes < text.utf8ByteSize then throw (.entryTooLarge maxEntryBytes)
  return text.utf8ByteSize

/-! ### Ownership -/

structure UserPromptQueueOwnerRecord where
  sessionId : String
  ownerPrincipal : String
  revision : ℕ
  adoptedAtMs : ℤ
  updatedAtMs : ℤ
  deriving DecidableEq, Repr

inductive UserPromptQueueOwnership where
  | absent
  | owned (record : UserPromptQueueOwnerRecord)
  | unowned
  deriving DecidableEq, Repr

/-! ### The tables -/

abbrev EntryTable := UniqueTable UserPromptQueueEntryRecord UserPromptQueueEntryRecord.id
  UserPromptQueueEntryRecord.slot

abbrev EntryUpdate := ColumnUpdate UserPromptQueueEntryRecord UserPromptQueueEntryRecord.id
  UserPromptQueueEntryRecord.slot

structure QueueDatabase where
  entries : EntryTable
  /-- The owner rows, whose primary key is the session. -/
  owners : String → Option UserPromptQueueOwnerRecord

def QueueDatabase.empty : QueueDatabase := ⟨.empty, fun _ => none⟩

end Codegg.PromptQueue
