import Codegg.Library.LatestRow
import Codegg.Permission.Decision

/-!
# The store of permission decisions

Recording a decision replaces the row of the same tool, path, scope and session. A lookup
with a scope tries the rows of that scope first, of the session and then of no session, and
after them the rows without a scope in the same way. A row that does not fit the signing
configuration is passed over.
-/
namespace Codegg.Permission

open Codegg.Library

structure PermissionStore where
  decisions : List PersistentDecision
  storePath : Option String

/-- What a decision answers for. -/
structure DecisionKey where
  tool : String
  path : Option String
  scope : Option String
  sessionId : Option String
  deriving DecidableEq

def PersistentDecision.key (d : PersistentDecision) : DecisionKey :=
  ⟨d.tool, d.path, d.scope, d.sessionId⟩

/-- A call that records a decision, with the time it reads and whether the file it writes
can be written. -/
structure AddDecision where
  tool : String
  path : Option String
  scope : Option String
  level : PermissionLevel
  sessionId : Option String
  timestamp : Int64
  written : Bool

def AddDecision.key (c : AddDecision) : DecisionKey := ⟨c.tool, c.path, c.scope, c.sessionId⟩

/-- The row that a call records. -/
def AddDecision.row (mac : Mac) (key : Option Key) (c : AddDecision) : PersistentDecision where
  tool := c.tool
  path := c.path
  scope := c.scope
  level := c.level
  createdAt := c.timestamp
  signature :=
    match key with
    | some key => computeSignature mac c.tool c.path c.scope c.level c.timestamp key
    | none => ""
  sessionId := c.sessionId

variable {d : PersistentDecision}

namespace PermissionStore

def empty (storePath : Option String) : PermissionStore := ⟨[], storePath⟩

/-- Whether the decisions are where they should be kept. -/
def save (s : PermissionStore) (written : Bool) : Bool :=
  match s.storePath with
  | some _ => written
  | none => true

def addDecisionScoped (mac : Mac) (key : Option Key) (s : PermissionStore) (c : AddDecision) :
    PermissionStore × Bool :=
  let decision := c.row mac key
  let kept := s.decisions.filter fun d =>
    !(d.tool = decision.tool && d.path = decision.path && d.scope = decision.scope &&
      d.sessionId = decision.sessionId)
  let s' := { s with decisions := kept ++ [decision] }
  (s', s'.save c.written)

/-! ### Lookups -/

def findGlobalDecision (mac : Mac) (s : PermissionStore) (tool : String)
    (path scope : Option String) (key : Option Key) : Option PermissionLevel :=
  s.decisions.reverse.findSome? fun d =>
    if d.tool = tool && d.path = path && d.scope = scope && d.sessionId.isNone then
      match key with
      | some key =>
        if d.signature = "" then none
        else if !verifySignature mac d key then none
        else some d.level
      | none => if d.signature ≠ "" then none else some d.level
    else none

def findDecision (mac : Mac) (s : PermissionStore) (tool : String) (path scope : Option String)
    (sessionId : String) (key : Key) : Option PermissionLevel :=
  s.decisions.reverse.findSome? fun d =>
    if d.tool = tool && d.path = path && d.scope = scope && d.sessionId = some sessionId then
      if d.signature = "" then none
      else if !verifySignature mac d key then none
      else some d.level
    else none

def findDecisionNoSig (s : PermissionStore) (tool : String) (path scope : Option String)
    (sessionId : String) : Option PermissionLevel :=
  s.decisions.reverse.findSome? fun d =>
    if d.tool = tool && d.path = path && d.scope = scope && d.sessionId = some sessionId &&
        d.signature = "" then
      some d.level
    else none

/-- The rows of the session, when the request has one. -/
def findSessionDecision (mac : Mac) (key : Option Key) (s : PermissionStore) (tool : String)
    (path scope sessionId : Option String) : Option PermissionLevel :=
  match sessionId with
  | some sid =>
    match key with
    | some k => s.findDecision mac tool path scope sid k
    | none => s.findDecisionNoSig tool path scope sid
  | none => none

def getDecisionScoped (mac : Mac) (key : Option Key) (s : PermissionStore) (tool : String)
    (path scope sessionId : Option String) : Option PermissionLevel :=
  match s.findSessionDecision mac key tool path scope sessionId with
  | some level => some level
  | none =>
    match s.findGlobalDecision mac tool path scope key with
    | some level => some level
    | none =>
      -- the rows without a scope still answer for a request with one
      if scope.isSome then
        match s.findSessionDecision mac key tool path none sessionId with
        | some level => some level
        | none => s.findGlobalDecision mac tool path none key
      else none

/-- The decision for exactly this scope, or for no scope, of the session or of none. -/
def exactDecision (mac : Mac) (key : Option Key) (s : PermissionStore) (tool : String)
    (path scope sessionId : Option String) : Option PermissionLevel :=
  (s.findSessionDecision mac key tool path scope sessionId).or
    (s.findGlobalDecision mac tool path scope key)

theorem getDecisionScoped_none (mac : Mac) (key : Option Key) (s : PermissionStore)
    (tool : String) (path sessionId : Option String) :
    s.getDecisionScoped mac key tool path none sessionId =
      s.exactDecision mac key tool path none sessionId := by
  unfold getDecisionScoped exactDecision
  cases s.findSessionDecision mac key tool path none sessionId <;>
    cases s.findGlobalDecision mac tool path none key <;> rfl

/-- A request with a scope falls back on the decisions without one. -/
theorem getDecisionScoped_some (mac : Mac) (key : Option Key) (s : PermissionStore)
    (tool : String) (path : Option String) (scope : String) (sessionId : Option String) :
    s.getDecisionScoped mac key tool path (some scope) sessionId =
      (s.exactDecision mac key tool path (some scope) sessionId).or
        (s.getDecisionScoped mac key tool path none sessionId) := by
  rw [getDecisionScoped_none]
  unfold getDecisionScoped exactDecision
  cases s.findSessionDecision mac key tool path (some scope) sessionId <;>
    cases s.findGlobalDecision mac tool path (some scope) key <;>
    cases s.findSessionDecision mac key tool path none sessionId <;> rfl

/-! ### Rows that fit the signing configuration -/

/-- The row has the signature that this configuration gives it. -/
def SignedBy (mac : Mac) (key : Option Key) (d : PersistentDecision) : Prop :=
  d.signature =
    match key with
    | some key => computeSignature mac d.tool d.path d.scope d.level d.createdAt key
    | none => ""

variable {mac : Mac} {key : Option Key} {s : PermissionStore}

theorem signedBy_row (c : AddDecision) : SignedBy mac key (c.row mac key) := by
  cases key <;> rfl

theorem SignedBy.verify {k : Key} (h : SignedBy mac (some k) d) :
    d.signature ≠ "" ∧ verifySignature mac d k = true := by
  constructor
  · rw [h]
    exact computeSignature_ne_empty _ _ _ _ _
  · rw [verifySignature_iff]
    exact h.symm

theorem SignedBy.empty (h : SignedBy mac none d) : d.signature = "" := h

/-- A search from the end for the rows of one key. -/
theorem findSome?_reverse_eq_latestRow {rows : List PersistentDecision} {k : DecisionKey}
    {f : PersistentDecision → Option PermissionLevel}
    (hf : ∀ d ∈ rows, f d = if d.key = k then some d.level else none) :
    rows.reverse.findSome? f = (latestRow PersistentDecision.key k rows).map (·.level) := by
  induction rows using List.reverseRecOn with
  | nil => rfl
  | append_singleton rows d ih =>
    have hrows := ih fun e he => hf e (List.mem_append_left _ he)
    rw [List.reverse_append, latestRow_append_singleton]
    simp only [List.reverse_cons, List.reverse_nil, List.nil_append, List.singleton_append,
      List.findSome?_cons, hf d (by simp)]
    by_cases hk : d.key = k <;> simp [hk, hrows]

theorem key_eq_iff {tool : String} {path scope sid : Option String} :
    d.key = ⟨tool, path, scope, sid⟩ ↔
      d.tool = tool ∧ d.path = path ∧ d.scope = scope ∧ d.sessionId = sid := by
  simp [PersistentDecision.key]

/-- The level of the last row of a key. -/
def levelOf (s : PermissionStore) (k : DecisionKey) : Option PermissionLevel :=
  (latestRow PersistentDecision.key k s.decisions).map (·.level)

theorem findGlobalDecision_eq (h : ∀ d ∈ s.decisions, SignedBy mac key d) (tool : String)
    (path scope : Option String) :
    s.findGlobalDecision mac tool path scope key = s.levelOf ⟨tool, path, scope, none⟩ := by
  refine findSome?_reverse_eq_latestRow fun d hd => ?_
  have hsigned := h d hd
  simp only [key_eq_iff, Bool.and_eq_true, decide_eq_true_eq, Option.isNone_iff_eq_none, and_assoc]
  split
  · cases key with
    | some k => simp [hsigned.verify.1, hsigned.verify.2]
    | none => simp [hsigned.empty]
  · rfl

theorem findDecision_eq {k : Key} (h : ∀ d ∈ s.decisions, SignedBy mac (some k) d) (tool : String)
    (path scope : Option String) (sid : String) :
    s.findDecision mac tool path scope sid k = s.levelOf ⟨tool, path, scope, some sid⟩ := by
  refine findSome?_reverse_eq_latestRow fun d hd => ?_
  have hsigned := (h d hd).verify
  simp only [key_eq_iff, Bool.and_eq_true, decide_eq_true_eq, and_assoc]
  split
  · simp [hsigned.1, hsigned.2]
  · rfl

theorem findDecisionNoSig_eq (h : ∀ d ∈ s.decisions, SignedBy mac none d) (tool : String)
    (path scope : Option String) (sid : String) :
    s.findDecisionNoSig tool path scope sid = s.levelOf ⟨tool, path, scope, some sid⟩ := by
  refine findSome?_reverse_eq_latestRow fun d hd => ?_
  simp [key_eq_iff, and_assoc, (h d hd).empty]

theorem findSessionDecision_eq (h : ∀ d ∈ s.decisions, SignedBy mac key d) (tool : String)
    (path scope : Option String) (sid : String) :
    s.findSessionDecision mac key tool path scope (some sid) =
      s.levelOf ⟨tool, path, scope, some sid⟩ := by
  cases key with
  | some k => exact findDecision_eq h tool path scope sid
  | none => exact findDecisionNoSig_eq h tool path scope sid

/-- The four classes of rows, in the order in which they answer. -/
def levelFor (s : PermissionStore) (tool : String) (path scope sessionId : Option String) :
    Option PermissionLevel :=
  (s.levelOf ⟨tool, path, scope, sessionId⟩).or <|
    (s.levelOf ⟨tool, path, scope, none⟩).or <|
      (s.levelOf ⟨tool, path, none, sessionId⟩).or (s.levelOf ⟨tool, path, none, none⟩)

theorem getDecisionScoped_eq (h : ∀ d ∈ s.decisions, SignedBy mac key d) (tool : String)
    (path scope sid : Option String) :
    s.getDecisionScoped mac key tool path scope sid = s.levelFor tool path scope sid := by
  have hor : ∀ a b : Option PermissionLevel, (match a with | some l => some l | none => b) =
      a.or b := fun a b => by cases a <;> rfl
  unfold getDecisionScoped levelFor
  simp only [findGlobalDecision_eq h, hor]
  cases sid with
  | none =>
    -- without a session the rows of the session are the rows of no session
    cases scope <;> simp [findSessionDecision, ← Option.or_assoc]
  | some sid =>
    simp only [findSessionDecision_eq h]
    cases scope with
    | some scope => simp
    | none => cases s.levelOf ⟨tool, path, none, some sid⟩ <;> simp

/-! ### Histories -/

/-- The store after a history of calls. -/
def run (mac : Mac) (key : Option Key) (s : PermissionStore) (history : List AddDecision) :
    PermissionStore :=
  history.foldl (fun s c => (s.addDecisionScoped mac key c).1) s

theorem addDecisionScoped_decisions (c : AddDecision) :
    (s.addDecisionScoped mac key c).1.decisions =
      recordRow PersistentDecision.key s.decisions (c.row mac key) := by
  simp only [addDecisionScoped, recordRow]
  simp [PersistentDecision.key, Bool.or_assoc]

theorem run_decisions (history : List AddDecision) :
    (s.run mac key history).decisions =
      (history.map (AddDecision.row mac key)).foldl (recordRow PersistentDecision.key)
        s.decisions := by
  induction history generalizing s with
  | nil => rfl
  | cons c history ih =>
    rw [run, List.foldl_cons, ← run, ih, addDecisionScoped_decisions]
    rfl

theorem signedBy_run {path : Option String} {history : List AddDecision}
    (h : d ∈ ((empty path).run mac key history).decisions) : SignedBy mac key d := by
  rw [run_decisions] at h
  rcases mem_foldl_recordRow h with hd | hd
  · cases hd
  · obtain ⟨c, -, rfl⟩ := List.mem_map.mp hd
    exact signedBy_row c

/-- The level of the latest call of the history for a tool, path, scope and session. -/
def recorded (history : List AddDecision) (k : DecisionKey) : Option PermissionLevel :=
  (history.reverse.find? fun c => c.key = k).map (·.level)

theorem levelOf_run (path : Option String) (history : List AddDecision) (k : DecisionKey) :
    ((empty path).run mac key history).levelOf k = recorded history k := by
  rw [levelOf, run_decisions, latestRow_foldl_recordRow, latestRow, ← List.map_reverse,
    List.find?_map, empty, latestRow_nil, Option.or_none, Option.map_map]
  rfl

/-- The latest decision of the first class that has one. -/
def recordedFor (history : List AddDecision) (tool : String) (path scope sid : Option String) :
    Option PermissionLevel :=
  (recorded history ⟨tool, path, scope, sid⟩).or <|
    (recorded history ⟨tool, path, scope, none⟩).or <|
      (recorded history ⟨tool, path, none, sid⟩).or (recorded history ⟨tool, path, none, none⟩)

theorem getDecisionScoped_run (storePath : Option String) (history : List AddDecision)
    (tool : String) (path scope sid : Option String) :
    ((empty storePath).run mac key history).getDecisionScoped mac key tool path scope sid =
      recordedFor history tool path scope sid := by
  rw [getDecisionScoped_eq fun d hd => signedBy_run hd]
  simp [levelFor, levelOf_run, recordedFor]

theorem recorded_filter {history : List AddDecision} {k : DecisionKey} {p : AddDecision → Bool}
    (h : ∀ c, c.key = k → p c = true) : recorded (history.filter p) k = recorded history k := by
  have hlatest : latestRow AddDecision.key k (history.filter p) =
      latestRow AddDecision.key k history := latestRow_filter fun c _ => h c
  exact congrArg (Option.map (·.level)) hlatest

/-- The calls for the tool and path with the scope or none, and with the session or none. -/
def concerns (tool : String) (path scope sid : Option String) (c : AddDecision) : Bool :=
  c.tool = tool && c.path = path && (c.scope = scope || c.scope.isNone) &&
    (c.sessionId = sid || c.sessionId.isNone)

theorem recordedFor_filter (history : List AddDecision) (tool : String)
    (path scope sid : Option String) :
    recordedFor (history.filter (concerns tool path scope sid)) tool path scope sid =
      recordedFor history tool path scope sid := by
  have hkept : ∀ scope' sid', (scope' = scope ∨ scope' = none) → (sid' = sid ∨ sid' = none) →
      recorded (history.filter (concerns tool path scope sid)) ⟨tool, path, scope', sid'⟩ =
        recorded history ⟨tool, path, scope', sid'⟩ := by
    intro scope' sid' hscope hsid
    refine recorded_filter fun c hc => ?_
    obtain ⟨rfl, rfl, rfl, rfl⟩ := hc
    simp [concerns, hscope, hsid]
  unfold recordedFor
  rw [hkept scope sid (.inl rfl) (.inl rfl), hkept scope none (.inl rfl) (.inr rfl),
    hkept none sid (.inr rfl) (.inl rfl), hkept none none (.inr rfl) (.inr rfl)]

/-- A lookup after any history answers with the latest decision of the first class that has
one; the decisions of other scopes and sessions have no part in it, and there is one row for
each tool, path, scope and session. -/
theorem lookup_law (mac : Mac) (key : Option Key) (storePath : Option String)
    (history : List AddDecision) (tool : String) (path scope sid : Option String) :
    ((empty storePath).run mac key history).getDecisionScoped mac key tool path scope sid =
        recordedFor history tool path scope sid ∧
      ((empty storePath).run mac key history).getDecisionScoped mac key tool path scope sid =
        ((empty storePath).run mac key
          (history.filter (concerns tool path scope sid))).getDecisionScoped mac key tool path
            scope sid ∧
      (((empty storePath).run mac key history).decisions.map PersistentDecision.key).Nodup := by
  refine ⟨getDecisionScoped_run storePath history tool path scope sid, ?_, ?_⟩
  · rw [getDecisionScoped_run, getDecisionScoped_run, recordedFor_filter]
  · rw [run_decisions]
    exact nodup_foldl_recordRow (by simp [empty]) _

end PermissionStore

end Codegg.Permission
