import Codegg.Library.SortedMap
import Codegg.ToolProgram.Ir

/-!
# The metered interpreter

A stack machine with budgets for steps, bytes, calls and loop iterations. Its
state is split in two: the stack machine proper, on which most instructions work,
and around it the journal of completed calls and the checkpoints, which only the
call and checkpoint instructions touch.

What happens outside is given by an environment: the answers of the broker,
indexed by what identifies each exchange, and the interruptions (cancellation,
deadline, stall) seen before each step.
-/
namespace Codegg.ToolProgram

open Codegg.Library

/-- The part of the state that instructions compute with. -/
structure StackMachine where
  /-- The operand stack, top first. -/
  stack : List ProgramValue
  locals : List (Option ProgramValue)
  pc : ℕ
  budget : BudgetSnapshot
  nextCallSeq : ℕ
  terminated : Bool

/-- A call that reached the broker. -/
inductive IssuedCall
  | tool (sequence attempt : ℕ) (request : CallRequest)
  | child (request : ChildJobRequest)

def IssuedCall.sequence : IssuedCall → ℕ
  | tool sequence _ _ => sequence
  | child request => request.sequence

structure MeteredInterpreter where
  machine : StackMachine
  completedCalls : SortedMap ℕ CompletedCall
  checkpoints : List InterpreterCheckpoint
  replayFingerprint : Option ReplayFingerprint
  pendingChildWait : Option PendingChildWait
  nextCheckpointSequence : ℕ
  /-- The calls issued so far; an observation, no instruction reads it. -/
  issued : List IssuedCall

def StackMachine.new (program : IrProgram) : StackMachine where
  stack := []
  locals := List.replicate program.localCount none
  pc := 0
  budget := .default
  nextCallSeq := 0
  terminated := false

def MeteredInterpreter.new (program : IrProgram) : MeteredInterpreter where
  machine := .new program
  completedCalls := .empty
  checkpoints := []
  replayFingerprint := none
  pendingChildWait := none
  nextCheckpointSequence := 0
  issued := []

/-- Change the number of calls in flight. -/
def MeteredInterpreter.mapInflight (f : ℕ → ℕ) (s : MeteredInterpreter) : MeteredInterpreter :=
  { s with machine := { s.machine with
      budget := { s.machine.budget with inflightCalls := f s.machine.budget.inflightCalls } } }

/-! ### The environment -/

/-- The state covered by the digest of a checkpoint. -/
structure CheckpointMaterial where
  pc : ℕ
  steps : ℕ
  iterations : ℕ
  callsCompleted : ℕ
  bytesUsed : ℕ
  parallelGroups : ℕ
  locals : List (Option ProgramValue)
  stack : List ProgramValue
  nextCallSeq : ℕ
  terminated : Bool
  completedCallsCount : ℕ
  pendingChildWait : Option PendingChildWait
  originalDeadlineMillis : Option ℤ

/-- What the interpreter takes from its libraries: the JSON codec of the records
and the digests. -/
structure Host extends Rendering where
  debugString : String → String
  encodeRequest : CallRequest → String
  decodeRequest : String → Except String CallRequest
  decodeConfig : ChildJobOp → Json → Except String ChildJobConfig
  childRequestJson : ChildJobRequest → Json
  childConfigDigest : ChildJobOp → ChildJobConfig → String
  materialDigest : CheckpointMaterial → String
  /-- The digest of the format that had no pending child and no deadline. -/
  legacyDigest : CheckpointMaterial → String

/-- The answer to one attempt of a call, and the time it took. -/
structure CallAnswer where
  elapsedMs : ℕ
  outcome : Except InterpreterError CallResult

structure Broker where
  callReserved : (sequence : ℕ) → CallRequest → Except InterpreterError Unit
  executeCall : (sequence attempt : ℕ) → CallRequest → CallAnswer
  submitChildJobWithCheckpoint : ChildJobRequest → InterpreterCheckpoint →
    Except InterpreterError ChildJobResult
  /-- The checkpoint is kept for a restart; the answer is that of the request. -/
  submit_congr : ∀ request cp cp', submitChildJobWithCheckpoint request cp =
    submitChildJobWithCheckpoint request cp'
  callCompleted : (sequence : ℕ) → CallRequest → CallResult → Except InterpreterError Unit
  checkpoint : InterpreterCheckpoint → Except InterpreterError Unit

/-- The answer to a request for a child job, whatever checkpoint comes with it. -/
def Broker.submitChildJob (broker : Broker) (request : ChildJobRequest) :
    Except InterpreterError ChildJobResult :=
  broker.submitChildJobWithCheckpoint request default

theorem Broker.submit_eq (broker : Broker) (request : ChildJobRequest)
    (checkpoint : InterpreterCheckpoint) :
    broker.submitChildJobWithCheckpoint request checkpoint = broker.submitChildJob request :=
  broker.submit_congr ..

/-- What a poll before a step can find. -/
inductive Interruption
  | cancelled | timedOut | stalled
  deriving DecidableEq, Repr

structure Env where
  program : IrProgram
  limits : RuntimeLimits
  host : Host
  broker : Broker
  /-- The interruption seen when that many steps have been executed. -/
  poll : ℕ → Option Interruption
  perCallTimeoutMs : Option ℕ
  resultSchema : Option Json

/-- Computations of the stack machine. -/
abbrev Exec := EStateM InterpreterError StackMachine

/-- Computations of the whole interpreter. -/
abbrev Interp := EStateM InterpreterError MeteredInterpreter

inductive StepResult
  | continue_
  | yield_ (value : ProgramValue)
  | fail (reason : String)

/-- Run a computation of the stack machine inside the interpreter. -/
def onMachine {α : Type} (x : Exec α) : Interp α := fun s =>
  match x s.machine with
  | .ok a m => .ok a { s with machine := m }
  | .error e m => .error e { s with machine := m }

/-- The answer of a fallible pure function. -/
def ofExcept {σ α : Type} : Except InterpreterError α → EStateM InterpreterError σ α
  | .ok a => pure a
  | .error e => throw e

/-- Stop with an exceeded budget when the condition holds. -/
def refuseIf {σ : Type} (exceeded : Prop) [Decidable exceeded] (msg : String) :
    EStateM InterpreterError σ Unit :=
  if exceeded then throw (.budgetExceeded msg) else pure ()

namespace Exec

/-! ### The stack -/

def push (env : Env) (val : ProgramValue) : Exec Unit := do
  let m ← get
  refuseIf (m.budget.bytes + val.byteSize env.host.toRendering > env.limits.maxValueGrowth)
    ("value bytes " ++ toString m.budget.bytes ++ " + " ++
      toString (val.byteSize env.host.toRendering) ++ " exceeds max " ++
      toString env.limits.maxValueGrowth)
  set { m with
    stack := val :: m.stack
    budget := { m.budget with
      bytes := m.budget.bytes + val.byteSize env.host.toRendering } }

def pop : Exec ProgramValue := do
  let m ← get
  match m.stack with
  | [] => throw (.internalError "stack underflow")
  | val :: stack => do
    set { m with stack := stack }
    return val

def peek : Exec ProgramValue := do
  match (← get).stack with
  | [] => throw (.internalError "stack underflow on peek")
  | val :: _ => return val

/-- Pop `n` values; the deepest one comes first in the result. -/
def popMany : ℕ → List ProgramValue → Exec (List ProgramValue)
  | 0, items => pure items
  | n + 1, items => do
    let val ← pop
    popMany n (val :: items)

/-- Pop `n` values below their keys. -/
def popPairs : ℕ → List (ProgramValue × ProgramValue) →
    Exec (List (ProgramValue × ProgramValue))
  | 0, pairs => pure pairs
  | n + 1, pairs => do
    let val ← pop
    let key ← pop
    popPairs n ((key, val) :: pairs)

def setPc (target : ℕ) : Exec Unit := modify fun m => { m with pc := target }

/-- Push a constant of a pool. -/
def pushConstant {α : Type} (env : Env) (kind : String) (pool : List α)
    (wrap : α → ProgramValue) (idx : ℕ) : Exec Unit :=
  match pool[idx]? with
  | some val => push env (wrap val)
  | none => throw (.indexError (kind ++ " pool index " ++ toString idx ++ " out of range"))

def loadLocal (env : Env) (slot : ℕ) : Exec Unit := do
  let m ← get
  push env ((m.locals[slot]?.join).getD .none)

def storeLocal (slot : ℕ) : Exec Unit := do
  let val ← pop
  let m ← get
  if slot < m.locals.length then
    set { m with locals := m.locals.set slot (some val) }
  else
    throw (.indexError ("local slot " ++ toString slot ++ " out of range (locals=" ++
      toString m.locals.length ++ ")"))

/-! ### Loops -/

/-- The items of a range, once its length has passed the loop limit. -/
def rangeLoopItems (env : Env) (start stop step : ℤ) :
    Except InterpreterError (List ProgramValue) :=
  if step = 0 then .error (.typeError "range() step cannot be zero")
  else
    let count := ProgramValue.rangeCount start stop step
    if count > env.limits.maxLoopIterations then
      .error (.budgetExceeded ("loop iteration count " ++ toString count ++ " exceeds max " ++
        toString env.limits.maxLoopIterations))
    else ProgramValue.rangeItems step count start

/-- Pop range parameters or an iterable and generate the loop items. -/
def resumeForLoop (env : Env) : Exec (List ProgramValue) := do
  let m ← get
  match m.stack with
  | .int step :: .int stop :: .int start :: stack => do
    set { m with stack := stack }
    ofExcept (rangeLoopItems env start stop step)
  | _ => do
    let iterable ← pop
    ofExcept iterable.iterableToVec

def countIterations (n : ℕ) : Exec Unit :=
  modify fun m => { m with budget := { m.budget with iterations := m.budget.iterations + n } }

/-- First entry of a loop: all its items are counted here. -/
def enterLoop (env : Env) (bodyStart loopEnd : ℕ) : Exec Unit := do
  let items ← resumeForLoop env
  refuseIf (items.length > env.limits.maxLoopIterations)
    ("loop iteration count " ++ toString items.length ++ " exceeds max " ++
      toString env.limits.maxLoopIterations)
  countIterations items.length
  push env (.list items)
  push env (.int 0)
  setPc (if items.length = 0 then loopEnd else bodyStart)

/-- A list below the top of the stack means a re-entry from `ForLoopNext`. -/
def isResume (m : StackMachine) : Bool :=
  match m.stack with
  | _ :: .list _ :: _ => true
  | _ => false

def forLoopStart (env : Env) (bodyStart loopEnd : ℕ) : Exec Unit := do
  let m ← get
  if isResume m then do
    refuseIf (m.budget.iterations > env.limits.maxTotalIterations)
      ("total iterations " ++ toString m.budget.iterations ++ " exceeds max " ++
        toString env.limits.maxTotalIterations)
    setPc bodyStart
  else enterLoop env bodyStart loopEnd

def forLoopIter (env : Env) : Exec Unit := do
  let idxVal ← pop
  let listVal ← pop
  match listVal, idxVal with
  | .list items, .int idx =>
    match items[asUsize idx]? with
    | some item => do
      push env listVal
      push env idxVal
      push env item
    | none => throw (.internalError "ForLoopIter: index out of bounds")
  | _, _ => throw (.typeError "ForLoopIter: expected list and int on stack")

def forLoopNext (env : Env) (loopStart : ℕ) : Exec Unit := do
  let idxVal ← pop
  let listVal ← pop
  match listVal, idxVal with
  | .list items, .int idx =>
    if asUsize (idx + 1) < items.length then do
      push env listVal
      push env (.int (idx + 1))
      setPc loopStart
    else pure ()
  | _, _ => throw (.typeError "ForLoopNext: expected list and int on stack")

/-! ### Requests -/

/-- Read the entries of a call descriptor, from left to right. -/
def readDescriptor : List (ProgramValue × ProgramValue) → Option String →
    List (String × Json) → Except InterpreterError (Option String × List (String × Json))
  | [], toolName, input => .ok (toolName, input)
  | (.string key, value) :: pairs, toolName, input =>
    if key = "tool" then
      match value with
      | .string name => readDescriptor pairs (some name) input
      | _ => .error (.typeError "tool name must be a string")
    else readDescriptor pairs toolName (Json.insertField key value.toJson input)
  | _ :: pairs, toolName, input => readDescriptor pairs toolName input

def constructCallRequest : ProgramValue → Except InterpreterError CallRequest
  | .dict pairs =>
    match readDescriptor pairs none [] with
    | .ok (some name, input) => .ok ⟨name, .object input, none⟩
    | .ok (none, _) => .error (.typeError "call descriptor missing 'tool' key")
    | .error e => .error e
  | _ => .error (.typeError "call descriptor must be a dict")

/-- Pop `n` descriptors and turn each into a request. -/
def popRequests : ℕ → List CallRequest → Exec (List CallRequest)
  | 0, requests => pure requests
  | n + 1, requests => do
    let descriptor ← pop
    let request ← ofExcept (constructCallRequest descriptor)
    popRequests n (request :: requests)

def decodeRequest (env : Env) (text : String) : Except InterpreterError CallRequest :=
  match env.host.decodeRequest text with
  | .ok request => .ok request
  | .error e => .error (.internalError e)

/-! ### Budgets of calls -/

def checkCallBudget (env : Env) : Exec Unit := do
  let m ← get
  refuseIf (m.budget.calls ≥ env.limits.maxDynamicCalls)
    ("call count " ++ toString m.budget.calls ++ " exceeds max " ++
      toString env.limits.maxDynamicCalls)

def checkInflightBudget (env : Env) : Exec Unit := do
  let m ← get
  refuseIf (m.budget.inflightCalls ≥ env.limits.maxInflightCalls)
    ("in-flight calls " ++ toString m.budget.inflightCalls ++ " exceeds max " ++
      toString env.limits.maxInflightCalls)

/-- The checks before a parallel group; its width is compared as a 32-bit number. -/
def checkParallelBudget (env : Env) (count : ℕ) : Exec Unit := do
  let m ← get
  refuseIf (count % 2 ^ 32 > env.limits.maxParallelWidth)
    ("parallel width " ++ toString count ++ " exceeds max " ++
      toString env.limits.maxParallelWidth)
  refuseIf (m.budget.inflightCalls + count % 2 ^ 32 > env.limits.maxInflightCalls)
    ("parallel in-flight " ++ toString m.budget.inflightCalls ++ " + " ++ toString count ++
      " exceeds max " ++ toString env.limits.maxInflightCalls)
  set { m with budget := { m.budget with parallelGroups := m.budget.parallelGroups + 1 } }

/-- Take the next call sequence number. -/
def takeCallSeq : Exec ℕ := do
  let m ← get
  set { m with nextCallSeq := m.nextCallSeq + 1 }
  return m.nextCallSeq

def countCall : Exec Unit :=
  modify fun m => { m with budget := { m.budget with calls := m.budget.calls + 1 } }

def terminate : Exec Unit := modify fun m => { m with terminated := true }

/-- The message of a `fail` statement. -/
def failReason (env : Env) : ProgramValue → String
  | .string s => s
  | .none => "program failed"
  | reason => reason.display env.host.toRendering

end Exec

namespace Interp

open Exec

/-! ### Checkpoints -/

/-- One past the highest sequence of some calls. -/
def nextSequence (sequences : List ℕ) : ℕ :=
  match sequences.max? with
  | some k => k + 1
  | none => 0

def checkpointMaterial (cp : InterpreterCheckpoint) : CheckpointMaterial where
  pc := cp.pc
  steps := cp.steps
  iterations := cp.iterations
  callsCompleted := cp.callsCompleted
  bytesUsed := cp.bytesUsed
  parallelGroups := cp.parallelGroups
  locals := cp.locals
  stack := cp.stack
  nextCallSeq := nextSequence (cp.completedCalls.map (·.sequence))
  terminated := false
  completedCallsCount := cp.completedCalls.length
  pendingChildWait := cp.pendingChildWait
  originalDeadlineMillis := cp.originalDeadlineMillis

def refreshSemanticDigest (env : Env) (cp : InterpreterCheckpoint) : InterpreterCheckpoint :=
  { cp with semanticDigest := env.host.materialDigest (checkpointMaterial cp) }

/-- The checkpoint of a state. -/
def checkpointOf (env : Env) (s : MeteredInterpreter) : InterpreterCheckpoint :=
  refreshSemanticDigest env
    { pc := s.machine.pc
      steps := s.machine.budget.steps
      iterations := s.machine.budget.iterations
      callsCompleted := s.machine.budget.calls
      bytesUsed := s.machine.budget.bytes
      parallelGroups := s.machine.budget.parallelGroups
      locals := s.machine.locals
      stack := s.machine.stack
      pendingChildWait := s.pendingChildWait
      originalDeadlineMillis := s.replayFingerprint.bind (·.originalDeadlineMillis)
      checkpointSequence := s.nextCheckpointSequence
      semanticDigest := ""
      completedCalls := s.completedCalls.values.mergeSort (fun a b => a.sequence ≤ b.sequence) }

def createCheckpoint (env : Env) : Interp InterpreterCheckpoint := do
  let s ← get
  set { s with nextCheckpointSequence := (s.nextCheckpointSequence + 1) % 2 ^ 32 }
  return checkpointOf env s

def commitCheckpoint (env : Env) : Interp Unit := do
  let cp ← createCheckpoint env
  ofExcept (env.broker.checkpoint cp)
  modify fun s => { s with checkpoints := s.checkpoints ++ [cp] }

/-! ### Calls -/

/-- Run a computation while one more call counts as in flight. -/
def withInflight {α : Type} (x : Interp α) : Interp α := fun s =>
  match x (s.mapInflight (· + 1)) with
  | .ok a s' => .ok a (s'.mapInflight (· - 1))
  | .error e s' => .error e (s'.mapInflight (· - 1))

/-- The outcome of one attempt under the per-call timeout; `0` means none. -/
def attemptOutcome (env : Env) (seq attempt : ℕ) (request : CallRequest) :
    Except InterpreterError CallResult :=
  let answer := env.broker.executeCall seq attempt request
  let timeoutMs := env.perCallTimeoutMs.getD env.limits.maxPerCallTimeMs
  if 0 < timeoutMs ∧ timeoutMs < answer.elapsedMs then
    .error (.brokerError ("call to '" ++ request.toolName ++ "' timed out after " ++
      toString timeoutMs ++ "ms"))
  else answer.outcome

def issue (call : IssuedCall) : Interp Unit :=
  modify fun s => { s with issued := s.issued ++ [call] }

/-- Make a call; broker errors are retried while retries are left. -/
def executeCallWithRetry (env : Env) (seq : ℕ) (request : CallRequest) :
    (retries attempt : ℕ) → Interp CallResult
  | 0, attempt => do
    issue (.tool seq attempt request)
    ofExcept (attemptOutcome env seq attempt request)
  | retries + 1, attempt => do
    issue (.tool seq attempt request)
    match attemptOutcome env seq attempt request with
    | .ok result => return result
    | .error (.brokerError _) => executeCallWithRetry env seq request retries (attempt + 1)
    | .error e => throw e

/-- One field of the text of a fingerprint mismatch. -/
def mismatchField (label stored current : String) : String :=
  label ++ " stored=" ++ stored ++ " current=" ++ current

def debugOption {α : Type} (show_ : α → String) : Option α → String
  | some a => "Some(" ++ show_ a ++ ")"
  | none => "None"

def fingerprintMismatch (env : Env) (context : String) (stored current : ReplayFingerprint) :
    String :=
  "replay identity mismatch at " ++ context ++ " (" ++ String.intercalate " "
    [mismatchField "schema_version" (toString stored.schemaVersion) (toString current.schemaVersion),
     mismatchField "program_id" stored.programId current.programId,
     mismatchField "authority" stored.authorityDigest current.authorityDigest,
     mismatchField "execution_context" stored.executionContextDigest current.executionContextDigest,
     mismatchField "source" stored.sourceDigest current.sourceDigest,
     mismatchField "ir" stored.irDigest current.irDigest,
     mismatchField "workspace_id" stored.workspaceId current.workspaceId,
     mismatchField "workspace_path_policy" stored.workspacePathPolicyId
       current.workspacePathPolicyId,
     mismatchField "policy_revision" stored.policyRevision current.policyRevision,
     mismatchField "session_id" (debugOption env.host.debugString stored.sessionId)
       (debugOption env.host.debugString current.sessionId),
     mismatchField "agent_id" (debugOption env.host.debugString stored.agentId)
       (debugOption env.host.debugString current.agentId),
     mismatchField "manifest" stored.manifestDigest current.manifestDigest,
     mismatchField "contract" stored.contractDigest current.contractDigest,
     mismatchField "backend" stored.backendSelection current.backendSelection,
     mismatchField "deadline" (debugOption toString stored.originalDeadlineMillis)
       (debugOption toString current.originalDeadlineMillis)] ++ ")"

/-- A journaled call matches the current context; calls without a fingerprint on
either side are accepted. -/
def verifyReplayFingerprint (env : Env) (current : Option ReplayFingerprint)
    (loaded : CompletedCall) (context : String) : Except InterpreterError Unit :=
  match current, loaded.replayFingerprint with
  | some current, some stored =>
    if current = stored then .ok ()
    else .error (.replayDivergence (fingerprintMismatch env context stored current))
  | _, _ => .ok ()

/-- The texts in which the three kinds of call differ. -/
structure CallKind where
  context : String
  divergence : String

def CallKind.sequential : CallKind :=
  ⟨"call:", "replayed call request differs from the durable reservation"⟩

def CallKind.parallel : CallKind :=
  ⟨"parallel:", "replayed parallel call request differs from the durable reservation"⟩

def CallKind.childJob : CallKind :=
  ⟨"child_job:", "replayed child-job request differs from the durable reservation"⟩

/-- The result of a journaled call, if it is the same call in the same context. -/
def replayCompleted (env : Env) (kind : CallKind) (current : Option ReplayFingerprint)
    (seq : ℕ) (request : CallRequest) (completed : CompletedCall) :
    Except InterpreterError CallResult :=
  if completed.request.toolName ≠ request.toolName ∨
      completed.request.input.eq request.input = false then
    .error (.replayDivergence kind.divergence)
  else
    match verifyReplayFingerprint env current completed (kind.context ++ toString seq) with
    | .ok () => .ok completed.result
    | .error e => .error e

/-- Hand a completed call to the broker and put it in the journal. -/
def recordCompleted (env : Env) (seq : ℕ) (request : CallRequest) (result : CallResult) :
    Interp Unit := do
  ofExcept (env.broker.callCompleted seq request result)
  modify fun s => { s with completedCalls :=
    s.completedCalls.insert seq ⟨seq, request, result, s.replayFingerprint⟩ }

/-- Only successful results are journaled. -/
def keepSuccessful (env : Env) (seq : ℕ) (request : CallRequest) (result : CallResult) :
    Interp Unit :=
  if result.success then do
    recordCompleted env seq request result
    commitCheckpoint env
  else pure ()

/-- Make a tool call through the broker. -/
def liveCall (env : Env) (seq : ℕ) (request : CallRequest) : Interp CallResult := do
  ofExcept (env.broker.callReserved seq request)
  let result ← withInflight (executeCallWithRetry env seq request env.limits.maxRetries 0)
  keepSuccessful env seq request result
  return result

/-- Answer a call from the journal if it is there, and otherwise live. -/
def replayOr (env : Env) (kind : CallKind) (seq : ℕ) (request : CallRequest)
    (live : Interp CallResult) : Interp CallResult := do
  let s ← get
  match s.completedCalls.get? seq with
  | some completed =>
    ofExcept (replayCompleted env kind s.replayFingerprint seq request completed)
  | none => live

/-- The request under the identifier it is dispatched with. -/
def withCallId (seq : ℕ) (request : CallRequest) : CallRequest :=
  { request with callId := some (request.callId.getD ("pc:" ++ toString seq)) }

/-- A tool call of the program. -/
def dispatchCall (env : Env) (kind : CallKind) (request : CallRequest) :
    Interp ProgramValue := do
  let seq ← onMachine takeCallSeq
  let result ← replayOr env kind seq (withCallId seq request)
    (liveCall env seq (withCallId seq request))
  onMachine countCall
  return result.output

def executeCall (env : Env) : Interp Unit := do
  match ← onMachine pop with
  | .string text => do
    let request ← ofExcept (decodeRequest env text)
    onMachine (checkCallBudget env)
    onMachine (checkInflightBudget env)
    let output ← dispatchCall env .sequential request
    onMachine (push env output)
  | _ => throw (.typeError "ExecuteCall: expected serialized CallRequest")

/-- The calls of a parallel group, made one after the other. -/
def executeGroup (env : Env) : List ProgramValue → List ProgramValue →
    Interp (List ProgramValue)
  | [], results => return results
  | .string text :: reqVals, results => do
    let request ← ofExcept (decodeRequest env text)
    onMachine (checkCallBudget env)
    let output ← dispatchCall env .parallel request
    executeGroup env reqVals (results ++ [output])
  | _ :: _, _ => throw (.typeError "ParallelExecute: expected serialized CallRequest list")

def parallelExecute (env : Env) : Interp Unit := do
  match ← onMachine pop with
  | .list reqVals => do
    onMachine (checkParallelBudget env reqVals.length)
    let results ← executeGroup env reqVals []
    onMachine (push env (.list results))
  | _ => throw (.typeError "ParallelExecute: expected list")

/-- The request of a child job from its operands. -/
def childJobOperands (env : Env) (opVal configVal : ProgramValue) :
    Except InterpreterError (ChildJobOp × ChildJobConfig) :=
  match opVal with
  | .string opStr =>
    match ChildJobOp.fromStr opStr with
    | .error e => .error (.brokerError e)
    | .ok op =>
      match configVal with
      | .dict _ =>
        match env.host.decodeConfig op configVal.toJson with
        | .ok config => .ok (op, config)
        | .error e => .error (.brokerError ("invalid " ++ op.display ++ " config: " ++ e))
      | _ => .error (.typeError "ExecuteChildJob: config must be a dict")
  | _ => .error (.typeError "ExecuteChildJob: operation must be a string")

/-- The child job a restored program waits for is the one it asks for again. -/
def checkPending (env : Env) (pending : Option PendingChildWait) (request : ChildJobRequest) :
    Except InterpreterError Unit :=
  match pending with
  | some pending =>
    if pending.expectedResultSlot ≠ request.sequence ∨
        pending.instructionSequence ≠ request.sequence ∨
        pending.childOp ≠ request.op.display ∨
        pending.operationConfigDigest ≠ env.host.childConfigDigest request.op request.config then
      .error (.replayDivergence "pending child lineage or operation digest mismatch")
    else .ok ()
  | none => .ok ()

/-- Submit a child job through the broker and wait for it. -/
def liveChildJob (env : Env) (request : ChildJobRequest) (callRequest : CallRequest) :
    Interp CallResult := do
  ofExcept (env.broker.callReserved request.sequence callRequest)
  modify (·.mapInflight (· + 1))
  ofExcept (checkPending env (← get).pendingChildWait request)
  let checkpoint ← createCheckpoint env
  issue (.child request)
  modify (·.mapInflight (· - 1))
  let childResult ← ofExcept (env.broker.submitChildJobWithCheckpoint request checkpoint)
  let result : CallResult := ⟨.toolResult childResult.value, childResult.artifacts, true⟩
  recordCompleted env request.sequence callRequest result
  modify fun s => { s with pendingChildWait := none }
  commitCheckpoint env
  return result

/-- The record under which a child job is reserved and journaled. -/
def childCallRequest (env : Env) (request : ChildJobRequest) : CallRequest :=
  ⟨"submit_job:" ++ request.op.display, env.host.childRequestJson request,
    some ("pc:" ++ toString request.sequence)⟩

/-- A child job of the program; its sequence is taken before the budget check. -/
def dispatchChildJob (env : Env) (op : ChildJobOp) (config : ChildJobConfig) :
    Interp ProgramValue := do
  let seq ← onMachine takeCallSeq
  onMachine (checkCallBudget env)
  let result ← replayOr env .childJob seq (childCallRequest env ⟨seq, op, config⟩)
    (liveChildJob env ⟨seq, op, config⟩ (childCallRequest env ⟨seq, op, config⟩))
  onMachine countCall
  return result.output

def executeChildJob (env : Env) : Interp Unit := do
  let configVal ← onMachine pop
  let opVal ← onMachine pop
  let operands ← ofExcept (childJobOperands env opVal configVal)
  let output ← dispatchChildJob env operands.1 operands.2
  onMachine (push env output)

/-! ### Instructions -/

/-- Pop two operands and push the result of an operation on them. -/
def binary (env : Env) (op : ProgramValue → ProgramValue → Except InterpreterError ProgramValue) :
    Exec Unit := do
  let right ← pop
  let left ← pop
  push env (← ofExcept (op left right))

/-- Pop an operand and push the result of an operation on it. -/
def unary (env : Env) (op : ProgramValue → Except InterpreterError ProgramValue) :
    Exec Unit := do
  let val ← pop
  push env (← ofExcept (op val))

/-- The instructions that work on the stack machine alone and let the program go
on; the others give `none`. -/
def executeLocal (env : Env) : IrOp → Option (Exec Unit)
  | .loadInt poolIdx => some (pushConstant env "integer" env.program.integers .int poolIdx)
  | .loadFloat poolIdx => some (pushConstant env "float" env.program.floats .float poolIdx)
  | .loadString poolIdx => some (pushConstant env "string" env.program.strings .string poolIdx)
  | .loadTrue => some (push env (.bool true))
  | .loadFalse => some (push env (.bool false))
  | .loadNone => some (push env .none)
  | .loadLocal slot => some (loadLocal env slot)
  | .storeLocal slot => some (storeLocal slot)
  | .makeList count => some do push env (.list (← popMany count []))
  | .makeTuple count => some do push env (.list (← popMany count []))
  | .makeDict count => some do push env (.dict (← popPairs count []))
  | .binOp kind => some (binary env (ProgramValue.evalBinop kind))
  | .unaryOp kind => some (unary env (ProgramValue.evalUnaryop kind))
  | .compare kind => some (binary env fun left right =>
      (ProgramValue.evalCompare kind left right).map .bool)
  | .boolAnd => some (binary env fun left right => .ok (.bool (!left.isFalsy && !right.isFalsy)))
  | .boolOr => some (binary env fun left right => .ok (.bool (!left.isFalsy || !right.isFalsy)))
  | .boolNot => some (unary env fun val => .ok (.bool val.isFalsy))
  | .pop => some do let _ ← pop
  | .dup => some do push env (← peek)
  | .index => some (binary env ProgramValue.evalIndex)
  | .slice => some do
      let step ← pop
      let stop ← pop
      let start ← pop
      let collection ← pop
      push env (← ofExcept (ProgramValue.evalSlice collection start stop step))
  | .len => some (unary env fun val => val.length.map fun n => .int n)
  | .str => some (unary env fun val => .ok (.string (val.display env.host.toRendering)))
  | .int => some (unary env fun val => val.toInt.map .int)
  | .bool => some (unary env fun val => .ok (.bool (!val.isFalsy)))
  | .jumpIfFalse target => some do
      let val ← pop
      if val.isFalsy then setPc target else pure ()
  | .jump target => some (setPc target)
  | .forLoopStart bodyStart loopEnd => some (forLoopStart env bodyStart loopEnd)
  | .forLoopIter => some (forLoopIter env)
  | .forLoopNext loopStart _ => some (forLoopNext env loopStart)
  | .constructCall => some (unary env fun descriptor =>
      (constructCallRequest descriptor).map fun request =>
        .string (env.host.encodeRequest request))
  | .parallelStart count => some do
      let requests ← popRequests count []
      push env (.list (requests.map fun request => .string (env.host.encodeRequest request)))
  | _ => none

/-- Pop a value and end the program with it. -/
def finish (result : ProgramValue → StepResult) : Exec StepResult := do
  let value ← pop
  terminate
  return result value

def executeInstruction (env : Env) (op : IrOp) : Interp StepResult :=
  match executeLocal env op with
  | some x => do
    onMachine x
    return .continue_
  | none =>
    match op with
    | .executeCall => do
      executeCall env
      return .continue_
    | .parallelExecute => do
      parallelExecute env
      return .continue_
    | .executeChildJob => do
      executeChildJob env
      return .continue_
    | .checkpoint => do
      commitCheckpoint env
      return .continue_
    | .emit => onMachine (finish .yield_)
    | .fail => onMachine (finish fun reason => .fail (failReason env reason))
    | _ => do
      onMachine terminate
      return .yield_ .none

end Interp

/-! ### Runs -/

/-- The state after a turn of the main loop. -/
inductive Outcome
  | running (s : MeteredInterpreter)
  | done (result : ProgramResult) (s : MeteredInterpreter)

def Outcome.state : Outcome → MeteredInterpreter
  | running s => s
  | done _ s => s

def Outcome.status : Outcome → Option ProgramStatus
  | running _ => none
  | done result _ => some result.status

/-- The result of a program that yields a value. -/
def yieldResult (env : Env) (value : ProgramValue) (budget : BudgetSnapshot) : ProgramResult :=
  match env.resultSchema with
  | some schema =>
    match Json.validateJsonSchema value.toJson schema with
    | .ok () => .completed value budget
    | .error e => .failed .schemaMismatch ("result schema validation failed: " ++ e) budget
  | none => .completed value budget

/-- The result of a program stopped by an error. -/
def errorResult (e : InterpreterError) (budget : BudgetSnapshot) : ProgramResult :=
  match e with
  | .cancelled => .cancelled budget
  | e => .failed e.failureClass e.display budget

def interruptResult (i : Interruption) (budget : BudgetSnapshot) : ProgramResult :=
  match i with
  | .cancelled => .cancelled budget
  | .timedOut => .timedOut budget
  | .stalled => .stalled budget

/-- What follows from the outcome of an instruction. -/
def afterInstruction (env : Env) :
    EStateM.Result InterpreterError MeteredInterpreter StepResult → Outcome
  | .ok .continue_ s => .running s
  | .ok (.yield_ value) s => .done (yieldResult env value s.machine.budget) s
  | .ok (.fail reason) s => .done (.failed .execution reason s.machine.budget) s
  | .error e s => .done (errorResult e s.machine.budget) s

/-- The state in which an instruction is executed: one step charged, the program
counter advanced. -/
def MeteredInterpreter.fetched (s : MeteredInterpreter) : MeteredInterpreter :=
  { s with machine := { s.machine with
      pc := s.machine.pc + 1
      budget := { s.machine.budget with steps := s.machine.budget.steps + 1 } } }

/-- One turn of the main loop. -/
def step (env : Env) (s : MeteredInterpreter) : Outcome :=
  match env.poll s.machine.budget.steps with
  | some i => .done (interruptResult i s.machine.budget) s
  | none =>
    if s.machine.terminated then
      .done (.failed .internalPanic "interpreter terminated without emit/fail/return"
        s.machine.budget) s
    else if s.machine.budget.steps ≥ env.limits.maxSteps then
      .done (.incomplete ("step budget exhausted: " ++ toString s.machine.budget.steps ++ " >= " ++
        toString env.limits.maxSteps) s.machine.budget) s
    else
      match env.program.instructions[s.machine.pc]? with
      | none =>
        .done (.failed .internalPanic ("PC out of bounds: " ++ toString s.machine.pc)
          s.machine.budget) s
      | some op => afterInstruction env (Interp.executeInstruction env op s.fetched)

/-- At most `fuel` turns of the main loop. -/
def runFor (env : Env) : ℕ → MeteredInterpreter → Outcome
  | 0, s => .running s
  | fuel + 1, s =>
    match step env s with
    | .running s' => runFor env fuel s'
    | .done result s' => .done result s'

/-- Run to the end: every turn but the last charges a step. -/
def run (env : Env) (s : MeteredInterpreter) : Outcome :=
  runFor env (env.limits.maxSteps - s.machine.budget.steps + 1) s

/-! ### A plain environment

For programs whose only call is the tool `t` without arguments. -/

/-- The request of `call({"tool": "t"})`. -/
def plainRequest : CallRequest := ⟨"t", .object [], none⟩

/-- The JSON text of that request. -/
def plainRequestText : String :=
  "\x7b\"tool_name\":\"t\",\"input\":\x7b\x7d,\"call_id\":null\x7d"

def Host.plain : Host where
  jsonBytes := fun _ => 4
  displayFloat := fun _ => "0"
  debugString := fun s => "\"" ++ s ++ "\""
  encodeRequest := fun _ => plainRequestText
  decodeRequest := fun text =>
    if text = plainRequestText then .ok plainRequest else .error "expected value at line 1 column 1"
  decodeConfig := fun _ _ => .error "missing field"
  childRequestJson := fun _ => .null
  childConfigDigest := fun _ _ => ""
  materialDigest := fun _ => "sha256:0"
  legacyDigest := fun _ => "sha256:1"

/-- A broker that accepts every record and answers every call with `1`. -/
def Broker.plain : Broker where
  callReserved := fun _ _ => .ok ()
  executeCall := fun _ _ _ => ⟨0, .ok ⟨.int 1, [], true⟩⟩
  submitChildJobWithCheckpoint := fun _ _ =>
    .error (.brokerError "child-job execution is not supported by this broker")
  submit_congr := fun _ _ _ => rfl
  callCompleted := fun _ _ _ => .ok ()
  checkpoint := fun _ => .ok ()

def Env.plain (program : IrProgram) (limits : RuntimeLimits) : Env where
  program := program
  limits := limits
  host := .plain
  broker := .plain
  poll := fun _ => none
  perCallTimeoutMs := none
  resultSchema := none

end Codegg.ToolProgram
