import Codegg.ToolProgram.Value

/-!
# Programs, limits and the records of calls

The intermediate representation a program is compiled to, the limits it runs
under, and the data exchanged with the broker. Source spans, version numbers and
content hashes do not take part in the execution and are left out.
-/
namespace Codegg.ToolProgram

open Codegg.Library

inductive IrOp
  | loadInt (poolIdx : ℕ)
  | loadFloat (poolIdx : ℕ)
  | loadString (poolIdx : ℕ)
  | loadTrue
  | loadFalse
  | loadNone
  | loadLocal (slot : ℕ)
  | storeLocal (slot : ℕ)
  | makeList (count : ℕ)
  | makeTuple (count : ℕ)
  | makeDict (count : ℕ)
  | binOp (kind : IrBinOp)
  | unaryOp (kind : IrUnaryOp)
  | compare (kind : IrCmpOp)
  | boolAnd
  | boolOr
  | boolNot
  | pop
  | dup
  | index
  | slice
  | len
  | str
  | int
  | bool
  | jumpIfFalse (target : ℕ)
  | jump (target : ℕ)
  | forLoopStart (bodyStart loopEnd : ℕ)
  | forLoopNext (loopStart loopEnd : ℕ)
  | forLoopIter
  | constructCall
  | executeCall
  | parallelStart (count : ℕ)
  | parallelExecute
  | emit
  | fail
  | checkpoint
  | return_
  | executeChildJob
  deriving DecidableEq, Repr

/-- Static bounds stored in the program. -/
structure IrBounds where
  maxSteps : ℕ
  maxLoopIterations : ℕ
  maxTotalIterations : ℕ
  callSiteCount : ℕ
  maxDynamicCalls : ℕ
  maxParallelWidth : ℕ
  maxParallelDepth : ℕ
  maxNestingDepth : ℕ
  maxValueGrowth : ℕ
  deriving DecidableEq, Repr

structure IrProgram where
  instructions : List IrOp
  localCount : ℕ
  bounds : IrBounds
  strings : List String
  integers : List ℤ
  floats : List FloatBits
  deriving DecidableEq, Repr

/-- Limits enforced by the interpreter. -/
structure RuntimeLimits where
  maxSteps : ℕ
  maxLoopIterations : ℕ
  maxTotalIterations : ℕ
  maxDynamicCalls : ℕ
  maxParallelWidth : ℕ
  maxValueGrowth : ℕ
  maxInflightCalls : ℕ
  maxPerCallTimeMs : ℕ
  maxRetries : ℕ
  deriving DecidableEq, Repr

/-- The limits of a program under its own bounds. -/
def RuntimeLimits.fromBounds (bounds : IrBounds) : RuntimeLimits where
  maxSteps := bounds.maxSteps
  maxLoopIterations := bounds.maxLoopIterations
  maxTotalIterations := bounds.maxTotalIterations
  maxDynamicCalls := bounds.maxDynamicCalls
  maxParallelWidth := bounds.maxParallelWidth
  maxValueGrowth := bounds.maxValueGrowth
  maxInflightCalls := bounds.maxDynamicCalls % 2 ^ 32
  maxPerCallTimeMs := 0
  maxRetries := 0

/-- Consumption so far. -/
structure BudgetSnapshot where
  steps : ℕ
  bytes : ℕ
  calls : ℕ
  iterations : ℕ
  parallelGroups : ℕ
  inflightCalls : ℕ
  deriving DecidableEq, Repr

def BudgetSnapshot.default : BudgetSnapshot := ⟨0, 0, 0, 0, 0, 0⟩

/-! ### Calls -/

structure CallRequest where
  toolName : String
  input : Json
  callId : Option String

structure CallResult where
  output : ProgramValue
  artifacts : List String
  success : Bool

/-- The execution context a call was made in. -/
structure ReplayFingerprint where
  schemaVersion : ℕ
  programId : String
  authorityDigest : String
  executionContextDigest : String
  sourceDigest : String
  irDigest : String
  workspaceId : String
  workspacePathPolicyId : String
  policyRevision : String
  sessionId : Option String
  agentId : Option String
  manifestDigest : String
  contractDigest : String
  backendSelection : String
  originalDeadlineMillis : Option ℤ
  deriving DecidableEq, Repr

/-- The journal record of a call. -/
structure CompletedCall where
  sequence : ℕ
  request : CallRequest
  result : CallResult
  replayFingerprint : Option ReplayFingerprint

/-! ### Child jobs -/

inductive ChildJobOp
  | test | build | lint | format
  deriving DecidableEq, Repr

namespace ChildJobOp

def display : ChildJobOp → String
  | test => "test"
  | build => "build"
  | lint => "lint"
  | format => "format"

def fromStr (s : String) : Except String ChildJobOp :=
  if s = "test" then .ok test
  else if s = "build" then .ok build
  else if s = "lint" then .ok lint
  else if s = "format" then .ok format
  else .error ("unknown child job operation '" ++ s ++
    "': expected test, build, lint, or format")

end ChildJobOp

structure TestJobConfig where
  scope : Option String
  cwd : Option String
  timeoutSecs : Option ℕ
  stallTimeoutSecs : Option ℕ
  maxReportBytes : Option ℕ
  deriving DecidableEq, Repr

/-- The configuration of a build, lint or format job. -/
structure CommandJobConfig where
  argv : Option (List String)
  cwd : Option String
  timeoutSecs : Option ℕ
  deriving DecidableEq, Repr

inductive ChildJobConfig
  | test (config : TestJobConfig)
  | build (config : CommandJobConfig)
  | lint (config : CommandJobConfig)
  | format (config : CommandJobConfig)
  deriving DecidableEq, Repr

structure ChildJobRequest where
  sequence : ℕ
  op : ChildJobOp
  config : ChildJobConfig
  deriving DecidableEq, Repr

/-- The result of a child job: its JSON form, which is what the program gets to
see, and its artifact handles. -/
structure ChildJobResult where
  value : Json
  artifacts : List String

/-- The child job an interrupted program was waiting for. -/
structure PendingChildWait where
  childJobId : String
  expectedResultSlot : ℕ
  childOp : String
  parentProgramId : String
  parentJobId : String
  parentAttemptId : String
  canonicalCallId : String
  instructionSequence : ℕ
  operationConfigDigest : String
  operationValue : Option ProgramValue
  configValue : Option ProgramValue

/-! ### Checkpoints -/

/-- Interpreter state at a checkpoint boundary. -/
structure InterpreterCheckpoint where
  pc : ℕ
  steps : ℕ
  iterations : ℕ
  callsCompleted : ℕ
  bytesUsed : ℕ
  parallelGroups : ℕ
  locals : List (Option ProgramValue)
  /-- The operand stack, top first. -/
  stack : List ProgramValue
  pendingChildWait : Option PendingChildWait
  originalDeadlineMillis : Option ℤ
  checkpointSequence : ℕ
  semanticDigest : String
  completedCalls : List CompletedCall
  deriving Inhabited

/-! ### Results -/

inductive ProgramStatus
  | completed | failed | cancelled | timedOut | stalled | incomplete | recoverable
  deriving DecidableEq, Repr

structure ProgramResult where
  status : ProgramStatus
  output : Option ProgramValue
  errorMessage : Option String
  failureClass : Option FailureClass
  stepsUsed : ℕ
  bytesUsed : ℕ
  callsCompleted : ℕ
  callsTotal : ℕ
  iterationsUsed : ℕ

namespace ProgramResult

/-- The part shared by all results: what was consumed. -/
def of (status : ProgramStatus) (output : Option ProgramValue) (message : Option String)
    (failureClass : Option FailureClass) (budget : BudgetSnapshot) : ProgramResult where
  status := status
  output := output
  errorMessage := message
  failureClass := failureClass
  stepsUsed := budget.steps
  bytesUsed := budget.bytes
  callsCompleted := budget.calls
  callsTotal := budget.calls
  iterationsUsed := budget.iterations

def completed (output : ProgramValue) (budget : BudgetSnapshot) : ProgramResult :=
  of .completed (some output) none none budget

def failed (failureClass : FailureClass) (msg : String) (budget : BudgetSnapshot) :
    ProgramResult :=
  of .failed none (some msg) (some failureClass) budget

def cancelled (budget : BudgetSnapshot) : ProgramResult :=
  of .cancelled none (some "cancelled") (some .cancelled) budget

def timedOut (budget : BudgetSnapshot) : ProgramResult :=
  of .timedOut none (some "timed out") (some .timeout) budget

def stalled (budget : BudgetSnapshot) : ProgramResult :=
  of .stalled none (some "stalled") (some .stall) budget

def incomplete (msg : String) (budget : BudgetSnapshot) : ProgramResult :=
  of .incomplete none (some msg) (some .budgetExhausted) budget

end ProgramResult

end Codegg.ToolProgram
