import Codegg.ToolProgram.Ast

/-!
# The compiler

Statements are compiled in order into a growing list of instructions; constants
and local names get their indices in pools. A jump is emitted with target `0` and
patched once its target is known. The bounds of the analysis go into the program
unchanged, so one structure serves for both.
-/
namespace Codegg.ToolProgram

open Codegg.Library

inductive DiagnosticCode
  | unsupportedSyntax
  | unboundedLoop
  | maxNestingDepth
  | maxCollectionSize
  | illegalAttributeAccess
  | maxParallelWidth
  | invalidCallDescriptor
  | maxTotalIterations
  | sourceTooLarge
  | maxAstNodes
  | internalError
  deriving DecidableEq, Repr

structure Diagnostic where
  code : DiagnosticCode
  message : String
  deriving DecidableEq, Repr

inductive ToolProgramError
  | parse (d : Diagnostic)
  | validate (d : Diagnostic)
  | bounds (d : Diagnostic)
  | compile (d : Diagnostic)
  deriving DecidableEq, Repr

/-- The constants of a program and the names of its locals. -/
structure Pools where
  strings : List String
  integers : List ℤ
  floats : List FloatBits
  locals : List String

/-- Compiler state during code generation. -/
structure Compiler extends Pools where
  instructions : List IrOp

def Compiler.new : Compiler := ⟨⟨[], [], [], []⟩, []⟩

abbrev CompileM := EStateM ToolProgramError Compiler

/-- The index of a value in a pool, and the pool, which gets the value if it has
none yet. -/
def internIn {α : Type} (same : α → α → Bool) (v : α) (pool : List α) : ℕ × List α :=
  match pool.findIdx? (same · v) with
  | some idx => (idx, pool)
  | none => (pool.length, pool ++ [v])

def Pools.lookupLocal (L : Pools) (name : String) : Option ℕ :=
  L.locals.findIdx? fun x => decide (x = name)

namespace Compiler

def internString (s : String) : CompileM ℕ := fun c =>
  let r := internIn (fun x v => decide (x = v)) s c.strings
  .ok r.1 { c with strings := r.2 }

def internInt (v : ℤ) : CompileM ℕ := fun c =>
  let r := internIn (fun x v => decide (x = v)) v c.integers
  .ok r.1 { c with integers := r.2 }

def internFloat (v : FloatBits) : CompileM ℕ := fun c =>
  let r := internIn FloatBits.eq v c.floats
  .ok r.1 { c with floats := r.2 }

def allocateLocal (name : String) : CompileM ℕ := fun c =>
  let r := internIn (fun x v => decide (x = v)) name c.locals
  .ok r.1 { c with locals := r.2 }

def push (op : IrOp) : CompileM Unit := modify fun c =>
  { c with instructions := c.instructions ++ [op] }

def currentPc : CompileM ℕ := do return (← get).instructions.length

def retarget (target : ℕ) : IrOp → IrOp
  | .jumpIfFalse _ => .jumpIfFalse target
  | .jump _ => .jump target
  | op => op

def patchJump (jumpPc target : ℕ) : CompileM Unit := modify fun c =>
  { c with instructions := c.instructions.modify jumpPc (retarget target) }

def unallocated (name : String) : ToolProgramError :=
  .compile ⟨.internalError, "unallocated local '" ++ name ++ "'"⟩

/-- The slot of a target. -/
def targetSlot (name : String) : CompileM ℕ := do
  match (← get).lookupLocal name with
  | some slot => return slot
  | none => throw (unallocated name)

/-! ### Locals -/

mutual
def preallocateStmt : Stmt → CompileM Unit
  | .assign targets _ => targets.forM fun t => do let _ ← allocateLocal t
  | .if_ _ body elifClauses elseBody => do
    preallocateStmts body
    preallocateClauses elifClauses
    preallocateElse elseBody
  | .for_ target _ body => do
    let _ ← allocateLocal target
    preallocateStmts body
  | .toolCall target _ _ => do let _ ← allocateLocal target
  | .parallel target _ => do let _ ← allocateLocal target
  | .submitJob target _ _ => do let _ ← allocateLocal target
  | _ => pure ()

def preallocateStmts : List Stmt → CompileM Unit
  | [] => pure ()
  | stmt :: stmts => do
    preallocateStmt stmt
    preallocateStmts stmts

def preallocateClauses : List (Expr × List Stmt) → CompileM Unit
  | [] => pure ()
  | (_, body) :: clauses => do
    preallocateStmts body
    preallocateClauses clauses

def preallocateElse : Option (List Stmt) → CompileM Unit
  | none => pure ()
  | some body => preallocateStmts body
end

/-! ### Expressions -/

/-- The methods that are compiled to a call. -/
def calledMethods : List String :=
  ["items", "keys", "values", "split", "join", "strip", "lower", "upper", "replace", "get"]

def pushString (s : String) : CompileM Unit := do push (.loadString (← internString s))

def pushInt (v : ℤ) : CompileM Unit := do push (.loadInt (← internInt v))

/-- Trailing keyword arguments are merged into a dictionary literal; with another
descriptor they are rejected. -/
def mergeKwargs (kwargs : List (String × Expr)) (descriptor : CompileM Unit)
    (literal : Option (CompileM ℕ)) (overrides : CompileM Unit) : CompileM Unit :=
  if kwargs.isEmpty then descriptor
  else
    match literal with
    | some entries => do
      let count ← entries
      overrides
      push (.makeDict (count + kwargs.length))
    | none =>
      throw (.compile ⟨.invalidCallDescriptor, "call() k=v overrides require a dict literal " ++
        "descriptor; merge them into the dict or use call(tool=..., ...) with no positional " ++
        "descriptor"⟩)

mutual
def compileExpr : Expr → CompileM Unit
  | .noneLiteral => push .loadNone
  | .boolLiteral value => push (if value then .loadTrue else .loadFalse)
  | .intLiteral value => pushInt value
  | .floatLiteral literal => do push (.loadFloat (← internFloat literal.value))
  | .stringLiteral value => pushString value
  | .name id => do
    match (← get).lookupLocal id with
    | some slot => push (.loadLocal slot)
    -- A name that is assigned nowhere.
    | none => push .loadNone
  | .binOp left op right => do
    compileExpr left
    compileExpr right
    push (.binOp op.toIr)
  | .unaryOp op operand => do
    compileExpr operand
    push (.unaryOp op.toIr)
  | .compare left comparisons => do
    compileExpr left
    compileComparisons comparisons
  | .boolAnd left right => do
    compileExpr left
    compileExpr right
    push .boolAnd
  | .boolOr left right => do
    compileExpr left
    compileExpr right
    push .boolOr
  | .boolNot operand => do
    compileExpr operand
    push .boolNot
  | .index value idx => do
    compileExpr value
    compileExpr idx
    push .index
  | .slice value start stop step => do
    compileExpr value
    compileBound start
    compileBound stop
    compileBound step
    push .slice
  | .callBuiltin func arg => do
    compileExpr arg
    push func.toIr
  | .methodCall object method args => do
    compileExpr object
    compileExprs args
    if method = "append" then push .pop
    else if method ∈ calledMethods then do
      pushString method
      push .executeCall
    else
      throw (.compile ⟨.illegalAttributeAccess, "unsupported method '" ++ method ++ "'"⟩)
  | .toolCallExpr descriptor kwargs => do
    mergeKwargs kwargs (compileExpr descriptor) (compileLiteral descriptor) (compileKwargs kwargs)
    push .constructCall
    push .executeCall
  | .submitJobExpr op config => do
    compileExpr op
    compileExpr config
    push .executeChildJob
  | .parallelExpr descriptors => do
    compileExprs descriptors
    push (.parallelStart descriptors.length)
    push .parallelExecute
  | .list elements => do
    compileExprs elements
    push (.makeList elements.length)
  | .tuple elements => do
    compileExprs elements
    push (.makeTuple elements.length)
  | .dict entries => do
    compileEntries entries
    push (.makeDict entries.length)
  -- The three values stay on the stack for the loop.
  | .range start stop step => do
    compileRangeBound 0 start
    compileExpr stop
    compileRangeBound 1 step
  | .parenthesized inner => compileExpr inner

def compileExprs : List Expr → CompileM Unit
  | [] => pure ()
  | e :: es => do
    compileExpr e
    compileExprs es

def compileComparisons : List (CmpOp × Expr) → CompileM Unit
  | [] => pure ()
  | (op, e) :: comparisons => do
    compileExpr e
    push (.compare op.toIr)
    compileComparisons comparisons

def compileEntries : List (Expr × Expr) → CompileM Unit
  | [] => pure ()
  | (key, value) :: entries => do
    compileExpr key
    compileExpr value
    compileEntries entries

def compileKwargs : List (String × Expr) → CompileM Unit
  | [] => pure ()
  | (name, value) :: kwargs => do
    pushString name
    compileExpr value
    compileKwargs kwargs

/-- A bound of a slice, `None` if it is missing. -/
def compileBound : Option Expr → CompileM Unit
  | none => push .loadNone
  | some e => compileExpr e

/-- A bound of a range with its default. -/
def compileRangeBound (default : ℤ) : Option Expr → CompileM Unit
  | none => pushInt default
  | some e => compileExpr e

/-- The entries of a dictionary literal, and how many there are. -/
def compileLiteral : Expr → Option (CompileM ℕ)
  | .dict entries => some do
    compileEntries entries
    return entries.length
  | _ => none
end

def compileToolCallDescriptor (descriptor : Expr) (kwargs : List (String × Expr)) :
    CompileM Unit :=
  mergeKwargs kwargs (compileExpr descriptor) (compileLiteral descriptor) (compileKwargs kwargs)

/-! ### Statements -/

/-- Store the value on the stack in every target. -/
def storeTargets (many : Bool) : List String → CompileM Unit
  | [] => pure ()
  | target :: targets => do
    let slot ← targetSlot target
    if many then push .dup else pure ()
    push (.storeLocal slot)
    storeTargets many targets

/-- Set the end of the loop that starts at `loopStart`. -/
def patchLoopEnd (loopStart endPc : ℕ) : CompileM Unit := modify fun c =>
  { c with instructions := c.instructions.modify loopStart fun op =>
      match op with
      | .forLoopStart bodyStart _ => .forLoopStart bodyStart endPc
      | op => op }

mutual
def compileStmt : Stmt → CompileM Unit
  | .assign targets value => do
    compileExpr value
    storeTargets (targets.length > 1) targets
  | .if_ test body elifClauses elseBody => do
    compileExpr test
    let jumpPc ← currentPc
    push (.jumpIfFalse 0)
    compileStmts body
    if elifClauses.isEmpty && elseBody.isNone then do
      patchJump jumpPc (← currentPc)
    else do
      let jumpPcs ← compileClauses jumpPc elifClauses []
      compileElse jumpPc jumpPcs elseBody
  | .for_ target iter body => do
    let slot ← targetSlot target
    compileExpr iter
    let loopStart ← currentPc
    push (.forLoopStart (loopStart + 1) (loopStart + 3))
    push .forLoopIter
    push (.storeLocal slot)
    compileStmts body
    push .checkpoint
    push (.forLoopNext loopStart (loopStart + 3))
    patchLoopEnd loopStart (← currentPc)
  -- The condition is not branched on.
  | .assert test msg => do
    compileExpr test
    match msg with
    | some m => compileExpr m
    | none => pushString "assertion failed"
    push .pop
  | .toolCall target descriptor kwargs => do
    push .checkpoint
    compileToolCallDescriptor descriptor kwargs
    push .constructCall
    push .executeCall
    push .checkpoint
    push (.storeLocal (← targetSlot target))
  | .submitJob target op config => do
    push .checkpoint
    compileExpr op
    compileExpr config
    push .executeChildJob
    push .checkpoint
    push (.storeLocal (← targetSlot target))
  | .parallel target descriptors => do
    compileExprs descriptors
    push .checkpoint
    push (.parallelStart descriptors.length)
    push .parallelExecute
    push .checkpoint
    push (.storeLocal (← targetSlot target))
  | .emit value => do
    compileExpr value
    push .checkpoint
    push .emit
  | .fail reason => do
    match reason with
    | some r => compileExpr r
    | none => push .loadNone
    push .checkpoint
    push .fail
  | .pass => pure ()

def compileStmts : List Stmt → CompileM Unit
  | [] => pure ()
  | stmt :: stmts => do
    compileStmt stmt
    compileStmts stmts

/-- The `elif` clauses. The test of the `if` is patched at every clause; the jumps
of a clause are only collected. -/
def compileClauses (jumpPc : ℕ) : List (Expr × List Stmt) → List (ℕ × ℕ) →
    CompileM (List (ℕ × ℕ))
  | [], jumpPcs => return jumpPcs
  | (test, body) :: clauses, jumpPcs => do
    let jumpToNext ← currentPc
    push (.jump 0)
    patchJump jumpPc (← currentPc)
    compileExpr test
    let nextJumpPc ← currentPc
    push (.jumpIfFalse 0)
    compileStmts body
    compileClauses jumpPc clauses (jumpPcs ++ [(nextJumpPc, jumpToNext)])

/-- The end of an `if` with other branches. Of the collected jumps only the last
test is patched. -/
def compileElse (jumpPc : ℕ) (jumpPcs : List (ℕ × ℕ)) : Option (List Stmt) → CompileM Unit
  | some body => do
    let jumpToEnd ← currentPc
    push (.jump 0)
    let elseStart ← currentPc
    match jumpPcs.getLast? with
    | some (lastJumpPc, _) => patchJump lastJumpPc elseStart
    | none => patchJump jumpPc elseStart
    compileStmts body
    patchJump jumpToEnd (← currentPc)
  | none => do
    let endPc ← currentPc
    match jumpPcs.getLast? with
    | some (lastJumpPc, _) => patchJump lastJumpPc endPc
    | none => patchJump jumpPc endPc
end

end Compiler

open Compiler in
/-- Compile a validated program. -/
def compile (program : Program) (bounds : IrBounds) : Except ToolProgramError IrProgram :=
  let build : CompileM Unit := do
    preallocateStmts program.body
    compileStmts program.body
    push .return_
  match build .new with
  | .error e _ => .error e
  | .ok _ c => .ok
    { instructions := c.instructions
      localCount := c.locals.length
      bounds := bounds
      strings := c.strings
      integers := c.integers
      floats := c.floats }

end Codegg.ToolProgram
