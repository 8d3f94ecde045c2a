import Codegg.Library.StateError
import Codegg.Projection.Limits
import Codegg.ToolProgram.Compiler
import Codegg.ToolProgram.PyAst

/-!
# The parser

The Python parser is a parameter; its tree is converted into the normalized one, node by
node. The state is the number of nodes converted so far. Diagnostics are kept without
their spans.
-/
namespace Codegg.ToolProgram

open Codegg.Library
open Codegg.Projection (clipStr)

def maxSourceBytes : ℕ := 1024 * 1024

def maxAstNodes : ℕ := 10000

def maxNestingDepth : ℕ := 20

def maxStringLength : ℕ := 10000

def maxCollectionElements : ℕ := 1000

abbrev ParseM := EStateM ToolProgramError ℕ

def refuse {α : Type} (code : DiagnosticCode) (message : String) : ParseM α :=
  throw (.parse ⟨code, message⟩)

def unsupported {α : Type} (message : String) : ParseM α := refuse .unsupportedSyntax message

def checkDepth (depth : ℕ) : ParseM Unit :=
  failIf (maxNestingDepth < depth) (.validate ⟨.maxNestingDepth,
    "nesting depth " ++ toString depth ++ " exceeds maximum " ++ toString maxNestingDepth⟩)

def checkNodeCount : ParseM Unit := do
  let count := (← get) + 1
  set count
  failIf (maxAstNodes < count) (.parse ⟨.maxAstNodes,
    "AST node count " ++ toString count ++ " exceeds maximum " ++ toString maxAstNodes⟩)

/-- The size check of a list, a tuple, a dictionary or the keywords of a call. -/
def checkElements (before : String) (count : ℕ) (after : String) : ParseM Unit :=
  failIf (maxCollectionElements < count) (.parse ⟨.maxCollectionSize,
    before ++ toString count ++ after ++ toString maxCollectionElements⟩)

/-! ### Nodes without parts -/

def UnsupportedExpr.message : UnsupportedExpr → String
  | set => "set literals are not supported"
  | namedExpr => "walrus operator (:=) is not supported"
  | lambda => "lambda expressions are not supported"
  | ifExp => "conditional expressions (ternary) are not supported in version 1"
  | listComp | setComp | dictComp | generatorExp => "comprehensions/generators are not supported"
  | await => "await expressions are not supported"
  | yield | yieldFrom => "yield expressions are not supported"
  | formattedValue | joinedStr => "f-string expressions are not supported"
  | starred => "starred expressions are not supported"

def UnsupportedStmt.message : UnsupportedStmt → String
  | annAssign => "annotated assignment not supported"
  | while_ => "while loops are not supported"
  | return_ => "return statements are not supported"
  | import_ | importFrom => "import statements are not supported"
  | functionDef | asyncFunctionDef => "function definitions are not supported"
  | classDef => "class definitions are not supported"
  | try_ | tryStar => "try/except is not supported"
  | raise => "raise statements are not supported"
  | delete => "del statements are not supported"
  | global | nonlocal => "global/nonlocal statements are not supported"
  | with_ | asyncWith => "with statements are not supported"
  | match_ => "match statements are not supported"
  | break_ | continue_ => "break/continue are not supported"
  | augAssign => "augmented assignment (+=, -=, etc.) is not supported"
  | typeAlias => "type alias statements are not supported"
  | asyncFor => "async for is not supported"

def convertConstant : PyConstant → ParseM Expr
  | .none => return .noneLiteral
  | .bool value => return .boolLiteral value
  | .int value => do
    failIf (¬(-2 ^ 63 ≤ value ∧ value < 2 ^ 63))
      (.parse ⟨.unsupportedSyntax, "integer literal out of range"⟩)
    return .intLiteral value
  | .float literal => return .floatLiteral literal
  | .str value => do
    failIf (maxStringLength < value.utf8ByteSize) (.parse ⟨.maxCollectionSize,
      "string literal length " ++ toString value.utf8ByteSize ++ " exceeds maximum " ++
        toString maxStringLength⟩)
    return .stringLiteral value
  | .bytes => unsupported "bytes literals are not supported"
  | .tuple => unsupported "constant tuples not supported as literals"
  | .complex => unsupported "complex/imaginary literals not supported"
  | .ellipsis => unsupported "ellipsis literal not supported"

def convertBinop : PyOperator → BinOpKind
  | .add => .add
  | .sub => .sub
  | .mult => .mul
  | .div => .div
  | .floorDiv => .floorDiv
  | .mod => .mod
  | .pow => .pow
  | .matMult => .matMul
  | .bitOr => .bitOr
  | .bitXor => .bitXor
  | .bitAnd => .bitAnd
  | .lShift => .lShift
  | .rShift => .rShift

def convertCmpop : PyCmpOp → ParseM CmpOp
  | .eq => return .eq
  | .notEq => return .notEq
  | .lt => return .lt
  | .ltE => return .ltE
  | .gt => return .gt
  | .gtE => return .gtE
  | .in_ => return .in_
  | .notIn => return .notIn
  | .is | .isNot => unsupported "identity comparison (is/is not) is not supported"

def joinOperands (op : PyBoolOp) (left right : Expr) : Expr :=
  match op with
  | .and => .boolAnd left right
  | .or => .boolOr left right

/-- The functions of one argument, by name. -/
def builtinNamed : String → Option BuiltinFunc
  | "len" => some .len
  | "str" => some .str
  | "int" => some .int
  | "bool" => some .bool
  | _ => none

/-- Attributes that may be read without a call; they count as calls without arguments. -/
def isMethodAttribute (attr : String) : Bool :=
  ["append", "items", "keys", "values", "split", "join", "strip", "lower", "upper", "replace",
    "get"].contains attr

def isToolKey : Expr × Expr → Bool
  | (.stringLiteral value, _) => decide (value = "tool")
  | _ => false

/-- A descriptor of `parallel` that is a dictionary names its tool. -/
def checkDescriptor : Expr → ParseM Unit
  | .dict entries => failIf (entries.any isToolKey = false) (.parse ⟨.invalidCallDescriptor,
      "parallel() descriptors must be dicts with a `tool` key; canonical form is " ++
      "parallel(d1, d2) e.g. parallel(\x7b\"tool\": \"read\", \"path\": \"src/main.rs\"\x7d, " ++
      "\x7b\"tool\": \"grep\", \"pattern\": \"TODO\"\x7d)"⟩)
  | _ => pure ()

/-- `call` without positional arguments: the keywords make up the descriptor. -/
def keywordDescriptor (kwargs : List (String × Expr)) : ParseM Expr := do
  failIf (kwargs = []) (.parse ⟨.invalidCallDescriptor,
    "call() requires a descriptor dict as the first argument: call(\x7b\"tool\": \"<name>\", " ++
    "...\x7d) e.g. call(\x7b\"tool\": \"read\", \"path\": \"src/main.rs\"\x7d)"⟩)
  checkElements "call() with " kwargs.length " kwargs exceeds maximum "
  return .toolCallExpr (.dict (kwargs.map fun kw => (.stringLiteral kw.1, kw.2))) []

/-! ### Expressions -/

mutual
def convertExpr : PyExpr → ParseM Expr
  | .constant value => do
    checkNodeCount
    convertConstant value
  | .name id => do
    checkNodeCount
    return .name id
  | .binOp left op right => do
    checkNodeCount
    let left ← convertExpr left
    let right ← convertExpr right
    return .binOp left (convertBinop op) right
  | .unaryOp op operand => do
    checkNodeCount
    let converted ← convertExpr operand
    match op with
    | .uSub => return .unaryOp .neg converted
    | .uAdd => return .unaryOp .pos converted
    | .invert => return .unaryOp .invert converted
    -- the operand is converted a second time, and its nodes are counted twice
    | .not => return .boolNot (← convertExpr operand)
  | .boolOp op values => do
    checkNodeCount
    match values with
    | first :: second :: rest => do
      let result ← convertExpr first
      convertOperands op result (second :: rest)
    | _ => unsupported "boolean operator requires at least two operands"
  | .compare left comparisons => do
    checkNodeCount
    let left ← convertExpr left
    return .compare left (← convertComparisons comparisons)
  | .call (.name id) args keywords => do
    checkNodeCount
    match builtinNamed id with
    | some func =>
      match args with
      | [arg] => return .callBuiltin func (← convertExpr arg)
      | _ => unsupported (id ++ "() requires exactly one argument")
    | none =>
      if id = "call" then do
        let kwargs ← convertKeywords keywords
        match args with
        | [] => keywordDescriptor kwargs
        | descriptor :: _ => return .toolCallExpr (← convertExpr descriptor) kwargs
      else if id = "parallel" then
        match args with
        | [.list elts] => return .parallelExpr (← convertDescriptors elts)
        | args => return .parallelExpr (← convertDescriptors args)
      else if id = "submit_job" then
        match args with
        | op :: config :: _ => do
          let op ← convertExpr op
          return .submitJobExpr op (← convertExpr config)
        | _ => unsupported "submit_job() requires operation and config arguments"
      else if id = "range" then
        match args with
        | [stop] => return .range none (← convertExpr stop) none
        | [start, stop] => do
          let start ← convertExpr start
          return .range (some start) (← convertExpr stop) none
        | [start, stop, step] => do
          let start ← convertExpr start
          let stop ← convertExpr stop
          return .range (some start) stop (some (← convertExpr step))
        | _ => unsupported "range() accepts 1-3 arguments"
      else unsupported "unsupported function call"
  | .call (.attribute value attr) args _ => do
    checkNodeCount
    let object ← convertExpr value
    return .methodCall object attr (← convertExprs args)
  | .call _ _ _ => do
    checkNodeCount
    unsupported "unsupported function call"
  | .attribute value attr => do
    checkNodeCount
    let object ← convertExpr value
    if isMethodAttribute attr then return .methodCall object attr []
    else refuse .illegalAttributeAccess ("attribute '" ++ attr ++ "' is not allowed")
  | .subscript value (.slice lower upper step) => do
    checkNodeCount
    let value ← convertExpr value
    let start ← convertOption lower
    let stop ← convertOption upper
    return .slice value start stop (← convertOption step)
  | .subscript value idx => do
    checkNodeCount
    let value ← convertExpr value
    return .index value (← convertExpr idx)
  | .slice lower upper step => do
    checkNodeCount
    let start ← convertOption lower
    let stop ← convertOption upper
    return .slice .noneLiteral start stop (← convertOption step)
  | .list elts => do
    checkNodeCount
    checkElements "list with " elts.length " elements exceeds maximum "
    return .list (← convertExprs elts)
  | .tuple elts => do
    checkNodeCount
    checkElements "tuple with " elts.length " elements exceeds maximum "
    return .tuple (← convertExprs elts)
  | .dict entries => do
    checkNodeCount
    checkElements "dict with " entries.length " entries exceeds maximum "
    return .dict (← convertEntries entries)
  | .unsupported kind => do
    checkNodeCount
    unsupported kind.message

def convertExprs : List PyExpr → ParseM (List Expr)
  | [] => return []
  | expr :: exprs => do
    let expr ← convertExpr expr
    return expr :: (← convertExprs exprs)

def convertOption : Option PyExpr → ParseM (Option Expr)
  | none => return none
  | some expr => return some (← convertExpr expr)

/-- The operands of `and` or `or` after the first, joined from the left. -/
def convertOperands (op : PyBoolOp) (result : Expr) : List PyExpr → ParseM Expr
  | [] => return result
  | value :: values => do
    let right ← convertExpr value
    convertOperands op (joinOperands op result right) values

def convertComparisons : List (PyCmpOp × PyExpr) → ParseM (List (CmpOp × Expr))
  | [] => return []
  | (op, comparator) :: comparisons => do
    let op ← convertCmpop op
    let comparator ← convertExpr comparator
    return (op, comparator) :: (← convertComparisons comparisons)

def convertKeywords : List (Option String × PyExpr) → ParseM (List (String × Expr))
  | [] => return []
  | (none, _) :: _ => unsupported "**kwargs unpacking not supported"
  | (some name, value) :: keywords => do
    let value ← convertExpr value
    return (name, value) :: (← convertKeywords keywords)

def convertDescriptors : List PyExpr → ParseM (List Expr)
  | [] => return []
  | arg :: args => do
    let descriptor ← convertExpr arg
    checkDescriptor descriptor
    return descriptor :: (← convertDescriptors args)

def convertEntries : List (Option PyExpr × PyExpr) → ParseM (List (Expr × Expr))
  | [] => return []
  | (key, value) :: entries => do
    let key ← convertOption key
    let value ← convertExpr value
    return (key.getD .noneLiteral, value) :: (← convertEntries entries)
end

/-! ### Statements -/

def convertTargets : List PyExpr → ParseM (List String)
  | [] => return []
  | .name id :: targets => do return id :: (← convertTargets targets)
  | _ :: _ => unsupported "unsupported assignment target"

/-- An assignment of `submit_job(…)` to one name is a statement of its own. -/
def assignment (targets : List String) (value : Expr) : Stmt :=
  match value, targets with
  | .submitJobExpr op config, [target] => .submitJob target op config
  | _, _ => .assign targets value

def exprStmtMessage : String :=
  "expression statements must be assignment, call(), submit_job(), emit(), fail(), or parallel()"

/-- The arguments of `parallel`; a single list stands for its elements. -/
def convertParallelCallArgs : List PyExpr → ParseM (List Expr)
  | [.list elts] => convertDescriptors elts
  | args => convertDescriptors args

def convertExprStmt : PyExpr → ParseM Stmt
  | .call (.name id) args _ =>
    if id = "emit" then
      match args with
      | [arg] => return .emit (← convertExpr arg)
      | _ => unsupported "emit() requires exactly one argument"
    else if id = "fail" then
      match args with
      | [] => return .fail none
      | [arg] => return .fail (some (← convertExpr arg))
      | _ => unsupported "fail() accepts at most one argument"
    else if id = "submit_job" then
      match args with
      | op :: config :: _ => do
        let op ← convertExpr op
        return .submitJob "_submit_job_result" op (← convertExpr config)
      | _ => unsupported "submit_job() requires operation and config arguments"
    else if id = "parallel" then
      return .parallel "_parallel_result" (← convertParallelCallArgs args)
    else unsupported exprStmtMessage
  | _ => unsupported exprStmtMessage

def convertLoopTarget : PyExpr → ParseM String
  | .name id => return id
  | _ => unsupported "for-loop target must be a simple name"

mutual
def convertStmt (depth : ℕ) : PyStmt → ParseM Stmt
  | .assign targets value => do
    checkDepth depth
    checkNodeCount
    let value ← convertExpr value
    return assignment (← convertTargets targets) value
  | .if_ test body orelse => do
    checkDepth depth
    checkNodeCount
    let test ← convertExpr test
    let body ← convertStmts (depth + 1) body
    let (clauses, elseBody) ← convertElse (depth + 1) orelse
    return .if_ test body clauses elseBody
  | .for_ target iter body _ => do
    checkDepth depth
    checkNodeCount
    let target ← convertLoopTarget target
    let iter ← convertExpr iter
    return .for_ target iter (← convertStmts (depth + 1) body)
  | .assert test msg => do
    checkDepth depth
    checkNodeCount
    let test ← convertExpr test
    return .assert test (← convertOption msg)
  | .expr value => do
    checkDepth depth
    checkNodeCount
    convertExprStmt value
  | .pass => do
    checkDepth depth
    checkNodeCount
    return .pass
  | .unsupported kind => do
    checkDepth depth
    checkNodeCount
    unsupported kind.message

def convertStmts (depth : ℕ) : List PyStmt → ParseM (List Stmt)
  | [] => return []
  | stmt :: stmts => do
    let stmt ← convertStmt depth stmt
    return stmt :: (← convertStmts depth stmts)

/-- The branches after the first. While a branch starts with `if` it becomes an `elif`
clause and the loop goes on with its own branches; what is left is the `else` body. -/
def convertElse (depth : ℕ) :
    List PyStmt → ParseM (List (Expr × List Stmt) × Option (List Stmt))
  | [] => return ([], none)
  | .if_ test body orelse :: _ => do
    let test ← convertExpr test
    let body ← convertStmts depth body
    let (clauses, elseBody) ← convertElse depth orelse
    return ((test, body) :: clauses, elseBody)
  | stmt :: stmts => do
    let stmt ← convertStmt depth stmt
    return ([], some (stmt :: (← convertStmts depth stmts)))
end

/-! ### Sources -/

def truncateMessage (message : String) (maxBytes : ℕ) : String :=
  if message.utf8ByteSize ≤ maxBytes then message else clipStr message maxBytes ++ "..."

/-- `parse` is the Python parser: a tree, or the message of its error. -/
def parseSource (parse : String → Except String PyMod) (source : String) :
    Except ToolProgramError Program :=
  if maxSourceBytes < source.utf8ByteSize then
    .error (.parse ⟨.sourceTooLarge, "source too large: " ++ toString source.utf8ByteSize ++
      " bytes (max " ++ toString maxSourceBytes ++ ")"⟩)
  else
    match parse source with
    | .error message =>
      .error (.parse ⟨.unsupportedSyntax, "parse error: " ++ truncateMessage message 200⟩)
    | .ok (.module body) =>
      match convertStmts 0 body 0 with
      | .ok body _ => .ok ⟨body⟩
      | .error e _ => .error e
    | .ok _ => .error (.parse ⟨.unsupportedSyntax, "expected module"⟩)

end Codegg.ToolProgram
