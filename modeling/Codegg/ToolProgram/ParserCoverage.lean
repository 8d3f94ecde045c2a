import Codegg.ToolProgram.Parser

/-!
# What the parser keeps

A normalized tree represents a Python tree if every statement, branch and argument of the
one stands in the other. The conversion does not look at the `else` block of a loop, at
what follows a nested `if` in an `else` block, at most keyword arguments and at surplus
positional arguments; it represents exactly the trees that have none of these.
-/
namespace Codegg.ToolProgram

open Codegg.Library PyExpr

/-! ### Representation -/

inductive RepresentsOperator : PyOperator → BinOpKind → Prop
  | add : RepresentsOperator .add .add
  | sub : RepresentsOperator .sub .sub
  | mult : RepresentsOperator .mult .mul
  | div : RepresentsOperator .div .div
  | floorDiv : RepresentsOperator .floorDiv .floorDiv
  | mod : RepresentsOperator .mod .mod
  | pow : RepresentsOperator .pow .pow
  | matMult : RepresentsOperator .matMult .matMul
  | bitOr : RepresentsOperator .bitOr .bitOr
  | bitXor : RepresentsOperator .bitXor .bitXor
  | bitAnd : RepresentsOperator .bitAnd .bitAnd
  | lShift : RepresentsOperator .lShift .lShift
  | rShift : RepresentsOperator .rShift .rShift

inductive RepresentsCmpOp : PyCmpOp → CmpOp → Prop
  | eq : RepresentsCmpOp .eq .eq
  | notEq : RepresentsCmpOp .notEq .notEq
  | lt : RepresentsCmpOp .lt .lt
  | ltE : RepresentsCmpOp .ltE .ltE
  | gt : RepresentsCmpOp .gt .gt
  | gtE : RepresentsCmpOp .gtE .gtE
  | in_ : RepresentsCmpOp .in_ .in_
  | notIn : RepresentsCmpOp .notIn .notIn

mutual
/-- The expression stands for the Python expression, with all of its arguments. -/
inductive Represents : PyExpr → Expr → Prop
  | none : Represents (.constant .none) .noneLiteral
  | bool (value : Bool) : Represents (.constant (.bool value)) (.boolLiteral value)
  | int (value : ℤ) : Represents (.constant (.int value)) (.intLiteral value)
  | float (literal : FloatLiteral) : Represents (.constant (.float literal)) (.floatLiteral literal)
  | str (value : String) : Represents (.constant (.str value)) (.stringLiteral value)
  | name (id : String) : Represents (.name id) (.name id)
  | binOp {left right : PyExpr} {left' right' : Expr} {op : PyOperator} {op' : BinOpKind} :
      Represents left left' → RepresentsOperator op op' → Represents right right' →
      Represents (.binOp left op right) (.binOp left' op' right')
  | neg {operand : PyExpr} {operand' : Expr} :
      Represents operand operand' → Represents (.unaryOp .uSub operand) (.unaryOp .neg operand')
  | pos {operand : PyExpr} {operand' : Expr} :
      Represents operand operand' → Represents (.unaryOp .uAdd operand) (.unaryOp .pos operand')
  | invert {operand : PyExpr} {operand' : Expr} :
      Represents operand operand' →
      Represents (.unaryOp .invert operand) (.unaryOp .invert operand')
  | not {operand : PyExpr} {operand' : Expr} :
      Represents operand operand' → Represents (.unaryOp .not operand) (.boolNot operand')
  | boolOp {first : PyExpr} {rest : List PyExpr} {first' : Expr} {rest' : List Expr}
      (op : PyBoolOp) : Represents first first' → RepresentsAll rest rest' →
      Represents (.boolOp op (first :: rest)) (rest'.foldl (joinOperands op) first')
  | compare {left : PyExpr} {left' : Expr} {comparisons : List (PyCmpOp × PyExpr)}
      {comparisons' : List (CmpOp × Expr)} : Represents left left' →
      RepresentsComparisons comparisons comparisons' →
      Represents (.compare left comparisons) (.compare left' comparisons')
  | builtin {id : String} {func : BuiltinFunc} {arg : PyExpr} {arg' : Expr} :
      builtinNamed id = some func → Represents arg arg' →
      Represents (.call (.name id) [arg] []) (.callBuiltin func arg')
  | call {descriptor : PyExpr} {descriptor' : Expr} {keywords : List (Option String × PyExpr)}
      {kwargs : List (String × Expr)} : Represents descriptor descriptor' →
      RepresentsKeywords keywords kwargs →
      Represents (.call (.name "call") [descriptor] keywords) (.toolCallExpr descriptor' kwargs)
  /-- `call(tool="read", …)` -/
  | callKeywords {keywords : List (Option String × PyExpr)} {kwargs : List (String × Expr)} :
      RepresentsKeywords keywords kwargs →
      Represents (.call (.name "call") [] keywords)
        (.toolCallExpr (.dict (kwargs.map fun kw => (.stringLiteral kw.1, kw.2))) [])
  | parallel {args : List PyExpr} {descriptors : List Expr} : RepresentsAll args descriptors →
      Represents (.call (.name "parallel") args []) (.parallelExpr descriptors)
  /-- `parallel([d1, d2])` -/
  | parallelList {elts : List PyExpr} {descriptors : List Expr} :
      RepresentsAll elts descriptors →
      Represents (.call (.name "parallel") [.list elts] []) (.parallelExpr descriptors)
  | submitJob {op config : PyExpr} {op' config' : Expr} : Represents op op' →
      Represents config config' →
      Represents (.call (.name "submit_job") [op, config] []) (.submitJobExpr op' config')
  | rangeStop {stop : PyExpr} {stop' : Expr} : Represents stop stop' →
      Represents (.call (.name "range") [stop] []) (.range none stop' none)
  | rangeStart {start stop : PyExpr} {start' stop' : Expr} : Represents start start' →
      Represents stop stop' →
      Represents (.call (.name "range") [start, stop] []) (.range (some start') stop' none)
  | rangeStep {start stop step : PyExpr} {start' stop' step' : Expr} : Represents start start' →
      Represents stop stop' → Represents step step' →
      Represents (.call (.name "range") [start, stop, step] [])
        (.range (some start') stop' (some step'))
  | methodCall {value : PyExpr} {value' : Expr} {args : List PyExpr} {args' : List Expr}
      (attr : String) : Represents value value' → RepresentsAll args args' →
      Represents (.call (.attribute value attr) args []) (.methodCall value' attr args')
  | attribute {value : PyExpr} {value' : Expr} (attr : String) : Represents value value' →
      Represents (.attribute value attr) (.methodCall value' attr [])
  | index {value idx : PyExpr} {value' idx' : Expr} : Represents value value' →
      Represents idx idx' → Represents (.subscript value idx) (.index value' idx')
  | subscript {value : PyExpr} {value' : Expr} {lower upper step : Option PyExpr}
      {lower' upper' step' : Option Expr} : Represents value value' →
      RepresentsOption lower lower' → RepresentsOption upper upper' →
      RepresentsOption step step' →
      Represents (.subscript value (.slice lower upper step)) (.slice value' lower' upper' step')
  | slice {lower upper step : Option PyExpr} {lower' upper' step' : Option Expr} :
      RepresentsOption lower lower' → RepresentsOption upper upper' →
      RepresentsOption step step' →
      Represents (.slice lower upper step) (.slice .noneLiteral lower' upper' step')
  | list {elts : List PyExpr} {elements : List Expr} : RepresentsAll elts elements →
      Represents (.list elts) (.list elements)
  | tuple {elts : List PyExpr} {elements : List Expr} : RepresentsAll elts elements →
      Represents (.tuple elts) (.tuple elements)
  | dict {entries : List (Option PyExpr × PyExpr)} {entries' : List (Expr × Expr)} :
      RepresentsEntries entries entries' → Represents (.dict entries) (.dict entries')

inductive RepresentsAll : List PyExpr → List Expr → Prop
  | nil : RepresentsAll [] []
  | cons {expr : PyExpr} {expr' : Expr} {exprs : List PyExpr} {exprs' : List Expr} :
      Represents expr expr' → RepresentsAll exprs exprs' →
      RepresentsAll (expr :: exprs) (expr' :: exprs')

inductive RepresentsOption : Option PyExpr → Option Expr → Prop
  | none : RepresentsOption none none
  | some {expr : PyExpr} {expr' : Expr} : Represents expr expr' →
      RepresentsOption (some expr) (some expr')

inductive RepresentsComparisons : List (PyCmpOp × PyExpr) → List (CmpOp × Expr) → Prop
  | nil : RepresentsComparisons [] []
  | cons {op : PyCmpOp} {op' : CmpOp} {expr : PyExpr} {expr' : Expr}
      {comparisons : List (PyCmpOp × PyExpr)} {comparisons' : List (CmpOp × Expr)} :
      RepresentsCmpOp op op' → Represents expr expr' →
      RepresentsComparisons comparisons comparisons' →
      RepresentsComparisons ((op, expr) :: comparisons) ((op', expr') :: comparisons')

inductive RepresentsKeywords : List (Option String × PyExpr) → List (String × Expr) → Prop
  | nil : RepresentsKeywords [] []
  | cons {expr : PyExpr} {expr' : Expr} {keywords : List (Option String × PyExpr)}
      {kwargs : List (String × Expr)} (name : String) : Represents expr expr' →
      RepresentsKeywords keywords kwargs →
      RepresentsKeywords ((some name, expr) :: keywords) ((name, expr') :: kwargs)

/-- Entries with a key; the entries of an unpacked mapping have no place in the result. -/
inductive RepresentsEntries : List (Option PyExpr × PyExpr) → List (Expr × Expr) → Prop
  | nil : RepresentsEntries [] []
  | cons {key value : PyExpr} {key' value' : Expr} {entries : List (Option PyExpr × PyExpr)}
      {entries' : List (Expr × Expr)} : Represents key key' → Represents value value' →
      RepresentsEntries entries entries' →
      RepresentsEntries ((some key, value) :: entries) ((key', value') :: entries')
end

mutual
/-- The statement stands for the Python statement, with all of its branches. -/
inductive RepresentsStmt : PyStmt → Stmt → Prop
  | assign {value : PyExpr} {value' : Expr} (names : List String) : Represents value value' →
      RepresentsStmt (.assign (names.map .name) value) (.assign names value')
  | assignJob {value : PyExpr} {op config : Expr} (target : String) :
      Represents value (.submitJobExpr op config) →
      RepresentsStmt (.assign [.name target] value) (.submitJob target op config)
  | if_ {test : PyExpr} {test' : Expr} {body orelse : List PyStmt} {body' : List Stmt}
      {clauses : List (Expr × List Stmt)} {elseBody : Option (List Stmt)} :
      Represents test test' → RepresentsStmts body body' →
      RepresentsElse orelse clauses elseBody →
      RepresentsStmt (.if_ test body orelse) (.if_ test' body' clauses elseBody)
  | for_ {iter : PyExpr} {iter' : Expr} {body : List PyStmt} {body' : List Stmt}
      (target : String) : Represents iter iter' → RepresentsStmts body body' →
      RepresentsStmt (.for_ (.name target) iter body []) (.for_ target iter' body')
  | assert {test : PyExpr} {test' : Expr} {msg : Option PyExpr} {msg' : Option Expr} :
      Represents test test' → RepresentsOption msg msg' →
      RepresentsStmt (.assert test msg) (.assert test' msg')
  | emit {arg : PyExpr} {arg' : Expr} : Represents arg arg' →
      RepresentsStmt (.expr (.call (.name "emit") [arg] [])) (.emit arg')
  | fail : RepresentsStmt (.expr (.call (.name "fail") [] [])) (.fail none)
  | failWith {arg : PyExpr} {arg' : Expr} : Represents arg arg' →
      RepresentsStmt (.expr (.call (.name "fail") [arg] [])) (.fail (some arg'))
  | submitJob {call : PyExpr} {op config : Expr} :
      Represents call (.submitJobExpr op config) →
      RepresentsStmt (.expr call) (.submitJob "_submit_job_result" op config)
  | parallel {call : PyExpr} {descriptors : List Expr} :
      Represents call (.parallelExpr descriptors) →
      RepresentsStmt (.expr call) (.parallel "_parallel_result" descriptors)
  | pass : RepresentsStmt .pass .pass

inductive RepresentsStmts : List PyStmt → List Stmt → Prop
  | nil : RepresentsStmts [] []
  | cons {stmt : PyStmt} {stmt' : Stmt} {stmts : List PyStmt} {stmts' : List Stmt} :
      RepresentsStmt stmt stmt' → RepresentsStmts stmts stmts' →
      RepresentsStmts (stmt :: stmts) (stmt' :: stmts')

/-- What follows the first branch of an `if`: nothing, an `if` alone as an `elif` clause, or
an `else` body. -/
inductive RepresentsElse : List PyStmt → List (Expr × List Stmt) → Option (List Stmt) → Prop
  | none : RepresentsElse [] [] none
  | elif_ {test : PyExpr} {test' : Expr} {body orelse : List PyStmt} {body' : List Stmt}
      {clauses : List (Expr × List Stmt)} {elseBody : Option (List Stmt)} :
      Represents test test' → RepresentsStmts body body' →
      RepresentsElse orelse clauses elseBody →
      RepresentsElse [.if_ test body orelse] ((test', body') :: clauses) elseBody
  | else_ {stmt : PyStmt} {stmt' : Stmt} {stmts : List PyStmt} {stmts' : List Stmt} :
      RepresentsStmt stmt stmt' → RepresentsStmts stmts stmts' →
      RepresentsElse (stmt :: stmts) [] (some (stmt' :: stmts'))
end

/-! ### What gets lost -/

/-- The conversion looks at all arguments of the call. -/
def keepsArguments (func : PyExpr) (args : List PyExpr)
    (keywords : List (Option String × PyExpr)) : Bool :=
  match func with
  | .name id =>
    if id = "call" then decide (args.length ≤ 1)
    else keywords.isEmpty && (decide (id ≠ "submit_job") || decide (args.length ≤ 2))
  | _ => keywords.isEmpty

mutual
/-- No call loses an argument and no dictionary unpacks a mapping. -/
def PyExpr.lossless : PyExpr → Bool
  | .binOp left _ right => left.lossless && right.lossless
  | .unaryOp _ operand => operand.lossless
  | .boolOp _ values => allLossless values
  | .compare left comparisons => left.lossless && comparisonsLossless comparisons
  | .call func args keywords => keepsArguments func args keywords && func.lossless &&
      allLossless args && keywordsLossless keywords
  | .attribute value _ => value.lossless
  | .subscript value idx => value.lossless && idx.lossless
  | .slice lower upper step => optionLossless lower && optionLossless upper &&
      optionLossless step
  | .list elts => allLossless elts
  | .tuple elts => allLossless elts
  | .dict entries => entriesLossless entries
  | _ => true

def PyExpr.allLossless : List PyExpr → Bool
  | [] => true
  | expr :: exprs => expr.lossless && allLossless exprs

def PyExpr.optionLossless : Option PyExpr → Bool
  | none => true
  | some expr => expr.lossless

def PyExpr.comparisonsLossless : List (PyCmpOp × PyExpr) → Bool
  | [] => true
  | (_, expr) :: comparisons => expr.lossless && comparisonsLossless comparisons

def PyExpr.keywordsLossless : List (Option String × PyExpr) → Bool
  | [] => true
  | (_, expr) :: keywords => expr.lossless && keywordsLossless keywords

def PyExpr.entriesLossless : List (Option PyExpr × PyExpr) → Bool
  | [] => true
  | (key, value) :: entries => key.isSome && optionLossless key && value.lossless &&
      entriesLossless entries
end

mutual
/-- No expression loses anything, no loop has an `else` block, and an `if` at the start of an
`else` block is all of it. -/
def PyStmt.lossless : PyStmt → Bool
  | .assign _ value => value.lossless
  | .if_ test body orelse => test.lossless && PyStmt.allLossless body &&
      PyStmt.elseLossless orelse
  | .for_ _ iter body orelse => iter.lossless && PyStmt.allLossless body && orelse.isEmpty
  | .assert test msg => test.lossless && optionLossless msg
  | .expr value => value.lossless
  | _ => true

def PyStmt.allLossless : List PyStmt → Bool
  | [] => true
  | stmt :: stmts => stmt.lossless && PyStmt.allLossless stmts

def PyStmt.elseLossless : List PyStmt → Bool
  | [] => true
  | .if_ test body orelse :: stmts => stmts.isEmpty && test.lossless &&
      PyStmt.allLossless body && PyStmt.elseLossless orelse
  | stmt :: stmts => stmt.lossless && PyStmt.allLossless stmts
end

/-! ### Nothing lost in what represents -/

attribute [local simp] PyExpr.lossless PyExpr.allLossless PyExpr.keywordsLossless keepsArguments
  optionLossless comparisonsLossless entriesLossless

mutual
theorem Represents.lossless {e : PyExpr} {e' : Expr} : Represents e e' → e.lossless = true
  | .none | .bool _ | .int _ | .float _ | .str _ | .name _ => by simp
  | .binOp hl _ hr => by simp [hl.lossless, hr.lossless]
  | .neg h | .pos h | .invert h | .not h => by simp [h.lossless]
  | .boolOp _ hf hr => by simp [hf.lossless, hr.lossless]
  | .compare hl hc => by simp [hl.lossless, hc.lossless]
  | .builtin _ h => by simp [h.lossless]
  | .call hd hk => by
    simp [hd.lossless, hk.lossless]
  | .callKeywords hk => by
    simp [hk.lossless]
  | .parallel h => by
    simp [h.lossless]
  | .parallelList h => by
    simp [h.lossless]
  | .submitJob ho hc => by
    simp [ho.lossless, hc.lossless]
  | .rangeStop h => by
    simp [h.lossless]
  | .rangeStart hs h => by
    simp [hs.lossless, h.lossless]
  | .rangeStep hs h hp => by
    simp [hs.lossless, h.lossless, hp.lossless]
  | .methodCall _ hv ha => by
    simp [hv.lossless, ha.lossless]
  | .attribute _ h => by simp [h.lossless]
  | .index hv hi => by simp [hv.lossless, hi.lossless]
  | .subscript hv hl hu hs => by
    simp [hv.lossless, hl.lossless, hu.lossless, hs.lossless]
  | .slice hl hu hs => by simp [hl.lossless, hu.lossless, hs.lossless]
  | .list h | .tuple h => by simp [h.lossless]
  | .dict h => by simp [h.lossless]

theorem RepresentsAll.lossless {es : List PyExpr} {es' : List Expr} :
    RepresentsAll es es' → allLossless es = true
  | .nil => by simp
  | .cons h hs => by simp [h.lossless, hs.lossless]

theorem RepresentsOption.lossless {o : Option PyExpr} {o' : Option Expr} :
    RepresentsOption o o' → optionLossless o = true
  | .none => by simp
  | .some h => by simp [h.lossless]

theorem RepresentsComparisons.lossless {cs : List (PyCmpOp × PyExpr)}
    {cs' : List (CmpOp × Expr)} :
    RepresentsComparisons cs cs' → comparisonsLossless cs = true
  | .nil => by simp
  | .cons _ h hs => by simp [h.lossless, hs.lossless]

theorem RepresentsKeywords.lossless {ks : List (Option String × PyExpr)}
    {ks' : List (String × Expr)} :
    RepresentsKeywords ks ks' → keywordsLossless ks = true
  | .nil => by simp
  | .cons _ h hs => by simp [h.lossless, hs.lossless]

theorem RepresentsEntries.lossless {ds : List (Option PyExpr × PyExpr)}
    {ds' : List (Expr × Expr)} :
    RepresentsEntries ds ds' → entriesLossless ds = true
  | .nil => by simp
  | .cons hk hv hs => by
    simp [hk.lossless, hv.lossless, hs.lossless]
end

end Codegg.ToolProgram
