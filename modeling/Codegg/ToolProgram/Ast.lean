import Codegg.ToolProgram.Ir

/-!
# The source language

The normalized syntax tree of a tool program. Source spans are left out: they
take no part in compilation. The parser produces the operators of a comparison
together with its operands and the keys of a dictionary together with its
values, so these are lists of pairs here.
-/
namespace Codegg.ToolProgram

open Codegg.Library

inductive BinOpKind
  | add | sub | mul | div | floorDiv | mod | pow | matMul | bitOr | bitXor | bitAnd | lShift
  | rShift
  deriving DecidableEq, Repr

inductive UnaryOpKind
  | neg | pos | invert
  deriving DecidableEq, Repr

inductive CmpOp
  | eq | notEq | lt | ltE | gt | gtE | in_ | notIn
  deriving DecidableEq, Repr

/-- The built-in functions of one argument. -/
inductive BuiltinFunc
  | len | str | int | bool
  deriving DecidableEq, Repr

/-- The value of a float literal. Its text has no sign and is no NaN. -/
structure FloatLiteral where
  value : FloatBits
  nonneg : value.isNegative = false
  number : value.isNaN = false

inductive Expr
  | noneLiteral
  | boolLiteral (value : Bool)
  | intLiteral (value : ℤ)
  | floatLiteral (literal : FloatLiteral)
  | stringLiteral (value : String)
  | name (id : String)
  | binOp (left : Expr) (op : BinOpKind) (right : Expr)
  | unaryOp (op : UnaryOpKind) (operand : Expr)
  | compare (left : Expr) (comparisons : List (CmpOp × Expr))
  | boolAnd (left right : Expr)
  | boolOr (left right : Expr)
  | boolNot (operand : Expr)
  /-- `value[idx]` -/
  | index (value idx : Expr)
  /-- `value[start:stop:step]` -/
  | slice (value : Expr) (start stop step : Option Expr)
  | callBuiltin (func : BuiltinFunc) (arg : Expr)
  | methodCall (object : Expr) (method : String) (args : List Expr)
  | submitJobExpr (op config : Expr)
  | toolCallExpr (descriptor : Expr) (kwargs : List (String × Expr))
  | parallelExpr (descriptors : List Expr)
  | list (elements : List Expr)
  | tuple (elements : List Expr)
  | dict (entries : List (Expr × Expr))
  | parenthesized (inner : Expr)
  | range (start : Option Expr) (stop : Expr) (step : Option Expr)

inductive Stmt
  | assign (targets : List String) (value : Expr)
  | if_ (test : Expr) (body : List Stmt) (elifClauses : List (Expr × List Stmt))
    (elseBody : Option (List Stmt))
  | for_ (target : String) (iter : Expr) (body : List Stmt)
  | assert (test : Expr) (msg : Option Expr)
  | toolCall (target : String) (descriptor : Expr) (kwargs : List (String × Expr))
  | parallel (target : String) (descriptors : List Expr)
  | submitJob (target : String) (op config : Expr)
  | emit (value : Expr)
  | fail (reason : Option Expr)
  | pass

/-- A source file. -/
structure Program where
  body : List Stmt

/-! ### Operators -/

/-- The operator of the intermediate representation; there is no matrix product. -/
def BinOpKind.toIr : BinOpKind → IrBinOp
  | add => .add
  | sub => .sub
  | mul => .mul
  | div => .div
  | floorDiv => .floorDiv
  | mod => .mod
  | pow => .pow
  | matMul => .mul
  | bitOr => .bitOr
  | bitXor => .bitXor
  | bitAnd => .bitAnd
  | lShift => .lShift
  | rShift => .rShift

def UnaryOpKind.toIr : UnaryOpKind → IrUnaryOp
  | neg => .neg
  | pos => .pos
  | invert => .invert

def CmpOp.toIr : CmpOp → IrCmpOp
  | eq => .eq
  | notEq => .notEq
  | lt => .lt
  | ltE => .ltE
  | gt => .gt
  | gtE => .gtE
  | in_ => .in_
  | notIn => .notIn

def BuiltinFunc.toIr : BuiltinFunc → IrOp
  | len => .len
  | str => .str
  | int => .int
  | bool => .bool

end Codegg.ToolProgram
