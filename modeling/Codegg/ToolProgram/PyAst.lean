import Codegg.ToolProgram.Ast

/-!
# The syntax tree of Python

What the Python parser hands over. The operators of a comparison come with their
operands, and the keys of a dictionary with its values. A node of a kind that the
language does not have is refused without a look at its parts, so only its kind is kept.
-/
namespace Codegg.ToolProgram

inductive PyConstant
  | none
  | bool (value : Bool)
  | int (value : ℤ)
  | float (literal : FloatLiteral)
  | str (value : String)
  | bytes
  | tuple
  | complex
  | ellipsis

inductive PyOperator
  | add | sub | mult | div | floorDiv | mod | pow | matMult | bitOr | bitXor | bitAnd | lShift
  | rShift
  deriving DecidableEq, Repr

inductive PyUnaryOp
  | uSub | uAdd | invert | not
  deriving DecidableEq, Repr

inductive PyBoolOp
  | and | or
  deriving DecidableEq, Repr

inductive PyCmpOp
  | eq | notEq | lt | ltE | gt | gtE | is | isNot | in_ | notIn
  deriving DecidableEq, Repr

/-- Kinds of expressions that the language does not have. -/
inductive UnsupportedExpr
  | set | namedExpr | lambda | ifExp | listComp | setComp | dictComp | generatorExp | await
  | yield | yieldFrom | formattedValue | joinedStr | starred
  deriving DecidableEq, Repr

inductive PyExpr
  | constant (value : PyConstant)
  | name (id : String)
  | binOp (left : PyExpr) (op : PyOperator) (right : PyExpr)
  | unaryOp (op : PyUnaryOp) (operand : PyExpr)
  | boolOp (op : PyBoolOp) (values : List PyExpr)
  | compare (left : PyExpr) (comparisons : List (PyCmpOp × PyExpr))
  /-- A keyword without a name is `**value`. -/
  | call (func : PyExpr) (args : List PyExpr) (keywords : List (Option String × PyExpr))
  | attribute (value : PyExpr) (attr : String)
  | subscript (value slice : PyExpr)
  | slice (lower upper step : Option PyExpr)
  | list (elts : List PyExpr)
  | tuple (elts : List PyExpr)
  /-- An entry without a key is `**value`. -/
  | dict (entries : List (Option PyExpr × PyExpr))
  | unsupported (kind : UnsupportedExpr)

/-- Kinds of statements that the language does not have. -/
inductive UnsupportedStmt
  | annAssign | while_ | return_ | import_ | importFrom | functionDef | asyncFunctionDef
  | classDef | try_ | tryStar | raise | delete | global | nonlocal | with_ | asyncWith | match_
  | break_ | continue_ | augAssign | typeAlias | asyncFor
  deriving DecidableEq, Repr

inductive PyStmt
  | assign (targets : List PyExpr) (value : PyExpr)
  | if_ (test : PyExpr) (body orelse : List PyStmt)
  | for_ (target iter : PyExpr) (body orelse : List PyStmt)
  | assert (test : PyExpr) (msg : Option PyExpr)
  | expr (value : PyExpr)
  | pass
  | unsupported (kind : UnsupportedStmt)

/-- What the parser returns for a source text. -/
inductive PyMod
  | module (body : List PyStmt)
  | interactive
  | expression
  | functionType

end Codegg.ToolProgram
