import Codegg.ToolProgram.Json

/-!
# Program values

The values of a tool program and the operations of the interpreter on them.
Integers are unbounded here and every operation checks the 64-bit range, as the
checked operations of the interpreter do.
-/
namespace Codegg.ToolProgram

open Codegg.Library FloatBits

inductive InterpreterError
  | budgetExceeded (msg : String)
  | typeError (msg : String)
  | indexError (msg : String)
  | keyError (msg : String)
  | divisionByZero
  | brokerError (msg : String)
  | replayDivergence (msg : String)
  | cancelled
  | internalError (msg : String)
  deriving DecidableEq, Repr

inductive FailureClass
  | validation
  | manifestDrift
  | authorityNarrowed
  | schemaMismatch
  | transientBackend
  | timeout
  | stall
  | cancelled
  | storage
  | replayDivergence
  | budgetExhausted
  | execution
  | internalPanic
  deriving DecidableEq, Repr

namespace InterpreterError

def failureClass : InterpreterError → FailureClass
  | budgetExceeded _ => .budgetExhausted
  | typeError _ => .execution
  | indexError _ => .execution
  | keyError _ => .execution
  | divisionByZero => .execution
  | brokerError _ => .transientBackend
  | replayDivergence _ => .execution
  | cancelled => .cancelled
  | internalError _ => .internalPanic

def display : InterpreterError → String
  | budgetExceeded msg => "budget exceeded: " ++ msg
  | typeError msg => "type error: " ++ msg
  | indexError msg => "index error: " ++ msg
  | keyError msg => "key error: " ++ msg
  | divisionByZero => "division by zero"
  | brokerError msg => "broker error: " ++ msg
  | replayDivergence msg => "replay divergence: " ++ msg
  | cancelled => "cancelled"
  | internalError msg => "internal error: " ++ msg

end InterpreterError

/-- How the runtime prints values; taken from its libraries. -/
structure Rendering where
  /-- Length of the compact JSON text of a value. -/
  jsonBytes : Json → ℕ
  displayFloat : FloatBits → String

inductive ProgramValue
  | none
  | bool (b : Bool)
  | int (i : ℤ)
  | float (f : FloatBits)
  | string (s : String)
  | list (items : List ProgramValue)
  | dict (pairs : List (ProgramValue × ProgramValue))
  /-- What a tool returned, opaque to the program. -/
  | toolResult (value : Json)

/-- The 64-bit signed range. -/
def inI64 (i : ℤ) : Bool := decide (-2 ^ 63 ≤ i) && decide (i < 2 ^ 63)

/-- A signed integer read as an unsigned index. -/
def asUsize (i : ℤ) : ℕ := (i % 2 ^ 64).toNat

theorem asUsize_natCast {n : ℕ} (h : n < 2 ^ 64) : asUsize n = n := by
  unfold asUsize
  omega

def overflowErr (op : String) : InterpreterError :=
  .typeError ("integer overflow in " ++ op)

/-- The result of a checked operation. -/
def checked (op : String) (i : ℤ) : Except InterpreterError ProgramValue :=
  if inI64 i then .ok (.int i) else .error (overflowErr op)

/-- The digits of a number after its sign. -/
def parseDigits (negative : Bool) : List Char → ℤ → Except String ℤ
  | [], acc => .ok acc
  | c :: cs, acc =>
    if c.isDigit then
      let digit : ℤ := (c.toNat - '0'.toNat : ℕ)
      let next := if negative then acc * 10 - digit else acc * 10 + digit
      if inI64 next then parseDigits negative cs next
      else if negative then .error "number too small to fit in target type"
      else .error "number too large to fit in target type"
    else .error "invalid digit found in string"

/-- Decimal parsing of a 64-bit integer. -/
def parseI64 (s : String) : Except String ℤ :=
  match s.toList with
  | [] => .error "cannot parse integer from empty string"
  | ['+'] => .error "invalid digit found in string"
  | ['-'] => .error "invalid digit found in string"
  | '+' :: cs => parseDigits false cs 0
  | '-' :: cs => parseDigits true cs 0
  | cs => parseDigits false cs 0

namespace ProgramValue

def discriminant : ProgramValue → ℕ
  | none => 0
  | bool _ => 1
  | int _ => 2
  | float _ => 3
  | string _ => 4
  | list _ => 5
  | dict _ => 6
  | toolResult _ => 7

/-- The debug text of a value's discriminant, as error messages show it. -/
def kindText (v : ProgramValue) : String := "Discriminant(" ++ toString v.discriminant ++ ")"

mutual
/-- Approximate byte size for budget accounting. -/
def byteSize (r : Rendering) : ProgramValue → ℕ
  | none => 1
  | bool _ => 1
  | int _ => 8
  | float _ => 8
  | string s => s.utf8ByteSize + 16
  | list items => 16 + itemBytes r items
  | dict pairs => 16 + pairBytes r pairs
  | toolResult value => r.jsonBytes value + 16

def itemBytes (r : Rendering) : List ProgramValue → ℕ
  | [] => 0
  | item :: items => byteSize r item + itemBytes r items

def pairBytes (r : Rendering) : List (ProgramValue × ProgramValue) → ℕ
  | [] => 0
  | (key, value) :: pairs => byteSize r key + byteSize r value + pairBytes r pairs
end

mutual
/-- Convert to a JSON value for broker input. Entries whose key is not a string
are left out, and so are doubles that JSON cannot represent. -/
def toJson : ProgramValue → Json
  | none => .null
  | bool b => .bool b
  | int i => .number (.ofInt i)
  | float f => if h : f.isFinite = true then .number (.float f h) else .null
  | string s => .string s
  | list items => .array (itemsToJson items)
  | dict pairs => .object (pairsToJson pairs [])
  | toolResult value => value

def itemsToJson : List ProgramValue → List Json
  | [] => []
  | item :: items => toJson item :: itemsToJson items

/-- Add the entries to a map, from left to right. -/
def pairsToJson : List (ProgramValue × ProgramValue) → List (String × Json) →
    List (String × Json)
  | [], fields => fields
  | (.string key, value) :: pairs, fields =>
    pairsToJson pairs (Json.insertField key (toJson value) fields)
  | _ :: pairs, fields => pairsToJson pairs fields
end

def isFalsy : ProgramValue → Bool
  | none => true
  | bool b => !b
  | int i => decide (i = 0)
  | float f => f.eq .zero
  | string s => decide (s = "")
  | list items => items.isEmpty
  | dict pairs => pairs.isEmpty
  | toolResult value => value.isNull

/-- Length for the `len()` builtin; of a string, its bytes. -/
def length : ProgramValue → Except InterpreterError ℕ
  | string s => .ok s.utf8ByteSize
  | list items => .ok items.length
  | dict pairs => .ok pairs.length
  | v => .error (.typeError ("len() not supported for " ++ v.kindText))

def display (r : Rendering) : ProgramValue → String
  | none => "None"
  | bool b => if b then "true" else "false"
  | int i => toString i
  | float f => r.displayFloat f
  | string s => s
  | list _ => "[...]"
  | dict _ => "\x7b...\x7d"
  | toolResult _ => "<tool_result>"

/-- The `int()` builtin. -/
def toInt : ProgramValue → Except InterpreterError ℤ
  | int i => .ok i
  | float f => .ok f.toInt
  | string s =>
    match parseI64 s with
    | .ok i => .ok i
    | .error e => .error (.typeError e)
  | bool b => .ok (if b then 1 else 0)
  | v => .error (.typeError ("int() not supported for " ++ v.kindText))

/-- The items a `for` loop visits. -/
def iterableToVec : ProgramValue → Except InterpreterError (List ProgramValue)
  | list items => .ok items
  | string s => .ok (s.toList.map fun c => string (String.singleton c))
  | dict pairs => .ok (pairs.map Prod.fst)
  | v => .error (.typeError ("cannot iterate over " ++ v.kindText))

/-! ### Arithmetic -/

def addValues : ProgramValue → ProgramValue → Except InterpreterError ProgramValue
  | int l, int r => checked "addition" (l + r)
  | float l, float r => .ok (float (l.add r))
  | int l, float r => .ok (float ((ofInt l).add r))
  | float l, int r => .ok (float (l.add (ofInt r)))
  | string l, string r => .ok (string (l ++ r))
  | list l, list r => .ok (list (l ++ r))
  | l, r => .error (.typeError ("cannot add " ++ l.kindText ++ " and " ++ r.kindText))

def toNumbers : ProgramValue → ProgramValue → Except InterpreterError (ℤ × ℤ)
  | int l, int r => .ok (l, r)
  | l, r =>
    .error (.typeError ("cannot apply arithmetic to " ++ l.kindText ++ " and " ++ r.kindText))

end ProgramValue

inductive IrBinOp
  | add | sub | mul | div | floorDiv | mod | pow | bitOr | bitXor | bitAnd | lShift | rShift
  deriving DecidableEq, Repr

inductive IrUnaryOp
  | neg | pos | invert
  deriving DecidableEq, Repr

inductive IrCmpOp
  | eq | notEq | lt | ltE | gt | gtE | in_ | notIn
  deriving DecidableEq, Repr

namespace ProgramValue

/-- A bitwise operation on the two's complement patterns. -/
def bitwise (op : BitVec 64 → BitVec 64 → BitVec 64) (l r : ℤ) : ProgramValue :=
  int (op (BitVec.ofInt 64 l) (BitVec.ofInt 64 r)).toInt

/-- Shift amounts outside the width of the type are rejected. -/
def shift (op : ℤ → ℕ → ℤ) (l r : ℤ) : Except InterpreterError ProgramValue :=
  if 0 ≤ r ∧ r < 64 then .ok (int (op l r.toNat))
  else .error (.typeError ("shift amount out of range: " ++ toString r))

/-- The integer operations; the division cases see a non-zero divisor. -/
def evalIntBinop (kind : IrBinOp) (l r : ℤ) : Except InterpreterError ProgramValue :=
  match kind with
  | .add => checked "addition" (l + r)
  | .sub => checked "subtraction" (l - r)
  | .mul => checked "multiplication" (l * r)
  | .div =>
    if r = 0 then .error .divisionByZero
    else .ok (float ((ofInt l).div (ofInt r)))
  | .floorDiv => if r = 0 then .error .divisionByZero else checked "division" (l.tdiv r)
  | .mod =>
    if r = 0 then .error .divisionByZero
    -- The remainder of the smallest integer by -1 overflows with the quotient.
    else if inI64 (l.tdiv r) then .ok (int (l.tmod r))
    else .error (overflowErr "modulo")
  | .pow =>
    if 0 ≤ r ∧ r ≤ 1024 then checked "exponentiation" (l ^ r.toNat)
    else .error (.typeError ("pow exponent out of supported range: " ++ toString r))
  | .bitOr => .ok (bitwise (· ||| ·) l r)
  | .bitXor => .ok (bitwise (· ^^^ ·) l r)
  | .bitAnd => .ok (bitwise (· &&& ·) l r)
  -- A left shift drops the bits that leave the word.
  | .lShift => shift (fun l n => (l * 2 ^ n).bmod (2 ^ 64)) l r
  | .rShift => shift (fun l n => l / 2 ^ n) l r

def evalBinop (kind : IrBinOp) (left right : ProgramValue) :
    Except InterpreterError ProgramValue :=
  match kind with
  | .add => addValues left right
  | kind =>
    match toNumbers left right with
    | .ok (l, r) => evalIntBinop kind l r
    | .error e => .error e

def evalUnaryop (kind : IrUnaryOp) (operand : ProgramValue) :
    Except InterpreterError ProgramValue :=
  match kind, operand with
  | .neg, int i => checked "negation" (-i)
  | .neg, float f => .ok (float f.neg)
  | .neg, v => .error (.typeError ("cannot negate " ++ v.kindText))
  | .pos, int i => .ok (int i)
  | .pos, float f => .ok (float f)
  | .pos, v => .error (.typeError ("cannot apply positive to " ++ v.kindText))
  | .invert, int i => .ok (int (-i - 1))
  | .invert, v => .error (.typeError ("cannot invert " ++ v.kindText))

/-! ### Comparison -/

mutual
/-- Equality as programs see it: dictionaries and tool results are never equal
to anything. -/
def valuesEqual : ProgramValue → ProgramValue → Bool
  | none, none => true
  | bool l, bool r => decide (l = r)
  | int l, int r => decide (l = r)
  | float l, float r => l.eq r
  | int l, float r => (ofInt l).eq r
  | float l, int r => l.eq (ofInt r)
  | string l, string r => decide (l = r)
  | list l, list r => itemsEqual l r
  | _, _ => false

def itemsEqual : List ProgramValue → List ProgramValue → Bool
  | [], [] => true
  | l :: ls, r :: rs => valuesEqual l r && itemsEqual ls rs
  | _, _ => false
end

def valueCmp : ProgramValue → ProgramValue → Except InterpreterError Ordering
  | int l, int r => .ok (compare l r)
  | float l, float r => .ok ((l.partialCmp r).getD .eq)
  | int l, float r => .ok (((ofInt l).partialCmp r).getD .eq)
  | float l, int r => .ok ((l.partialCmp (ofInt r)).getD .eq)
  | string l, string r => .ok (compare l r)
  | l, r => .error (.typeError ("cannot compare " ++ l.kindText ++ " and " ++ r.kindText))

/-- The `in` operator. -/
def contains (left : ProgramValue) : ProgramValue → Bool
  | list items => items.any (valuesEqual left)
  | dict pairs => pairs.any fun pair => valuesEqual left pair.1
  | string s =>
    match left with
    | string sub => decide (sub.toList <:+: s.toList)
    | _ => false
  | _ => false

def evalCompare (kind : IrCmpOp) (left right : ProgramValue) : Except InterpreterError Bool :=
  match kind with
  | .eq => .ok (valuesEqual left right)
  | .notEq => .ok (!valuesEqual left right)
  | .lt => (valueCmp left right).map fun ord => decide (ord = .lt)
  | .ltE => (valueCmp left right).map fun ord => decide (ord = .lt ∨ ord = .eq)
  | .gt => (valueCmp left right).map fun ord => decide (ord = .gt)
  | .gtE => (valueCmp left right).map fun ord => decide (ord = .gt ∨ ord = .eq)
  | .in_ => .ok (contains left right)
  | .notIn => .ok (!contains left right)

/-! ### Indexing -/

/-- A negative index counts from the end; one that is too small wraps around. -/
def wrapIndex (len : ℕ) (i : ℤ) : ℕ :=
  if i < 0 then asUsize (len + i) else asUsize i

def indexOutOfRange (idx : ℕ) : InterpreterError :=
  .indexError ("index " ++ toString idx ++ " out of range")

def evalIndex : ProgramValue → ProgramValue → Except InterpreterError ProgramValue
  | list items, int i =>
    match items[wrapIndex items.length i]? with
    | some item => .ok item
    | .none => .error (indexOutOfRange (wrapIndex items.length i))
  | dict pairs, string key =>
    match pairs.find? (fun pair => match pair.1 with
        | string s => decide (s = key)
        | _ => false) with
    | some pair => .ok pair.2
    | .none => .error (.keyError key)
  -- From the end of a string, the index counts bytes and selects a character.
  | string s, int i =>
    match s.toList[wrapIndex s.utf8ByteSize i]? with
    | some c => .ok (string (String.singleton c))
    | .none => .error (indexOutOfRange (wrapIndex s.utf8ByteSize i))
  | collection, key =>
    .error (.typeError ("cannot index " ++ collection.kindText ++ " with " ++ key.kindText))

/-- A slice bound; `None` and values that are no integer mean the default. -/
def sliceBound (default : ℕ) : ProgramValue → Except InterpreterError ℕ
  | int i =>
    if i < 0 then
      .error (.indexError ("negative slice index " ++ toString i ++ " is not supported"))
    else .ok i.toNat
  | _ => .ok default

/-- Every `step`-th item from `start` up to `stop`. -/
def sliceItems {α : Type*} (start stop step : ℕ) (items : List α) : List α :=
  (items.zipIdx.filter fun p =>
    decide (start ≤ p.2) && decide (p.2 < stop) && decide ((p.2 - start) % step = 0)).map Prod.fst

def sliceBounds (len : ℕ) (start stop step : ProgramValue) :
    Except InterpreterError (ℕ × ℕ × ℕ) := do
  let startIdx ← sliceBound 0 start
  let stopIdx ← sliceBound len stop
  let stepVal ← sliceBound 1 step
  return (startIdx, stopIdx, max stepVal 1)

def evalSlice (collection start stop step : ProgramValue) :
    Except InterpreterError ProgramValue :=
  match collection with
  | list items =>
    match sliceBounds items.length start stop step with
    | .ok (i, j, k) => .ok (list (sliceItems i j k items))
    | .error e => .error e
  | string s =>
    match sliceBounds s.toList.length start stop step with
    | .ok (i, j, k) => .ok (string (String.ofList (sliceItems i j k s.toList)))
    | .error e => .error e
  | v => .error (.typeError ("cannot slice " ++ v.kindText))

/-! ### Ranges -/

/-- The number of items of a range. -/
def rangeCount (start stop step : ℤ) : ℕ :=
  let span := if step > 0 then stop - start else start - stop
  if span > 0 then ((span - 1) / |step| + 1).toNat else 0

/-- The items of a range. The successor of every item has to be representable,
that of the last one too. -/
def rangeItems (step : ℤ) : ℕ → ℤ → Except InterpreterError (List ProgramValue)
  | 0, _ => .ok []
  | n + 1, v =>
    if inI64 (v + step) then (rangeItems step n (v + step)).map (int v :: ·)
    else .error (.typeError "range() bounds overflow i64")

end ProgramValue

end Codegg.ToolProgram
