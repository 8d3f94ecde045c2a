import Codegg.Library.StateError
import Codegg.ToolProgram.Compiler

/-!
# The code of a program

Once the pools are known, the code of an expression is a function of it, and the
code of a statement a function of it and of its position. The compiler, with all
its patching, emits exactly this code. Here one can see which jumps are left at
`0`: those before an `elif` clause, and the tests of all clauses but the last.
-/
namespace Codegg.ToolProgram

open Codegg.Library Pools

namespace Pools

variable (L : Pools)

def string (s : String) : ℕ := L.strings.findIdx fun x => decide (x = s)

def integer (v : ℤ) : ℕ := L.integers.findIdx fun x => decide (x = v)

def float (v : FloatBits) : ℕ := L.floats.findIdx fun x => x.eq v

def slot (name : String) : ℕ := L.locals.findIdx fun x => decide (x = name)

end Pools

/-! ### Code -/

section

variable (L : Pools)

/-- The code of a descriptor with trailing keyword arguments. -/
def mergedCode (kwargs : List (String × Expr)) (descriptor : List IrOp)
    (literal : Option (List IrOp × ℕ)) (overrides : List IrOp) : List IrOp :=
  if kwargs.isEmpty then descriptor
  else
    match literal with
    | some (entries, count) => entries ++ overrides ++ [.makeDict (count + kwargs.length)]
    | none => []

mutual
def exprCode : Expr → List IrOp
  | .noneLiteral => [.loadNone]
  | .boolLiteral value => [if value then .loadTrue else .loadFalse]
  | .intLiteral value => [.loadInt (L.integer value)]
  | .floatLiteral literal => [.loadFloat (L.float literal.value)]
  | .stringLiteral value => [.loadString (L.string value)]
  | .name id =>
    match L.lookupLocal id with
    | some slot => [.loadLocal slot]
    | none => [.loadNone]
  | .binOp left op right => exprCode left ++ exprCode right ++ [.binOp op.toIr]
  | .unaryOp op operand => exprCode operand ++ [.unaryOp op.toIr]
  | .compare left comparisons => exprCode left ++ comparisonsCode comparisons
  | .boolAnd left right => exprCode left ++ exprCode right ++ [.boolAnd]
  | .boolOr left right => exprCode left ++ exprCode right ++ [.boolOr]
  | .boolNot operand => exprCode operand ++ [.boolNot]
  | .index value idx => exprCode value ++ exprCode idx ++ [.index]
  | .slice value start stop step =>
    exprCode value ++ boundCode start ++ boundCode stop ++ boundCode step ++ [.slice]
  | .callBuiltin func arg => exprCode arg ++ [func.toIr]
  | .methodCall object method args =>
    exprCode object ++ exprsCode args ++
      if method = "append" then [.pop] else [.loadString (L.string method), .executeCall]
  | .toolCallExpr descriptor kwargs =>
    mergedCode kwargs (exprCode descriptor) (literalCode descriptor) (kwargsCode kwargs) ++
      [.constructCall, .executeCall]
  | .submitJobExpr op config => exprCode op ++ exprCode config ++ [.executeChildJob]
  | .parallelExpr descriptors =>
    exprsCode descriptors ++ [.parallelStart descriptors.length, .parallelExecute]
  | .list elements => exprsCode elements ++ [.makeList elements.length]
  | .tuple elements => exprsCode elements ++ [.makeTuple elements.length]
  | .dict entries => entriesCode entries ++ [.makeDict entries.length]
  | .range start stop step =>
    rangeBoundCode 0 start ++ exprCode stop ++ rangeBoundCode 1 step
  | .parenthesized inner => exprCode inner

def exprsCode : List Expr → List IrOp
  | [] => []
  | e :: es => exprCode e ++ exprsCode es

def comparisonsCode : List (CmpOp × Expr) → List IrOp
  | [] => []
  | (op, e) :: comparisons => exprCode e ++ [.compare op.toIr] ++ comparisonsCode comparisons

def entriesCode : List (Expr × Expr) → List IrOp
  | [] => []
  | (key, value) :: entries => exprCode key ++ exprCode value ++ entriesCode entries

def kwargsCode : List (String × Expr) → List IrOp
  | [] => []
  | (name, value) :: kwargs => [.loadString (L.string name)] ++ exprCode value ++ kwargsCode kwargs

def boundCode : Option Expr → List IrOp
  | none => [.loadNone]
  | some e => exprCode e

def rangeBoundCode (default : ℤ) : Option Expr → List IrOp
  | none => [.loadInt (L.integer default)]
  | some e => exprCode e

def literalCode : Expr → Option (List IrOp × ℕ)
  | .dict entries => some (entriesCode entries, entries.length)
  | _ => none
end

def descriptorCode (descriptor : Expr) (kwargs : List (String × Expr)) : List IrOp :=
  mergedCode kwargs (exprCode L descriptor) (literalCode L descriptor) (kwargsCode L kwargs)

/-- Where the code after the tests of an `if` starts whose branches so far end at `q`. -/
def elseStart (q : ℕ) : Option (List Stmt) → ℕ
  | none => q
  | some _ => q + 1

def targetsCode (many : Bool) : List String → List IrOp
  | [] => []
  | target :: targets =>
    (if many then [.dup, .storeLocal (L.slot target)] else [.storeLocal (L.slot target)]) ++
      targetsCode many targets

mutual
/-- The code of a statement that starts at `p`. -/
def stmtCode (p : ℕ) : Stmt → List IrOp
  | .assign targets value => exprCode L value ++ targetsCode L (targets.length > 1) targets
  | .if_ test body elifClauses elseBody =>
    let testCode := exprCode L test
    let bodyCode := stmtsCode (p + testCode.length + 1) body
    let q := p + testCode.length + 1 + bodyCode.length
    let q' := q + (clausesCode 0 q elifClauses).length
    testCode ++ [.jumpIfFalse (if elifClauses.isEmpty && elseBody.isNone then q
      else lastTest q elifClauses)] ++ bodyCode ++
        clausesCode (elseStart q' elseBody) q elifClauses ++ elseCode q' elseBody
  | .for_ target iter body =>
    let iterCode := exprCode L iter
    let q := p + iterCode.length
    let bodyCode := stmtsCode (q + 3) body
    iterCode ++ [.forLoopStart (q + 1) (q + 3 + bodyCode.length + 2), .forLoopIter,
      .storeLocal (L.slot target)] ++ bodyCode ++ [.checkpoint, .forLoopNext q (q + 3)]
  | .assert test msg =>
    exprCode L test ++
      (match msg with
        | some m => exprCode L m
        | none => [.loadString (L.string "assertion failed")]) ++ [.pop]
  | .toolCall target descriptor kwargs =>
    [.checkpoint] ++ descriptorCode L descriptor kwargs ++
      [.constructCall, .executeCall, .checkpoint, .storeLocal (L.slot target)]
  | .submitJob target op config =>
    [.checkpoint] ++ exprCode L op ++ exprCode L config ++
      [.executeChildJob, .checkpoint, .storeLocal (L.slot target)]
  | .parallel target descriptors =>
    exprsCode L descriptors ++ [.checkpoint, .parallelStart descriptors.length, .parallelExecute,
      .checkpoint, .storeLocal (L.slot target)]
  | .emit value => exprCode L value ++ [.checkpoint, .emit]
  | .fail reason => boundCode L reason ++ [.checkpoint, .fail]
  | .pass => []

def stmtsCode (p : ℕ) : List Stmt → List IrOp
  | [] => []
  | stmt :: stmts => stmtCode p stmt ++ stmtsCode (p + (stmtCode p stmt).length) stmts

/-- The code of the `elif` clauses of an `if` whose first body ends at `q`. The last
test jumps to `falseTarget`. -/
def clausesCode (falseTarget q : ℕ) : List (Expr × List Stmt) → List IrOp
  | [] => []
  | (test, body) :: clauses =>
    let testCode := exprCode L test
    let bodyCode := stmtsCode (q + testCode.length + 2) body
    [.jump 0] ++ testCode ++ [.jumpIfFalse (if clauses.isEmpty then falseTarget else 0)] ++
      bodyCode ++ clausesCode falseTarget (q + testCode.length + 2 + bodyCode.length) clauses

def elseCode (q : ℕ) : Option (List Stmt) → List IrOp
  | none => []
  | some body => [.jump (q + 1 + (stmtsCode (q + 1) body).length)] ++ stmtsCode (q + 1) body

/-- Where the first test of an `if` jumps to: the test of the last clause, or the
`else` body. -/
def lastTest (q : ℕ) : List (Expr × List Stmt) → ℕ
  | [] => q + 1
  | (test, body) :: clauses =>
    if clauses.isEmpty then q + 1
    else lastTest (q + (exprCode L test).length + 2 +
      (stmtsCode (q + (exprCode L test).length + 2) body).length) clauses
end

/-- The code of a program. -/
def programCode (program : Program) : List IrOp := stmtsCode L 0 program.body ++ [.return_]

end

/-! ### What the compiler emits -/

/-- The constants and locals that an instruction names are there. -/
def IrOp.Resolved (L : Pools) : IrOp → Prop
  | .loadInt idx => idx < L.integers.length
  | .loadFloat idx => idx < L.floats.length
  | .loadString idx => idx < L.strings.length
  | .storeLocal slot => slot < L.locals.length
  | _ => True

namespace Pools

/-- Pools to which constants may have been added. -/
structure Extends (L L' : Pools) : Prop where
  strings : L.strings <+: L'.strings
  integers : L.integers <+: L'.integers
  floats : L.floats <+: L'.floats
  locals : L'.locals = L.locals

theorem Extends.refl (L : Pools) : L.Extends L :=
  ⟨List.prefix_rfl, List.prefix_rfl, List.prefix_rfl, rfl⟩

theorem Extends.trans {L L' L'' : Pools} (h : L.Extends L') (h' : L'.Extends L'') :
    L.Extends L'' :=
  ⟨h.strings.trans h'.strings, h.integers.trans h'.integers, h.floats.trans h'.floats,
    h'.locals.trans h.locals⟩

end Pools

/-- A pool keeps the index of what is interned in it. -/
theorem internIn_spec {α : Type} {same : α → α → Bool} {v : α} (hv : same v v = true)
    (pool : List α) :
    pool <+: (internIn same v pool).2 ∧ ∀ pool', (internIn same v pool).2 <+: pool' →
      pool'.findIdx (same · v) = (internIn same v pool).1 ∧
        (internIn same v pool).1 < pool'.length := by
  unfold internIn
  cases h : pool.findIdx? (same · v) with
  | some idx =>
    obtain ⟨hlt, hidx⟩ := List.findIdx?_eq_some_iff_findIdx_eq.mp h
    refine ⟨List.prefix_rfl, ?_⟩
    rintro _ ⟨rest, rfl⟩
    dsimp only
    rw [List.findIdx_append, if_pos (hidx ▸ hlt), List.length_append]
    exact ⟨hidx, by omega⟩
  | none =>
    have hall : ∀ x ∈ pool, same x v = false := List.findIdx?_eq_none_iff.mp h
    refine ⟨List.prefix_append _ _, ?_⟩
    rintro _ ⟨rest, rfl⟩
    have hlen : pool.findIdx (same · v) = pool.length := List.findIdx_eq_length_of_false hall
    have hone : List.findIdx (same · v) [v] = 0 := by simp [hv]
    rw [List.append_assoc, List.findIdx_append, if_neg (by omega), List.findIdx_append, hone]
    simp

/-- What a computation of the compiler has added to the code. -/
structure Emitted (c c' : Compiler) (code : Pools → List IrOp) : Prop where
  grows : c.toPools.Extends c'.toPools
  code_eq : ∀ L, c'.toPools.Extends L → c'.instructions = c.instructions ++ code L
  resolved : ∀ L, c'.toPools.Extends L → ∀ op ∈ code L, op.Resolved L

variable {c c' : Compiler} {jumpPc : ℕ} {clauses : List (Expr × List Stmt)} {body : List Stmt}
  {jumpPcs : List (ℕ × ℕ)}

theorem Emitted.ofEach {code : Pools → List IrOp} (hgrows : c.toPools.Extends c'.toPools)
    (h : ∀ L, c'.toPools.Extends L → c'.instructions = c.instructions ++ code L ∧
      ∀ op ∈ code L, op.Resolved L) : Emitted c c' code :=
  ⟨hgrows, fun L hL => (h L hL).1, fun L hL => (h L hL).2⟩

/-- A computation that emits code depending on the final pools and its position, in a
program with the given locals. -/
def Emits (names : List String) (x : CompileM Unit) (code : Pools → ℕ → List IrOp) : Prop :=
  ∀ c c', c.locals = names → x c = .ok () c' →
    Emitted c c' fun L => code L c.instructions.length

attribute [local simp] exprCode stmtCode clausesCode elseCode

namespace Emits

open Compiler

variable {names : List String} {x y : CompileM Unit} {f g : Pools → ℕ → List IrOp}

theorem congr (h : Emits names x f) (hfg : ∀ L p, L.locals = names → f L p = g L p) :
    Emits names x g := by
  intro c c' hc hx
  obtain ⟨hgrows, hcode, hres⟩ := h c c' hc hx
  have hL : ∀ L, c'.toPools.Extends L →
      f L c.instructions.length = g L c.instructions.length :=
    fun L hL => hfg L _ ((hgrows.trans hL).locals.trans hc)
  refine ⟨hgrows, fun L h => ?_, fun L h => ?_⟩
  · exact (hcode L h).trans (congrArg (c.instructions ++ ·) (hL L h))
  · exact hL L h ▸ hres L h

theorem nothing : Emits names (pure ()) fun _ _ => [] := by
  intro c c' _ h
  cases h
  exact ⟨.refl _, fun _ _ => (List.append_nil _).symm, fun _ _ _ h => by cases h⟩

theorem seq (hx : Emits names x f) (hy : Emits names y g) :
    Emits names (x >>= fun _ => y) fun L p => f L p ++ g L (p + (f L p).length) := by
  intro c c₂ hc h
  cases hx' : x c with
  | error e c₁ =>
    rw [bind_of_error hx'] at h
    cases h
  | ok a c₁ =>
    rw [bind_of_ok hx'] at h
    have h₁ := hx c c₁ hc hx'
    have h₂ := hy c₁ c₂ (h₁.grows.locals.trans hc) h
    refine ⟨h₁.grows.trans h₂.grows, ?_, ?_⟩
    · intro L hL
      have e₁ := h₁.code_eq L (h₂.grows.trans hL)
      have e₂ := h₂.code_eq L hL
      rw [e₂, e₁, List.length_append, List.append_assoc]
    · intro L hL op hop
      have e₁ := h₁.code_eq L (h₂.grows.trans hL)
      rcases List.mem_append.mp hop with hm | hm
      · exact h₁.resolved L (h₂.grows.trans hL) op hm
      · refine h₂.resolved L hL op ?_
        rw [e₁, List.length_append]
        exact hm

theorem throws {e : ToolProgramError} : Emits names (throw e) f := by
  intro c c' _ h
  cases h

theorem push (op : IrOp)
    (h : ∀ L : Pools, L.locals = names → op.Resolved L := by exact fun _ _ => trivial) :
    Emits names (push op) fun _ _ => [op] := by
  intro c c' hc hx
  cases hx
  refine ⟨.refl _, fun _ _ => rfl, fun L hL op' hop => ?_⟩
  rw [List.mem_singleton.mp hop]
  exact h L (hL.locals.trans hc)

/-- Load a constant that is interned in one of the pools. -/
theorem pushInterned {α : Type} (same : α → α → Bool) (pool : Pools → List α) (op : ℕ → IrOp)
    {v : α} {x : CompileM ℕ} (hv : same v v = true)
    (hpool : ∀ L L', L.Extends L' → pool L <+: pool L')
    (hop : ∀ L i, i < (pool L).length → (op i).Resolved L)
    (hx : ∀ c, ∃ c', x c = .ok (internIn same v (pool c.toPools)).1 c' ∧
      c'.instructions = c.instructions ∧ pool c'.toPools = (internIn same v (pool c.toPools)).2 ∧
      (pool c.toPools <+: pool c'.toPools → c.toPools.Extends c'.toPools)) :
    Emits names (x >>= fun idx => Compiler.push (op idx))
      fun L _ => [op ((pool L).findIdx (same · v))] := by
  intro c c₂ _ hc
  obtain ⟨c', hc', hinstr, hnew, hgrows⟩ := hx c
  obtain ⟨hext, hspec⟩ := internIn_spec hv (pool c.toPools)
  rw [bind_of_ok hc'] at hc
  cases hc
  have hidx : ∀ L, c'.toPools.Extends L → (pool L).findIdx (same · v) =
      (internIn same v (pool c.toPools)).1 ∧
        (internIn same v (pool c.toPools)).1 < (pool L).length :=
    fun L hL => hspec (pool L) (hnew ▸ hpool _ _ hL)
  refine ⟨hgrows (hnew ▸ hext), fun L hL => ?_, fun L hL op' hop' => ?_⟩
  · show c'.instructions ++ _ = c.instructions ++ [op ((pool L).findIdx (same · v))]
    rw [hinstr, (hidx L hL).1]
  · rw [List.mem_singleton.mp hop', (hidx L hL).1]
    exact hop L _ (hidx L hL).2

theorem pushString (s : String) :
    Emits names (Compiler.pushString s) fun L _ => [.loadString (L.string s)] :=
  pushInterned (fun x v => decide (x = v)) strings .loadString (decide_eq_true rfl)
    (fun _ _ h => h.strings) (fun _ _ h => h)
    fun _ => ⟨_, rfl, rfl, rfl, fun h => ⟨h, List.prefix_rfl, List.prefix_rfl, rfl⟩⟩

theorem pushInt (v : ℤ) :
    Emits names (Compiler.pushInt v) fun L _ => [.loadInt (L.integer v)] :=
  pushInterned (fun x v => decide (x = v)) integers .loadInt (decide_eq_true rfl)
    (fun _ _ h => h.integers) (fun _ _ h => h)
    fun _ => ⟨_, rfl, rfl, rfl, fun h => ⟨List.prefix_rfl, h, List.prefix_rfl, rfl⟩⟩

theorem pushFloat (literal : FloatLiteral) :
    Emits names (internFloat literal.value >>= fun idx => Compiler.push (.loadFloat idx))
      fun L _ => [.loadFloat (L.float literal.value)] :=
  pushInterned FloatBits.eq floats .loadFloat (FloatBits.eq_self literal.number)
    (fun _ _ h => h.floats) (fun _ _ h => h)
    fun _ => ⟨_, rfl, rfl, rfl, fun h => ⟨List.prefix_rfl, List.prefix_rfl, h, rfl⟩⟩

/-- The locals are those of the program. -/
theorem withLocal {id : String} {k : Option ℕ → CompileM Unit}
    (h : Emits names (k (names.findIdx? fun x => decide (x = id))) f) :
    Emits names (get >>= fun c => k (c.toPools.lookupLocal id)) f := by
  intro c c' hc hx
  rw [get_bind, show c.toPools.lookupLocal id = names.findIdx? fun x => decide (x = id) by
    rw [← hc]; rfl] at hx
  exact h c c' hc hx

theorem withSlot {target : String} {k : ℕ → CompileM Unit}
    (h : (names.findIdx fun x => decide (x = target)) < names.length →
      Emits names (k (names.findIdx fun x => decide (x = target))) f) :
    Emits names (targetSlot target >>= k) f := by
  intro c c' hc hx
  have hread : targetSlot target c = (match names.findIdx? fun x => decide (x = target) with
      | some slot => (pure slot : CompileM ℕ)
      | none => throw (unallocated target)) c := by
    rw [← hc]
    rfl
  cases hl : names.findIdx? fun x => decide (x = target) with
  | none =>
    rw [hl] at hread
    rw [bind_of_error hread] at hx
    cases hx
  | some slot =>
    rw [hl] at hread
    rw [bind_of_ok hread] at hx
    obtain ⟨hlt, hidx⟩ := List.findIdx?_eq_some_iff_findIdx_eq.mp hl
    rw [hidx] at h
    exact h hlt c c' hc hx

theorem pushStore (target : String) :
    Emits names (targetSlot target >>= fun slot => Compiler.push (.storeLocal slot))
      fun L _ => [.storeLocal (L.slot target)] :=
  withSlot fun hlt => (push (.storeLocal _) fun _ hL => hL ▸ hlt).congr fun L _ hL => by
    rw [← hL]
    rfl

/-! ### Expressions -/

theorem ofName (id : String) :
    Emits names (compileExpr (.name id)) fun L _ => exprCode L (.name id) := by
  refine withLocal (k := fun r => match r with
    | some slot => Compiler.push (.loadLocal slot)
    | none => Compiler.push .loadNone) ?_
  have hcode : ∀ L : Pools, L.locals = names → exprCode L (.name id) =
      match names.findIdx? fun x => decide (x = id) with
      | some slot => [.loadLocal slot]
      | none => [.loadNone] := by
    intro L hL
    rw [← hL]
    rfl
  cases hl : names.findIdx? fun x => decide (x = id) with
  | some slot =>
    rw [hl] at hcode
    exact (push (.loadLocal slot)).congr fun L _ hL => (hcode L hL).symm
  | none =>
    rw [hl] at hcode
    exact (push .loadNone).congr fun L _ hL => (hcode L hL).symm

/-- The end of a method call. -/
theorem ofMethod (method : String) :
    Emits names (if method = "append" then Compiler.push .pop
      else if method ∈ calledMethods then do
        Compiler.pushString method
        Compiler.push .executeCall
      else throw (.compile ⟨.illegalAttributeAccess, "unsupported method '" ++ method ++ "'"⟩))
      fun L _ => if method = "append" then [.pop]
        else [.loadString (L.string method), .executeCall] := by
  by_cases happ : method = "append"
  · simp only [if_pos happ]
    exact push .pop
  · simp only [if_neg happ]
    split
    · exact (pushString method).seq (push .executeCall)
    · exact throws

mutual
theorem ofExpr : ∀ e : Expr, Emits names (compileExpr e) fun L _ => exprCode L e
  | .noneLiteral => push .loadNone
  | .boolLiteral value => by
    cases value
    · exact push .loadFalse
    · exact push .loadTrue
  | .intLiteral value => pushInt value
  | .floatLiteral literal => pushFloat literal
  | .stringLiteral value => pushString value
  | .name id => ofName id
  | .binOp left op right =>
    ((ofExpr left).seq ((ofExpr right).seq (push (.binOp op.toIr)))).congr
      fun L p _ => by simp
  | .unaryOp op operand =>
    ((ofExpr operand).seq (push (.unaryOp op.toIr))).congr fun L p _ => by simp
  | .compare left comparisons =>
    ((ofExpr left).seq (ofComparisons comparisons)).congr fun L p _ => by simp
  | .boolAnd left right =>
    ((ofExpr left).seq ((ofExpr right).seq (push .boolAnd))).congr
      fun L p _ => by simp
  | .boolOr left right =>
    ((ofExpr left).seq ((ofExpr right).seq (push .boolOr))).congr
      fun L p _ => by simp
  | .boolNot operand =>
    ((ofExpr operand).seq (push .boolNot)).congr fun L p _ => by simp
  | .index value idx =>
    ((ofExpr value).seq ((ofExpr idx).seq (push .index))).congr
      fun L p _ => by simp
  | .slice value start stop step =>
    ((ofExpr value).seq ((ofBound start).seq ((ofBound stop).seq
      ((ofBound step).seq (push .slice))))).congr fun L p _ => by simp
  | .callBuiltin func arg =>
    ((ofExpr arg).seq (push func.toIr fun _ _ => by cases func <;> trivial)).congr
      fun L p _ => by simp
  | .methodCall object method args =>
    ((ofExpr object).seq ((ofExprs args).seq (ofMethod method))).congr fun L p _ => by simp
  | .toolCallExpr descriptor kwargs =>
    ((ofMerged descriptor kwargs (ofExpr descriptor) (ofKwargs kwargs)).seq
      ((push .constructCall).seq (push .executeCall))).congr fun L p _ => by simp
  | .submitJobExpr op config =>
    ((ofExpr op).seq ((ofExpr config).seq (push .executeChildJob))).congr
      fun L p _ => by simp
  | .parallelExpr descriptors =>
    ((ofExprs descriptors).seq ((push (.parallelStart descriptors.length)).seq (push .parallelExecute))).congr
      fun L p _ => by simp
  | .list elements =>
    ((ofExprs elements).seq (push (.makeList elements.length))).congr fun L p _ => by simp
  | .tuple elements =>
    ((ofExprs elements).seq (push (.makeTuple elements.length))).congr fun L p _ => by simp
  | .dict entries =>
    ((ofEntries entries).seq (push (.makeDict entries.length))).congr fun L p _ => by simp
  | .range start stop step =>
    ((ofRangeBound 0 start).seq ((ofExpr stop).seq (ofRangeBound 1 step))).congr
      fun L p _ => by simp
  | .parenthesized inner => (ofExpr inner).congr fun L p _ => by simp

theorem ofExprs : ∀ es : List Expr, Emits names (compileExprs es) fun L _ => exprsCode L es
  | [] => nothing
  | e :: es => ((ofExpr e).seq (ofExprs es)).congr fun L p _ => by simp [exprsCode]

theorem ofComparisons : ∀ comparisons : List (CmpOp × Expr),
    Emits names (compileComparisons comparisons) fun L _ => comparisonsCode L comparisons
  | [] => nothing
  | (op, e) :: comparisons =>
    ((ofExpr e).seq ((push (.compare op.toIr)).seq (ofComparisons comparisons))).congr
      fun L p _ => by simp [comparisonsCode]

theorem ofEntries : ∀ entries : List (Expr × Expr),
    Emits names (compileEntries entries) fun L _ => entriesCode L entries
  | [] => nothing
  | (key, value) :: entries =>
    ((ofExpr key).seq ((ofExpr value).seq (ofEntries entries))).congr
      fun L p _ => by simp [entriesCode]

theorem ofKwargs : ∀ kwargs : List (String × Expr),
    Emits names (compileKwargs kwargs) fun L _ => kwargsCode L kwargs
  | [] => nothing
  | (name, value) :: kwargs =>
    ((pushString name).seq ((ofExpr value).seq (ofKwargs kwargs))).congr
      fun L p _ => by simp [kwargsCode]

theorem ofBound : ∀ e : Option Expr, Emits names (compileBound e) fun L _ => boundCode L e
  | none => push .loadNone
  | some e => ofExpr e

theorem ofRangeBound (default : ℤ) : ∀ e : Option Expr,
    Emits names (compileRangeBound default e) fun L _ => rangeBoundCode L default e
  | none => pushInt default
  | some e => ofExpr e

theorem ofMerged : ∀ (e : Expr) (kwargs : List (String × Expr)),
    Emits names (compileExpr e) (fun L _ => exprCode L e) →
    Emits names (compileKwargs kwargs) (fun L _ => kwargsCode L kwargs) →
    Emits names (mergeKwargs kwargs (compileExpr e) (compileLiteral e) (compileKwargs kwargs))
      fun L _ => mergedCode kwargs (exprCode L e) (literalCode L e) (kwargsCode L kwargs) := by
  intro e kwargs he hk
  unfold mergeKwargs mergedCode
  cases kwargs.isEmpty with
  | true => exact he
  | false =>
    cases e with
    | dict entries =>
      simp only [compileLiteral, literalCode, Bool.false_eq_true, if_false, bind_assoc, pure_bind]
      exact ((ofEntries entries).seq (hk.seq (push (.makeDict (entries.length + kwargs.length))))).congr
        fun L p _ => (List.append_assoc _ _ _).symm
    | _ => exact throws
end

/-! ### Statements -/

theorem ofTargets (many : Bool) (targets : List String) :
    Emits names (storeTargets many targets) fun L _ => targetsCode L many targets := by
  induction targets with
  | nil => exact nothing
  | cons target targets ih =>
    refine withSlot fun hlt => ?_
    have hstore : Emits names (Compiler.push (.storeLocal _)) fun _ _ => _ :=
      push (.storeLocal (names.findIdx fun x => decide (x = target))) fun _ hL => hL ▸ hlt
    cases many with
    | true =>
      refine ((push .dup).seq (hstore.seq ih)).congr fun L _ hL => ?_
      simp [targetsCode, slot, hL]
    | false =>
      refine (nothing.seq (hstore.seq ih)).congr fun L _ hL => ?_
      simp [targetsCode, slot, hL]

theorem modify_append_cons {α : Type} (f : α → α) (pre : List α) (a : α) (post : List α) :
    (pre ++ a :: post).modify pre.length f = pre ++ f a :: post := by
  induction pre with
  | nil => rfl
  | cons b pre ih => simpa using ih

theorem patchJump_pools {target : ℕ} (h : patchJump jumpPc target c = .ok () c') :
    c'.toPools = c.toPools := by
  cases h
  rfl

/-- Setting the target of a conditional jump in the middle of the code. -/
theorem patchJump_ok {target : ℕ} {pre mid : List IrOp} {old : ℕ}
    (h : patchJump jumpPc target c = .ok () c') (hlen : pre.length = jumpPc)
    (hc : c.instructions = pre ++ .jumpIfFalse old :: mid) :
    c'.instructions = pre ++ .jumpIfFalse target :: mid := by
  cases h
  show c.instructions.modify jumpPc (retarget target) = _
  rw [hc, ← hlen, modify_append_cons]
  rfl

/-- The code of the clauses depends on the target of the last test in one place. -/
theorem clausesCode_split (L : Pools) (q : ℕ) (h : clauses ≠ []) :
    ∃ A B, ∀ target, clausesCode L target q clauses = A ++ .jumpIfFalse target :: B := by
  induction clauses generalizing q with
  | nil => exact absurd rfl h
  | cons clause clauses ih =>
    obtain ⟨test, body⟩ := clause
    cases clauses with
    | nil =>
      refine ⟨.jump 0 :: exprCode L test,
        stmtsCode L (q + (exprCode L test).length + 2) body, fun target => ?_⟩
      simp
    | cons clause' clauses =>
      obtain ⟨A, B, hAB⟩ := ih (q + (exprCode L test).length + 2 +
        (stmtsCode L (q + (exprCode L test).length + 2) body).length) (by simp)
      refine ⟨[.jump 0] ++ exprCode L test ++ [.jumpIfFalse 0] ++
        stmtsCode L (q + (exprCode L test).length + 2) body ++ A, B, fun target => ?_⟩
      rw [clausesCode, hAB]
      simp

theorem resolved_clausesCode {L : Pools} {q : ℕ}
    (h : ∀ op ∈ clausesCode L 0 q clauses, op.Resolved L) (target : ℕ) :
    ∀ op ∈ clausesCode L target q clauses, op.Resolved L := by
  by_cases hempty : clauses = []
  · subst hempty
    exact h
  · obtain ⟨A, B, hAB⟩ := clausesCode_split L q hempty
    rw [hAB] at h ⊢
    intro op hop
    rcases List.mem_append.mp hop with hop | hop
    · exact h op (List.mem_append_left _ hop)
    · rcases List.mem_cons.mp hop with rfl | hop
      · trivial
      · exact h op (List.mem_append_right _ (List.mem_cons_of_mem _ hop))

/-- The position of the test that is still open after the clauses of an `if`. -/
def pendingTest (jumpPc : ℕ) (jumpPcs : List (ℕ × ℕ)) : ℕ :=
  (jumpPcs.getLast?.map Prod.fst).getD jumpPc

/-- What has been emitted for the clauses of an `if` whose test is at `jumpPc`: the
last test is left open, its position is the last one collected. -/
structure ClausesEmitted (jumpPc : ℕ) (clauses : List (Expr × List Stmt))
    (jumpPcs jumpPcs' : List (ℕ × ℕ)) (c c' : Compiler) : Prop where
  grows : c.toPools.Extends c'.toPools
  code_eq : ∀ L, c'.toPools.Extends L → ∀ pre mid old, pre.length = jumpPc →
    c.instructions = pre ++ .jumpIfFalse old :: mid →
    c'.instructions = pre ++ .jumpIfFalse (if clauses.isEmpty then old
      else lastTest L c.instructions.length clauses) :: mid ++
        clausesCode L 0 c.instructions.length clauses
  resolved : ∀ L, c'.toPools.Extends L →
    ∀ op ∈ clausesCode L 0 c.instructions.length clauses, op.Resolved L
  last : ∀ L, c'.toPools.Extends L → if clauses.isEmpty then jumpPcs' = jumpPcs else
    ∃ A B j, (∀ target, clausesCode L target c.instructions.length clauses =
      A ++ .jumpIfFalse target :: B) ∧
        jumpPcs'.getLast? = some (c.instructions.length + A.length, j)

/-- What has been emitted for the end of an `if`; the open test is at `pending`. -/
structure ElseEmitted (pending : ℕ) (elseBody : Option (List Stmt)) (c c' : Compiler) : Prop where
  grows : c.toPools.Extends c'.toPools
  code_eq : ∀ L, c'.toPools.Extends L → ∀ pre mid old, pre.length = pending →
    c.instructions = pre ++ .jumpIfFalse old :: mid →
    c'.instructions = pre ++ .jumpIfFalse (elseStart c.instructions.length elseBody) :: mid ++
      elseCode L c.instructions.length elseBody
  resolved : ∀ L, c'.toPools.Extends L →
    ∀ op ∈ elseCode L c.instructions.length elseBody, op.Resolved L

theorem ofIf {test : Expr} {elifClauses : List (Expr × List Stmt)} {elseBody : Option (List Stmt)}
    (hbody : Emits names (compileStmts body) fun L p => stmtsCode L p body)
    (hclauses : ∀ jumpPc c c' jumpPcs, c.locals = names →
      compileClauses jumpPc elifClauses [] c = .ok jumpPcs c' →
      ClausesEmitted jumpPc elifClauses [] jumpPcs c c')
    (helse : ∀ jumpPc jumpPcs c c', c.locals = names →
      compileElse jumpPc jumpPcs elseBody c = .ok () c' →
      ElseEmitted (pendingTest jumpPc jumpPcs) elseBody c c') :
    Emits names (compileStmt (.if_ test body elifClauses elseBody))
      fun L p => stmtCode L p (.if_ test body elifClauses elseBody) := by
  intro c c' hc h
  unfold compileStmt at h
  obtain ⟨_, c₁, h₁, h⟩ := bind_eq_ok h
  obtain ⟨jumpPc, _, ⟨⟩, h⟩ := bind_eq_ok h
  obtain ⟨_, _, ⟨⟩, h⟩ := bind_eq_ok h
  obtain ⟨_, c₃, h₃, h⟩ := bind_eq_ok h
  have htest := ofExpr test c c₁ hc h₁
  have hb := hbody ⟨c₁.toPools, c₁.instructions ++ [.jumpIfFalse 0]⟩ c₃
    (htest.grows.locals.trans hc) h₃
  have hgrows : c.toPools.Extends c₃.toPools := htest.grows.trans hb.grows
  have hc₃ : c₃.locals = names := hgrows.locals.trans hc
  -- What there is after the first body, for given pools.
  have hcode : ∀ L, c₃.toPools.Extends L →
      c₁.instructions = c.instructions ++ exprCode L test ∧
      c₃.instructions = c₁.instructions ++ .jumpIfFalse 0 ::
        stmtsCode L (c.instructions.length + (exprCode L test).length + 1) body ∧
      ∀ op, op ∈ exprCode L test ∨
        op ∈ stmtsCode L (c.instructions.length + (exprCode L test).length + 1) body →
        op.Resolved L := by
    intro L hL
    have e₁ : c₁.instructions = c.instructions ++ exprCode L test :=
      htest.code_eq L (hb.grows.trans hL)
    have e₂ := hb.code_eq L hL
    have r₁ := htest.resolved L (hb.grows.trans hL)
    have r₂ := hb.resolved L hL
    have hlen : (c₁.instructions ++ [IrOp.jumpIfFalse 0]).length =
        c.instructions.length + (exprCode L test).length + 1 := by
      simp [e₁, Nat.add_assoc]
    simp only [hlen] at e₂ r₂
    refine ⟨e₁, by simpa using e₂, ?_⟩
    rintro op (hop | hop)
    · exact r₁ op hop
    · exact r₂ op hop
  cases hsimple : elifClauses.isEmpty && elseBody.isNone with
  | true =>
    rw [hsimple, if_pos rfl] at h
    obtain ⟨_, _, ⟨⟩, hpatch⟩ := bind_eq_ok h
    obtain ⟨hempty, hnone⟩ := Bool.and_eq_true_iff.mp hsimple
    obtain rfl := List.isEmpty_iff.mp hempty
    obtain rfl := Option.isNone_iff_eq_none.mp hnone
    have hpools : c'.toPools = c₃.toPools := patchJump_pools hpatch
    refine ⟨hpools ▸ hgrows, fun L hL => ?_, fun L hL op hop => ?_⟩
    · obtain ⟨e₁, e₃, -⟩ := hcode L (hpools ▸ hL)
      rw [patchJump_ok hpatch rfl e₃, e₃, e₁]
      simp [Nat.add_assoc, Nat.add_comm 1]
    · obtain ⟨-, -, hres⟩ := hcode L (hpools ▸ hL)
      simp only [stmtCode, clausesCode, elseCode, List.append_nil, List.mem_append,
        List.mem_singleton] at hop
      rcases hop with (hop | rfl) | hop
      · exact hres op (.inl hop)
      · trivial
      · exact hres op (.inr hop)
  | false =>
    rw [hsimple, if_neg Bool.false_ne_true] at h
    obtain ⟨jumpPcs, c₄, h₄, h⟩ := bind_eq_ok h
    have hcl := hclauses _ c₃ c₄ jumpPcs hc₃ h₄
    have hel := helse _ jumpPcs c₄ c' (hcl.grows.locals.trans hc₃) h
    refine .ofEach (hgrows.trans (hcl.grows.trans hel.grows)) fun L hL => ?_
    obtain ⟨e₁, e₃, hres⟩ := hcode L (hcl.grows.trans (hel.grows.trans hL))
    have e₄ := hcl.code_eq L (hel.grows.trans hL) c₁.instructions _ 0 rfl e₃
    have rcl := hcl.resolved L (hel.grows.trans hL)
    have rel := hel.resolved L hL
    have hlast := hcl.last L (hel.grows.trans hL)
    -- The position after the first body.
    obtain ⟨q, hq⟩ : ∃ q, q = c₃.instructions.length := ⟨_, rfl⟩
    have hq' : c.instructions.length + (exprCode L test).length + 1 +
        (stmtsCode L (c.instructions.length + (exprCode L test).length + 1) body).length = q := by
      rw [hq, e₃, e₁]
      simp
      omega
    have hq₄ : c₄.instructions.length = q + (clausesCode L 0 q elifClauses).length := by
      rw [e₄, hq, e₃]
      simp
      omega
    rw [← hq] at e₄ rcl hlast
    rw [hq₄] at rel
    have hstmt : stmtCode L c.instructions.length (.if_ test body elifClauses elseBody) =
        exprCode L test ++ .jumpIfFalse (lastTest L q elifClauses) ::
          (stmtsCode L (c.instructions.length + (exprCode L test).length + 1) body ++
            clausesCode L (elseStart c₄.instructions.length elseBody) q elifClauses ++
            elseCode L c₄.instructions.length elseBody) := by
      simp only [stmtCode, hsimple, hq', hq₄]
      simp
    simp only [hstmt]
    constructor
    · by_cases hempty : elifClauses = []
      · -- Without clauses the open test is that of the `if`.
        subst hempty
        obtain ⟨body', rfl⟩ : ∃ body', elseBody = some body' := by
          simpa [Option.isNone_eq_false_iff, Option.isSome_iff_exists] using hsimple
        obtain rfl : jumpPcs = [] := hlast
        have e₅ := hel.code_eq L hL c₁.instructions _ 0 rfl (by simpa using e₄)
        rw [e₅, e₁, hq₄]
        simp [lastTest, elseStart]
      · obtain ⟨A, B, j, hAB, hpc⟩ : ∃ A B j, (∀ target, clausesCode L target q elifClauses =
            A ++ .jumpIfFalse target :: B) ∧ jumpPcs.getLast? = some (q + A.length, j) := by
          simpa [hempty] using hlast
        have e₅ := hel.code_eq L hL (c₁.instructions ++ .jumpIfFalse (lastTest L q elifClauses) ::
          stmtsCode L (c.instructions.length + (exprCode L test).length + 1) body ++ A) B 0
          (by
            rw [pendingTest, hpc, hq, e₃]
            simp
            omega)
          (by
            rw [e₄, hAB]
            simp [hempty])
        rw [e₅, hAB, e₁]
        simp
    · intro op hop
      simp only [List.mem_append, List.mem_cons] at hop
      rcases hop with hop | rfl | (hop | hop) | hop
      · exact hres op (.inl hop)
      · trivial
      · exact hres op (.inr hop)
      · exact resolved_clausesCode rcl _ op hop
      · exact rel op (hq₄ ▸ hop)

theorem compileElse_none (jumpPc : ℕ) (jumpPcs : List (ℕ × ℕ)) :
    compileElse jumpPc jumpPcs none = (do
      let endPc ← currentPc
      patchJump (pendingTest jumpPc jumpPcs) endPc) := by
  unfold compileElse pendingTest
  cases jumpPcs.getLast? <;> rfl

theorem compileElse_some (jumpPc : ℕ) (jumpPcs : List (ℕ × ℕ)) (body : List Stmt) :
    compileElse jumpPc jumpPcs (some body) = (do
      let jumpToEnd ← currentPc
      Compiler.push (.jump 0)
      let elseStart ← currentPc
      patchJump (pendingTest jumpPc jumpPcs) elseStart
      compileStmts body
      let endPc ← currentPc
      patchJump jumpToEnd endPc) := by
  unfold compileElse pendingTest
  cases jumpPcs.getLast? <;> rfl

theorem ofElseNone (h : compileElse jumpPc jumpPcs none c = .ok () c') :
    ElseEmitted (pendingTest jumpPc jumpPcs) none c c' := by
  rw [compileElse_none] at h
  obtain ⟨_, _, ⟨⟩, hpatch⟩ := bind_eq_ok h
  refine ⟨patchJump_pools hpatch ▸ .refl _, ?_, fun _ _ _ hop => by cases hop⟩
  intro L _ pre mid old hlen hc
  rw [patchJump_ok hpatch hlen hc]
  simp [elseStart]

theorem ofElseSome (hbody : Emits names (compileStmts body) fun L p => stmtsCode L p body)
    (hc : c.locals = names) (h : compileElse jumpPc jumpPcs (some body) c = .ok () c') :
    ElseEmitted (pendingTest jumpPc jumpPcs) (some body) c c' := by
  rw [compileElse_some] at h
  obtain ⟨_, _, ⟨⟩, h⟩ := bind_eq_ok h
  obtain ⟨_, _, ⟨⟩, h⟩ := bind_eq_ok h
  obtain ⟨_, _, ⟨⟩, h⟩ := bind_eq_ok h
  obtain ⟨_, c₁, h₁, h⟩ := bind_eq_ok h
  obtain ⟨_, c₂, h₂, h⟩ := bind_eq_ok h
  obtain ⟨_, _, ⟨⟩, ⟨⟩⟩ := bind_eq_ok h
  have hpools : c₁.toPools = c.toPools :=
    patchJump_pools (c := ⟨c.toPools, c.instructions ++ [.jump 0]⟩) h₁
  have hb := hbody c₁ c₂ ((congrArg locals hpools).trans hc) h₂
  have hlen₁ : c₁.instructions.length = c.instructions.length + 1 := by
    cases h₁
    simp
  refine ⟨hpools ▸ hb.grows, ?_, ?_⟩
  · intro L hL pre mid old hlen hc'
    have e₁ := patchJump_ok h₁ hlen
      (show c.instructions ++ [.jump 0] = pre ++ .jumpIfFalse old :: (mid ++ [.jump 0]) by
        simp [hc'])
    have e₂ : c₂.instructions = c₁.instructions ++ stmtsCode L c₁.instructions.length body :=
      hb.code_eq L hL
    have hlen₂ : c₂.instructions.length =
        c.instructions.length + 1 + (stmtsCode L (c.instructions.length + 1) body).length := by
      rw [e₂, List.length_append, hlen₁]
    have hpre : (pre ++ IrOp.jumpIfFalse (c.instructions.length + 1) :: mid).length =
        c.instructions.length := by
      rw [hc']
      simp
    have e₃ : c₂.instructions = (pre ++ .jumpIfFalse (c.instructions.length + 1) :: mid) ++
        .jump 0 :: stmtsCode L (c.instructions.length + 1) body := by
      rw [e₂, hlen₁, e₁]
      simp
    have e₄ := modify_append_cons (retarget c₂.instructions.length)
      (pre ++ .jumpIfFalse (c.instructions.length + 1) :: mid) (.jump 0)
      (stmtsCode L (c.instructions.length + 1) body)
    rw [hpre, ← e₃, hlen₂] at e₄
    show c₂.instructions.modify c.instructions.length (retarget c₂.instructions.length) = _
    rw [hlen₂, e₄]
    simp [elseStart, retarget]
  · intro L hL op hop
    rcases List.mem_cons.mp hop with rfl | hop
    · trivial
    · exact hb.resolved L hL op (by rwa [hlen₁])

theorem ofClauseNil {jumpPcs' : List (ℕ × ℕ)}
    (h : compileClauses jumpPc [] jumpPcs c = .ok jumpPcs' c') :
    ClausesEmitted jumpPc [] jumpPcs jumpPcs' c c' := by
  cases h
  refine ⟨.refl _, ?_, fun _ _ _ hop => ?_, fun _ _ => rfl⟩
  · intro L _ pre mid old _ hc
    simpa using hc
  · cases hop

theorem ofClauseCons {test : Expr} {jumpPcs' : List (ℕ × ℕ)}
    (hbody : Emits names (compileStmts body) fun L p => stmtsCode L p body)
    (hrest : ∀ jumpPcs c, c.locals = names →
      compileClauses jumpPc clauses jumpPcs c = .ok jumpPcs' c' →
      ClausesEmitted jumpPc clauses jumpPcs jumpPcs' c c') (hc : c.locals = names)
    (h : compileClauses jumpPc ((test, body) :: clauses) jumpPcs c = .ok jumpPcs' c') :
    ClausesEmitted jumpPc ((test, body) :: clauses) jumpPcs jumpPcs' c c' := by
  unfold compileClauses at h
  obtain ⟨_, _, ⟨⟩, h⟩ := bind_eq_ok h
  obtain ⟨_, _, ⟨⟩, h⟩ := bind_eq_ok h
  obtain ⟨_, _, ⟨⟩, h⟩ := bind_eq_ok h
  obtain ⟨_, c₁, h₁, h⟩ := bind_eq_ok h
  obtain ⟨_, c₂, h₂, h⟩ := bind_eq_ok h
  obtain ⟨_, _, ⟨⟩, h⟩ := bind_eq_ok h
  obtain ⟨_, _, ⟨⟩, h⟩ := bind_eq_ok h
  obtain ⟨_, c₃, h₃, h⟩ := bind_eq_ok h
  replace h₁ : patchJump jumpPc (c.instructions ++ [IrOp.jump 0]).length
      ⟨c.toPools, c.instructions ++ [.jump 0]⟩ = .ok () c₁ := h₁
  have hpools : c₁.toPools = c.toPools :=
    patchJump_pools (c := ⟨c.toPools, c.instructions ++ [.jump 0]⟩) h₁
  have hc₁ : c₁.locals = names := (congrArg locals hpools).trans hc
  have hlen₁ : c₁.instructions.length = c.instructions.length + 1 := by
    cases h₁
    simp
  have htest := ofExpr test c₁ c₂ hc₁ h₂
  have hb := hbody ⟨c₂.toPools, c₂.instructions ++ [.jumpIfFalse 0]⟩ c₃
    (htest.grows.locals.trans hc₁) h₃
  have hc₃ : c₃.locals = names := hb.grows.locals.trans (htest.grows.locals.trans hc₁)
  have hr := hrest _ c₃ hc₃ h
  have hgrows : c.toPools.Extends c₃.toPools := hpools ▸ htest.grows.trans hb.grows
  -- The code of this clause, for given pools.
  have hcode : ∀ L, c'.toPools.Extends L →
      c₂.instructions.length = c.instructions.length + (exprCode L test).length + 1 ∧
      c₃.instructions = c₁.instructions ++ exprCode L test ++ [.jumpIfFalse 0] ++
        stmtsCode L (c.instructions.length + (exprCode L test).length + 2) body ∧
      ∀ op, op ∈ exprCode L test ∨
        op ∈ stmtsCode L (c.instructions.length + (exprCode L test).length + 2) body →
        op.Resolved L := by
    intro L hL
    have e₂ : c₂.instructions = c₁.instructions ++ exprCode L test :=
      htest.code_eq L (hb.grows.trans (hr.grows.trans hL))
    have e₃ := hb.code_eq L (hr.grows.trans hL)
    have r₂ := htest.resolved L (hb.grows.trans (hr.grows.trans hL))
    have r₃ := hb.resolved L (hr.grows.trans hL)
    have hlen₂ : c₂.instructions.length =
        c.instructions.length + (exprCode L test).length + 1 := by
      rw [e₂, List.length_append, hlen₁]
      omega
    have hlen : (c₂.instructions ++ [IrOp.jumpIfFalse 0]).length =
        c.instructions.length + (exprCode L test).length + 2 := by
      simp [hlen₂]
    simp only [hlen] at e₃ r₃
    refine ⟨hlen₂, by rw [e₃, e₂], ?_⟩
    rintro op (hop | hop)
    · exact r₂ op hop
    · exact r₃ op hop
  have hlen₃ : ∀ L, c'.toPools.Extends L → c₃.instructions.length = c.instructions.length +
      (exprCode L test).length + 2 +
        (stmtsCode L (c.instructions.length + (exprCode L test).length + 2) body).length := by
    intro L hL
    rw [(hcode L hL).2.1]
    simp only [List.length_append, List.length_singleton, hlen₁]
    omega
  refine ⟨hgrows.trans hr.grows, ?_, ?_, ?_⟩
  · intro L hL pre mid old hlen hc'
    have e₁ := patchJump_ok h₁ hlen
      (show c.instructions ++ [.jump 0] = pre ++ .jumpIfFalse old :: (mid ++ [.jump 0]) by
        simp [hc'])
    have e₃ := (hcode L hL).2.1
    have e₄ := hr.code_eq L hL pre (mid ++ [.jump 0] ++ exprCode L test ++ [.jumpIfFalse 0] ++
      stmtsCode L (c.instructions.length + (exprCode L test).length + 2) body) _ hlen
      (by
        rw [e₃, e₁]
        simp
        rfl)
    rw [e₄, hlen₃ L hL]
    simp [lastTest]
  · intro L hL op hop
    have rr := hr.resolved L hL
    rw [hlen₃ L hL] at rr
    simp only [clausesCode, List.mem_append, List.mem_singleton] at hop
    rcases hop with (((rfl | hop) | rfl) | hop) | hop
    · trivial
    · exact (hcode L hL).2.2 op (.inl hop)
    · trivial
    · exact (hcode L hL).2.2 op (.inr hop)
    · exact resolved_clausesCode rr 0 op hop
  · intro L hL
    have hlast := hr.last L hL
    rw [if_neg (by simp)]
    cases clauses with
    | nil =>
      obtain rfl : jumpPcs' = _ := hlast
      refine ⟨.jump 0 :: exprCode L test,
        stmtsCode L (c.instructions.length + (exprCode L test).length + 2) body,
        c.instructions.length, ?_, ?_⟩
      · simp
      · simp [(hcode L hL).1, Nat.add_assoc]
    | cons clause clauses =>
      rw [hlen₃ L hL] at hlast
      obtain ⟨A, B, j, hAB, hpc⟩ := hlast
      refine ⟨[.jump 0] ++ exprCode L test ++ [.jumpIfFalse 0] ++
        stmtsCode L (c.instructions.length + (exprCode L test).length + 2) body ++ A, B, j, ?_, ?_⟩
      · intro target
        rw [clausesCode, hAB]
        simp
      · rw [hpc]
        simp
        omega

theorem patchLoopEnd_ok {loopStart endPc : ℕ} {pre mid : List IrOp} {bodyStart old : ℕ}
    (h : patchLoopEnd loopStart endPc c = .ok () c') (hlen : pre.length = loopStart)
    (hc : c.instructions = pre ++ .forLoopStart bodyStart old :: mid) :
    c'.instructions = pre ++ .forLoopStart bodyStart endPc :: mid := by
  cases h
  show c.instructions.modify loopStart _ = _
  rw [hc, ← hlen, modify_append_cons]

/-- The code of a loop before its end is patched. -/
theorem ofLoop {slot : ℕ} (hslot : slot < names.length) (loopStart : ℕ)
    (hbody : Emits names (compileStmts body) fun L p => stmtsCode L p body) :
    Emits names (do
      Compiler.push (.forLoopStart (loopStart + 1) (loopStart + 3))
      Compiler.push .forLoopIter
      Compiler.push (.storeLocal slot)
      compileStmts body
      Compiler.push .checkpoint
      Compiler.push (.forLoopNext loopStart (loopStart + 3)))
      fun L p => .forLoopStart (loopStart + 1) (loopStart + 3) :: .forLoopIter ::
        .storeLocal slot :: (stmtsCode L (p + 3) body ++
          [.checkpoint, .forLoopNext loopStart (loopStart + 3)]) := by
  have hstore : Emits names (Compiler.push (.storeLocal slot)) fun _ _ => [.storeLocal slot] :=
    push (.storeLocal slot) fun L hL => show slot < L.locals.length by rwa [hL]
  have hend : Emits names (Compiler.push .checkpoint >>= fun _ =>
      Compiler.push (.forLoopNext loopStart (loopStart + 3))) fun _ _ =>
        [.checkpoint, .forLoopNext loopStart (loopStart + 3)] :=
    (push .checkpoint).seq (push (.forLoopNext loopStart (loopStart + 3)))
  refine ((push (.forLoopStart (loopStart + 1) (loopStart + 3))).seq ((push .forLoopIter).seq
    (hstore.seq (hbody.seq hend)))).congr fun L p _ => ?_
  simp

theorem ofFor {target : String} {iter : Expr}
    (hbody : Emits names (compileStmts body) fun L p => stmtsCode L p body) :
    Emits names (compileStmt (.for_ target iter body))
      fun L p => stmtCode L p (.for_ target iter body) := by
  refine withSlot fun hlt => ?_
  intro c c' hc h
  obtain ⟨_, c₁, h₁, h⟩ := bind_eq_ok h
  obtain ⟨_, _, ⟨⟩, h⟩ := bind_eq_ok h
  have hiter := ofExpr iter c c₁ hc h₁
  have hc₁ : c₁.locals = names := hiter.grows.locals.trans hc
  have hassoc : ∀ {a b d e f g i j : CompileM Unit}, j = (do a; b; d; e; f; g) →
      (do a; b; d; e; f; g; i) = (do j; i) := by
    rintro a b d e f g i _ rfl
    simp [bind_assoc]
  rw [hassoc rfl] at h
  obtain ⟨_, c₂, h₂, h⟩ := bind_eq_ok h
  obtain ⟨_, _, ⟨⟩, hpatch⟩ := bind_eq_ok h
  have hloop := ofLoop hlt c₁.instructions.length hbody c₁ c₂ hc₁ h₂
  have hpools : c'.toPools = c₂.toPools := by
    cases hpatch
    rfl
  refine .ofEach (hpools ▸ hiter.grows.trans hloop.grows) fun L hL => ?_
  rw [hpools] at hL
  have e₁ : c₁.instructions = c.instructions ++ exprCode L iter :=
    hiter.code_eq L (hloop.grows.trans hL)
  have e₂ := hloop.code_eq L hL
  have hslot : L.slot target = names.findIdx fun x => decide (x = target) := by
    rw [slot, hL.locals, hloop.grows.locals, hc₁]
  have hlen : c₁.instructions.length = c.instructions.length + (exprCode L iter).length := by
    rw [e₁, List.length_append]
  have hlen₂ : c₂.instructions.length = c₁.instructions.length + 3 +
      (stmtsCode L (c₁.instructions.length + 3) body).length + 2 := by
    rw [e₂]
    simp
    omega
  constructor
  · rw [patchLoopEnd_ok hpatch rfl e₂, hlen₂, e₁]
    simp [hslot]
  · intro op hop
    have r₁ := hiter.resolved L (hloop.grows.trans hL)
    have r₂ := hloop.resolved L hL
    simp only [hlen, List.mem_append, List.mem_cons] at r₂
    simp only [stmtCode, hslot, List.mem_append, List.mem_cons] at hop
    rcases hop with ((hop | rfl | hop) | hop) | hop
    · exact r₁ op hop
    · trivial
    · exact r₂ op (by tauto)
    · exact r₂ op (by tauto)
    · exact r₂ op (by tauto)

mutual
theorem ofStmt : ∀ stmt : Stmt, Emits names (compileStmt stmt) fun L p => stmtCode L p stmt
  | .assign targets value =>
    ((ofExpr value).seq (ofTargets (targets.length > 1) targets)).congr fun L p _ => by
      simp
  | .if_ _ body elifClauses elseBody =>
    ofIf (ofStmts body) (fun _ _ _ _ hc h => ofClauses elifClauses _ _ _ _ _ hc h)
      fun _ _ _ _ hc h => ofElse elseBody _ _ _ _ hc h
  | .for_ _ _ body => ofFor (ofStmts body)
  | .assert test (some m) =>
    ((ofExpr test).seq ((ofExpr m).seq (push .pop))).congr fun L p _ => by simp
  | .assert test none =>
    ((ofExpr test).seq ((pushString "assertion failed").seq (push .pop))).congr
      fun L p _ => by simp
  | .toolCall target descriptor kwargs =>
    ((push .checkpoint).seq ((ofMerged descriptor kwargs (ofExpr descriptor) (ofKwargs kwargs)).seq
      ((push .constructCall).seq ((push .executeCall).seq ((push .checkpoint).seq
        (pushStore target)))))).congr fun L p _ => by simp [descriptorCode]
  | .submitJob target op config =>
    ((push .checkpoint).seq ((ofExpr op).seq ((ofExpr config).seq ((push .executeChildJob).seq
      ((push .checkpoint).seq (pushStore target)))))).congr fun L p _ => by simp
  | .parallel target descriptors =>
    ((ofExprs descriptors).seq ((push .checkpoint).seq
      ((push (.parallelStart descriptors.length)).seq ((push .parallelExecute).seq
        ((push .checkpoint).seq (pushStore target)))))).congr fun L p _ => by simp
  | .emit value =>
    ((ofExpr value).seq ((push .checkpoint).seq (push .emit))).congr
      fun L p _ => by simp
  | .fail (some r) =>
    ((ofExpr r).seq ((push .checkpoint).seq (push .fail))).congr
      fun L p _ => by simp [boundCode]
  | .fail none =>
    ((push .loadNone).seq ((push .checkpoint).seq (push .fail))).congr
      fun L p _ => by simp [boundCode]
  | .pass => nothing.congr fun L p _ => by simp

theorem ofStmts : ∀ stmts : List Stmt,
    Emits names (compileStmts stmts) fun L p => stmtsCode L p stmts
  | [] => nothing
  | stmt :: stmts => ((ofStmt stmt).seq (ofStmts stmts)).congr fun L p _ => by simp [stmtsCode]

theorem ofClauses : ∀ (clauses : List (Expr × List Stmt)) (jumpPc : ℕ) (c c' : Compiler)
    (jumpPcs jumpPcs' : List (ℕ × ℕ)), c.locals = names →
    compileClauses jumpPc clauses jumpPcs c = .ok jumpPcs' c' →
    ClausesEmitted jumpPc clauses jumpPcs jumpPcs' c c'
  | [], _, _, _, _, _, _, h => ofClauseNil h
  | (_, body) :: clauses, _, _, _, _, _, hc, h =>
    ofClauseCons (ofStmts body) (fun _ _ hc h => ofClauses clauses _ _ _ _ _ hc h) hc h

theorem ofElse : ∀ (elseBody : Option (List Stmt)) (jumpPc : ℕ) (jumpPcs : List (ℕ × ℕ))
    (c c' : Compiler), c.locals = names → compileElse jumpPc jumpPcs elseBody c = .ok () c' →
    ElseEmitted (pendingTest jumpPc jumpPcs) elseBody c c'
  | none, _, _, _, _, _, h => ofElseNone h
  | some body, _, _, _, _, hc, h => ofElseSome (ofStmts body) hc h
end

end Emits

/-! ### Compilation -/

/-- Allocation of locals: only the names grow, and none gets a second slot. -/
def Allocates (x : CompileM Unit) : Prop :=
  ∀ c, c.locals.Nodup → ∃ names : List String, names.Nodup ∧
    x c = .ok () { c with locals := names }

namespace Allocates

open Compiler

variable {x y : CompileM Unit}

theorem nothing : Allocates (pure ()) := fun c hc => ⟨c.locals, hc, rfl⟩

theorem seq (hx : Allocates x) (hy : Allocates y) : Allocates (x >>= fun _ => y) := by
  intro c hc
  obtain ⟨names, hnames, hx'⟩ := hx c hc
  obtain ⟨names', hnames', hy'⟩ := hy { c with locals := names } hnames
  exact ⟨names', hnames', (bind_of_ok hx').trans hy'⟩

theorem ofName (name : String) : Allocates (do let _ ← allocateLocal name) := by
  intro c hc
  refine ⟨(internIn (fun x v => decide (x = v)) name c.locals).2, ?_, rfl⟩
  unfold internIn
  cases h : c.locals.findIdx? fun x => decide (x = name) with
  | some idx => exact hc
  | none =>
    have hnew : name ∉ c.locals := by
      intro hmem
      simpa using List.findIdx?_eq_none_iff.mp h name hmem
    exact List.nodup_append.mpr ⟨hc, List.nodup_singleton _, by
      rintro a ha _ hb rfl
      exact hnew (List.mem_singleton.mp hb ▸ ha)⟩

theorem ofNames (names : List String) :
    Allocates (names.forM fun t => do let _ ← allocateLocal t) := by
  induction names with
  | nil => exact nothing
  | cons name names ih => exact (ofName name).seq ih

mutual
theorem ofStmt : ∀ stmt : Stmt, Allocates (preallocateStmt stmt)
  | .assign targets _ => ofNames targets
  | .if_ _ body elifClauses elseBody =>
    (ofStmts body).seq ((ofClauses elifClauses).seq (ofElse elseBody))
  | .for_ target _ body => (ofName target).seq (ofStmts body)
  | .toolCall target _ _ => ofName target
  | .parallel target _ => ofName target
  | .submitJob target _ _ => ofName target
  | .assert _ _ => nothing
  | .emit _ => nothing
  | .fail _ => nothing
  | .pass => nothing

theorem ofStmts : ∀ stmts : List Stmt, Allocates (preallocateStmts stmts)
  | [] => nothing
  | stmt :: stmts => (ofStmt stmt).seq (ofStmts stmts)

theorem ofClauses : ∀ clauses : List (Expr × List Stmt), Allocates (preallocateClauses clauses)
  | [] => nothing
  | (_, body) :: clauses => (ofStmts body).seq (ofClauses clauses)

theorem ofElse : ∀ elseBody : Option (List Stmt), Allocates (preallocateElse elseBody)
  | none => nothing
  | some body => ofStmts body
end

end Allocates

open Compiler in
/-- A compiled program is the code of its source for some pools: the patching leaves
no other trace. -/
theorem compile_eq_ok {program : Program} {bounds : IrBounds} {ir : IrProgram}
    (h : compile program bounds = .ok ir) :
    ∃ L : Pools, L.locals.Nodup ∧ (∀ op ∈ programCode L program, op.Resolved L) ∧
      ir = ⟨programCode L program, L.locals.length, bounds, L.strings, L.integers, L.floats⟩ := by
  unfold compile at h
  obtain ⟨names, hnames, hpre⟩ := Allocates.ofStmts program.body .new List.nodup_nil
  dsimp only at h
  rw [bind_of_ok hpre] at h
  have hemits : Emits names (compileStmts program.body >>= fun _ => push .return_)
      fun L p => stmtsCode L p program.body ++ [.return_] :=
    (Emits.ofStmts program.body).seq (Emits.push .return_)
  split at h
  case h_1 => cases h
  case h_2 c hc =>
    have he := hemits ⟨⟨[], [], [], names⟩, []⟩ c rfl hc
    have hcode : c.instructions = [] ++ programCode c.toPools program :=
      he.code_eq c.toPools (.refl _)
    refine ⟨c.toPools, ?_, he.resolved c.toPools (.refl _), ?_⟩
    · rw [he.grows.locals]
      exact hnames
    · rw [List.nil_append] at hcode
      rw [← hcode]
      exact (Except.ok.inj h).symm

end Codegg.ToolProgram
