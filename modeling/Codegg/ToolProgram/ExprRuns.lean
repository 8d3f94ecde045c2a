import Codegg.Library.ByteCode
import Codegg.ToolProgram.Codegen
import Codegg.ToolProgram.Runs

/-!
# Running the code of an expression

The code of an expression has no jumps and stores nothing: wherever it is placed
in a program, a run that gets through it has executed its instructions one after
the other and has left the locals alone.
-/
namespace Codegg.ToolProgram

open Codegg.Library IrOp

/-! ### Instructions of expressions -/

/-- Neither jumps nor stores nor ends the program. -/
def IrOp.inExpr : IrOp → Bool
  | .storeLocal _ | .dup | .jumpIfFalse _ | .jump _ | .forLoopStart _ _ | .forLoopIter
  | .forLoopNext _ _ | .checkpoint | .emit | .fail | .return_ => false
  | _ => true

/-- Goes on where it is, with the same locals. -/
structure Stays (m m' : StackMachine) : Prop where
  pc_eq : m'.pc = m.pc
  locals_eq : m'.locals = m.locals

namespace Stays

theorem refl (m : StackMachine) : Stays m m := ⟨rfl, rfl⟩

theorem trans (a b c : StackMachine) (hab : Stays a b) (hbc : Stays b c) : Stays a c :=
  ⟨hbc.pc_eq.trans hab.pc_eq, hbc.locals_eq.trans hab.locals_eq⟩

end Stays

namespace Exec

variable {env : Env}

theorem stays_bind {α β : Type} {x : Exec α} {f : α → Exec β} (hx : Moves Stays x)
    (hf : ∀ a, Moves Stays (f a)) : Moves Stays (x >>= f) :=
  .bind .trans hx hf

theorem stays_push (val : ProgramValue) : Moves Stays (push env val) := by
  intro m
  rw [push_eq]
  split
  · exact .refl m
  · exact ⟨rfl, rfl⟩

theorem stays_pop : Moves Stays pop := by
  intro m
  cases h : m.stack with
  | nil =>
    rw [pop_of_nil h]
    exact .refl m
  | cons val stack =>
    rw [pop_of_cons h]
    exact ⟨rfl, rfl⟩

theorem stays_popMany (n : ℕ) (items : List ProgramValue) : Moves Stays (popMany n items) := by
  induction n generalizing items with
  | zero => exact .pure .refl _
  | succ n ih => exact stays_bind stays_pop (fun val => ih _)

theorem stays_popPairs (n : ℕ) (pairs : List (ProgramValue × ProgramValue)) :
    Moves Stays (popPairs n pairs) := by
  induction n generalizing pairs with
  | zero => exact .pure .refl _
  | succ n ih => exact stays_bind stays_pop (fun val => stays_bind stays_pop (fun key => ih _))

theorem stays_popRequests (n : ℕ) (requests : List CallRequest) :
    Moves Stays (popRequests n requests) := by
  induction n generalizing requests with
  | zero => exact .pure .refl _
  | succ n ih =>
    refine stays_bind stays_pop (fun descriptor => ?_)
    exact stays_bind (moves_ofExcept .refl _) (fun request => ih _)

theorem stays_pushConstant {α : Type} (kind : String) (pool : List α) (wrap : α → ProgramValue)
    (idx : ℕ) : Moves Stays (pushConstant env kind pool wrap idx) := by
  unfold pushConstant
  split
  · exact stays_push _
  · exact .throw .refl _

theorem stays_checkCallBudget : Moves Stays (checkCallBudget env) :=
  stays_bind (.get .refl) (fun _ => moves_refuseIf .refl _ _)

theorem stays_checkInflightBudget : Moves Stays (checkInflightBudget env) :=
  stays_bind (.get .refl) (fun _ => moves_refuseIf .refl _ _)

theorem stays_checkParallelBudget (count : ℕ) : Moves Stays (checkParallelBudget env count) := by
  intro m
  unfold checkParallelBudget refuseIf
  rw [get_bind]
  split
  · exact .refl m
  · split
    · exact .refl m
    · exact ⟨rfl, rfl⟩

end Exec

namespace Interp

open Exec

variable {env : Env}

theorem stays_binary (op : ProgramValue → ProgramValue → Except InterpreterError ProgramValue) :
    Moves Stays (binary env op) :=
  stays_bind stays_pop (fun _ => stays_bind stays_pop (fun _ =>
    stays_bind (moves_ofExcept .refl _) (fun _ => stays_push _)))

theorem stays_unary (op : ProgramValue → Except InterpreterError ProgramValue) :
    Moves Stays (unary env op) :=
  stays_bind stays_pop (fun _ =>
    stays_bind (moves_ofExcept .refl _) (fun _ => stays_push _))

theorem stays_executeLocal {op : IrOp} {x : Exec Unit} (h : executeLocal env op = some x)
    (hop : op.inExpr = true) : Moves Stays x := by
  cases op <;> simp only [executeLocal, Option.some.injEq, reduceCtorEq] at h <;> subst h
  case loadInt | loadFloat | loadString => exact stays_pushConstant _ _ _ _
  case loadTrue | loadFalse | loadNone => exact stays_push _
  case loadLocal slot => exact stays_bind (.get .refl) (fun _ => stays_push _)
  case makeList count | makeTuple count =>
    exact stays_bind (stays_popMany count []) (fun _ => stays_push _)
  case makeDict count => exact stays_bind (stays_popPairs count []) (fun _ => stays_push _)
  case binOp | compare | boolAnd | boolOr | index => exact stays_binary _
  case unaryOp | boolNot | len | str | int | bool | constructCall => exact stays_unary _
  case pop => exact stays_bind stays_pop (fun _ => .pure .refl _)
  case slice =>
    refine stays_bind stays_pop (fun _ => stays_bind stays_pop (fun _ => ?_))
    refine stays_bind stays_pop (fun _ => stays_bind stays_pop (fun _ => ?_))
    exact stays_bind (moves_ofExcept .refl _) (fun _ => stays_push _)
  case parallelStart count =>
    exact stays_bind (stays_popRequests count []) (fun _ => stays_push _)
  all_goals cases hop

/-! ### Calls -/

/-- The stack machine goes on where it is, with the same locals. -/
def MachineStays (s s' : MeteredInterpreter) : Prop := Stays s.machine s'.machine

theorem machineStays_refl (s : MeteredInterpreter) : MachineStays s s := .refl _

theorem machineStays_bind {α β : Type} {x : Interp α} {f : α → Interp β}
    (hx : Moves MachineStays x) (hf : ∀ a, Moves MachineStays (f a)) :
    Moves MachineStays (x >>= f) :=
  .bind (R := MachineStays) (fun _ _ _ hab hbc => .trans _ _ _ hab hbc) hx hf

theorem machineStays_onMachine {α : Type} {x : Exec α} (hx : Moves Stays x) :
    Moves MachineStays (onMachine x) := by
  intro s
  have h := hx s.machine
  unfold onMachine
  cases hr : x s.machine with
  | ok a m =>
    rw [hr] at h
    exact h
  | error e m =>
    rw [hr] at h
    exact h

theorem machineStays_of_outside {seq : ℕ} {α : Type} {x : Interp α} (hx : Moves (Outside seq) x) :
    Moves MachineStays x := by
  intro s
  unfold MachineStays
  rw [(hx s).machine_eq]
  exact .refl _

theorem machineStays_replayOr {kind : CallKind} {seq : ℕ} {request : CallRequest}
    {live : Interp CallResult} (hl : Moves MachineStays live) :
    Moves MachineStays (replayOr env kind seq request live) := by
  intro s
  cases h : s.completedCalls.get? seq with
  | some completed =>
    rw [replayOr_of_some h, finalState_ofExcept]
    exact machineStays_refl s
  | none =>
    rw [replayOr_of_none h]
    exact hl s

theorem machineStays_liveChildJob (request : ChildJobRequest) (callRequest : CallRequest) :
    Moves MachineStays (liveChildJob env request callRequest) := by
  intro s
  unfold MachineStays
  rcases outside_liveChildJob s request callRequest with ho | ⟨e, he⟩
  · rw [ho.machine_eq]
    exact .refl _
  · rw [he]
    exact ⟨rfl, rfl⟩

theorem machineStays_takeCallSeq : Moves MachineStays (onMachine takeCallSeq) :=
  fun _ => ⟨rfl, rfl⟩

theorem machineStays_countCall : Moves MachineStays (onMachine countCall) :=
  fun _ => ⟨rfl, rfl⟩

theorem machineStays_dispatchCall (kind : CallKind) (request : CallRequest) :
    Moves MachineStays (dispatchCall env kind request) := by
  refine machineStays_bind machineStays_takeCallSeq (fun seq => ?_)
  refine machineStays_bind
    (machineStays_replayOr (machineStays_of_outside (outside_liveCall seq _))) (fun result => ?_)
  exact machineStays_bind machineStays_countCall (fun _ => .pure machineStays_refl _)

theorem machineStays_dispatchChildJob (op : ChildJobOp) (config : ChildJobConfig) :
    Moves MachineStays (dispatchChildJob env op config) := by
  refine machineStays_bind machineStays_takeCallSeq (fun seq => ?_)
  refine machineStays_bind (machineStays_onMachine stays_checkCallBudget) (fun _ => ?_)
  refine machineStays_bind (machineStays_replayOr (machineStays_liveChildJob _ _))
    (fun result => ?_)
  exact machineStays_bind machineStays_countCall (fun _ => .pure machineStays_refl _)

theorem machineStays_executeGroup (reqVals results : List ProgramValue) :
    Moves MachineStays (executeGroup env reqVals results) := by
  induction reqVals generalizing results with
  | nil => exact .pure machineStays_refl _
  | cons reqVal reqVals ih =>
    cases reqVal with
    | string text =>
      refine machineStays_bind (moves_ofExcept machineStays_refl _) (fun request => ?_)
      refine machineStays_bind (machineStays_onMachine stays_checkCallBudget) (fun _ => ?_)
      exact machineStays_bind (machineStays_dispatchCall _ _) (fun output => ih _)
    | _ => exact .throw machineStays_refl _

theorem machineStays_pop : Moves MachineStays (onMachine pop) := machineStays_onMachine stays_pop

theorem machineStays_push (val : ProgramValue) : Moves MachineStays (onMachine (push env val)) :=
  machineStays_onMachine (stays_push val)

theorem machineStays_executeCall : Moves MachineStays (executeCall env) := by
  refine machineStays_bind machineStays_pop (fun reqVal => ?_)
  split
  · refine machineStays_bind (moves_ofExcept machineStays_refl _) (fun request => ?_)
    refine machineStays_bind (machineStays_onMachine stays_checkCallBudget) (fun _ => ?_)
    refine machineStays_bind (machineStays_onMachine stays_checkInflightBudget) (fun _ => ?_)
    exact machineStays_bind (machineStays_dispatchCall _ _) (fun output => machineStays_push _)
  · exact .throw machineStays_refl _

theorem machineStays_parallelExecute : Moves MachineStays (parallelExecute env) := by
  refine machineStays_bind machineStays_pop (fun reqList => ?_)
  split
  · refine machineStays_bind (machineStays_onMachine (stays_checkParallelBudget _)) (fun _ => ?_)
    exact machineStays_bind (machineStays_executeGroup _ _) (fun results => machineStays_push _)
  · exact .throw machineStays_refl _

theorem machineStays_executeChildJob : Moves MachineStays (executeChildJob env) := by
  refine machineStays_bind machineStays_pop (fun configVal => ?_)
  refine machineStays_bind machineStays_pop (fun opVal => ?_)
  refine machineStays_bind (moves_ofExcept machineStays_refl _) (fun operands => ?_)
  exact machineStays_bind (machineStays_dispatchChildJob _ _) (fun output => machineStays_push _)

/-- An instruction of an expression moves the program counter no further than it was
moved when it was fetched. -/
theorem machineStays_executeInstruction {op : IrOp} (hop : op.inExpr = true) :
    Moves MachineStays (executeInstruction env op) := by
  have after {x : Interp Unit} (hx : Moves MachineStays x) :
      Moves MachineStays (x >>= fun _ => pure StepResult.continue_) :=
    machineStays_bind hx (fun _ => .pure machineStays_refl _)
  cases op
  case executeCall => exact after machineStays_executeCall
  case parallelExecute => exact after machineStays_parallelExecute
  case executeChildJob => exact after machineStays_executeChildJob
  case checkpoint | emit | fail | return_ => cases hop
  all_goals exact after (machineStays_onMachine (@stays_executeLocal env _ _ rfl hop))

end Interp

/-! ### Code of expressions -/

section

variable (L : Pools)

attribute [local simp] IrOp.inExpr exprCode

theorem inExpr_mergedCode {kwargs : List (String × Expr)} {descriptor overrides : List IrOp}
    {literal : Option (List IrOp × ℕ)} (hd : descriptor.all inExpr = true)
    (hl : ∀ entries count, literal = some (entries, count) → entries.all inExpr = true)
    (ho : overrides.all inExpr = true) :
    (mergedCode kwargs descriptor literal overrides).all inExpr = true := by
  unfold mergedCode
  split
  · exact hd
  · split
    · rename_i entries count
      simp [hl entries count rfl, ho]
    · rfl

mutual
theorem inExpr_exprCode : ∀ e : Expr, (exprCode L e).all inExpr = true
  | .noneLiteral => rfl
  | .boolLiteral value => by cases value <;> rfl
  | .intLiteral value => rfl
  | .floatLiteral literal => rfl
  | .stringLiteral value => rfl
  | .name id => by
    unfold exprCode
    split <;> rfl
  | .binOp left op right => by
    simp [inExpr_exprCode left, inExpr_exprCode right]
  | .unaryOp op operand => by simp [inExpr_exprCode operand]
  | .compare left comparisons => by
    simp [inExpr_exprCode left, inExpr_comparisonsCode comparisons]
  | .boolAnd left right => by
    simp [inExpr_exprCode left, inExpr_exprCode right]
  | .boolOr left right => by
    simp [inExpr_exprCode left, inExpr_exprCode right]
  | .boolNot operand => by simp [inExpr_exprCode operand]
  | .index value idx => by
    simp [inExpr_exprCode value, inExpr_exprCode idx]
  | .slice value start stop step => by
    simp [inExpr_exprCode value, inExpr_boundCode start, inExpr_boundCode stop, inExpr_boundCode step]
  | .callBuiltin func arg => by
    cases func <;> simp [inExpr_exprCode arg, BuiltinFunc.toIr]
  | .methodCall object method args => by
    by_cases happ : method = "append" <;>
      simp [inExpr_exprCode object, inExpr_exprsCode args, happ]
  | .toolCallExpr descriptor kwargs => by
    have hmerged : (mergedCode kwargs (exprCode L descriptor) (literalCode L descriptor)
        (kwargsCode L kwargs)).all inExpr = true :=
      inExpr_mergedCode (inExpr_exprCode descriptor) (inExpr_literalCode descriptor)
        (inExpr_kwargsCode kwargs)
    simp [hmerged]
  | .submitJobExpr op config => by
    simp [inExpr_exprCode op, inExpr_exprCode config]
  | .parallelExpr descriptors => by simp [inExpr_exprsCode descriptors]
  | .list elements => by simp [inExpr_exprsCode elements]
  | .tuple elements => by simp [inExpr_exprsCode elements]
  | .dict entries => by simp [inExpr_entriesCode entries]
  | .range start stop step => by
    simp [inExpr_rangeBoundCode 0 start, inExpr_exprCode stop, inExpr_rangeBoundCode 1 step]
  | .parenthesized inner => by simp [inExpr_exprCode inner]

theorem inExpr_exprsCode : ∀ es : List Expr, (exprsCode L es).all inExpr = true
  | [] => rfl
  | e :: es => by simp [exprsCode, inExpr_exprCode e, inExpr_exprsCode es]

theorem inExpr_comparisonsCode : ∀ comparisons : List (CmpOp × Expr),
    (comparisonsCode L comparisons).all inExpr = true
  | [] => rfl
  | (op, e) :: comparisons => by
    simp [comparisonsCode, inExpr_exprCode e, inExpr_comparisonsCode comparisons]

theorem inExpr_entriesCode : ∀ entries : List (Expr × Expr),
    (entriesCode L entries).all inExpr = true
  | [] => rfl
  | (key, value) :: entries => by
    simp [entriesCode, inExpr_exprCode key, inExpr_exprCode value, inExpr_entriesCode entries]

theorem inExpr_kwargsCode : ∀ kwargs : List (String × Expr),
    (kwargsCode L kwargs).all inExpr = true
  | [] => rfl
  | (name, value) :: kwargs => by
    simp [kwargsCode, inExpr_exprCode value, inExpr_kwargsCode kwargs]

theorem inExpr_boundCode : ∀ e : Option Expr, (boundCode L e).all inExpr = true
  | none => rfl
  | some e => by simp [boundCode, inExpr_exprCode e]

theorem inExpr_rangeBoundCode (default : ℤ) : ∀ e : Option Expr,
    (rangeBoundCode L default e).all inExpr = true
  | none => rfl
  | some e => by simp [rangeBoundCode, inExpr_exprCode e]

theorem inExpr_literalCode : ∀ (e : Expr) (entries : List IrOp) (count : ℕ),
    literalCode L e = some (entries, count) → entries.all inExpr = true
  | .dict fields, entries, count, h => by
    simp only [literalCode, Option.some.injEq, Prod.mk.injEq] at h
    rw [← h.1]
    exact inExpr_entriesCode fields
  | .noneLiteral, _, _, h | .boolLiteral _, _, _, h | .intLiteral _, _, _, h
  | .floatLiteral _, _, _, h | .stringLiteral _, _, _, h | .name _, _, _, h
  | .binOp _ _ _, _, _, h | .unaryOp _ _, _, _, h | .compare _ _, _, _, h
  | .boolAnd _ _, _, _, h | .boolOr _ _, _, _, h | .boolNot _, _, _, h | .index _ _, _, _, h
  | .slice _ _ _ _, _, _, h | .callBuiltin _ _, _, _, h | .methodCall _ _ _, _, _, h
  | .toolCallExpr _ _, _, _, h | .submitJobExpr _ _, _, _, h | .parallelExpr _, _, _, h
  | .list _, _, _, h | .tuple _, _, _, h | .range _ _ _, _, _, h
  | .parenthesized _, _, _, h => by simp [literalCode] at h
end

end

/-! ### Runs through placed code -/

variable {env : Env}

variable {n : ℕ} {s s' : MeteredInterpreter}

theorem runFor_succ_of_running (h : step env s = .running s') :
    runFor env (n + 1) s = runFor env n s' := by
  rw [runFor, h]

/-- The first turn of a longer run. -/
theorem runFor_succ_running (h : runFor env (n + 1) s = .running s') :
    ∃ t, step env s = .running t ∧ runFor env n t = .running s' := by
  rw [runFor] at h
  cases hstep : step env s with
  | running t =>
    rw [hstep] at h
    exact ⟨t, rfl, h⟩
  | done result t =>
    rw [hstep] at h
    cases h

/-- A run of two lengths is a run of the first and then one of the second. -/
theorem runFor_add {m : ℕ} (h : runFor env m s = .running s') :
    runFor env (m + n) s = runFor env n s' := by
  induction m generalizing s with
  | zero =>
    cases h
    rw [Nat.zero_add]
  | succ m ih =>
    obtain ⟨t, hstep, hrun⟩ := runFor_succ_running h
    rw [Nat.add_right_comm, runFor_succ_of_running hstep]
    exact ih hrun

/-- One instruction of an expression. -/
theorem stays_step {op : IrOp} (hop : env.program.instructions[s.machine.pc]? = some op)
    (hin : op.inExpr = true) (h : step env s = .running s') :
    s'.machine.pc = s.machine.pc + 1 ∧ s'.machine.locals = s.machine.locals := by
  obtain ⟨-, op', hop', hexec⟩ := step_running h
  obtain rfl : op = op' := Option.some.inj (hop.symm.trans hop')
  have hstays := @Interp.machineStays_executeInstruction env op hin s.fetched
  rw [hexec] at hstays
  exact ⟨hstays.pc_eq, hstays.locals_eq⟩

/-- A run through the code of an expression comes out behind it. -/
theorem runFor_inExpr {code : List IrOp} (hcode : code.all inExpr = true)
    (hplaced : PlacedAt env.program.instructions s.machine.pc code)
    (h : runFor env code.length s = .running s') :
    s'.machine.pc = s.machine.pc + code.length ∧ s'.machine.locals = s.machine.locals := by
  induction code generalizing s with
  | nil =>
    cases h
    exact ⟨rfl, rfl⟩
  | cons op code ih =>
    obtain ⟨hop, hrest⟩ := Bool.and_eq_true_iff.mp hcode
    obtain ⟨t, hstep, hrun⟩ := runFor_succ_running h
    obtain ⟨hpc, hlocals⟩ := stays_step hplaced.head hop hstep
    have hih := ih hrest (by rw [hpc]; exact hplaced.tail) hrun
    rw [hih.2, hlocals, List.length_cons]
    exact ⟨by omega, rfl⟩

/-- The run gets through a piece of code at the program counter and leaves one value. -/
structure Leaves (env : Env) (code : List IrOp) (s : MeteredInterpreter) (v : ProgramValue)
    (s' : MeteredInterpreter) : Prop where
  placed : PlacedAt env.program.instructions s.machine.pc code
  ran : runFor env code.length s = .running s'
  stack_eq : s'.machine.stack = v :: s.machine.stack

/-- What the compiler makes of an accepted program. -/
def Compiled (ir : IrProgram) : Prop :=
  ∃ (program : Program) (bounds : IrBounds), compile program bounds = .ok ir

end Codegg.ToolProgram
