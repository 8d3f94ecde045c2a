import Codegg.ToolProgram.Comparisons

/-!
# Connectives, `append` and assertions

The right operand of `and` and `or` is evaluated whatever the left one is, `append`
drops its argument and leaves the list as it was, and the test of an assertion is not
branched on. A program has the expected meaning exactly as far as it does not depend
on these.
-/
namespace Codegg.ToolProgram

open Codegg.Library

/-! ### Running through code -/

section Through

variable {env : Env} {s s' t u : MeteredInterpreter} {code : List IrOp} {p n m : ℕ}

/-- A run that stops has stopped after any number of further turns. -/
theorem runFor_add_done {result : ProgramResult} (h : runFor env m s = .done result s') :
    runFor env (m + n) s = .done result s' := by
  induction m generalizing s with
  | zero => cases h
  | succ m ih =>
    rw [Nat.add_right_comm]
    rw [runFor] at h ⊢
    cases hstep : step env s with
    | running t =>
      rw [hstep] at h
      exact ih h
    | done result' t =>
      rw [hstep] at h
      exact h

/-- From `t` on, as long as it goes on, the run executes one instruction of the code at `p`
after the other. -/
def GoesThrough (env : Env) (p : ℕ) (code : List IrOp) (t : MeteredInterpreter) : Prop :=
  ∀ n u, n ≤ code.length → runFor env n t = .running u → u.machine.pc = p + n

theorem goesThrough_inExpr (hcode : code.all IrOp.inExpr = true)
    (hplaced : PlacedAt env.program.instructions t.machine.pc code) :
    GoesThrough env t.machine.pc code t := by
  intro n u hn hrun
  have hlength : (code.take n).length = n := List.length_take_of_le hn
  rw [← List.take_append_drop n code] at hplaced hcode
  rw [List.all_append, Bool.and_eq_true] at hcode
  rw [← hlength] at hrun
  rw [(runFor_inExpr hcode.1 hplaced.left hrun).1, hlength]

end Through

/-! ### Connectives -/

/-- `and` and `or`. -/
inductive Connective
  | and | or

namespace Connective

def expr : Connective → Expr → Expr → Expr
  | and => .boolAnd
  | or => .boolOr

def toIr : Connective → IrOp
  | and => .boolAnd
  | or => .boolOr

/-- Whether the left operand decides. -/
def Decides (left : ProgramValue) : Connective → Prop
  | and => left.isFalsy = true
  | or => left.isFalsy = false

theorem exprCode_expr (L : Pools) (op : Connective) (left right : Expr) :
    exprCode L (op.expr left right) = exprCode L left ++ exprCode L right ++ [op.toIr] := by
  cases op <;> simp [expr, toIr, exprCode]

end Connective

/-- A left operand that decides keeps the run, which is at `t`, from the code of the right
operand at `p`. -/
def SkipsRight (env : Env) (L : Pools) (op : Connective) (right : Expr) (left : ProgramValue)
    (p : ℕ) (t : MeteredInterpreter) : Prop :=
  op.Decides left → ¬GoesThrough env p (exprCode L right) t

variable {env : Env} {L : Pools} {s t s' : MeteredInterpreter} {val : ProgramValue}

theorem skipsRight_iff {op : Connective} {leftExpr right : Expr} {left : ProgramValue}
    (hplaced : PlacedAt env.program.instructions s.machine.pc
      (exprCode L (op.expr leftExpr right))) (hleft : Leaves env (exprCode L leftExpr) s left t) :
    SkipsRight env L op right left (s.machine.pc + (exprCode L leftExpr).length) t ↔
      ¬op.Decides left := by
  have hpc := (runFor_inExpr (inExpr_exprCode L leftExpr) hleft.placed hleft.ran).1
  rw [op.exprCode_expr, List.append_assoc] at hplaced
  have hright := hplaced.right.left
  rw [← hpc] at hright ⊢
  have hthrough := goesThrough_inExpr (inExpr_exprCode L right) hright
  exact ⟨fun h hdecides => h hdecides hthrough, fun h hdecides => absurd hdecides h⟩

/-! ### Lists -/

/-- Wherever the list is stored, the value is at its end afterwards. -/
def Appends (items : List ProgramValue) (val : ProgramValue) (s s' : MeteredInterpreter) : Prop :=
  ∀ slot : ℕ, s.machine.locals[slot]? = some (some (.list items)) →
    s'.machine.locals[slot]? = some (some (.list (items ++ [val])))

/-- A run through `append` leaves the list, and the locals as they were. -/
theorem append_run {u : MeteredInterpreter} {object arg : Expr} {list : ProgramValue}
    (hplaced : PlacedAt env.program.instructions s.machine.pc
      (exprCode L (.methodCall object "append" [arg])))
    (hobject : Leaves env (exprCode L object) s list t) (harg : Leaves env (exprCode L arg) t val u)
    (hstep : step env u = .running s') :
    s'.machine.stack = list :: s.machine.stack ∧ s'.machine.locals = s.machine.locals := by
  obtain ⟨hpct, hlocalst⟩ := runFor_inExpr (inExpr_exprCode L object) hobject.placed hobject.ran
  obtain ⟨hpcu, hlocalsu⟩ := runFor_inExpr (inExpr_exprCode L arg) harg.placed harg.ran
  have hcode : exprCode L (.methodCall object "append" [arg]) =
      exprCode L object ++ (exprCode L arg ++ [.pop]) := by
    simp [exprCode, exprsCode]
  rw [hcode] at hplaced
  have hpop := hplaced.right.right.head
  rw [← hpct, ← hpcu] at hpop
  have hstack : u.fetched.machine.stack = val :: list :: s.machine.stack := by
    show u.machine.stack = _
    rw [harg.stack_eq, hobject.stack_eq]
  obtain ⟨-, op, hop, hexec⟩ := step_running hstep
  obtain rfl : IrOp.pop = op := Option.some.inj (hpop.symm.trans hop)
  have hlocal : Interp.executeLocal env .pop = some (do let _ ← Exec.pop) := rfl
  rw [execute_of_ok hlocal (bind_of_ok (Exec.pop_of_cons hstack))] at hexec
  cases hexec
  exact ⟨rfl, hlocalsu.trans hlocalst⟩

theorem not_appends {items : List ProgramValue} {slot : ℕ}
    (hslot : s.machine.locals[slot]? = some (some (.list items)))
    (h : s'.machine.locals = s.machine.locals) : ¬Appends items val s s' := by
  intro happends
  have hextended := happends slot hslot
  rw [h, hslot] at hextended
  have hlength := congrArg List.length (ProgramValue.list.inj
    (Option.some.inj (Option.some.inj hextended)))
  simp at hlength

/-! ### Assertions -/

/-- The code of the message of an assertion. -/
def messageCode (L : Pools) : Option Expr → List IrOp
  | some m => exprCode L m
  | none => [.loadString (L.string "assertion failed")]

theorem stmtCode_assert (L : Pools) (p : ℕ) (test : Expr) (msg : Option Expr) :
    stmtCode L p (.assert test msg) = exprCode L test ++ (messageCode L msg ++ [.pop]) := by
  cases msg <;> simp [stmtCode, messageCode]

theorem inExpr_messageCode (L : Pools) (msg : Option Expr) :
    (messageCode L msg).all IrOp.inExpr = true := by
  cases msg with
  | none => rfl
  | some m => exact inExpr_exprCode L m

/-- Within so many turns the run ends in an execution failure, as `fail` does. -/
def FailsWithin (env : Env) (n : ℕ) (t : MeteredInterpreter) : Prop :=
  ∃ k result u, k ≤ n ∧ runFor env k t = .done result u ∧
    result.failureClass = some .execution

/-- A falsy test ends the run, which is at `t`, in a failure before the next statement. -/
def AssertStops (env : Env) (L : Pools) (msg : Option Expr) (test : ProgramValue)
    (t : MeteredInterpreter) : Prop :=
  test.isFalsy = true → FailsWithin env ((messageCode L msg).length + 1) t

/-- The instruction that drops the message does not fail. -/
theorem pop_not_execution {result : ProgramResult}
    (hop : env.program.instructions[s.machine.pc]? = some .pop) (h : step env s = .done result s') :
    result.failureClass ≠ some .execution := by
  intro hclass
  obtain ⟨e, m, herr, he⟩ := step_done_execution hop rfl h hclass
  cases hstack : s.fetched.machine.stack with
  | nil =>
    rw [bind_of_error (Exec.pop_of_nil hstack)] at herr
    cases herr
    cases he
  | cons val stack =>
    rw [bind_of_ok (Exec.pop_of_cons hstack)] at herr
    cases herr

/-- The rest of an assertion fails exactly if its message does. -/
theorem rest_fails_iff {code : List IrOp} (hcode : code.all IrOp.inExpr = true)
    (hplaced : PlacedAt env.program.instructions t.machine.pc (code ++ [.pop])) :
    FailsWithin env (code.length + 1) t ↔ FailsWithin env code.length t := by
  constructor
  · rintro ⟨k, result, u, hk, hrun, hclass⟩
    rcases Nat.lt_or_ge code.length k with hlt | hle
    · obtain rfl : k = code.length + 1 := by omega
      cases hmessage : runFor env code.length t with
      | done result' u' =>
        rw [runFor_add_done hmessage] at hrun
        cases hrun
        exact ⟨code.length, result, u, le_rfl, hmessage, hclass⟩
      | running u' =>
        rw [runFor_add hmessage] at hrun
        have hpop := hplaced.right.head
        rw [← (runFor_inExpr hcode hplaced.left hmessage).1] at hpop
        cases hstep : step env u' with
        | running v =>
          rw [runFor_succ_of_running hstep] at hrun
          cases hrun
        | done result' v =>
          rw [runFor, hstep] at hrun
          cases hrun
          exact absurd hclass (pop_not_execution hpop hstep)
    · exact ⟨k, result, u, hle, hrun, hclass⟩
  · rintro ⟨k, result, u, hk, hrun, hclass⟩
    exact ⟨k, result, u, hk.trans (Nat.le_succ _), hrun, hclass⟩

theorem assertStops_iff {p : ℕ} {test : Expr} {msg : Option Expr}
    (hplaced : PlacedAt env.program.instructions s.machine.pc
      (stmtCode L p (.assert test msg))) (htest : Leaves env (exprCode L test) s val t) :
    AssertStops env L msg val t ↔
      val.isFalsy = false ∨ FailsWithin env (messageCode L msg).length t := by
  have hpc := (runFor_inExpr (inExpr_exprCode L test) htest.placed htest.ran).1
  rw [stmtCode_assert] at hplaced
  have hrest := hplaced.right
  rw [← hpc] at hrest
  unfold AssertStops
  rw [rest_fails_iff (inExpr_messageCode L msg) hrest]
  cases val.isFalsy <;> simp

/-! ### All together -/

/-- A chain computes the conjunction exactly if it has one operator, the right operand is
skipped exactly if the left one does not decide, no list is ever extended, and an assertion
stops the program exactly if its test holds or its message fails. -/
theorem exprSemantics_iff (env : Env) (L : Pools) {ops : List CmpOp} (hops : ops ≠ []) :
    (ChainMeets ops ↔ ops.length = 1) ∧
    (∀ (op : Connective) (leftExpr right : Expr) (left : ProgramValue) (s t : MeteredInterpreter),
      PlacedAt env.program.instructions s.machine.pc (exprCode L (op.expr leftExpr right)) →
      Leaves env (exprCode L leftExpr) s left t →
      (SkipsRight env L op right left (s.machine.pc + (exprCode L leftExpr).length) t ↔
        ¬op.Decides left)) ∧
    (∀ (object arg : Expr) (items : List ProgramValue) (val : ProgramValue) (slot : ℕ)
      (s t u s' : MeteredInterpreter),
      PlacedAt env.program.instructions s.machine.pc
        (exprCode L (.methodCall object "append" [arg])) →
      s.machine.locals[slot]? = some (some (.list items)) →
      Leaves env (exprCode L object) s (.list items) t → Leaves env (exprCode L arg) t val u →
      step env u = .running s' → ¬Appends items val s s') ∧
    ∀ (p : ℕ) (test : Expr) (msg : Option Expr) (val : ProgramValue) (s t : MeteredInterpreter),
      PlacedAt env.program.instructions s.machine.pc (stmtCode L p (.assert test msg)) →
      Leaves env (exprCode L test) s val t →
      (AssertStops env L msg val t ↔
        val.isFalsy = false ∨ FailsWithin env (messageCode L msg).length t) := by
  refine ⟨chainMeets_iff hops, ?_, ?_, ?_⟩
  · intro op leftExpr right left s t hplaced hleft
    exact skipsRight_iff hplaced hleft
  · intro object arg items val slot s t u s' hplaced hslot hobject harg hstep
    exact not_appends hslot (append_run hplaced hobject harg hstep).2
  · intro p test msg val s t hplaced htest
    exact assertStops_iff hplaced htest

/-- The code of `True and False`, of `assert True` and of `xs.append(None)`. -/
def smallEnv : Env :=
  .plain ⟨[.loadTrue, .loadFalse, .boolAnd, .loadTrue, .loadString 0, .pop, .loadLocal 0,
      .loadNone, .pop], 1, ⟨9, 0, 0, 0, 0, 0, 0, 0, 99⟩, ["assertion failed"], [], []⟩
    (.fromBounds ⟨9, 0, 0, 0, 0, 0, 0, 0, 99⟩)

def smallPools : Pools := ⟨["assertion failed"], [], [], ["xs"]⟩

/-- At an instruction, with an empty list in the local. -/
def smallState (pc : ℕ) : MeteredInterpreter :=
  let s := MeteredInterpreter.new smallEnv.program
  { s with machine := { s.machine with pc := pc, locals := [some (.list [])] } }

/-- The state some turns later. -/
def smallAfter (n pc : ℕ) : MeteredInterpreter := (runFor smallEnv n (smallState pc)).state

theorem exprSemantics_iff_small :
    ChainMeets [.lt] ∧
      SkipsRight smallEnv smallPools .and (.boolLiteral false) (.bool true) 1 (smallAfter 1 0) ∧
      ¬Appends [] .none (smallState 6) (smallAfter 3 6) ∧
      AssertStops smallEnv smallPools none (.bool true) (smallAfter 1 3) := by
  obtain ⟨hchain, hconnective, happend, hassert⟩ :=
    @exprSemantics_iff smallEnv smallPools [.lt] (List.cons_ne_nil _ _)
  refine ⟨hchain.mpr rfl, ?_, ?_, ?_⟩
  · refine (hconnective .and (.boolLiteral true) (.boolLiteral false) (.bool true) (smallState 0)
      (smallAfter 1 0) ⟨_, rfl⟩ ⟨⟨_, rfl⟩, rfl, rfl⟩).mpr ?_
    exact Bool.false_ne_true
  · exact happend (.name "xs") .noneLiteral [] .none 0 (smallState 6) (smallAfter 1 6)
      (smallAfter 2 6) (smallAfter 3 6) ⟨_, rfl⟩ rfl ⟨⟨_, rfl⟩, rfl, rfl⟩ ⟨⟨_, rfl⟩, rfl, rfl⟩ rfl
  · exact (hassert 0 (.boolLiteral true) none (.bool true) (smallState 3) (smallAfter 1 3)
      ⟨_, rfl⟩ ⟨⟨_, rfl⟩, rfl, rfl⟩).mpr (.inl rfl)

/-- A program of which every line goes wrong. -/
def misreadProgram : Program where
  body :=
    [.assign ["xs"] (.list []),
      .assign ["ys"] (.methodCall (.name "xs") "append" [.noneLiteral]),
      .assign ["b"] (.boolAnd (.boolLiteral false)
        (.toolCallExpr (.dict [(.stringLiteral "tool", .stringLiteral "t")]) [])),
      .assert (.boolLiteral false) none,
      .emit (.list [.name "xs", .compare (.intLiteral 1)
        [(.eq, .intLiteral 0), (.eq, .boolLiteral false)]])]

def misreadBounds : IrBounds := ⟨40, 0, 0, 1, 1, 0, 0, 9, 1000⟩

def misreadIr : IrProgram :=
  match compile misreadProgram misreadBounds with
  | .ok ir => ir
  | .error _ => ⟨[], 0, misreadBounds, [], [], []⟩

theorem compile_misread : compile misreadProgram misreadBounds = .ok misreadIr := by
  have hok : (compile misreadProgram misreadBounds).isOk = true := by decide +kernel
  unfold misreadIr
  cases hc : compile misreadProgram misreadBounds with
  | ok ir => rfl
  | error e =>
    rw [hc] at hok
    cases hok

def misreadRun : Outcome :=
  run (Env.plain misreadIr (.fromBounds misreadBounds)) (.new misreadIr)

/-- Completed with an empty list and a true comparison, and one call. -/
def Outcome.misread : Outcome → Bool
  | .done result _ =>
    match result.status, result.output with
    | .completed, some (.list [.list [], .bool true]) => result.callsCompleted == 1
    | _, _ => false
  | .running _ => false

/-- `False and call(..)` makes the call, the false assertion does not stop the program, the
list is empty after `append`, and `1 == 0 == False` is true. -/
theorem misread_completes :
    compile misreadProgram misreadBounds = .ok misreadIr ∧
      ∃ result s, misreadRun = .done result s ∧ result.status = .completed ∧
        result.callsCompleted = 1 ∧ result.output = some (.list [.list [], .bool true]) := by
  refine ⟨compile_misread, ?_⟩
  have hmisread : misreadRun.misread = true := by decide +kernel
  unfold Outcome.misread at hmisread
  split at hmisread
  · rename_i result s hrun
    split at hmisread
    · exact ⟨result, s, hrun, by assumption, by simpa using hmisread, by assumption⟩
    · cases hmisread
  · cases hmisread

end Codegg.ToolProgram
