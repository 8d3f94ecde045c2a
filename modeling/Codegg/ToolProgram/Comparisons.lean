import Codegg.ToolProgram.ExprRuns

/-!
# Comparison chains

A chain of comparisons is compiled from left to right: every comparison after the
first has the truth value of the one before as its left operand. With one operator
the code computes the comparison; with more there are always operands for which it
does not compute the conjunction of the pairwise comparisons.
-/
namespace Codegg.ToolProgram

open Codegg.Library Interp Exec Compiler

/-! ### Turns of local instructions -/

variable {m : StackMachine} {left right val : ProgramValue} {e : Expr}

section Turns

variable {env : Env} {s s' : MeteredInterpreter} {op : IrOp} {x : Exec Unit}

theorem binary_of_ok {f : ProgramValue → ProgramValue → Except InterpreterError ProgramValue}
    {m : StackMachine} {left right val : ProgramValue} {stack : List ProgramValue}
    (hm : m.stack = right :: left :: stack) (h : f left right = .ok val) :
    binary env f m = push env val { m with stack := stack } := by
  unfold binary
  rw [bind_of_ok (pop_of_cons hm), bind_of_ok (pop_of_cons rfl)]
  rw [h]
  rfl

theorem binary_of_error {f : ProgramValue → ProgramValue → Except InterpreterError ProgramValue}
    {stack : List ProgramValue} {e : InterpreterError} (hm : m.stack = right :: left :: stack)
    (h : f left right = .error e) :
    binary env f m = .error e { m with stack := stack } := by
  unfold binary
  rw [bind_of_ok (pop_of_cons hm), bind_of_ok (pop_of_cons rfl)]
  rw [h]
  rfl

theorem execute_of_ok (hx : executeLocal env op = some x) (h : x s.machine = .ok () m) :
    executeInstruction env op s = .ok .continue_ { s with machine := m } := by
  unfold executeInstruction
  rw [hx]
  have hm : onMachine x s = .ok () { s with machine := m } := by
    unfold onMachine
    rw [h]
  exact bind_of_ok hm

theorem execute_of_error {e : InterpreterError} (hx : executeLocal env op = some x)
    (h : x s.machine = .error e m) :
    executeInstruction env op s = .error e { s with machine := m } := by
  unfold executeInstruction
  rw [hx]
  have hm : onMachine x s = .error e { s with machine := m } := by
    unfold onMachine
    rw [h]
  exact bind_of_error hm

/-- A push that succeeds puts the value on top and counts its bytes. -/
theorem push_ok {m' : StackMachine} (h : push env val m = .ok () m') :
    m' = { m with
      stack := val :: m.stack
      budget := { m.budget with
        bytes := m.budget.bytes + val.byteSize env.host.toRendering } } := by
  rw [push_eq] at h
  split_ifs at h
  cases h
  rfl

/-- A push fails only for its bytes. -/
theorem push_error {m' : StackMachine} {e : InterpreterError}
    (h : push env val m = .error e m') : e.failureClass = .budgetExhausted := by
  rw [push_eq] at h
  split_ifs at h
  cases h
  rfl

/-- How a turn can end in an execution failure: its instruction has raised one. -/
theorem step_done_execution {result : ProgramResult}
    (hop : env.program.instructions[s.machine.pc]? = some op)
    (hx : executeLocal env op = some x) (h : step env s = .done result s')
    (hclass : result.failureClass = some .execution) :
    ∃ e m, x s.fetched.machine = .error e m ∧ e.failureClass = .execution := by
  unfold step at h
  split at h
  · rename_i i _
    cases h
    cases i <;> cases hclass
  split at h
  · cases h
    cases hclass
  split at h
  · cases h
    cases hclass
  rw [hop] at h
  change afterInstruction env (executeInstruction env op s.fetched) = _ at h
  cases hr : x s.fetched.machine with
  | ok u m =>
    rw [execute_of_ok hx hr] at h
    cases h
  | error e m =>
    rw [execute_of_error hx hr] at h
    cases h
    refine ⟨e, m, rfl, ?_⟩
    cases e <;> first | rfl | cases hclass

end Turns

/-! ### The conjunction -/

/-- The conjunction of the pairwise comparisons, as far as it is decided. -/
def conjunction (left : ProgramValue) : List (CmpOp × ProgramValue) → Except InterpreterError Bool
  | [] => .ok true
  | (op, right) :: rest => do
    let holds ← ProgramValue.evalCompare op.toIr left right
    if holds then conjunction right rest else return false

/-- The run makes the comparisons one after the other, each operand leaving its value. -/
inductive ComparisonsRun (env : Env) (L : Pools) :
    List (CmpOp × Expr) → List (CmpOp × ProgramValue) → MeteredInterpreter →
      MeteredInterpreter → Prop
  | nil (s : MeteredInterpreter) : ComparisonsRun env L [] [] s s
  | cons {op : CmpOp} {e : Expr} {right : ProgramValue} {comparisons : List (CmpOp × Expr)}
      {values : List (CmpOp × ProgramValue)} {s t t' s' : MeteredInterpreter}
      (operand : Leaves env (exprCode L e) s right t) (compared : step env t = .running t')
      (rest : ComparisonsRun env L comparisons values t' s') :
      ComparisonsRun env L ((op, e) :: comparisons) ((op, right) :: values) s s'

/-- Chains with these operators evaluate to the conjunction of the pairwise comparisons:
a run through such a chain leaves it, and no comparison fails while the conjunction has
a value. -/
def ChainMeets (ops : List CmpOp) : Prop :=
  ∀ (env : Env) (L : Pools) (leftExpr : Expr) (comparisons : List (CmpOp × Expr))
    (s t : MeteredInterpreter) (left : ProgramValue),
    Compiled env.program → comparisons.map Prod.fst = ops →
    PlacedAt env.program.instructions s.machine.pc (exprCode L (.compare leftExpr comparisons)) →
    Leaves env (exprCode L leftExpr) s left t →
    (∀ values s' b, ComparisonsRun env L comparisons values t s' →
      conjunction left values = .ok b → s'.machine.stack = .bool b :: s.machine.stack) ∧
    ∀ done op e rest values right u u' result u'' b,
      comparisons = done ++ (op, e) :: rest → ComparisonsRun env L done values t u →
      Leaves env (exprCode L e) u right u' → step env u' = .done result u'' →
      result.failureClass = some .execution →
      conjunction left (values ++ [(op, right)]) ≠ .ok b

section Comparisons

variable {env : Env} {L : Pools} {s s' t : MeteredInterpreter} {op : CmpOp} {e : Expr}
  {left right : ProgramValue} {stack : List ProgramValue}

/-- The instruction of a comparison stands behind the code of its operand. -/
theorem compare_placed {comparisons : List (CmpOp × Expr)}
    (hplaced : PlacedAt env.program.instructions s.machine.pc
      (comparisonsCode L ((op, e) :: comparisons)))
    (h : Leaves env (exprCode L e) s right t) :
    env.program.instructions[t.machine.pc]? = some (.compare op.toIr) ∧
      PlacedAt env.program.instructions (t.machine.pc + 1) (comparisonsCode L comparisons) := by
  have hpc := (runFor_inExpr (inExpr_exprCode L e) h.placed h.ran).1
  rw [comparisonsCode, List.append_assoc] at hplaced
  have hrest := hplaced.right
  rw [← hpc] at hrest
  exact ⟨hrest.head, hrest.tail⟩

variable (env) in
theorem binary_compare {b : Bool} {m : StackMachine} (hm : m.stack = right :: left :: stack)
    (hb : ProgramValue.evalCompare op.toIr left right = .ok b) :
    binary env (fun l r => (ProgramValue.evalCompare op.toIr l r).map .bool) m =
      push env (.bool b) { m with stack := stack } :=
  binary_of_ok hm (by rw [hb]; rfl)

/-- A comparison that goes on leaves its truth value. -/
theorem compare_running (hop : env.program.instructions[s.machine.pc]? = some (.compare op.toIr))
    (hs : s.machine.stack = right :: left :: stack) (h : step env s = .running s') :
    ∃ b, ProgramValue.evalCompare op.toIr left right = .ok b ∧
      s'.machine.stack = .bool b :: stack ∧ s'.machine.pc = s.machine.pc + 1 := by
  have hpc := (stays_step hop rfl h).1
  obtain ⟨-, op', hop', hexec⟩ := step_running h
  obtain rfl : IrOp.compare op.toIr = op' := Option.some.inj (hop.symm.trans hop')
  have hfetched : s.fetched.machine.stack = right :: left :: stack := hs
  cases hb : ProgramValue.evalCompare op.toIr left right with
  | error err =>
    rw [execute_of_error rfl (binary_of_error hfetched (by rw [hb]; rfl))] at hexec
    cases hexec
  | ok b =>
    have hbinary := binary_compare env hfetched hb
    cases hpush : push env (.bool b) { s.fetched.machine with stack := stack } with
    | error err m =>
      rw [execute_of_error rfl (hbinary.trans hpush)] at hexec
      cases hexec
    | ok u m =>
      rw [execute_of_ok rfl (hbinary.trans hpush)] at hexec
      cases hexec
      refine ⟨b, rfl, ?_, hpc⟩
      rw [push_ok hpush]

/-- A comparison that ends in an execution failure is one of values that cannot be compared. -/
theorem compare_done {result : ProgramResult}
    (hop : env.program.instructions[s.machine.pc]? = some (.compare op.toIr))
    (hs : s.machine.stack = right :: left :: stack) (h : step env s = .done result s')
    (hclass : result.failureClass = some .execution) :
    ∃ err, ProgramValue.evalCompare op.toIr left right = .error err := by
  obtain ⟨err, m, herr, hexec⟩ := step_done_execution hop rfl h hclass
  have hfetched : s.fetched.machine.stack = right :: left :: stack := hs
  cases hb : ProgramValue.evalCompare op.toIr left right with
  | error err' => exact ⟨err', rfl⟩
  | ok b =>
    have hbinary := binary_compare env hfetched hb
    rw [push_error (hbinary.symm.trans herr)] at hexec
    cases hexec

/-- A single comparison is the conjunction. -/
theorem chainMeets_single (op : CmpOp) : ChainMeets [op] := by
  intro env L leftExpr comparisons s t left _ hops hplaced hleft
  obtain ⟨e, rfl⟩ : ∃ e, comparisons = [(op, e)] := by
    cases comparisons with
    | nil => cases hops
    | cons c cs =>
      obtain ⟨rfl, hnil⟩ := List.cons.inj hops
      rw [List.map_eq_nil_iff.mp hnil]
      exact ⟨c.2, rfl⟩
  have hpc := (runFor_inExpr (inExpr_exprCode L leftExpr) hleft.placed hleft.ran).1
  have hcompare : PlacedAt env.program.instructions t.machine.pc (comparisonsCode L [(op, e)]) := by
    rw [hpc]
    exact hplaced.right
  constructor
  · intro values s' b hrun hconj
    cases hrun with
    | cons operand compared rest =>
      cases rest
      have hstack := operand.stack_eq
      rw [hleft.stack_eq] at hstack
      obtain ⟨b', hb', hs', -⟩ := compare_running (compare_placed hcompare operand).1 hstack compared
      simp only [conjunction, hb'] at hconj
      cases b' <;> cases hconj <;> exact hs'
  · intro done op' e' rest values right u u' result u'' b hsplit hrun hoperand hstep hclass hconj
    cases done with
    | cons d ds => simp at hsplit
    | nil =>
      cases hrun
      obtain ⟨hpair, rfl⟩ := List.cons.inj hsplit
      cases hpair
      have hstack := hoperand.stack_eq
      rw [hleft.stack_eq] at hstack
      obtain ⟨err, herr⟩ := compare_done (compare_placed hcompare hoperand).1 hstack hstep hclass
      simp only [List.nil_append, conjunction, herr] at hconj
      cases hconj

end Comparisons

/-! ### Running closed code -/

/-- Nothing stops the next `n` instructions that push `b` bytes. -/
structure Ready (env : Env) (n b : ℕ) (s : MeteredInterpreter) : Prop where
  polls : ∀ k, env.poll k = none
  going : s.machine.terminated = false
  steps_le : s.machine.budget.steps + n ≤ env.limits.maxSteps
  bytes_le : s.machine.budget.bytes + b ≤ env.limits.maxValueGrowth

attribute [local simp] ProgramValue.byteSize

section Closed

variable {env : Env} {s s' t : MeteredInterpreter} {op : IrOp} {x : Exec Unit} {n b c : ℕ}
  {val : ProgramValue} {stack : List ProgramValue}

theorem step_of_ready (h : Ready env (n + 1) b s)
    (hop : env.program.instructions[s.machine.pc]? = some op) :
    step env s = afterInstruction env (executeInstruction env op s.fetched) := by
  have hsteps : ¬s.machine.budget.steps ≥ env.limits.maxSteps := by
    have := h.steps_le
    omega
  unfold step
  rw [h.polls, h.going, if_neg Bool.false_ne_true, if_neg hsteps, hop]

theorem Ready.weaken {n' b' : ℕ} (h : Ready env n b s) (hn : n' ≤ n) (hb : b' ≤ b) :
    Ready env n' b' s where
  polls := h.polls
  going := h.going
  steps_le := by have := h.steps_le; omega
  bytes_le := by have := h.bytes_le; omega

/-- An instruction that comes down to a push. -/
theorem step_of_push (h : Ready env (n + 1) (c + b) s)
    (hop : env.program.instructions[s.machine.pc]? = some op)
    (hx : executeLocal env op = some x) (hsize : val.byteSize env.host.toRendering ≤ c)
    (hpush : x s.fetched.machine = push env val { s.fetched.machine with stack := stack }) :
    ∃ s', step env s = .running s' ∧ s'.machine.stack = val :: stack ∧
      s'.machine.pc = s.machine.pc + 1 ∧ Ready env n b s' := by
  have hbytes := h.bytes_le
  have hsteps := h.steps_le
  have hfits : ¬s.machine.budget.bytes + val.byteSize env.host.toRendering >
      env.limits.maxValueGrowth := by omega
  have hok := (hpush.trans (push_eq val _)).trans (if_neg hfits)
  have hstep := step_of_ready h hop
  rw [execute_of_ok hx hok] at hstep
  refine ⟨_, hstep, rfl, rfl, h.polls, h.going, ?_, ?_⟩
  · show s.machine.budget.steps + 1 + n ≤ _
    omega
  · show s.machine.budget.bytes + val.byteSize env.host.toRendering + b ≤ _
    omega

/-- Wherever it stands and whatever is on the stack, the code leaves this value, at a fixed
cost. -/
def Pushes (code : List IrOp) (val : ProgramValue) : Prop :=
  ∃ k c, ∀ (env : Env) (n b : ℕ) (s : MeteredInterpreter), Ready env (k + n) (c + b) s →
    PlacedAt env.program.instructions s.machine.pc code →
    ∃ t, Leaves env code s val t ∧ Ready env n b t

theorem pushes_op (hsize : ∀ r, val.byteSize r ≤ c)
    (hx : ∀ env, ∃ x, executeLocal env op = some x ∧ ∀ m, x m = push env val m) :
    Pushes [op] val := by
  refine ⟨1, c, fun env n b s h hplaced => ?_⟩
  obtain ⟨x, hlocal, hpush⟩ := hx env
  obtain ⟨t, hstep, hstack, -, hready⟩ := @step_of_push _ _ _ _ _ _ _ _ s.machine.stack
    (h.weaken (Nat.add_comm 1 n).ge le_rfl) hplaced.head hlocal (hsize _) (hpush _)
  exact ⟨t, ⟨hplaced, runFor_succ_of_running hstep, hstack⟩, hready⟩

/-- One more instruction turns the value into another. -/
theorem Pushes.apply {code : List IrOp} {val' : ProgramValue} (h : Pushes code val)
    (hcode : code.all IrOp.inExpr = true) (hsize : ∀ r, val'.byteSize r ≤ c)
    (hx : ∀ env, ∃ x, executeLocal env op = some x ∧
      ∀ m stack, m.stack = val :: stack → x m = push env val' { m with stack := stack }) :
    Pushes (code ++ [op]) val' := by
  obtain ⟨k, d, hcost⟩ := h
  refine ⟨k + 1, d + c, fun env n b s hready hplaced => ?_⟩
  obtain ⟨x, hlocal, hpush⟩ := hx env
  obtain ⟨t, hleaves, hready'⟩ := hcost env (n + 1) (c + b) s
    (hready.weaken (by omega) (by omega)) hplaced.left
  have hop := hplaced.right
  rw [← (runFor_inExpr hcode hplaced.left hleaves.ran).1] at hop
  obtain ⟨u, hstep, hstack, -, hready''⟩ := @step_of_push _ _ _ _ _ _ _ _ s.machine.stack hready'
    hop.head hlocal (hsize _) (hpush _ _ hleaves.stack_eq)
  refine ⟨u, ⟨hplaced, ?_, hstack⟩, hready''⟩
  rw [List.length_append, runFor_add hleaves.ran]
  exact runFor_succ_of_running hstep

theorem pushes_none (L : Pools) : Pushes (exprCode L .noneLiteral) .none :=
  pushes_op (c := 1) (fun r => by simp) fun env => ⟨_, rfl, fun m => rfl⟩

theorem pushes_bool (L : Pools) (b : Bool) : Pushes (exprCode L (.boolLiteral b)) (.bool b) := by
  refine pushes_op (c := 1) (fun r => by simp) fun env => ?_
  cases b
  · exact ⟨_, rfl, fun m => rfl⟩
  · exact ⟨_, rfl, fun m => rfl⟩

theorem pushes_nil (L : Pools) : Pushes (exprCode L (.list [])) (.list []) :=
  pushes_op (c := 16) (fun r => by simp [ProgramValue.itemBytes])
    fun env => ⟨_, rfl, fun m => rfl⟩

/-- A list of one element. -/
theorem pushes_singleton {L : Pools} (h : Pushes (exprCode L e) val)
    (hsize : ∀ r, val.byteSize r ≤ c) : Pushes (exprCode L (.list [e])) (.list [val]) := by
  have hcode : exprCode L (.list [e]) = exprCode L e ++ [.makeList 1] := by
    simp [exprCode, exprsCode]
  rw [hcode]
  refine h.apply (c := 16 + c) (inExpr_exprCode L e) (fun r => ?_) fun env => ⟨_, rfl, ?_⟩
  · have := hsize r
    simp [ProgramValue.itemBytes, this]
  · intro m stack hm
    rw [bind_of_ok (show popMany 1 [] m = .ok [val] { m with stack := stack } by
      unfold popMany
      rw [bind_of_ok (pop_of_cons hm)]
      rfl)]

/-- The length of a list, a number that needs no pool. -/
theorem pushes_len {L : Pools} {items : List ProgramValue} (h : Pushes (exprCode L e) (.list items))
    :
    Pushes (exprCode L (.callBuiltin .len e)) (.int items.length) := by
  refine h.apply (c := 8) (inExpr_exprCode L e) (fun r => by simp)
    fun env => ⟨_, rfl, ?_⟩
  intro m stack hm
  show (pop >>= _) m = _
  rw [bind_of_ok (pop_of_cons hm)]
  rfl

theorem compare_goes_on {op : CmpOp} {holds : Bool} (h : Ready env (n + 1) (1 + b) s)
    (hop : env.program.instructions[s.machine.pc]? = some (.compare op.toIr))
    (hs : s.machine.stack = right :: left :: stack)
    (hcmp : ProgramValue.evalCompare op.toIr left right = .ok holds) :
    ∃ s', step env s = .running s' ∧ s'.machine.stack = .bool holds :: stack ∧
      s'.machine.pc = s.machine.pc + 1 ∧ Ready env n b s' := by
  have hfetched : s.fetched.machine.stack = right :: left :: stack := hs
  refine step_of_push h hop rfl ?_ (binary_of_ok hfetched (by rw [hcmp]; rfl))
  simp

theorem compare_stops {op : CmpOp} {msg : String} (h : Ready env (n + 1) b s)
    (hop : env.program.instructions[s.machine.pc]? = some (.compare op.toIr))
    (hs : s.machine.stack = right :: left :: stack)
    (hcmp : ProgramValue.evalCompare op.toIr left right = .error (.typeError msg)) :
    ∃ result s', step env s = .done result s' ∧ result.failureClass = some .execution := by
  have hfetched : s.fetched.machine.stack = right :: left :: stack := hs
  have hstep := step_of_ready h hop
  rw [execute_of_error rfl (binary_of_error hfetched (by rw [hcmp]; rfl))] at hstep
  exact ⟨_, _, hstep, rfl⟩

end Closed

/-! ### Chains of several operators -/

/-- An operand that is right of a truth value and makes the comparison true or an error. -/
def linkOperand : CmpOp → Bool → Expr × ProgramValue
  | .eq, r => (.boolLiteral r, .bool r)
  | .in_, r => (.list [.boolLiteral r], .list [.bool r])
  | _, _ => (.noneLiteral, .none)

/-- Operands for the operators behind the first of a chain, whose comparison has given `r`. -/
def linkComparisons : Bool → List CmpOp → List (CmpOp × Expr)
  | _, [] => []
  | r, op :: ops => (op, (linkOperand op r).1) :: linkComparisons true ops

theorem pushes_linkOperand (L : Pools) (op : CmpOp) (r : Bool) :
    Pushes (exprCode L (linkOperand op r).1) (linkOperand op r).2 := by
  cases op with
  | eq => exact pushes_bool L r
  | in_ => exact pushes_singleton (c := 1) (pushes_bool L r) fun _ => by simp
  | _ => exact pushes_none L

theorem evalCompare_linkOperand (op : CmpOp) (r : Bool) :
    ProgramValue.evalCompare op.toIr (.bool r) (linkOperand op r).2 = .ok true ∨
      ∃ msg, ProgramValue.evalCompare op.toIr (.bool r) (linkOperand op r).2 =
        .error (.typeError msg) := by
  cases op with
  | eq | notEq | in_ | notIn => left; cases r <;> rfl
  | lt | ltE | gt | gtE => right; exact ⟨_, rfl⟩

/-- Behind the first comparison the code comes out with `true`, or fails on the way. -/
theorem links_run (L : Pools) (r : Bool) (ops : List CmpOp) :
    ∃ k c, ∀ (env : Env) (s : MeteredInterpreter) (stack : List ProgramValue), Ready env k c s →
      PlacedAt env.program.instructions s.machine.pc (comparisonsCode L (linkComparisons r ops)) →
      s.machine.stack = .bool r :: stack →
      (∃ values s', ComparisonsRun env L (linkComparisons r ops) values s s' ∧
        s'.machine.stack = .bool (ops.isEmpty && r || !ops.isEmpty) :: stack) ∨
      ∃ done op e rest values right u u' result u'',
        linkComparisons r ops = done ++ (op, e) :: rest ∧ ComparisonsRun env L done values s u ∧
        Leaves env (exprCode L e) u right u' ∧ step env u' = .done result u'' ∧
        result.failureClass = some .execution := by
  induction ops generalizing r with
  | nil => exact ⟨0, 0, fun env s stack _ _ hs => .inl ⟨_, s, .nil s, by simpa using hs⟩⟩
  | cons op ops ih =>
    obtain ⟨k, c, hrest⟩ := ih true
    obtain ⟨k', c', hoperand⟩ := pushes_linkOperand L op r
    refine ⟨k' + (k + 1), c' + (1 + c), fun env s stack hready hplaced hs => ?_⟩
    have hcode : PlacedAt env.program.instructions s.machine.pc
        (exprCode L (linkOperand op r).1) := by
      rw [linkComparisons, comparisonsCode, List.append_assoc] at hplaced
      exact hplaced.left
    obtain ⟨t, hleaves, hready'⟩ := hoperand env (k + 1) (1 + c) s hready hcode
    obtain ⟨hop, hnext⟩ := compare_placed hplaced hleaves
    have hstack : t.machine.stack = (linkOperand op r).2 :: .bool r :: stack := by
      rw [hleaves.stack_eq, hs]
    rcases evalCompare_linkOperand op r with htrue | ⟨msg, herror⟩
    · obtain ⟨t', hstep, hs', hpc, hready''⟩ := compare_goes_on hready' hop hstack htrue
      rw [← hpc] at hnext
      rcases hrest env t' stack hready'' hnext hs' with ⟨values, s', hrun, hend⟩ | hfails
      · refine .inl ⟨_, s', .cons hleaves hstep hrun, ?_⟩
        rw [hend]
        cases ops <;> rfl
      · obtain ⟨done, op', e, rest, values, right, u, u', result, u'', hsplit, hrun, hrest⟩ := hfails
        refine .inr ⟨(op, (linkOperand op r).1) :: done, op', e, rest, _, right, u, u', result, u'',
          ?_, .cons hleaves hstep hrun, hrest⟩
        rw [linkComparisons, hsplit]
        rfl
    · obtain ⟨result, u'', hstep, hclass⟩ := compare_stops hready' hop hstack herror
      exact .inr ⟨[], op, _, linkComparisons true ops, [], _, s, t, result, u'', rfl, .nil s, hleaves,
        hstep, hclass⟩

/-- The number zero, written without a constant. -/
def zeroExpr : Expr := .callBuiltin .len (.list [])

/-- The number one. -/
def oneExpr : Expr := .callBuiltin .len (.list [.noneLiteral])

theorem pushes_zero (L : Pools) : Pushes (exprCode L zeroExpr) (.int 0) := pushes_len (pushes_nil L)

theorem pushes_one (L : Pools) : Pushes (exprCode L oneExpr) (.int 1) :=
  pushes_len (pushes_singleton (c := 1) (pushes_none L) fun _ => by simp)

/-- The compiler goes through. -/
def Compiles (x : CompileM Unit) : Prop := ∀ c, ∃ c', x c = .ok () c'

theorem Compiles.push (op : IrOp) : Compiles (push op) := fun _ => ⟨_, rfl⟩

theorem Compiles.seq {x y : CompileM Unit} (hx : Compiles x) (hy : Compiles y) :
    Compiles (x >>= fun _ => y) := by
  intro c
  obtain ⟨c', h⟩ := hx c
  obtain ⟨c'', h'⟩ := hy c'
  exact ⟨c'', by rw [bind_of_ok h, h']⟩

/-- An expression that compiles to code for this value. -/
structure IsConstant (e : Expr) (val : ProgramValue) : Prop where
  compiles : Compiles (compileExpr e)
  pushes : ∀ L, Pushes (exprCode L e) val

namespace IsConstant

theorem none : IsConstant .noneLiteral .none where
  compiles := .push _
  pushes := pushes_none

theorem bool (b : Bool) : IsConstant (.boolLiteral b) (.bool b) where
  compiles := .push _
  pushes L := pushes_bool L b

theorem singleton {c : ℕ} (h : IsConstant e val) (hsize : ∀ r, val.byteSize r ≤ c) :
    IsConstant (.list [e]) (.list [val]) where
  compiles := by
    exact (h.compiles.seq fun c => ⟨c, rfl⟩).seq (.push _)
  pushes L := pushes_singleton (h.pushes L) hsize

theorem zero : IsConstant zeroExpr (.int 0) where
  compiles := by
    exact .seq (.seq (fun c => ⟨c, rfl⟩) (.push _)) (.push _)
  pushes := pushes_zero

theorem one : IsConstant oneExpr (.int 1) where
  compiles := by
    exact .seq (.seq (.seq (.push _) fun c => ⟨c, rfl⟩) (.push _)) (.push _)
  pushes := pushes_one

end IsConstant

/-- For every operator two operands of which the comparison is false. -/
theorem exists_false_comparison (op : CmpOp) :
    ∃ leftExpr rightExpr left right, IsConstant leftExpr left ∧ IsConstant rightExpr right ∧
      ProgramValue.evalCompare op.toIr left right = .ok false := by
  have hzero := IsConstant.zero
  have hone := IsConstant.one
  cases op with
  | eq => exact ⟨_, _, _, _, hzero, hone, rfl⟩
  | notEq => exact ⟨_, _, _, _, hzero, hzero, rfl⟩
  | lt => exact ⟨_, _, _, _, hzero, hzero, rfl⟩
  | ltE => exact ⟨_, _, _, _, hone, hzero, rfl⟩
  | gt => exact ⟨_, _, _, _, hzero, hzero, rfl⟩
  | gtE => exact ⟨_, _, _, _, hzero, hone, rfl⟩
  | in_ => exact ⟨_, _, _, _, hzero, hzero, rfl⟩
  | notIn =>
    exact ⟨_, _, _, _, hzero, hzero.singleton (c := 8) fun _ => by
      simp, rfl⟩

theorem linkOperand_constant (op : CmpOp) (r : Bool) :
    IsConstant (linkOperand op r).1 (linkOperand op r).2 := by
  cases op with
  | eq => exact .bool r
  | in_ => exact (IsConstant.bool r).singleton (c := 1) fun _ => by simp
  | _ => exact .none

theorem compiles_links (r : Bool) (ops : List CmpOp) :
    Compiles (compileComparisons (linkComparisons r ops)) := by
  induction ops generalizing r with
  | nil => exact fun c => ⟨c, rfl⟩
  | cons op ops ih =>
    exact (linkOperand_constant op r).compiles.seq ((Compiles.push _).seq (ih true))

theorem map_fst_linkComparisons (r : Bool) (ops : List CmpOp) :
    (linkComparisons r ops).map Prod.fst = ops := by
  induction ops generalizing r with
  | nil => rfl
  | cons op ops ih => rw [linkComparisons, List.map_cons, ih]

/-- A false comparison decides a conjunction. -/
theorem conjunction_of_false {op : CmpOp}
    (h : ProgramValue.evalCompare op.toIr left right = .ok false)
    (rest : List (CmpOp × ProgramValue)) :
    conjunction left ((op, right) :: rest) = .ok false := by
  rw [conjunction, h]
  rfl

/-- A program that emits an expression. -/
theorem compile_emit (h : Compiles (compileExpr e)) (bounds : IrBounds) :
    ∃ ir, compile ⟨[.emit e]⟩ bounds = .ok ir := by
  have hpre : Compiles (preallocateStmts [.emit e]) := fun c => ⟨c, rfl⟩
  have hstmts : Compiles (compileStmts [.emit e]) := by
    exact (h.seq (.seq (.push _) (.push _))).seq fun c => ⟨c, rfl⟩
  obtain ⟨c, hc⟩ := (hpre.seq (hstmts.seq (.push .return_))) .new
  cases hr : compile ⟨[.emit e]⟩ bounds with
  | ok ir => exact ⟨ir, rfl⟩
  | error err =>
    unfold compile at hr
    dsimp only at hr
    rw [hc] at hr
    cases hr

/-- With several operators there is an accepted program whose chain is not the
conjunction: its first comparison is false, and the truth value of the code is that of
the last one. -/
theorem not_chainMeets (op₁ op₂ : CmpOp) (ops : List CmpOp) : ¬ChainMeets (op₁ :: op₂ :: ops) := by
  intro hmeets
  obtain ⟨leftExpr, rightExpr, left, right, hl, hr, hfalse⟩ := exists_false_comparison op₁
  let comparisons := (op₁, rightExpr) :: linkComparisons false (op₂ :: ops)
  have hcompiles : Compiles (compileExpr (.compare leftExpr comparisons)) := by
    exact hl.compiles.seq (hr.compiles.seq ((Compiles.push _).seq (compiles_links _ _)))
  obtain ⟨ir, hir⟩ := compile_emit hcompiles ⟨0, 0, 0, 0, 0, 0, 0, 0, 0⟩
  obtain ⟨L, -, -, heq⟩ := compile_eq_ok hir
  obtain ⟨k₁, c₁, hleft⟩ := hl.pushes L
  obtain ⟨k₂, c₂, hright⟩ := hr.pushes L
  obtain ⟨k, c, hlinks⟩ := links_run L false (op₂ :: ops)
  let env : Env := Env.plain ir
    ⟨k₁ + (k₂ + (k + 1)), 0, 0, 0, 0, c₁ + (c₂ + (1 + c)), 0, 0, 0⟩
  let s : MeteredInterpreter := .new ir
  have hready : Ready env (k₁ + (k₂ + (k + 1))) (c₁ + (c₂ + (1 + c))) s :=
    ⟨fun _ => rfl, rfl, (Nat.zero_add _).le, (Nat.zero_add _).le⟩
  have hplaced : PlacedAt env.program.instructions s.machine.pc
      (exprCode L (.compare leftExpr comparisons)) := by
    show PlacedAt ir.instructions 0 _
    rw [heq]
    exact ⟨[.checkpoint, .emit, .return_], by simp [programCode, stmtsCode, stmtCode]⟩
  have hcode := hplaced
  obtain ⟨t, hleaves, hready⟩ := hleft env _ _ s hready hcode.left
  have hpc := (runFor_inExpr (inExpr_exprCode L leftExpr) hleaves.placed hleaves.ran).1
  have hchain : PlacedAt env.program.instructions t.machine.pc (comparisonsCode L comparisons) := by
    rw [hpc]
    exact hcode.right
  have hfirst := hchain
  simp only [comparisons, comparisonsCode, List.append_assoc] at hfirst
  obtain ⟨u, hoperand, hready⟩ := hright env _ _ t hready hfirst.left
  obtain ⟨hop, hnext⟩ := compare_placed hchain hoperand
  have hstack : u.machine.stack = right :: left :: s.machine.stack := by
    rw [hoperand.stack_eq, hleaves.stack_eq]
  obtain ⟨u', hstep, hs', hpc', hready⟩ := compare_goes_on hready hop hstack hfalse
  rw [← hpc'] at hnext
  obtain ⟨hvalue, hfails⟩ := hmeets env L leftExpr comparisons s t left ⟨_, _, hir⟩
    (by simp [comparisons, map_fst_linkComparisons]) hplaced hleaves
  rcases hlinks env u' s.machine.stack hready hnext hs' with ⟨values, s', hrun, hend⟩ |
    ⟨done, op, e, rest, values, w, v, v', result, v'', hsplit, hrun, hw, hstop, hclass⟩
  · have h := hvalue _ s' false (.cons hoperand hstep hrun) (conjunction_of_false hfalse _)
    rw [hend] at h
    cases h
  · exact hfails ((op₁, rightExpr) :: done) op e rest _ w v v' result v'' false
      (by simp [comparisons, hsplit]) (.cons hoperand hstep hrun) hw hstop hclass
      (conjunction_of_false hfalse _)

/-- The code of a chain computes the conjunction for all operands exactly if it has one
operator. -/
theorem chainMeets_iff {ops : List CmpOp} (hops : ops ≠ []) : ChainMeets ops ↔ ops.length = 1 := by
  cases ops with
  | nil => exact absurd rfl hops
  | cons op ops =>
    cases ops with
    | nil => exact iff_of_true (chainMeets_single op) rfl
    | cons op' ops => exact iff_of_false (not_chainMeets op op' ops) (by simp)

end Codegg.ToolProgram
