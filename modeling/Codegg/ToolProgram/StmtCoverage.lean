import Codegg.ToolProgram.ExprCoverage

/-!
# What the parser keeps of a program

A statement, a block and the branches of an `if` are represented by what they are converted
into exactly if nothing in them gets lost, and so is the source of an accepted program.
-/
namespace Codegg.ToolProgram

open Codegg.Library PyStmt Returns

/-! ### Statements without branches -/

attribute [local simp] PyExpr.lossless PyExpr.allLossless PyExpr.keywordsLossless keepsArguments

theorem convertTargets_eq {targets : List PyExpr} {names : List String}
    (h : Returns (convertTargets targets) names) : targets = names.map .name := by
  induction targets generalizing names with
  | nil =>
    rw [h.of_pure, List.map_nil]
  | cons target targets ih =>
    cases target with
    | name id =>
      obtain ⟨names', hnames, rfl⟩ := h.of_bind_pure
      rw [List.map_cons, ih hnames]
    | _ =>
      rw [convertTargets] at h
      · exact absurd h not_throw
      · simp

variable {value test : PyExpr} {stmt' : Stmt} {test' : Expr} {body orelse : List PyStmt}
  {body' : List Stmt}

theorem assignment_represents {value' : Expr} {names : List String} (h : Represents value value') :
    RepresentsStmt (.assign (names.map .name) value) (assignment names value') := by
  unfold assignment
  split
  · exact .assignJob _ h
  · exact .assign names h

theorem RepresentsStmt.value_lossless {targets : List PyExpr} :
    RepresentsStmt (.assign targets value) stmt' → value.lossless = true
  | .assign _ h => h.lossless
  | .assignJob _ h => h.lossless

theorem RepresentsStmt.expr_lossless :
    RepresentsStmt (.expr value) stmt' → value.lossless = true
  | .emit h => by
    simp [h.lossless]
  | .fail => by
    simp
  | .failWith h => by
    simp [h.lossless]
  | .submitJob h => h.lossless
  | .parallel h => h.lossless

/-- What a call that is a statement is converted into. -/
inductive CallStmt : String → List PyExpr → Stmt → Prop
  | emit {arg : PyExpr} {arg' : Expr} : Returns (convertExpr arg) arg' →
      CallStmt "emit" [arg] (.emit arg')
  | fail : CallStmt "fail" [] (.fail none)
  | failWith {arg : PyExpr} {arg' : Expr} : Returns (convertExpr arg) arg' →
      CallStmt "fail" [arg] (.fail (some arg'))
  | submitJob {op config : PyExpr} {op' config' : Expr} (surplus : List PyExpr) :
      Returns (convertExpr op) op' → Returns (convertExpr config) config' →
      CallStmt "submit_job" (op :: config :: surplus) (.submitJob "_submit_job_result" op' config')
  | parallel {args : List PyExpr} {descriptors : List Expr} :
      Returns (convertDescriptors args) descriptors →
      CallStmt "parallel" args (.parallel "_parallel_result" descriptors)
  | parallelList {elts : List PyExpr} {descriptors : List Expr} :
      Returns (convertDescriptors elts) descriptors →
      CallStmt "parallel" [.list elts] (.parallel "_parallel_result" descriptors)

theorem callStmt_of_convertExprStmt (h : Returns (convertExprStmt value) stmt') :
    ∃ id args keywords, value = .call (.name id) args keywords ∧ CallStmt id args stmt' := by
  unfold convertExprStmt at h
  split at h
  · rename_i id args keywords
    refine ⟨id, args, keywords, rfl, ?_⟩
    split_ifs at h with hemit hfail hjob hpar
    · subst hemit
      split at h
      · obtain ⟨arg', harg, rfl⟩ := h.of_bind_pure
        exact .emit harg
      · exact absurd h not_throw
    · subst hfail
      split at h
      · rw [h.of_pure]
        exact .fail
      · obtain ⟨arg', harg, rfl⟩ := h.of_bind_pure
        exact .failWith harg
      · exact absurd h not_throw
    · subst hjob
      split at h
      · obtain ⟨op', hop, h⟩ := h.of_bind
        obtain ⟨config', hconfig, rfl⟩ := h.of_bind_pure
        exact .submitJob _ hop hconfig
      · exact absurd h not_throw
    · subst hpar
      obtain ⟨descriptors, hds, rfl⟩ := h.of_bind_pure
      unfold convertParallelCallArgs at hds
      split at hds
      · exact .parallelList hds
      · exact .parallel hds
    · exact absurd h not_throw
  · exact absurd h not_throw

theorem convertExprStmt_represents (h : Returns (convertExprStmt value) stmt')
    (hl : value.lossless = true) :
    RepresentsStmt (.expr value) stmt' := by
  obtain ⟨id, args, keywords, rfl, hcall⟩ := callStmt_of_convertExprStmt h
  simp only [PyExpr.lossless, Bool.and_eq_true, and_true] at hl
  obtain ⟨⟨hkeeps, hargs⟩, -⟩ := hl
  cases hcall with
  | emit harg =>
    simp only [PyExpr.allLossless, Bool.and_true] at hargs
    cases keywords_eq_nil (by decide) hkeeps
    exact .emit (PyExpr.kept _ hargs _ harg)
  | fail =>
    cases keywords_eq_nil (by decide) hkeeps
    exact .fail
  | failWith harg =>
    simp only [PyExpr.allLossless, Bool.and_true] at hargs
    cases keywords_eq_nil (by decide) hkeeps
    exact .failWith (PyExpr.kept _ hargs _ harg)
  | submitJob surplus hop hconfig =>
    simp only [PyExpr.allLossless, Bool.and_eq_true] at hargs
    cases keywords_eq_nil (by decide) hkeeps
    cases surplus_eq_nil_of_submit_job hkeeps
    exact .submitJob (.submitJob (PyExpr.kept _ hargs.1 _ hop) (PyExpr.kept _ hargs.2.1 _ hconfig))
  | parallel hds =>
    cases keywords_eq_nil (by decide) hkeeps
    exact .parallel (.parallel (convertDescriptors_represents (fun e _ => e.kept) hargs hds))
  | parallelList hds =>
    simp only [PyExpr.allLossless, Bool.and_true] at hargs
    cases keywords_eq_nil (by decide) hkeeps
    exact .parallel (.parallelList (convertDescriptors_represents (fun e _ => e.kept) hargs hds))

/-! ### Statements with branches -/

theorem representsStmt_if {clauses : List (Expr × List Stmt)} {elseBody : Option (List Stmt)} :
    RepresentsStmt (.if_ test body orelse) (.if_ test' body' clauses elseBody) ↔
      Represents test test' ∧ RepresentsStmts body body' ∧
        RepresentsElse orelse clauses elseBody := by
  constructor
  · rintro (_ | _ | ⟨ht, hb, he⟩)
    exact ⟨ht, hb, he⟩
  · rintro ⟨ht, hb, he⟩
    exact .if_ ht hb he

theorem representsStmt_for {target : String} {iter : PyExpr} {iter' : Expr} :
    RepresentsStmt (.for_ (.name target) iter body orelse) (.for_ target iter' body') ↔
      Represents iter iter' ∧ RepresentsStmts body body' ∧ orelse = [] := by
  constructor
  · intro h
    cases h with
    | for_ _ hi hb => exact ⟨hi, hb, rfl⟩
  · rintro ⟨hi, hb, rfl⟩
    exact .for_ target hi hb

theorem representsStmt_assert {msg : Option PyExpr} {msg' : Option Expr} :
    RepresentsStmt (.assert test msg) (.assert test' msg') ↔
      Represents test test' ∧ RepresentsOption msg msg' := by
  constructor
  · intro h
    cases h with
    | assert ht hm => exact ⟨ht, hm⟩
  · rintro ⟨ht, hm⟩
    exact .assert ht hm

theorem representsStmts_cons {stmt : PyStmt} {stmts : List PyStmt} {stmts' : List Stmt} :
    RepresentsStmts (stmt :: stmts) (stmt' :: stmts') ↔
      RepresentsStmt stmt stmt' ∧ RepresentsStmts stmts stmts' := by
  constructor
  · intro h
    cases h with
    | cons h hs => exact ⟨h, hs⟩
  · rintro ⟨h, hs⟩
    exact .cons h hs

theorem representsElse_elif {rest : List PyStmt} {clauses : List (Expr × List Stmt)}
    {elseBody : Option (List Stmt)} :
    RepresentsElse (.if_ test body orelse :: rest) ((test', body') :: clauses) elseBody ↔
      rest = [] ∧ Represents test test' ∧ RepresentsStmts body body' ∧
        RepresentsElse orelse clauses elseBody := by
  constructor
  · intro h
    cases h with
    | elif_ ht hb he => exact ⟨rfl, ht, hb, he⟩
  · rintro ⟨rfl, ht, hb, he⟩
    exact .elif_ ht hb he

theorem representsElse_else {stmt : PyStmt} {stmts : List PyStmt} {stmts' : List Stmt} :
    RepresentsElse (stmt :: stmts) [] (some (stmt' :: stmts')) ↔
      RepresentsStmt stmt stmt' ∧ RepresentsStmts stmts stmts' := by
  constructor
  · intro h
    cases h with
    | else_ h hs => exact ⟨h, hs⟩
  · rintro ⟨h, hs⟩
    exact .else_ h hs

theorem convertLoopTarget_eq {target : PyExpr} {id : String}
    (h : Returns (convertLoopTarget target) id) : target = .name id := by
  unfold convertLoopTarget at h
  split at h
  · rw [h.of_pure]
  · exact absurd h not_throw

mutual
theorem convertStmt_represents_iff : ∀ {depth : ℕ} {stmt : PyStmt} {stmt' : Stmt},
    Returns (convertStmt depth stmt) stmt' →
    (RepresentsStmt stmt stmt' ↔ stmt.lossless = true)
  | depth, .assign targets value, stmt', h => by
    rw [convertStmt] at h
    obtain ⟨value', hvalue, h⟩ := h.of_seq.of_seq.of_bind
    obtain ⟨names, hnames, rfl⟩ := h.of_bind_pure
    rw [lossless, convertTargets_eq hnames]
    exact ⟨RepresentsStmt.value_lossless, fun hl => assignment_represents (value.kept hl _ hvalue)⟩
  | depth, .if_ test body orelse, stmt', h => by
    rw [convertStmt] at h
    obtain ⟨test', htest, h⟩ := h.of_seq.of_seq.of_bind
    obtain ⟨body', hbody, h⟩ := h.of_bind
    obtain ⟨⟨clauses, elseBody⟩, helse, rfl⟩ := h.of_bind_pure
    rw [representsStmt_if, convertExpr_represents_iff htest, convertStmts_represents_iff hbody,
      convertElse_represents_iff helse, lossless, Bool.and_eq_true, Bool.and_eq_true,
      and_assoc]
  | depth, .for_ target iter body orelse, stmt', h => by
    rw [convertStmt] at h
    obtain ⟨target', htarget, h⟩ := h.of_seq.of_seq.of_bind
    obtain ⟨iter', hiter, h⟩ := h.of_bind
    obtain ⟨body', hbody, rfl⟩ := h.of_bind_pure
    cases convertLoopTarget_eq htarget
    rw [representsStmt_for, convertExpr_represents_iff hiter, convertStmts_represents_iff hbody,
      lossless, Bool.and_eq_true, Bool.and_eq_true, List.isEmpty_iff, and_assoc]
  | depth, .assert test msg, stmt', h => by
    rw [convertStmt] at h
    obtain ⟨test', htest, h⟩ := h.of_seq.of_seq.of_bind
    obtain ⟨msg', hmsg, rfl⟩ := h.of_bind_pure
    rw [representsStmt_assert, convertExpr_represents_iff htest,
      convertOption_represents_iff hmsg, lossless, Bool.and_eq_true]
  | depth, .expr value, stmt', h => by
    rw [convertStmt] at h
    rw [lossless]
    exact ⟨RepresentsStmt.expr_lossless, convertExprStmt_represents h.of_seq.of_seq⟩
  | depth, .pass, stmt', h => by
    rw [convertStmt] at h
    rw [h.of_seq.of_seq.of_pure]
    simp [lossless, RepresentsStmt.pass]
  | depth, .unsupported kind, stmt', h => by
    rw [convertStmt] at h
    exact absurd h.of_seq.of_seq not_throw

theorem convertStmts_represents_iff : ∀ {depth : ℕ} {stmts : List PyStmt} {stmts' : List Stmt},
    Returns (convertStmts depth stmts) stmts' →
    (RepresentsStmts stmts stmts' ↔ allLossless stmts = true)
  | depth, [], stmts', h => by
    rw [convertStmts] at h
    rw [h.of_pure, allLossless]
    exact ⟨fun _ => rfl, fun _ => .nil⟩
  | depth, stmt :: stmts, stmts', h => by
    rw [convertStmts] at h
    obtain ⟨stmt', hstmt, h⟩ := h.of_bind
    obtain ⟨stmts'', hstmts, rfl⟩ := h.of_bind_pure
    rw [representsStmts_cons, convertStmt_represents_iff hstmt,
      convertStmts_represents_iff hstmts, allLossless, Bool.and_eq_true]

theorem convertElse_represents_iff : ∀ {depth : ℕ} {orelse : List PyStmt}
    {r : List (Expr × List Stmt) × Option (List Stmt)}, Returns (convertElse depth orelse) r →
    (RepresentsElse orelse r.1 r.2 ↔ elseLossless orelse = true)
  | depth, [], r, h => by
    rw [convertElse] at h
    rw [h.of_pure, elseLossless]
    exact ⟨fun _ => rfl, fun _ => .none⟩
  | depth, .if_ test body orelse :: rest, r, h => by
    rw [convertElse] at h
    obtain ⟨test', htest, h⟩ := h.of_bind
    obtain ⟨body', hbody, h⟩ := h.of_bind
    obtain ⟨⟨clauses, elseBody⟩, helse, rfl⟩ := h.of_bind_pure
    rw [representsElse_elif, convertExpr_represents_iff htest, convertStmts_represents_iff hbody,
      convertElse_represents_iff helse, elseLossless, Bool.and_eq_true, Bool.and_eq_true,
      Bool.and_eq_true, List.isEmpty_iff, and_assoc, and_assoc]
  | depth, .assign _ _ :: stmts, r, h | depth, .for_ _ _ _ _ :: stmts, r, h
  | depth, .assert _ _ :: stmts, r, h | depth, .expr _ :: stmts, r, h | depth, .pass :: stmts, r, h
  | depth, .unsupported _ :: stmts, r, h => by
    rw [convertElse] at h
    · obtain ⟨stmt', hstmt, h⟩ := h.of_bind
      obtain ⟨stmts', hstmts, rfl⟩ := h.of_bind_pure
      rw [representsElse_else, convertStmt_represents_iff hstmt,
        convertStmts_represents_iff hstmts, elseLossless, Bool.and_eq_true]
      simp
    · simp
end

/-! ### Sources -/

theorem convertStmts_of_parseSource {parse : String → Except String PyMod} {source : String}
    {program : Program} (h : parseSource parse source = .ok program) :
    ∃ body, parse source = .ok (.module body) ∧ Returns (convertStmts 0 body) program.body := by
  unfold parseSource at h
  split_ifs at h
  split at h
  · cases h
  · rename_i body hparse
    split at h
    · rename_i s hs
      cases h
      exact ⟨body, hparse, 0, s, hs⟩
    · cases h
  · cases h

/-- Of an accepted source, everything is represented exactly if the parsed tree has nothing
that gets lost. -/
theorem accepted_represents_iff (parse : String → Except String PyMod) {source : String}
    {program : Program} (h : parseSource parse source = .ok program) :
    ∃ body, parse source = .ok (.module body) ∧
      (RepresentsStmts body program.body ↔ PyStmt.allLossless body = true) := by
  obtain ⟨body, hparse, hbody⟩ := convertStmts_of_parseSource h
  exact ⟨body, hparse, convertStmts_represents_iff hbody⟩

def elifSource : String := "if x > 0:\n    y = 1\nelif x < 0:\n    y = -1\nelse:\n    y = 0\n"

def elifBody : List PyStmt :=
  [.if_ (.compare (.name "x") [(.gt, .constant (.int 0))])
    [.assign [.name "y"] (.constant (.int 1))]
    [.if_ (.compare (.name "x") [(.lt, .constant (.int 0))])
      [.assign [.name "y"] (.unaryOp .uSub (.constant (.int 1)))]
      [.assign [.name "y"] (.constant (.int 0))]]]

def elifProgram : Program :=
  ⟨[.if_ (.compare (.name "x") [(.gt, .intLiteral 0)]) [.assign ["y"] (.intLiteral 1)]
    [(.compare (.name "x") [(.lt, .intLiteral 0)],
      [.assign ["y"] (.unaryOp .neg (.intLiteral 1))])]
    (some [.assign ["y"] (.intLiteral 0)])]⟩

theorem accepted_represents_elif : RepresentsStmts elifBody elifProgram.body := by
  have h : parseSource (fun _ => .ok (.module elifBody)) elifSource = .ok elifProgram := rfl
  obtain ⟨body, hparse, hiff⟩ := accepted_represents_iff _ h
  cases hparse
  exact hiff.mpr rfl

/-! The `else` block of a loop is not looked at. -/

def loopElseSource : String := "for i in range(2):\n    x = i\nelse:\n    emit(1)\n"

def loopElseBody : List PyStmt :=
  [.for_ (.name "i") (.call (.name "range") [.constant (.int 2)] [])
    [.assign [.name "x"] (.name "i")] [.expr (.call (.name "emit") [.constant (.int 1)] [])]]

def loopElseProgram : Program :=
  ⟨[.for_ "i" (.range none (.intLiteral 2) none) [.assign ["x"] (.name "i")]]⟩

theorem loop_else_dropped :
    ¬∀ (parse : String → Except String PyMod) (source : String) (program : Program),
      parseSource parse source = .ok program →
      ∃ body, parse source = .ok (.module body) ∧ RepresentsStmts body program.body := by
  intro h
  have hok : parseSource (fun _ => .ok (.module loopElseBody)) loopElseSource =
      .ok loopElseProgram := rfl
  obtain ⟨body, hparse, hr⟩ := h _ _ _ hok
  cases hparse
  cases hr with
  | cons hfor _ => cases hfor

end Codegg.ToolProgram
