import Codegg.ToolProgram.ParserCoverage

/-!
# What the parser keeps of an expression

Without loss, an expression is kept: what it is converted into represents it. The proof is
by induction on the size, as the elements of a list under `parallel` and the bounds of a
slice are converted without the node that holds them.
-/
namespace Codegg.ToolProgram

open Codegg.Library PyExpr Returns

-- The equations are generated here, before several proofs ask for them at once.
attribute [local grind =] convertExpr convertExprs convertOption convertOperands convertComparisons
  convertKeywords convertDescriptors convertEntries lossless allLossless
  optionLossless comparisonsLossless keywordsLossless entriesLossless

/-- Without loss, what the expression is converted into represents it. -/
def PyExpr.Kept (e : PyExpr) : Prop :=
  e.lossless = true → ∀ e', Returns (convertExpr e) e' → Represents e e'

variable {value : PyExpr} {e' : Expr} {o : Option PyExpr} {id : String} {args : List PyExpr}
  {keywords : List (Option String × PyExpr)}

theorem convertConstant_represents {value : PyConstant} (h : Returns (convertConstant value) e') :
    Represents (.constant value) e' := by
  cases value with
  | none => rw [h.of_pure]; exact .none
  | bool value => rw [h.of_pure]; exact .bool value
  | int value => rw [h.of_seq.of_pure]; exact .int value
  | float literal => rw [h.of_pure]; exact .float literal
  | str value => rw [h.of_seq.of_pure]; exact .str value
  | bytes | tuple | complex | ellipsis => exact absurd h not_throw

theorem convertBinop_represents (op : PyOperator) : RepresentsOperator op (convertBinop op) := by
  cases op <;> constructor

theorem convertCmpop_represents {op : PyCmpOp} {op' : CmpOp} (h : Returns (convertCmpop op) op') :
    RepresentsCmpOp op op' := by
  cases op with
  | is | isNot => exact absurd h not_throw
  | _ => rw [h.of_pure]; constructor

theorem convertExprs_represents {es : List PyExpr} {es' : List Expr} (hk : ∀ e ∈ es, e.Kept)
    (hl : allLossless es = true) (h : Returns (convertExprs es) es') :
    RepresentsAll es es' := by
  induction es generalizing es' with
  | nil =>
    rw [h.of_pure]
    exact .nil
  | cons e es ih =>
    simp only [List.mem_cons, forall_eq_or_imp] at hk
    simp only [allLossless, Bool.and_eq_true] at hl
    obtain ⟨e', he, h⟩ := h.of_bind
    obtain ⟨es', hes, rfl⟩ := h.of_bind_pure
    exact .cons (hk.1 hl.1 e' he) (ih hk.2 hl.2 hes)

theorem convertDescriptors_represents {es : List PyExpr} {es' : List Expr}
    (hk : ∀ e ∈ es, e.Kept) (hl : allLossless es = true)
    (h : Returns (convertDescriptors es) es') : RepresentsAll es es' := by
  induction es generalizing es' with
  | nil =>
    rw [h.of_pure]
    exact .nil
  | cons e es ih =>
    simp only [List.mem_cons, forall_eq_or_imp] at hk
    simp only [allLossless, Bool.and_eq_true] at hl
    obtain ⟨e', he, h⟩ := h.of_bind
    obtain ⟨es', hes, rfl⟩ := h.of_seq.of_bind_pure
    exact .cons (hk.1 hl.1 e' he) (ih hk.2 hl.2 hes)

theorem convertOption_represents {o' : Option Expr} (hk : ∀ e ∈ o, e.Kept)
    (hl : optionLossless o = true) (h : Returns (convertOption o) o') :
    RepresentsOption o o' := by
  cases o with
  | none =>
    rw [h.of_pure]
    exact .none
  | some e =>
    obtain ⟨e', he, rfl⟩ := h.of_bind_pure
    exact .some (hk e rfl hl e' he)

theorem convertOperands_represents {op : PyBoolOp} {result : Expr} {values : List PyExpr}
    (hk : ∀ e ∈ values, e.Kept) (hl : allLossless values = true)
    (h : Returns (convertOperands op result values) e') :
    ∃ values', RepresentsAll values values' ∧ e' = values'.foldl (joinOperands op) result := by
  induction values generalizing result with
  | nil =>
    exact ⟨[], .nil, h.of_pure⟩
  | cons value values ih =>
    simp only [List.mem_cons, forall_eq_or_imp] at hk
    simp only [allLossless, Bool.and_eq_true] at hl
    obtain ⟨right, hr, h⟩ := h.of_bind
    obtain ⟨values', hvs, rfl⟩ := ih hk.2 hl.2 h
    exact ⟨right :: values', .cons (hk.1 hl.1 right hr) hvs, rfl⟩

theorem convertComparisons_represents {cs : List (PyCmpOp × PyExpr)} {cs' : List (CmpOp × Expr)}
    (hk : ∀ c ∈ cs, c.2.Kept) (hl : comparisonsLossless cs = true)
    (h : Returns (convertComparisons cs) cs') : RepresentsComparisons cs cs' := by
  induction cs generalizing cs' with
  | nil =>
    rw [h.of_pure]
    exact .nil
  | cons c cs ih =>
    simp only [List.mem_cons, forall_eq_or_imp] at hk
    simp only [comparisonsLossless, Bool.and_eq_true] at hl
    obtain ⟨op', hop, h⟩ := h.of_bind
    obtain ⟨e', he, h⟩ := h.of_bind
    obtain ⟨cs', hcs, rfl⟩ := h.of_bind_pure
    exact .cons (convertCmpop_represents hop) (hk.1 hl.1 e' he) (ih hk.2 hl.2 hcs)

theorem convertKeywords_represents {ks : List (Option String × PyExpr)}
    {ks' : List (String × Expr)} (hk : ∀ k ∈ ks, k.2.Kept)
    (hl : keywordsLossless ks = true) (h : Returns (convertKeywords ks) ks') :
    RepresentsKeywords ks ks' := by
  induction ks generalizing ks' with
  | nil =>
    rw [h.of_pure]
    exact .nil
  | cons k ks ih =>
    obtain ⟨name, e⟩ := k
    simp only [List.mem_cons, forall_eq_or_imp] at hk
    simp only [keywordsLossless, Bool.and_eq_true] at hl
    cases name with
    | none =>
      exact absurd h not_throw
    | some name =>
      obtain ⟨e', he, h⟩ := h.of_bind
      obtain ⟨ks', hks, rfl⟩ := h.of_bind_pure
      exact .cons name (hk.1 hl.1 e' he) (ih hk.2 hl.2 hks)

theorem convertEntries_represents {ds : List (Option PyExpr × PyExpr)} {ds' : List (Expr × Expr)}
    (hk : ∀ d ∈ ds, (∀ e ∈ d.1, e.Kept) ∧ d.2.Kept) (hl : entriesLossless ds = true)
    (h : Returns (convertEntries ds) ds') : RepresentsEntries ds ds' := by
  induction ds generalizing ds' with
  | nil =>
    rw [h.of_pure]
    exact .nil
  | cons d ds ih =>
    obtain ⟨key, value⟩ := d
    simp only [List.mem_cons, forall_eq_or_imp] at hk
    simp only [entriesLossless, Bool.and_eq_true] at hl
    obtain ⟨⟨⟨hsome, hkey⟩, hvalue⟩, hds⟩ := hl
    obtain ⟨key', hkey', h⟩ := h.of_bind
    obtain ⟨value', hvalue', h⟩ := h.of_bind
    obtain ⟨ds', hds', rfl⟩ := h.of_bind_pure
    cases convertOption_represents hk.1.1 hkey hkey' with
    | none => cases hsome
    | some hr => exact .cons hr (hk.1.2 hvalue value' hvalue') (ih hk.2 hds hds')

/-! ### Calls -/

/-- Outside `call`, no keyword argument is kept. -/
theorem keywords_eq_nil (hid : id ≠ "call") (h : keepsArguments (.name id) args keywords = true) :
    keywords = [] := by
  simp only [keepsArguments, if_neg hid, Bool.and_eq_true, List.isEmpty_iff] at h
  exact h.1

theorem keywordDescriptor_eq {kwargs : List (String × Expr)}
    (h : Returns (keywordDescriptor kwargs) e') :
    e' = .toolCallExpr (.dict (kwargs.map fun kw => (.stringLiteral kw.1, kw.2))) [] :=
  h.of_seq.of_seq.of_pure

theorem surplus_eq_nil {descriptor : PyExpr} {surplus : List PyExpr}
    (h : keepsArguments (.name "call") (descriptor :: surplus) keywords = true) :
    surplus = [] := by
  simpa [keepsArguments] using h

theorem surplus_eq_nil_of_submit_job {op config : PyExpr} {surplus : List PyExpr}
    (h : keepsArguments (.name "submit_job") (op :: config :: surplus) keywords = true) :
    surplus = [] := by
  have h' : keywords = [] ∧ surplus = [] := by simpa [keepsArguments] using h
  exact h'.2

/-- What a call of a named function is converted into. -/
inductive NamedCall :
    String → List PyExpr → List (Option String × PyExpr) → Expr → Prop
  | builtin {id : String} {func : BuiltinFunc} {arg : PyExpr} {arg' : Expr}
      (keywords : List (Option String × PyExpr)) : builtinNamed id = some func →
      Returns (convertExpr arg) arg' → NamedCall id [arg] keywords (.callBuiltin func arg')
  | call {descriptor : PyExpr} {descriptor' : Expr} {keywords : List (Option String × PyExpr)}
      {kwargs : List (String × Expr)} (surplus : List PyExpr) :
      Returns (convertKeywords keywords) kwargs → Returns (convertExpr descriptor) descriptor' →
      NamedCall "call" (descriptor :: surplus) keywords (.toolCallExpr descriptor' kwargs)
  | callKeywords {keywords : List (Option String × PyExpr)} {kwargs : List (String × Expr)} :
      Returns (convertKeywords keywords) kwargs →
      NamedCall "call" [] keywords
        (.toolCallExpr (.dict (kwargs.map fun kw => (.stringLiteral kw.1, kw.2))) [])
  | parallel {args : List PyExpr} {descriptors : List Expr}
      (keywords : List (Option String × PyExpr)) : Returns (convertDescriptors args) descriptors →
      NamedCall "parallel" args keywords (.parallelExpr descriptors)
  | parallelList {elts : List PyExpr} {descriptors : List Expr}
      (keywords : List (Option String × PyExpr)) : Returns (convertDescriptors elts) descriptors →
      NamedCall "parallel" [.list elts] keywords (.parallelExpr descriptors)
  | submitJob {op config : PyExpr} {op' config' : Expr} (surplus : List PyExpr)
      (keywords : List (Option String × PyExpr)) : Returns (convertExpr op) op' →
      Returns (convertExpr config) config' →
      NamedCall "submit_job" (op :: config :: surplus) keywords (.submitJobExpr op' config')
  | rangeStop {stop : PyExpr} {stop' : Expr} (keywords : List (Option String × PyExpr)) :
      Returns (convertExpr stop) stop' →
      NamedCall "range" [stop] keywords (.range none stop' none)
  | rangeStart {start stop : PyExpr} {start' stop' : Expr}
      (keywords : List (Option String × PyExpr)) : Returns (convertExpr start) start' →
      Returns (convertExpr stop) stop' →
      NamedCall "range" [start, stop] keywords (.range (some start') stop' none)
  | rangeStep {start stop step : PyExpr} {start' stop' step' : Expr}
      (keywords : List (Option String × PyExpr)) : Returns (convertExpr start) start' →
      Returns (convertExpr stop) stop' → Returns (convertExpr step) step' →
      NamedCall "range" [start, stop, step] keywords (.range (some start') stop' (some step'))

theorem namedCall_of_convertExpr (h : Returns (convertExpr (.call (.name id) args keywords)) e') :
    NamedCall id args keywords e' := by
  unfold convertExpr at h
  replace h := h.of_seq
  cases hb : builtinNamed id with
  | some func =>
    simp only [hb] at h
    split at h
    · obtain ⟨arg', harg, rfl⟩ := h.of_bind_pure
      exact .builtin keywords hb harg
    · exact absurd h not_throw
  | none =>
    simp only [hb] at h
    split_ifs at h with hcall hpar hjob hrange
    · subst hcall
      obtain ⟨kwargs, hkwargs, h⟩ := h.of_bind
      split at h
      · rw [keywordDescriptor_eq h]
        exact .callKeywords hkwargs
      · obtain ⟨descriptor', hdescriptor, rfl⟩ := h.of_bind_pure
        exact .call _ hkwargs hdescriptor
    · subst hpar
      split at h
      · obtain ⟨descriptors, hds, rfl⟩ := h.of_bind_pure
        exact .parallelList keywords hds
      · obtain ⟨descriptors, hds, rfl⟩ := h.of_bind_pure
        exact .parallel keywords hds
    · subst hjob
      split at h
      · obtain ⟨op', hop, h⟩ := h.of_bind
        obtain ⟨config', hconfig, rfl⟩ := h.of_bind_pure
        exact .submitJob _ keywords hop hconfig
      · exact absurd h not_throw
    · subst hrange
      split at h
      · obtain ⟨stop', hstop, rfl⟩ := h.of_bind_pure
        exact .rangeStop keywords hstop
      · obtain ⟨start', hstart, h⟩ := h.of_bind
        obtain ⟨stop', hstop, rfl⟩ := h.of_bind_pure
        exact .rangeStart keywords hstart hstop
      · obtain ⟨start', hstart, h⟩ := h.of_bind
        obtain ⟨stop', hstop, h⟩ := h.of_bind
        obtain ⟨step', hstep, rfl⟩ := h.of_bind_pure
        exact .rangeStep keywords hstart hstop hstep
      · exact absurd h not_throw
    · exact absurd h not_throw

theorem namedCall_kept (ha : ∀ a ∈ args, a.Kept)
    (hd : ∀ elts, .list elts ∈ args → ∀ e ∈ elts, e.Kept) (hk : ∀ k ∈ keywords, k.2.Kept) :
    (call (.name id) args keywords).Kept := by
  intro hl e' h
  simp only [lossless, Bool.and_eq_true, and_true] at hl
  obtain ⟨⟨hkeeps, hargs⟩, hkeywords⟩ := hl
  cases namedCall_of_convertExpr h with
  | builtin _ hb harg =>
    simp only [allLossless, List.forall_mem_cons, Bool.and_eq_true] at ha hargs
    cases keywords_eq_nil (by rintro rfl; cases hb) hkeeps
    exact .builtin hb (ha.1 hargs.1 _ harg)
  | call surplus hkwargs hdescriptor =>
    simp only [allLossless, List.forall_mem_cons, Bool.and_eq_true] at ha hargs
    cases surplus_eq_nil hkeeps
    exact .call (ha.1 hargs.1 _ hdescriptor) (convertKeywords_represents hk hkeywords hkwargs)
  | callKeywords hkwargs =>
    exact .callKeywords (convertKeywords_represents hk hkeywords hkwargs)
  | parallel _ hds =>
    cases keywords_eq_nil (by decide) hkeeps
    exact .parallel (convertDescriptors_represents ha hargs hds)
  | parallelList _ hds =>
    simp only [allLossless, Bool.and_true] at hargs
    cases keywords_eq_nil (by decide) hkeeps
    exact .parallelList (convertDescriptors_represents (hd _ (List.mem_singleton_self _)) hargs hds)
  | submitJob surplus _ hop hconfig =>
    simp only [allLossless, List.forall_mem_cons, Bool.and_eq_true] at ha hargs
    cases keywords_eq_nil (by decide) hkeeps
    cases surplus_eq_nil_of_submit_job hkeeps
    exact .submitJob (ha.1 hargs.1 _ hop) (ha.2.1 hargs.2.1 _ hconfig)
  | rangeStop _ hstop =>
    simp only [allLossless, List.forall_mem_cons, Bool.and_eq_true] at ha hargs
    cases keywords_eq_nil (by decide) hkeeps
    exact .rangeStop (ha.1 hargs.1 _ hstop)
  | rangeStart _ hstart hstop =>
    simp only [allLossless, List.forall_mem_cons, Bool.and_eq_true] at ha hargs
    cases keywords_eq_nil (by decide) hkeeps
    exact .rangeStart (ha.1 hargs.1 _ hstart) (ha.2.1 hargs.2.1 _ hstop)
  | rangeStep _ hstart hstop hstep =>
    simp only [allLossless, List.forall_mem_cons, Bool.and_eq_true] at ha hargs
    cases keywords_eq_nil (by decide) hkeeps
    exact .rangeStep (ha.1 hargs.1 _ hstart) (ha.2.1 hargs.2.1 _ hstop)
      (ha.2.2.1 hargs.2.2.1 _ hstep)

theorem methodCall_kept {attr : String} (hv : value.Kept) (ha : ∀ a ∈ args, a.Kept) :
    (call (.attribute value attr) args keywords).Kept := by
  intro hl e' h
  simp only [lossless, keepsArguments, Bool.and_eq_true, List.isEmpty_iff] at hl
  obtain ⟨⟨⟨rfl, hvalue⟩, hargs⟩, -⟩ := hl
  obtain ⟨value', hvalue', h⟩ := h.of_seq.of_bind
  obtain ⟨args', hargs', rfl⟩ := h.of_bind_pure
  exact .methodCall attr (hv hvalue value' hvalue') (convertExprs_represents ha hargs hargs')

/-- Nothing but a name or an attribute is called. -/
theorem call_kept_of_ne {func : PyExpr} (hn : ∀ id, func ≠ .name id)
    (ha : ∀ value attr, func ≠ .attribute value attr) :
    (call func args keywords).Kept := by
  intro _ e' h
  rw [convertExpr] at h
  · exact absurd h.of_seq not_throw
  · exact hn
  · exact ha

theorem subscript_kept {idx : PyExpr} (hv : value.Kept) (hi : idx.Kept)
    (hparts : ∀ lower upper step, idx = .slice lower upper step →
      (∀ e ∈ lower, e.Kept) ∧ (∀ e ∈ upper, e.Kept) ∧ (∀ e ∈ step, e.Kept)) :
    (subscript value idx).Kept := by
  intro hl e' h
  simp only [lossless, Bool.and_eq_true] at hl
  by_cases hslice : ∃ lower upper step, idx = .slice lower upper step
  · obtain ⟨lower, upper, step, rfl⟩ := hslice
    obtain ⟨hlower, hupper, hstep⟩ := hparts lower upper step rfl
    simp only [lossless, Bool.and_eq_true] at hl
    obtain ⟨value', hvalue', h⟩ := h.of_seq.of_bind
    obtain ⟨start', hstart', h⟩ := h.of_bind
    obtain ⟨stop', hstop', h⟩ := h.of_bind
    obtain ⟨step', hstep', rfl⟩ := h.of_bind_pure
    exact .subscript (hv hl.1 value' hvalue') (convertOption_represents hlower hl.2.1.1 hstart')
      (convertOption_represents hupper hl.2.1.2 hstop')
      (convertOption_represents hstep hl.2.2 hstep')
  · rw [convertExpr] at h
    · obtain ⟨value', hvalue', h⟩ := h.of_seq.of_bind
      obtain ⟨idx', hidx', rfl⟩ := h.of_bind_pure
      exact .index (hv hl.1 value' hvalue') (hi hl.2 idx' hidx')
    · intro lower upper step heq
      exact hslice ⟨lower, upper, step, heq⟩

/-! ### All expressions -/

theorem binOp_kept {left right : PyExpr} (op : PyOperator) (hl : left.Kept) (hr : right.Kept) :
    (binOp left op right).Kept := by
  intro h e' he
  simp only [lossless, Bool.and_eq_true] at h
  obtain ⟨left', hleft, he⟩ := he.of_seq.of_bind
  obtain ⟨right', hright, rfl⟩ := he.of_bind_pure
  exact .binOp (hl h.1 left' hleft) (convertBinop_represents op) (hr h.2 right' hright)

theorem unaryOp_kept {operand : PyExpr} (op : PyUnaryOp) (hk : operand.Kept) :
    (unaryOp op operand).Kept := by
  intro h e' he
  obtain ⟨operand', hoperand, he⟩ := he.of_seq.of_bind
  cases op with
  | uSub => rw [he.of_pure]; exact .neg (hk h operand' hoperand)
  | uAdd => rw [he.of_pure]; exact .pos (hk h operand' hoperand)
  | invert => rw [he.of_pure]; exact .invert (hk h operand' hoperand)
  | not =>
    obtain ⟨again, hagain, rfl⟩ := he.of_bind_pure
    exact .not (hk h again hagain)

theorem boolOp_kept {values : List PyExpr} (op : PyBoolOp) (hk : ∀ v ∈ values, v.Kept) :
    (boolOp op values).Kept := by
  intro h e' he
  simp only [lossless] at h
  unfold convertExpr at he
  replace he := he.of_seq
  split at he
  · rw [allLossless, Bool.and_eq_true] at h
    rw [List.forall_mem_cons] at hk
    obtain ⟨first', hfirst, he⟩ := he.of_bind
    obtain ⟨rest', hrest, rfl⟩ := convertOperands_represents hk.2 h.2 he
    exact .boolOp op (hk.1 h.1 first' hfirst) hrest
  · exact absurd he not_throw

theorem compare_kept {left : PyExpr} {comparisons : List (PyCmpOp × PyExpr)} (hl : left.Kept)
    (hk : ∀ c ∈ comparisons, c.2.Kept) : (PyExpr.compare left comparisons).Kept := by
  intro h e' he
  simp only [PyExpr.lossless, Bool.and_eq_true] at h
  obtain ⟨left', hleft, he⟩ := he.of_seq.of_bind
  obtain ⟨comparisons', hcs, rfl⟩ := he.of_bind_pure
  exact .compare (hl h.1 left' hleft) (convertComparisons_represents hk h.2 hcs)

theorem attribute_kept (attr : String) (hk : value.Kept) :
    (PyExpr.attribute value attr).Kept := by
  intro h e' he
  obtain ⟨value', hvalue, he⟩ := he.of_seq.of_bind
  split at he
  · rw [he.of_pure]
    exact .attribute attr (hk h value' hvalue)
  · exact absurd he not_throw

theorem slice_kept {lower upper step : Option PyExpr} (hl : ∀ x ∈ lower, x.Kept)
    (hu : ∀ x ∈ upper, x.Kept) (hs : ∀ x ∈ step, x.Kept) :
    (PyExpr.slice lower upper step).Kept := by
  intro h e' he
  simp only [PyExpr.lossless, Bool.and_eq_true] at h
  obtain ⟨start', hstart, he⟩ := he.of_seq.of_bind
  obtain ⟨stop', hstop, he⟩ := he.of_bind
  obtain ⟨step', hstep, rfl⟩ := he.of_bind_pure
  exact .slice (convertOption_represents hl h.1.1 hstart)
    (convertOption_represents hu h.1.2 hstop) (convertOption_represents hs h.2 hstep)

theorem list_kept {elts : List PyExpr} (hk : ∀ x ∈ elts, x.Kept) : (PyExpr.list elts).Kept := by
  intro h e' he
  obtain ⟨elements, helts, rfl⟩ := he.of_seq.of_seq.of_bind_pure
  exact .list (convertExprs_represents hk h helts)

theorem tuple_kept {elts : List PyExpr} (hk : ∀ x ∈ elts, x.Kept) : (tuple elts).Kept := by
  intro h e' he
  obtain ⟨elements, helts, rfl⟩ := he.of_seq.of_seq.of_bind_pure
  exact .tuple (convertExprs_represents hk h helts)

theorem dict_kept {entries : List (Option PyExpr × PyExpr)}
    (hk : ∀ d ∈ entries, (∀ x ∈ d.1, x.Kept) ∧ d.2.Kept) : (dict entries).Kept := by
  intro h e' he
  obtain ⟨entries', hentries, rfl⟩ := he.of_seq.of_seq.of_bind_pure
  exact .dict (convertEntries_represents hk h hentries)

theorem sizeOf_lt_of_mem_option {x : PyExpr} (h : x ∈ o) :
    sizeOf x < sizeOf o := by
  cases h
  simp

theorem sizeOf_snd_lt_of_mem {α : Type} [SizeOf α] {pairs : List (α × PyExpr)}
    {pair : α × PyExpr} (h : pair ∈ pairs) : sizeOf pair.2 < sizeOf pairs := by
  have hlt := List.sizeOf_lt_of_mem h
  obtain ⟨a, e⟩ := pair
  simp only [Prod.mk.sizeOf_spec] at hlt ⊢
  omega

/-- An expression is kept if all smaller expressions are. -/
theorem PyExpr.kept_of_smaller {e : PyExpr} (ih : ∀ x : PyExpr, sizeOf x < sizeOf e → x.Kept) :
    e.Kept := by
  have hmem : ∀ {es : List PyExpr}, sizeOf es < sizeOf e → ∀ x ∈ es, x.Kept :=
    fun hlt x hx => ih x ((List.sizeOf_lt_of_mem hx).trans hlt)
  have hopt : ∀ {o : Option PyExpr}, sizeOf o < sizeOf e → ∀ x ∈ o, x.Kept :=
    fun hlt x hx => ih x ((sizeOf_lt_of_mem_option hx).trans hlt)
  match e with
  | .constant value =>
    intro _ e' h
    exact convertConstant_represents h.of_seq
  | .name id =>
    intro _ e' h
    rw [h.of_seq.of_pure]
    exact .name id
  | .binOp left op right => exact binOp_kept op (ih left (by simp; omega)) (ih right (by simp))
  | .unaryOp op operand => exact unaryOp_kept op (ih operand (by simp))
  | .boolOp op values => exact boolOp_kept op (hmem (by simp))
  | .compare left comparisons =>
    refine compare_kept (ih left (by simp; omega)) fun c hc => ih c.2 ?_
    have hlt := sizeOf_snd_lt_of_mem hc
    simp only [compare.sizeOf_spec]
    omega
  | .call (.name id) args keywords =>
    refine namedCall_kept (hmem (by simp; omega)) (fun elts h => hmem ?_) (fun k hk => ih k.2 ?_)
    · have hlt := List.sizeOf_lt_of_mem h
      simp only [list.sizeOf_spec, call.sizeOf_spec] at hlt ⊢
      omega
    · have hlt := sizeOf_snd_lt_of_mem hk
      simp only [call.sizeOf_spec]
      omega
  | .call (.attribute value attr) args keywords =>
    exact methodCall_kept (ih value (by simp; omega)) (hmem (by simp; omega))
  | .call (.constant _) _ _ | .call (.binOp ..) _ _ | .call (.unaryOp ..) _ _
  | .call (.boolOp ..) _ _ | .call (.compare ..) _ _ | .call (.call ..) _ _
  | .call (.subscript ..) _ _ | .call (.slice ..) _ _ | .call (.list _) _ _
  | .call (.tuple _) _ _ | .call (.dict _) _ _ | .call (.unsupported _) _ _ =>
    exact call_kept_of_ne (by simp) (by simp)
  | .attribute value attr => exact attribute_kept attr (ih value (by simp; omega))
  | .subscript value idx =>
    refine subscript_kept (ih value (by simp; omega)) (ih idx (by simp)) ?_
    rintro lower upper step rfl
    exact ⟨hopt (by simp; omega), hopt (by simp; omega), hopt (by simp; omega)⟩
  | .slice lower upper step =>
    exact slice_kept (hopt (by simp; omega)) (hopt (by simp; omega)) (hopt (by simp))
  | .list elts => exact list_kept (hmem (by simp))
  | .tuple elts => exact tuple_kept (hmem (by simp))
  | .dict entries =>
    refine dict_kept fun d hd => ⟨?_, ih d.2 ?_⟩
    · obtain ⟨key, value⟩ := d
      have hlt := List.sizeOf_lt_of_mem hd
      refine hopt ?_
      simp only [Prod.mk.sizeOf_spec, dict.sizeOf_spec] at hlt ⊢
      omega
    · have hlt := sizeOf_snd_lt_of_mem hd
      simp only [dict.sizeOf_spec]
      omega
  | .unsupported kind =>
    intro _ e' h
    exact absurd h.of_seq not_throw

theorem PyExpr.kept (e : PyExpr) : e.Kept := kept_of_smaller fun x _ => x.kept
termination_by sizeOf e

theorem convertExpr_represents_iff {e : PyExpr} (h : Returns (convertExpr e) e') :
    Represents e e' ↔ e.lossless = true :=
  ⟨Represents.lossless, fun hl => e.kept hl e' h⟩

theorem convertOption_represents_iff {o' : Option Expr} (h : Returns (convertOption o) o') :
    RepresentsOption o o' ↔ optionLossless o = true :=
  ⟨RepresentsOption.lossless, fun hl => convertOption_represents (fun e _ => e.kept) hl h⟩

end Codegg.ToolProgram
