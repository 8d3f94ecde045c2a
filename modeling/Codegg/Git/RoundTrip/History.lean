import Codegg.Git.Reading.History
import Codegg.Git.Reparse

/-!
# Rendering `merge`, `rebase`, `cherry-pick` and `revert` and parsing them again
-/
namespace Codegg.Git

open Codegg.Library.ArgScan Reading

variable {canonicalize : Canonicalize} {args : List String} {op : GitOperation}

section Operations

/-- No subcommand is called `operation`. -/
theorem parseGitArgv_operation (word : String) :
    parseGitArgv canonicalize ["git", "operation", word] =
      .ok (managedFallback ["git", "operation", word]) := by
  rfl

theorem not_again_abort : parseGitArgv canonicalize (renderArgv .abort) ≠ .ok .abort := by
  rw [renderArgv, parseGitArgv_operation]
  simp [managedFallback]

theorem not_again_continue : parseGitArgv canonicalize (renderArgv .continue) ≠ .ok .continue := by
  rw [renderArgv, parseGitArgv_operation]
  simp [managedFallback]

theorem not_again_skip : parseGitArgv canonicalize (renderArgv .skip) ≠ .ok .skip := by
  rw [renderArgv, parseGitArgv_operation]
  simp [managedFallback]

end Operations

section Merge

/-- Each flag among the words costs a revision. -/
theorem revisions_of_scan_merge {s s' : MergeArgs} {ws : List String}
    (h : scan mergeStep s ws = .ok s') :
    s'.revisions.length ≤ s.revisions.length + ws.length ∧
      (s'.revisions.length = s.revisions.length + ws.length → ∀ w ∈ ws, isFlag w = false) := by
  have hread := merge_cuts.scan_invariant (fun I s' =>
    s'.revisions.length ≤ s.revisions.length + (I.flatMap fun a => a.head :: a.taken).length ∧
      (s'.revisions.length = s.revisions.length + (I.flatMap fun a => a.head :: a.taken).length →
        ∀ w ∈ I.flatMap fun a => a.head :: a.taken, isFlag w = false)) (by simp) ?_ h
  · rwa [Grammar.words_read] at hread
  rintro I s₁ ⟨t, taken⟩ s₂ - ⟨hle, heq⟩ happly
  rw [List.flatMap_append, List.length_append, List.flatMap_singleton, List.length_cons]
  have hkept : s₂.revisions.length ≤ s₁.revisions.length + taken.length →
      s₂.revisions.length ≤ s.revisions.length + ((I.flatMap fun a => a.head :: a.taken).length +
        (taken.length + 1)) ∧ (s₂.revisions.length = s.revisions.length +
          ((I.flatMap fun a => a.head :: a.taken).length + (taken.length + 1)) →
        ∀ w ∈ (I.flatMap fun a => a.head :: a.taken) ++ t :: taken, isFlag w = false) := by
    intro hfew
    refine ⟨by omega, fun hall => ?_⟩
    omega
  unfold mergeStep at happly
  dsimp only at happly
  split_ifs at happly with hnoFf hstrategy habort hcontinue hignored hdd hop
  · cases happly
    exact hkept (by simp)
  · obtain ⟨name, -, happly⟩ := bind_eq_ok.mp happly
    cases happly
    exact hkept (by simp)
  · cases happly
    exact hkept (by simp)
  · cases happly
    exact hkept (by simp)
  · cases happly
    exact hkept (by simp)
  · cases happly
    exact hkept (by simp)
  · cases happly
    have hoperand : isFlag t = false := by simpa using hop
    simp only [List.length_append, List.length_singleton]
    refine ⟨by omega, fun hall => ?_⟩
    have htaken : taken = [] := List.length_eq_zero_iff.mp (by omega)
    subst htaken
    have hwords := heq (by omega)
    intro w hw
    rcases List.mem_append.mp hw with hw | hw
    · exact hwords w hw
    · obtain rfl : w = t := by simpa using hw
      exact hoperand
  · cases happly
    exact hkept (by simp)

theorem scan_merge_operands (noFf : Bool) {revisions : List String}
    (h : ∀ w ∈ revisions, isFlag w = false) :
    scan mergeStep { noFf } revisions = .ok { noFf, revisions } := by
  refine scan_collect (fun revisions => ({ noFf, revisions } : MergeArgs)) revisions ?_ []
  intro done t ht
  have hflag := h t ht
  have hignored : isIgnoredMergeFlag t = false := eq_false_of_operand isFlag_of_isIgnoredMergeFlag hflag
  simp (disch := first | assumption | decide) [mergeStep, operand_eq_iff, hignored, hflag]

/-- The rendered strategy is one word, which is read as a flag that is not known. -/
theorem mergeStep_strategy (s : MergeArgs) (name : String) :
    mergeStep s ("--strategy=" ++ name) = .next s := by
  generalize hw : "--strategy=" ++ name = w
  have hlist : w.toList = "--strategy=".toList ++ name.toList := by
    rw [← hw, String.toList_append]
  have hne : ∀ u : String, '=' ∉ u.toList → w ≠ u := by
    rintro u hu rfl
    exact hu (by rw [hlist]; simp)
  have hflag : isFlag w = true := by simp [isFlag, hlist]
  simp [mergeStep, hflag, hne "--no-ff" (by decide), hne "--strategy" (by decide),
    hne "--strategy-option" (by decide), hne "--abort" (by decide), hne "--continue" (by decide),
    hne "--" (by decide)]

/-- Neither a merge in progress is meant nor a strategy is given, and no revision is a flag. -/
def MergeRoundTrips (args : List String) : Prop :=
  let I := (plain isStrategy true).read false args
  has (· = "--abort") I = false ∧ has (· = "--continue") I = false ∧
    lastTaken 0 isStrategy I = none ∧
    ∀ w ∈ (afterDashes I).getD [], isFlag w = false

theorem parseMerge_again (h : parseMerge args = .ok op) :
    parseGitArgv canonicalize (renderArgv op) = .ok op ↔ MergeRoundTrips args := by
  obtain ⟨s, hscan, hop⟩ := bind_eq_ok.mp h
  obtain ⟨-, hstrategy, habort, hcontinue, hrevisions⟩ := merge_of hscan
  rw [MergeRoundTrips, ← hstrategy, ← habort, ← hcontinue]
  cases ha : s.abort with
  | true =>
    rw [ha] at hop
    cases hop
    exact iff_of_false not_again_abort (by simp)
  | false =>
    cases hc : s.continueOp with
    | true =>
      rw [ha, hc] at hop
      cases hop
      exact iff_of_false not_again_continue (by simp)
    | false =>
      rw [ha, hc] at hop
      cases hop
      simp only [renderArgv, Bool.false_eq_true, if_false, List.cons_append, List.nil_append,
        List.append_assoc]
      rw [parseGitArgv_cons _ (by decide)]
      change parseMerge _ = _ ↔ _
      have hwords : scan mergeStep {} (pushIf s.noFf "--no-ff" ++
          ((s.strategy.map fun name => "--strategy=" ++ name).toList ++ s.revisions)) =
          scan mergeStep { noFf := s.noFf } s.revisions := by
        refine (scan_pushIf (fun b => ({ noFf := b } : MergeArgs)) s.noFf rfl).trans ?_
        cases s.strategy with
        | none => rfl
        | some name => exact scan_cons_next (mergeStep_strategy _ name)
      have hflags : (∀ w ∈ s.revisions, isFlag w = false) ↔
          ∀ w ∈ (afterDashes ((plain isStrategy true).read false args)).getD [],
            isFlag w = false := by
        rw [hrevisions, List.forall_mem_append]
        exact and_iff_right fun w hw => isFlag_of_mem_operands hw
      rw [parseMerge, hwords, ← hflags]
      constructor
      · intro hagain
        obtain ⟨s', hs', hop⟩ := bind_eq_ok.mp hagain
        split_ifs at hop
        · cases hop
        · cases hop
        · simp only [pure, Except.pure, Except.ok.injEq, GitOperation.merge.injEq] at hop
          obtain ⟨hrev, -, hname, -⟩ := hop
          have hall := (revisions_of_scan_merge hs').2 (by simp [hrev])
          rw [scan_merge_operands s.noFf hall] at hs'
          cases hs'
          exact ⟨trivial, trivial, hname.symm, hall⟩
      · rintro ⟨-, -, hnone, hall⟩
        rw [scan_merge_operands s.noFf hall, hnone]
        rfl

end Merge

section Rebase

/-- No rebase in progress is meant, and the upstream is no flag. -/
def RebaseRoundTrips (args : List String) : Prop :=
  let I := (plain (· = "--onto") true).read false args
  has (· = "--abort") I = false ∧ has (· = "--continue") I = false ∧
    has (· = "--skip") I = false ∧
    ∀ w ∈ (operands I).head?.or ((afterDashes I).bind List.head?), isFlag w = false

/-- A flag at the end is read as no upstream. -/
theorem upstream_of_flag {s s' : RebaseArgs} {w : String} (hflag : isFlag w = true)
    (h : scan rebaseStep s [w] = .ok s') : s'.upstream = s.upstream := by
  rw [scan_singleton] at h
  unfold rebaseStep at h
  split_ifs at h with hinteractive habort hcontinue hskip honto hignored hdd hop
  · cases h
    rfl
  · cases h
    rfl
  · cases h
    rfl
  · cases h
    rfl
  · cases h
  · cases h
    rfl
  · cases h
    simp
  · simp [hflag] at hop
  · cases h
    rfl

theorem parseRebase_again (h : parseRebase args = .ok op) :
    parseGitArgv canonicalize (renderArgv op) = .ok op ↔ RebaseRoundTrips args := by
  obtain ⟨s, hscan, hop⟩ := bind_eq_ok.mp h
  obtain ⟨-, habort, hcontinue, hskip, -, hupstream⟩ := rebase_of hscan
  rw [RebaseRoundTrips, ← habort, ← hcontinue, ← hskip, ← hupstream]
  split_ifs at hop with ha hc hs
  · cases hop
    exact iff_of_false not_again_abort (by simp [ha])
  · cases hop
    exact iff_of_false not_again_continue (by simp [hc])
  · cases hop
    exact iff_of_false not_again_skip (by simp [hs])
  · cases hop
    simp only [renderArgv, Bool.false_eq_true, if_false, List.cons_append, List.nil_append,
      List.append_assoc]
    rw [parseGitArgv_cons _ (by decide)]
    change parseRebase _ = _ ↔ _
    have hwords : scan rebaseStep {} (pushIf s.interactive "-i" ++
        (pushOption "--onto" s.onto ++ s.upstream.toList)) =
        scan rebaseStep { interactive := s.interactive, onto := s.onto } s.upstream.toList := by
      refine (scan_pushIf (fun b => ({ interactive := b } : RebaseArgs)) s.interactive rfl).trans ?_
      exact scan_pushOption (fun onto =>
        ({ interactive := s.interactive, onto } : RebaseArgs)) _ s.onto rfl fun _ => rfl
    rw [parseRebase, hwords]
    cases hup : s.upstream with
    | none => exact iff_of_true rfl (by simp [ha, hc, hs])
    | some word =>
      cases hflag : isFlag word with
      | true =>
        refine iff_of_false (fun hagain => ?_) (by simp [hflag])
        obtain ⟨s', hs', hop⟩ := bind_eq_ok.mp hagain
        have hnone := upstream_of_flag hflag hs'
        split_ifs at hop
        · cases hop
        · cases hop
        · cases hop
        · simp [pure, Except.pure, hnone] at hop
      | false =>
        refine iff_of_true ?_ (by simp [ha, hc, hs, hflag])
        have hignored : isIgnoredRebaseFlag word = false := eq_false_of_operand isFlag_of_isIgnoredRebaseFlag hflag
        have hstep : rebaseStep { interactive := s.interactive, onto := s.onto } word =
            .next { interactive := s.interactive, onto := s.onto, upstream := some word } := by
          simp (disch := first | assumption | decide) [rebaseStep, operand_eq_iff,
            isShortFlag_eq_false, hignored, hflag]
        rw [Option.toList_some, scan_cons_next hstep]
        rfl

end Rebase

section Sequencer

/-- No operation in progress is meant. -/
def SequencerRoundTrips (args : List String) : Prop :=
  let I := (plain (fun _ => false) false).read false args
  has (· = "--abort") I = false ∧ has (· = "--continue") I = false ∧
    has (· = "--skip") I = false

theorem scan_cherryPick_operands {revisions : List String}
    (h : ∀ w ∈ revisions, isFlag w = false) :
    scan cherryPickStep {} revisions = .ok { revisions } := by
  refine scan_collect (fun revisions => ({ revisions } : SequencerArgs)) revisions ?_ []
  intro done t ht
  have hflag := h t ht
  have hignored : isIgnoredCherryPickFlag t = false := eq_false_of_operand isFlag_of_isIgnoredCherryPickFlag hflag
  simp (disch := first | assumption | decide) [cherryPickStep, operand_eq_iff, hignored, hflag]

theorem scan_revert_operands (noEdit : Bool) {revisions : List String}
    (h : ∀ w ∈ revisions, isFlag w = false) :
    scan revertStep { noEdit } revisions = .ok { noEdit, revisions } := by
  refine scan_collect (fun revisions => ({ noEdit, revisions } : SequencerArgs)) revisions ?_ []
  intro done t ht
  have hflag := h t ht
  have hignored : isIgnoredRevertFlag t = false := eq_false_of_operand isFlag_of_isIgnoredRevertFlag hflag
  simp (disch := first | assumption | decide) [revertStep, operand_eq_iff, hignored, hflag]

/-- A `git cherry-pick` or `git revert` is read again if its commits are. -/
theorem sequencer_again {s : SequencerArgs} {noEdit : Bool} {perform : GitOperation}
    (hof : s.Of noEdit ((plain (fun _ => false) false).read false args))
    (hop : (if s.abort then .ok .abort else if s.continueOp then .ok .continue
      else if s.skip then .ok .skip else .ok perform : Outcome) = .ok op)
    (hagain : (∀ w ∈ s.revisions, isFlag w = false) →
      parseGitArgv canonicalize (renderArgv perform) = .ok perform) :
    parseGitArgv canonicalize (renderArgv op) = .ok op ↔ SequencerRoundTrips args := by
  rw [SequencerRoundTrips, ← hof.abort, ← hof.continueOp, ← hof.skip]
  split_ifs at hop with ha hc hs <;> cases hop
  · exact iff_of_false not_again_abort (by simp [ha])
  · exact iff_of_false not_again_continue (by simp [hc])
  · exact iff_of_false not_again_skip (by simp [hs])
  · refine iff_of_true (hagain ?_) (by simp [ha, hc, hs])
    rw [hof.revisions]
    exact fun w hw => isFlag_of_mem_operands hw

theorem parseCherryPick_again (h : parseCherryPick args = .ok op) :
    parseGitArgv canonicalize (renderArgv op) = .ok op ↔ SequencerRoundTrips args := by
  obtain ⟨s, hscan, hop⟩ := bind_eq_ok.mp h
  refine sequencer_again (cherryPick_of hscan) hop fun hall => ?_
  simp only [renderArgv, Bool.false_eq_true, if_false, List.cons_append, List.nil_append]
  rw [parseGitArgv_cons _ (by decide)]
  change parseCherryPick _ = _
  rw [parseCherryPick, scan_cherryPick_operands hall]
  rfl

theorem parseRevert_again (h : parseRevert args = .ok op) :
    parseGitArgv canonicalize (renderArgv op) = .ok op ↔ SequencerRoundTrips args := by
  obtain ⟨s, hscan, hop⟩ := bind_eq_ok.mp h
  refine sequencer_again (revert_of hscan) hop fun hall => ?_
  simp only [renderArgv, Bool.false_eq_true, if_false, List.cons_append, List.nil_append]
  rw [parseGitArgv_cons _ (by decide)]
  change parseRevert _ = _
  rw [parseRevert, scan_pushIf (fun b => ({ noEdit := b } : SequencerArgs)),
    scan_revert_operands s.noEdit hall]
  all_goals rfl

end Sequencer

end Codegg.Git
