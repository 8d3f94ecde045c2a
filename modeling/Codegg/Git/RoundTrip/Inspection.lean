import Codegg.Git.Reading.Inspection
import Codegg.Git.Reparse

/-!
# Rendering `status`, `diff`, `show`, `log` and `blame` and parsing them again
-/
namespace Codegg.Git

open Codegg.Library.ArgScan

variable {canonicalize : Canonicalize} {args : List String} {op : GitOperation}

section Words

theorem isDigit_of_mem_toString {n : Nat} {c : Char} (h : c ∈ (toString n).toList) :
    c.isDigit = true := by
  rw [Nat.toString_eq_ofList_toDigits, String.toList_ofList] at h
  exact Nat.isDigit_of_mem_toDigits (by decide) (by decide) h

/-- A word for a maximal count is no flag that the parser of `git log` knows. -/
theorem logStep_count (s : LogArgs) (n : Nat) :
    logStep canonicalize s ("-" ++ toString n) = .next s := by
  generalize hw : "-" ++ toString n = w
  have hlist : w.toList = '-' :: (toString n).toList := by
    rw [← hw, String.toList_append]
    rfl
  have hne : ∀ u : String, (∃ c ∈ u.toList.tail, c.isDigit = false) → w ≠ u := by
    rintro u ⟨c, hc, hdigit⟩ rfl
    rw [hlist] at hc
    rw [isDigit_of_mem_toString hc] at hdigit
    cases hdigit
  have hpos : 0 < (toString n).toList.length := by
    rw [Nat.toString_eq_ofList_toDigits, String.toList_ofList]
    exact Nat.length_toDigits_pos
  have hflag : isFlag w = true := by
    rw [isFlag, hlist]
    simpa using hpos
  simp [logStep, hflag, hne "--oneline" ⟨'-', by simp, rfl⟩, hne "-n" ⟨'n', by simp, rfl⟩,
    hne "--max-count" ⟨'-', by simp, rfl⟩, hne "--" ⟨'-', by simp, rfl⟩]

end Words

section Parsers

theorem parseStatus_again (h : parseStatus args = .ok op) :
    parseGitArgv canonicalize (renderArgv op) = .ok op := by
  obtain ⟨short, -, hop⟩ := bind_eq_ok.mp h
  cases hop
  cases short <;> rfl

theorem parseShow_again (h : parseShow args = .ok op) :
    parseGitArgv canonicalize (renderArgv op) = .ok op := by
  obtain ⟨word, -, h⟩ := bind_eq_ok.mp h
  obtain ⟨rev, -, hop⟩ := bind_eq_ok.mp h
  cases hop
  rw [renderArgv, parseGitArgv_cons _ (by decide)]
  change parseShow [rev.text] = _
  simp [parseShow, required, pure, Except.pure]

/-- The separator that is rendered before the path of `blame` is read as the path. -/
def BlameRoundTrips (args : List String) : Prop := ∀ word ∈ args.head?, normalizePath word = "--"

theorem parseBlame_again (h : parseBlame canonicalize args = .ok op) :
    parseGitArgv canonicalize (renderArgv op) = .ok op ↔ BlameRoundTrips args := by
  obtain ⟨word, hword, h⟩ := bind_eq_ok.mp h
  obtain ⟨path, hpath, hop⟩ := bind_eq_ok.mp h
  cases hop
  obtain ⟨htext, hcan⟩ := text_of_toRepoPath hpath
  rw [renderArgv, parseGitArgv_cons _ (by decide)]
  change parseBlame canonicalize ["--", path.text] = _ ↔ _
  have hhead : args.head? = some word := by simpa [List.head?_eq_getElem?] using hword
  rw [BlameRoundTrips, hhead]
  simp only [Option.mem_def, Option.some.injEq, forall_eq', ← htext]
  constructor
  · intro hagain
    obtain ⟨word', hword', hagain⟩ := bind_eq_ok.mp hagain
    obtain ⟨path', hpath', hop'⟩ := bind_eq_ok.mp hagain
    obtain rfl : "--" = word' := by simpa using hword'
    cases hop'
    exact (text_of_toRepoPath hpath').1.trans (by decide)
  · intro hdashes
    have hagain : toRepoPath canonicalize path.text = .ok path :=
      (toRepoPath_text hcan).mpr (by rw [hdashes]; decide)
    rw [hdashes] at hagain
    simp [parseBlame, required, hagain, pure, Except.pure]

/-- The words of a log operation that its parser reads as paths hide no absolute path, and no
count is kept. -/
def LogRoundTrips (args : List String) : Prop :=
  let I := (plain isCount true).read false args
  (Reading.lastTaken 0 isCount I).bind parseU32 = none ∧
    ∀ w ∈ Reading.pathWords 0 I, staysRelative w

theorem parseLog_again (h : parseLog canonicalize args = .ok op) :
    parseGitArgv canonicalize (renderArgv op) = .ok op ↔ LogRoundTrips args := by
  obtain ⟨s, hscan, hop⟩ := bind_eq_ok.mp h
  cases hop
  obtain ⟨-, hcount, hpaths⟩ := log_of hscan
  rw [LogRoundTrips, ← hcount, ← mapM_toRepoPath_again hpaths]
  have hcounted : scan (logStep canonicalize) {} (pushIf s.oneline "--oneline" ++
      ((s.maxCount.map fun n => "-" ++ toString n).toList ++ pushPathsAfterDd s.paths)) =
      scan (logStep canonicalize) { oneline := s.oneline } (pushPathsAfterDd s.paths) := by
    refine (scan_pushIf (fun b => ({ oneline := b } : LogArgs)) s.oneline rfl).trans ?_
    cases s.maxCount with
    | none => rfl
    | some n => exact scan_cons_next (logStep_count _ n)
  simp only [renderArgv, List.cons_append, List.nil_append, List.append_assoc]
  rw [parseGitArgv_cons _ (by decide)]
  change parseLog canonicalize _ = _ ↔ _
  rw [parseLog, hcounted, scan_pathsAfterDd
    (fun paths => { oneline := s.oneline, paths } : List RepoPath → LogArgs) rfl rfl]
  simp only [bind_eq_ok, pure, Except.pure, Except.ok.injEq, exists_exists_and_eq_and,
    GitOperation.log.injEq]
  constructor
  · rintro ⟨paths, hagain, -, hnone, rfl⟩
    exact ⟨hnone.symm, hagain⟩
  · rintro ⟨hnone, hagain⟩
    exact ⟨s.paths, hagain, trivial, hnone.symm, rfl⟩

/-- The words that `git diff` reads as paths hide no absolute path. -/
def DiffRoundTrips (args : List String) : Prop :=
  ∀ w ∈ Reading.pathWords 1 ((plain (fun _ => false) true).read false args), staysRelative w

theorem parseDiff_again (h : parseDiff canonicalize args = .ok op) :
    parseGitArgv canonicalize (renderArgv op) = .ok op ↔ DiffRoundTrips args := by
  obtain ⟨s, hscan, hop⟩ := bind_eq_ok.mp h
  obtain ⟨-, -, -, hbase, hpaths⟩ := diff_of hscan
  rw [DiffRoundTrips, ← mapM_toRepoPath_again hpaths]
  have hflags : ∀ ts, scan (diffStep canonicalize) {} (pushIf s.staged "--staged" ++
      (pushIf s.stat "--stat" ++ (pushIf s.nameOnly "--name-only" ++ ts))) =
      scan (diffStep canonicalize)
        { staged := s.staged, stat := s.stat, nameOnly := s.nameOnly } ts := by
    intro ts
    refine (scan_pushIf (fun b => ({ staged := b } : DiffArgs)) s.staged rfl).trans ?_
    refine (scan_pushIf (fun b => ({ staged := s.staged, stat := b } : DiffArgs)) s.stat
      rfl).trans ?_
    exact scan_pushIf
      (fun b => ({ staged := s.staged, stat := s.stat, nameOnly := b } : DiffArgs)) s.nameOnly rfl
  cases hstaged : s.staged with
  | true =>
    rw [hstaged] at hop
    cases hop
    rw [hstaged] at hflags
    simp only [renderArgv, renderDiff, List.cons_append, List.append_assoc]
    rw [parseGitArgv_cons _ (by decide)]
    change parseDiff canonicalize (pushIf true "--staged" ++ (pushIf s.stat "--stat" ++
      (pushIf s.nameOnly "--name-only" ++ pushPathsAfterDd s.paths))) = _ ↔ _
    rw [parseDiff, hflags, scan_pathsAfterDd (fun paths =>
      { staged := true, stat := s.stat, nameOnly := s.nameOnly, paths } : List RepoPath → DiffArgs)
      rfl rfl]
    simp [bind_eq_ok, pure, Except.pure]
  | false =>
    rw [hstaged] at hop
    cases hop
    rw [hstaged] at hflags
    simp only [renderArgv, renderDiff, List.cons_append, List.append_assoc]
    rw [parseGitArgv_cons _ (by decide)]
    change parseDiff canonicalize (pushIf false "--staged" ++ (pushIf s.stat "--stat" ++
      (pushIf s.nameOnly "--name-only" ++ ((s.baseRef.map RevisionExpr.text).toList ++
        pushPathsAfterDd s.paths)))) = _ ↔ _
    have hrev : scan (diffStep canonicalize) { stat := s.stat, nameOnly := s.nameOnly }
        ((s.baseRef.map RevisionExpr.text).toList ++ pushPathsAfterDd s.paths) =
        scan (diffStep canonicalize)
          { stat := s.stat, nameOnly := s.nameOnly, baseRef := s.baseRef }
          (pushPathsAfterDd s.paths) := by
      cases hb : s.baseRef with
      | none => rfl
      | some rev =>
        have hop : isFlag rev.text = false :=
          isFlag_of_head?_operands (hbase.symm.trans (by rw [hb]; rfl))
        refine scan_cons_next ?_
        simp (disch := first | assumption | decide) [diffStep, operand_eq_iff, Step.attempt, pure, Except.pure, hop]
    rw [parseDiff, hflags, hrev, scan_pathsAfterDd (fun paths =>
      { stat := s.stat, nameOnly := s.nameOnly, baseRef := s.baseRef, paths } :
        List RepoPath → DiffArgs) rfl rfl]
    simp [bind_eq_ok, pure, Except.pure]

end Parsers

end Codegg.Git
