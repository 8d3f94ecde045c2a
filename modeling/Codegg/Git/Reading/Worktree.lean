import Codegg.Git.Reading.Basic

/-!
# What the parsers that change the worktree and the index read
-/
namespace Codegg.Git

open Codegg.Library.ArgScan Reading

section Worktree

variable {canonicalize : Canonicalize} {I : Reading} {args : List String}

def isMessage (t : String) : Bool := t = "--message" ∨ isShortFlag t 'm'

def isUntracked (t : String) : Bool :=
  !isMessage t ∧ (t = "--include-untracked" ∨ isShortFlag t 'u')

def isIndex (t : String) : Bool := t = "--index" ∨ isShortFlag t 'i'

attribute [local simp] isMessage isUntracked Reading.pathWords plain collectPathsAfterDoubleDash

theorem restore_cuts :
    Cuts (plain (· = "--source") true) (fun _ => false) (restoreStep canonicalize) where
  width s t w h := by
    unfold restoreStep at h
    repeat' split at h
    all_goals simp_all
  after s t taken s' _ _ := rfl

theorem add_cuts : Cuts (plain (fun _ => false) true) (fun _ => false) (addStep canonicalize) where
  width s t w h := by
    unfold addStep at h
    repeat' split at h
    all_goals simp_all
  after s t taken s' _ _ := rfl

theorem reset_cuts :
    Cuts (plain (fun _ => false) true) (fun _ => false) (resetStep canonicalize) where
  width s t w h := by
    unfold resetStep at h
    repeat' split at h
    all_goals simp_all
  after s t taken s' _ _ := rfl

theorem clean_cuts : Cuts (plain (fun _ => false) true) (fun _ => false) cleanStep where
  width s t w h := by
    unfold cleanStep at h
    repeat' split at h
    all_goals simp_all
  after s t taken s' _ _ := rfl

theorem stashPush_cuts : Cuts (plain isMessage true) (fun _ => false) stashPushStep where
  width s t w h := by
    unfold stashPushStep at h
    repeat' split at h
    all_goals simp_all
    all_goals rintro rfl; simp_all
  after s t taken s' _ _ := rfl

theorem commit_cuts : Cuts (plain isMessage false) (fun _ => false) commitStep where
  width s t w h := by
    unfold commitStep at h
    repeat' split at h
    all_goals simp_all
  after s t taken s' _ _ := rfl

structure RestoreArgs.Of (canonicalize : Canonicalize) (I : Reading) (s : RestoreArgs) : Prop where
  staged : s.staged = I.has (· = "--staged")
  source : s.source = I.lastTaken 0 (· = "--source")
  worktree : s.worktree = I.has (· = "--worktree")
  paths : (I.pathWords 0).mapM (toRepoPath canonicalize) = .ok s.paths

theorem restore_of {s : RestoreArgs} (h : scan (restoreStep canonicalize) {} args = .ok s) :
    s.Of canonicalize ((plain (· = "--source") true).read false args) := by
  refine restore_cuts.scan_invariant (fun I s => s.Of canonicalize I) ⟨rfl, rfl, rfl, rfl⟩ ?_ h
  rintro I s ⟨t, taken⟩ s' hlive ⟨h₁, h₂, h₃, h₄⟩ happly
  have hdash := afterDashes_eq_none (by decide) hlive
  simp only [pathWords, hdash] at h₄
  clear hlive
  unfold restoreStep at happly
  split_ifs at happly with hstaged hsource hworktree hdd hop
  · cases happly
    constructor <;> simp_all [isFlag]
  · obtain ⟨val, hval, happly⟩ := bind_eq_ok.mp happly
    cases happly
    constructor <;> simp_all [isFlag]
  · cases happly
    constructor <;> simp_all [isFlag]
  · obtain ⟨paths, hpaths, happly⟩ := bind_eq_ok.mp happly
    cases happly
    constructor <;> simp_all
  · rw [Step.apply_attempt] at happly
    obtain ⟨path, hpath, happly⟩ := bind_eq_ok.mp happly
    cases happly
    constructor <;> simp_all
  · cases happly
    constructor <;> simp_all

theorem add_of {paths : List RepoPath} (h : scan (addStep canonicalize) [] args = .ok paths) :
    (pathWords 0 ((plain (fun _ => false) true).read false args)).mapM
      (toRepoPath canonicalize) = .ok paths := by
  refine add_cuts.scan_invariant
    (fun I paths => (pathWords 0 I).mapM (toRepoPath canonicalize) = .ok paths) rfl ?_ h
  rintro I s ⟨t, taken⟩ s' hlive h₁ happly
  have hdash := afterDashes_eq_none rfl hlive
  simp only [pathWords, hdash] at h₁
  clear hlive
  unfold addStep at happly
  split_ifs at happly with hdd hop
  · simp_all
  · rw [Step.apply_attempt] at happly
    obtain ⟨path, hpath, happly⟩ := bind_eq_ok.mp happly
    cases happly
    simp_all
  · cases happly
    simp_all

/-- The mode a flag of `git reset` sets. -/
def modeOf : String → Option ResetMode
  | "--soft" => some .soft
  | "--mixed" => some .mixed
  | "--hard" => some .hard
  | "--merge" => some .merge
  | "--keep" => some .keep
  | _ => none

structure ResetArgs.Of (canonicalize : Canonicalize) (I : Reading) (s : ResetArgs) : Prop where
  mode : s.mode = lastSome (fun a => modeOf a.head) I
  rev : s.rev = I.operands.head?
  paths : (I.pathWords 1).mapM (toRepoPath canonicalize) = .ok s.paths

theorem modeOf_eq_none {t : String} (h₁ : t ≠ "--soft") (h₂ : t ≠ "--mixed") (h₃ : t ≠ "--hard")
    (h₄ : t ≠ "--merge") (h₅ : t ≠ "--keep") : modeOf t = none := by
  unfold modeOf
  split <;> simp_all

theorem reset_of {s : ResetArgs} (h : scan (resetStep canonicalize) {} args = .ok s) :
    s.Of canonicalize ((plain (fun _ => false) true).read false args) := by
  refine reset_cuts.scan_invariant (fun I s => s.Of canonicalize I) ⟨rfl, rfl, rfl⟩ ?_ h
  rintro I s ⟨t, taken⟩ s' hlive ⟨h₁, h₂, h₃⟩ happly
  have hdash := afterDashes_eq_none rfl hlive
  simp only [pathWords, hdash] at h₃
  clear hlive
  unfold resetStep at happly
  repeat' split at happly
  case isTrue | isTrue | isTrue | isTrue | isTrue =>
    cases happly
    constructor <;>
      simp_all [isFlag, modeOf]
  next hdd =>
    obtain ⟨paths, hpaths, happly⟩ := bind_eq_ok.mp happly
    cases happly
    constructor <;> simp_all [modeOf]
  next hsoft hmixed hhard hmerge hkeep hdd hop hrev =>
    cases happly
    have hmode := modeOf_eq_none hsoft hmixed hhard hmerge hkeep
    have hnil : operands I = [] := by
      rw [h₂] at hrev
      simpa using hrev
    constructor <;> simp_all
  next hsoft hmixed hhard hmerge hkeep hdd hop hrev =>
    rw [Step.apply_attempt] at happly
    obtain ⟨path, hpath, happly⟩ := bind_eq_ok.mp happly
    cases happly
    have hmode := modeOf_eq_none hsoft hmixed hhard hmerge hkeep
    obtain ⟨o, os, hcons⟩ : ∃ o os, operands I = o :: os := by
      cases hops : operands I <;> simp_all
    constructor <;> simp_all
  next hsoft hmixed hhard hmerge hkeep hdd hop =>
    cases happly
    have hmode := modeOf_eq_none hsoft hmixed hhard hmerge hkeep
    constructor <;> simp_all

/-- A flag of `git clean` that sets what `c` or `long` names. -/
def isCleanFlag (c : Char) (long t : String) : Bool := isShortFlag t c ∨ t = long

structure CleanArgs.Of (I : Reading) (s : CleanArgs) : Prop where
  force : s.force = I.has (isCleanFlag 'f' "--force")
  dryRun : s.dryRun = I.has (isCleanFlag 'n' "--dry-run")
  dirs : s.dirs = I.has (isCleanFlag 'd' "--dirs")
  ignored : s.ignored = I.has (isCleanFlag 'x' "--ignored")
  paths : (I.afterDashes.getD (I.operands.filter (· ≠ "-"))).mapM toPathspec = .ok s.paths

theorem foldl_cleanFlag (cs : List Char) (s : CleanArgs) :
    cs.foldl cleanFlag s = { s with
      force := s.force || decide ('f' ∈ cs)
      dryRun := s.dryRun || decide ('n' ∈ cs)
      dirs := s.dirs || decide ('d' ∈ cs)
      ignored := s.ignored || decide ('x' ∈ cs) } := by
  induction cs generalizing s with
  | nil => simp
  | cons c cs ih =>
    rw [List.foldl_cons, ih]
    unfold cleanFlag
    split <;> simp_all [eq_comm]

theorem isShortFlag_eq {t : String} (h₁ : ['-'] <+: t.toList) (h₂ : ¬['-', '-'] <+: t.toList)
    {c : Char} (hc : c ≠ '-') : isShortFlag t c = decide (c ∈ t.toList.tail) := by
  obtain ⟨cs, hcs⟩ := h₁
  have ht : t.toList = '-' :: cs := by simpa using hcs.symm
  cases cs with
  | nil => simp [isShortFlag, ht]
  | cons d ds =>
    rw [ht] at h₂
    have hd : '-' ≠ d := by simpa using h₂
    simp [isShortFlag, ht, hc, hd]

theorem isShortFlag_eq_false_of {t : String} (h : ¬(['-'] <+: t.toList ∧ ¬['-', '-'] <+: t.toList))
    (c : Char) : isShortFlag t c = false := by
  simp only [isShortFlag, decide_eq_false_iff_not]
  tauto

theorem clean_of {s : CleanArgs} (h : scan cleanStep {} args = .ok s) :
    s.Of ((plain (fun _ => false) true).read false args) := by
  refine clean_cuts.scan_invariant (fun I s => s.Of I) ⟨rfl, rfl, rfl, rfl, rfl⟩ ?_ h
  rintro I s ⟨t, taken⟩ s' hlive ⟨h₁, h₂, h₃, h₄, h₅⟩ happly
  have hdash := afterDashes_eq_none rfl hlive
  simp only [hdash, Option.getD_none] at h₅
  clear hlive
  unfold cleanStep at happly
  dsimp only at happly
  split_ifs at happly with hdd hshort hforce hdry hdirs hignored hop
  · obtain ⟨paths, hpaths, happly⟩ := bind_eq_ok.mp happly
    cases happly
    constructor <;> simp_all [collectPathspecsAfterDoubleDash, isCleanFlag]
  · rw [foldl_cleanFlag] at happly
    cases happly
    have hhas : ∀ c long, c ≠ '-' → ['-', '-'] <+: String.toList long →
        isCleanFlag c long t = decide (c ∈ t.toList.tail) := by
      intro c long hc hlong
      have hne : t ≠ long := by
        rintro rfl
        exact hshort.2 hlong
      simp [isCleanFlag, hne, isShortFlag_eq hshort.1 hshort.2 hc]
    have hword : operands (I ++ [⟨t, taken⟩]) = operands I ∨
        t = "-" ∧ operands (I ++ [⟨t, taken⟩]) = operands I ++ [t] := by
      rw [operands_append_singleton]
      cases hflag : isFlag t with
      | true => simp
      | false =>
        refine Or.inr ⟨?_, by simp⟩
        obtain ⟨cs, hcs⟩ := hshort.1
        have hnil : cs = [] := by
          simp only [isFlag, hshort.1, true_and, decide_eq_false_iff_not, not_lt] at hflag
          rw [← hcs] at hflag
          simpa using hflag
        subst hnil
        exact String.toList_inj.mp (by simpa using hcs.symm)
    constructor
    · simp [h₁, hhas 'f' "--force" (by decide) (by decide)]
    · simp [h₂, hhas 'n' "--dry-run" (by decide) (by decide)]
    · simp [h₃, hhas 'd' "--dirs" (by decide) (by decide)]
    · simp [h₄, hhas 'x' "--ignored" (by decide) (by decide)]
    · obtain hw | ⟨rfl, hw⟩ := hword
      · simpa [hdash, hw, hdd] using h₅
      · simpa [hdash, hw] using h₅
  -- the four flags that are spelled out
  iterate 4
    · have hno := isShortFlag_eq_false_of hshort
      cases happly
      constructor <;> simp_all [isCleanFlag, isFlag]
  · rw [Step.apply_attempt] at happly
    obtain ⟨path, hpath, happly⟩ := bind_eq_ok.mp happly
    cases happly
    have hne : t ≠ "-" := by
      rintro rfl
      exact hshort (by decide)
    have hno := isShortFlag_eq_false_of hshort
    constructor <;> simp_all [isCleanFlag]
  · have hno := isShortFlag_eq_false_of hshort
    cases happly
    constructor <;> simp_all [isCleanFlag]

structure StashPushArgs.Of (I : Reading) (s : StashPushArgs) : Prop where
  message : s.message = I.lastTaken 0 isMessage
  includeUntracked : s.includeUntracked = I.has isUntracked
  paths : (I.pathWords 0).mapM toPathspec = .ok s.paths

theorem stashPush_of {s : StashPushArgs} (h : scan stashPushStep {} args = .ok s) :
    s.Of ((plain isMessage true).read false args) := by
  refine stashPush_cuts.scan_invariant (fun I s => s.Of I) ⟨rfl, rfl, rfl⟩ ?_ h
  rintro I s ⟨t, taken⟩ s' hlive ⟨h₁, h₂, h₃⟩ happly
  have hdash := afterDashes_eq_none (by decide) hlive
  simp only [pathWords, hdash] at h₃
  clear hlive
  unfold stashPushStep at happly
  dsimp only at happly
  split_ifs at happly with hmessage huntracked hdd hop
  · obtain ⟨val, hval, happly⟩ := bind_eq_ok.mp happly
    cases happly
    have hflag := isFlag_of_long_or_short (by decide) hmessage
    have hne : t ≠ "--" := by
      rintro rfl
      simp at hmessage
    constructor <;> simp_all
  · cases happly
    have hflag := isFlag_of_long_or_short (by decide) huntracked
    have hne : t ≠ "--" := by
      rintro rfl
      simp at huntracked
    constructor <;> simp_all
  · obtain ⟨paths, hpaths, happly⟩ := bind_eq_ok.mp happly
    cases happly
    constructor <;> simp_all [collectPathspecsAfterDoubleDash]
  · rw [Step.apply_attempt] at happly
    obtain ⟨path, hpath, happly⟩ := bind_eq_ok.mp happly
    cases happly
    constructor <;> simp_all
  · cases happly
    constructor <;> simp_all

theorem stashIndex_cuts :
    Cuts (plain (fun _ => false) false) (fun _ => false) stashIndexStep where
  width s t w h := by
    unfold stashIndexStep at h
    repeat' split at h
    all_goals simp_all
  after s t taken s' _ _ := rfl

theorem stashIndex_of {index : Bool} (h : scan stashIndexStep false args = .ok index) :
    index = has isIndex ((plain (fun _ => false) false).read false args) := by
  refine stashIndex_cuts.scan_invariant (fun I s => s = has isIndex I) rfl ?_ h
  rintro I s ⟨t, taken⟩ s' - hs happly
  unfold stashIndexStep at happly
  split_ifs at happly <;> cases happly <;> simp_all [isIndex]

structure CommitArgs.Of (I : Reading) (s : CommitArgs) : Prop where
  message : s.message = (I.lastTaken 0 isMessage).getD ""
  amend : s.amend = I.has (· = "--amend")
  allowEmpty : s.allowEmpty = I.has (· = "--allow-empty")

theorem commit_of {s : CommitArgs} (h : scan commitStep {} args = .ok s) :
    s.Of ((plain isMessage false).read false args) := by
  refine commit_cuts.scan_invariant (fun I s => s.Of I) ⟨rfl, rfl, rfl⟩ ?_ h
  rintro I s ⟨t, taken⟩ s' - ⟨h₁, h₂, h₃⟩ happly
  unfold commitStep at happly
  dsimp only at happly
  split_ifs at happly with hmessage hamend hempty
  · obtain ⟨val, hval, happly⟩ := bind_eq_ok.mp happly
    cases happly
    have hne : t ≠ "--amend" ∧ t ≠ "--allow-empty" := by
      constructor <;> rintro rfl <;> simp [isShortFlag] at hmessage
    constructor <;> simp_all
  · cases happly
    constructor <;> simp_all
  · cases happly
    constructor <;> simp_all
  · cases happly
    constructor <;> simp_all

end Worktree

end Codegg.Git
