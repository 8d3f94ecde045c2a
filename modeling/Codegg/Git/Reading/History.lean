import Codegg.Git.Reading.Basic

/-!
# What the parsers that integrate history read
-/
namespace Codegg.Git

open Codegg.Library.ArgScan

section Flags

theorem isFlag_of_isIgnoredMergeFlag {t : String} (h : isIgnoredMergeFlag t = true) :
    isFlag t = true := by
  simp only [isIgnoredMergeFlag, decide_eq_true_eq] at h
  obtain h | h | h := h
  · revert t
    decide
  all_goals exact isFlag_of_isShortFlag h

theorem isFlag_of_isIgnoredRebaseFlag {t : String} (h : isIgnoredRebaseFlag t = true) :
    isFlag t = true := by
  simp only [isIgnoredRebaseFlag, decide_eq_true_eq] at h
  obtain h | h | h | h | h := h
  · revert t
    decide
  all_goals exact isFlag_of_isShortFlag h

theorem isFlag_of_isIgnoredCherryPickFlag {t : String} (h : isIgnoredCherryPickFlag t = true) :
    isFlag t = true := by
  simp only [isIgnoredCherryPickFlag, decide_eq_true_eq] at h
  obtain h | h | h | h | h := h
  · revert t
    decide
  all_goals exact isFlag_of_isShortFlag h

theorem isFlag_of_isIgnoredRevertFlag {t : String} (h : isIgnoredRevertFlag t = true) :
    isFlag t = true := by
  simp only [isIgnoredRevertFlag, decide_eq_true_eq] at h
  obtain h | h | h | h | h | h | h := h
  · revert t
    decide
  all_goals exact isFlag_of_isShortFlag h

end Flags

section Merge

variable {I : Reading} {args : List String}

def isStrategy (t : String) : Bool := t = "--strategy" ∨ t = "--strategy-option"

def isInteractive (t : String) : Bool := t = "--interactive" ∨ isShortFlag t 'i'

attribute [local simp] isStrategy isInteractive

theorem merge_cuts : Cuts (plain isStrategy true) (fun _ => false) mergeStep where
  width s t w h := by
    unfold mergeStep at h
    split_ifs at h with hnoFf hstrategy habort hcontinue hignored hdd hop
    all_goals simp_all [plain]
    rintro rfl
    simp [isIgnoredMergeFlag] at hignored
  after s t taken s' _ _ := rfl

structure MergeArgs.Of (I : Reading) (s : MergeArgs) : Prop where
  noFf : s.noFf = I.has (· = "--no-ff")
  strategy : s.strategy = I.lastTaken 0 isStrategy
  abort : s.abort = I.has (· = "--abort")
  continueOp : s.continueOp = I.has (· = "--continue")
  revisions : s.revisions = I.operands ++ I.afterDashes.getD []

theorem merge_of {s : MergeArgs} (h : scan mergeStep {} args = .ok s) :
    s.Of ((plain isStrategy true).read false args) := by
  refine merge_cuts.scan_invariant (fun I s => s.Of I) ⟨rfl, rfl, rfl, rfl, rfl⟩ ?_ h
  rintro I s ⟨t, taken⟩ s' hlive ⟨h₁, h₂, h₃, h₄, h₅⟩ happly
  have hdash := afterDashes_eq_none (by decide) hlive
  simp only [hdash, Option.getD_none, List.append_nil] at h₅
  clear hlive
  unfold mergeStep at happly
  dsimp only at happly
  split_ifs at happly with hnoFf hstrategy habort hcontinue hignored hdd hop
  · have hflag : isFlag t = true := by simp [hnoFf, isFlag]
    cases happly
    constructor <;> simp_all
  · have hflag : isFlag t = true := by
      obtain rfl | rfl := hstrategy <;> simp [isFlag]
    have hne : t ≠ "--" ∧ t ≠ "--no-ff" ∧ t ≠ "--abort" ∧ t ≠ "--continue" := by
      obtain rfl | rfl := hstrategy <;> simp
    obtain ⟨val, hval, happly⟩ := bind_eq_ok.mp happly
    cases happly
    constructor <;> simp_all
  · have hflag : isFlag t = true := by simp [habort, isFlag]
    cases happly
    constructor <;> simp_all
  · have hflag : isFlag t = true := by simp [hcontinue, isFlag]
    cases happly
    constructor <;> simp_all
  · have hflag := isFlag_of_isIgnoredMergeFlag hignored
    have hne : t ≠ "--" := by
      rintro rfl
      simp [isIgnoredMergeFlag] at hignored
    cases happly
    constructor <;> simp_all
  · cases happly
    constructor <;> simp_all
  · cases happly
    constructor <;> simp_all
  · cases happly
    constructor <;> simp_all

theorem rebase_cuts : Cuts (plain (· = "--onto") true) (fun _ => false) rebaseStep where
  width s t w h := by
    unfold rebaseStep at h
    split_ifs at h with hinteractive habort hcontinue hskip honto hignored hdd hop
    all_goals simp_all [plain]
    · have hne : t ≠ "--onto" ∧ t ≠ "--" := by
        constructor <;> rintro rfl <;> simp [isShortFlag] at hinteractive
      simp [hne]
    · rintro rfl
      simp [isIgnoredRebaseFlag] at hignored
  after s t taken s' _ _ := rfl

structure RebaseArgs.Of (I : Reading) (s : RebaseArgs) : Prop where
  interactive : s.interactive = I.has isInteractive
  abort : s.abort = I.has (· = "--abort")
  continueOp : s.continueOp = I.has (· = "--continue")
  skip : s.skip = I.has (· = "--skip")
  onto : s.onto = I.lastTaken 0 (· = "--onto")
  upstream : s.upstream = I.operands.head?.or (I.afterDashes.bind List.head?)

theorem rebase_of {s : RebaseArgs} (h : scan rebaseStep {} args = .ok s) :
    s.Of ((plain (· = "--onto") true).read false args) := by
  refine rebase_cuts.scan_invariant (fun I s => s.Of I) ⟨rfl, rfl, rfl, rfl, rfl, rfl⟩ ?_ h
  rintro I s ⟨t, taken⟩ s' hlive ⟨h₁, h₂, h₃, h₄, h₅, h₆⟩ happly
  have hdash := afterDashes_eq_none (by decide) hlive
  simp only [hdash, Option.bind_none, Option.or_none] at h₆
  clear hlive
  unfold rebaseStep at happly
  dsimp only at happly
  split_ifs at happly with hinteractive habort hcontinue hskip honto hignored hdd hop
  · have hflag := isFlag_of_long_or_short (by decide) hinteractive
    have hne : t ≠ "--" ∧ t ≠ "--abort" ∧ t ≠ "--continue" ∧ t ≠ "--skip" ∧ t ≠ "--onto" := by
      refine ⟨?_, ?_, ?_, ?_, ?_⟩ <;> rintro rfl <;> simp [isShortFlag] at hinteractive
    cases happly
    constructor <;> simp_all
  · have hflag : isFlag t = true := by simp [habort, isFlag]
    cases happly
    constructor <;> simp_all
  · have hflag : isFlag t = true := by simp [hcontinue, isFlag]
    cases happly
    constructor <;> simp_all
  · have hflag : isFlag t = true := by simp [hskip, isFlag]
    cases happly
    constructor <;> simp_all
  · have hflag : isFlag t = true := by simp [honto, isFlag]
    obtain ⟨val, hval, happly⟩ := bind_eq_ok.mp happly
    cases happly
    constructor <;> simp_all
  · have hflag := isFlag_of_isIgnoredRebaseFlag hignored
    have hne : t ≠ "--" := by
      rintro rfl
      simp [isIgnoredRebaseFlag] at hignored
    cases happly
    constructor <;> simp_all
  · cases happly
    constructor <;> simp_all
  · cases happly
    constructor <;> simp_all
  · cases happly
    constructor <;> simp_all
    split_ifs with hflag
    · rfl
    · obtain ⟨o, os, hcons⟩ := List.exists_cons_of_ne_nil (hop (by simpa using hflag))
      simp [hcons]

end Merge

section Sequencer

variable {I : Reading} {args : List String}

theorem cherryPick_cuts :
    Cuts (plain (fun _ => false) false) (fun _ => false) cherryPickStep :=
  alone_cuts fun s t => by
    unfold cherryPickStep
    split_ifs <;> exact ⟨_, rfl⟩

theorem revert_cuts : Cuts (plain (fun _ => false) false) (fun _ => false) revertStep :=
  alone_cuts fun s t => by
    unfold revertStep
    split_ifs <;> exact ⟨_, rfl⟩

/-- The arguments of `git cherry-pick` and `git revert`; only the latter has `--no-edit`. -/
structure SequencerArgs.Of (noEdit : Bool) (I : Reading) (s : SequencerArgs) : Prop where
  noEdit : s.noEdit = noEdit
  continueOp : s.continueOp = I.has (· = "--continue")
  abort : s.abort = I.has (· = "--abort")
  skip : s.skip = I.has (· = "--skip")
  revisions : s.revisions = I.operands

theorem cherryPick_of {s : SequencerArgs} (h : scan cherryPickStep {} args = .ok s) :
    s.Of false ((plain (fun _ => false) false).read false args) := by
  refine cherryPick_cuts.scan_invariant (fun I s => s.Of false I) ⟨rfl, rfl, rfl, rfl, rfl⟩ ?_ h
  rintro I s ⟨t, taken⟩ s' - ⟨h₁, h₂, h₃, h₄, h₅⟩ happly
  unfold cherryPickStep at happly
  dsimp only at happly
  split_ifs at happly with hcontinue habort hskip hignored hop
  · have hflag : isFlag t = true := by simp [hcontinue, isFlag]
    cases happly
    constructor <;> simp_all
  · have hflag : isFlag t = true := by simp [habort, isFlag]
    cases happly
    constructor <;> simp_all
  · have hflag : isFlag t = true := by simp [hskip, isFlag]
    cases happly
    constructor <;> simp_all
  · have hflag := isFlag_of_isIgnoredCherryPickFlag hignored
    cases happly
    constructor <;> simp_all
  · cases happly
    constructor <;> simp_all
  · cases happly
    constructor <;> simp_all

theorem revert_of {s : SequencerArgs} (h : scan revertStep {} args = .ok s) :
    s.Of (Reading.has (· = "--no-edit") ((plain (fun _ => false) false).read false args))
      ((plain (fun _ => false) false).read false args) := by
  refine revert_cuts.scan_invariant (fun I s => s.Of (Reading.has (· = "--no-edit") I) I)
    ⟨rfl, rfl, rfl, rfl, rfl⟩ ?_ h
  rintro I s ⟨t, taken⟩ s' - ⟨h₁, h₂, h₃, h₄, h₅⟩ happly
  unfold revertStep at happly
  dsimp only at happly
  split_ifs at happly with hnoEdit hcontinue habort hskip hignored hop
  · have hflag : isFlag t = true := by simp [hnoEdit, isFlag]
    cases happly
    constructor <;> simp_all
  · have hflag : isFlag t = true := by simp [hcontinue, isFlag]
    cases happly
    constructor <;> simp_all
  · have hflag : isFlag t = true := by simp [habort, isFlag]
    cases happly
    constructor <;> simp_all
  · have hflag : isFlag t = true := by simp [hskip, isFlag]
    cases happly
    constructor <;> simp_all
  · have hflag := isFlag_of_isIgnoredRevertFlag hignored
    cases happly
    constructor <;> simp_all
  · cases happly
    constructor <;> simp_all
  · cases happly
    constructor <;> simp_all

end Sequencer

end Codegg.Git
