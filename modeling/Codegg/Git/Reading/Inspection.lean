import Codegg.Git.Reading.Basic

/-!
# What the parsers of `status`, `diff` and `log` read
-/
namespace Codegg.Git

open Codegg.Library.ArgScan

section Inspection

variable {canonicalize : Canonicalize} {I : Reading} {args : List String}

def isShort (t : String) : Bool := t = "--short" ∨ t = "-s"

def isStaged (t : String) : Bool := t = "--staged" ∨ t = "--cached"

def isCount (t : String) : Bool := t = "-n" ∨ t = "--max-count"

attribute [local simp] isStaged isCount Reading.pathWords plain

theorem status_cuts : Cuts (plain (fun _ => false) false) (fun _ => false) statusStep where
  width s t w h := by
    unfold statusStep at h
    split_ifs at h <;> simp_all
  after s t taken s' _ _ := rfl

theorem diff_cuts : Cuts (plain (fun _ => false) true) (fun _ => false) (diffStep canonicalize) where
  width s t w h := by
    unfold diffStep at h
    split_ifs at h with hstaged <;> try split at h
    all_goals simp_all
    obtain rfl | rfl := hstaged <;> simp
  after s t taken s' _ _ := rfl

theorem log_cuts : Cuts (plain isCount true) (fun _ => false) (logStep canonicalize) where
  width s t w h := by
    unfold logStep at h
    split_ifs at h <;> simp_all
  after s t taken s' _ _ := rfl

theorem status_of {short : Bool} (h : scan statusStep false args = .ok short) :
    short = Reading.has isShort ((plain (fun _ => false) false).read false args) := by
  refine status_cuts.scan_invariant (fun I s => s = Reading.has isShort I) rfl ?_ h
  rintro I s ⟨t, taken⟩ s' - hs happly
  unfold statusStep at happly
  split_ifs at happly <;> cases happly <;> simp_all [isShort]

structure DiffArgs.Of (canonicalize : Canonicalize) (I : Reading) (s : DiffArgs) : Prop where
  staged : s.staged = I.has isStaged
  stat : s.stat = I.has (· = "--stat")
  nameOnly : s.nameOnly = I.has (· = "--name-only")
  baseRef : s.baseRef.map RevisionExpr.text = I.operands.head?
  paths : (I.pathWords 1).mapM (toRepoPath canonicalize) = .ok s.paths

theorem diff_of {s : DiffArgs} (h : scan (diffStep canonicalize) {} args = .ok s) :
    s.Of canonicalize ((plain (fun _ => false) true).read false args) := by
  refine diff_cuts.scan_invariant (fun I s => s.Of canonicalize I) ⟨rfl, rfl, rfl, rfl, rfl⟩ ?_ h
  rintro I s ⟨t, taken⟩ s' hlive ⟨h₁, h₂, h₃, h₄, h₅⟩ happly
  have hdash := afterDashes_eq_none rfl hlive
  simp only [Reading.pathWords, hdash] at h₅
  clear hlive
  unfold diffStep at happly
  split_ifs at happly with hstaged hstat hname hdd hop
  · cases happly
    obtain rfl | rfl := hstaged <;> constructor <;>
      simp_all [isFlag]
  · cases happly
    constructor <;>
      simp_all [isFlag]
  · cases happly
    constructor <;>
      simp_all [isFlag]
  · obtain ⟨paths, hpaths, happly⟩ := bind_eq_ok.mp happly
    cases happly
    constructor <;> simp_all [collectPathsAfterDoubleDash]
  · split at happly
    · rename_i hbase
      rw [Step.apply_attempt] at happly
      obtain ⟨rev, hrev, happly⟩ := bind_eq_ok.mp happly
      cases happly
      have hnil : Reading.operands I = [] := by simpa [hbase] using h₄.symm
      have htext := text_of_toRevisionExpr hrev
      constructor <;> simp_all
    · rename_i hbase
      rw [Step.apply_attempt] at happly
      obtain ⟨path, hpath, happly⟩ := bind_eq_ok.mp happly
      cases happly
      obtain ⟨o, os, hcons⟩ : ∃ o os, Reading.operands I = o :: os := by
        cases hops : Reading.operands I <;> simp_all
      constructor <;> simp_all
  · cases happly
    constructor <;> simp_all

structure LogArgs.Of (canonicalize : Canonicalize) (I : Reading) (s : LogArgs) : Prop where
  oneline : s.oneline = I.has (· = "--oneline")
  maxCount : s.maxCount = (I.lastTaken 0 isCount).bind parseU32
  paths : (I.pathWords 0).mapM (toRepoPath canonicalize) = .ok s.paths

theorem log_of {s : LogArgs} (h : scan (logStep canonicalize) {} args = .ok s) :
    s.Of canonicalize ((plain isCount true).read false args) := by
  refine log_cuts.scan_invariant (fun I s => s.Of canonicalize I) ⟨rfl, rfl, rfl⟩ ?_ h
  rintro I s ⟨t, taken⟩ s' hlive ⟨h₁, h₂, h₃⟩ happly
  have hdash := afterDashes_eq_none rfl hlive
  unfold logStep at happly
  split_ifs at happly with hone hcount hdd hop
  · cases happly
    constructor <;> simp_all [isFlag]
  · obtain ⟨val, hval, happly⟩ := bind_eq_ok.mp happly
    cases happly
    obtain rfl | rfl := hcount <;> constructor <;>
      simp_all [isFlag]
  · obtain ⟨paths, hpaths, happly⟩ := bind_eq_ok.mp happly
    cases happly
    constructor <;> simp_all [collectPathsAfterDoubleDash]
  · rw [Step.apply_attempt] at happly
    obtain ⟨path, hpath, happly⟩ := bind_eq_ok.mp happly
    cases happly
    constructor <;> simp_all
  · cases happly
    constructor <;> simp_all

end Inspection

end Codegg.Git
