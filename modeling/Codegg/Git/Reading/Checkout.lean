import Codegg.Git.Reading.Basic
import Mathlib.Data.List.TakeWhile

/-!
# What the parsers of `switch` and `checkout` read
-/
namespace Codegg.Git

open Codegg.Library.ArgScan Reading

section Switch

variable {I : Reading} {args : List String}

def isForce (t : String) : Bool := t = "--force" ∨ isShortFlag t 'f'

theorem isForce_eq_true {t : String} (h : t = "--force" ∨ isShortFlag t 'f' = true) :
    isForce t = true := by
  simpa [isForce] using h

theorem isForce_eq_false {t : String} (h : ¬(t = "--force" ∨ isShortFlag t 'f' = true)) :
    isForce t = false := by
  simpa [isForce] using h

theorem isFlag_of_isForce {t : String} (h : isForce t = true) : isFlag t = true := by
  have h' : t = "--force" ∨ isShortFlag t 'f' = true := by simpa [isForce] using h
  exact isFlag_of_long_or_short (by decide) h'

/-- The flags of `git switch` that take a branch to create: `-c`, and `-C` which forces it. -/
def isCreateSwitch (t : String) : Bool :=
  !isForce t ∧ t ≠ "--detach" ∧ (t = "--create" ∨ isShortFlag t 'c')

def isForceCreateSwitch (t : String) : Bool :=
  !isForce t ∧ t ≠ "--detach" ∧ !isCreateSwitch t ∧ (t = "--orphan" ∨ isShortFlag t 'C')

def takesBranch (t : String) : Bool := isCreateSwitch t ∨ isForceCreateSwitch t

attribute [local simp] takesBranch isForceCreateSwitch

theorem switch_cuts : Cuts (plain takesBranch false) (fun _ => false) switchStep where
  width s t w h := by
    unfold switchStep at h
    split_ifs at h with hforce hdetach hcreate horphan hop
    · have hF := isForce_eq_true hforce
      simp_all [plain, isCreateSwitch]
    · simp_all [plain, isCreateSwitch]
    · simp_all [plain, isCreateSwitch, isForce]
    · simp_all [plain, isCreateSwitch, isForce]
    · simp_all [plain, isCreateSwitch]
    · simp_all [plain, isCreateSwitch]
  after s t taken s' _ _ := rfl

structure SwitchArgs.Of (I : Reading) (s : SwitchArgs) : Prop where
  create : s.create = I.has takesBranch
  force : s.force = I.has fun t => isForce t ∨ isForceCreateSwitch t
  detach : s.detach = I.has (· = "--detach")
  branch : s.branch = lastSome (fun a =>
    if takesBranch a.head then a.taken[0]? else if isFlag a.head then none else some a.head) I

theorem switch_of {s : SwitchArgs} (h : scan switchStep {} args = .ok s) :
    s.Of ((plain takesBranch false).read false args) := by
  refine switch_cuts.scan_invariant (fun I s => s.Of I) ⟨rfl, rfl, rfl, rfl⟩ ?_ h
  rintro I s ⟨t, taken⟩ s' - ⟨h₁, h₂, h₃, h₄⟩ happly
  unfold switchStep at happly
  dsimp only at happly
  split_ifs at happly with hforce hdetach hcreate horphan hop
  · have hflag := isFlag_of_long_or_short (by decide) hforce
    have hF := isForce_eq_true hforce
    have hC : isCreateSwitch t = false := by simp [isCreateSwitch, hF]
    have hO : isForceCreateSwitch t = false := by simp [hF]
    have hne : t ≠ "--detach" := by
      rintro rfl
      simp [isShortFlag] at hforce
    cases happly
    constructor <;> simp [*]
  · subst hdetach
    cases happly
    constructor <;> simp [*, isCreateSwitch, isForce, isShortFlag, isFlag]
  · have hflag := isFlag_of_long_or_short (by decide) hcreate
    have hF := isForce_eq_false hforce
    have hC : isCreateSwitch t = true := by simpa [isCreateSwitch, hF, hdetach] using hcreate
    have hO : isForceCreateSwitch t = false := by simp [hC]
    cases happly
    constructor <;> simp [*]
  · have hflag := isFlag_of_long_or_short (by decide) horphan
    have hF := isForce_eq_false hforce
    have hC : isCreateSwitch t = false := by simpa [isCreateSwitch, hF, hdetach] using hcreate
    have hO : isForceCreateSwitch t = true := by
      simpa [hF, hdetach, hC] using horphan
    cases happly
    constructor <;> simp [*]
  -- the word is an operand or an option that is not known
  all_goals
    have hF := isForce_eq_false hforce
    have hC : isCreateSwitch t = false := by simpa [isCreateSwitch, hF, hdetach] using hcreate
    have hO : isForceCreateSwitch t = false := by
      simpa [hF, hdetach, hC] using horphan
    cases happly
    constructor <;> simp_all

end Switch

section Checkout

variable {canonicalize : Canonicalize} {I : Reading} {args : List String}

def isCreateBranch (t : String) : Bool :=
  !isForce t ∧ t ≠ "--detach" ∧ (t = "--new-branch" ∨ isShortFlag t 'b')

theorem isFlag_of_isCreateBranch {t : String} (h : isCreateBranch t = true) : isFlag t = true := by
  simp only [isCreateBranch, decide_eq_true_eq] at h
  exact isFlag_of_long_or_short (by decide) h.2.2

/-- A word after which an operand of `git checkout` is a path. -/
def namesTarget (t : String) : Bool := isCreateBranch t ∨ !isFlag t

/-- An operand is a path once the target is known, and takes what follows with it. -/
def checkoutGrammar : Grammar String Bool where
  width targeted t :=
    if isCreateBranch t then .one
    else if isDoubleDash t then .rest
    else if targeted && !isFlag t then .rest
    else .alone
  after targeted a := targeted || namesTarget a.head

attribute [local simp] checkoutGrammar namesTarget

theorem checkout_cuts :
    Cuts checkoutGrammar (fun s => s.target.isSome || s.create) (checkoutStep canonicalize) where
  width s t w h := by
    unfold checkoutStep at h
    split_ifs at h with hforce hdetach hcreate hdd hop htarget
    · have hflag := isFlag_of_long_or_short (by decide) hforce
      have hF := isForce_eq_true hforce
      have hne : t ≠ "--" := by
        rintro rfl
        simp at hforce
      simp_all [isCreateBranch]
    · simp_all [isCreateBranch]
      simp [isFlag]
    · have hF := isForce_eq_false hforce
      simp_all [isCreateBranch]
    · simp_all [isCreateBranch]
    · have hF := isForce_eq_false hforce
      simp_all [isCreateBranch]
    · have hF := isForce_eq_false hforce
      simp_all [isCreateBranch]
    · simp_all [isCreateBranch]
  after s t taken s' hw happly := by
    unfold checkoutStep at hw happly
    split_ifs at hw happly with hforce hdetach hcreate hdd hop htarget
    · have hflag := isFlag_of_long_or_short (by decide) hforce
      have hF := isForce_eq_true hforce
      cases happly
      simp [isCreateBranch, hF, hflag]
    · cases happly
      simp [isCreateBranch, hdetach, isFlag]
    · have hF := isForce_eq_false hforce
      cases happly
      simp [isCreateBranch, hF, hdetach, hcreate]
    · simp at hw
    · have hF := isForce_eq_false hforce
      cases happly
      simp_all
    · simp at hw
    · have hF := isForce_eq_false hforce
      cases happly
      simp_all [isCreateBranch]

/-- The words that `git checkout` reads as paths, if it reads any as such. -/
def checkoutPathWords (I : Reading) : Option (List String) :=
  I.getLast?.bind fun a =>
    if isDoubleDash a.head then some a.taken
    else if !isFlag a.head && has namesTarget I.dropLast then
      some (a.head :: a.taken.filter fun t => !isFlag t)
    else none

theorem checkoutPathWords_append_singleton (I : Reading) (a : Arg String) :
    checkoutPathWords (I ++ [a]) =
      if isDoubleDash a.head then some a.taken
      else if !isFlag a.head && has namesTarget I then
        some (a.head :: a.taken.filter fun t => !isFlag t)
      else none := by
  simp [checkoutPathWords]

/-- Some flag between the paths of `git checkout` forces it. -/
def forcedAfterPath (I : Reading) : Bool :=
  I.any fun a => !isFlag a.head && a.taken.any isForce

@[simp] theorem forcedAfterPath_append_singleton (I : Reading) (a : Arg String) :
    forcedAfterPath (I ++ [a]) = (forcedAfterPath I || (!isFlag a.head && a.taken.any isForce)) := by
  simp [forcedAfterPath]

/-- The operand of `git checkout` that stands before every `-b`. -/
def firstTarget (I : Reading) : Option String :=
  (operands (I.takeWhile fun a => !isCreateBranch a.head)).head?

structure CheckoutArgs.Of (canonicalize : Canonicalize) (I : Reading) (s : CheckoutArgs) :
    Prop where
  create : s.create = I.has isCreateBranch
  force : s.force = (I.has isForce || forcedAfterPath I)
  target : s.target = (I.lastTaken 0 isCreateBranch).or (firstTarget I)
  paths : s.paths.map .ok = (checkoutPathWords I).map fun words =>
    words.mapM (toRepoPath canonicalize)

/-- Once a path is an operand, the flags that follow are read but for a separator. -/
theorem checkoutPath_of {s s' : CheckoutArgs} (paths : List RepoPath) {rest : List String}
    (hpaths : s.paths = some paths) (h : scan (checkoutPathStep canonicalize) s rest = .ok s') :
    s'.create = s.create ∧ s'.target = s.target ∧ s'.force = (s.force || rest.any isForce) ∧
      ∃ more, s'.paths = some (paths ++ more) ∧
        (rest.filter fun t => !isFlag t).mapM (toRepoPath canonicalize) = .ok more := by
  induction rest generalizing s paths with
  | nil =>
    cases h
    simp [hpaths, pure, Except.pure]
  | cons t rest ih =>
    unfold scan at h
    unfold checkoutPathStep at h
    by_cases hflag : isFlag t = true
    · by_cases hforce : t = "--force" ∨ isShortFlag t 'f' = true
      · have hF := isForce_eq_true hforce
        simp only [if_pos hflag, if_pos hforce] at h
        obtain ⟨h₁, h₂, h₃, h₄⟩ := ih (s := { s with force := true }) paths hpaths h
        simp_all
      · have hF := isForce_eq_false hforce
        simp only [if_pos hflag, if_neg hforce] at h
        obtain ⟨h₁, h₂, h₃, h₄⟩ := ih paths hpaths h
        simp_all
    · have hF : isForce t = false := by
        rw [Bool.eq_false_iff]
        intro hF
        exact hflag (isFlag_of_isForce hF)
      simp only [if_neg hflag] at h
      cases hp : toRepoPath canonicalize t with
      | error e =>
        rw [hp] at h
        cases h
      | ok path =>
        rw [hp] at h
        obtain ⟨h₁, h₂, h₃, more, h₄, h₅⟩ := ih (s := { s with
          paths := some (s.paths.getD [] ++ [path]) }) (paths ++ [path]) (by simp [hpaths]) h
        refine ⟨h₁, h₂, by simp [h₃, hF], path :: more, by simp [h₄], ?_⟩
        simp [hflag, hp, h₅]

/-- What holds of the arguments of `git checkout` while no path was read. -/
structure CheckoutArgs.Running (I : Reading) (s : CheckoutArgs) : Prop where
  create : s.create = I.has isCreateBranch
  force : s.force = I.has isForce
  forcedAfter : forcedAfterPath I = false
  target : s.target = (I.lastTaken 0 isCreateBranch).or (firstTarget I)
  targeted : (s.target.isSome || s.create) = I.has namesTarget
  paths : s.paths = none
  noPaths : checkoutPathWords I = none

theorem firstTarget_append (I : Reading) (a : Arg String) :
    firstTarget (I ++ [a]) =
      if has isCreateBranch I then firstTarget I
      else if isCreateBranch a.head ∨ isFlag a.head then firstTarget I
      else (firstTarget I).or (some a.head) := by
  unfold firstTarget
  by_cases hall : ∀ b ∈ I, isCreateBranch b.head = false
  · have hcreate : has isCreateBranch I = false := by simpa [has] using hall
    have hself : (I.takeWhile fun b => !isCreateBranch b.head) = I :=
      List.takeWhile_eq_self_iff.mpr (by simpa using hall)
    rw [List.takeWhile_append, if_pos (by rw [hself]), hself]
    cases hc : isCreateBranch a.head with
    | true => simp [hc]
    | false =>
      cases hf : isFlag a.head <;>
        simp [hcreate, hc, hf, List.head?_append]
  · have hcreate : has isCreateBranch I = true := by simpa [has] using hall
    have hlen : (I.takeWhile fun b => !isCreateBranch b.head).length ≠ I.length := by
      intro hlen
      have hself := (List.takeWhile_prefix fun b : Arg String => !isCreateBranch b.head).eq_of_length hlen
      exact hall (by simpa using List.takeWhile_eq_self_iff.mp hself)
    rw [List.takeWhile_append, if_neg hlen]
    simp [hcreate]

attribute [local simp] firstTarget_append checkoutPathWords_append_singleton

theorem checkout_of {s : CheckoutArgs} (h : scan (checkoutStep canonicalize) {} args = .ok s) :
    s.Of canonicalize (checkoutGrammar.read false args) := by
  refine checkout_cuts.scan_rule (fun I s => s.Running I) (fun I s => s.Of canonicalize I)
    ?_ ?_ ?_ ⟨rfl, rfl, rfl, rfl, rfl, rfl, rfl⟩ h
  · rintro I s ⟨t, taken⟩ s' ⟨h₁, h₂, h₃, h₄, h₅, h₆, h₇⟩ hw hnil happly
    unfold checkoutStep at hw happly hnil
    dsimp only at hw happly hnil
    split_ifs at hw happly hnil with hforce hdetach hcreate hdd hop htarget
    · have hflag := isFlag_of_long_or_short (by decide) hforce
      have hF := isForce_eq_true hforce
      have hC : isCreateBranch t = false := by simp [isCreateBranch, hF]
      have hne : t ≠ "--" := by
        rintro rfl
        simp at hforce
      cases happly
      constructor <;>
        simp_all
    · have hF : isForce t = false := by simp [hdetach, isForce, isShortFlag]
      have hC : isCreateBranch t = false := by simp [isCreateBranch, hdetach]
      have hflag : isFlag t = true := by simp [hdetach, isFlag]
      have hne : t ≠ "--" := by simp [hdetach]
      clear hforce hdetach
      cases happly
      constructor <;>
        simp_all
    · have hflag := isFlag_of_long_or_short (by decide) hcreate
      have hF := isForce_eq_false hforce
      have hC : isCreateBranch t = true := by simpa [isCreateBranch, hF, hdetach] using hcreate
      have hne : t ≠ "--" := by
        rintro rfl
        simp at hcreate
      cases happly
      constructor <;> simp_all [Option.or_assoc]
    · simp at hw
    · have hF := isForce_eq_false hforce
      have hC : isCreateBranch t = false := by simpa [isCreateBranch, hF, hdetach] using hcreate
      cases happly
      constructor <;> simp_all
    · simp at hw
    · have hF := isForce_eq_false hforce
      have hC : isCreateBranch t = false := by simpa [isCreateBranch, hF, hdetach] using hcreate
      cases happly
      constructor <;> simp_all
  · rintro I s ⟨t, taken⟩ s' ⟨h₁, h₂, h₃, h₄, h₅, h₆, h₇⟩ hw happly
    unfold checkoutStep at hw happly
    dsimp only at hw happly
    split_ifs at hw happly with hforce hdetach hcreate hdd hop htarget
    all_goals simp at hw
    · obtain rfl := (isDoubleDash_iff t).mp hdd
      obtain ⟨paths, hpaths, happly⟩ := bind_eq_ok.mp happly
      cases happly
      constructor <;> simp_all [isForce, isCreateBranch, collectPathsAfterDoubleDash]
    · have hF := isForce_eq_false hforce
      have hC : isCreateBranch t = false := by simpa [isCreateBranch, hF, hdetach] using hcreate
      obtain ⟨path, hpath, happly⟩ := bind_eq_ok.mp happly
      obtain ⟨hcreate', htarget', hforce', more, hpaths', hmore⟩ := checkoutPath_of _ rfl happly
      have hknown : (s.target.isSome || s.create) = true := by
        cases hs : s.target with
        | none => simpa [hs] using htarget
        | some t => simp
      have hnames : has namesTarget I = true := h₅.symm.trans hknown
      have hflag : isFlag t = false := by simpa using hop
      constructor
      · simp [hcreate', h₁, hC]
      · simp [hforce', h₂, h₃, hF, hflag]
      · rw [htarget', h₄, firstTarget_append]
        cases hcr : has isCreateBranch I with
        | true => simp [hC]
        | false =>
          have hsome : s.target.isSome = true := by simpa [h₁, hcr] using hknown
          rw [h₄] at hsome
          rw [lastTaken_append_singleton]
          simp only [hC, hflag, Bool.false_eq_true, or_self, if_false]
          rw [← Option.or_assoc, Option.or_of_isSome hsome]
      · simp [hpaths', hdd, hflag, hnames, hpath, hmore]
  · rintro I s ⟨h₁, h₂, h₃, h₄, h₅, h₆, h₇⟩
    exact ⟨h₁, by simp [h₂, h₃], h₄, by simp [h₆, h₇]⟩

end Checkout

end Codegg.Git
