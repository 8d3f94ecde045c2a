import Codegg.Git.Reading.Basic

/-!
# What the parsers of the network commands and of `config` read

Each of these takes its first operands for fixed places.
-/
namespace Codegg.Git

open Codegg.Library.ArgScan

section Flags

theorem isFlag_of_isIgnoredFetchFlag {t : String} (h : isIgnoredFetchFlag t = true) :
    isFlag t = true := by
  simp only [isIgnoredFetchFlag, decide_eq_true_eq] at h
  obtain h | h | h | h | h | h | h | h := h
  · revert t
    decide
  all_goals exact isFlag_of_isShortFlag h

theorem isFlag_of_isIgnoredPullFlag {t : String} (h : isIgnoredPullFlag t = true) :
    isFlag t = true := by
  simp only [isIgnoredPullFlag, decide_eq_true_eq] at h
  obtain h | h | h | h | h | h | h | h | h | h | h | h | h := h
  · revert t
    decide
  all_goals exact isFlag_of_isShortFlag h

theorem isFlag_of_isPushFlag {t : String} (h : isPushFlag t = true) : isFlag t = true := by
  simp only [isPushFlag, decide_eq_true_eq] at h
  obtain h | h | h | h | h | h := h
  · revert t
    decide
  all_goals exact isFlag_of_isShortFlag h

theorem isFlag_of_isIgnoredConfigFlag {t : String} (h : isIgnoredConfigFlag t = true) :
    isFlag t = true := by
  simp only [isIgnoredConfigFlag, decide_eq_true_eq] at h
  obtain h | h | h | h | h | h | h := h
  · revert t
    decide
  all_goals exact isFlag_of_isShortFlag h

end Flags

section Places

variable {I : Reading} {args : List String}

def isAll (t : String) : Bool := t = "--all" ∨ isShortFlag t 'a'

theorem fetch_cuts : Cuts (plain (fun _ => false) false) (fun _ => false) fetchStep :=
  alone_cuts fun s t => by
    unfold fetchStep
    split_ifs <;> exact ⟨_, rfl⟩

structure FetchArgs.Of (I : Reading) (s : FetchArgs) : Prop where
  all : s.all = I.has isAll
  remote : s.remote = I.operands.head?
  refspecs : s.refspecs = I.operands.tail

theorem fetch_of {s : FetchArgs} (h : scan fetchStep {} args = .ok s) :
    s.Of ((plain (fun _ => false) false).read false args) := by
  refine fetch_cuts.scan_invariant (fun I s => s.Of I) ⟨rfl, rfl, rfl⟩ ?_ h
  rintro I s ⟨t, taken⟩ s' - ⟨h₁, h₂, h₃⟩ happly
  unfold fetchStep at happly
  dsimp only at happly
  split_ifs at happly with hall hignored hop hremote
  · have hflag := isFlag_of_long_or_short (by decide) hall
    cases happly
    constructor <;> simp_all [isAll]
  · have hflag := isFlag_of_isIgnoredFetchFlag hignored
    cases happly
    constructor <;> simp_all [isAll]
  · cases happly
    constructor <;> simp_all [isAll]
  · cases happly
    obtain ⟨o, os, hcons⟩ : ∃ o os, Reading.operands I = o :: os := by
      cases hops : Reading.operands I <;> simp_all
    constructor <;> simp_all [isAll]
  · cases happly
    constructor <;> simp_all [isAll]

def isRebase (t : String) : Bool := t = "--rebase" ∨ isShortFlag t 'r'

theorem pull_cuts : Cuts (plain (fun _ => false) false) (fun _ => false) pullStep :=
  alone_cuts fun s t => by
    unfold pullStep
    split_ifs <;> exact ⟨_, rfl⟩

structure PullArgs.Of (I : Reading) (s : PullArgs) : Prop where
  rebase : s.rebase = I.has isRebase
  ffOnly : s.ffOnly = I.has (· = "--ff-only")
  remote : s.remote = I.operands[0]?
  branch : s.branch = I.operands[1]?

theorem pull_of {s : PullArgs} (h : scan pullStep {} args = .ok s) :
    s.Of ((plain (fun _ => false) false).read false args) := by
  refine pull_cuts.scan_invariant (fun I s => s.Of I) ⟨rfl, rfl, rfl, rfl⟩ ?_ h
  rintro I s ⟨t, taken⟩ s' - ⟨h₁, h₂, h₃, h₄⟩ happly
  have hplaces : Reading.Places I s.remote s.branch := ⟨h₃, h₄⟩
  unfold pullStep at happly
  dsimp only at happly
  by_cases hrebase : t = "--rebase" ∨ isShortFlag t 'r'
  · have hne : t ≠ "--ff-only" := by
      rintro rfl
      simp [isShortFlag] at hrebase
    obtain ⟨hremote, hbranch⟩ := hplaces.of_flag (a := ⟨t, taken⟩)
      (isFlag_of_long_or_short (by decide) hrebase)
    rw [if_pos hrebase] at happly
    cases happly
    exact ⟨by simp [isRebase, hrebase], by simp [h₂, hne], hremote, hbranch⟩
  rw [if_neg hrebase] at happly
  have hR : isRebase t = false := by simpa [isRebase] using hrebase
  by_cases hffOnly : t = "--ff-only"
  · obtain ⟨hremote, hbranch⟩ := hplaces.of_flag (a := ⟨t, taken⟩) (by simp [hffOnly, isFlag])
    rw [if_pos hffOnly] at happly
    cases happly
    exact ⟨by simp [h₁, hR], by simp [hffOnly], hremote, hbranch⟩
  rw [if_neg hffOnly] at happly
  -- The words left change no flag of the pull.
  have hkept {remote branch : Option String} (h : Reading.Places (I ++ [⟨t, taken⟩]) remote branch) :
      PullArgs.Of (I ++ [⟨t, taken⟩]) { s with remote := remote, branch := branch } :=
    ⟨by simp [h₁, hR], by simp [h₂, hffOnly], h.first, h.second⟩
  split_ifs at happly with hignored hop hremote hbranch <;> cases happly
  · exact hkept (hplaces.of_flag (isFlag_of_isIgnoredPullFlag hignored))
  · exact hkept (hplaces.take_first hremote (by simpa using hop))
  · exact hkept (hplaces.take_second hremote hbranch (by simpa using hop))
  · exact hkept (hplaces.of_full hbranch (by simpa using hop))
  · exact hkept (hplaces.of_flag (by simpa using hop))

def isUpstream (t : String) : Bool := t = "--set-upstream" ∨ isShortFlag t 'u'

/-- The words that force a push. Of the clusters of short flags that contain `f` these are the
ones with a further flag that the parser knows, and without `u`. -/
def forcesPush (t : String) : Bool :=
  !isUpstream t ∧ isPushFlag t ∧ (t = "--force" ∨ isShortFlag t 'f')

theorem push_cuts : Cuts (plain (fun _ => false) false) (fun _ => false) pushStep :=
  alone_cuts fun s t => by
    unfold pushStep
    split_ifs <;> exact ⟨_, rfl⟩

structure PushArgs.Of (I : Reading) (s : PushArgs) : Prop where
  setUpstream : s.setUpstream = I.has isUpstream
  force : s.force = I.has forcesPush
  forceWithLease : s.forceWithLease = I.has (· = "--force-with-lease")
  tags : s.tags = I.has (· = "--tags")
  delete : s.delete = I.has (· = "--delete")
  remote : s.remote = I.operands[0]?
  branch : s.branch = I.operands[1]?

theorem push_of {s : PushArgs} (h : scan pushStep {} args = .ok s) :
    s.Of ((plain (fun _ => false) false).read false args) := by
  refine push_cuts.scan_invariant (fun I s => s.Of I) ⟨rfl, rfl, rfl, rfl, rfl, rfl, rfl⟩ ?_ h
  rintro I s ⟨t, taken⟩ s' - ⟨h₁, h₂, h₃, h₄, h₅, h₆, h₇⟩ happly
  have hplaces : Reading.Places I s.remote s.branch := ⟨h₆, h₇⟩
  unfold pushStep at happly
  dsimp only at happly
  by_cases hupstream : t = "--set-upstream" ∨ isShortFlag t 'u'
  · have hU : isUpstream t = true := by simpa [isUpstream] using hupstream
    have hne : t ≠ "--force-with-lease" ∧ t ≠ "--tags" ∧ t ≠ "--delete" := by
      refine ⟨?_, ?_, ?_⟩ <;> rintro rfl <;> simp [isShortFlag] at hupstream
    obtain ⟨hremote, hbranch⟩ := hplaces.of_flag (a := ⟨t, taken⟩)
      (isFlag_of_long_or_short (by decide) hupstream)
    rw [if_pos hupstream] at happly
    cases happly
    exact ⟨by simp [hU], by simp [h₂, forcesPush, hU], by simp [h₃, hne], by simp [h₄, hne],
      by simp [h₅, hne], hremote, hbranch⟩
  rw [if_neg hupstream] at happly
  have hU : isUpstream t = false := by simpa [isUpstream] using hupstream
  by_cases hknown : isPushFlag t = true
  · obtain ⟨hremote, hbranch⟩ := hplaces.of_flag (a := ⟨t, taken⟩) (isFlag_of_isPushFlag hknown)
    rw [if_pos hknown] at happly
    cases happly
    exact ⟨by simp [h₁, hU], by simp [h₂, forcesPush, hU, hknown, Bool.or_assoc], by simp [h₃],
      by simp [h₄], by simp [h₅], hremote, hbranch⟩
  rw [if_neg hknown] at happly
  have hF : forcesPush t = false := by simp [forcesPush, hknown]
  have hne : t ≠ "--force-with-lease" ∧ t ≠ "--tags" ∧ t ≠ "--delete" := by
    refine ⟨?_, ?_, ?_⟩ <;> rintro rfl <;> simp [isPushFlag] at hknown
  -- The words left change no flag of the push.
  have hkept {remote branch : Option String} (h : Reading.Places (I ++ [⟨t, taken⟩]) remote branch) :
      PushArgs.Of (I ++ [⟨t, taken⟩]) { s with remote := remote, branch := branch } :=
    ⟨by simp [h₁, hU], by simp [h₂, hF], by simp [h₃, hne], by simp [h₄, hne], by simp [h₅, hne],
      h.first, h.second⟩
  split_ifs at happly with hop hremote hbranch <;> cases happly
  · exact hkept (hplaces.take_first hremote (by simpa using hop))
  · exact hkept (hplaces.take_second hremote hbranch (by simpa using hop))
  · exact hkept (hplaces.of_full hbranch (by simpa using hop))
  · exact hkept (hplaces.of_flag (by simpa using hop))

def isGlobal (t : String) : Bool := t = "--global" ∨ isShortFlag t 'g'

theorem config_cuts : Cuts (plain (fun _ => false) false) (fun _ => false) configStep :=
  alone_cuts fun s t => by
    unfold configStep
    split_ifs <;> exact ⟨_, rfl⟩

structure ConfigArgs.Of (I : Reading) (s : ConfigArgs) : Prop where
  inGlobal : s.inGlobal = I.has isGlobal
  inLocal : s.inLocal = I.has (· = "--local")
  unset : s.unset = I.has (· = "--unset")
  get : s.get = I.has (· = "--get")
  key : s.key = I.operands[0]?
  value : s.value = I.operands[1]?

theorem config_of {s : ConfigArgs} (h : scan configStep {} args = .ok s) :
    s.Of ((plain (fun _ => false) false).read false args) := by
  refine config_cuts.scan_invariant (fun I s => s.Of I) ⟨rfl, rfl, rfl, rfl, rfl, rfl⟩ ?_ h
  rintro I s ⟨t, taken⟩ s' - ⟨h₁, h₂, h₃, h₄, h₅, h₆⟩ happly
  have hplaces : Reading.Places I s.key s.value := ⟨h₅, h₆⟩
  unfold configStep at happly
  dsimp only at happly
  by_cases hglobal : t = "--global" ∨ isShortFlag t 'g'
  · have hne : t ≠ "--local" ∧ t ≠ "--unset" ∧ t ≠ "--get" := by
      refine ⟨?_, ?_, ?_⟩ <;> rintro rfl <;> simp [isShortFlag] at hglobal
    obtain ⟨hkey, hvalue⟩ := hplaces.of_flag (a := ⟨t, taken⟩)
      (isFlag_of_long_or_short (by decide) hglobal)
    rw [if_pos hglobal] at happly
    cases happly
    exact ⟨by simp [isGlobal, hglobal], by simp [h₂, hne], by simp [h₃, hne], by simp [h₄, hne],
      hkey, hvalue⟩
  rw [if_neg hglobal] at happly
  have hG : isGlobal t = false := by simpa [isGlobal] using hglobal
  by_cases hlong : t ∈ ["--local", "--unset", "--get"]
  · have hflag : ∀ u ∈ ["--local", "--unset", "--get"], isFlag u = true := by decide
    obtain ⟨hkey, hvalue⟩ := hplaces.of_flag (a := ⟨t, taken⟩) (hflag t hlong)
    simp only [List.mem_cons, List.not_mem_nil, or_false] at hlong
    rcases hlong with rfl | rfl | rfl <;> cases happly <;>
      exact ⟨by simp [h₁, hG], by simp [h₂], by simp [h₃], by simp [h₄], hkey, hvalue⟩
  have hne : t ≠ "--local" ∧ t ≠ "--unset" ∧ t ≠ "--get" := by simpa using hlong
  rw [if_neg hne.1, if_neg hne.2.1, if_neg hne.2.2] at happly
  -- The words left change no flag of the call.
  have hkept {key value : Option String} (h : Reading.Places (I ++ [⟨t, taken⟩]) key value) :
      ConfigArgs.Of (I ++ [⟨t, taken⟩]) { s with key := key, value := value } :=
    ⟨by simp [h₁, hG], by simp [h₂, hne], by simp [h₃, hne], by simp [h₄, hne], h.first, h.second⟩
  split_ifs at happly with hignored hop hkey hvalue <;> cases happly
  · exact hkept (hplaces.of_flag (isFlag_of_isIgnoredConfigFlag hignored))
  · exact hkept (hplaces.take_first hkey (by simpa using hop))
  · exact hkept (hplaces.take_second hkey hvalue (by simpa using hop))
  · exact hkept (hplaces.of_full hvalue (by simpa using hop))
  · exact hkept (hplaces.of_flag (by simpa using hop))

/-- What `git config` makes of its arguments. -/
inductive ConfigReads (argv : List String) (I : Reading) : GitOperation → Prop
  | unset (key : String) (hkey : I.operands[0]? = some key)
    (hunset : I.has (· = "--unset") = true) :
    ConfigReads argv I (.configUnset key (I.has isGlobal) (I.has (· = "--local")))
  | get (key : String) (hkey : I.operands[0]? = some key)
    (hunset : I.has (· = "--unset") = false)
    (hget : I.has (· = "--get") = true ∨ I.operands[1]? = none) :
    ConfigReads argv I (.configGet key (I.has isGlobal) (I.has (· = "--local")))
  | set (key value : String) (hkey : I.operands[0]? = some key)
    (hvalue : I.operands[1]? = some value) (hunset : I.has (· = "--unset") = false)
    (hget : I.has (· = "--get") = false) :
    ConfigReads argv I (.configSet key value (I.has isGlobal) (I.has (· = "--local")))
  | managed (hnone : I.operands = []) : ConfigReads argv I (managedFallback argv)

theorem parseConfig_reads {argv : List String} {op : GitOperation}
    (h : parseConfig argv args = .ok op) :
    ConfigReads argv ((plain (fun _ => false) false).read false args) op := by
  obtain ⟨s, hscan, hop⟩ := bind_eq_ok.mp h
  obtain ⟨hglobal, hlocal, hunset, hget, hkey, hvalue⟩ := config_of hscan
  cases hk : s.key with
  | none =>
    have hnil : Reading.operands ((plain (fun _ => false) false).read false args) = [] := by
      rw [hk] at hkey
      simpa using hkey.symm
    simp only [hk] at hop
    split_ifs at hop <;> cases hop <;> exact .managed hnil
  | some key =>
    simp only [hk] at hop
    split_ifs at hop with hu hg
    · cases hop
      rw [hglobal, hlocal]
      exact .unset key (by rw [← hkey, hk]) (by rw [← hunset, hu])
    · cases hop
      rw [hglobal, hlocal]
      refine .get key (by rw [← hkey, hk]) (by rw [← hunset]; simpa using hu) ?_
      rw [← hget, ← hvalue]
      simpa using hg
    · obtain ⟨hget', value, hv⟩ : s.get = false ∧ ∃ value, s.value = some value := by
        simpa [Option.ne_none_iff_exists', not_or] using hg
      rw [hv] at hop
      cases hop
      rw [hglobal, hlocal]
      exact .set key value (by rw [← hkey, hk]) (by rw [← hvalue, hv])
        (by rw [← hunset]; simpa using hu) (by rw [← hget, hget'])

end Places

end Codegg.Git
