import Codegg.Git.Reading.Network
import Codegg.Git.Reparse

/-!
# Rendering `fetch`, `pull`, `push` and `config` and parsing them again
-/
namespace Codegg.Git

open Codegg.Library.ArgScan Reading

variable {canonicalize : Canonicalize} {argv args : List String} {op : GitOperation}

section Steps

theorem fetchStep_operand (s : FetchArgs) {t : String} (ht : isFlag t = false) :
    fetchStep s t = .next (if s.remote.isNone then { s with remote := some t }
      else { s with refspecs := s.refspecs ++ [t] }) := by
  have hignored : isIgnoredFetchFlag t = false := eq_false_of_operand isFlag_of_isIgnoredFetchFlag ht
  simp (disch := first | assumption | decide) only [fetchStep, operand_eq_iff,
    isShortFlag_eq_false, hignored, ht, Bool.false_eq_true, or_self, if_false, Bool.not_false]
  split_ifs <;> rfl

theorem pullStep_operand (s : PullArgs) {t : String} (ht : isFlag t = false) :
    pullStep s t = .next (if s.remote.isNone then { s with remote := some t }
      else if s.branch.isNone then { s with branch := some t } else s) := by
  have hignored : isIgnoredPullFlag t = false := eq_false_of_operand isFlag_of_isIgnoredPullFlag ht
  simp (disch := first | assumption | decide) only [pullStep, operand_eq_iff,
    isShortFlag_eq_false, hignored, ht, Bool.false_eq_true, or_self, if_false, Bool.not_false]
  split_ifs <;> rfl

theorem pushStep_operand (s : PushArgs) {t : String} (ht : isFlag t = false) :
    pushStep s t = .next (if s.remote.isNone then { s with remote := some t }
      else if s.branch.isNone then { s with branch := some t } else s) := by
  have hknown : isPushFlag t = false := eq_false_of_operand isFlag_of_isPushFlag ht
  simp (disch := first | assumption | decide) only [pushStep, operand_eq_iff,
    isShortFlag_eq_false, hknown, ht, Bool.false_eq_true, or_self, if_false, Bool.not_false]
  split_ifs <;> rfl

theorem configStep_operand (s : ConfigArgs) {t : String} (ht : isFlag t = false) :
    configStep s t = .next (if s.key.isNone then { s with key := some t }
      else if s.value.isNone then { s with value := some t } else s) := by
  have hignored : isIgnoredConfigFlag t = false := eq_false_of_operand isFlag_of_isIgnoredConfigFlag ht
  simp (disch := first | assumption | decide) only [configStep, operand_eq_iff,
    isShortFlag_eq_false, hignored, ht, Bool.false_eq_true, or_self, if_false, Bool.not_false]
  split_ifs <;> rfl

end Steps

/-- The first two operands are read back as the first two. -/
theorem scan_two {σ : Type} {step : σ → String → Step ParseError σ String}
    (state : Option String → Option String → σ) {I : Reading} {first second : Option String}
    (hfirst : first = (operands I)[0]?) (hsecond : second = (operands I)[1]?)
    (hone : ∀ t, isFlag t = false → step (state none none) t = .next (state (some t) none))
    (htwo : ∀ r t, isFlag t = false →
      step (state (some r) none) t = .next (state (some r) (some t))) :
    scan step (state none none) (first.toList ++ second.toList) = .ok (state first second) := by
  have hall : ∀ t ∈ operands I, isFlag t = false := fun t ht => isFlag_of_mem_operands ht
  subst hfirst hsecond
  match hops : operands I with
  | [] => rfl
  | [t] => exact scan_cons_next (hone t (hall t (by simp [hops])))
  | t :: u :: rest =>
    refine (scan_cons_next (hone t (hall t (by simp [hops])))).trans ?_
    exact scan_cons_next (htwo t u (hall u (by simp [hops])))

section Network

theorem parseFetch_again (h : parseFetch args = .ok op) :
    parseGitArgv canonicalize (renderArgv op) = .ok op := by
  obtain ⟨s, hscan, h⟩ := bind_eq_ok.mp h
  obtain ⟨remote, hremote, hop⟩ := bind_eq_ok.mp h
  cases hop
  obtain ⟨-, hfirst, hrest⟩ := fetch_of hscan
  have htext := map_text_of_mapM text_of_toRemoteName hremote
  have hwords : scan fetchStep {} (pushIf s.all "--all" ++ (s.remote.toList ++ s.refspecs)) =
      .ok s := by
    refine (scan_pushIf (fun b => ({ all := b } : FetchArgs)) s.all rfl).trans ?_
    obtain ⟨all, remote, refspecs⟩ := s
    obtain rfl : remote = _ := hfirst
    obtain rfl : refspecs = _ := hrest
    cases hops : operands ((plain (fun _ => false) false).read false args) with
    | nil => rfl
    | cons first rest =>
      have hall : ∀ t ∈ first :: rest, isFlag t = false := by
        rw [← hops]
        exact fun t ht => isFlag_of_mem_operands ht
      refine (scan_cons_next (fetchStep_operand _ (hall first (by simp)))).trans ?_
      refine scan_collect (fun refspecs => ({ all, remote := some first, refspecs } : FetchArgs))
        rest (fun done t ht => ?_) []
      exact fetchStep_operand _ (hall t (by simp [ht]))
  simp only [renderArgv, List.cons_append, List.nil_append, List.append_assoc]
  rw [parseGitArgv_cons _ (by decide)]
  change parseFetch _ = _
  rw [htext, parseFetch, hwords, ok_bind, hremote]
  rfl

theorem parsePull_again (h : parsePull args = .ok op) :
    parseGitArgv canonicalize (renderArgv op) = .ok op := by
  obtain ⟨s, hscan, h⟩ := bind_eq_ok.mp h
  obtain ⟨remote, hremote, hop⟩ := bind_eq_ok.mp h
  cases hop
  obtain ⟨-, -, hfirst, hsecond⟩ := pull_of hscan
  have htext := map_text_of_mapM text_of_toRemoteName hremote
  have hwords : scan pullStep {} (pushIf s.rebase "--rebase" ++ (pushIf s.ffOnly "--ff-only" ++
      (s.remote.toList ++ s.branch.toList))) = .ok s := by
    refine (scan_pushIf (fun b => ({ rebase := b } : PullArgs)) s.rebase rfl).trans ?_
    refine (scan_pushIf (fun b => ({ rebase := s.rebase, ffOnly := b } : PullArgs)) s.ffOnly
      rfl).trans ?_
    exact scan_two (fun remote branch =>
      ({ rebase := s.rebase, ffOnly := s.ffOnly, remote, branch } : PullArgs)) hfirst hsecond
      (fun t ht => pullStep_operand _ ht) fun r t ht => pullStep_operand _ ht
  simp only [renderArgv, List.cons_append, List.nil_append, List.append_assoc]
  rw [parseGitArgv_cons _ (by decide)]
  change parsePull _ = _
  rw [htext, parsePull, hwords, ok_bind, hremote]
  rfl

theorem parsePush_again (h : parsePush args = .ok op) :
    parseGitArgv canonicalize (renderArgv op) = .ok op := by
  obtain ⟨s, hscan, h⟩ := bind_eq_ok.mp h
  obtain ⟨remote, hremote, hop⟩ := bind_eq_ok.mp h
  cases hop
  obtain ⟨-, -, -, -, -, hfirst, hsecond⟩ := push_of hscan
  have htext := map_text_of_mapM text_of_toRemoteName hremote
  have hflags : ∀ upstream force lease tags delete ts, scan pushStep {} (pushIf upstream "-u" ++
      (pushIf force "--force" ++ (pushIf lease "--force-with-lease" ++ (pushIf tags "--tags" ++
        (pushIf delete "--delete" ++ ts))))) =
      scan pushStep { setUpstream := upstream, force, forceWithLease := lease, tags, delete } ts := by
    intro upstream force lease tags delete ts
    cases upstream <;> cases force <;> cases lease <;> cases tags <;> cases delete <;> rfl
  have hwords := scan_two (fun remote branch => ({ s with remote, branch } : PushArgs))
    hfirst hsecond (fun t ht => pushStep_operand _ ht) fun r t ht => pushStep_operand _ ht
  simp only [renderArgv, List.cons_append, List.nil_append, List.append_assoc]
  rw [parseGitArgv_cons _ (by decide)]
  change parsePush _ = _
  rw [htext, parsePush, hflags, hwords, ok_bind, hremote]
  rfl

end Network

section Config

/-- Only reading a key loses a scope, where both are given. -/
def ConfigRoundTrips (args : List String) : Prop :=
  let I := (plain (fun _ => false) false).read false args
  has (· = "--unset") I = false →
    (has (· = "--get") I = true ∨ (operands I)[1]? = none) →
    operands I ≠ [] →
    ¬(has isGlobal I = true ∧ has (· = "--local") I = true)

theorem scan_config_scopes (unset inGlobal inLocal : Bool) (ts : List String) :
    scan configStep { unset } (pushIf inGlobal "--global" ++ (pushIf inLocal "--local" ++ ts)) =
      scan configStep { unset, inGlobal, inLocal } ts := by
  cases inGlobal <;> cases inLocal <;> rfl

theorem scan_config_key {s : ConfigArgs} {key : String} (hkey : isFlag key = false)
    (hnone : s.key = none) (ts : List String) :
    scan configStep s (key :: ts) = scan configStep { s with key := some key } ts := by
  refine scan_cons_next ?_
  rw [configStep_operand s hkey, hnone]
  rfl

theorem parseConfig_again (hargv : parseGitArgv canonicalize argv = .ok op)
    (h : parseConfig argv args = .ok op) :
    parseGitArgv canonicalize (renderArgv op) = .ok op ↔ ConfigRoundTrips args := by
  rw [ConfigRoundTrips]
  cases parseConfig_reads h with
  | managed hnone => exact iff_of_true hargv fun _ _ hoperands => absurd hnone hoperands
  | unset key hkey hunset =>
    refine iff_of_true ?_ (by simp [hunset])
    have hflag := isFlag_of_mem_operands (List.mem_of_getElem? hkey)
    generalize has isGlobal ((plain (fun _ => false) false).read false args) = inGlobal
    generalize has (· = "--local") ((plain (fun _ => false) false).read false args) =
      inLocal
    simp only [renderArgv, List.cons_append, List.nil_append, List.append_assoc]
    rw [parseGitArgv_cons _ (by decide)]
    change parseConfig _ ("--unset" :: _) = _
    have hwords : scan configStep {} ("--unset" :: (pushIf inGlobal "--global" ++
        (pushIf inLocal "--local" ++ [key]))) =
        .ok { inGlobal, inLocal, key := some key, unset := true } :=
      (scan_config_scopes true inGlobal inLocal [key]).trans (scan_config_key hflag rfl [])
    rw [parseConfig, hwords]
    rfl
  | get key hkey hunset hget =>
    have hflag := isFlag_of_mem_operands (List.mem_of_getElem? hkey)
    have hoperands : operands ((plain (fun _ => false) false).read false args) ≠ [] := by
      intro hnil
      simp [hnil] at hkey
    simp only [hunset, hget, hoperands, ne_eq]
    generalize has isGlobal ((plain (fun _ => false) false).read false args) = inGlobal
    generalize has (· = "--local") ((plain (fun _ => false) false).read false args) =
      inLocal
    have hone : (if inGlobal then ["--global"] else if inLocal then ["--local"] else []) ++ [key] =
        pushIf inGlobal "--global" ++ (pushIf (inLocal && !inGlobal) "--local" ++ [key]) := by
      cases inGlobal <;> cases inLocal <;> rfl
    have hwords : scan configStep {} (pushIf inGlobal "--global" ++
        (pushIf (inLocal && !inGlobal) "--local" ++ [key])) =
        .ok { inGlobal, inLocal := inLocal && !inGlobal, key := some key } :=
      (scan_config_scopes false inGlobal _ [key]).trans (scan_config_key hflag rfl [])
    simp only [renderArgv, List.cons_append, List.nil_append]
    rw [parseGitArgv_cons _ (by decide), hone]
    change parseConfig _ _ = _ ↔ _
    rw [parseConfig, hwords]
    simp only [pure, Except.pure]
    cases inGlobal <;> cases inLocal <;> simp
  | set key value hkey hvalue hunset hget =>
    refine iff_of_true ?_ (by simp [hget, hvalue])
    have hflag := isFlag_of_mem_operands (List.mem_of_getElem? hkey)
    have hflag' := isFlag_of_mem_operands (List.mem_of_getElem? hvalue)
    generalize has isGlobal ((plain (fun _ => false) false).read false args) = inGlobal
    generalize has (· = "--local") ((plain (fun _ => false) false).read false args) =
      inLocal
    have hwords : scan configStep {} (pushIf inGlobal "--global" ++
        (pushIf inLocal "--local" ++ [key, value])) =
        .ok { inGlobal, inLocal, key := some key, value := some value } := by
      refine (scan_config_scopes false inGlobal inLocal [key, value]).trans ?_
      refine (scan_config_key hflag rfl [value]).trans ?_
      exact scan_cons_next (configStep_operand _ hflag')
    simp only [renderArgv, List.cons_append, List.nil_append, List.append_assoc]
    rw [parseGitArgv_cons _ (by decide)]
    change parseConfig _ _ = _
    rw [parseConfig, hwords]
    rfl

end Config

end Codegg.Git
