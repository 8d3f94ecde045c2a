import Codegg.Git.Reading.Checkout
import Codegg.Git.Reparse

/-!
# Rendering `checkout` and `switch` and parsing them again
-/
namespace Codegg.Git

open Codegg.Library.ArgScan

variable {canonicalize : Canonicalize} {args : List String} {op : GitOperation}

section Switch

/-- A flag that is rendered between `-c` and the branch is read as the branch. -/
def SwitchRoundTrips (args : List String) : Prop :=
  let I : Reading := (plain takesBranch false).read false args
  I.has takesBranch = true →
    I.has (fun t => isForce t ∨ isForceCreateSwitch t) = false ∧ I.has (· = "--detach") = false

theorem parseSwitch_again (h : parseSwitch args = .ok op) :
    parseGitArgv canonicalize (renderArgv op) = .ok op ↔ SwitchRoundTrips args := by
  obtain ⟨s, hscan, h⟩ := bind_eq_ok.mp h
  obtain ⟨word, hword, h⟩ := bind_eq_ok.mp h
  obtain ⟨branch, hbranch, hop⟩ := bind_eq_ok.mp h
  cases hop
  obtain ⟨hcreate, hforce, hdetach, -⟩ := switch_of hscan
  rw [SwitchRoundTrips, ← hcreate, ← hforce, ← hdetach]
  have hname : ∀ s : SwitchArgs, scan switchStep s [branch.text] =
      .ok { s with branch := some branch.text } := by
    intro s
    have hflag := branch.isFlag_text
    refine scan_cons_next ?_
    simp (disch := first | assumption | decide) [switchStep, operand_eq_iff, isShortFlag_eq_false,
      hflag]
  -- A flag right after `-c` is read as the branch to create.
  have hwords : ∀ create force detach, scan switchStep {}
      (pushIf create "-c" ++ (pushIf force "-f" ++ (pushIf detach "--detach" ++ [branch.text]))) =
      .ok { create, force := force && !create, detach := detach && (force || !create),
            branch := some branch.text } := by
    intro create force detach
    cases create <;> cases force <;> cases detach <;> first | rfl | exact hname _
  simp only [renderArgv, List.cons_append, List.nil_append, List.append_assoc]
  rw [parseGitArgv_cons _ (by decide)]
  change parseSwitch _ = _ ↔ _
  rw [parseSwitch, hwords]
  simp only [required, pure, Except.pure]
  cases s.create <;> cases s.force <;> cases s.detach <;> simp

end Switch

section Checkout

theorem eq_or_mem_dropLast {α : Type} {a b : α} {l : List α} (h : a ∈ (b :: l).dropLast) :
    a = b ∧ l ≠ [] ∨ a ∈ l.dropLast := by
  cases l with
  | nil => simp at h
  | cons c l => simpa using h

/-- A word that takes the next one lacks it only at the end. -/
theorem taken_ne_nil {τ ρ : Type} {g : Grammar τ ρ} {t : τ} (ht : ∀ r, g.width r t = .one)
    {r : ρ} {ts : List τ} {a : Arg τ} (ha : a ∈ (g.read r ts).dropLast) (hhead : a.head = t) :
    a.taken ≠ [] := by
  fun_induction Grammar.read g r ts with
  | case1 r => simp at ha
  | case2 r u us hu ih =>
    obtain ⟨rfl, -⟩ | ha := eq_or_mem_dropLast ha
    · cases hhead
      simp [ht] at hu
    · exact ih ha
  | case3 r u hu => simp at ha
  | case4 r u hu v us ih =>
    obtain ⟨rfl, -⟩ | ha := eq_or_mem_dropLast ha
    · simp
    · exact ih ha
  | case5 r u hu => simp at ha
  | case6 r u hu v => simp at ha
  | case7 r u hu v w us ih =>
    obtain ⟨rfl, -⟩ | ha := eq_or_mem_dropLast ha
    · simp
    · exact ih ha
  | case8 r u us hu => simp at ha

/-- Only the last `-b` can lack a name, and then no path follows it. -/
theorem checkoutPathWords_eq_none
    (hcreate : Reading.has isCreateBranch (checkoutGrammar.read false args) = true)
    (hnone : Reading.lastTaken 0 isCreateBranch (checkoutGrammar.read false args) = none) :
    checkoutPathWords (checkoutGrammar.read false args) = none := by
  obtain ⟨a, ha, hword⟩ := List.any_eq_true.mp hcreate
  have htaken : a.taken = [] := by
    simpa [hword] using lastTaken_zero_eq_none.mp hnone a ha
  have hlast : a ∉ (checkoutGrammar.read false args).dropLast := fun hmem =>
    taken_ne_nil (fun r => by simp [checkoutGrammar, hword]) hmem rfl htaken
  have hne := List.ne_nil_of_mem ha
  have hsplit := List.dropLast_append_getLast hne
  rw [← hsplit] at ha
  obtain rfl : a = (checkoutGrammar.read false args).getLast hne := by
    simpa [hlast] using ha
  rw [← hsplit, checkoutPathWords_append_singleton]
  have hflag := isFlag_of_isCreateBranch hword
  have hdash : isDoubleDash ((checkoutGrammar.read false args).getLast hne).head = false := by
    rw [Bool.eq_false_iff, ne_eq, isDoubleDash_iff]
    intro heq
    rw [heq] at hword
    simp [isCreateBranch] at hword
  simp [hdash, hflag]

/-- What a step of `git checkout` does once a branch is to be created. -/
theorem checkoutStep_created (canonicalize : Canonicalize) (s : CheckoutArgs) (hcreate : s.create = true) (t : String) :
    (∃ force, checkoutStep canonicalize s t = .next { s with force }) ∨
    checkoutStep canonicalize s t = .one (fun name =>
      .ok { s with create := true, target := name.or s.target }) ∨
    ∃ k, checkoutStep canonicalize s t = .rest k ∧ ∀ ts s', k ts = .ok s' →
      s'.target = s.target ∧ ∀ paths ∈ s'.paths, paths.length ≤ ts.length + 1 := by
  unfold checkoutStep
  split_ifs with hforce hdetach hname hdd hop htarget
  · exact .inl ⟨true, rfl⟩
  · exact .inl ⟨s.force, rfl⟩
  · exact .inr (.inl rfl)
  · refine .inr (.inr ⟨_, rfl, fun ts s' hk => ?_⟩)
    obtain ⟨paths, hpaths, hk⟩ := bind_eq_ok.mp hk
    cases hk
    have hlength := length_of_mapM hpaths
    refine ⟨rfl, ?_⟩
    simp only [Option.mem_some_iff, forall_eq']
    omega
  · simp [hcreate] at htarget
  · refine .inr (.inr ⟨_, rfl, fun ts s' hk => ?_⟩)
    obtain ⟨path, hpath, hk⟩ := bind_eq_ok.mp hk
    obtain ⟨-, htarget, -, more, hmore, hwords⟩ := checkoutPath_of [path] rfl hk
    have hlength := length_of_mapM hwords
    have hfilter := List.length_filter_le (fun t => !isFlag t) ts
    refine ⟨htarget, ?_⟩
    rw [hmore]
    simp only [Option.mem_some_iff, forall_eq', List.length_append, List.length_singleton]
    omega
  · exact .inl ⟨s.force, rfl⟩

/-- After `-b` an operand is a path, so the target is the one named last, and each further name
leaves a word less for the paths. -/
theorem target_of_scan_checkout {s s' : CheckoutArgs} {ws : List String} (hcreate : s.create = true)
    (hpaths : s.paths = none) (h : scan (checkoutStep canonicalize) s ws = .ok s') :
    (∀ paths ∈ s'.paths, paths.length ≤ ws.length) ∧
      (s'.target = s.target ∨ ∀ paths ∈ s'.paths, paths.length < ws.length) := by
  induction ws using List.twoStepInduction generalizing s with
  | nil =>
    cases h
    simp [hpaths]
  | singleton t =>
    obtain ⟨force, hstep⟩ | hstep | ⟨k, hstep, hk⟩ := checkoutStep_created canonicalize s hcreate t
    · rw [scan_cons_next hstep] at h
      cases h
      simp [hpaths]
    · rw [scan.eq_def] at h
      simp only [hstep] at h
      cases h
      simp [hpaths]
    · rw [scan_cons_rest hstep] at h
      obtain ⟨htarget, hlength⟩ := hk _ _ h
      exact ⟨hlength, .inl htarget⟩
  | cons_cons t u ws ih ihu =>
    obtain ⟨force, hstep⟩ | hstep | ⟨k, hstep, hk⟩ := checkoutStep_created canonicalize s hcreate t
    · rw [scan_cons_next hstep] at h
      obtain ⟨hlength, htarget⟩ := ihu u (s := { s with force }) hcreate hpaths h
      refine ⟨fun paths hmem => (hlength paths hmem).trans (by simp), ?_⟩
      exact htarget.imp id fun hfew paths hmem => (hfew paths hmem).trans (by simp)
    · rw [scan_cons_one hstep] at h
      obtain ⟨hlength, -⟩ := ih (s := { s with create := true, target := some u }) rfl hpaths h
      have hfew : ∀ paths ∈ s'.paths, paths.length < (t :: u :: ws).length := by
        intro paths hmem
        have hle := hlength paths hmem
        simp only [List.length_cons]
        omega
      exact ⟨fun paths hmem => (hfew paths hmem).le, .inr hfew⟩
    · rw [scan_cons_rest hstep] at h
      obtain ⟨htarget, hlength⟩ := hk _ _ h
      exact ⟨hlength, .inl htarget⟩

/-- A flag right after `-b` is read as the branch to create, so `-b` with `-f` is read back only
if that is the branch. No path may hide an absolute path. -/
def CheckoutRoundTrips (args : List String) : Prop :=
  let I := checkoutGrammar.read false args
  (Reading.has isCreateBranch I = true → (Reading.has isForce I || forcedAfterPath I) = true →
    (Reading.lastTaken 0 isCreateBranch I).or (firstTarget I) = some "-f") ∧
  ∀ w ∈ (checkoutPathWords I).getD [], staysRelative w

theorem paths_of_checkout_again {I : Reading} {s : CheckoutArgs} (h : s.Of canonicalize I) :
    s.paths.mapM (pathsAgain canonicalize) = .ok s.paths ↔
      ∀ w ∈ (checkoutPathWords I).getD [], staysRelative w := by
  have hpaths := h.paths
  cases hs : s.paths with
  | none =>
    have hwords : checkoutPathWords I = none := by simpa [hs] using hpaths.symm
    simp [hwords, pure, Except.pure]
  | some paths =>
    obtain ⟨words, hwords, hread⟩ : ∃ words, checkoutPathWords I = some words ∧
        words.mapM (toRepoPath canonicalize) = .ok paths := by
      simpa [hs] using hpaths.symm
    rw [hwords, Option.getD_some, ← mapM_toRepoPath_again hread]
    change (pathsAgain canonicalize paths >>= fun paths => .ok (some paths)) = _ ↔ _
    simp [bind_eq_ok, pathsAgain]

/-- A rendered `-b -f` followed by another `-b` is read as something else. -/
theorem not_named_again {s s' : CheckoutArgs} {word : String} {paths : Option (List RepoPath)}
    {k : Option String → Except ParseError CheckoutArgs}
    (hstep : checkoutStep canonicalize s word = .one k)
    (hk : k = fun name => .ok { s with create := true, target := name.or s.target })
    (hpaths : s.paths = none)
    (h : scan (checkoutStep canonicalize) s (word :: pushGivenPaths paths) = .ok s')
    (hword : s.target ≠ some word) (htarget : s'.target = some word) (hread : s'.paths = paths) :
    False := by
  subst hk
  cases paths with
  | none =>
    rw [scan.eq_def] at h
    simp only [hstep] at h
    cases h
    exact hword htarget
  | some paths =>
    rw [pushGivenPaths, scan_cons_one hstep] at h
    obtain ⟨-, hlast | hfew⟩ := target_of_scan_checkout
      (s := { s with create := true, target := some "--" }) rfl hpaths h
    · rw [htarget] at hlast
      obtain rfl : word = "--" := by simpa using hlast
      simp [checkoutStep] at hstep
    · have hlength := hfew paths hread
      simp at hlength

theorem parseCheckout_again (h : parseCheckout canonicalize args = .ok op) :
    parseGitArgv canonicalize (renderArgv op) = .ok op ↔ CheckoutRoundTrips args := by
  obtain ⟨s, hscan, hop⟩ := bind_eq_ok.mp h
  cases hop
  have hof := checkout_of hscan
  rw [CheckoutRoundTrips, ← paths_of_checkout_again hof, ← hof.create, ← hof.force, ← hof.target]
  simp only [renderArgv, List.cons_append, List.nil_append, List.append_assoc]
  rw [parseGitArgv_cons _ (by decide)]
  change parseCheckout canonicalize _ = _ ↔ _
  have hdash : ∀ target create force, scan (checkoutStep canonicalize)
      { target, create, force } (pushGivenPaths s.paths) =
        s.paths.mapM (pathsAgain canonicalize) >>= fun paths =>
          .ok { target, create, force, paths } := fun target create force =>
    scan_givenPaths (fun paths => ({ target, create, force, paths } : CheckoutArgs)) rfl rfl s.paths
  have hnamed : s.create = true → s.target = none → s.paths = none := by
    intro hcreate htarget
    rw [hof.target, Option.or_eq_none_iff] at htarget
    have hnone := checkoutPathWords_eq_none (hof.create ▸ hcreate) htarget.1
    simpa [hnone] using hof.paths
  cases hcreate : s.create with
  | false =>
    have hoperand : ∀ word ∈ s.target, isFlag word = false := by
      intro word hword
      have hlast : Reading.lastTaken 0 isCreateBranch (checkoutGrammar.read false args) = none := by
        rw [lastTaken_zero_eq_none]
        intro a ha
        have hno := List.any_eq_false.mp (hof.create ▸ hcreate) a ha
        simp [hno]
      rw [hof.target, hlast, Option.none_or] at hword
      exact isFlag_of_head?_operands hword
    have hwords : scan (checkoutStep canonicalize) {} (pushIf false "-b" ++
        (pushIf s.force "-f" ++ (s.target.toList ++ pushGivenPaths s.paths))) =
        scan (checkoutStep canonicalize) { target := s.target, force := s.force }
          (pushGivenPaths s.paths) := by
      refine (scan_pushIf (fun b => ({ force := b } : CheckoutArgs)) s.force rfl).trans ?_
      cases htarget : s.target with
      | none => rfl
      | some word =>
        have hflag := hoperand word htarget
        refine scan_cons_next ?_
        simp (disch := first | assumption | decide) [checkoutStep, operand_eq_iff,
          isShortFlag_eq_false, hflag]
    rw [parseCheckout, hwords, hdash]
    simp [bind_eq_ok]
  | true =>
    cases hforce : s.force with
    | false =>
      have hwords : scan (checkoutStep canonicalize) {} (pushIf true "-b" ++
          (pushIf false "-f" ++ (s.target.toList ++ pushGivenPaths s.paths))) =
          scan (checkoutStep canonicalize) { target := s.target, create := true }
            (pushGivenPaths s.paths) := by
        cases htarget : s.target with
        | none =>
          rw [hnamed hcreate htarget]
          rfl
        | some word => rfl
      rw [parseCheckout, hwords, hdash]
      simp [bind_eq_ok]
    | true =>
      have hwords : scan (checkoutStep canonicalize) {} (pushIf true "-b" ++
          (pushIf true "-f" ++ (s.target.toList ++ pushGivenPaths s.paths))) =
          scan (checkoutStep canonicalize) { target := some "-f", create := true }
            (s.target.toList ++ pushGivenPaths s.paths) := rfl
      rw [parseCheckout, hwords]
      by_cases htarget : s.target = some "-f"
      · have hforced : scan (checkoutStep canonicalize) { target := some "-f", create := true }
            (["-f"] ++ pushGivenPaths s.paths) =
            scan (checkoutStep canonicalize) { target := some "-f", create := true, force := true }
              (pushGivenPaths s.paths) := rfl
        rw [htarget, Option.toList_some, hforced, hdash]
        simp [bind_eq_ok]
      · refine iff_of_false (fun hagain => ?_) fun hcond => htarget (hcond.1 rfl rfl)
        obtain ⟨s', hs', hop⟩ := bind_eq_ok.mp hagain
        simp only [pure, Except.pure, Except.ok.injEq, GitOperation.checkout.injEq] at hop
        obtain ⟨htarget', hpaths', -, -⟩ := hop
        cases ht : s.target with
        | none =>
          rw [ht, hnamed hcreate ht] at hs'
          cases hs'
          simp [ht] at htarget'
        | some word =>
          rw [ht, Option.toList_some, List.singleton_append] at hs'
          rw [ht] at htarget htarget'
          obtain ⟨force, hstep⟩ | hstep | ⟨k, hstep, hk⟩ := checkoutStep_created
            canonicalize { target := some "-f", create := true } rfl word
          · rw [scan_cons_next hstep, hdash] at hs'
            obtain ⟨paths, -, hs'⟩ := bind_eq_ok.mp hs'
            cases hs'
            exact htarget htarget'.symm
          · exact not_named_again hstep rfl rfl hs' (Ne.symm htarget) htarget' hpaths'
          · rw [scan_cons_rest hstep] at hs'
            exact htarget (((hk _ _ hs').1.symm.trans htarget').symm)

end Checkout

end Codegg.Git
