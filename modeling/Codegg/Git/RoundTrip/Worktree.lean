import Codegg.Git.Reading.Worktree
import Codegg.Git.Reparse

/-!
# Rendering operations on the worktree and the index and parsing them again
-/
namespace Codegg.Git

open Codegg.Library.ArgScan

variable {canonicalize : Canonicalize} {argv args : List String} {op : GitOperation}

section Pathspecs

theorem toPathspec_dashes : ∃ spec, toPathspec "--" = .ok spec :=
  ⟨⟨"--", by decide⟩, by simp [toPathspec, Pathspec.new_text (⟨"--", by decide⟩ : Pathspec)]⟩

theorem mapM_pushPathspecs (paths : List Pathspec) :
    ∃ specs, (pushPathspecs paths).mapM toPathspec = .ok specs ∧
      specs.length = 2 * paths.length := by
  obtain ⟨dashes, hdashes⟩ := toPathspec_dashes
  induction paths with
  | nil => exact ⟨[], rfl, rfl⟩
  | cons p paths ih =>
    obtain ⟨specs, hspecs, hlength⟩ := ih
    refine ⟨dashes :: p :: specs, ?_, by simp only [List.length_cons]; omega⟩
    change ("--" :: p.text :: pushPathspecs paths).mapM toPathspec = _
    simp [hdashes, hspecs]

/-- A separator before each pathspec is read as a pathspec itself, but for the first. -/
theorem scan_pathspecs {σ : Type} {step : σ → String → Step ParseError σ String} {s : σ}
    (setPaths : List Pathspec → σ) (hnil : setPaths [] = s)
    (h : step s "--" = .rest fun rest => do
      let paths ← collectPathspecsAfterDoubleDash rest
      return setPaths paths) (paths : List Pathspec) :
    ∃ paths', scan step s (pushPathspecs paths) = .ok (setPaths paths') ∧
      (paths' = paths ↔ paths.length ≤ 1) := by
  cases paths with
  | nil => exact ⟨[], by rw [hnil]; rfl, by simp⟩
  | cons p paths =>
    obtain ⟨specs, hspecs, hlength⟩ := mapM_pushPathspecs paths
    refine ⟨p :: specs, ?_, ?_⟩
    · refine (scan_cons_rest h).trans ?_
      change ((p.text :: pushPathspecs paths).mapM toPathspec >>= fun paths =>
        .ok (setPaths paths)) = _
      simp [hspecs]
    · constructor
      · intro heq
        have hsame : specs.length = paths.length := by rw [(List.cons.inj heq).2]
        simp only [List.length_cons]
        omega
      · intro hone
        obtain rfl : paths = [] := by simpa using hone
        obtain rfl : specs = [] := by simpa using hlength
        rfl

end Pathspecs

section Index

theorem parseCommit_again (h : parseCommit args = .ok op) :
    parseGitArgv canonicalize (renderArgv op) = .ok op := by
  obtain ⟨s, -, hop⟩ := bind_eq_ok.mp h
  cases hop
  simp only [renderArgv, List.cons_append, List.nil_append, List.append_assoc]
  rw [parseGitArgv_cons _ (by decide)]
  change parseCommit _ = _
  rw [parseCommit, scan_pushIf (fun b => ({ amend := b } : CommitArgs)),
    scan_pushIf (fun b => ({ amend := s.amend, allowEmpty := b } : CommitArgs))]
  all_goals rfl

theorem scan_add_cons (done : List RepoPath) (w : String) (ws : List String) :
    scan (addStep canonicalize) done (w :: ws) =
      if w = "--" then ws.mapM (toRepoPath canonicalize)
      else if isFlag w then scan (addStep canonicalize) done ws
      else toRepoPath canonicalize w >>= fun path =>
        scan (addStep canonicalize) (done ++ [path]) ws := by
  by_cases hdd : w = "--"
  · rw [if_pos hdd]
    exact scan_cons_rest (k := collectPathsAfterDoubleDash canonicalize) (by simp [addStep, hdd])
  · rw [if_neg hdd]
    cases hflag : isFlag w with
    | true => exact scan_cons_next (by simp [addStep, hdd, hflag])
    | false =>
      have hstep : addStep canonicalize done w = .attempt do
          let path ← toRepoPath canonicalize w
          return done ++ [path] := by simp [addStep, hdd, hflag]
      rw [scan_cons_attempt hstep]
      cases toRepoPath canonicalize w <;> rfl

theorem length_of_scan_add {done paths : List RepoPath} {ws : List String}
    (h : scan (addStep canonicalize) done ws = .ok paths) :
    paths.length ≤ done.length + ws.length := by
  induction ws generalizing done with
  | nil =>
    cases h
    simp
  | cons w ws ih =>
    rw [scan_add_cons] at h
    rw [List.length_cons]
    split_ifs at h with hdd hflag
    · have hlength := length_of_mapM h
      omega
    · have hlength := ih h
      omega
    · obtain ⟨path, -, h⟩ := bind_eq_ok.mp h
      have hlength := ih h
      simp only [List.length_append, List.length_singleton] at hlength
      omega

/-- The paths of an operation that adds them are read again, unless one reads as a flag or hides
an absolute path. -/
theorem scan_add_again {paths : List RepoPath} (done : List RepoPath)
    (hcan : ∀ p ∈ paths, canonicalize p.text = none) :
    scan (addStep canonicalize) done (paths.map RepoPath.text) = .ok (done ++ paths) ↔
      ∀ p ∈ paths, isAbsolute p.text = false ∧ isFlag p.text = false := by
  induction paths generalizing done with
  | nil => simp [scan]
  | cons p paths ih =>
    have hp := toRepoPath_text (hcan p (by simp))
    have hps := ih (done ++ [p]) fun q hq => hcan q (by simp [hq])
    have hlength : (paths.map RepoPath.text).length = paths.length := List.length_map _
    rw [List.map_cons, scan_add_cons, List.forall_mem_cons, ← hps, ← hp]
    split_ifs with hdd hflag
    -- A path that reads as a flag is lost, so fewer paths are left.
    · refine iff_of_false (fun h => ?_) fun h => ?_
      · have hfew := length_of_mapM h
        simp only [List.length_append, List.length_cons] at hfew
        omega
      · simp [hdd] at h
    · refine iff_of_false (fun h => ?_) fun h => ?_
      · have hfew := length_of_scan_add h
        simp only [List.length_append, List.length_cons] at hfew
        omega
      · simp [hflag] at h
    · have hoperand : isFlag p.text = false := by simpa using hflag
      simp only [bind_eq_ok, hoperand, and_true]
      constructor
      · rintro ⟨q, hq, hrest⟩
        obtain rfl : q = p := eq_of_toRepoPath_text hq
        exact ⟨hq, by rwa [List.append_assoc]⟩
      · rintro ⟨hpath, hrest⟩
        refine ⟨p, hpath, ?_⟩
        rwa [List.append_assoc] at hrest

/-- No separator is rendered, so no path may look like a flag. -/
def AddRoundTrips (args : List String) : Prop :=
  ∀ w ∈ Reading.pathWords 0 ((plain (fun _ => false) true).read false args),
    staysRelative w ∧ isFlag (normalizePath w) = false

theorem parseAdd_again (h : parseAdd canonicalize args = .ok op) :
    parseGitArgv canonicalize (renderArgv op) = .ok op ↔ AddRoundTrips args := by
  obtain ⟨paths, hscan, hop⟩ := bind_eq_ok.mp h
  cases hop
  obtain ⟨htexts, hcan⟩ := texts_of_mapM_toRepoPath (add_of hscan)
  rw [renderArgv, List.cons_append, List.cons_append, parseGitArgv_cons _ (by decide)]
  change parseAdd canonicalize _ = _ ↔ _
  have hagain := scan_add_again [] hcan
  have hmem : (∀ t ∈ paths.map RepoPath.text, isAbsolute t = false ∧ isFlag t = false) ↔
      ∀ t ∈ (Reading.pathWords 0 ((plain (fun _ => false) true).read false args)).map normalizePath,
        isAbsolute t = false ∧ isFlag t = false := by rw [htexts]
  simp only [List.forall_mem_map] at hmem
  refine Iff.trans ?_ (hagain.trans hmem)
  simp [parseAdd, bind_eq_ok, pure, Except.pure]

def RestoreRoundTrips (args : List String) : Prop :=
  ∀ w ∈ Reading.pathWords 0 ((plain (· = "--source") true).read false args), staysRelative w

theorem parseRestore_again (h : parseRestore canonicalize args = .ok op) :
    parseGitArgv canonicalize (renderArgv op) = .ok op ↔ RestoreRoundTrips args := by
  obtain ⟨s, hscan, hop⟩ := bind_eq_ok.mp h
  cases hop
  rw [RestoreRoundTrips, ← mapM_toRepoPath_again (restore_of hscan).paths]
  simp only [renderArgv, List.cons_append, List.nil_append, List.append_assoc]
  rw [parseGitArgv_cons _ (by decide)]
  change parseRestore canonicalize _ = _ ↔ _
  rw [parseRestore, scan_pushIf (fun b => ({ staged := b } : RestoreArgs)),
    scan_pushIf (fun b => ({ staged := s.staged, worktree := b } : RestoreArgs)),
    scan_pushOption (fun source =>
      ({ staged := s.staged, worktree := s.worktree, source } : RestoreArgs)) _ _ rfl fun _ => rfl,
    scan_dashes (fun paths => { s with paths }) rfl]
  · simp [bind_eq_ok]
  all_goals rfl

theorem scan_reset_rev (canonicalize : Canonicalize) {rev : Option String} (hrev : ∀ r ∈ rev, isFlag r = false)
    (mode : Option ResetMode) (ts : List String) :
    scan (resetStep canonicalize) { mode } (rev.toList ++ ts) =
      scan (resetStep canonicalize) { mode, rev } ts := by
  cases rev with
  | none => rfl
  | some r =>
    have hop := hrev r rfl
    refine scan_cons_next ?_
    simp (disch := first | assumption | decide) [resetStep, operand_eq_iff,
      hop]

/-- The rendering of a mode and a revision, without paths, is read back. -/
theorem parseGitArgv_renderReset {rev : Option String} (hrev : ∀ r ∈ rev, isFlag r = false)
    (flag : String) (mode : ResetMode)
    (hflag : resetStep canonicalize {} flag = .next { mode := some mode }) :
    parseGitArgv canonicalize (renderReset [flag] rev) = .ok (match mode with
      | .soft => .resetSoft rev
      | .mixed => .resetMixed rev
      | .hard => .resetHard rev
      | .merge => .resetMerge rev
      | .keep => .resetKeep rev) := by
  have hscan := scan_reset_rev canonicalize hrev (some mode) []
  rw [List.append_nil] at hscan
  simp only [renderReset, List.cons_append, List.nil_append]
  rw [parseGitArgv_cons _ (by decide)]
  change parseReset canonicalize _ = _
  rw [parseReset, scan_cons_next hflag, hscan]
  cases mode <;> rfl

/-- Only the mixed mode keeps its paths. -/
def ResetRoundTrips (args : List String) : Prop :=
  let I : Reading := (plain (fun _ => false) true).read false args
  (lastSome (fun a => modeOf a.head) I).getD .mixed = .mixed → ∀ w ∈ I.pathWords 1, staysRelative w

theorem parseReset_again (h : parseReset canonicalize args = .ok op) :
    parseGitArgv canonicalize (renderArgv op) = .ok op ↔ ResetRoundTrips args := by
  obtain ⟨s, hscan, hop⟩ := bind_eq_ok.mp h
  obtain ⟨hmode, hrev, hpaths⟩ := reset_of hscan
  rw [ResetRoundTrips, ← hmode, ← mapM_toRepoPath_again hpaths]
  have hoperand : ∀ rev ∈ s.rev, isFlag rev = false := fun rev hmem =>
    isFlag_of_head?_operands (hrev.symm.trans hmem)
  cases hm : s.mode.getD .mixed with
  | mixed =>
    rw [hm] at hop
    split_ifs at hop with hnone
    · cases hop
      have hnil : s.paths = [] := by simpa using hnone
      refine iff_of_true ?_ fun _ => by simp [hnil, pure, Except.pure]
      have hplain := scan_reset_rev canonicalize hoperand none []
      rw [List.append_nil] at hplain
      simp only [renderArgv, renderReset, List.cons_append, List.nil_append]
      rw [parseGitArgv_cons _ (by decide)]
      change parseReset canonicalize _ = _
      rw [parseReset, hplain]
      rfl
    · obtain ⟨rev, hrev', hop⟩ := bind_eq_ok.mp hop
      cases hop
      have hrevText := map_text_of_mapM text_of_toRevisionExpr hrev'
      simp only [renderArgv, List.cons_append]
      rw [parseGitArgv_cons _ (by decide)]
      change parseReset canonicalize ((rev.map RevisionExpr.text).toList ++
        "--" :: s.paths.map RepoPath.text) = _ ↔ _
      rw [parseReset, hrevText, scan_reset_rev canonicalize hoperand,
        scan_dashes (fun paths => { rev := s.rev, paths }) rfl]
      constructor
      · intro hagain hmixed
        obtain ⟨s', hs', hagain⟩ := bind_eq_ok.mp hagain
        obtain ⟨paths, hpaths', hs'⟩ := bind_eq_ok.mp hs'
        cases hs'
        split_ifs at hagain
        · cases hagain
        · obtain ⟨rev', -, hagain⟩ := bind_eq_ok.mp hagain
          cases hagain
          exact hpaths'
      · intro hpaths'
        rw [hpaths' trivial, ok_bind, ok_bind]
        simp [hnone, hrev']
  | soft =>
    rw [hm] at hop
    cases hop
    exact iff_of_true (parseGitArgv_renderReset hoperand "--soft" .soft rfl) (by simp)
  | hard =>
    rw [hm] at hop
    cases hop
    exact iff_of_true (parseGitArgv_renderReset hoperand "--hard" .hard rfl) (by simp)
  | merge =>
    rw [hm] at hop
    cases hop
    exact iff_of_true (parseGitArgv_renderReset hoperand "--merge" .merge rfl) (by simp)
  | keep =>
    rw [hm] at hop
    cases hop
    exact iff_of_true (parseGitArgv_renderReset hoperand "--keep" .keep rfl) (by simp)

theorem cleanStep_cluster (force dryRun dirs ignored : Bool) (ts : List String) :
    let flags := (if force then ['f'] else []) ++ (if dryRun then ['n'] else []) ++
      (if dirs then ['d'] else []) ++ (if ignored then ['x'] else [])
    scan cleanStep {} (pushIf (!flags.isEmpty) ("-" ++ String.ofList flags) ++ ts) =
      scan cleanStep { force, dryRun, dirs, ignored } ts := by
  cases force <;> cases dryRun <;> cases dirs <;> cases ignored <;> rfl

/-- The rendering puts a separator before each path, of which only the first is read as one. -/
def CleanRoundTrips (args : List String) : Prop :=
  let I : Reading := (plain (fun _ => false) true).read false args
  (I.afterDashes.getD (I.operands.filter (· ≠ "-"))).length ≤ 1

theorem parseClean_again (h : parseClean args = .ok op) :
    parseGitArgv canonicalize (renderArgv op) = .ok op ↔ CleanRoundTrips args := by
  obtain ⟨s, hscan, hop⟩ := bind_eq_ok.mp h
  cases hop
  have htexts := texts_of_mapM_toPathspec (clean_of hscan).paths
  have hlength := congrArg List.length htexts
  rw [List.length_map] at hlength
  rw [CleanRoundTrips, ← hlength]
  obtain ⟨paths, hpaths, hsame⟩ : ∃ paths,
      scan cleanStep { s with paths := [] } (pushPathspecs s.paths) = .ok { s with paths } ∧
        (paths = s.paths ↔ s.paths.length ≤ 1) :=
    scan_pathspecs (fun paths => { s with paths }) rfl rfl s.paths
  simp only [renderArgv, List.cons_append, List.append_assoc]
  rw [parseGitArgv_cons _ (by decide)]
  change parseClean (pushIf _ _ ++ pushPathspecs s.paths) = _ ↔ _
  have hcluster := cleanStep_cluster s.force s.dryRun s.dirs s.ignored (pushPathspecs s.paths)
  simp only [List.append_assoc] at hcluster
  rw [← hsame, parseClean, hcluster, hpaths]
  simp [Except.pure]

theorem parseStashPush_again {s : StashPushArgs} (h : scan stashPushStep {} args = .ok s) :
    parseGitArgv canonicalize (renderArgv (.stashPush s.message s.includeUntracked s.paths)) =
        .ok (.stashPush s.message s.includeUntracked s.paths) ↔
      (Reading.pathWords 0 ((plain isMessage true).read false args)).length ≤ 1 := by
  have hlength := congrArg List.length (texts_of_mapM_toPathspec (stashPush_of h).paths)
  rw [List.length_map] at hlength
  obtain ⟨paths, hpaths, hsame⟩ : ∃ paths,
      scan stashPushStep { s with paths := [] } (pushPathspecs s.paths) = .ok { s with paths } ∧
        (paths = s.paths ↔ s.paths.length ≤ 1) :=
    scan_pathspecs (fun paths => { s with paths }) rfl rfl s.paths
  simp only [renderArgv, List.cons_append, List.append_assoc]
  rw [parseGitArgv_cons _ (by decide)]
  change (scan stashPushStep {} (pushIf s.includeUntracked "-u" ++ (pushOption "-m" s.message ++
    pushPathspecs s.paths)) >>= fun s =>
      .ok (GitOperation.stashPush s.message s.includeUntracked s.paths)) = _ ↔ _
  rw [← hlength, ← hsame, scan_pushIf (fun b => ({ includeUntracked := b } : StashPushArgs)),
    scan_pushOption (fun message =>
      ({ includeUntracked := s.includeUntracked, message } : StashPushArgs)) _ _ rfl fun _ => rfl,
    hpaths]
  · simp
  · rfl

/-- What `stash apply` and `stash pop` take is read back. -/
theorem parseStashRestore_again {restore : Option RevisionExpr → Bool → GitOperation}
    (h : parseStashRestore restore args = .ok op) :
    ∃ stash index, op = restore stash index ∧
      parseStashRestore restore (pushIf index "--index" ++
        (stash.map RevisionExpr.text).toList) = .ok op := by
  obtain ⟨index, -, h⟩ := bind_eq_ok.mp h
  obtain ⟨stash, hstash, hop⟩ := bind_eq_ok.mp h
  refine ⟨stash, index, (Except.ok.inj hop).symm, ?_⟩
  have htext := map_text_of_mapM text_of_toRevisionExpr hstash
  have hoperand : ∀ word ∈ peekNonFlag args, isFlag word = false := fun word hmem => by
    simpa using List.find?_some hmem
  have hwords : scan stashIndexStep false (pushIf index "--index" ++ (peekNonFlag args).toList) =
      .ok index ∧ peekNonFlag (pushIf index "--index" ++ (peekNonFlag args).toList) =
        peekNonFlag args := by
    cases hword : peekNonFlag args with
    | none => cases index <;> exact ⟨rfl, rfl⟩
    | some word =>
      have hflag := hoperand word hword
      have hno : stashIndexStep index word = .next index := by
        simp (disch := first | assumption | decide) [stashIndexStep, operand_eq_iff,
          isShortFlag_eq_false]
      refine ⟨(scan_pushIf (fun b => b) index rfl).trans (scan_cons_next hno), ?_⟩
      have hindex : isFlag "--index" = true := by decide
      cases index <;> simp [peekNonFlag, pushIf, hflag, hindex]
  rw [htext, parseStashRestore, hwords.1, hwords.2, hstash]
  exact hop

def StashRoundTrips (args : List String) : Prop :=
  args.head? = some "push" →
    (Reading.pathWords 0 ((plain isMessage true).read false args.tail)).length ≤ 1

theorem parseStash_again (hargv : parseGitArgv canonicalize argv = .ok op)
    (h : parseStash argv args = .ok op) :
    parseGitArgv canonicalize (renderArgv op) = .ok op ↔ StashRoundTrips args := by
  rw [StashRoundTrips]
  cases args with
  | nil =>
    cases h
    exact iff_of_true rfl (by simp)
  | cons sub args =>
    simp only [parseStash] at h
    split_ifs at h with hlist hshow hpush happly hpop hdrop
    · cases h
      exact iff_of_true rfl (by simp [hlist])
    · refine iff_of_true ?_ (by simp [hshow])
      cases args with
      | nil =>
        cases h
        rfl
      | cons word args =>
        dsimp only at h
        split_ifs at h with hflag
        · cases h
          rfl
        · obtain ⟨stash, hstash, hop⟩ := bind_eq_ok.mp h
          cases hop
          have htext := text_of_toRevisionExpr hstash
          simp only [renderArgv, Option.map_some, Option.toList_some, List.cons_append,
            List.nil_append]
          rw [parseGitArgv_cons _ (by decide)]
          change parseStash ["git", "stash", "show", stash.text] ["show", stash.text] = _
          simp [parseStash, htext, hflag, hstash]
    · obtain ⟨s, hs, hop⟩ := bind_eq_ok.mp h
      cases hop
      simpa [hpush] using parseStashPush_again hs
    · refine iff_of_true ?_ (by simp [happly])
      obtain ⟨stash, index, rfl, hagain⟩ := parseStashRestore_again h
      simp only [renderArgv, List.cons_append]
      rw [parseGitArgv_cons _ (by decide)]
      exact hagain
    · refine iff_of_true ?_ (by simp [hpop])
      obtain ⟨stash, index, rfl, hagain⟩ := parseStashRestore_again h
      simp only [renderArgv, List.cons_append]
      rw [parseGitArgv_cons _ (by decide)]
      exact hagain
    · refine iff_of_true ?_ (by simp [hdrop])
      obtain ⟨word, -, h⟩ := bind_eq_ok.mp h
      obtain ⟨stash, -, hop⟩ := bind_eq_ok.mp h
      cases hop
      rw [renderArgv, parseGitArgv_cons _ (by decide)]
      change parseStash ["git", "stash", "drop", stash.text] ["drop", stash.text] = _
      simp [parseStash, required]
    · cases h
      exact iff_of_true hargv (by simp [hpush])

end Index

end Codegg.Git
