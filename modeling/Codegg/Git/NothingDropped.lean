import Codegg.Git.Kept

/-!
# What an operation says of its arguments

Each parser's operation has exactly the options and words that are listed for its subcommand.
So nothing is dropped exactly when the list covers the arguments.
-/
namespace Codegg.Git

open Codegg.Library.ArgScan GitOperation Reading

variable {canonicalize : Canonicalize} {I : Reading} {argv args : List String} {sub : String}
  {op : GitOperation}

/-- An operation that says what is listed. -/
structure Says (sub : String) (op : GitOperation) (k : Kept) : Prop where
  typed : op.isTyped = true
  same : (op.kept sub).Same sub k

variable {ws : List String}

section Words

/-- Paths are spelled like the words they were read from. -/
theorem spell_paths {paths : List RepoPath} (sub : String) (hsub : sub ≠ "remote")
    (h : ws.mapM (toRepoPath canonicalize) = .ok paths) :
    (paths.map RepoPath.text).map (spell sub) = ws.map (spell sub) := by
  rw [(texts_of_mapM_toRepoPath h).1, List.map_map]
  exact List.map_congr_left fun w _ => spell_normalizePath hsub w

/-- Words that are no options. -/
def NoFlags (ws : List String) : Prop := ∀ w ∈ ws, isFlag w = false

theorem noFlags_operands (I : Reading) : NoFlags (operands I) :=
  fun _ ht => isFlag_of_mem_operands ht

theorem NoFlags.take (h : NoFlags ws) (n : Nat) : NoFlags (ws.take n) :=
  fun _ hw => h _ (List.mem_of_mem_take hw)

theorem NoFlags.head? (h : NoFlags ws) : NoFlags ws.head?.toList := by
  cases ws with
  | nil => simp [NoFlags]
  | cons w ws => simpa [NoFlags] using h w (by simp)

theorem NoFlags.options (h : NoFlags ws) (sub : String) :
    (ws.map Piece.operand).flatMap (Piece.options sub) = [] := by
  have hnil : ws.filter isFlag = [] := by
    rw [List.filter_eq_nil_iff]
    intro w hw
    simp [h w hw]
  simp [options_operands, hnil]

theorem NoFlags.words (h : NoFlags ws) :
    (ws.map Piece.operand).flatMap Piece.words = ws := by
  rw [words_operands, List.filter_eq_self]
  intro w hw
  simp [h w hw]

end Words

theorem NoFlags.toList {o : Option String} (h : ∀ w, o = some w → isFlag w = false) :
    NoFlags o.toList := by
  cases o with
  | none => simp [NoFlags]
  | some w => simpa [NoFlags] using h w rfl

/-- The options and words of an operation, compared with what is listed. -/
theorem says_iff {k : Kept} : Says sub op k ↔ op.isTyped = true ∧
    op.pieces.flatMap (Piece.options sub) = k.options ∧
      (op.pieces.flatMap Piece.words).map (spell sub) = k.words.map (spell sub) :=
  ⟨fun ⟨h₁, h₂, h₃⟩ => ⟨h₁, h₂, h₃⟩, fun ⟨h₁, h₂, h₃⟩ => ⟨h₁, h₂, h₃⟩⟩

/-- An operation that is rendered as words says them. -/
theorem says_ofWords (htyped : op.isTyped = true) (h : op.pieces = ws.map .operand) :
    Says sub op (.ofWords sub ws) := by
  rw [says_iff, h, options_operands, words_operands]
  exact ⟨htyped, rfl, rfl⟩

theorem take_one {word : String} (h : args[0]? = some word) : args.take 1 = [word] := by
  cases args <;> simp_all

theorem take_two {word word' : String} (h : args[0]? = some word) (h' : args[1]? = some word') :
    args.take 2 = [word, word'] := by
  obtain _ | ⟨a, _ | ⟨b, args⟩⟩ := args <;> simp_all

/-- Nothing is said of arguments that are kept as they are. -/
def SaysOrKeeps (argv : List String) (sub : String) (op : GitOperation) (k : Option Kept) : Prop :=
  match k with
  | some k => Says sub op k
  | none => op = managedFallback argv

attribute [local simp] GitOperation.pieces Piece.options Piece.words pushIf Kept.ofWords

section Inspection

theorem parseStatus_says (h : parseStatus args = .ok op) :
    Says "status" op (statusKept (readArgs "status" args)) := by
  obtain ⟨short, hscan, hop⟩ := bind_eq_ok.mp h
  cases hop
  rw [status_of hscan]
  have hs : meaning "status" "-s" = ["--short"] := by rfl
  simp [says_iff, isTyped, statusKept, readArgs, hs]

theorem parseDiff_says (h : parseDiff canonicalize args = .ok op) :
    Says "diff" op (diffKept (readArgs "diff" args)) := by
  obtain ⟨s, hscan, hop⟩ := bind_eq_ok.mp h
  obtain ⟨hstaged, hstat, hname, hbase, hpaths⟩ := diff_of hscan
  set I := (plain (fun _ => false) true).read false args with hI
  have hread : readArgs "diff" args = I := rfl
  have h₁ : meaning "diff" "--staged" = ["--staged"] := by rfl
  have h₂ : meaning "diff" "--stat" = ["--stat"] := by rfl
  have h₃ : meaning "diff" "--name-only" = ["--name-only"] := by rfl
  have hspell := spell_paths "diff" (by decide) hpaths
  have hops := (noFlags_operands I).head?
  rw [hread, diffKept, says_iff, ← hstaged, ← hstat, ← hname]
  rw [← hbase] at hops ⊢
  cases hs : s.staged with
  | true =>
    rw [hs] at hop
    cases hop
    refine ⟨rfl, ?_, ?_⟩
    · simp [h₁, h₂, h₃]
    · simpa using hspell
  | false =>
    rw [hs] at hop
    cases hop
    refine ⟨rfl, ?_, ?_⟩
    · simp [h₂, h₃, hops.options]
    · simp [hops.words, hspell]

theorem parseShow_says (h : parseShow args = .ok op) :
    Says "show" op (.ofWords "show" (args.take 1)) := by
  obtain ⟨word, hword, h⟩ := bind_eq_ok.mp h
  obtain ⟨rev, hrev, h⟩ := bind_eq_ok.mp h
  cases h
  rw [required_eq_ok] at hword
  rw [take_one hword, ← text_of_toRevisionExpr hrev]
  exact says_ofWords rfl rfl

theorem parseLog_says (h : parseLog canonicalize args = .ok op) :
    Says "log" op (logKept (readArgs "log" args)) := by
  obtain ⟨s, hscan, hop⟩ := bind_eq_ok.mp h
  cases hop
  obtain ⟨honeline, hcount, hpaths⟩ := log_of hscan
  have hread : readArgs "log" args = (plain isCount true).read false args := rfl
  have h₁ : meaning "log" "--oneline" = ["--oneline"] := by rfl
  have h₂ : meaning "log" "-n" = ["--max-count"] := by rfl
  have hspell := spell_paths "log" (by decide) hpaths
  rw [hread, logKept, says_iff, logCount, ← honeline, ← hcount]
  refine ⟨rfl, ?_, ?_⟩
  · simp [h₁, h₂]
  · simp [hspell]

theorem parseBlame_says (h : parseBlame canonicalize args = .ok op) :
    Says "blame" op (blameKept args) := by
  obtain ⟨word, hword, h⟩ := bind_eq_ok.mp h
  obtain ⟨path, hpath, h⟩ := bind_eq_ok.mp h
  cases h
  obtain ⟨args', rfl⟩ : ∃ args', args = word :: args' := by
    cases args <;> simp_all
  rw [says_iff]
  refine ⟨rfl, ?_, ?_⟩
  · simp [blameKept]
  · simp [blameKept, (text_of_toRepoPath hpath).1]

end Inspection

section Refs

theorem parseBranch_says (h : parseBranch args = .ok op) :
    Says "branch" op (branchKept (readArgs "branch" args)) := by
  have hread : readArgs "branch" args = branchGrammar.read false args := rfl
  have h₁ : meaning "branch" "-d" = ["--delete"] := by rfl
  have h₂ : meaning "branch" "-D" = ["--delete", "--force"] := by rfl
  have h₃ : meaning "branch" "-m" = ["--move"] := by rfl
  have h₄ : meaning "branch" "-B" = ["-B"] := by rfl
  have h₅ : meaning "branch" "-a" = ["--all"] := by rfl
  have h₆ : meaning "branch" "-r" = ["--remotes"] := by rfl
  rw [hread, branchKept]
  cases parseBranch_reads h with
  | delete branch hdeletes =>
    rw [hdeletes]
    refine says_iff.mpr ⟨rfl, ?_, ?_⟩
    · simp only [pieces]
      split_ifs <;> simp_all
    · simp
  | rename old new hdeletes hold hnew =>
    rw [hdeletes, hold, hnew]
    refine says_iff.mpr ⟨rfl, ?_, ?_⟩
    · simp [h₃]
    · simp
  | create name hdeletes hrenames hname =>
    rw [hdeletes, hname]
    unfold renames at hrenames
    cases hold : lastTaken 0 (branchWord · = .move) (branchGrammar.read false args) <;>
      cases hnew : lastTaken 1 (branchWord · = .move) (branchGrammar.read false args)
    case some.some => simp [hold, hnew] at hrenames
    all_goals
      refine says_iff.mpr ⟨rfl, ?_, ?_⟩
      · simp [options_operands, h₄]
      · simp [words_operands]
  | list hdeletes hrenames hname =>
    rw [hdeletes, hname]
    unfold renames at hrenames
    cases hold : lastTaken 0 (branchWord · = .move) (branchGrammar.read false args) <;>
      cases hnew : lastTaken 1 (branchWord · = .move) (branchGrammar.read false args)
    case some.some => simp [hold, hnew] at hrenames
    all_goals
      refine says_iff.mpr ⟨rfl, ?_, ?_⟩
      · simp only [pieces]
        split_ifs <;> simp_all
      · simp only [pieces]
        split_ifs <;> rfl

theorem parseTag_says (h : parseTag args = .ok op) :
    Says "tag" op (tagKept (readArgs "tag" args)) := by
  have hread : readArgs "tag" args = tagGrammar.read false args := rfl
  have h₁ : meaning "tag" "-d" = ["--delete"] := by rfl
  have h₂ : meaning "tag" "-D" = ["-D"] := by rfl
  have h₄ : meaning "tag" "-a" = ["--annotate"] := by rfl
  have h₅ : meaning "tag" "-m" = ["--message"] := by rfl
  have hdeleted {name : String}
      (hd : deletes tagDeletion (tagGrammar.read false args) = some name) :
      isFlag name = false := by
    obtain ⟨a, -, ha⟩ := Option.bind_eq_some_iff.mp hd
    split_ifs at ha with hcond
    simp_all
  have hlist : Says "tag" .tagList ⟨["--list"], []⟩ :=
    says_iff.mpr ⟨rfl, by rfl, by rfl⟩
  rw [hread, tagKept]
  cases parseTag_reads h with
  | forceDelete name hdeletes hforce =>
    have hflag := hdeleted hdeletes
    rw [hdeletes]
    refine says_iff.mpr ⟨rfl, ?_, ?_⟩
    · simp [hforce, hflag, h₂]
    · simp [hflag]
  | delete name hdeletes hforce =>
    have hflag := hdeleted hdeletes
    rw [hdeletes]
    refine says_iff.mpr ⟨rfl, ?_, ?_⟩
    · simp [hforce, hflag, h₁]
    · simp [hflag]
  | list hdeletes hlists =>
    rw [hdeletes]
    obtain hl | hops := hlists
    · simp only [hl]
      exact hlist
    · simp only [hops]
      split_ifs <;> exact hlist
  | create name hdeletes hlists hname =>
    rw [hdeletes]
    have hops := noFlags_operands (tagGrammar.read false args)
    obtain ⟨more, hcons⟩ : ∃ more,
        operands (tagGrammar.read false args) = name :: more := by
      cases hm : operands (tagGrammar.read false args) <;> simp_all
    rw [hcons] at hops
    have hmore : NoFlags more[0]?.toList := by
      rw [← List.head?_eq_getElem?]
      exact NoFlags.head? fun w hw => hops w (by simp [hw])
    have hflag : isFlag name = false := hops name (by simp)
    simp only [hlists, hcons]
    refine says_iff.mpr ⟨rfl, ?_, ?_⟩
    · simp [hflag, hmore.options, h₄, h₅]
    · simp [hflag, hmore.words, List.head?_eq_getElem?]

/-- `--add` counts before the name of the remote. -/
theorem setUrl_of {s s' : SetUrlArgs} (hfound : s.found = none)
    (h : scan setUrlStep s args = .ok s') :
    s'.append = (s.append || decide ("--add" ∈ args.takeWhile isFlag)) ∧
      ∀ name url, s'.found = some (name, url) →
        (args.dropWhile isFlag).take 2 = [name.text, url.raw] := by
  induction args generalizing s with
  | nil =>
    cases h
    simp [hfound]
  | cons arg args ih =>
    unfold scan at h
    unfold setUrlStep at h
    by_cases hadd : arg = "--add"
    · subst hadd
      obtain ⟨happend, hurl⟩ := ih (by simpa using hfound) h
      have hflag : isFlag "--add" = true := by decide
      exact ⟨by simp [happend, hflag], by simpa [hflag] using hurl⟩
    · cases hflag : isFlag arg with
      | true =>
        simp only [if_neg hadd, hflag] at h
        obtain ⟨happend, hurl⟩ := ih hfound h
        refine ⟨?_, by simpa [hflag] using hurl⟩
        simp [happend, hflag, Ne.symm hadd]
      | false =>
        simp only [if_neg hadd, hflag] at h
        obtain ⟨url, hurl, h⟩ := bind_eq_ok.mp h
        obtain ⟨name, hname, h⟩ := bind_eq_ok.mp h
        cases h
        have htext := text_of_toRemoteName hname
        refine ⟨by simp [hflag], ?_⟩
        rintro name' url' hfound'
        cases hfound'
        obtain ⟨args', rfl⟩ : ∃ args', args = url :: args' := by
          cases args <;> simp_all
        simp [hflag, htext]

theorem parseRemote_says (h : parseRemote argv args = .ok op) :
    SaysOrKeeps argv "remote" op (remoteKept args) := by
  have hlist : Says "remote" .remoteList ⟨[], []⟩ := says_iff.mpr ⟨rfl, rfl, rfl⟩
  cases args with
  | nil =>
    cases h
    exact hlist
  | cons sub args =>
    unfold parseRemote at h
    dsimp only at h
    unfold remoteKept
    dsimp only
    split_ifs at h ⊢ with hverbose hadd hremove hsetUrl hgetUrl
    · cases h
      exact hlist
    · obtain ⟨name, hname, h⟩ := bind_eq_ok.mp h
      obtain ⟨url, hurl, h⟩ := bind_eq_ok.mp h
      obtain ⟨remote, hremote, h⟩ := bind_eq_ok.mp h
      cases h
      rw [required_eq_ok] at hname hurl
      rw [take_two hname hurl, ← text_of_toRemoteName hremote]
      exact says_ofWords rfl rfl
    · obtain ⟨name, hname, h⟩ := bind_eq_ok.mp h
      obtain ⟨remote, hremote, h⟩ := bind_eq_ok.mp h
      cases h
      rw [required_eq_ok] at hname
      rw [take_one hname, ← text_of_toRemoteName hremote]
      exact says_ofWords rfl rfl
    · obtain ⟨s, hscan, h⟩ := bind_eq_ok.mp h
      obtain ⟨happend, hurl⟩ := setUrl_of rfl hscan
      cases hfound : s.found with
      | none => simp [hfound] at h
      | some found =>
        obtain ⟨name, url⟩ := found
        rw [hfound] at h
        cases h
        have h₁ : meaning "remote" "--add" = ["--add"] := by rfl
        have hflag : isFlag "set-url" = false := by decide
        have hpieces : (remoteSetUrl name url s.append).pieces =
            .operand "set-url" :: (optionIf s.append "--add" ++
              [name.text, url.raw].map .operand) := rfl
        have happend' : s.append = decide ("--add" ∈ args.takeWhile isFlag) := by
          simpa using happend
        rw [hurl name url hfound, ← happend']
        refine says_iff.mpr ⟨rfl, ?_, ?_⟩
        · rw [hpieces, List.flatMap_cons, List.flatMap_append, options_operands]
          simp [h₁, hflag]
        · rw [hpieces, List.flatMap_cons, List.flatMap_append, words_operands]
          simp [hflag]
    · obtain ⟨name, hname, h⟩ := bind_eq_ok.mp h
      obtain ⟨remote, hremote, h⟩ := bind_eq_ok.mp h
      cases h
      rw [required_eq_ok] at hname
      rw [take_one hname, ← text_of_toRemoteName hremote]
      exact says_ofWords rfl rfl
    · cases h
      rfl

end Refs

section Worktree

theorem parseAdd_says (h : parseAdd canonicalize args = .ok op) :
    Says "add" op (addKept (readArgs "add" args)) := by
  obtain ⟨paths, hscan, hop⟩ := bind_eq_ok.mp h
  cases hop
  have hread : readArgs "add" args = (plain (fun _ => false) true).read false args := rfl
  rw [hread, addKept, ← (texts_of_mapM_toRepoPath (add_of hscan)).1]
  exact says_ofWords rfl rfl

theorem parseCommit_says (h : parseCommit args = .ok op) :
    Says "commit" op (commitKept (readArgs "commit" args)) := by
  obtain ⟨s, hscan, hop⟩ := bind_eq_ok.mp h
  cases hop
  obtain ⟨hmessage, hamend, hempty⟩ := commit_of hscan
  have hread : readArgs "commit" args = (plain isMessage false).read false args := rfl
  have h₁ : meaning "commit" "--amend" = ["--amend"] := by rfl
  have h₂ : meaning "commit" "--allow-empty" = ["--allow-empty"] := by rfl
  have h₃ : meaning "commit" "-m" = ["--message"] := by rfl
  rw [hread, commitKept, ← hmessage, ← hamend, ← hempty]
  refine says_iff.mpr ⟨rfl, ?_, ?_⟩
  · simp [h₁, h₂, h₃]
  · simp

theorem parseRestore_says (h : parseRestore canonicalize args = .ok op) :
    Says "restore" op (restoreKept (readArgs "restore" args)) := by
  obtain ⟨s, hscan, hop⟩ := bind_eq_ok.mp h
  cases hop
  obtain ⟨hstaged, hsource, hworktree, hpaths⟩ := restore_of hscan
  have hread : readArgs "restore" args = (plain (· = "--source") true).read false args := rfl
  have h₁ : meaning "restore" "--staged" = ["--staged"] := by rfl
  have h₂ : meaning "restore" "--worktree" = ["--worktree"] := by rfl
  have h₃ : meaning "restore" "--source" = ["--source"] := by rfl
  have hspell := spell_paths "restore" (by decide) hpaths
  rw [hread, restoreKept, ← hstaged, ← hsource, ← hworktree]
  refine says_iff.mpr ⟨rfl, ?_, ?_⟩
  · simp [h₁, h₂, h₃]
  · simp [hspell, -List.map_map]

theorem parseSwitch_says (h : parseSwitch args = .ok op) :
    Says "switch" op (switchKept (readArgs "switch" args)) := by
  obtain ⟨s, hscan, hop⟩ := bind_eq_ok.mp h
  obtain ⟨word, hword, hop⟩ := bind_eq_ok.mp hop
  obtain ⟨branch, hbranch, hop⟩ := bind_eq_ok.mp hop
  cases hop
  obtain ⟨hcreate, hforce, hdetach, hname⟩ := switch_of hscan
  have hread : readArgs "switch" args = (plain takesBranch false).read false args := rfl
  have h₁ : meaning "switch" "-c" = ["--create"] := by rfl
  have h₂ : meaning "switch" "-f" = ["--force"] := by rfl
  have h₃ : meaning "switch" "--detach" = ["--detach"] := by rfl
  rw [required_eq_ok] at hword
  have hto : switchedTo ((plain takesBranch false).read false args) = some branch.text := by
    rw [switchedTo, ← hname, hword, text_of_toBranchName hbranch]
  rw [hread, switchKept, ← hcreate, ← hforce, ← hdetach, hto]
  refine says_iff.mpr ⟨rfl, ?_, ?_⟩
  · simp [h₁, h₂, h₃]
  · simp

theorem parseReset_says (h : parseReset canonicalize args = .ok op) :
    Says "reset" op (resetKept (readArgs "reset" args)) := by
  obtain ⟨s, hscan, hop⟩ := bind_eq_ok.mp h
  obtain ⟨hmode, hrev, hpaths⟩ := reset_of hscan
  set I := (plain (fun _ => false) true).read false args with hI
  have hread : readArgs "reset" args = I := rfl
  have hspell := spell_paths "reset" (by decide) hpaths
  have hops := (noFlags_operands I).head?
  rw [hread, resetKept, ← hmode, ← hrev]
  rw [← hrev] at hops
  have hoptions := hops.options "reset"
  have hwords := hops.words
  have hmeaning (mode : ResetMode) : meaning "reset" mode.text = [mode.text] := by
    cases mode <;> rfl
  have hthis := hmeaning (s.mode.getD .mixed)
  cases hm : s.mode.getD .mixed <;> simp only [hm, ResetMode.text] at hop hthis
  case mixed =>
    split_ifs at hop with hempty
    · cases hop
      rw [List.isEmpty_iff] at hempty
      rw [hempty] at hspell
      have hnil : pathWords 1 I = [] := by simpa using hspell.symm
      refine says_iff.mpr ⟨rfl, ?_, ?_⟩
      · simp [ResetMode.text, hoptions, hthis]
      · simpa [hnil] using congrArg _ hwords
    · obtain ⟨rev, hrevText, hop⟩ := bind_eq_ok.mp hop
      cases hop
      have htext := map_text_of_mapM text_of_toRevisionExpr hrevText
      rw [← htext] at hoptions hwords ⊢
      refine says_iff.mpr ⟨rfl, ?_, ?_⟩
      · simp [ResetMode.text, hoptions, hthis]
      · simp [hwords, hspell]
  all_goals
    cases hop
    refine says_iff.mpr ⟨rfl, ?_, ?_⟩
    · simp [ResetMode.text, hoptions, hthis]
    · simpa using congrArg _ hwords

/-- The flags of `git clean` are rendered as one bundle. -/
theorem cleanBundle (force dryRun dirs ignored : Bool) :
    let flags := (if force then ['f'] else []) ++ (if dryRun then ['n'] else []) ++
      (if dirs then ['d'] else []) ++ (if ignored then ['x'] else [])
    (if !flags.isEmpty then meaning "clean" ("-" ++ String.ofList flags) else []) =
      pushIf force "--force" ++ pushIf dryRun "--dry-run" ++ pushIf dirs "--dirs" ++
        pushIf ignored "--ignored" := by
  cases force <;> cases dryRun <;> cases dirs <;> cases ignored <;> rfl

theorem parseClean_says (h : parseClean args = .ok op) :
    Says "clean" op (cleanKept (readArgs "clean" args)) := by
  obtain ⟨s, hscan, hop⟩ := bind_eq_ok.mp h
  cases hop
  obtain ⟨hforce, hdryRun, hdirs, hignored, hpaths⟩ := clean_of hscan
  have hread : readArgs "clean" args = (plain (fun _ => false) true).read false args := rfl
  rw [hread, cleanKept, ← hforce, ← hdryRun, ← hdirs, ← hignored, ← texts_of_mapM_toPathspec hpaths]
  refine says_iff.mpr ⟨rfl, ?_, ?_⟩
  · simp only [pieces, List.flatMap_append, options_optionIf, options_pathspecPieces,
      List.append_nil]
    exact cleanBundle s.force s.dryRun s.dirs s.ignored
  · simp

theorem parseCheckout_says (h : parseCheckout canonicalize args = .ok op) :
    Says "checkout" op (checkoutKept (readArgs "checkout" args)) := by
  obtain ⟨s, hscan, hop⟩ := bind_eq_ok.mp h
  cases hop
  obtain ⟨hcreate, hforce, htarget, hpaths⟩ := checkout_of hscan
  have hread : readArgs "checkout" args = checkoutGrammar.read false args := rfl
  have h₁ : meaning "checkout" "-b" = ["--new-branch"] := by rfl
  have h₂ : meaning "checkout" "-f" = ["--force"] := by rfl
  have hspell : ((s.paths.getD []).map RepoPath.text).map (spell "checkout") =
      ((checkoutPathWords (checkoutGrammar.read false args)).getD []).map (spell "checkout") := by
    cases hp : s.paths <;> cases hw : checkoutPathWords (checkoutGrammar.read false args) <;>
      simp only [hp, hw, Option.map_none, Option.map_some, reduceCtorEq, Option.some.injEq] at hpaths
    · rfl
    · exact spell_paths "checkout" (by decide) hpaths.symm
  rw [hread, checkoutKept, ← hcreate, ← hforce, ← htarget]
  refine says_iff.mpr ⟨rfl, ?_, ?_⟩
  · simp [h₁, h₂]
  · simp [hspell]

/-- `stash apply` and `stash pop` take the first word that is no flag. -/
theorem parseStashRestore_says {verb : String} {restore : Option RevisionExpr → Bool → GitOperation}
    (htyped : ∀ stash index, (restore stash index).isTyped = true)
    (hpieces : ∀ stash index, (restore stash index).pieces = .operand verb ::
      (optionIf index "--index" ++ (stash.map RevisionExpr.text).toList.map .operand))
    (hverb : isFlag verb = false) (h : parseStashRestore restore args = .ok op) :
    Says "stash" op ⟨pushIf (has isIndex ((plain (fun _ => false) false).read false args))
      "--index", verb :: (peekNonFlag args).toList⟩ := by
  obtain ⟨index, hscan, h⟩ := bind_eq_ok.mp h
  obtain ⟨stash, hstash, h⟩ := bind_eq_ok.mp h
  cases h
  have h₁ : meaning "stash" "--index" = ["--index"] := by rfl
  have htext := map_text_of_mapM text_of_toRevisionExpr hstash
  have hops : NoFlags (peekNonFlag args).toList := NoFlags.toList fun w hw => by
    simpa using List.find?_some hw
  rw [← stashIndex_of hscan, ← htext]
  rw [← htext] at hops
  refine says_iff.mpr ⟨htyped stash index, ?_, ?_⟩
  · rw [hpieces, List.flatMap_cons, List.flatMap_append, hops.options]
    simp [hverb, h₁]
  · rw [hpieces, List.flatMap_cons, List.flatMap_append, hops.words]
    simp [hverb]

theorem parseStash_says (h : parseStash argv args = .ok op) :
    SaysOrKeeps argv "stash" op (stashKept args) := by
  have hlist : Says "stash" .stashList ⟨[], ["list"]⟩ := says_iff.mpr ⟨rfl, by rfl, by rfl⟩
  cases args with
  | nil =>
    cases h
    exact hlist
  | cons sub args =>
    unfold parseStash at h
    dsimp only at h
    unfold stashKept
    dsimp only
    by_cases hsub : sub = "list"
    · subst hsub
      simp only [if_true] at h ⊢
      cases h
      exact hlist
    by_cases hshow : sub = "show"
    · subst hshow
      have hverb : isFlag "show" = false := by decide
      simp only [if_neg hsub, if_true] at h ⊢
      cases args with
      | nil =>
        cases h
        exact says_iff.mpr ⟨rfl, by rfl, by rfl⟩
      | cons arg args =>
        cases hflag : isFlag arg with
        | true =>
          simp only [hflag, if_true] at h
          cases h
          refine says_iff.mpr ⟨rfl, by rfl, ?_⟩
          simp [hflag, hverb]
        | false =>
          simp only [hflag, Bool.false_eq_true, if_false] at h
          obtain ⟨stash, hstash, h⟩ := bind_eq_ok.mp h
          cases h
          have htext := text_of_toRevisionExpr hstash
          refine says_iff.mpr ⟨rfl, ?_, ?_⟩
          · simp [hverb, htext, hflag]
          · simp [hverb, htext, hflag]
    by_cases hpush : sub = "push"
    · subst hpush
      have hverb : isFlag "push" = false := by decide
      obtain ⟨s, hscan, h⟩ := bind_eq_ok.mp h
      cases h
      obtain ⟨hmessage, huntracked, hpaths⟩ := stashPush_of hscan
      have h₁ : meaning "stash" "-u" = ["--include-untracked"] := by rfl
      have h₂ : meaning "stash" "-m" = ["--message"] := by rfl
      rw [← hmessage, ← huntracked, ← texts_of_mapM_toPathspec hpaths]
      refine says_iff.mpr ⟨rfl, ?_, ?_⟩
      · simp [hverb, h₁, h₂]
      · simp [hverb]
    by_cases happly : sub = "apply"
    · subst happly
      exact parseStashRestore_says (fun _ _ => rfl) (fun _ _ => rfl) (by decide) h
    by_cases hpop : sub = "pop"
    · subst hpop
      exact parseStashRestore_says (fun _ _ => rfl) (fun _ _ => rfl) (by decide) h
    have hneither : ¬(sub = "apply" ∨ sub = "pop") := by tauto
    split_ifs at h ⊢ with hdrop
    · obtain ⟨word, hword, h⟩ := bind_eq_ok.mp h
      obtain ⟨stash, hstash, h⟩ := bind_eq_ok.mp h
      cases h
      rw [required_eq_ok] at hword
      rw [take_one hword, ← text_of_toRevisionExpr hstash]
      exact says_ofWords rfl rfl
    · cases h
      rfl

end Worktree

section Network

theorem take_two_eq (ws : List String) : ws.take 2 = ws[0]?.toList ++ ws[1]?.toList := by
  obtain _ | ⟨a, _ | ⟨b, ws⟩⟩ := ws <;> rfl

theorem parseFetch_says (h : parseFetch args = .ok op) :
    Says "fetch" op (fetchKept (readArgs "fetch" args)) := by
  obtain ⟨s, hscan, hop⟩ := bind_eq_ok.mp h
  obtain ⟨remote, hremote, hop⟩ := bind_eq_ok.mp hop
  cases hop
  obtain ⟨hall, hfirst, hmore⟩ := fetch_of hscan
  have hread : readArgs "fetch" args = (plain (fun _ => false) false).read false args := rfl
  have h₁ : meaning "fetch" "--all" = ["--all"] := by rfl
  have htext := map_text_of_mapM text_of_toRemoteName hremote
  have hops := noFlags_operands ((plain (fun _ => false) false).read false args)
  have hsplit : (remote.map RemoteName.text).toList ++ s.refspecs =
      operands ((plain (fun _ => false) false).read false args) := by
    rw [htext, hfirst, hmore]
    cases operands ((plain (fun _ => false) false).read false args) <;> rfl
  rw [hread, fetchKept, says_iff, ← hall, ← hsplit]
  rw [← hsplit] at hops
  have hoptions := hops.options "fetch"
  have hwords := hops.words
  rw [List.map_append] at hoptions hwords
  refine ⟨rfl, ?_, ?_⟩
  · simpa [h₁] using hoptions
  · simp [hwords]

theorem parsePull_says (h : parsePull args = .ok op) :
    Says "pull" op (pullKept (readArgs "pull" args)) := by
  obtain ⟨s, hscan, hop⟩ := bind_eq_ok.mp h
  obtain ⟨remote, hremote, hop⟩ := bind_eq_ok.mp hop
  cases hop
  obtain ⟨hrebase, hffOnly, hfirst, hsecond⟩ := pull_of hscan
  have hread : readArgs "pull" args = (plain (fun _ => false) false).read false args := rfl
  have h₁ : meaning "pull" "--rebase" = ["--rebase"] := by rfl
  have h₂ : meaning "pull" "--ff-only" = ["--ff-only"] := by rfl
  have htext := map_text_of_mapM text_of_toRemoteName hremote
  have hops := (noFlags_operands ((plain (fun _ => false) false).read false args)).take 2
  rw [hread, pullKept, says_iff, ← hrebase, ← hffOnly, take_two_eq, ← hfirst, ← hsecond, ← htext]
  rw [take_two_eq, ← hfirst, ← hsecond, ← htext] at hops
  have hoptions := hops.options "pull"
  have hwords := hops.words
  refine ⟨rfl, ?_, ?_⟩
  · simpa [h₁, h₂] using hoptions
  · exact congrArg (List.map (spell "pull")) (by simpa using hwords)

theorem parsePush_says (h : parsePush args = .ok op) :
    Says "push" op (pushKept (readArgs "push" args)) := by
  obtain ⟨s, hscan, hop⟩ := bind_eq_ok.mp h
  obtain ⟨remote, hremote, hop⟩ := bind_eq_ok.mp hop
  cases hop
  obtain ⟨hupstream, hforce, hlease, htags, hdelete, hfirst, hsecond⟩ := push_of hscan
  have hread : readArgs "push" args = (plain (fun _ => false) false).read false args := rfl
  have h₁ : meaning "push" "-u" = ["--set-upstream"] := by rfl
  have h₂ : meaning "push" "--force" = ["--force"] := by rfl
  have h₃ : meaning "push" "--force-with-lease" = ["--force-with-lease"] := by rfl
  have h₄ : meaning "push" "--tags" = ["--tags"] := by rfl
  have h₅ : meaning "push" "--delete" = ["--delete"] := by rfl
  have htext := map_text_of_mapM text_of_toRemoteName hremote
  have hops := (noFlags_operands ((plain (fun _ => false) false).read false args)).take 2
  rw [hread, pushKept, says_iff, ← hupstream, ← hforce, ← hlease, ← htags, ← hdelete,
    take_two_eq, ← hfirst, ← hsecond, ← htext]
  rw [take_two_eq, ← hfirst, ← hsecond, ← htext] at hops
  have hoptions := hops.options "push"
  have hwords := hops.words
  refine ⟨rfl, ?_, ?_⟩
  · simpa [h₁, h₂, h₃, h₄, h₅] using hoptions
  · exact congrArg (List.map (spell "push")) (by simpa using hwords)

theorem parseConfig_says (h : parseConfig argv args = .ok op) :
    SaysOrKeeps argv "config" op (configKept (readArgs "config" args)) := by
  have hread : readArgs "config" args = (plain (fun _ => false) false).read false args := rfl
  have hops := noFlags_operands ((plain (fun _ => false) false).read false args)
  have hfirst {key : String} (hkey : (operands ((plain (fun _ => false) false).read false
      args))[0]? = some key) : operands ((plain (fun _ => false) false).read false args) ≠ [] ∧
      isFlag key = false := by
    refine ⟨?_, hops key (List.mem_of_getElem? hkey)⟩
    rintro hnil
    simp [hnil] at hkey
  have h₁ : meaning "config" "--global" = ["--global"] := by rfl
  have h₂ : meaning "config" "--local" = ["--local"] := by rfl
  have h₃ : meaning "config" "--get" = ["--get"] := by rfl
  have h₄ : meaning "config" "--unset" = ["--unset"] := by rfl
  rw [hread, configKept]
  cases parseConfig_reads h with
  | managed hnone => rw [if_pos hnone]; rfl
  | unset key hkey hunset =>
    obtain ⟨hne, hflag⟩ := hfirst hkey
    rw [if_neg hne, if_pos hunset, take_one hkey]
    refine says_iff.mpr ⟨rfl, ?_, ?_⟩
    · simp [hflag, h₁, h₂, h₄]
    · simp [hflag]
  | get key hkey hunset hget =>
    obtain ⟨hne, hflag⟩ := hfirst hkey
    rw [if_neg hne, if_neg (by simp [hunset]), if_pos hget, take_one hkey]
    refine says_iff.mpr ⟨rfl, ?_, ?_⟩
    · simp only [pieces]
      split_ifs <;> simp_all
    · simp only [pieces]
      split_ifs <;> simp [hflag]
  | set key value hkey hvalue hunset hget =>
    obtain ⟨hne, hflag⟩ := hfirst hkey
    have hflag' : isFlag value = false := hops value (List.mem_of_getElem? hvalue)
    rw [if_neg hne, if_neg (by simp [hunset]), if_neg (by simp [hget, hvalue]),
      take_two hkey hvalue]
    refine says_iff.mpr ⟨rfl, ?_, ?_⟩
    · simp [hflag, hflag', h₁, h₂]
    · simp [hflag, hflag']

theorem parseWorktree_says (h : parseWorktree argv args = .ok op) :
    SaysOrKeeps argv "worktree" op (worktreeKept args) := by
  have hlist : Says "worktree" .worktreeList ⟨[], ["list"]⟩ :=
    says_iff.mpr ⟨rfl, by rfl, by rfl⟩
  unfold parseWorktree at h
  unfold worktreeKept
  cases hargs : args.head? with
  | none =>
    rw [hargs] at h
    cases h
    exact hlist
  | some sub =>
    rw [hargs] at h
    dsimp only at h
    split_ifs at h with hl hm
    · cases h
      subst hl
      exact hlist
    · cases h
      rw [if_pos (by simpa using hm)]
      rfl
    · cases h
      rw [if_neg (by simpa using hm)]
      exact hlist

end Network

section History

theorem parseMerge_says (h : parseMerge args = .ok op) :
    Says "merge" op (mergeKept (readArgs "merge" args)) := by
  obtain ⟨s, hscan, hop⟩ := bind_eq_ok.mp h
  obtain ⟨hnoFf, hstrategy, habort, hcontinue, hrevisions⟩ := merge_of hscan
  have hread : readArgs "merge" args = (plain isStrategy true).read false args := rfl
  have h₁ : meaning "merge" "--no-ff" = ["--no-ff"] := by rfl
  have h₂ : meaning "merge" "--strategy" = ["--strategy"] := by rfl
  rw [hread, mergeKept, ← habort, ← hcontinue, ← hnoFf, ← hstrategy, ← hrevisions]
  split_ifs at hop ⊢
  · cases hop
    exact says_iff.mpr ⟨rfl, by rfl, by rfl⟩
  · cases hop
    exact says_iff.mpr ⟨rfl, by rfl, by rfl⟩
  · cases hop
    refine says_iff.mpr ⟨rfl, ?_, ?_⟩
    · simp [h₁, h₂, options_operands]
    · simp [words_operands]

/-- What stands in for the other arguments of a command that is aborted, continued or skipped. -/
theorem sequencer_says {abort continueOp skip : Bool} {k : Kept} (last : GitOperation)
    (habort : abort = I.has (· = "--abort")) (hcontinue : continueOp = I.has (· = "--continue"))
    (hskip : skip = I.has (· = "--skip"))
    (hop : (if abort then .abort else if continueOp then .continue else if skip then .skip
      else last) = op)
    (hlast : Says sub last k) (habortText : meaning sub "--abort" = ["--abort"])
    (hcontinueText : meaning sub "--continue" = ["--continue"])
    (hskipText : meaning sub "--skip" = ["--skip"]) : Says sub op (sequencerKept I k) := by
  rw [sequencerKept, ← habort, ← hcontinue, ← hskip]
  subst hop
  split_ifs
  · simp [says_iff, isTyped, habortText]
  · simp [says_iff, isTyped, hcontinueText]
  · simp [says_iff, isTyped, hskipText]
  · exact hlast

theorem parseRebase_says (h : parseRebase args = .ok op) :
    Says "rebase" op (rebaseKept (readArgs "rebase" args)) := by
  obtain ⟨s, hscan, hop⟩ := bind_eq_ok.mp h
  obtain ⟨hinteractive, habort, hcontinue, hskip, honto, hupstream⟩ := rebase_of hscan
  have hread : readArgs "rebase" args = (plain (· = "--onto") true).read false args := rfl
  have h₁ : meaning "rebase" "-i" = ["--interactive"] := by rfl
  have h₂ : meaning "rebase" "--onto" = ["--onto"] := by rfl
  rw [hread, rebaseKept, ← hinteractive, ← honto, ← hupstream]
  refine sequencer_says (.rebase s.upstream s.onto s.interactive false false false) habort hcontinue hskip
    ?_ ?_ rfl rfl rfl
  · split_ifs at hop ⊢ <;> exact Except.ok.inj hop
  · refine says_iff.mpr ⟨rfl, ?_, ?_⟩
    · simp [h₁, h₂, options_operands]
    · simp [words_operands]

theorem parseCherryPick_says (h : parseCherryPick args = .ok op) :
    Says "cherry-pick" op (cherryPickKept (readArgs "cherry-pick" args)) := by
  obtain ⟨s, hscan, hop⟩ := bind_eq_ok.mp h
  obtain ⟨-, hcontinue, habort, hskip, hrevisions⟩ := cherryPick_of hscan
  have hread : readArgs "cherry-pick" args = (plain (fun _ => false) false).read false args := rfl
  have hops := noFlags_operands ((plain (fun _ => false) false).read false args)
  rw [hread, cherryPickKept, ← hrevisions]
  rw [← hrevisions] at hops
  refine sequencer_says (.cherryPick s.revisions false false false) habort hcontinue hskip
    ?_ ?_ rfl rfl rfl
  · split_ifs at hop ⊢ <;> exact Except.ok.inj hop
  · refine says_iff.mpr ⟨rfl, ?_, ?_⟩
    · simp [hops.options]
    · simp [hops.words]

theorem parseRevert_says (h : parseRevert args = .ok op) :
    Says "revert" op (revertKept (readArgs "revert" args)) := by
  obtain ⟨s, hscan, hop⟩ := bind_eq_ok.mp h
  obtain ⟨hnoEdit, hcontinue, habort, hskip, hrevisions⟩ := revert_of hscan
  have hread : readArgs "revert" args = (plain (fun _ => false) false).read false args := rfl
  have hops := noFlags_operands ((plain (fun _ => false) false).read false args)
  have h₁ : meaning "revert" "--no-edit" = ["--no-edit"] := by rfl
  rw [hread, revertKept, ← hrevisions, ← hnoEdit]
  rw [← hrevisions] at hops
  refine sequencer_says (.revert s.revisions s.noEdit false false false) habort hcontinue hskip
    ?_ ?_ rfl rfl rfl
  · split_ifs at hop ⊢ <;> exact Except.ok.inj hop
  · refine says_iff.mpr ⟨rfl, ?_, ?_⟩
    · simp [hops.options, h₁]
    · simp [hops.words]

end History

section Argv

/-- The operation of a subcommand says what is listed for it, or keeps the arguments. -/
theorem parseSubcommand_says (h : parseSubcommand canonicalize argv sub args = .ok op) :
    SaysOrKeeps argv sub op (subcommandKept sub args) := by
  unfold parseSubcommand at h
  split at h
  · exact parseStatus_says h
  · exact parseDiff_says h
  · exact parseShow_says h
  · exact parseLog_says h
  · exact parseBlame_says h
  · exact parseBranch_says h
  · exact parseTag_says h
  · exact parseRemote_says h
  · exact parseStash_says h
  · exact parseCheckout_says h
  · exact parseSwitch_says h
  · exact parseRestore_says h
  · exact parseCommit_says h
  · exact parseAdd_says h
  · exact parseReset_says h
  · exact parseClean_says h
  · exact parseMerge_says h
  · exact parseRebase_says h
  · exact parseCherryPick_says h
  · exact parseRevert_says h
  · exact parseFetch_says h
  · exact parsePull_says h
  · exact parsePush_says h
  · exact parseConfig_says h
  · exact parseWorktree_says h
  · cases h
    unfold subcommandKept
    split
    case h_26 => rfl
    all_goals contradiction

/-- The argument vector is kept as it is, or has no global options, and each of its options and
words stands in the rendering of the operation. -/
def DropsNothing (argv : List String) (op : GitOperation) : Prop :=
  (∃ risk, op = .managedGitArgv argv risk) ∨
    ∃ inv ∈ invocation argv, argv = "git" :: inv.sub :: inv.args ∧
      (op.kept inv.sub).Covers inv.sub (readArgs inv.sub inv.args)

/-- The arguments are kept as they are, or there are no global options and each option and word
is one that the parser of the subcommand has a place for. -/
def HasPlaces (argv : List String) : Prop :=
  ∀ inv ∈ invocation argv, inv.hasDashC = false → ∀ k ∈ subcommandKept inv.sub inv.args,
    argv = "git" :: inv.sub :: inv.args ∧ k.Covers inv.sub (readArgs inv.sub inv.args)

end Argv

end Codegg.Git
