import Codegg.Git.Operation
import Codegg.Library.ArgScan

/-!
# The parser of git argument vectors

An argument vector is already cut into words. Global options come first, then the subcommand,
whose own parser reads what is left.
-/
namespace Codegg.Git

open Codegg.Library.ArgScan

inductive ParseError
  | malformedArgv (reason : String)
  | unsafePath (path reason : String)
  | missingRequiredArgument (argument : String)
  deriving DecidableEq

/-- The fallback that keeps the argument vector, with the risk of a worktree and history
mutation. -/
def managedFallback (argv : List String) : GitOperation :=
  .managedGitArgv argv ⟨[.worktreeMutation, .historyIntegration]⟩

def managedOutsideProject (argv : List String) : GitOperation :=
  .managedGitArgv argv ⟨[.worktreeMutation, .historyIntegration, .outsideProject]⟩

section Words

/-- Rust's `u32::from_str`. -/
def parseU32 (s : String) : Option Nat :=
  let digits := match s.toList with
    | '+' :: ds => ds
    | ds => ds
  if digits ≠ [] ∧ ∀ d ∈ digits, d.isDigit then
    let n := digits.foldl (fun n d => 10 * n + (d.toNat - '0'.toNat)) 0
    if n < 2 ^ 32 then some n else none
  else none

def toBranchName (s : String) : Except ParseError BranchName :=
  (BranchName.new s).mapError fun e => .malformedArgv e.text

def toRemoteName (s : String) : Except ParseError RemoteName :=
  (RemoteName.new s).mapError fun e => .malformedArgv e.text

def toRevisionExpr (s : String) : Except ParseError RevisionExpr :=
  (RevisionExpr.new s).mapError fun e => .malformedArgv e.text

def toPathspec (s : String) : Except ParseError Pathspec :=
  (Pathspec.new s).mapError fun e => .unsafePath s e.text

def toRepoPath (canonicalize : Canonicalize) (s : String) : Except ParseError RepoPath :=
  (RepoPath.new canonicalize s).mapError fun e => .unsafePath s e.text

def collectPathsAfterDoubleDash (canonicalize : Canonicalize) (args : List String) :
    Except ParseError (List RepoPath) :=
  args.mapM (toRepoPath canonicalize)

def collectPathspecsAfterDoubleDash (args : List String) : Except ParseError (List Pathspec) :=
  args.mapM toPathspec

/-- `ctx.next_arg()` where the argument is required. -/
def required (argument : String) : Option String → Except ParseError String
  | some arg => .ok arg
  | none => .error (.missingRequiredArgument argument)

end Words

abbrev Outcome := Except ParseError GitOperation

variable (canonicalize : Canonicalize)

section Inspection

def statusStep (short : Bool) (arg : String) : Step ParseError Bool String :=
  if arg = "--short" ∨ arg = "-s" then .next true
  else if arg ∈ ["--porcelain", "-b", "--long", "--branch", "--ignored", "--untracked-files",
      "-u", "--show-stash", "--verbose", "-v"] then .next short
  else if isFlag arg then .next short
  else .next short

def parseStatus (args : List String) : Outcome := do
  let short ← scan statusStep false args
  return .status short

structure DiffArgs where
  staged : Bool := false
  stat : Bool := false
  nameOnly : Bool := false
  baseRef : Option RevisionExpr := none
  paths : List RepoPath := []

def diffStep (s : DiffArgs) (arg : String) : Step ParseError DiffArgs String :=
  if arg = "--staged" ∨ arg = "--cached" then .next { s with staged := true }
  else if arg = "--stat" then .next { s with stat := true }
  else if arg = "--name-only" then .next { s with nameOnly := true }
  else if isDoubleDash arg then
    .rest fun rest => do
      let paths ← collectPathsAfterDoubleDash canonicalize rest
      return { s with paths }
  else if !isFlag arg then
    match s.baseRef with
    | none => .attempt do
        let rev ← toRevisionExpr arg
        return { s with baseRef := some rev }
    | some _ => .attempt do
        let path ← toRepoPath canonicalize arg
        return { s with paths := s.paths ++ [path] }
  else .next s

def parseDiff (args : List String) : Outcome := do
  let s ← scan (diffStep canonicalize) {} args
  if s.staged then
    return .diffStaged s.stat s.nameOnly s.paths
  else
    return .diff false s.stat s.nameOnly s.baseRef s.paths

def parseShow (args : List String) : Outcome := do
  let rev ← required "revision" args[0]?
  let rev ← toRevisionExpr rev
  return .show rev

structure LogArgs where
  oneline : Bool := false
  maxCount : Option Nat := none
  paths : List RepoPath := []

def logStep (s : LogArgs) (arg : String) : Step ParseError LogArgs String :=
  if arg = "--oneline" then .next { s with oneline := true }
  else if arg = "-n" ∨ arg = "--max-count" then
    .one fun val => do
      let val ← required "-n <count>" val
      return { s with maxCount := parseU32 val }
  else if isDoubleDash arg then
    .rest fun rest => do
      let paths ← collectPathsAfterDoubleDash canonicalize rest
      return { s with paths }
  else if !isFlag arg then
    .attempt do
      let path ← toRepoPath canonicalize arg
      return { s with paths := s.paths ++ [path] }
  else .next s

def parseLog (args : List String) : Outcome := do
  let s ← scan (logStep canonicalize) {} args
  return .log s.oneline s.maxCount s.paths

def parseBlame (args : List String) : Outcome := do
  let path ← required "path" args[0]?
  let path ← toRepoPath canonicalize path
  return .blame path

end Inspection

section Refs

structure BranchArgs where
  all : Bool := false
  remotes : Bool := false
  deleteFlag : Bool := false
  forceDelete : Bool := false
  renameOld : Option String := none
  renameNew : Option String := none
  createName : Option String := none
  startPoint : Option String := none
  /-- What the loop returned from inside. -/
  returned : Option GitOperation := none

def branchStep (s : BranchArgs) (arg : String) : Step ParseError BranchArgs String :=
  if arg = "--all" ∨ isShortFlag arg 'a' then .next { s with all := true }
  else if arg = "--remotes" ∨ isShortFlag arg 'r' then .next { s with remotes := true }
  else if arg = "--delete" ∨ isShortFlag arg 'd' then .next { s with deleteFlag := true }
  else if arg = "--force" ∨ isShortFlag arg 'D' then .next { s with forceDelete := true }
  else if arg = "--move" ∨ isShortFlag arg 'm' then
    .two fun old new =>
      .ok { s with renameOld := old.or s.renameOld, renameNew := new.or s.renameNew }
  else if arg = "--copy" ∨ isShortFlag arg 'b' ∨ isShortFlag arg 'c' then
    .two fun name startPoint =>
      .ok { s with
        createName := name.or s.createName
        startPoint := startPoint.or s.startPoint }
  else if !isFlag arg then
    if s.deleteFlag ∧ !s.forceDelete then
      .rest fun _ => do
        let name ← toBranchName arg
        return { s with returned := some (.branchDelete name false) }
    else if s.forceDelete then
      .rest fun _ => do
        let name ← toBranchName arg
        return { s with returned := some (.branchDelete name true) }
    else if s.createName.isSome then .next s
    else if s.renameOld.isNone then .next { s with createName := some arg }
    else .next s
  else .next s

def parseBranch (args : List String) : Outcome := do
  let s ← scan branchStep {} args
  if let some op := s.returned then
    return op
  if let (some old, some new) := (s.renameOld, s.renameNew) then
    let old ← toBranchName old
    let new ← toBranchName new
    return .branchRename old new false
  if let some name := s.createName then
    let name ← toBranchName name
    return .branchCreate name s.startPoint s.forceDelete
  return .branchList s.remotes s.all

structure TagArgs where
  list : Bool := false
  delete : Bool := false
  forceDelete : Bool := false
  annotated : Bool := false
  name : Option String := none
  rev : Option String := none
  message : Option String := none
  /-- What the loop returned from inside. -/
  returned : Option GitOperation := none

def tagStep (s : TagArgs) (arg : String) : Step ParseError TagArgs String :=
  if arg = "--list" ∨ isShortFlag arg 'l' then .next { s with list := true }
  else if arg = "--delete" ∨ isShortFlag arg 'd' then .next { s with delete := true }
  else if arg = "--force" ∨ isShortFlag arg 'f' then .next { s with forceDelete := true }
  else if arg = "--annotate" ∨ isShortFlag arg 'a' then .next { s with annotated := true }
  else if arg = "--message" ∨ isShortFlag arg 'm' then
    .one fun message => .ok { s with message := message.or s.message }
  else if !isFlag arg then
    if s.delete ∨ s.forceDelete then
      .rest fun _ => .ok { s with
        returned := some (if s.forceDelete then .tagForceDelete arg else .tagDelete arg) }
    else if s.name.isNone then .next { s with name := some arg }
    else if s.rev.isNone then .next { s with rev := some arg }
    else .next s
  else .next s

def parseTag (args : List String) : Outcome := do
  let s ← scan tagStep {} args
  if let some op := s.returned then
    return op
  if s.list ∨ (s.name.isNone ∧ !s.delete ∧ !s.forceDelete) then
    return .tagList
  if let some name := s.name then
    return .tagCreate name s.rev s.message s.annotated
  return .tagList

structure SetUrlArgs where
  append : Bool := false
  found : Option (RemoteName × RedactedUrl) := none

def setUrlStep (s : SetUrlArgs) (arg : String) : Step ParseError SetUrlArgs String :=
  if arg = "--add" then .next { s with append := true }
  else if !isFlag arg then
    .rest fun rest => do
      let url ← required "remote url" rest[0]?
      let name ← toRemoteName arg
      return { s with found := some (name, ⟨url⟩) }
  else .next s

def parseRemote (argv args : List String) : Outcome :=
  match args with
  | [] => .ok .remoteList
  | sub :: args =>
    if sub = "-v" ∨ sub = "--verbose" then .ok .remoteList
    else if sub = "add" then do
      let name ← required "remote name" args[0]?
      let url ← required "remote url" args[1]?
      let name ← toRemoteName name
      return .remoteAdd name ⟨url⟩
    else if sub = "remove" ∨ sub = "rm" then do
      let name ← required "remote name" args[0]?
      let name ← toRemoteName name
      return .remoteRemove name
    else if sub = "set-url" then do
      let s ← scan setUrlStep {} args
      match s.found with
      | some (name, url) => return .remoteSetUrl name url s.append
      | none => throw (.missingRequiredArgument "remote name and url")
    else if sub = "get-url" then do
      let name ← required "remote name" args[0]?
      let name ← toRemoteName name
      return .remoteGetUrl name
    else .ok (managedFallback argv)

end Refs

section Stash

structure StashPushArgs where
  message : Option String := none
  includeUntracked : Bool := false
  paths : List Pathspec := []

def stashPushStep (s : StashPushArgs) (arg : String) : Step ParseError StashPushArgs String :=
  if arg = "--message" ∨ isShortFlag arg 'm' then
    .one fun message => do
      let message ← required "stash message" message
      return { s with message := some message }
  else if arg = "--include-untracked" ∨ isShortFlag arg 'u' then
    .next { s with includeUntracked := true }
  else if isDoubleDash arg then
    .rest fun rest => do
      let paths ← collectPathspecsAfterDoubleDash rest
      return { s with paths }
  else if !isFlag arg then
    .attempt do
      let path ← toPathspec arg
      return { s with paths := s.paths ++ [path] }
  else .next s

/-- `peek_non_flag`: the first operand, wherever it stands. -/
def peekNonFlag (args : List String) : Option String := args.find? fun arg => !isFlag arg

def stashIndexStep (index : Bool) (arg : String) : Step ParseError Bool String :=
  if arg = "--index" ∨ isShortFlag arg 'i' then .next true else .next index

/-- The arguments of `stash apply` and `stash pop`. -/
def parseStashRestore (op : Option RevisionExpr → Bool → GitOperation) (args : List String) :
    Outcome := do
  let index ← scan stashIndexStep false args
  let stash ← (peekNonFlag args).mapM toRevisionExpr
  return op stash index

def parseStash (argv args : List String) : Outcome :=
  match args with
  | [] => .ok .stashList
  | sub :: args =>
    if sub = "list" then .ok .stashList
    else if sub = "show" then
      match args with
      | [] => .ok (.stashShow none)
      | arg :: _ =>
        if isFlag arg then .ok (.stashShow none)
        else do
          let stash ← toRevisionExpr arg
          return .stashShow (some stash)
    else if sub = "push" then do
      let s ← scan stashPushStep {} args
      return .stashPush s.message s.includeUntracked s.paths
    else if sub = "apply" then parseStashRestore .stashApply args
    else if sub = "pop" then parseStashRestore .stashPop args
    else if sub = "drop" then do
      let stash ← required "stash ref" args[0]?
      let stash ← toRevisionExpr stash
      return .stashDrop stash
    else .ok (managedFallback argv)

end Stash

section Worktree

structure CheckoutArgs where
  create : Bool := false
  force : Bool := false
  target : Option String := none
  paths : Option (List RepoPath) := none

/-- What follows the first path that is an operand: more paths, and flags between them. -/
def checkoutPathStep (s : CheckoutArgs) (arg : String) : Step ParseError CheckoutArgs String :=
  if isFlag arg then
    if arg = "--force" ∨ isShortFlag arg 'f' then .next { s with force := true } else .next s
  else
    .attempt do
      let path ← toRepoPath canonicalize arg
      return { s with paths := some (s.paths.getD [] ++ [path]) }

def checkoutStep (s : CheckoutArgs) (arg : String) : Step ParseError CheckoutArgs String :=
  if arg = "--force" ∨ isShortFlag arg 'f' then .next { s with force := true }
  else if arg = "--detach" then .next s
  else if arg = "--new-branch" ∨ isShortFlag arg 'b' then
    .one fun name => .ok { s with create := true, target := name.or s.target }
  else if isDoubleDash arg then
    .rest fun rest => do
      let paths ← collectPathsAfterDoubleDash canonicalize rest
      return { s with paths := some paths }
  else if !isFlag arg then
    if s.target.isNone ∧ !s.create then .next { s with target := some arg }
    else
      .rest fun rest => do
        let path ← toRepoPath canonicalize arg
        scan (checkoutPathStep canonicalize) { s with paths := some [path] } rest
  else .next s

def parseCheckout (args : List String) : Outcome := do
  let s ← scan (checkoutStep canonicalize) {} args
  return .checkout s.target s.paths s.create s.force

structure SwitchArgs where
  create : Bool := false
  force : Bool := false
  detach : Bool := false
  branch : Option String := none

def switchStep (s : SwitchArgs) (arg : String) : Step ParseError SwitchArgs String :=
  if arg = "--force" ∨ isShortFlag arg 'f' then .next { s with force := true }
  else if arg = "--detach" then .next { s with detach := true }
  else if arg = "--create" ∨ isShortFlag arg 'c' then
    .one fun name => .ok { s with create := true, branch := name.or s.branch }
  else if arg = "--orphan" ∨ isShortFlag arg 'C' then
    .one fun name => .ok { s with create := true, force := true, branch := name.or s.branch }
  else if !isFlag arg then .next { s with branch := some arg }
  else .next s

def parseSwitch (args : List String) : Outcome := do
  let s ← scan switchStep {} args
  let branch ← required "branch name" s.branch
  let branch ← toBranchName branch
  return .switch branch s.create s.force s.detach

structure RestoreArgs where
  staged : Bool := false
  source : Option String := none
  worktree : Bool := false
  paths : List RepoPath := []

def restoreStep (s : RestoreArgs) (arg : String) : Step ParseError RestoreArgs String :=
  if arg = "--staged" then .next { s with staged := true }
  else if arg = "--source" then
    .one fun source => do
      let source ← required "--source <rev>" source
      return { s with source := some source }
  else if arg = "--worktree" then .next { s with worktree := true }
  else if isDoubleDash arg then
    .rest fun rest => do
      let paths ← collectPathsAfterDoubleDash canonicalize rest
      return { s with paths }
  else if !isFlag arg then
    .attempt do
      let path ← toRepoPath canonicalize arg
      return { s with paths := s.paths ++ [path] }
  else .next s

def parseRestore (args : List String) : Outcome := do
  let s ← scan (restoreStep canonicalize) {} args
  return .restore s.staged s.paths s.source s.worktree

structure CommitArgs where
  message : String := ""
  amend : Bool := false
  allowEmpty : Bool := false

def commitStep (s : CommitArgs) (arg : String) : Step ParseError CommitArgs String :=
  if arg = "--message" ∨ isShortFlag arg 'm' then
    .one fun message => do
      let message ← required "--message <msg>" message
      return { s with message }
  else if arg = "--amend" then .next { s with amend := true }
  else if arg = "--allow-empty" then .next { s with allowEmpty := true }
  else .next s

def parseCommit (args : List String) : Outcome := do
  let s ← scan commitStep {} args
  return .commit s.message s.amend s.allowEmpty

def addStep (paths : List RepoPath) (arg : String) : Step ParseError (List RepoPath) String :=
  if isDoubleDash arg then .rest (collectPathsAfterDoubleDash canonicalize)
  else if !isFlag arg then
    .attempt do
      let path ← toRepoPath canonicalize arg
      return paths ++ [path]
  else .next paths

def parseAdd (args : List String) : Outcome := do
  let paths ← scan (addStep canonicalize) [] args
  return .add paths

structure ResetArgs where
  mode : Option ResetMode := none
  rev : Option String := none
  paths : List RepoPath := []

def resetStep (s : ResetArgs) (arg : String) : Step ParseError ResetArgs String :=
  if arg = "--soft" then .next { s with mode := some .soft }
  else if arg = "--mixed" then .next { s with mode := some .mixed }
  else if arg = "--hard" then .next { s with mode := some .hard }
  else if arg = "--merge" then .next { s with mode := some .merge }
  else if arg = "--keep" then .next { s with mode := some .keep }
  else if isDoubleDash arg then
    .rest fun rest => do
      let paths ← collectPathsAfterDoubleDash canonicalize rest
      return { s with paths }
  else if !isFlag arg then
    if s.rev.isNone then .next { s with rev := some arg }
    else
      .attempt do
        let path ← toRepoPath canonicalize arg
        return { s with paths := s.paths ++ [path] }
  else .next s

def parseReset (args : List String) : Outcome := do
  let s ← scan (resetStep canonicalize) {} args
  match s.mode.getD .mixed with
  | .soft => return .resetSoft s.rev
  | .mixed =>
    if s.paths.isEmpty then
      return .resetMixed s.rev
    else
      let rev ← s.rev.mapM toRevisionExpr
      return .reset .mixed (some s.paths) rev
  | .hard => return .resetHard s.rev
  | .merge => return .resetMerge s.rev
  | .keep => return .resetKeep s.rev

structure CleanArgs where
  force : Bool := false
  dryRun : Bool := false
  dirs : Bool := false
  ignored : Bool := false
  paths : List Pathspec := []

def cleanFlag (s : CleanArgs) : Char → CleanArgs
  | 'f' => { s with force := true }
  | 'n' => { s with dryRun := true }
  | 'd' => { s with dirs := true }
  | 'x' => { s with ignored := true }
  | _ => s

def cleanStep (s : CleanArgs) (arg : String) : Step ParseError CleanArgs String :=
  if isDoubleDash arg then
    .rest fun rest => do
      let paths ← collectPathspecsAfterDoubleDash rest
      return { s with paths }
  else if ['-'] <+: arg.toList ∧ ¬['-', '-'] <+: arg.toList then
    .next (arg.toList.tail.foldl cleanFlag s)
  else if arg = "--force" then .next { s with force := true }
  else if arg = "--dry-run" then .next { s with dryRun := true }
  else if arg = "--dirs" then .next { s with dirs := true }
  else if arg = "--ignored" then .next { s with ignored := true }
  else if !isFlag arg then
    .attempt do
      let path ← toPathspec arg
      return { s with paths := s.paths ++ [path] }
  else .next s

def parseClean (args : List String) : Outcome := do
  let s ← scan cleanStep {} args
  return .clean s.force s.dryRun s.dirs s.ignored s.paths

end Worktree

section History

structure MergeArgs where
  noFf : Bool := false
  strategy : Option String := none
  abort : Bool := false
  continueOp : Bool := false
  revisions : List String := []

/-- The flags of `git merge` that its parser knows and does nothing with. -/
def isIgnoredMergeFlag (arg : String) : Bool :=
  arg ∈ ["--squash", "--no-commit", "--no-ff", "--ff-only", "--edit", "-e", "--no-edit",
    "--signoff", "-s", "--gpg-sign", "-S", "--stat", "--no-stat", "--summary",
    "--no-summary", "--progress", "--no-progress", "--quiet", "--verbose"] ∨
    isShortFlag arg 'q' ∨ isShortFlag arg 'v'

def mergeStep (s : MergeArgs) (arg : String) : Step ParseError MergeArgs String :=
  if arg = "--no-ff" then .next { s with noFf := true }
  else if arg = "--strategy" ∨ arg = "--strategy-option" then
    .one fun name => do
      let name ← required "--strategy <name>" name
      return { s with strategy := some name }
  else if arg = "--abort" then .next { s with abort := true }
  else if arg = "--continue" then .next { s with continueOp := true }
  else if isIgnoredMergeFlag arg then .next s
  else if arg = "--" then .rest fun rest => .ok { s with revisions := s.revisions ++ rest }
  else if !isFlag arg then .next { s with revisions := s.revisions ++ [arg] }
  else .next s

def parseMerge (args : List String) : Outcome := do
  let s ← scan mergeStep {} args
  if s.abort then return .abort
  if s.continueOp then return .continue
  return .merge s.revisions s.noFf s.strategy false

structure RebaseArgs where
  interactive : Bool := false
  abort : Bool := false
  continueOp : Bool := false
  skip : Bool := false
  onto : Option String := none
  upstream : Option String := none

/-- The flags of `git rebase` that its parser knows and does nothing with. -/
def isIgnoredRebaseFlag (arg : String) : Bool :=
  arg ∈ ["--autosquash", "--no-autosquash", "--autostash", "--no-autostash",
    "--keep-empty", "--no-keep-empty", "--rebase-merges", "--no-rebase-merges", "--exec",
    "--edit", "--no-edit", "--root", "--verify", "--quiet", "--verbose"] ∨
    isShortFlag arg 'x' ∨ isShortFlag arg 'e' ∨ isShortFlag arg 'v' ∨
    isShortFlag arg 'q'

def rebaseStep (s : RebaseArgs) (arg : String) : Step ParseError RebaseArgs String :=
  if arg = "--interactive" ∨ isShortFlag arg 'i' then .next { s with interactive := true }
  else if arg = "--abort" then .next { s with abort := true }
  else if arg = "--continue" then .next { s with continueOp := true }
  else if arg = "--skip" then .next { s with skip := true }
  else if arg = "--onto" then
    .one fun target => do
      let target ← required "--onto <target>" target
      return { s with onto := some target }
  else if isIgnoredRebaseFlag arg then .next s
  else if arg = "--" then .rest fun rest => .ok { s with upstream := s.upstream.or rest.head? }
  else if !isFlag arg ∧ s.upstream.isNone then .next { s with upstream := some arg }
  else .next s

def parseRebase (args : List String) : Outcome := do
  let s ← scan rebaseStep {} args
  if s.abort then return .abort
  if s.continueOp then return .continue
  if s.skip then return .skip
  return .rebase s.upstream s.onto s.interactive false false false

structure SequencerArgs where
  noEdit : Bool := false
  continueOp : Bool := false
  abort : Bool := false
  skip : Bool := false
  revisions : List String := []

/-- The flags of `git cherry-pick` that its parser knows and does nothing with. -/
def isIgnoredCherryPickFlag (arg : String) : Bool :=
  arg ∈ ["--no-commit", "-n", "--signoff", "--edit", "--no-edit", "-x", "--mainline",
    "--strategy", "--strategy-option", "-X", "--gpg-sign", "--allow-empty",
    "--keep-redundant-commits", "--allow-empty-message", "--append-authors", "-a",
    "--committer-date-is-author-date", "--reset-author-date", "-D"] ∨
    isShortFlag arg 's' ∨ isShortFlag arg 'e' ∨ isShortFlag arg 'm' ∨
    isShortFlag arg 'S'

def cherryPickStep (s : SequencerArgs) (arg : String) : Step ParseError SequencerArgs String :=
  if arg = "--continue" then .next { s with continueOp := true }
  else if arg = "--abort" then .next { s with abort := true }
  else if arg = "--skip" then .next { s with skip := true }
  else if isIgnoredCherryPickFlag arg then .next s
  else if !isFlag arg then .next { s with revisions := s.revisions ++ [arg] }
  else .next s

def parseCherryPick (args : List String) : Outcome := do
  let s ← scan cherryPickStep {} args
  if s.abort then return .abort
  if s.continueOp then return .continue
  if s.skip then return .skip
  return .cherryPick s.revisions false false false

/-- The flags of `git revert` that its parser knows and does nothing with. -/
def isIgnoredRevertFlag (arg : String) : Bool :=
  arg ∈ ["--edit", "--no-commit", "--signoff", "--strategy", "--strategy-option", "-X",
    "--mainline", "--gpg-sign", "--rerere-autoupdate", "--no-rerere-autoupdate", "-F",
    "--file"] ∨ isShortFlag arg 'e' ∨ isShortFlag arg 'n' ∨ isShortFlag arg 's' ∨
    isShortFlag arg 'm' ∨ isShortFlag arg 'S' ∨ isShortFlag arg 'f'

def revertStep (s : SequencerArgs) (arg : String) : Step ParseError SequencerArgs String :=
  if arg = "--no-edit" then .next { s with noEdit := true }
  else if arg = "--continue" then .next { s with continueOp := true }
  else if arg = "--abort" then .next { s with abort := true }
  else if arg = "--skip" then .next { s with skip := true }
  else if isIgnoredRevertFlag arg then .next s
  else if !isFlag arg then .next { s with revisions := s.revisions ++ [arg] }
  else .next s

def parseRevert (args : List String) : Outcome := do
  let s ← scan revertStep {} args
  if s.abort then return .abort
  if s.continueOp then return .continue
  if s.skip then return .skip
  return .revert s.revisions s.noEdit false false false

end History

section Network

structure FetchArgs where
  all : Bool := false
  remote : Option String := none
  refspecs : List String := []

/-- The flags of `git fetch` that its parser knows and does nothing with. -/
def isIgnoredFetchFlag (arg : String) : Bool :=
  arg ∈ ["--tags", "--no-tags", "--prune", "--no-prune", "--depth", "--shallow-since",
    "--shallow-exclude", "--unshallow", "--update-head-ok", "--recurse-submodules",
    "--no-recurse-submodules", "--jobs", "--quiet", "--verbose", "--dry-run", "--force",
    "--multiple", "--atomic", "--set-upstream", "--show-forced-updates",
    "--auto-maintenance", "--no-auto-maintenance", "--auto-gc", "--no-auto-gc",
    "--write-fetch-head", "--no-write-fetch-head", "--ipv4", "--ipv6"] ∨
    isShortFlag arg 'j' ∨ isShortFlag arg 'q' ∨ isShortFlag arg 'v' ∨ isShortFlag arg 'f' ∨
    isShortFlag arg 'u' ∨ isShortFlag arg '4' ∨ isShortFlag arg '6'

def fetchStep (s : FetchArgs) (arg : String) : Step ParseError FetchArgs String :=
  if arg = "--all" ∨ isShortFlag arg 'a' then .next { s with all := true }
  else if isIgnoredFetchFlag arg then .next s
  else if !isFlag arg then
    if s.remote.isNone then .next { s with remote := some arg }
    else .next { s with refspecs := s.refspecs ++ [arg] }
  else .next s

def parseFetch (args : List String) : Outcome := do
  let s ← scan fetchStep {} args
  let remote ← s.remote.mapM toRemoteName
  return .fetch remote s.refspecs s.all

structure PullArgs where
  rebase : Bool := false
  ffOnly : Bool := false
  remote : Option String := none
  branch : Option String := none

/-- The flags of `git pull` that its parser knows and does nothing with. -/
def isIgnoredPullFlag (arg : String) : Bool :=
  arg ∈ ["--no-ff", "--squash", "--no-squash", "--no-commit", "--commit", "--edit",
    "--no-edit", "--no-stat", "--stat", "--quiet", "--verbose", "--depth", "--unshallow",
    "--tags", "--no-tags", "--recurse-submodules", "--no-recurse-submodules", "--all",
    "--dry-run", "--force", "--set-upstream", "--progress", "--no-progress", "--autostash",
    "--no-autostash", "--rebase-merges", "--no-rebase-merges", "--autosquash",
    "--no-autosquash", "--verify", "--strategy-option", "--gpg-sign", "--verify-signatures",
    "--no-verify-signatures", "--allow-unrelated-histories", "--no-rebase", "--autofetch",
    "--no-autofetch", "--show-forced-updates", "--no-show-forced-updates", "--upload-pack",
    "--force-with-lease", "--ipv4", "--ipv6"] ∨
    isShortFlag arg 'e' ∨ isShortFlag arg 'q' ∨ isShortFlag arg 'v' ∨ isShortFlag arg 'a' ∨
    isShortFlag arg 'n' ∨ isShortFlag arg 'f' ∨ isShortFlag arg 'u' ∨ isShortFlag arg 'X' ∨
    isShortFlag arg 'S' ∨ isShortFlag arg 'p' ∨ isShortFlag arg '4' ∨
    isShortFlag arg '6'

def pullStep (s : PullArgs) (arg : String) : Step ParseError PullArgs String :=
  if arg = "--rebase" ∨ isShortFlag arg 'r' then .next { s with rebase := true }
  else if arg = "--ff-only" then .next { s with ffOnly := true }
  else if isIgnoredPullFlag arg then .next s
  else if !isFlag arg then
    if s.remote.isNone then .next { s with remote := some arg }
    else if s.branch.isNone then .next { s with branch := some arg }
    else .next s
  else .next s

def parsePull (args : List String) : Outcome := do
  let s ← scan pullStep {} args
  let remote ← s.remote.mapM toRemoteName
  return .pull remote s.branch s.rebase s.ffOnly

structure PushArgs where
  setUpstream : Bool := false
  force : Bool := false
  forceWithLease : Bool := false
  tags : Bool := false
  delete : Bool := false
  remote : Option String := none
  branch : Option String := none

/-- The flags of `git push` beside `-u` that its parser knows. -/
def isPushFlag (arg : String) : Bool :=
  arg ∈ ["--force", "--force-with-lease", "-f", "--delete", "--tags", "--prune", "--no-prune",
    "--follow-tags", "--signed", "--no-signed", "--dry-run", "--quiet", "--verbose",
    "--receive-pack", "-r", "--force-if-includes", "--no-force-if-includes", "--thin",
    "--no-thin", "--progress", "--no-progress", "--recurse-submodules",
    "--no-recurse-submodules", "--verify", "--ipv4", "--ipv6"] ∨
    isShortFlag arg 'n' ∨ isShortFlag arg 'q' ∨ isShortFlag arg 'v' ∨ isShortFlag arg '4' ∨
    isShortFlag arg '6'

def pushStep (s : PushArgs) (arg : String) : Step ParseError PushArgs String :=
  if arg = "--set-upstream" ∨ isShortFlag arg 'u' then .next { s with setUpstream := true }
  else if isPushFlag arg then
    .next { s with
      force := s.force || arg = "--force" || isShortFlag arg 'f'
      forceWithLease := s.forceWithLease || arg = "--force-with-lease"
      delete := s.delete || arg = "--delete"
      tags := s.tags || arg = "--tags" }
  else if !isFlag arg then
    if s.remote.isNone then .next { s with remote := some arg }
    else if s.branch.isNone then .next { s with branch := some arg }
    else .next s
  else .next s

def parsePush (args : List String) : Outcome := do
  let s ← scan pushStep {} args
  let remote ← s.remote.mapM toRemoteName
  return .push remote s.branch s.setUpstream s.force s.forceWithLease s.tags s.delete

end Network

section Config

structure ConfigArgs where
  inGlobal : Bool := false
  inLocal : Bool := false
  key : Option String := none
  value : Option String := none
  unset : Bool := false
  get : Bool := false

/-- The flags of `git config` that its parser knows and does nothing with. -/
def isIgnoredConfigFlag (arg : String) : Bool :=
  arg ∈ ["--list", "--edit", "--show-origin", "--show-scope", "--fixed-value", "--type",
    "--int", "--bool", "--bool-or-int", "--path", "--expiry-date", "--no-type", "--null",
    "--name-only", "--includes", "--no-includes", "--default"] ∨
    isShortFlag arg 'l' ∨ isShortFlag arg 'e' ∨ isShortFlag arg 'o' ∨ isShortFlag arg 't' ∨
    isShortFlag arg 'z' ∨ isShortFlag arg 'n'

def configStep (s : ConfigArgs) (arg : String) : Step ParseError ConfigArgs String :=
  if arg = "--global" ∨ isShortFlag arg 'g' then .next { s with inGlobal := true }
  else if arg = "--local" then .next { s with inLocal := true }
  else if arg = "--unset" then .next { s with unset := true }
  else if arg = "--get" then .next { s with get := true }
  else if isIgnoredConfigFlag arg then .next s
  else if !isFlag arg then
    if s.key.isNone then .next { s with key := some arg }
    else if s.value.isNone then .next { s with value := some arg }
    else .next s
  else .next s

def parseConfig (argv args : List String) : Outcome := do
  let s ← scan configStep {} args
  if s.unset then
    if let some key := s.key then
      return .configUnset key s.inGlobal s.inLocal
  else if s.get ∨ s.value.isNone then
    if let some key := s.key then
      return .configGet key s.inGlobal s.inLocal
  if let (some key, some value) := (s.key, s.value) then
    return .configSet key value s.inGlobal s.inLocal
  return managedFallback argv

def parseWorktree (argv args : List String) : Outcome :=
  match args.head? with
  | some sub =>
    if sub = "list" then .ok .worktreeList
    else if sub ∈ ["add", "remove", "move", "lock", "unlock"] then .ok (managedFallback argv)
    else .ok .worktreeList
  | none => .ok .worktreeList

end Config

section Argv

def parseSubcommand (argv : List String) (sub : String) (args : List String) : Outcome :=
  match sub with
  | "status" => parseStatus args
  | "diff" => parseDiff canonicalize args
  | "show" => parseShow args
  | "log" => parseLog canonicalize args
  | "blame" => parseBlame canonicalize args
  | "branch" => parseBranch args
  | "tag" => parseTag args
  | "remote" => parseRemote argv args
  | "stash" => parseStash argv args
  | "checkout" => parseCheckout canonicalize args
  | "switch" => parseSwitch args
  | "restore" => parseRestore canonicalize args
  | "commit" => parseCommit args
  | "add" => parseAdd canonicalize args
  | "reset" => parseReset canonicalize args
  | "clean" => parseClean args
  | "merge" => parseMerge args
  | "rebase" => parseRebase args
  | "cherry-pick" => parseCherryPick args
  | "revert" => parseRevert args
  | "fetch" => parseFetch args
  | "pull" => parsePull args
  | "push" => parsePush args
  | "config" => parseConfig argv args
  | "worktree" => parseWorktree argv args
  | _ => .ok (managedFallback argv)

structure Globals where
  hasDashC : Bool := false
  /-- The subcommand and its arguments. -/
  rest : List String

/-- Reads the global options before the subcommand. Only that `-C` was there is kept. -/
def consumeGlobalOptions : Bool → List String → Except ParseError Globals
  | hasDashC, arg :: args =>
    if arg = "-C" then
      match args with
      | [] => .error (.missingRequiredArgument "-C <path>")
      | _ :: args => consumeGlobalOptions true args
    else if arg = "--git-dir" then
      match args with
      | [] => .error (.missingRequiredArgument "--git-dir <path>")
      | _ :: args => consumeGlobalOptions hasDashC args
    else if arg = "--work-tree" then
      match args with
      | [] => .error (.missingRequiredArgument "--work-tree <path>")
      | _ :: args => consumeGlobalOptions hasDashC args
    else .ok ⟨hasDashC, arg :: args⟩
  | hasDashC, [] => .ok ⟨hasDashC, []⟩

def parseGitArgv (argv : List String) : Outcome :=
  match argv with
  | [] => .error (.malformedArgv "empty argv")
  | git :: args => do
    if git ≠ "git" then
      throw (.malformedArgv ("expected 'git' executable, got '" ++ git ++ "'"))
    let globals ← consumeGlobalOptions false args
    match globals.rest with
    | [] => throw (.malformedArgv "missing subcommand")
    | sub :: args =>
      let op ← parseSubcommand canonicalize argv sub args
      if globals.hasDashC then
        return managedOutsideProject argv
      return op

end Argv

end Codegg.Git
