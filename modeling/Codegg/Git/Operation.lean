import Codegg.Git.Names

/-!
# Git operations

The typed operations an argument vector is parsed into. One that is kept as it stands carries its
risk classes.
-/
namespace Codegg.Git

inductive GitRiskClass
  | readOnly
  | indexMutation
  | worktreeMutation
  | refMutation
  | historyIntegration
  | networkRead
  | networkWrite
  | repositoryConfigMutation
  | destructiveWorktree
  | destructiveHistory
  | outsideProject
  deriving DecidableEq

/-- The risk classes of an operation. -/
structure RiskSet where
  classes : List GitRiskClass
  deriving DecidableEq

inductive ResetMode
  | soft
  | mixed
  | hard
  | merge
  | keep
  deriving DecidableEq

def ResetMode.text : ResetMode → String
  | .soft => "--soft"
  | .mixed => "--mixed"
  | .hard => "--hard"
  | .merge => "--merge"
  | .keep => "--keep"

/-- A URL whose raw value only the rendering of an argument vector reads. -/
structure RedactedUrl where
  raw : String
  deriving DecidableEq

inductive GitOperation
  | status (short : Bool)
  | diff (staged stat nameOnly : Bool) (baseRef : Option RevisionExpr) (paths : List RepoPath)
  | diffStaged (stat nameOnly : Bool) (paths : List RepoPath)
  | show (rev : RevisionExpr)
  | log (oneline : Bool) (maxCount : Option Nat) (paths : List RepoPath)
  | blame (path : RepoPath)
  | changedFiles (baseRef : Option RevisionExpr)
  | branchList (remotes all : Bool)
  | remoteList
  | remoteGetUrl (remote : RemoteName)
  | tagList
  | worktreeList
  | add (paths : List RepoPath)
  | reset (mode : ResetMode) (paths : Option (List RepoPath)) (rev : Option RevisionExpr)
  | commit (message : String) (amend allowEmpty : Bool)
  | stashList
  | stashShow (stash : Option RevisionExpr)
  | stashPush (message : Option String) (includeUntracked : Bool) (paths : List Pathspec)
  | stashApply (stash : Option RevisionExpr) (index : Bool)
  | stashPop (stash : Option RevisionExpr) (index : Bool)
  | stashDrop (stash : RevisionExpr)
  | checkout (target : Option String) (paths : Option (List RepoPath)) (create force : Bool)
  | switch (branch : BranchName) (create force detach : Bool)
  | restore (staged : Bool) (paths : List RepoPath) (source : Option String) (worktree : Bool)
  | branchCreate (name : BranchName) (startPoint : Option String) (force : Bool)
  | branchDelete (name : BranchName) (force : Bool)
  | branchRename (old new : BranchName) (force : Bool)
  | tagCreate (name : String) (rev message : Option String) (annotated : Bool)
  | tagDelete (name : String)
  | tagForceDelete (name : String)
  | merge (revisions : List String) (noFf : Bool) (strategy : Option String) (abort : Bool)
  | rebase (upstream onto : Option String) (interactive abort continueOp skip : Bool)
  | cherryPick (revisions : List String) (continueOp abort skip : Bool)
  | revert (revisions : List String) (noEdit continueOp abort skip : Bool)
  | fetch (remote : Option RemoteName) (refspecs : List String) (all : Bool)
  | pull (remote : Option RemoteName) (branch : Option String) (rebase ffOnly : Bool)
  | push (remote : Option RemoteName) (branch : Option String)
      (setUpstream force forceWithLease tags delete : Bool)
  | resetHard (rev : Option String)
  | resetMixed (rev : Option String)
  | resetSoft (rev : Option String)
  | resetMerge (rev : Option String)
  | resetKeep (rev : Option String)
  | clean (force dryRun dirs ignored : Bool) (paths : List Pathspec)
  | remoteAdd (name : RemoteName) (url : RedactedUrl)
  | remoteRemove (name : RemoteName)
  | remoteSetUrl (name : RemoteName) (url : RedactedUrl) (append : Bool)
  | configGet (key : String) (inGlobal inLocal : Bool)
  | configSet (key value : String) (inGlobal inLocal : Bool)
  | configUnset (key : String) (inGlobal inLocal : Bool)
  | abort
  | continue
  | skip
  | managedGitArgv (argv : List String) (risk : RiskSet)
  | rawShellRequired (argv : List String)
  deriving DecidableEq

end Codegg.Git
