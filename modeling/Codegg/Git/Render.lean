import Codegg.Git.Operation

/-!
# Rendering operations as argument vectors

Every operation has an argument vector, which starts with `git` and the subcommand. No quoting
is done.
-/
namespace Codegg.Git

open RevisionExpr

/-- A word that is there when `b` holds. -/
def pushIf (b : Bool) (word : String) : List String := if b then [word] else []

/-- An option with its value, if there is one. -/
def pushOption (option : String) (value : Option String) : List String :=
  match value with
  | some value => [option, value]
  | none => []

/-- The separator and the paths, if there are any. -/
def pushPathsAfterDd (paths : List RepoPath) : List String :=
  if paths.isEmpty then [] else "--" :: paths.map RepoPath.text

/-- The separator and the paths, where an operation has paths at all. -/
def pushGivenPaths (paths : Option (List RepoPath)) : List String :=
  match paths with
  | some paths => "--" :: paths.map RepoPath.text
  | none => []

def renderDiff (staged stat nameOnly : Bool) (baseRef : Option RevisionExpr)
    (paths : List RepoPath) : List String :=
  ["git", "diff"] ++ pushIf staged "--staged" ++ pushIf stat "--stat" ++
    pushIf nameOnly "--name-only" ++ (baseRef.map text).toList ++
    pushPathsAfterDd paths

/-- The rendering of `reset` with one of the modes that have an operation of their own. -/
def renderReset (mode : List String) (rev : Option String) : List String :=
  ["git", "reset"] ++ mode ++ rev.toList

/-- A separator before each of the pathspecs. -/
def pushPathspecs (paths : List Pathspec) : List String :=
  paths.flatMap fun path => ["--", path.text]

def renderArgv : GitOperation → List String
  | .status short => ["git", "status"] ++ pushIf short "-s"
  | .diff staged stat nameOnly baseRef paths => renderDiff staged stat nameOnly baseRef paths
  | .diffStaged stat nameOnly paths => renderDiff true stat nameOnly none paths
  | .show rev => ["git", "show", rev.text]
  | .log oneline maxCount paths =>
    ["git", "log"] ++ pushIf oneline "--oneline" ++
      (maxCount.map fun n => "-" ++ toString n).toList ++ pushPathsAfterDd paths
  | .blame path => ["git", "blame", "--", path.text]
  | .changedFiles baseRef =>
    ["git", "diff", "--name-only"] ++ (baseRef.map text).toList
  | .branchList remotes all =>
    ["git", "branch"] ++ if all then ["-a"] else if remotes then ["-r"] else []
  | .remoteList => ["git", "remote"]
  | .remoteGetUrl remote => ["git", "remote", "get-url", remote.text]
  | .tagList => ["git", "tag"]
  | .worktreeList => ["git", "worktree", "list"]
  | .add paths => ["git", "add"] ++ paths.map RepoPath.text
  | .reset mode paths rev =>
    ["git", "reset"] ++ pushIf (mode ≠ .mixed) mode.text ++
      (rev.map text).toList ++ pushGivenPaths paths
  | .commit message amend allowEmpty =>
    ["git", "commit"] ++ pushIf amend "--amend" ++ pushIf allowEmpty "--allow-empty" ++
      ["-m", message]
  | .stashList => ["git", "stash", "list"]
  | .stashShow stash => ["git", "stash", "show"] ++ (stash.map text).toList
  | .stashPush message includeUntracked paths =>
    ["git", "stash", "push"] ++ pushIf includeUntracked "-u" ++
      pushOption "-m" message ++ pushPathspecs paths
  | .stashApply stash index =>
    ["git", "stash", "apply"] ++ pushIf index "--index" ++ (stash.map text).toList
  | .stashPop stash index =>
    ["git", "stash", "pop"] ++ pushIf index "--index" ++ (stash.map text).toList
  | .stashDrop stash => ["git", "stash", "drop", stash.text]
  | .checkout target paths create force =>
    ["git", "checkout"] ++ pushIf create "-b" ++ pushIf force "-f" ++ target.toList ++
      pushGivenPaths paths
  | .switch branch create force detach =>
    ["git", "switch"] ++ pushIf create "-c" ++ pushIf force "-f" ++ pushIf detach "--detach" ++
      [branch.text]
  | .restore staged paths source worktree =>
    ["git", "restore"] ++ pushIf staged "--staged" ++ pushIf worktree "--worktree" ++
      pushOption "--source" source ++ "--" :: paths.map RepoPath.text
  | .branchCreate name startPoint force =>
    ["git", "branch"] ++ pushIf force "-B" ++ [name.text] ++ startPoint.toList
  | .branchDelete name force => ["git", "branch", if force then "-D" else "-d", name.text]
  | .branchRename old new force =>
    ["git", "branch", "-m"] ++ pushIf force "-f" ++ [old.text, new.text]
  | .tagCreate name rev message annotated =>
    ["git", "tag"] ++ pushIf (annotated || message.isSome) "-a" ++ [name] ++ rev.toList ++
      pushOption "-m" message
  | .tagDelete name => ["git", "tag", "-d", name]
  | .tagForceDelete name => ["git", "tag", "-D", name]
  | .merge revisions noFf strategy abort =>
    if abort then ["git", "merge", "--abort"]
    else
      ["git", "merge"] ++ pushIf noFf "--no-ff" ++
        (strategy.map fun s => "--strategy=" ++ s).toList ++ revisions
  | .rebase upstream onto interactive abort continueOp skip =>
    if abort then ["git", "rebase", "--abort"]
    else if continueOp then ["git", "rebase", "--continue"]
    else if skip then ["git", "rebase", "--skip"]
    else
      ["git", "rebase"] ++ pushIf interactive "-i" ++
        pushOption "--onto" onto ++ upstream.toList
  | .cherryPick revisions continueOp abort skip =>
    if abort then ["git", "cherry-pick", "--abort"]
    else if continueOp then ["git", "cherry-pick", "--continue"]
    else if skip then ["git", "cherry-pick", "--skip"]
    else ["git", "cherry-pick"] ++ revisions
  | .revert revisions noEdit continueOp abort skip =>
    if abort then ["git", "revert", "--abort"]
    else if continueOp then ["git", "revert", "--continue"]
    else if skip then ["git", "revert", "--skip"]
    else ["git", "revert"] ++ pushIf noEdit "--no-edit" ++ revisions
  | .fetch remote refspecs all =>
    ["git", "fetch"] ++ pushIf all "--all" ++ (remote.map RemoteName.text).toList ++ refspecs
  | .pull remote branch rebase ffOnly =>
    ["git", "pull"] ++ pushIf rebase "--rebase" ++ pushIf ffOnly "--ff-only" ++
      (remote.map RemoteName.text).toList ++ branch.toList
  | .push remote branch setUpstream force forceWithLease tags delete =>
    ["git", "push"] ++ pushIf setUpstream "-u" ++ pushIf force "--force" ++
      pushIf forceWithLease "--force-with-lease" ++ pushIf tags "--tags" ++
      pushIf delete "--delete" ++ (remote.map RemoteName.text).toList ++ branch.toList
  | .resetHard rev => renderReset ["--hard"] rev
  | .resetMixed rev => renderReset [] rev
  | .resetSoft rev => renderReset ["--soft"] rev
  | .resetMerge rev => renderReset ["--merge"] rev
  | .resetKeep rev => renderReset ["--keep"] rev
  | .clean force dryRun dirs ignored paths =>
    let flags := (if force then ['f'] else []) ++ (if dryRun then ['n'] else []) ++
      (if dirs then ['d'] else []) ++ (if ignored then ['x'] else [])
    ["git", "clean"] ++ pushIf (!flags.isEmpty) ("-" ++ String.ofList flags) ++
      pushPathspecs paths
  | .remoteAdd name url => ["git", "remote", "add", name.text, url.raw]
  | .remoteRemove name => ["git", "remote", "remove", name.text]
  | .remoteSetUrl name url append =>
    ["git", "remote", "set-url"] ++ pushIf append "--add" ++ [name.text, url.raw]
  | .configGet key inGlobal inLocal =>
    ["git", "config"] ++
      (if inGlobal then ["--global"] else if inLocal then ["--local"] else []) ++ [key]
  | .configSet key value inGlobal inLocal =>
    ["git", "config"] ++ pushIf inGlobal "--global" ++ pushIf inLocal "--local" ++ [key, value]
  | .configUnset key inGlobal inLocal =>
    ["git", "config", "--unset"] ++ pushIf inGlobal "--global" ++ pushIf inLocal "--local" ++
      [key]
  | .abort => ["git", "operation", "--abort"]
  | .continue => ["git", "operation", "--continue"]
  | .skip => ["git", "operation", "--skip"]
  | .managedGitArgv argv _ => argv
  | .rawShellRequired argv => argv

end Codegg.Git
