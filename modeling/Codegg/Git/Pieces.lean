import Codegg.Git.Reading.Branch
import Codegg.Git.Reading.Checkout
import Codegg.Git.Reading.History
import Codegg.Git.Reading.Inspection
import Codegg.Git.Reading.Network
import Codegg.Git.Reading.Worktree
import Codegg.Git.Render

/-!
# The pieces of a command line and of a rendering

A rendering consists of options, of operands and of values that belong to an option or stand
behind the separator. An option has a canonical name, so that a long and a short flag that a
parser reads alike, and the letters of a bundle, can be compared.
-/
namespace Codegg.Git

open Codegg.Library.ArgScan GitOperation RevisionExpr

section Options

/-- The options a letter of a bundle stands for. -/
def letterMeaning (sub : String) (c : Char) : List String :=
  match sub, c with
  | "status", 's' => ["--short"]
  | "log", 'n' => ["--max-count"]
  | "branch", 'a' => ["--all"]
  | "branch", 'r' => ["--remotes"]
  | "branch", 'd' => ["--delete"]
  | "branch", 'D' => ["--delete", "--force"]
  | "branch", 'f' => ["--force"]
  | "branch", 'm' => ["--move"]
  | "branch", 'M' => ["--move", "--force"]
  | "branch", 'c' => ["--copy"]
  | "branch", 'C' => ["--copy", "--force"]
  | "tag", 'l' => ["--list"]
  | "tag", 'd' => ["--delete"]
  | "tag", 'f' => ["--force"]
  | "tag", 'a' => ["--annotate"]
  | "tag", 'm' => ["--message"]
  | "remote", 'v' => ["--verbose"]
  | "stash", 'm' => ["--message"]
  | "stash", 'u' => ["--include-untracked"]
  | "stash", 'i' => ["--index"]
  | "checkout", 'f' => ["--force"]
  | "checkout", 'b' => ["--new-branch"]
  | "switch", 'f' => ["--force"]
  | "switch", 'c' => ["--create"]
  | "commit", 'm' => ["--message"]
  | "clean", 'f' => ["--force"]
  | "clean", 'n' => ["--dry-run"]
  | "clean", 'd' => ["--dirs"]
  | "clean", 'x' => ["--ignored"]
  | "rebase", 'i' => ["--interactive"]
  | "fetch", 'a' => ["--all"]
  | "pull", 'r' => ["--rebase"]
  | "push", 'u' => ["--set-upstream"]
  | "push", 'f' => ["--force"]
  | "config", 'g' => ["--global"]
  | _, c => [String.ofList ['-', c]]

/-- The options a flag stands for, by their long names. The separator is none. -/
def meaning (sub word : String) : List String :=
  if isDoubleDash word then []
  else if ['-', '-'] <+: word.toList then
    if sub = "diff" ∧ word = "--cached" then ["--staged"] else [word]
  else word.toList.tail.flatMap (letterMeaning sub)

end Options

section Arguments

/-- How the arguments of a subcommand are cut by its parser. -/
def readArgs (sub : String) (args : List String) : Reading :=
  match sub with
  | "diff" | "add" | "reset" | "clean" => (plain (fun _ => false) true).read false args
  | "log" => (plain isCount true).read false args
  | "branch" => branchGrammar.read false args
  | "tag" => tagGrammar.read false args
  | "stash" =>
    if args.head? = some "push" then (plain isMessage true).read false args
    else (plain (fun _ => false) false).read false args
  | "checkout" => checkoutGrammar.read false args
  | "switch" => (plain takesBranch false).read false args
  | "restore" => (plain (· = "--source") true).read false args
  | "commit" => (plain isMessage false).read false args
  | "merge" => (plain isStrategy true).read false args
  | "rebase" => (plain (· = "--onto") true).read false args
  | _ => (plain (fun _ => false) false).read false args

/-- A count is written as the number it is read as. -/
def countText (word : String) : String := ((parseU32 word).map toString).getD word

/-- The options of an argument; between the words that an operand takes there can be flags. -/
def argOptions (sub : String) (a : Arg String) : List String :=
  if isFlag a.head then meaning sub a.head
  else (a.taken.filter isFlag).flatMap (meaning sub)

/-- The operands and values of an argument. -/
def argWords (sub : String) (a : Arg String) : List String :=
  if isFlag a.head then
    if sub = "log" ∧ isCount a.head then a.taken.map countText else a.taken
  else a.head :: a.taken.filter fun word => !isFlag word

/-- Two spellings of a path, or of a verb of `git remote`, are the same. -/
def spell (sub word : String) : String :=
  normalizePath (if sub = "remote" ∧ word = "rm" then "remove" else word)

@[simp] theorem spell_normalizePath {sub : String} (h : sub ≠ "remote") (word : String) :
    spell sub (normalizePath word) = spell sub word := by
  simp [spell, h]

end Arguments

attribute [local simp] renderArgv

section Renderings

inductive Piece
  | option (text : String)
  /-- An option that is the default of its operation, and not rendered. -/
  | implied (text : String)
  /-- A word that is read as an option if it looks like one. -/
  | operand (text : String)
  | value (text : String)
  | attached (name word : String)
  | count (n : Nat)
  | separator

def Piece.render : Piece → List String
  | .option text | .operand text | .value text => [text]
  | .attached name word => [name ++ "=" ++ word]
  | .count n => ["-" ++ toString n]
  | .separator => ["--"]
  | .implied _ => []

def Piece.options (sub : String) : Piece → List String
  | .option text | .implied text => meaning sub text
  | .operand text => if isFlag text then meaning sub text else []
  | .attached name _ => meaning sub name
  | .count _ => meaning sub "-n"
  | .value _ | .separator => []

def Piece.words : Piece → List String
  | .operand text => if isFlag text then [] else [text]
  | .value text => [text]
  | .attached _ word => [word]
  | .count n => [toString n]
  | .option _ | .implied _ | .separator => []

def optionIf (b : Bool) (word : String) : List Piece := if b then [.option word] else []

def valuePieces (option : String) (value : Option String) : List Piece :=
  match value with
  | some value => [.option option, .value value]
  | none => []

def pathPieces (paths : List RepoPath) : List Piece :=
  if paths.isEmpty then [] else .separator :: (paths.map RepoPath.text).map .value

def givenPathPieces (paths : Option (List RepoPath)) : List Piece :=
  match paths with
  | some paths => .separator :: (paths.map RepoPath.text).map .value
  | none => []

attribute [local simp] Piece.options Piece.words Piece.render

def pathspecPieces (paths : List Pathspec) : List Piece :=
  paths.flatMap fun path => [.separator, .value path.text]

/-- The subcommand that an operation is rendered with. -/
def GitOperation.subcommand : GitOperation → String
  | .status .. => "status"
  | .diff .. | .diffStaged .. | .changedFiles .. => "diff"
  | .show .. => "show"
  | .log .. => "log"
  | .blame .. => "blame"
  | .branchList .. | .branchCreate .. | .branchDelete .. | .branchRename .. => "branch"
  | .remoteList | .remoteGetUrl .. | .remoteAdd .. | .remoteRemove .. | .remoteSetUrl .. => "remote"
  | .tagList | .tagCreate .. | .tagDelete .. | .tagForceDelete .. => "tag"
  | .worktreeList => "worktree"
  | .add .. => "add"
  | .reset .. | .resetHard .. | .resetMixed .. | .resetSoft .. | .resetMerge .. | .resetKeep .. =>
    "reset"
  | .commit .. => "commit"
  | .stashList | .stashShow .. | .stashPush .. | .stashApply .. | .stashPop .. | .stashDrop .. =>
    "stash"
  | .checkout .. => "checkout"
  | .switch .. => "switch"
  | .restore .. => "restore"
  | .merge .. => "merge"
  | .rebase .. => "rebase"
  | .cherryPick .. => "cherry-pick"
  | .revert .. => "revert"
  | .fetch .. => "fetch"
  | .pull .. => "pull"
  | .push .. => "push"
  | .clean .. => "clean"
  | .configGet .. | .configSet .. | .configUnset .. => "config"
  | .abort | .continue | .skip => "operation"
  | .managedGitArgv .. | .rawShellRequired .. => ""

/-- What follows the subcommand in the rendering of an operation. -/
def GitOperation.pieces : GitOperation → List Piece
  | .status short => optionIf short "-s"
  | .diff staged stat nameOnly baseRef paths =>
    optionIf staged "--staged" ++ optionIf stat "--stat" ++ optionIf nameOnly "--name-only" ++
      (baseRef.map text).toList.map .operand ++ pathPieces paths
  | .diffStaged stat nameOnly paths =>
    optionIf true "--staged" ++ optionIf stat "--stat" ++ optionIf nameOnly "--name-only" ++
      pathPieces paths
  | .show rev => [.operand rev.text]
  | .log oneline maxCount paths =>
    optionIf oneline "--oneline" ++ (maxCount.map .count).toList ++ pathPieces paths
  | .blame path => [.separator, .value path.text]
  | .changedFiles baseRef =>
    .option "--name-only" :: (baseRef.map text).toList.map .operand
  | .branchList remotes all =>
    if all then [.option "-a"] else if remotes then [.option "-r"] else []
  | .remoteList => []
  | .tagList => [.implied "--list"]
  | .remoteGetUrl remote => [.operand "get-url", .operand remote.text]
  | .worktreeList | .stashList => [.operand "list"]
  | .add paths => (paths.map RepoPath.text).map .operand
  | .reset mode paths rev =>
    (if mode = .mixed then .implied mode.text else .option mode.text) ::
      ((rev.map text).toList.map .operand ++ givenPathPieces paths)
  | .commit message amend allowEmpty =>
    optionIf amend "--amend" ++ optionIf allowEmpty "--allow-empty" ++
      [.option "-m", .value message]
  | .stashShow stash => .operand "show" :: (stash.map text).toList.map .operand
  | .stashPush message includeUntracked paths =>
    .operand "push" :: (optionIf includeUntracked "-u" ++ valuePieces "-m" message ++
      pathspecPieces paths)
  | .stashApply stash index =>
    .operand "apply" :: (optionIf index "--index" ++
      (stash.map text).toList.map .operand)
  | .stashPop stash index =>
    .operand "pop" :: (optionIf index "--index" ++
      (stash.map text).toList.map .operand)
  | .stashDrop stash => [.operand "drop", .operand stash.text]
  | .checkout target paths create force =>
    optionIf create "-b" ++ optionIf force "-f" ++ target.toList.map .value ++
      givenPathPieces paths
  | .switch branch create force detach =>
    optionIf create "-c" ++ optionIf force "-f" ++ optionIf detach "--detach" ++
      [.value branch.text]
  | .restore staged paths source worktree =>
    optionIf staged "--staged" ++ optionIf worktree "--worktree" ++
      valuePieces "--source" source ++ .separator :: (paths.map RepoPath.text).map .value
  | .branchCreate name startPoint force =>
    optionIf force "-B" ++ .value name.text :: startPoint.toList.map .operand
  | .branchDelete name force => [.option (if force then "-D" else "-d"), .value name.text]
  | .branchRename old new force =>
    .option "-m" :: (optionIf force "-f" ++ [.value old.text, .value new.text])
  | .tagCreate name rev message annotated =>
    optionIf (annotated || message.isSome) "-a" ++ .operand name :: (rev.toList.map .operand ++
      valuePieces "-m" message)
  | .tagDelete name => [.option "-d", .operand name]
  | .tagForceDelete name => [.option "-D", .operand name]
  | .merge revisions noFf strategy aborts =>
    if aborts then [.option "--abort"]
    else
      optionIf noFf "--no-ff" ++ (strategy.map (.attached "--strategy")).toList ++
        revisions.map .operand
  | .rebase upstream onto interactive aborts continues skips =>
    if aborts then [.option "--abort"]
    else if continues then [.option "--continue"]
    else if skips then [.option "--skip"]
    else
      optionIf interactive "-i" ++ valuePieces "--onto" onto ++ upstream.toList.map .operand
  | .cherryPick revisions continues aborts skips =>
    if aborts then [.option "--abort"]
    else if continues then [.option "--continue"]
    else if skips then [.option "--skip"]
    else revisions.map .operand
  | .revert revisions noEdit continues aborts skips =>
    if aborts then [.option "--abort"]
    else if continues then [.option "--continue"]
    else if skips then [.option "--skip"]
    else optionIf noEdit "--no-edit" ++ revisions.map .operand
  | .fetch remote refspecs all =>
    optionIf all "--all" ++ (remote.map RemoteName.text).toList.map .operand ++
      refspecs.map .operand
  | .pull remote branch rebases ffOnly =>
    optionIf rebases "--rebase" ++ optionIf ffOnly "--ff-only" ++
      (remote.map RemoteName.text).toList.map .operand ++ branch.toList.map .operand
  | .push remote branch setUpstream force forceWithLease tags delete =>
    optionIf setUpstream "-u" ++ optionIf force "--force" ++
      optionIf forceWithLease "--force-with-lease" ++ optionIf tags "--tags" ++
      optionIf delete "--delete" ++ (remote.map RemoteName.text).toList.map .operand ++
      branch.toList.map .operand
  | .resetHard rev => .option "--hard" :: rev.toList.map .operand
  | .resetMixed rev => .implied "--mixed" :: rev.toList.map .operand
  | .resetSoft rev => .option "--soft" :: rev.toList.map .operand
  | .resetMerge rev => .option "--merge" :: rev.toList.map .operand
  | .resetKeep rev => .option "--keep" :: rev.toList.map .operand
  | .clean force dryRun dirs ignored paths =>
    let flags := (if force then ['f'] else []) ++ (if dryRun then ['n'] else []) ++
      (if dirs then ['d'] else []) ++ (if ignored then ['x'] else [])
    optionIf (!flags.isEmpty) ("-" ++ String.ofList flags) ++ pathspecPieces paths
  | .remoteAdd name url => [.operand "add", .operand name.text, .operand url.raw]
  | .remoteRemove name => [.operand "remove", .operand name.text]
  | .remoteSetUrl name url append =>
    .operand "set-url" :: (optionIf append "--add" ++ [.operand name.text, .operand url.raw])
  | .configGet key inGlobal inLocal =>
    .implied "--get" ::
      ((if inGlobal then [.option "--global"] else if inLocal then [.option "--local"] else []) ++
        [.operand key])
  | .configSet key value inGlobal inLocal =>
    optionIf inGlobal "--global" ++ optionIf inLocal "--local" ++ [.operand key, .operand value]
  | .configUnset key inGlobal inLocal =>
    .option "--unset" :: (optionIf inGlobal "--global" ++ optionIf inLocal "--local" ++
      [.operand key])
  | .abort => [.option "--abort"]
  | .continue => [.option "--continue"]
  | .skip => [.option "--skip"]
  | .managedGitArgv .. | .rawShellRequired .. => []

/-- An operation that is more than an argument vector. -/
def GitOperation.isTyped : GitOperation → Bool
  | .managedGitArgv .. | .rawShellRequired .. => false
  | _ => true

@[simp] theorem render_values (ws : List String) :
    (ws.map Piece.value).flatMap Piece.render = ws := by
  induction ws with
  | nil => rfl
  | cons w ws ih => simp [ih]

@[simp] theorem render_operands (ws : List String) :
    (ws.map Piece.operand).flatMap Piece.render = ws := by
  induction ws with
  | nil => rfl
  | cons w ws ih => simp [ih]

@[simp] theorem render_optionIf (b : Bool) (word : String) :
    (optionIf b word).flatMap Piece.render = pushIf b word := by
  cases b <;> rfl

@[simp] theorem render_valuePieces (option : String) (value : Option String) :
    (valuePieces option value).flatMap Piece.render = pushOption option value := by
  cases value <;> rfl

@[simp] theorem render_pathPieces (paths : List RepoPath) :
    (pathPieces paths).flatMap Piece.render = pushPathsAfterDd paths := by
  cases paths with
  | nil => rfl
  | cons path paths =>
    simp only [pathPieces, List.isEmpty_cons, Bool.false_eq_true, if_false,
      List.flatMap_cons, render_values]
    rfl

@[simp] theorem render_givenPathPieces (paths : Option (List RepoPath)) :
    (givenPathPieces paths).flatMap Piece.render = pushGivenPaths paths := by
  cases paths with
  | none => rfl
  | some paths =>
    simp only [givenPathPieces, List.flatMap_cons, render_values]
    rfl

@[simp] theorem render_pathspecPieces (paths : List Pathspec) :
    (pathspecPieces paths).flatMap Piece.render = pushPathspecs paths := by
  simp [pathspecPieces, pushPathspecs, List.flatMap_assoc]

@[simp] theorem render_counts (maxCount : Option Nat) :
    (maxCount.map Piece.count).toList.flatMap Piece.render =
      (maxCount.map fun n => "-" ++ toString n).toList := by
  cases maxCount <;> rfl

@[simp] theorem render_attached (name : String) (word : Option String) :
    (word.map (Piece.attached name)).toList.flatMap Piece.render =
      (word.map fun word => name ++ "=" ++ word).toList := by
  cases word <;> rfl

/-- A rendering is the subcommand and the pieces of the operation. -/
theorem renderArgv_eq_pieces {op : GitOperation} (h : op.isTyped = true) :
    renderArgv op = "git" :: op.subcommand :: op.pieces.flatMap Piece.render := by
  cases op with
  | managedGitArgv argv risk => cases h
  | rawShellRequired argv => cases h
  | branchList remotes all => cases all <;> cases remotes <;> rfl
  | log oneline maxCount paths =>
    simp only [renderArgv, subcommand, pieces, List.flatMap_append,
      render_optionIf, render_counts, render_pathPieces]
    simp
  | reset mode paths rev =>
    cases mode <;> simp [subcommand, pieces, pushIf]
  | merge revisions noFf strategy aborts =>
    cases aborts with
    | true => rfl
    | false =>
      simp only [renderArgv, subcommand, pieces, Bool.false_eq_true]
      simp
  | rebase upstream onto interactive aborts continues skips =>
    cases aborts <;> cases continues <;> cases skips <;>
      simp [subcommand, pieces]
  | cherryPick revisions continues aborts skips =>
    cases aborts <;> cases continues <;> cases skips <;>
      simp [subcommand, pieces]
  | revert revisions noEdit continues aborts skips =>
    cases aborts <;> cases continues <;> cases skips <;>
      simp [subcommand, pieces]
  | configGet key inGlobal inLocal => cases inGlobal <;> cases inLocal <;> rfl
  | _ =>
    simp [subcommand, pieces, renderDiff, renderReset, -List.map_map]

end Renderings

section Tokens

variable (sub : String)

@[simp] theorem options_values (ws : List String) :
    (ws.map Piece.value).flatMap (Piece.options sub) = [] := by
  simp [Piece.options]

@[simp] theorem words_values (ws : List String) :
    (ws.map Piece.value).flatMap Piece.words = ws := by
  induction ws with
  | nil => rfl
  | cons w ws ih => simp [Piece.words, ih]

attribute [local simp] Piece.options Piece.words GitOperation.pieces

theorem options_operands (ws : List String) :
    (ws.map Piece.operand).flatMap (Piece.options sub) =
      (ws.filter isFlag).flatMap (meaning sub) := by
  induction ws with
  | nil => rfl
  | cons w ws ih => cases hw : isFlag w <;> simp [hw, ih]

theorem words_operands (ws : List String) :
    (ws.map Piece.operand).flatMap Piece.words = ws.filter fun w => !isFlag w := by
  induction ws with
  | nil => rfl
  | cons w ws ih => cases hw : isFlag w <;> simp [hw, ih]

@[simp] theorem options_optionIf (b : Bool) (word : String) :
    (optionIf b word).flatMap (Piece.options sub) = if b then meaning sub word else [] := by
  cases b <;> simp [optionIf]

@[simp] theorem words_optionIf (b : Bool) (word : String) :
    (optionIf b word).flatMap Piece.words = [] := by
  cases b <;> rfl

@[simp] theorem options_valuePieces (option : String) (value : Option String) :
    (valuePieces option value).flatMap (Piece.options sub) =
      if value.isSome then meaning sub option else [] := by
  cases value <;> simp [valuePieces]

@[simp] theorem words_valuePieces (option : String) (value : Option String) :
    (valuePieces option value).flatMap Piece.words = value.toList := by
  cases value <;> rfl

@[simp] theorem options_pathPieces (paths : List RepoPath) :
    (pathPieces paths).flatMap (Piece.options sub) = [] := by
  unfold pathPieces
  split_ifs
  · rfl
  · simp

@[simp] theorem words_pathPieces (paths : List RepoPath) :
    (pathPieces paths).flatMap Piece.words = paths.map RepoPath.text := by
  cases paths with
  | nil => rfl
  | cons path paths =>
    simp only [pathPieces, List.isEmpty_cons, Bool.false_eq_true, if_false, List.flatMap_cons,
      words_values]
    rfl

@[simp] theorem options_givenPathPieces (paths : Option (List RepoPath)) :
    (givenPathPieces paths).flatMap (Piece.options sub) = [] := by
  cases paths <;> simp [givenPathPieces]

@[simp] theorem words_givenPathPieces (paths : Option (List RepoPath)) :
    (givenPathPieces paths).flatMap Piece.words = (paths.getD []).map RepoPath.text := by
  cases paths <;> simp [givenPathPieces, -List.map_map]

@[simp] theorem options_pathspecPieces (paths : List Pathspec) :
    (pathspecPieces paths).flatMap (Piece.options sub) = [] := by
  simp [pathspecPieces, List.flatMap_assoc]

@[simp] theorem words_pathspecPieces (paths : List Pathspec) :
    (pathspecPieces paths).flatMap Piece.words = paths.map Pathspec.text := by
  simp [pathspecPieces, List.flatMap_assoc, List.map_eq_flatMap]

@[simp] theorem options_counts (maxCount : Option Nat) :
    (maxCount.map Piece.count).toList.flatMap (Piece.options sub) =
      if maxCount.isSome then meaning sub "-n" else [] := by
  cases maxCount <;> simp

@[simp] theorem words_counts (maxCount : Option Nat) :
    (maxCount.map Piece.count).toList.flatMap Piece.words = (maxCount.map toString).toList := by
  cases maxCount <;> rfl

@[simp] theorem options_attached (name : String) (word : Option String) :
    (word.map (Piece.attached name)).toList.flatMap (Piece.options sub) =
      if word.isSome then meaning sub name else [] := by
  cases word <;> simp

@[simp] theorem words_attached (name : String) (word : Option String) :
    (word.map (Piece.attached name)).toList.flatMap Piece.words = word.toList := by
  cases word <;> rfl

end Tokens

end Codegg.Git
