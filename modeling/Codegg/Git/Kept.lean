import Codegg.Git.Pieces
import Codegg.Git.Reparse

/-!
# What the parsers keep

Each parser has fields for some options, in the spellings it reads, and places for some of the
words. These are listed here for each subcommand, of the arguments as they are cut.
-/
namespace Codegg.Git

open Codegg.Library.ArgScan Reading

section Kept

/-- Options, by their canonical names, and words. -/
structure Kept where
  options : List String
  words : List String

/-- Words that are options if they look like it. -/
def Kept.ofWords (sub : String) (ws : List String) : Kept where
  options := (ws.filter isFlag).flatMap (meaning sub)
  words := ws.filter fun w => !isFlag w

/-- The options and words of an operation, as its rendering says them. -/
def GitOperation.kept (sub : String) (op : GitOperation) : Kept where
  options := op.pieces.flatMap (Piece.options sub)
  words := op.pieces.flatMap Piece.words

/-- Every option and every word of the arguments is there. A word is there as often as it was
given. -/
structure Kept.Covers (sub : String) (I : Reading) (k : Kept) : Prop where
  options : ∀ a ∈ I, ∀ option ∈ argOptions sub a, option ∈ k.options
  words : ((I.flatMap (argWords sub)).map (spell sub)).Subperm (k.words.map (spell sub))

/-- The same options and words, up to the spelling of the words. -/
structure Kept.Same (sub : String) (k k' : Kept) : Prop where
  options : k.options = k'.options
  words : k.words.map (spell sub) = k'.words.map (spell sub)

theorem Kept.Same.covers {sub : String} {I : Reading} {k k' : Kept} (h : k.Same sub k') :
    k.Covers sub I ↔ k'.Covers sub I := by
  obtain ⟨hoptions, hwords⟩ := h
  constructor
  · rintro ⟨h₁, h₂⟩
    exact ⟨hoptions ▸ h₁, hwords ▸ h₂⟩
  · rintro ⟨h₁, h₂⟩
    exact ⟨hoptions ▸ h₁, hwords ▸ h₂⟩

end Kept

section Inspection

def statusKept (I : Reading) : Kept where
  options := pushIf (I.has isShort) "--short"
  words := []

/-- With `--staged` there is no place for a revision. -/
def diffKept (I : Reading) : Kept where
  options := pushIf (I.has isStaged) "--staged" ++ pushIf (I.has (· = "--stat")) "--stat" ++
    pushIf (I.has (· = "--name-only")) "--name-only"
  words := (if I.has isStaged then [] else I.operands.head?.toList) ++ I.pathWords 1

/-- The last count, if it is a number. -/
def logCount (I : Reading) : Option Nat := (I.lastTaken 0 isCount).bind parseU32

def logKept (I : Reading) : Kept where
  options := pushIf (I.has (· = "--oneline")) "--oneline" ++
    pushIf (logCount I).isSome "--max-count"
  words := ((logCount I).map toString).toList ++ I.pathWords 0

def blameKept (args : List String) : Kept where
  options := []
  words := args.take 1

end Inspection

section Refs

/-- A forced creation is rendered with `-B`. -/
def branchKept (I : Reading) : Kept :=
  match I.deletes branchDeletion with
  | some name =>
    { options := "--delete" :: pushIf (has (branchWord · = .force) I.dropLast) "--force"
      words := [name] }
  | none =>
    match I.lastTaken 0 (branchWord · = .move), I.lastTaken 1 (branchWord · = .move) with
    | some old, some new => { options := ["--move"], words := [old, new] }
    | _, _ =>
      match createdName I with
      | some name =>
        let startPoint := (I.lastTaken 1 (branchWord · = .copy)).toList
        { options := pushIf (I.has (branchWord · = .force)) "-B" ++
            (Kept.ofWords "branch" startPoint).options
          words := name :: (Kept.ofWords "branch" startPoint).words }
      | none =>
        { options :=
            if I.has (branchWord · = .all) then ["--all"]
            else pushIf (I.has (branchWord · = .remotes)) "--remotes"
          words := [] }

/-- A forced deletion is rendered with `-D`. -/
def tagKept (I : Reading) : Kept :=
  match I.deletes tagDeletion with
  | some name =>
    { options := if has (tagWord · = .force) I.dropLast then ["-D"] else ["--delete"]
      words := [name] }
  | none =>
    if I.has (tagWord · = .list) then { options := ["--list"], words := [] }
    else
      match I.operands with
      | [] => { options := ["--list"], words := [] }
      | name :: more =>
        let message := I.lastTaken 0 (tagWord · = .message)
        { options := pushIf (I.has (tagWord · = .annotate) || message.isSome) "--annotate" ++
            pushIf message.isSome "--message"
          words := name :: (more.head?.toList ++ message.toList) }

/-- The verbs that are not read fall back. -/
def remoteKept : List String → Option Kept
  | [] => some ⟨[], []⟩
  | sub :: args =>
    if sub = "-v" ∨ sub = "--verbose" then some ⟨[], []⟩
    else if sub = "add" then some (.ofWords "remote" ("add" :: args.take 2))
    else if sub = "remove" ∨ sub = "rm" then some (.ofWords "remote" ("remove" :: args.take 1))
    else if sub = "set-url" then
      let rest := (args.dropWhile isFlag).take 2
      some {
        options := pushIf ("--add" ∈ args.takeWhile isFlag) "--add" ++
          (Kept.ofWords "remote" rest).options
        words := "set-url" :: (Kept.ofWords "remote" rest).words }
    else if sub = "get-url" then some (.ofWords "remote" ("get-url" :: args.take 1))
    else none

end Refs

section Worktree

/-- The verbs that are not read fall back. -/
def stashKept : List String → Option Kept
  | [] => some ⟨[], ["list"]⟩
  | sub :: args =>
    let I := (plain (fun _ => false) false).read false args
    if sub = "list" then some ⟨[], ["list"]⟩
    else if sub = "show" then
      some ⟨[], "show" :: args.head?.toList.filter fun w => !isFlag w⟩
    else if sub = "push" then
      let I := (plain isMessage true).read false args
      some {
        options := pushIf (has isUntracked I) "--include-untracked" ++
          pushIf (lastTaken 0 isMessage I).isSome "--message"
        words := "push" :: ((lastTaken 0 isMessage I).toList ++ pathWords 0 I) }
    else if sub = "apply" ∨ sub = "pop" then
      some ⟨pushIf (has isIndex I) "--index", sub :: (peekNonFlag args).toList⟩
    else if sub = "drop" then some (.ofWords "stash" ("drop" :: args.take 1))
    else none

def checkoutKept (I : Reading) : Kept where
  options := pushIf (I.has isCreateBranch) "--new-branch" ++
    pushIf (I.has isForce || forcedAfterPath I) "--force"
  words := ((I.lastTaken 0 isCreateBranch).or (firstTarget I)).toList ++
    (checkoutPathWords I).getD []

/-- The last word that can be the branch. -/
def switchedTo (I : Reading) : Option String :=
  lastSome (fun a =>
    if takesBranch a.head then a.taken[0]? else if isFlag a.head then none else some a.head) I

def switchKept (I : Reading) : Kept where
  options := pushIf (I.has takesBranch) "--create" ++
    pushIf (I.has fun t => isForce t ∨ isForceCreateSwitch t) "--force" ++
    pushIf (I.has (· = "--detach")) "--detach"
  words := (switchedTo I).toList

def restoreKept (I : Reading) : Kept where
  options := pushIf (I.has (· = "--staged")) "--staged" ++
    pushIf (I.has (· = "--worktree")) "--worktree" ++
    pushIf (I.lastTaken 0 (· = "--source")).isSome "--source"
  words := (I.lastTaken 0 (· = "--source")).toList ++ I.pathWords 0

/-- A message is rendered even where none was given. -/
def commitKept (I : Reading) : Kept where
  options := pushIf (I.has (· = "--amend")) "--amend" ++
    pushIf (I.has (· = "--allow-empty")) "--allow-empty" ++ ["--message"]
  words := [(I.lastTaken 0 isMessage).getD ""]

def addKept (I : Reading) : Kept := .ofWords "add" ((I.pathWords 0).map normalizePath)

/-- Only the mixed mode has a place for paths. -/
def resetKept (I : Reading) : Kept :=
  let mode := (lastSome (fun a => modeOf a.head) I).getD .mixed
  { options := [mode.text]
    words := I.operands.head?.toList ++ if mode = .mixed then I.pathWords 1 else [] }

def cleanKept (I : Reading) : Kept where
  options := pushIf (I.has (isCleanFlag 'f' "--force")) "--force" ++
    pushIf (I.has (isCleanFlag 'n' "--dry-run")) "--dry-run" ++
    pushIf (I.has (isCleanFlag 'd' "--dirs")) "--dirs" ++
    pushIf (I.has (isCleanFlag 'x' "--ignored")) "--ignored"
  words := I.afterDashes.getD (I.operands.filter (· ≠ "-"))

end Worktree

section History

/-- Of a merge that is aborted or continued only that is kept. -/
def mergeKept (I : Reading) : Kept :=
  if I.has (· = "--abort") then ⟨["--abort"], []⟩
  else if I.has (· = "--continue") then ⟨["--continue"], []⟩
  else
    let strategy := I.lastTaken 0 isStrategy
    let revisions := Kept.ofWords "merge" (I.operands ++ I.afterDashes.getD [])
    { options := pushIf (I.has (· = "--no-ff")) "--no-ff" ++
        pushIf strategy.isSome "--strategy" ++ revisions.options
      words := strategy.toList ++ revisions.words }

/-- What is kept of the arguments while no sequencer option stands among them. -/
def sequencerKept (I : Reading) (k : Kept) : Kept :=
  if I.has (· = "--abort") then ⟨["--abort"], []⟩
  else if I.has (· = "--continue") then ⟨["--continue"], []⟩
  else if I.has (· = "--skip") then ⟨["--skip"], []⟩
  else k

def rebaseKept (I : Reading) : Kept :=
  let onto := I.lastTaken 0 (· = "--onto")
  let upstream :=
    Kept.ofWords "rebase" (I.operands.head?.or (I.afterDashes.bind List.head?)).toList
  sequencerKept I
    { options := pushIf (I.has isInteractive) "--interactive" ++ pushIf onto.isSome "--onto" ++
        upstream.options
      words := onto.toList ++ upstream.words }

def cherryPickKept (I : Reading) : Kept := sequencerKept I ⟨[], I.operands⟩

def revertKept (I : Reading) : Kept :=
  sequencerKept I ⟨pushIf (I.has (· = "--no-edit")) "--no-edit", I.operands⟩

end History

section Network

def fetchKept (I : Reading) : Kept where
  options := pushIf (I.has isAll) "--all"
  words := I.operands

def pullKept (I : Reading) : Kept where
  options := pushIf (I.has isRebase) "--rebase" ++ pushIf (I.has (· = "--ff-only")) "--ff-only"
  words := I.operands.take 2

def pushKept (I : Reading) : Kept where
  options := pushIf (I.has isUpstream) "--set-upstream" ++ pushIf (I.has forcesPush) "--force" ++
    pushIf (I.has (· = "--force-with-lease")) "--force-with-lease" ++
    pushIf (I.has (· = "--tags")) "--tags" ++ pushIf (I.has (· = "--delete")) "--delete"
  words := I.operands.take 2

/-- Without a key the arguments are kept as they are. A key alone is read. -/
def configKept (I : Reading) : Option Kept :=
  if I.operands = [] then none
  else if I.has (· = "--unset") then
    some {
      options := "--unset" :: (pushIf (I.has isGlobal) "--global" ++
        pushIf (I.has (· = "--local")) "--local")
      words := I.operands.take 1 }
  else if I.has (· = "--get") ∨ I.operands[1]? = none then
    some {
      options := "--get" :: (if I.has isGlobal then ["--global"]
        else pushIf (I.has (· = "--local")) "--local")
      words := I.operands.take 1 }
  else
    some {
      options := pushIf (I.has isGlobal) "--global" ++ pushIf (I.has (· = "--local")) "--local"
      words := I.operands.take 2 }

def worktreeKept (args : List String) : Option Kept :=
  if args.head?.any fun sub => sub ∈ ["add", "remove", "move", "lock", "unlock"] then none
  else some ⟨[], ["list"]⟩

end Network

/-- What is kept of the arguments of a subcommand, unless they are kept as they are. -/
def subcommandKept (sub : String) (args : List String) : Option Kept :=
  let I := readArgs sub args
  match sub with
  | "status" => some (statusKept I)
  | "diff" => some (diffKept I)
  | "show" => some (.ofWords "show" (args.take 1))
  | "log" => some (logKept I)
  | "blame" => some (blameKept args)
  | "branch" => some (branchKept I)
  | "tag" => some (tagKept I)
  | "remote" => remoteKept args
  | "stash" => stashKept args
  | "checkout" => some (checkoutKept I)
  | "switch" => some (switchKept I)
  | "restore" => some (restoreKept I)
  | "commit" => some (commitKept I)
  | "add" => some (addKept I)
  | "reset" => some (resetKept I)
  | "clean" => some (cleanKept I)
  | "merge" => some (mergeKept I)
  | "rebase" => some (rebaseKept I)
  | "cherry-pick" => some (cherryPickKept I)
  | "revert" => some (revertKept I)
  | "fetch" => some (fetchKept I)
  | "pull" => some (pullKept I)
  | "push" => some (pushKept I)
  | "config" => configKept I
  | "worktree" => worktreeKept args
  | _ => none

end Codegg.Git
