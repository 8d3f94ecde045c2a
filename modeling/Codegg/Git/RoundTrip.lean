import Codegg.Git.RoundTrip.Checkout
import Codegg.Git.RoundTrip.History
import Codegg.Git.RoundTrip.Inspection
import Codegg.Git.RoundTrip.Network
import Codegg.Git.RoundTrip.Refs
import Codegg.Git.RoundTrip.Worktree

/-!
# Rendering an operation and parsing it again

When an argument vector is parsed, its operation rendered and the rendering parsed, the same
operation is found exactly when the arguments of the subcommand meet a condition of their own.
-/
namespace Codegg.Git

open Codegg.Library.ArgScan

variable {canonicalize : Canonicalize} {argv args : List String} {sub : String} {op : GitOperation}

/-- What the arguments of a subcommand have to be for its operation to be read back. -/
def SubcommandRoundTrips (sub : String) (args : List String) : Prop :=
  match sub with
  | "diff" => DiffRoundTrips args
  | "log" => LogRoundTrips args
  | "blame" => BlameRoundTrips args
  | "branch" => BranchRoundTrips args
  | "tag" => TagRoundTrips args
  | "stash" => StashRoundTrips args
  | "checkout" => CheckoutRoundTrips args
  | "switch" => SwitchRoundTrips args
  | "restore" => RestoreRoundTrips args
  | "add" => AddRoundTrips args
  | "reset" => ResetRoundTrips args
  | "clean" => CleanRoundTrips args
  | "merge" => MergeRoundTrips args
  | "rebase" => RebaseRoundTrips args
  | "cherry-pick" => SequencerRoundTrips args
  | "revert" => SequencerRoundTrips args
  | "config" => ConfigRoundTrips args
  | _ => True

/-- With `-C` the argument vector is kept as it is. -/
def RoundTrips (argv : List String) : Prop :=
  ∀ inv ∈ invocation argv, inv.hasDashC = false → SubcommandRoundTrips inv.sub inv.args

theorem parseSubcommand_again (hargv : parseGitArgv canonicalize argv = .ok op)
    (h : parseSubcommand canonicalize argv sub args = .ok op) :
    parseGitArgv canonicalize (renderArgv op) = .ok op ↔ SubcommandRoundTrips sub args := by
  unfold parseSubcommand at h
  split at h
  · exact iff_of_true (parseStatus_again h) trivial
  · exact parseDiff_again h
  · exact iff_of_true (parseShow_again h) trivial
  · exact parseLog_again h
  · exact parseBlame_again h
  · exact parseBranch_again h
  · exact parseTag_again h
  · exact iff_of_true (parseRemote_again hargv h) trivial
  · exact parseStash_again hargv h
  · exact parseCheckout_again h
  · exact parseSwitch_again h
  · exact parseRestore_again h
  · exact iff_of_true (parseCommit_again h) trivial
  · exact parseAdd_again h
  · exact parseReset_again h
  · exact parseClean_again h
  · exact parseMerge_again h
  · exact parseRebase_again h
  · exact parseCherryPick_again h
  · exact parseRevert_again h
  · exact iff_of_true (parseFetch_again h) trivial
  · exact iff_of_true (parsePull_again h) trivial
  · exact iff_of_true (parsePush_again h) trivial
  · exact parseConfig_again hargv h
  · exact iff_of_true (parseWorktree_again hargv h) trivial
  · cases h
    refine iff_of_true hargv ?_
    unfold SubcommandRoundTrips
    split
    case h_18 => trivial
    all_goals contradiction

/-- Rendering an operation and parsing it again gives the operation exactly when the arguments
meet the condition of their subcommand. -/
theorem parse_render_parse (canonicalize : Canonicalize) (argv : List String) (op : GitOperation)
    (h : parseGitArgv canonicalize argv = .ok op) :
    parseGitArgv canonicalize (renderArgv op) = .ok op ↔ RoundTrips argv := by
  obtain ⟨⟨hasDashC, sub, args⟩, op', hinv, hop', rfl⟩ := parseGitArgv_invocation h
  rw [RoundTrips, hinv]
  cases hasDashC with
  | true => exact iff_of_true h (by simp)
  | false => simpa using parseSubcommand_again h hop'

theorem parse_render_parse_status :
    parseGitArgv (fun _ => none) (renderArgv (.status true)) = .ok (.status true) ↔
      RoundTrips ["git", "status", "-s"] :=
  parse_render_parse (fun _ => none) ["git", "status", "-s"] (.status true) rfl

/-- The number of commits is rendered as `-3`, which the parser does not know. -/
theorem log_count_not_parsed_again :
    ¬∀ (canonicalize : Canonicalize) (argv : List String) (op : GitOperation),
      parseGitArgv canonicalize argv = .ok op →
        parseGitArgv canonicalize (renderArgv op) = .ok op := by
  intro hall
  have hparsed : parseGitArgv (fun _ => none) ["git", "log", "-n", "3"] =
      .ok (.log false (some 3) []) := by decide +kernel
  have hagain := hall _ _ _ hparsed
  cases hagain

end Codegg.Git
