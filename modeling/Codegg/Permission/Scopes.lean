import Codegg.Permission.Decision
import Codegg.Permission.ShellWords

/-!
# Capability scopes of a request

A simple shell command is scoped by its executable; a command of several segments by one
scope for each segment; anything else by a digest of its text. A git call is scoped by its
subcommand.
-/
namespace Codegg.Permission

open Library (isWhitespace)

/-- What a scope needs from outside: SHA-256. -/
abbrev Sha256 := ByteArray → List UInt8

variable (sha256 : Sha256)

/-! ### One command -/

def toAsciiLowercase (cs : List Char) : List Char := cs.map Char.toLower

def isEnvAssignment (token : List Char) : Bool :=
  let name := token.takeWhile (· ≠ '=')
  name.length < token.length && !name.isEmpty &&
    name.all (fun c => c.isAlphanum || c = '_') &&
    match name with
    | c :: _ => c.isAlpha || c = '_'
    | [] => true

def simpleCommandExecutable (argv : List (List Char)) : Option (List Char) :=
  match argv with
  | [] => none
  | first :: rest =>
    if first = "env".toList then
      let after := rest.dropWhile isEnvAssignment
      -- `env` must have at least one assignment and no option
      if after.length = rest.length then none
      else
        match after with
        | [] => none
        | arg :: _ => if arg.head? = some '-' then none else some arg
    else some first

def exactFamilies : List (List Char) :=
  ["sh", "bash", "dash", "zsh", "fish", "ksh", "csh", "tcsh", "pwsh", "powershell", "sudo",
    "doas", "su", "runuser", "command", "exec", "nohup", "nice", "timeout", "time", "xargs",
    "busybox", "python", "python2", "python3", "node", "nodejs", "deno", "ruby", "perl", "php",
    "lua", "awk"].map String.toList

def commandFamilyRequiresExactScope (command : List Char) : Bool :=
  exactFamilies.contains (toAsciiLowercase command) ||
    "python3.".toList.isPrefixOf (toAsciiLowercase command)

def exactCommandScope (command : List Char) : String :=
  "cmd:exact:" ++ hexEncode (sha256 (String.ofList command).toByteArray)

/-- The part after the last slash. -/
def baseName (argv0 : List Char) : List Char :=
  (argv0.reverse.takeWhile (· ≠ '/')).reverse

def isFamilyChar (c : Char) : Bool := c.isAlphanum || c = '.' || c = '_' || c = '-'

/-- A name that stands for a family of commands. -/
def isFamilyName (base : List Char) : Bool :=
  !base.isEmpty && (String.ofList base).utf8ByteSize ≤ 64 && base.all isFamilyChar &&
    !commandFamilyRequiresExactScope base

def familyScope (base : List Char) : String := "cmd:" ++ String.ofList (toAsciiLowercase base)

def decisionScopeForShellCommand (command : List Char) : Option String :=
  match parseShellWords command with
  | .simpleArgv argv =>
    match simpleCommandExecutable argv with
    | none => some (exactCommandScope sha256 command)
    | some argv0 =>
      if isFamilyName (baseName argv0) then some (familyScope (baseName argv0))
      else some (exactCommandScope sha256 command)
  | _ => some (exactCommandScope sha256 command)

/-! ### Segments -/

def isSegmentableReason (reason : ShellComplexityReason) : Bool :=
  match reason with
  | .commandSubstitution | .variableExpansion | .heredoc | .unbalancedQuotes => false
  | _ => true

def isSeparator (ch : Char) : Bool :=
  ch = ';' || ch = '|' || ch = '&' || ch = '\n' || ch = '\r'

structure SegmentScan where
  segments : List (List Char)
  current : List Char
  inSingle : Bool
  inDouble : Bool

namespace SegmentScan

def start : SegmentScan := ⟨[], [], false, false⟩

def push (c : Char) (s : SegmentScan) : SegmentScan := { s with current := s.current ++ [c] }

/-- A run of separators adds no empty segment. -/
def cut (s : SegmentScan) : SegmentScan :=
  if (trim s.current).isEmpty then { s with current := [] }
  else { s with segments := s.segments ++ [s.current], current := [] }

def toggle (ch : Char) (s : SegmentScan) : SegmentScan :=
  if ch = '\'' then { s with inSingle := !s.inSingle }
  else if ch = '"' then { s with inDouble := !s.inDouble }
  else s

def quoted (s : SegmentScan) : Bool := s.inSingle || s.inDouble

/-- A character that no backslash comes before. -/
def step (ch : Char) (s : SegmentScan) : SegmentScan :=
  let s := s.toggle ch
  if !s.quoted && isSeparator ch then s.cut else s.push ch

def finish (s : SegmentScan) : List (List Char) :=
  if (trim s.current).isEmpty then s.segments else s.segments ++ [s.current]

end SegmentScan

def scanSegments : SegmentScan → List Char → SegmentScan
  | s, '\\' :: escaped :: cs => scanSegments ((s.push '\\').push escaped) cs
  | s, c :: cs => scanSegments (if c = '\\' then s.push c else s.step c) cs
  | s, [] => s

def splitTopLevelSegments (command : List Char) : Option (List (List Char)) :=
  match parseShellWords command with
  | .complexShell reasons =>
    if reasons.isEmpty || !reasons.all isSegmentableReason then none
    else
      let s := scanSegments .start command
      if s.quoted then none
      else
        let parts := s.finish.map trim
        if 1 < parts.length then some parts else none
  | _ => none

/-! ### A request -/

/-- Sorted, and each scope once. -/
def sortScopes (scopes : List String) : List String :=
  (scopes.insertionSort (· ≤ ·)).destutter (· ≠ ·)

def decisionScopesForShellCommand (command : List Char) : List String :=
  let scopes :=
    match splitTopLevelSegments command with
    | some segments => segments.filterMap (decisionScopeForShellCommand sha256)
    | none => (decisionScopeForShellCommand sha256 command).toList
  let scopes := sortScopes scopes
  if scopes.isEmpty then [exactCommandScope sha256 command] else scopes

/-- The ASCII characters of the lower case of a character. -/
def asciiOfLowercase (c : Char) : List Char :=
  if c = '\u212A' then ['k']
  else if c = '\u0130' then ['i']
  else if c.toNat < 128 then [c.toLower]
  else []

def decisionScopeForGitSubcommand (subcommand : List Char) : Option String :=
  match subcommand.dropWhile isWhitespace with
  | [] => none
  | rest =>
    let first := rest.takeWhile fun c => !isWhitespace c
    let normalized := (first.flatMap asciiOfLowercase).filter fun c =>
      c.isAlphanum || c = '-' || c = '_'
    if normalized.isEmpty || 64 < normalized.length then none
    else
      let scope := "git:" ++ String.ofList normalized
      if 80 < scope.utf8ByteSize then none else some scope

/-- The scopes under which a request is looked up. -/
def requestScopes (tool : String) (args : Option String) : List String :=
  if tool = "bash" || tool = "terminal" || tool = "test" then
    match args with
    | some command => decisionScopesForShellCommand sha256 command.toList
    | none => []
  else if tool = "git" then
    (args.bind fun subcommand => decisionScopeForGitSubcommand subcommand.toList).toList
  else []

variable {sha256}

set_option maxRecDepth 2000 in
example : splitTopLevelSegments "git status && git diff | head -3;".toList =
    some ["git status".toList, "git diff".toList, "head -3".toList] := by decide

end Codegg.Permission
