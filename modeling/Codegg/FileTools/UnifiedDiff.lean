import Codegg.Library.TextLines

/-!
# Applying a unified diff

The patch is read line by line. A header moves a cursor in the original, whose lines up to there
are copied. The lines of a hunk then keep, drop or insert lines at the cursor.
-/
namespace Codegg.FileTools

open Codegg.Library


abbrev Text := List Char

inductive PatchError
  | invalidHeader (patchLine : ℕ)
  | overlappingHunk (hunk oldStart cursorLine fileLines : ℕ)
  | startsPastEof (hunk oldStart cursorLine fileLines : ℕ)
  | emptyHunkLine
  | contextMismatch (hunk oldStart requested cursorLine fileLines : ℕ) (expected observed : Text)
  | deleteMismatch (hunk oldStart requested cursorLine fileLines : ℕ) (expected observed : Text)
  | invalidPrefix (tag : Char)
  | noHunks
  /-- A slice that would cut a character. -/
  | panics
  deriving DecidableEq

section Header

/-- `usize::from_str`. -/
def parseUsize (s : Text) : Option ℕ :=
  let digits := match s with
    | '+' :: ds => ds
    | ds => ds
  if digits ≠ [] ∧ ∀ d ∈ digits, d.isDigit then
    let n := digits.foldl (fun n d => 10 * n + (d.toNat - '0'.toNat)) 0
    if n < 2 ^ 64 then some n else none
  else none

/-- `str::split_once`: what stands before and after the first place of a pattern. -/
def splitOnce (pattern : Text) : Text → Option (Text × Text)
  | [] => if pattern = [] then some ([], []) else none
  | c :: cs =>
    if pattern <+: c :: cs then some ([], (c :: cs).drop pattern.length)
    else (splitOnce pattern cs).map fun (before, after) => (c :: before, after)

/-- The word at the front, and the words after it. -/
def splitWords : Text → Text × List Text
  | [] => ([], [])
  | c :: cs =>
    let (word, words) := splitWords cs
    if isWhitespace c then ([], if word = [] then words else word :: words) else (c :: word, words)

/-- `str::split_whitespace`. -/
def splitWhitespace (s : Text) : List Text :=
  let (word, words) := splitWords s
  if word = [] then words else word :: words

def parseRange (range : Text) : Option ℕ :=
  match range.splitOn ',' with
  | [start] => parseUsize start
  | [start, count] => do
    let start ← parseUsize start
    let _ ← parseUsize count
    return start
  | _ => none

def stripPrefix (pre s : Text) : Option Text :=
  if pre <+: s then some (s.drop pre.length) else none

def parseHunkOldStart (header : Text) : Option ℕ := do
  let body ← stripPrefix "@@ ".toList header
  let (ranges, suffix) ← splitOnce " @@".toList body
  if suffix ≠ [] ∧ ¬[' '] <+: suffix then none
  else
    match splitWhitespace ranges with
    | [old, new] => do
      let old ← stripPrefix ['-'] old
      let new ← stripPrefix ['+'] new
      let oldStart ← parseRange old
      let _ ← parseRange new
      return oldStart
    | _ => none

end Header

section Applying

/-- The hunk whose lines are read. -/
structure OpenHunk where
  index : ℕ
  oldStart : ℕ
  oldConsumed : ℕ

structure Applier where
  output : List Text := []
  origIdx : ℕ := 0
  patchIdx : ℕ := 0
  hunks : ℕ := 0
  hunk : Option OpenHunk := none

def isHeader (line : Text) : Bool := ['@', '@'] <+: line

/-- The lines of a hunk that are passed over: those of a file header, and the remark that a line
has no newline. -/
def isPassedOver (line : Text) : Bool :=
  "--- ".toList <+: line ∨ "+++ ".toList <+: line ∨
    "\\ No newline at end of file".toList <+: line

variable (original : List Text)

def openHunk (s : Applier) (line : Text) : Except PatchError Applier :=
  match parseHunkOldStart line with
  | none => .error (.invalidHeader (s.patchIdx + 1))
  | some oldStart =>
    let targetIdx := oldStart - 1
    if targetIdx < s.origIdx then
      .error (.overlappingHunk (s.hunks + 1) oldStart (s.origIdx + 1) original.length)
    else if original.length < targetIdx then
      .error (.startsPastEof (s.hunks + 1) oldStart (s.origIdx + 1) original.length)
    else
      .ok {
        output := s.output ++ (original.take targetIdx).drop s.origIdx
        origIdx := targetIdx
        patchIdx := s.patchIdx + 1
        hunks := s.hunks + 1
        hunk := some ⟨s.hunks + 1, oldStart, 0⟩ }

/-- What stands at the cursor. -/
def observed (s : Applier) : Text := original[s.origIdx]?.getD "<EOF>".toList

def hunkLine (s : Applier) (hunk : OpenHunk) (line : Text) : Except PatchError Applier :=
  let next := { s with patchIdx := s.patchIdx + 1 }
  let consumed := { hunk with oldConsumed := hunk.oldConsumed + 1 }
  let requested := min (hunk.oldStart + hunk.oldConsumed) (2 ^ 64 - 1)
  if isPassedOver line then .ok next
  else
    match line with
    | [] => .error .emptyHunkLine
    | tag :: content =>
      if tag.utf8Size ≠ 1 then .error .panics
      else if tag = ' ' then
        if original[s.origIdx]? ≠ some content then
          .error (.contextMismatch hunk.index hunk.oldStart requested (s.origIdx + 1)
            original.length content (observed original s))
        else
          .ok { next with
            output := s.output ++ [content]
            origIdx := s.origIdx + 1
            hunk := some consumed }
      else if tag = '-' then
        if original[s.origIdx]? ≠ some content then
          .error (.deleteMismatch hunk.index hunk.oldStart requested (s.origIdx + 1)
            original.length content (observed original s))
        else .ok { next with origIdx := s.origIdx + 1, hunk := some consumed }
      else if tag = '+' then .ok { next with output := s.output ++ [content] }
      else .error (.invalidPrefix tag)

/-- Before the first header every line is passed over. -/
def patchLine (s : Applier) (line : Text) : Except PatchError Applier :=
  if isHeader line then openHunk original s line
  else
    match s.hunk with
    | none => .ok { s with patchIdx := s.patchIdx + 1 }
    | some hunk => hunkLine original s hunk line

/-- The newline that `str::lines` took from the end is put back. -/
def restoreNewline (original : Text) (result : Text) : Text :=
  if original.getLast? = some '\n' ∧ result ≠ [] ∧ result.getLast? ≠ some '\n' then
    result ++ ['\n']
  else result

def applyUnifiedDiff (original patch : Text) : Except PatchError Text := do
  let originalLines := lines original
  let s ← (lines patch).foldlM (patchLine originalLines) {}
  if s.hunks = 0 then throw .noHunks
  return restoreNewline original
    (joinLines (s.output ++ originalLines.drop s.origIdx))

end Applying

end Codegg.FileTools
