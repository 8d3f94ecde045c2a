import Codegg.Library.TextLines
import Mathlib.Data.List.Sort
import Mathlib.Data.List.Destutter

/-!
# The words of a shell command

A scanner reads a command character by character. It cuts it into words, takes quotes and
escapes out of them, and notes every construct that makes the command more than a list of
words. A character that is read ahead of its turn is skipped afterwards.
-/
namespace Codegg.Permission

open Library (isWhitespace)

inductive ShellComplexityReason
  | pipe
  | semicolon
  | andOr
  | background
  | redirection
  | commandSubstitution
  | variableExpansion
  | heredoc
  | newline
  | unbalancedQuotes
  | envAssignment
  | glob
  | tilde
  deriving DecidableEq, Repr

/-- The place in the declaration, which is the order in which reasons are sorted. -/
def ShellComplexityReason.rank : ShellComplexityReason → ℕ
  | .pipe => 0
  | .semicolon => 1
  | .andOr => 2
  | .background => 3
  | .redirection => 4
  | .commandSubstitution => 5
  | .variableExpansion => 6
  | .heredoc => 7
  | .newline => 8
  | .unbalancedQuotes => 9
  | .envAssignment => 10
  | .glob => 11
  | .tilde => 12

inductive ShellShape
  | empty
  | simpleArgv (words : List (List Char))
  | complexShell (reasons : List ShellComplexityReason)
  deriving DecidableEq, Repr

inductive ParseState
  | betweenWords
  | inWord
  | inSingleQuote
  | inDoubleQuote
  | inDoubleQuoteEscaped
  | backslashEscape
  deriving DecidableEq, Repr

/-- The state of the scanner. -/
structure WordScan where
  state : ParseState
  current : List Char
  words : List (List Char)
  reasons : List ShellComplexityReason

namespace WordScan

def start : WordScan := ⟨.betweenWords, [], [], []⟩

def goto (state : ParseState) (s : WordScan) : WordScan := { s with state := state }

def push (c : Char) (s : WordScan) : WordScan := { s with current := s.current ++ [c] }

def because (reason : ShellComplexityReason) (s : WordScan) : WordScan :=
  { s with reasons := s.reasons ++ [reason] }

/-- The word so far is a word. -/
def endWord (s : WordScan) : WordScan :=
  { s with words := s.words ++ [s.current], current := [] }

end WordScan

/-- How many characters there are up to the brace that closes `depth` open ones. -/
def braceSpan : ℕ → List Char → ℕ
  | _, [] => 0
  | depth, c :: cs =>
    if c = '{' then braceSpan (depth + 1) cs + 1
    else if c = '}' then if depth ≤ 1 then 1 else braceSpan (depth - 1) cs + 1
    else braceSpan depth cs + 1

/-- `$` before a letter or an underscore. -/
def startsName (rest : List Char) : Bool :=
  match rest with
  | c :: _ => c.isAlpha || c = '_'
  | [] => false

/-- Whether the next twenty characters close a bracket. -/
def closesBracket (rest : List Char) : Bool := (rest.take 20).contains ']'

open WordScan ShellComplexityReason ParseState in
/-- One character between words; the number is how many of the next are used up with it. -/
def stepBetweenWords (s : WordScan) (ch : Char) (rest : List Char) : WordScan × ℕ :=
  match ch with
  | ' ' | '\t' => (s, 0)
  | '\n' | '\r' => (s.because newline, 0)
  | '\'' => (s.goto inSingleQuote, 0)
  | '"' => (s.goto inDoubleQuote, 0)
  | '\\' =>
    match rest with
    | '\n' :: _ => (s.because newline, 1)
    | _ :: _ => (s.goto backslashEscape, 0)
    | [] => ((s.push '\\').goto inWord, 0)
  | '|' =>
    match rest with
    | '|' :: _ => (s.because andOr, 1)
    | _ => (s.because pipe, 0)
  | ';' => (s.because semicolon, 0)
  | '&' =>
    match rest with
    | '&' :: _ => (s.because andOr, 1)
    | _ => (s.because background, 0)
  | '$' =>
    match rest with
    | '(' :: _ => (s.because commandSubstitution, 1)
    | '{' :: inner => (s.because variableExpansion, 1 + braceSpan 1 inner)
    | _ =>
      if startsName rest then (s.because variableExpansion, 0)
      else ((s.push ch).goto inWord, 0)
  | '`' => (s.because commandSubstitution, 0)
  | '<' =>
    match rest with
    | '<' :: _ => (s.because heredoc, 1)
    | _ => (s.because redirection, 0)
  | '>' =>
    match rest with
    | '>' :: _ => (s.because redirection, 1)
    | _ => (s.because redirection, 0)
  | '2' =>
    match rest with
    | '>' :: '&' :: '1' :: _ => (s.because redirection, 3)
    | '>' :: '&' :: _ => (s.because redirection, 2)
    | '>' :: _ => (s.because redirection, 1)
    | _ => ((s.push ch).goto inWord, 0)
  | '*' | '?' => (((s.because glob).push ch).goto inWord, 0)
  | '[' =>
    let s := if closesBracket rest then s.because glob else s
    ((s.push ch).goto inWord, 0)
  | '~' => (((s.because tilde).push ch).goto inWord, 0)
  | _ => ((s.push ch).goto inWord, 0)

open WordScan ShellComplexityReason ParseState in
/-- One character of an unquoted word. -/
def stepInWord (s : WordScan) (ch : Char) (rest : List Char) : WordScan × ℕ :=
  match ch with
  | ' ' | '\t' => (s.endWord.goto betweenWords, 0)
  | '\n' | '\r' => ((s.endWord.because newline).goto betweenWords, 0)
  | '\'' => (s.goto inSingleQuote, 0)
  | '"' => (s.goto inDoubleQuote, 0)
  | '\\' =>
    match rest with
    | '\n' :: _ => ((s.endWord.because newline).goto betweenWords, 1)
    | _ :: _ => (s.goto backslashEscape, 0)
    | [] => (s.push '\\', 0)
  | '|' =>
    match rest with
    | '|' :: _ => ((s.endWord.because andOr).goto betweenWords, 1)
    | _ => ((s.endWord.because pipe).goto betweenWords, 0)
  | ';' => ((s.endWord.because semicolon).goto betweenWords, 0)
  | '&' =>
    match rest with
    | '&' :: _ => ((s.endWord.because andOr).goto betweenWords, 1)
    | _ => ((s.endWord.because background).goto betweenWords, 0)
  | '$' =>
    match rest with
    | '(' :: _ => ((s.endWord.because commandSubstitution).goto betweenWords, 1)
    | '{' :: inner => (s.because variableExpansion, 1 + braceSpan 1 inner)
    | _ =>
      if startsName rest then ((s.endWord.because variableExpansion).goto betweenWords, 0)
      else (s.push ch, 0)
  | '`' => ((s.endWord.because commandSubstitution).goto betweenWords, 0)
  | '<' =>
    match rest with
    | '<' :: _ => ((s.endWord.because heredoc).goto betweenWords, 1)
    | _ => ((s.endWord.because redirection).goto betweenWords, 0)
  | '>' =>
    match rest with
    | '>' :: _ => ((s.endWord.because redirection).goto betweenWords, 1)
    | _ => ((s.endWord.because redirection).goto betweenWords, 0)
  | '2' =>
    match rest with
    | '>' :: '&' :: '1' :: _ => ((s.endWord.because redirection).goto betweenWords, 3)
    | '>' :: '&' :: _ => ((s.endWord.because redirection).goto betweenWords, 2)
    | '>' :: _ => ((s.endWord.because redirection).goto betweenWords, 1)
    | _ => (s.push ch, 0)
  | '*' | '?' => ((s.because glob).push ch, 0)
  | '[' => ((if closesBracket rest then s.because glob else s).push ch, 0)
  | _ => (s.push ch, 0)

open WordScan ShellComplexityReason ParseState in
/-- One character between double quotes. -/
def stepInDoubleQuote (s : WordScan) (ch : Char) (rest : List Char) : WordScan × ℕ :=
  match ch with
  | '"' => (s.goto inWord, 0)
  | '\\' =>
    match rest with
    | next :: _ =>
      if next = '"' || next = '\\' || next = '$' || next = '`' then
        (s.goto inDoubleQuoteEscaped, 0)
      else (s.push '\\', 0)
    | [] => (s.push '\\', 0)
  | '$' =>
    match rest with
    | '(' :: _ => (s.because commandSubstitution, 1)
    | '{' :: inner => (s.because variableExpansion, 1 + braceSpan 1 inner)
    | _ => if startsName rest then (s.because variableExpansion, 0) else (s.push ch, 0)
  | '`' => (s.because commandSubstitution, 0)
  | _ => (s.push ch, 0)

def stepWord (s : WordScan) (ch : Char) (rest : List Char) : WordScan × ℕ :=
  match s.state with
  | .betweenWords => stepBetweenWords s ch rest
  | .inWord => stepInWord s ch rest
  | .inSingleQuote => if ch = '\'' then (s.goto .inWord, 0) else (s.push ch, 0)
  | .inDoubleQuote => stepInDoubleQuote s ch rest
  | .inDoubleQuoteEscaped =>
    -- only these four characters are entered with a backslash before them
    if ch = '"' || ch = '\\' || ch = '$' || ch = '`' then ((s.push ch).goto .inDoubleQuote, 0)
    else (((s.push '\\').push ch).goto .inDoubleQuote, 0)
  | .backslashEscape => ((s.push ch).goto .inWord, 0)

/-- The scan of a text whose first `skip` characters are used up already. -/
def scanWords : ℕ → WordScan → List Char → WordScan
  | _, s, [] => s
  | skip + 1, s, _ :: cs => scanWords skip s cs
  | 0, s, c :: cs => scanWords (stepWord s c cs).2 (stepWord s c cs).1 cs

/-- The word in progress at the end. -/
def WordScan.flush (s : WordScan) : WordScan :=
  match s.state with
  | .inSingleQuote | .inDoubleQuote | .inDoubleQuoteEscaped =>
    let s := s.because .unbalancedQuotes
    if s.current.isEmpty then s else s.endWord
  | .inWord | .backslashEscape => s.endWord
  | .betweenWords => s

def looksLikeEnvAssignment (word : List Char) : Bool :=
  let name := word.takeWhile (· ≠ '=')
  name.length < word.length &&
    match name with
    | first :: others =>
      (first.isAlpha || first = '_') && others.all fun c => c.isAlphanum || c = '_'
    | [] => false

/-- `str::trim`. -/
def trim (cs : List Char) : List Char :=
  ((cs.dropWhile isWhitespace).reverse.dropWhile isWhitespace).reverse

def sortReasons (reasons : List ShellComplexityReason) : List ShellComplexityReason :=
  (reasons.insertionSort fun a b => a.rank ≤ b.rank).destutter (· ≠ ·)

def parseShellWords (command : List Char) : ShellShape :=
  let trimmed := trim command
  if trimmed.isEmpty then .empty
  else
    let s := (scanWords 0 .start trimmed).flush
    if !s.reasons.isEmpty then .complexShell (sortReasons s.reasons)
    else
      match s.words with
      | [] => .empty
      | [word] => .simpleArgv [word]
      | word :: others =>
        if looksLikeEnvAssignment word then .complexShell [.envAssignment]
        else .simpleArgv (word :: others)

example : parseShellWords "echo \"he said \\\"hi\\\"\" x".toList =
    .simpleArgv ["echo".toList, "he said \"hi\"".toList, "x".toList] := by decide

end Codegg.Permission
