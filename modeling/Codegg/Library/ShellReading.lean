import Mathlib.Data.List.Basic
import Mathlib.Tactic

/-!
# Commands of plain words in the shell language

A text is read character by character, as the shell recognizes tokens: quotes and escapes, comments,
operators, expansions, and a backslash before the end of a line, which joins lines. The reading goes
on as long as the text is one command of words. What is more than that ends it.
-/
namespace Codegg.Library.Shell

section Words

/-- A character of a word. When it was quoted it stands for itself. -/
structure WordChar where
  char : Char
  quoted : Bool
  deriving DecidableEq

structure Word where
  /-- The word as it is written. -/
  raw : List Char
  chars : List WordChar
  deriving DecidableEq

namespace Word

def empty : Word := ⟨[], []⟩

def add (raw : List Char) (chars : List WordChar) (w : Word) : Word :=
  ⟨w.raw ++ raw, w.chars ++ chars⟩

/-- The word when its quotes are removed. -/
def text (w : Word) : List Char := w.chars.map WordChar.char

end Word

/-- What a text has that a command of plain words has not. -/
inductive Construct
  | operator
  | expansion
  | comment
  | anotherLine
  | openQuote
  deriving DecidableEq

end Words

section Reading

inductive Mode
  /-- Between words. -/
  | outside
  /-- In a word, outside of quotes. -/
  | inside
  | single
  | double
  /-- Behind the end of the line of the command. -/
  | behind
  deriving DecidableEq

structure Reading where
  mode : Mode
  current : Word
  words : List Word

namespace Reading

def start : Reading := ⟨.outside, .empty, []⟩

def goto (mode : Mode) (r : Reading) : Reading := { r with mode := mode }

/-- More of the current word. -/
def add (raw : List Char) (chars : List WordChar) (r : Reading) : Reading :=
  { r with current := r.current.add raw chars }

/-- A character that stands for itself. -/
def literal (c : Char) (r : Reading) : Reading := (r.add [c] [⟨c, false⟩]).goto .inside

/-- A blank ends a word. -/
def endWord (r : Reading) : Reading :=
  if r.mode = .inside then ⟨.outside, .empty, r.words ++ [r.current]⟩ else r

/-- A line without words is skipped. -/
def endLine (r : Reading) : Reading := if r.words = [] then r else r.goto .behind

end Reading

def isSpecialParameter (c : Char) : Bool := ['@', '*', '#', '?', '-', '$', '!'].contains c

/-- Whether what is behind a dollar sign makes an expansion of it. -/
def startsExpansion (rest : List Char) : Bool :=
  match rest with
  | c :: _ => c = '(' || c = '{' || c.isAlpha || c = '_' || c.isDigit || isSpecialParameter c
  | [] => false

/-- A dollar sign before a quote is left open by the language. -/
def startsQuote (rest : List Char) : Bool :=
  match rest with
  | c :: _ => c = '\'' || c = '"'
  | [] => false

/-- One character outside of quotes; the number is how many of the next are read with it. -/
def stepUnquoted (r : Reading) (c : Char) (rest : List Char) : Except Construct (Reading × ℕ) :=
  match c with
  | ' ' | '\t' => .ok (r.endWord, 0)
  | '\n' => .ok (r.endWord.endLine, 0)
  | '\\' =>
    match rest with
    | [] => .ok ((r.add ['\\'] [⟨'\\', true⟩]).goto .inside, 0)
    | next :: _ =>
      if next = '\n' then .ok (r, 1) else .ok ((r.add ['\\', next] [⟨next, true⟩]).goto .inside, 1)
  | '\'' => .ok ((r.add ['\''] []).goto .single, 0)
  | '"' => .ok ((r.add ['"'] []).goto .double, 0)
  | '|' | '&' | ';' | '<' | '>' | '(' | ')' => .error .operator
  | '`' => .error .expansion
  | '$' =>
    if startsExpansion rest || startsQuote rest then .error .expansion else .ok (r.literal '$', 0)
  | '#' => if r.mode = .outside then .error .comment else .ok (r.literal '#', 0)
  | _ => .ok (r.literal c, 0)

/-- One character in single quotes. -/
def stepSingle (r : Reading) (c : Char) : Reading :=
  if c = '\'' then (r.add ['\''] []).goto .inside else r.add [c] [⟨c, true⟩]

/-- The characters that a backslash quotes in double quotes. -/
def isEscapable (c : Char) : Bool := ['$', '`', '"', '\\'].contains c

/-- One character in double quotes. -/
def stepDouble (r : Reading) (c : Char) (rest : List Char) : Except Construct (Reading × ℕ) :=
  match c with
  | '"' => .ok ((r.add ['"'] []).goto .inside, 0)
  | '\\' =>
    match rest with
    | [] => .ok (r.add ['\\'] [⟨'\\', true⟩], 0)
    | next :: _ =>
      if next = '\n' then .ok (r, 1)
      else if isEscapable next then .ok (r.add ['\\', next] [⟨next, true⟩], 1)
      else .ok (r.add ['\\'] [⟨'\\', true⟩], 0)
  | '`' => .error .expansion
  | '$' => if startsExpansion rest then .error .expansion else .ok (r.add ['$'] [⟨'$', true⟩], 0)
  | _ => .ok (r.add [c] [⟨c, true⟩], 0)

/-- One character behind the command. -/
def stepBehind (r : Reading) (c : Char) (rest : List Char) : Except Construct (Reading × ℕ) :=
  if c = ' ' ∨ c = '\t' ∨ c = '\n' then .ok (r, 0)
  else if c = '\\' ∧ rest.head? = some '\n' then .ok (r, 1)
  else if c = '#' then .error .comment
  else .error .anotherLine

def step (r : Reading) (c : Char) (rest : List Char) : Except Construct (Reading × ℕ) :=
  match r.mode with
  | .outside | .inside => stepUnquoted r c rest
  | .single => .ok (stepSingle r c, 0)
  | .double => stepDouble r c rest
  | .behind => stepBehind r c rest

/-- The reading of a text whose first `skip` characters were read already. -/
def readFrom : ℕ → Reading → List Char → Except Construct Reading
  | _, r, [] => .ok r
  | skip + 1, r, _ :: cs => readFrom skip r cs
  | 0, r, c :: cs =>
    match step r c cs with
    | .error construct => .error construct
    | .ok (r, skip) => readFrom skip r cs

/-- The words at the end of a text. -/
def Reading.close (r : Reading) : Except Construct (List Word) :=
  match r.mode with
  | .outside | .behind => .ok r.words
  | .inside => .ok (r.words ++ [r.current])
  | .single | .double => .error .openQuote

/-- The words of a command of words. -/
def readCommand (text : List Char) : Except Construct (List Word) :=
  match readFrom 0 .start text with
  | .error construct => .error construct
  | .ok r => r.close

variable {r : Reading} {c : Char} {rest : List Char}

/-- All characters of the words so far, without their quotes. -/
def Reading.flat (r : Reading) : List Char := r.words.flatMap Word.text ++ r.current.text

@[simp] theorem flat_goto (mode : Mode) : (r.goto mode).flat = r.flat := rfl

@[simp] theorem flat_add (raw : List Char) (chars : List WordChar) :
    (r.add raw chars).flat = r.flat ++ chars.map WordChar.char := by
  simp [Reading.flat, Reading.add, Word.add, Word.text]

@[simp] theorem flat_literal (c : Char) : (r.literal c).flat = r.flat ++ [c] := by
  simp [Reading.literal]

@[simp] theorem flat_endWord : r.endWord.flat = r.flat := by
  unfold Reading.endWord
  split_ifs
  · simp [Reading.flat, Word.empty, Word.text]
  · rfl

@[simp] theorem flat_endLine : r.endLine.flat = r.flat := by
  unfold Reading.endLine
  split_ifs <;> rfl

/-- Outside of words there is no word. -/
def Reading.IsSettled (r : Reading) : Prop := r.mode = .outside ∨ r.mode = .behind → r.current = .empty

theorem isSettled_stepUnquoted {r₁ : Reading} {skip : ℕ} (h : r.IsSettled)
    (hmode : r.mode = .outside ∨ r.mode = .inside) (hstep : stepUnquoted r c rest = .ok (r₁, skip)) :
    r₁.IsSettled := by
  have hend : r.endWord.current = .empty := by
    unfold Reading.endWord
    split_ifs with hinside
    · rfl
    · exact h (.inl (hmode.resolve_right hinside))
  have hline : r.endWord.endLine.current = .empty := by
    unfold Reading.endLine
    split_ifs <;> exact hend
  unfold stepUnquoted at hstep
  split at hstep
  all_goals try split at hstep
  all_goals try split at hstep
  all_goals try cases hstep
  all_goals first
    | exact fun _ => hend
    | exact fun _ => hline
    | exact h
    | simp [Reading.IsSettled, Reading.goto, Reading.literal]

theorem isSettled_step {r₁ : Reading} {skip : ℕ} (h : r.IsSettled)
    (hstep : step r c rest = .ok (r₁, skip)) : r₁.IsSettled := by
  unfold step at hstep
  cases hmode : r.mode with
  | outside =>
    rw [hmode] at hstep
    exact isSettled_stepUnquoted h (.inl hmode) hstep
  | inside =>
    rw [hmode] at hstep
    exact isSettled_stepUnquoted h (.inr hmode) hstep
  | single =>
    rw [hmode] at hstep
    cases hstep
    unfold stepSingle
    split_ifs <;> simp [Reading.IsSettled, Reading.goto, Reading.add, hmode]
  | double =>
    rw [hmode] at hstep
    have hdouble : stepDouble r c rest = .ok (r₁, skip) := hstep
    unfold stepDouble at hdouble
    split at hdouble
    all_goals try split at hdouble
    all_goals try split_ifs at hdouble
    all_goals try cases hdouble
    all_goals simp [Reading.IsSettled, Reading.goto, Reading.add, hmode]
  | behind =>
    rw [hmode] at hstep
    dsimp only [stepBehind] at hstep
    split_ifs at hstep
    all_goals cases hstep
    all_goals exact h

theorem isSettled_readFrom {skip : ℕ} {r₁ : Reading} (h : r.IsSettled)
    (hread : readFrom skip r rest = .ok r₁) : r₁.IsSettled := by
  induction rest generalizing skip r with
  | nil =>
    cases skip <;> cases hread <;> exact h
  | cons c rest ih =>
    cases skip with
    | succ skip => exact ih h hread
    | zero =>
      rw [readFrom] at hread
      cases hstep : step r c rest with
      | error e => simp [hstep] at hread
      | ok next =>
        rw [hstep] at hread
        exact ih (isSettled_step h hstep) hread

theorem isSettled_start : Reading.start.IsSettled := fun _ => rfl

/-- All characters are in the words at the end. -/
theorem flat_of_close {ws : List Word} (h : r.IsSettled) (hclose : r.close = .ok ws) :
    r.flat = (ws.map Word.text).flatten := by
  have hempty : Word.empty.text = [] := rfl
  unfold Reading.close at hclose
  cases hmode : r.mode with
  | inside =>
    simp only [hmode, Except.ok.injEq] at hclose
    subst hclose
    simp [Reading.flat, List.flatMap_def]
  | outside =>
    simp only [hmode, Except.ok.injEq] at hclose
    subst hclose
    simp [Reading.flat, h (.inl hmode), hempty, List.flatMap_def]
  | behind =>
    simp only [hmode, Except.ok.injEq] at hclose
    subst hclose
    simp [Reading.flat, h (.inr hmode), hempty, List.flatMap_def]
  | single => simp [hmode] at hclose
  | double => simp [hmode] at hclose

theorem stepUnquoted_literal (hc : c ∉ [' ', '\t', '\n', '\\', '\'', '"', '|', '&', ';', '<', '>',
    '(', ')', '`', '$', '#']) : stepUnquoted r c rest = .ok (r.literal c, 0) := by
  unfold stepUnquoted
  split <;> first | rfl | simp at hc

theorem stepDouble_literal (hc : c ∉ ['"', '\\', '`', '$']) :
    stepDouble r c rest = .ok (r.add [c] [⟨c, true⟩], 0) := by
  unfold stepDouble
  split <;> first | rfl | simp at hc

end Reading

section Meaning

def reservedWords : List (List Char) :=
  ["!", "\x7b", "\x7d", "case", "do", "done", "elif", "else", "esac", "fi", "for", "if", "in", "then",
    "until", "while"].map String.toList

def Word.isReserved (w : Word) : Bool := reservedWords.contains w.raw

def isName (cs : List Char) : Bool :=
  match cs with
  | [] => false
  | c :: cs => (c.isAlpha || c = '_') && cs.all fun c => c.isAlphanum || c = '_'

/-- A name before an equals sign. -/
def Word.isAssignment (w : Word) : Bool :=
  w.raw.contains '=' && isName (w.raw.takeWhile (· ≠ '='))

def Word.startsTilde (w : Word) : Bool := w.raw.head? = some '~'

/-- A bracket that is closed before the next slash. -/
def closes : List WordChar → Bool
  | [] => false
  | c :: cs =>
    if c.char = ']' ∧ c.quoted = false then true else if c.char = '/' then false else closes cs

/-- The first character of a bracket, behind a mark for the complement, does not close it. -/
def isBracket (behind : List WordChar) : Bool :=
  match behind with
  | [] => false
  | c :: cs =>
    if c.char = '!' ∧ c.quoted = false then
      match cs with
      | [] => false
      | c :: cs => c.char ≠ '/' && closes cs
    else c.char ≠ '/' && closes cs

def hasBracket : List WordChar → Bool
  | [] => false
  | c :: cs => (c.char = '[' && !c.quoted && isBracket cs) || hasBracket cs

/-- A word that is replaced by the names of files. -/
def Word.isPattern (w : Word) : Bool :=
  w.chars.any (fun c => !c.quoted && (c.char = '*' || c.char = '?')) || hasBracket w.chars

/-- The text is one simple command with these words, and nothing in it is expanded. -/
def IsPlainCommand (text : List Char) (words : List (List Char)) : Prop :=
  ∃ w ws, readCommand text = .ok (w :: ws) ∧ w.isReserved = false ∧ w.isAssignment = false ∧
    (∀ x ∈ w :: ws, x.startsTilde = false ∧ x.isPattern = false) ∧ (w :: ws).map Word.text = words

end Meaning

end Codegg.Library.Shell
