import Codegg.Library.ShellReading
import Codegg.Permission.ShellWords
import Mathlib

/-!
# Words of a command and the shell's own reading

The scanner of words and the shell read a command in step, up to the few characters that the
scanner does not know: a comment, a group, a parameter that is no name, and a line that goes on.
-/
namespace Codegg.Permission

open Codegg.Library Shell

open Word

section Condition

/-- Blanks at the start of a command. -/
def leadOf (command : List Char) : List Char := command.takeWhile isWhitespace

/-- Blanks at its end. -/
def tailOf (command : List Char) : List Char :=
  ((command.dropWhile isWhitespace).reverse.takeWhile isWhitespace).reverse

/-- The shell knows these as blanks. -/
def isShellBlank (c : Char) : Bool := c = ' ' || c = '\t' || c = '\n'

/-- Whether the shell takes a character as the scanner does. The tail was cut off the text. -/
def plainStep (tail : List Char) (state : ParseState) (c : Char) (rest : List Char) : Bool :=
  match state with
  | .betweenWords | .inWord =>
    if c = '(' ∨ c = ')' then false
    else if c = '#' then decide (state = .inWord)
    else if c = '$' then !startsExpansion rest && !startsQuote rest
    else if c = '\\' ∧ rest = [] then tail.isEmpty
    else true
  | .inDoubleQuote =>
    if c = '$' then !startsExpansion rest
    else if c = '\\' then decide (rest.head? ≠ some '\n')
    else true
  | _ => true

/-- Every character of the rest of a command is taken as the scanner does. -/
def plainFrom (tail : List Char) : ℕ → WordScan → List Char → Bool
  | _, _, [] => true
  | skip + 1, s, _ :: cs => plainFrom tail skip s cs
  | 0, s, c :: cs =>
    plainStep tail s.state c cs && plainFrom tail (stepWord s c cs).2 (stepWord s c cs).1 cs

/-- What the scanner does not look at is not in a command. -/
structure IsPlain (command : List Char) : Prop where
  blanks : ∀ c ∈ leadOf command ++ tailOf command, isShellBlank c = true
  characters : plainFrom (tailOf command) 0 .start (trim command) = true
  /-- Reserved words, assignments and brackets, in the words as the shell reads them. -/
  words : ∀ w ws, readCommand command = .ok (w :: ws) → w.isReserved = false ∧
    w.isAssignment = false ∧ ∀ x ∈ w :: ws, hasBracket x.chars = false

end Condition

attribute [local simp] stepWord

section Moves

open WordScan

/-- What the scanner does without a reason, over one character or an escape. -/
inductive Move : WordScan → List Char → WordScan → List Char → Prop
  | skip {s c rest} (hs : s.state = .betweenWords) (hc : c = ' ' ∨ c = '\t') :
    Move s (c :: rest) s rest
  | endWord {s c rest} (hs : s.state = .inWord) (hc : c = ' ' ∨ c = '\t') :
    Move s (c :: rest) (s.endWord.goto .betweenWords) rest
  | openSingle {s rest} (hs : s.state = .betweenWords ∨ s.state = .inWord) :
    Move s ('\'' :: rest) (s.goto .inSingleQuote) rest
  | openDouble {s rest} (hs : s.state = .betweenWords ∨ s.state = .inWord) :
    Move s ('"' :: rest) (s.goto .inDoubleQuote) rest
  | escape {s d rest} (hs : s.state = .betweenWords ∨ s.state = .inWord) (hd : d ≠ '\n') :
    Move s ('\\' :: d :: rest) ((s.push d).goto .inWord) rest
  | lastBackslash {s} (hs : s.state = .betweenWords ∨ s.state = .inWord) :
    Move s ['\\'] ((s.push '\\').goto .inWord) []
  | plain {s c rest} (hs : s.state = .betweenWords ∨ s.state = .inWord)
    (hc : c ∉ [' ', '\t', '\n', '\'', '"', '\\', '|', '&', ';', '<', '>', '`', '*', '?'])
    (htilde : s.state = .betweenWords → c ≠ '~')
    (hstep : stepWord s c rest = ((s.push c).goto .inWord, 0)) :
    Move s (c :: rest) ((s.push c).goto .inWord) rest
  | closeSingle {s rest} (hs : s.state = .inSingleQuote) :
    Move s ('\'' :: rest) (s.goto .inWord) rest
  | inSingle {s c rest} (hs : s.state = .inSingleQuote) (hc : c ≠ '\'') :
    Move s (c :: rest) (s.push c) rest
  | closeDouble {s rest} (hs : s.state = .inDoubleQuote) :
    Move s ('"' :: rest) (s.goto .inWord) rest
  | escapeDouble {s d rest} (hs : s.state = .inDoubleQuote) (hd : isEscapable d = true) :
    Move s ('\\' :: d :: rest) ((s.push d).goto .inDoubleQuote) rest
  | backslashDouble {s rest} (hs : s.state = .inDoubleQuote)
    (hd : ∀ d, rest.head? = some d → isEscapable d = false ∧ d ≠ '\n') :
    Move s ('\\' :: rest) (s.push '\\') rest
  | lineDouble {s rest} (hs : s.state = .inDoubleQuote) :
    Move s ('\\' :: '\n' :: rest) ((s.push '\\').push '\n') rest
  | inDouble {s c rest} (hs : s.state = .inDoubleQuote) (hc : c ∉ ['"', '\\', '`'])
    (hstep : stepWord s c rest = (s.push c, 0)) : Move s (c :: rest) (s.push c) rest

/-- States that the scanner has at the end of a command. -/
def IsResting (s : WordScan) : Prop := s.state ≠ .backslashEscape ∧ s.state ≠ .inDoubleQuoteEscaped

/-- A scan of the rest of a command that goes by moves. -/
inductive Scan : WordScan → List Char → Prop
  | nil {s} (hs : IsResting s) : Scan s []
  | move {s c rest s' cs'} (hmove : Move s (c :: rest) s' cs') (hnext : Scan s' cs') :
    Scan s (c :: rest)

variable {s s' : WordScan} {c : Char} {rest cs cs' : List Char}

attribute [local simp] stepBetweenWords stepInWord goto IsResting stepInDoubleQuote

@[simp] theorem reasons_goto (state : ParseState) : (s.goto state).reasons = s.reasons := rfl

@[simp] theorem reasons_push : (s.push c).reasons = s.reasons := rfl

@[simp] theorem reasons_endWord : s.endWord.reasons = s.reasons := rfl

@[simp] theorem reasons_because (reason : ShellComplexityReason) :
    (s.because reason).reasons = s.reasons ++ [reason] := rfl

theorem goto_push {state : ParseState} (h : s.state = state) :
    (s.push c).goto state = s.push c := by
  subst h
  rfl

theorem reasons_stepBetweenWords : s.reasons <+: (stepBetweenWords s c rest).1.reasons := by
  unfold stepBetweenWords
  split
  all_goals try (split <;> try split)
  all_goals simp

theorem reasons_stepInWord : s.reasons <+: (stepInWord s c rest).1.reasons := by
  unfold stepInWord
  split
  all_goals try (split <;> try split)
  all_goals simp

theorem reasons_stepInDoubleQuote : s.reasons <+: (stepInDoubleQuote s c rest).1.reasons := by
  unfold stepInDoubleQuote
  split
  all_goals try (split <;> try split)
  all_goals simp

theorem reasons_stepWord : s.reasons <+: (stepWord s c rest).1.reasons := by
  unfold stepWord
  split
  · exact reasons_stepBetweenWords
  · exact reasons_stepInWord
  · split <;> simp
  · exact reasons_stepInDoubleQuote
  · split <;> simp
  · simp

/-- Reasons are kept. -/
theorem reasons_scanWords (skip : ℕ) : s.reasons <+: (scanWords skip s cs).reasons := by
  induction cs generalizing skip s with
  | nil => cases skip <;> exact List.prefix_refl _
  | cons c cs ih =>
    cases skip with
    | zero => exact reasons_stepWord.trans (ih _)
    | succ skip => exact ih skip

theorem isEscapable_iff : isEscapable c = true ↔ c = '"' ∨ c = '\\' ∨ c = '$' ∨ c = '`' := by
  simp only [isEscapable, List.contains_cons, Bool.or_eq_true,
    beq_iff_eq]
  tauto

theorem move_of_betweenWords (hs : s.state = .betweenWords)
    (h : (stepWord s c rest).1.reasons = s.reasons) : ∃ s' cs', Move s (c :: rest) s' cs' := by
  have hstep : stepWord s c rest = stepBetweenWords s c rest := by rw [stepWord, hs]
  rw [hstep] at h
  unfold stepBetweenWords at h hstep
  split at h
  · exact ⟨_, _, .skip hs (.inl rfl)⟩
  · exact ⟨_, _, .skip hs (.inr rfl)⟩
  · simp at h
  · simp at h
  · exact ⟨_, _, .openSingle (.inl hs)⟩
  · exact ⟨_, _, .openDouble (.inl hs)⟩
  · split at h
    · simp at h
    · rename_i d rest hd
      exact ⟨_, _, .escape (.inl hs) (by simpa using hd)⟩
    · exact ⟨_, _, .lastBackslash (.inl hs)⟩
  · split at h <;> simp at h
  · simp at h
  · split at h <;> simp at h
  · refine ⟨_, _, .plain (.inl hs) (by decide) (fun _ => by decide) ?_⟩
    split at h
    · simp at h
    · simp at h
    · split at h
      · simp at h
      · rename_i hname
        rw [hstep]
        simp [hname]
  · simp at h
  · split at h <;> simp at h
  · split at h <;> simp at h
  · refine ⟨_, _, .plain (.inl hs) (by decide) (fun _ => by decide) ?_⟩
    rw [hstep]
    split at h <;> first | (simp at h; done) | rfl
  · simp at h
  · simp at h
  · refine ⟨_, _, .plain (.inl hs) (by decide) (fun _ => by decide) ?_⟩
    rw [hstep]
    split at h
    · simp at h
    · rename_i hbracket
      simp [hbracket]
  · simp at h
  · refine ⟨_, _, .plain (.inl hs) ?_ (fun _ => ?_) ?_⟩
    · simp_all
    · simp_all
    · rw [hstep]
      split <;> first | rfl | contradiction

theorem move_of_inWord (hs : s.state = .inWord)
    (h : (stepWord s c rest).1.reasons = s.reasons) : ∃ s' cs', Move s (c :: rest) s' cs' := by
  have htilde {c : Char} : s.state = .betweenWords → c ≠ '~' := by simp [hs]
  have hword {c : Char} : (s.push c).goto .inWord = s.push c := goto_push hs
  have hstep : stepWord s c rest = stepInWord s c rest := by rw [stepWord, hs]
  rw [hstep] at h
  unfold stepInWord at h hstep
  split at h
  · exact ⟨_, _, .endWord hs (.inl rfl)⟩
  · exact ⟨_, _, .endWord hs (.inr rfl)⟩
  · simp at h
  · simp at h
  · exact ⟨_, _, .openSingle (.inr hs)⟩
  · exact ⟨_, _, .openDouble (.inr hs)⟩
  · split at h
    · simp at h
    · rename_i d rest hd
      exact ⟨_, _, .escape (.inr hs) (by simpa using hd)⟩
    · exact ⟨_, _, .lastBackslash (.inr hs)⟩
  · split at h <;> simp at h
  · simp at h
  · split at h <;> simp at h
  · refine ⟨_, _, .plain (.inr hs) (by decide) htilde ?_⟩
    split at h
    · simp at h
    · simp at h
    · split at h
      · simp at h
      · rename_i hname
        rw [hstep, hword]
        simp [hname]
  · simp at h
  · split at h <;> simp at h
  · split at h <;> simp at h
  · refine ⟨_, _, .plain (.inr hs) (by decide) htilde ?_⟩
    rw [hstep, hword]
    split at h <;> first | (simp at h; done) | rfl
  · simp at h
  · simp at h
  · refine ⟨_, _, .plain (.inr hs) (by decide) htilde ?_⟩
    rw [hstep, hword]
    by_cases hbracket : closesBracket rest = true
    · simp [hbracket] at h
    · simp [hbracket]
  · refine ⟨_, _, .plain (.inr hs) ?_ htilde ?_⟩
    · simp_all
    · rw [hstep, hword]
      split <;> first | rfl | contradiction

theorem move_of_inDoubleQuote (hs : s.state = .inDoubleQuote)
    (h : (stepWord s c rest).1.reasons = s.reasons) : ∃ s' cs', Move s (c :: rest) s' cs' := by
  have hstep : stepWord s c rest = stepInDoubleQuote s c rest := by rw [stepWord, hs]
  by_cases hback : c = '\\'
  · subst hback
    cases rest with
    | nil => exact ⟨_, _, .backslashDouble hs (by simp)⟩
    | cons d rest =>
      by_cases hescape : isEscapable d = true
      · exact ⟨_, _, .escapeDouble hs hescape⟩
      · by_cases hline : d = '\n'
        · subst hline
          exact ⟨_, _, .lineDouble hs⟩
        · exact ⟨_, _, .backslashDouble hs (by simpa [hline] using hescape)⟩
  · rw [hstep] at h
    unfold stepInDoubleQuote at h hstep
    split at h
    · exact ⟨_, _, .closeDouble hs⟩
    · exact absurd rfl hback
    · refine ⟨_, _, .inDouble hs (by decide) ?_⟩
      split at h
      · simp at h
      · simp at h
      · split at h
        · simp at h
        · rename_i hname
          rw [hstep]
          simp [hname]
    · simp at h
    · refine ⟨_, _, .inDouble hs ?_ ?_⟩
      · simp_all
      · rw [hstep]
        split <;> first | rfl | contradiction

/-- Without a reason the scanner makes one of the moves. -/
theorem exists_move (hs : IsResting s) (h : (stepWord s c rest).1.reasons = s.reasons) :
    ∃ s' cs', Move s (c :: rest) s' cs' := by
  cases hstate : s.state with
  | betweenWords => exact move_of_betweenWords hstate h
  | inWord => exact move_of_inWord hstate h
  | inSingleQuote =>
    by_cases hclose : c = '\''
    · subst hclose
      exact ⟨_, _, .closeSingle hstate⟩
    · exact ⟨_, _, .inSingle hstate hclose⟩
  | inDoubleQuote => exact move_of_inDoubleQuote hstate h
  | inDoubleQuoteEscaped => exact absurd hstate hs.2
  | backslashEscape => exact absurd hstate hs.1

/-- The step of a move that takes one character. -/
theorem Move.stepWord_eq (h : Move s (c :: rest) s' cs') :
    (rest = cs' ∧ stepWord s c rest = (s', 0)) ∨
      ∃ d, rest = d :: cs' ∧ (stepWord s c rest).2 = 0 ∧
        stepWord (stepWord s c rest).1 d cs' = (s', 0) ∧
        ∀ tail, plainStep tail (stepWord s c rest).1.state d cs' = true := by
  cases h with
  | skip hs hc =>
    left
    rcases hc with rfl | rfl <;> simp [hs]
  | endWord hs hc =>
    left
    rcases hc with rfl | rfl <;> simp [hs]
  | openSingle hs =>
    left
    rcases hs with hs | hs <;> simp [hs]
  | openDouble hs =>
    left
    rcases hs with hs | hs <;> simp [hs]
  | escape hs hd =>
    right
    rename_i d
    refine ⟨d, rfl, ?_⟩
    have hstep : stepWord s '\\' (d :: cs') = (s.goto .backslashEscape, 0) := by
      rcases hs with hs | hs <;> simp [hs]
    rw [hstep]
    exact ⟨rfl, rfl, fun tail => rfl⟩
  | lastBackslash hs =>
    left
    rcases hs with hs | hs
    · simp [hs]
    · rw [goto_push hs]
      simp [hs]
  | plain hs hc htilde hstep => exact .inl ⟨rfl, hstep⟩
  | closeSingle hs => simp [hs]
  | inSingle hs hc => simp [hs, hc]
  | closeDouble hs => simp [hs]
  | escapeDouble hs hd =>
    right
    rename_i d
    refine ⟨d, rfl, ?_⟩
    have hescape := isEscapable_iff.1 hd
    have hstep : stepWord s '\\' (d :: cs') = (s.goto .inDoubleQuoteEscaped, 0) := by
      simp [hs, hescape, or_assoc]
    rw [hstep]
    refine ⟨rfl, ?_, fun tail => rfl⟩
    have hany : d = '"' ∨ d = '\\' ∨ d = '$' ∨ d = '`' := hescape
    simp [hany, push, or_assoc]
  | backslashDouble hs hd =>
    cases rest with
    | nil => simp [hs]
    | cons d rest =>
      have hescape := mt isEscapable_iff.2 (by simpa using (hd d rfl).1)
      simp only [not_or] at hescape
      simp [hs, hescape]
  | lineDouble hs =>
    right
    refine ⟨'\n', rfl, ?_⟩
    have hstep : stepWord s '\\' ('\n' :: cs') = (s.push '\\', 0) := by
      simp [hs]
    rw [hstep]
    have hstate : (s.push '\\').state = .inDoubleQuote := hs
    refine ⟨rfl, ?_, fun tail => ?_⟩
    · simp [hstate]
    · simp [hstate, plainStep]
  | inDouble hs hc hstep => exact .inl ⟨rfl, hstep⟩

theorem Move.scanWords_eq (h : Move s (c :: rest) s' cs') :
    scanWords 0 s (c :: rest) = scanWords 0 s' cs' := by
  obtain ⟨rfl, hstep⟩ | ⟨d, rfl, hskip, hstep, -⟩ := h.stepWord_eq
  · rw [scanWords, hstep]
  · rw [scanWords, hskip, scanWords, hstep]

theorem Move.plainFrom_eq (tail : List Char) (h : Move s (c :: rest) s' cs') :
    plainFrom tail 0 s (c :: rest) =
      (plainStep tail s.state c rest && plainFrom tail 0 s' cs') := by
  obtain ⟨rfl, hstep⟩ | ⟨d, rfl, hskip, hstep, hplain⟩ := h.stepWord_eq
  · rw [plainFrom, hstep]
  · rw [plainFrom, hskip, plainFrom, hstep, hplain, Bool.true_and]

theorem Move.isResting (h : Move s (c :: rest) s' cs') : IsResting s' := by
  cases h with
  | skip hs hc => simp [hs]
  | inSingle hs hc => simp [push, hs]
  | backslashDouble hs hd => simp [push, hs]
  | lineDouble hs => simp [push, hs]
  | inDouble hs hc hstep => simp [push, hs]
  | _ => simp

/-- A scan without reasons goes by moves. -/
theorem scan_of_reasons (hs : IsResting s) (h : (scanWords 0 s cs).reasons = []) : Scan s cs := by
  induction hlength : cs.length using Nat.strong_induction_on generalizing cs s with
  | _ length ih =>
    cases cs with
    | nil => exact .nil hs
    | cons c rest =>
      have hkept : (stepWord s c rest).1.reasons <+: (scanWords 0 s (c :: rest)).reasons :=
        reasons_scanWords _
      rw [h, List.prefix_nil] at hkept
      have hbefore : s.reasons <+: (stepWord s c rest).1.reasons := reasons_stepWord
      rw [hkept, List.prefix_nil] at hbefore
      obtain ⟨s', cs', hmove⟩ := exists_move hs (hkept.trans hbefore.symm)
      rw [hmove.scanWords_eq] at h
      have hshorter : cs'.length < length := by
        obtain ⟨rfl, -⟩ | ⟨d, rfl, -⟩ := hmove.stepWord_eq <;> simp [← hlength]
      exact .move hmove (ih _ hshorter hmove.isResting h rfl)

end Moves

variable {raw : List Char} {chars : List WordChar} {c : Char}

section Reader

open WordScan

/-- The mode of the shell in a state of the scanner. -/
def modeOf : ParseState → Mode
  | .betweenWords => .outside
  | .inWord | .backslashEscape => .inside
  | .inSingleQuote => .single
  | .inDoubleQuote | .inDoubleQuoteEscaped => .double

/-- A blank that the shell does not know has begun a word for it. -/
def IsAhead (s : WordScan) (r : Reading) : Prop := s.state = .betweenWords ∧ r.mode = .inside

/-- A word that is no pattern but for brackets, and no path of a home directory. -/
def IsTame (w : Word) : Prop :=
  w.raw.head? ≠ some '~' ∧ ∀ x ∈ w.chars, x.quoted = false → x.char ≠ '*' ∧ x.char ≠ '?'

/-- The scanner and the shell have read the same words. -/
structure InStep (s : WordScan) (r : Reading) : Prop where
  mode : r.mode = modeOf s.state
  words : r.words.map text = s.words
  current : r.current.text = s.current
  tameWords : ∀ w ∈ r.words, IsTame w
  tameCurrent : IsTame r.current
  outside : r.mode = .outside → r.current = .empty
  begun : r.mode ≠ .outside → r.current.raw ≠ []

/-- All characters of the words of the scanner. -/
def flatScan (s : WordScan) : List Char := s.words.flatten ++ s.current

variable {s s' : WordScan} {r r' : Reading} {c : Char} {rest cs cs' tail : List Char}

@[simp] theorem flatScan_goto (state : ParseState) : flatScan (s.goto state) = flatScan s := rfl

@[simp] theorem flatScan_push : flatScan (s.push c) = flatScan s ++ [c] := by
  simp [flatScan, push]

@[simp] theorem flatScan_endWord : flatScan s.endWord = flatScan s := by
  simp [flatScan, endWord]

theorem isTame_empty : IsTame .empty := by simp [IsTame, empty]

theorem IsTame.add {w : Word} (h : IsTame w) (hraw : w.raw = [] → raw.head? ≠ some '~')
    (hchars : ∀ x ∈ chars, x.quoted = false → x.char ≠ '*' ∧ x.char ≠ '?') :
    IsTame (w.add raw chars) := by
  refine ⟨?_, fun x hx => ?_⟩
  · cases hw : w.raw with
    | nil => simpa [Word.add, hw] using hraw hw
    | cons d ds =>
      have hhead := h.1
      simpa [Word.add, hw] using hhead
  · obtain hx | hx := List.mem_append.1 hx
    · exact h.2 x hx
    · exact hchars x hx

/-- More of a word, on both sides. -/
theorem InStep.add {state : ParseState} {mode : Mode} (h : InStep s r) (hmode : mode = modeOf state)
    (hne : mode ≠ .outside) (hraw : raw ≠ []) (htilde : r.mode = .outside → raw.head? ≠ some '~')
    (hchars : ∀ x ∈ chars, x.quoted = false → x.char ≠ '*' ∧ x.char ≠ '?') (hs : s'.state = state)
    (hwords : s'.words = s.words) (hcurrent : s'.current = s.current ++ chars.map WordChar.char) :
    InStep s' ((r.add raw chars).goto mode) where
  mode := by rw [hs]; exact hmode
  words := by rw [hwords]; exact h.words
  current := by
    rw [hcurrent, ← h.current]
    simp [Reading.goto, Reading.add, Word.add, Word.text]
  tameWords := h.tameWords
  tameCurrent := by
    refine h.tameCurrent.add (fun hempty => htilde ?_) hchars
    by_contra hinside
    exact h.begun hinside hempty
  outside hmode' := absurd hmode' hne
  begun _ := by simpa [Reading.goto, Reading.add, Word.add] using fun _ => hraw

/-- The shell has gone on from one reading to another as the scanner has. -/
structure Followed (s s' : WordScan) (r r' : Reading) : Prop where
  mode : r'.mode = modeOf s'.state ∨ IsAhead s' r'
  sameMode : r.mode = modeOf s.state → r'.mode = modeOf s'.state
  flat : ∃ e, r'.flat = r.flat ++ e ∧ flatScan s' = flatScan s ++ e
  inStep : InStep s r → InStep s' r'

attribute [local simp] plainStep push modeOf

theorem step_unquoted (hs : s.state = .betweenWords ∨ s.state = .inWord)
    (hmode : r.mode = modeOf s.state ∨ IsAhead s r) : step r c rest = stepUnquoted r c rest := by
  have hr : r.mode = .outside ∨ r.mode = .inside := by
    obtain hmode | hmode := hmode
    · rcases hs with hs | hs <;> rw [hmode, hs] <;> simp
    · exact .inr hmode.2
  unfold step
  rcases hr with hr | hr <;> rw [hr]

theorem step_double (hs : s.state = .inDoubleQuote)
    (hmode : r.mode = modeOf s.state ∨ IsAhead s r) :
    step r c rest = stepDouble r c rest := by
  obtain hmode | hmode := hmode
  · simp [step, hmode, hs]
  · simp [hmode.1] at hs

/-- More of a word leaves the mode where the scanner goes. -/
theorem Followed.add (state : ParseState) {mode : Mode} (hmode : mode = modeOf state)
    (hne : mode ≠ .outside) (hraw : raw ≠ [])
    (htilde : s.state = .betweenWords → raw.head? ≠ some '~')
    (hchars : ∀ x ∈ chars, x.quoted = false → x.char ≠ '*' ∧ x.char ≠ '?') (hs : s'.state = state)
    (hwords : s'.words = s.words) (hcurrent : s'.current = s.current ++ chars.map WordChar.char) :
    Followed s s' r ((r.add raw chars).goto mode) where
  mode := .inl (by rw [hs]; exact hmode)
  sameMode _ := by rw [hs]; exact hmode
  flat := ⟨chars.map WordChar.char, by simp, by simp [flatScan, hwords, hcurrent]⟩
  inStep h := by
    refine h.add hmode hne hraw (fun hout => htilde ?_) hchars hs hwords hcurrent
    have hmode' := h.mode
    rw [hout] at hmode'
    cases hstate : s.state <;> simp [hstate] at hmode' ⊢

theorem readFrom_step {r₁ : Reading} (h : step r c rest = .ok (r₁, 0)) :
    readFrom 0 r (c :: rest) = readFrom 0 r₁ rest := by
  rw [readFrom, h]

theorem readFrom_step_two {d : Char} {r₁ : Reading} (h : step r c (d :: rest) = .ok (r₁, 1)) :
    readFrom 0 r (c :: d :: rest) = readFrom 0 r₁ rest := by
  rw [readFrom, h]
  rfl

theorem readFrom_error {construct : Construct} (h : step r c rest = .error construct) :
    readFrom 0 r (c :: rest) = .error construct := by
  rw [readFrom, h]

/-- A blank ends a word for both. -/
theorem followed_endWord (hs : s.state = .inWord) (hmode : r.mode = modeOf s.state) :
    Followed s (s.endWord.goto .betweenWords) r r.endWord := by
  have hinside : r.mode = .inside := by rw [hmode, hs]; rfl
  have hend : r.endWord = ⟨.outside, .empty, r.words ++ [r.current]⟩ := by
    rw [Reading.endWord, if_pos hinside]
  refine ⟨.inl (by rw [hend]; rfl), fun _ => by rw [hend]; rfl, ⟨[], by simp, by simp⟩, fun h => ?_⟩
  rw [hend]
  exact ⟨rfl, by simp [endWord, goto, h.words, h.current], rfl,
    by simpa using fun w hw => hw.elim (h.tameWords w) fun hw => hw ▸ h.tameCurrent,
    isTame_empty, fun _ => rfl, fun hne => absurd rfl hne⟩

theorem not_isWhitespace_of_isAlphanum (h : c.isAlphanum = true) : isWhitespace c = false := by
  simp only [Char.isAlphanum, Char.isAlpha, Char.isUpper, Char.isLower, Char.isDigit,
    Bool.or_eq_true, Bool.and_eq_true, decide_eq_true_eq] at h
  have hval : c.toNat = c.val.toNat := rfl
  simp only [isWhitespace, Bool.or_eq_false_iff, Bool.and_eq_false_iff, decide_eq_false_iff_not,
    beq_eq_false_iff_ne]
  change ((65 ≤ c.val.toNat ∧ c.val.toNat ≤ 90 ∨ 97 ≤ c.val.toNat ∧ c.val.toNat ≤ 122) ∨
    48 ≤ c.val.toNat ∧ c.val.toNat ≤ 57) at h
  omega

theorem startsExpansion_append (htail : ∀ c ∈ tail, isWhitespace c = true) :
    startsExpansion (rest ++ tail) = startsExpansion rest := by
  cases rest with
  | cons c rest => rfl
  | nil =>
    cases tail with
    | nil => rfl
    | cons d tail =>
      have hd := htail d (by simp)
      by_contra hstart
      simp only [List.nil_append, startsExpansion, Bool.not_eq_false, Bool.or_eq_true,
        decide_eq_true_eq, isSpecialParameter, List.contains_cons, beq_iff_eq,
        List.contains_nil] at hstart
      have hletter : d.isAlphanum = false := by
        by_contra hletter
        rw [Bool.not_eq_false] at hletter
        simp [not_isWhitespace_of_isAlphanum hletter] at hd
      simp only [Char.isAlphanum, Bool.or_eq_false_iff] at hletter
      simp only [hletter.1, hletter.2, Bool.false_eq_true, or_false] at hstart
      obtain ((rfl | rfl) | rfl) | rfl | rfl | rfl | rfl | rfl | rfl | rfl := hstart <;>
        exact absurd hd (by decide)

theorem startsQuote_append (htail : ∀ c ∈ tail, isWhitespace c = true) :
    startsQuote (rest ++ tail) = startsQuote rest := by
  cases rest with
  | cons c rest => rfl
  | nil =>
    cases tail with
    | nil => rfl
    | cons d tail =>
      have hd := htail d (by simp)
      by_contra hstart
      simp only [List.nil_append, startsQuote, Bool.not_eq_false, Bool.or_eq_true,
        decide_eq_true_eq] at hstart
      obtain rfl | rfl := hstart <;> exact absurd hd (by decide)

/-- A character that both take for itself, or that the scanner does not know. -/
theorem followed_plain (hs : s.state = .betweenWords ∨ s.state = .inWord)
    (hmode : r.mode = modeOf s.state ∨ IsAhead s r) (htail : ∀ c ∈ tail, isWhitespace c = true)
    (hc : c ∉ [' ', '\t', '\n', '\'', '"', '\\', '|', '&', ';', '<', '>', '`', '*', '?'])
    (htilde : s.state = .betweenWords → c ≠ '~') :
    (∃ e, readFrom 0 r (c :: (rest ++ tail)) = .error e ∧ plainStep tail s.state c rest = false) ∨
    ∃ r', readFrom 0 r (c :: (rest ++ tail)) = readFrom 0 r' (rest ++ tail) ∧
      Followed s ((s.push c).goto .inWord) r r' ∧
      (r.mode = modeOf s.state → plainStep tail s.state c rest = true) := by
  have hfollowed : Followed s ((s.push c).goto .inWord) r (r.literal c) := by
    refine .add .inWord rfl (by decide) (by simp) (fun hbetween => ?_) ?_ rfl rfl ?_
    · simpa using htilde hbetween
    · have hstar : c ≠ '*' := by
        rintro rfl
        simp at hc
      have hquestion : c ≠ '?' := by
        rintro rfl
        simp at hc
      simpa using ⟨hstar, hquestion⟩
    · simp [goto]
  have hplain : plainStep tail s.state c rest =
      (if c = '(' ∨ c = ')' then false
      else if c = '#' then decide (s.state = .inWord)
      else if c = '$' then !startsExpansion rest && !startsQuote rest
      else if c = '\\' ∧ rest = [] then tail.isEmpty else true) := by
    rcases hs with hs | hs <;> rw [hs] <;> rfl
  have hback : c ≠ '\\' := by
    rintro rfl
    simp at hc
  rw [hplain]
  by_cases hparen : c = '(' ∨ c = ')'
  · left
    rw [if_pos hparen]
    refine ⟨.operator, readFrom_error ?_, rfl⟩
    rw [step_unquoted hs hmode]
    obtain rfl | rfl := hparen <;> rfl
  · rw [if_neg hparen]
    by_cases hhash : c = '#'
    · subst hhash
      rw [if_pos rfl]
      by_cases hout : r.mode = .outside
      · left
        refine ⟨.comment, readFrom_error ?_, ?_⟩
        · rw [step_unquoted hs hmode]
          simp [stepUnquoted, hout]
        · obtain hmode | hmode := hmode
          · rcases hs with hs | hs
            · simp [hs]
            · rw [hout, hs] at hmode
              simp at hmode
          · simp [hmode.1]
      · right
        refine ⟨r.literal '#', readFrom_step ?_, hfollowed, fun hsame => ?_⟩
        · rw [step_unquoted hs hmode]
          simp [stepUnquoted, hout]
        · rcases hs with hs | hs
          · rw [hs] at hsame
            exact absurd hsame hout
          · simp [hs]
    · rw [if_neg hhash]
      by_cases hdollar : c = '$'
      · subst hdollar
        have hstep : step r '$' (rest ++ tail) =
            if startsExpansion rest || startsQuote rest then .error .expansion
            else .ok (r.literal '$', 0) := by
          rw [step_unquoted hs hmode, ← startsExpansion_append htail, ← startsQuote_append htail]
          rfl
        by_cases hstart : (startsExpansion rest || startsQuote rest) = true
        · left
          rw [if_pos hstart] at hstep
          exact ⟨.expansion, readFrom_error hstep, by rw [← Bool.not_or, hstart]; rfl⟩
        · right
          rw [if_neg hstart] at hstep
          refine ⟨r.literal '$', readFrom_step hstep, hfollowed, fun _ => ?_⟩
          rw [← Bool.not_or, Bool.eq_false_of_not_eq_true hstart]
          rfl
      · right
        refine ⟨r.literal c, readFrom_step ?_, hfollowed, fun _ => ?_⟩
        · rw [step_unquoted hs hmode]
          refine stepUnquoted_literal ?_
          simp only [List.mem_cons, not_or] at hc hparen ⊢
          tauto
        · rw [if_neg hdollar, if_neg fun h => hback h.1]

theorem plainStep_of_not_mem (hs : s.state = .betweenWords ∨ s.state = .inWord)
    (hc : c ∉ ['(', ')', '#', '$', '\\']) : plainStep tail s.state c rest = true := by
  simp only [List.mem_cons, not_or] at hc
  rcases hs with hs | hs <;> simp [hs, hc]

/-- One character in double quotes that both take for itself. -/
theorem followed_double {d : Char} (hs : s.state = .inDoubleQuote)
    (hmode : r.mode = modeOf s.state ∨ IsAhead s r) (hraw : raw ≠ [])
    (hstate : s'.state = .inDoubleQuote) (hwords : s'.words = s.words)
    (hcurrent : s'.current = s.current ++ [d]) :
    Followed s s' r (r.add raw [⟨d, true⟩]) := by
  have hr : r.mode = .double := by
    obtain hmode | hmode := hmode
    · rw [hmode, hs]
      rfl
    · simp [hmode.1] at hs
  have hsame : r.add raw [⟨d, true⟩] = (r.add raw [⟨d, true⟩]).goto .double := by
    simp [Reading.goto, Reading.add, ← hr]
  rw [hsame]
  exact .add .inDoubleQuote rfl (by decide) hraw (by simp [hs]) (by simp) hstate hwords
    (by simpa using hcurrent)

/-- Over one move of the scanner, but for the two that the shell does not make, the shell stops or
goes the same way. -/
theorem Move.followed (h : Move s (c :: rest) s' cs')
    (hmode : r.mode = modeOf s.state ∨ IsAhead s r)
    (htail : ∀ c ∈ tail, isWhitespace c = true) (hopen : s'.state = .inDoubleQuote → cs' ≠ [])
    (hlast : s.state = .betweenWords ∨ s.state = .inWord → c = '\\' → rest = [] → tail = [])
    (hline : s.state = .inDoubleQuote → c = '\\' → rest.head? ≠ some '\n') :
    (∃ e, readFrom 0 r (c :: (rest ++ tail)) = .error e ∧ plainStep tail s.state c rest = false) ∨
    ∃ r', readFrom 0 r (c :: (rest ++ tail)) = readFrom 0 r' (cs' ++ tail) ∧ Followed s s' r r' ∧
      (r.mode = modeOf s.state → plainStep tail s.state c rest = true) := by
  have hahead (hs : s.state ≠ .betweenWords) : r.mode = modeOf s.state :=
    hmode.resolve_right fun h => hs h.1
  cases h with
  | skip hs hc =>
    right
    have hstep : step r c (rest ++ tail) = .ok (r.endWord, 0) := by
      rw [step_unquoted (.inl hs) hmode]
      rcases hc with rfl | rfl <;> rfl
    refine ⟨r.endWord, readFrom_step hstep, ?_, fun _ => ?_⟩
    · have hend : r.endWord.mode = .outside ∧ (r.mode = .outside → r.endWord = r) := by
        obtain hmode | hmode := hmode
        · rw [hs] at hmode
          simp [Reading.endWord, hmode]
        · simp [Reading.endWord, hmode.2]
      refine ⟨.inl (by rw [hend.1, hs]; rfl), fun _ => by rw [hend.1, hs]; rfl,
        ⟨[], by simp, by simp⟩,
        fun hstepped => ?_⟩
      have hout := hstepped.mode
      rw [hs] at hout
      rwa [hend.2 hout]
    · exact plainStep_of_not_mem (.inl hs) (by rcases hc with rfl | rfl <;> decide)
  | endWord hs hc =>
    right
    have hstep : step r c (rest ++ tail) = .ok (r.endWord, 0) := by
      rw [step_unquoted (.inr hs) hmode]
      rcases hc with rfl | rfl <;> rfl
    refine ⟨r.endWord, readFrom_step hstep, followed_endWord hs (hahead (by simp [hs])),
      fun _ => ?_⟩
    exact plainStep_of_not_mem (.inr hs) (by rcases hc with rfl | rfl <;> decide)
  | openSingle hs =>
    right
    refine ⟨(r.add ['\''] []).goto .single, readFrom_step ?_, ?_, fun _ => ?_⟩
    · rw [step_unquoted hs hmode]
      rfl
    · exact .add .inSingleQuote rfl (by decide) (by simp) (fun _ => by decide) (by simp) rfl
        rfl (by simp [goto])
    · exact plainStep_of_not_mem hs (by decide)
  | openDouble hs =>
    right
    refine ⟨(r.add ['"'] []).goto .double, readFrom_step ?_, ?_, fun _ => ?_⟩
    · rw [step_unquoted hs hmode]
      rfl
    · exact .add .inDoubleQuote rfl (by decide) (by simp) (fun _ => by decide) (by simp) rfl
        rfl (by simp [goto])
    · exact plainStep_of_not_mem hs (by decide)
  | escape hs hd =>
    right
    rename_i d
    refine ⟨(r.add ['\\', d] [⟨d, true⟩]).goto .inside, readFrom_step_two ?_, ?_, fun _ => ?_⟩
    · rw [step_unquoted hs hmode]
      simp [stepUnquoted, hd]
    · exact .add .inWord rfl (by decide) (by simp) (fun _ => by simp) (by simp) rfl rfl
        (by simp [goto])
    · rcases hs with hs | hs <;> simp [hs]
  | lastBackslash hs =>
    right
    obtain rfl := hlast hs rfl rfl
    refine ⟨(r.add ['\\'] [⟨'\\', true⟩]).goto .inside, readFrom_step ?_, ?_, fun _ => ?_⟩
    · rw [step_unquoted hs hmode]
      rfl
    · exact .add .inWord rfl (by decide) (by simp) (fun _ => by simp) (by simp) rfl rfl
        (by simp [goto])
    · rcases hs with hs | hs <;> simp [hs]
  | plain hs hc htilde hstep => exact followed_plain hs hmode htail hc htilde
  | closeSingle hs =>
    right
    refine ⟨(r.add ['\''] []).goto .inside, readFrom_step ?_, ?_, fun _ => by simp [hs]⟩
    · have hr := hahead (by simp [hs])
      simp [step, hr, hs, stepSingle]
    · exact .add .inWord rfl (by decide) (by simp) (fun _ => by decide) (by simp) rfl rfl
        (by simp [goto])
  | inSingle hs hc =>
    right
    have hr : r.mode = .single := by
      rw [hahead (by simp [hs]), hs]
      rfl
    have hsame : r.add [c] [⟨c, true⟩] = (r.add [c] [⟨c, true⟩]).goto .single := by
      simp [Reading.goto, Reading.add, ← hr]
    refine ⟨(r.add [c] [⟨c, true⟩]).goto .single, readFrom_step ?_, ?_, fun _ => by simp [hs]⟩
    · rw [← hsame]
      simp [step, hr, stepSingle, hc]
    · exact .add .inSingleQuote rfl (by decide) (by simp) (by simp [hs]) (by simp) hs rfl
        (by simp)
  | closeDouble hs =>
    right
    refine ⟨(r.add ['"'] []).goto .inside, readFrom_step ?_, ?_, fun _ => by simp [hs]⟩
    · rw [step_double hs hmode]
      rfl
    · exact .add .inWord rfl (by decide) (by simp) (fun _ => by decide) (by simp) rfl rfl
        (by simp [goto])
  | escapeDouble hs hd =>
    right
    rename_i d
    have hline' : d ≠ '\n' := by
      rintro rfl
      exact absurd hd (by decide)
    refine ⟨r.add ['\\', d] [⟨d, true⟩], readFrom_step_two ?_, ?_, fun _ => ?_⟩
    · rw [step_double hs hmode]
      simp [stepDouble, hd, hline']
    · exact followed_double hs hmode (by simp) rfl rfl rfl
    · simp [hs, hline']
  | backslashDouble hs hd =>
    right
    refine ⟨r.add ['\\'] [⟨'\\', true⟩], readFrom_step ?_, ?_, fun _ => ?_⟩
    · rw [step_double hs hmode]
      cases rest with
      | nil => exact absurd rfl (hopen hs)
      | cons d rest =>
        obtain ⟨hescape, hline'⟩ := hd d rfl
        simp [stepDouble, hescape, hline']
    · exact followed_double hs hmode (by simp) hs rfl rfl
    · simpa [hs] using hline hs rfl
  | lineDouble hs => exact absurd rfl (hline hs rfl)
  | inDouble hs hc hstep =>
    have hfollowed : Followed s (s.push c) r (r.add [c] [⟨c, true⟩]) :=
      followed_double hs hmode (by simp) hs rfl rfl
    by_cases hdollar : c = '$'
    · subst hdollar
      have hread : step r '$' (rest ++ tail) =
          if startsExpansion rest then .error .expansion
          else .ok (r.add ['$'] [⟨'$', true⟩], 0) := by
        rw [step_double hs hmode, ← startsExpansion_append htail]
        rfl
      by_cases hstart : startsExpansion rest = true
      · left
        rw [if_pos hstart] at hread
        exact ⟨.expansion, readFrom_error hread, by simp [hs, hstart]⟩
      · right
        rw [if_neg hstart] at hread
        exact ⟨_, readFrom_step hread, hfollowed, fun _ => by simp [hs, hstart]⟩
    · right
      refine ⟨_, readFrom_step ?_, hfollowed, fun _ => ?_⟩
      · rw [step_double hs hmode]
        refine stepDouble_literal ?_
        simp only [List.mem_cons, not_or] at hc ⊢
        tauto
      · simp only [List.mem_cons, not_or] at hc
        simp [hs, hdollar, hc]

end Reader

section Blanks

variable {r r' : Reading} {c : Char} {rest lead tail : List Char}

/-- Characters that the shell does not know as blanks. -/
def oddOnes (cs : List Char) : ℕ := cs.countP fun c => !isShellBlank c

/-- The shell goes over a blank, or takes it for itself. -/
theorem step_whitespace (r : Reading) (rest : List Char) (hc : isWhitespace c = true) :
    (∃ e, step r c rest = .error e) ∨
    ∃ r₁, step r c rest = .ok (r₁, 0) ∧
      (r₁.flat = r.flat ∧ isShellBlank c = true ∨ r₁.flat = r.flat ++ [c]) ∧
      (r.mode ≠ .single → r.mode ≠ .double → r₁.mode ≠ .single ∧ r₁.mode ≠ .double) := by
  have hblank : isShellBlank c = true ↔ c = ' ' ∨ c = '\t' ∨ c = '\n' := by
    simp [isShellBlank, or_assoc]
  have hspecial : c ∉ ['\\', '\'', '"', '|', '&', ';', '<', '>', '(', ')', '`', '$', '#'] := by
    intro hmem
    have hnone : ['\\', '\'', '"', '|', '&', ';', '<', '>', '(', ')', '`', '$', '#'].all
        (!isWhitespace ·) = true := by decide
    simpa [hc] using List.all_eq_true.1 hnone c hmem
  have hend : r.mode ≠ .single → r.mode ≠ .double →
      r.endWord.mode ≠ .single ∧ r.endWord.mode ≠ .double := by
    intro h1 h2
    unfold Reading.endWord
    split_ifs
    · simp
    · exact ⟨h1, h2⟩
  have hunquoted : ∃ r₁, stepUnquoted r c rest = .ok (r₁, 0) ∧
      (r₁.flat = r.flat ∧ isShellBlank c = true ∨ r₁.flat = r.flat ++ [c]) ∧
      (r.mode ≠ .single → r.mode ≠ .double → r₁.mode ≠ .single ∧ r₁.mode ≠ .double) := by
    by_cases hb : c = ' ' ∨ c = '\t' ∨ c = '\n'
    · have hb' := hblank.2 hb
      obtain rfl | rfl | rfl := hb
      · exact ⟨_, rfl, .inl ⟨by simp, hb'⟩, hend⟩
      · exact ⟨_, rfl, .inl ⟨by simp, hb'⟩, hend⟩
      · refine ⟨_, rfl, .inl ⟨by simp, hb'⟩, fun h1 h2 => ?_⟩
        unfold Reading.endLine
        split_ifs
        · exact hend h1 h2
        · simp [Reading.goto]
    · refine ⟨_, stepUnquoted_literal ?_, .inr (by simp),
        fun _ _ => by simp [Reading.literal, Reading.goto]⟩
      simp only [List.mem_cons, not_or, List.not_mem_nil, not_false_eq_true,
        and_true] at hspecial hb ⊢
      tauto
  cases hmode : r.mode with
  | outside =>
    have hstep : step r c rest = stepUnquoted r c rest := by rw [step, hmode]
    rw [hstep, ← hmode]
    exact .inr hunquoted
  | inside =>
    have hstep : step r c rest = stepUnquoted r c rest := by rw [step, hmode]
    rw [hstep, ← hmode]
    exact .inr hunquoted
  | single =>
    have hstep : step r c rest = .ok (stepSingle r c, 0) := by rw [step, hmode]
    rw [hstep]
    refine .inr ⟨_, rfl, .inr ?_, fun h => absurd rfl h⟩
    have hquote : c ≠ '\'' := by
      rintro rfl
      simp at hspecial
    simp [stepSingle, hquote]
  | double =>
    have hstep : step r c rest = stepDouble r c rest := by rw [step, hmode]
    rw [hstep]
    refine .inr ⟨_, stepDouble_literal ?_, .inr (by simp), fun _ h => absurd rfl h⟩
    simp only [List.mem_cons, not_or] at hspecial ⊢
    tauto
  | behind =>
    have hstep : step r c rest = stepBehind r c rest := by rw [step, hmode]
    rw [hstep, stepBehind]
    split_ifs with hb
    all_goals simp_all

/-- What the blanks at an end add is only what the shell does not know. -/
theorem read_whitespace (hlead : ∀ c ∈ lead, isWhitespace c = true)
    (h : readFrom 0 r (lead ++ rest) = .ok r') :
    ∃ r₁, readFrom 0 r₁ rest = .ok r' ∧ r₁.flat.count '\\' = r.flat.count '\\' ∧
      r.flat.length + oddOnes lead ≤ r₁.flat.length ∧
      (r.mode ≠ .single → r.mode ≠ .double → r₁.mode ≠ .single ∧ r₁.mode ≠ .double) := by
  induction lead generalizing r with
  | nil => exact ⟨r, h, rfl, by simp [oddOnes], fun h1 h2 => ⟨h1, h2⟩⟩
  | cons c lead ih =>
    have hc := hlead c (by simp)
    have hback : c ≠ '\\' := by
      rintro rfl
      exact absurd hc (by decide)
    rw [List.cons_append] at h
    obtain ⟨e, hstep⟩ | ⟨r₂, hstep, hflat, hquotes⟩ := step_whitespace r (lead ++ rest) hc
    · rw [readFrom_error hstep] at h
      cases h
    · rw [readFrom_step hstep] at h
      obtain ⟨r₁, hrest, hcount, hlength, hmode⟩ := ih (fun d hd => hlead d (by simp [hd])) h
      refine ⟨r₁, hrest, ?_, ?_, fun h1 h2 => ?_⟩
      · obtain ⟨hflat, -⟩ | hflat := hflat
        · rw [hcount, hflat]
        · simp [hcount, hflat, hback]
      · simp only [oddOnes, List.countP_cons] at hlength ⊢
        obtain ⟨hflat, hblank⟩ | hflat := hflat
        · simp only [hflat, hblank] at hlength ⊢
          simpa using hlength
        · rw [hflat, List.length_append, List.length_singleton] at hlength
          split_ifs <;> omega
      · have hnext := hquotes h1 h2
        exact hmode hnext.1 hnext.2

end Blanks

section Runs

open WordScan

variable {s s' : WordScan} {r r' : Reading} {c : Char} {rest cs cs' tail : List Char}

/-- The scan ends in a word or between words. -/
def IsClosed (s : WordScan) : Prop := s.state = .betweenWords ∨ s.state = .inWord

/-- The two moves that the shell does not make. -/
theorem Move.special (h : Move s (c :: rest) s' cs')
    (hspecial : ¬((s.state = .betweenWords ∨ s.state = .inWord → c = '\\' → rest = [] → tail = []) ∧
      (s.state = .inDoubleQuote → c = '\\' → rest.head? ≠ some '\n')))
    (hopen : s'.state = .inDoubleQuote → cs' ≠ []) :
    c = '\\' ∧ ((s.state = .betweenWords ∨ s.state = .inWord) ∧ rest = [] ∧ tail ≠ [] ∧ cs' = [] ∧
        s' = (s.push '\\').goto .inWord ∨
      s.state = .inDoubleQuote ∧ rest = '\n' :: cs' ∧ s' = (s.push '\\').push '\n') := by
  cases h with
  | escapeDouble hs hd =>
    have hnewline : isEscapable '\n' = false := by decide
    simp_all
  | backslashDouble hs hd =>
    simp_all
  | _ => simp_all

attribute [local simp] step Reading.endWord Reading.close scanWords modeOf stepUnquoted

/-- A backslash at the end is lost, or quotes a blank that was cut off. -/
theorem read_lastBackslash (hs : s.state = .betweenWords ∨ s.state = .inWord)
    (hmode : r.mode = modeOf s.state ∨ IsAhead s r) (htail : ∀ c ∈ tail, isWhitespace c = true)
    (hne : tail ≠ []) (hread : readFrom 0 r (['\\'] ++ tail) = .ok r') :
    r'.flat.count '\\' = r.flat.count '\\' ∧ r.flat.length + oddOnes tail ≤ r'.flat.length := by
  obtain ⟨d, tail, rfl⟩ := List.exists_cons_of_ne_nil hne
  have hd := htail d (by simp)
  have hback : d ≠ '\\' := by
    rintro rfl
    exact absurd hd (by decide)
  have hrest : ∀ c ∈ tail, isWhitespace c = true := fun c hc => htail c (by simp [hc])
  rw [List.singleton_append] at hread
  by_cases hline : d = '\n'
  · subst hline
    have hstep : step r '\\' ('\n' :: tail) = .ok (r, 1) := by
      rw [step_unquoted hs hmode]
      rfl
    rw [readFrom_step_two hstep] at hread
    obtain ⟨r₁, hdone, hcount, hle, -⟩ := read_whitespace hrest (by rwa [List.append_nil])
    cases hdone
    exact ⟨hcount, by simpa [oddOnes, isShellBlank] using hle⟩
  · have hstep : step r '\\' (d :: tail) = .ok ((r.add ['\\', d] [⟨d, true⟩]).goto .inside, 1) := by
      rw [step_unquoted hs hmode]
      simp [hline]
    rw [readFrom_step_two hstep] at hread
    obtain ⟨r₁, hdone, hcount, hle, -⟩ := read_whitespace hrest (by rwa [List.append_nil])
    cases hdone
    refine ⟨by simpa [hback] using hcount, ?_⟩
    simp only [flat_goto, flat_add, List.map_cons, List.map_nil, List.length_append,
      List.length_singleton, oddOnes, List.countP_cons] at hle ⊢
    split_ifs <;> omega

/-- With what the shell reads, the scanner has read as many characters, and a backslash more
each time that the shell has gone over the end of a line or a blank. -/
theorem exists_count (hscan : Scan s cs) (hclosed : IsClosed (scanWords 0 s cs))
    (hmode : r.mode = modeOf s.state ∨ IsAhead s r) (htail : ∀ c ∈ tail, isWhitespace c = true)
    (hread : readFrom 0 r (cs ++ tail) = .ok r') :
    ∃ n, r'.flat.count '\\' + n + (flatScan s).count '\\' =
        (flatScan (scanWords 0 s cs)).count '\\' + r.flat.count '\\' ∧
      (flatScan (scanWords 0 s cs)).length + r.flat.length + oddOnes tail ≤
        r'.flat.length + (flatScan s).length + 2 * n ∧
      (r.mode = modeOf s.state → n = 0 → plainFrom tail 0 s cs = true) := by
  induction hscan generalizing r with
  | @nil s hs =>
    obtain ⟨r₁, hrest, hcount, hle, -⟩ :=
      read_whitespace htail (by simpa using hread : readFrom 0 r (tail ++ []) = .ok _)
    cases hrest
    refine ⟨0, ?_, ?_, fun _ _ => rfl⟩
    · simp
      omega
    · simp only [scanWords]
      omega
  | @move s c rest s' cs' hmove hnext ih =>
    rw [hmove.scanWords_eq] at hclosed ⊢
    have hopen : s'.state = .inDoubleQuote → cs' ≠ [] := by
      rintro hstate rfl
      rcases hclosed with hclosed | hclosed <;> simp [hstate] at hclosed
    rw [hmove.plainFrom_eq]
    by_cases hordinary :
        (s.state = .betweenWords ∨ s.state = .inWord → c = '\\' → rest = [] → tail = []) ∧
        (s.state = .inDoubleQuote → c = '\\' → rest.head? ≠ some '\n')
    · rw [List.cons_append] at hread
      obtain ⟨e, herror, -⟩ | ⟨r₁, hrest, hfollowed, hplain⟩ :=
        hmove.followed hmode htail hopen hordinary.1 hordinary.2
      · rw [herror] at hread
        cases hread
      · rw [hrest] at hread
        obtain ⟨n, hcount, hle, hplain'⟩ := ih hclosed hfollowed.mode hread
        obtain ⟨e, hflat, hscanned⟩ := hfollowed.flat
        rw [hflat, hscanned, List.count_append, List.count_append] at hcount
        rw [hflat, hscanned, List.length_append, List.length_append] at hle
        refine ⟨n, by omega, by omega, fun hsame hn => ?_⟩
        rw [hplain hsame, hplain' (hfollowed.sameMode hsame) hn]
        rfl
    · obtain ⟨rfl, ⟨hstate, rfl, hne, rfl, rfl⟩ | ⟨hstate, rfl, rfl⟩⟩ :=
        hmove.special hordinary hopen
      · -- The shell reads the last backslash with what was cut off.
        obtain ⟨hcount, hle⟩ := read_lastBackslash hstate hmode htail hne hread
        refine ⟨1, ?_, ?_, fun _ h => absurd h (by decide)⟩
        · simp
          omega
        · simp
          omega
      · -- The shell goes over the end of a line.
        have hstep : step r '\\' ('\n' :: (cs' ++ tail)) = .ok (r, 1) := by
          rw [step_double hstate hmode]
          rfl
        rw [List.cons_append, List.cons_append, readFrom_step_two hstep] at hread
        obtain ⟨n, hcount, hle, -⟩ := ih hclosed hmode hread
        refine ⟨n + 1, ?_, ?_, fun _ h => by omega⟩
        · simp at hcount
          omega
        · simp at hle
          omega

/-- As long as the characters are plain, the shell reads the words of the scanner. -/
theorem exists_inStep (hscan : Scan s cs) (hclosed : IsClosed (scanWords 0 s cs)) (hin : InStep s r)
    (htail : ∀ c ∈ tail, isWhitespace c = true) (hplain : plainFrom tail 0 s cs = true) :
    ∃ r', readFrom 0 r (cs ++ tail) = readFrom 0 r' tail ∧ InStep (scanWords 0 s cs) r' := by
  induction hscan generalizing r with
  | nil => exact ⟨r, rfl, hin⟩
  | @move s c rest s' cs' hmove hnext ih =>
    rw [hmove.scanWords_eq] at hclosed ⊢
    have hopen : s'.state = .inDoubleQuote → cs' ≠ [] := by
      rintro hstate rfl
      rcases hclosed with hclosed | hclosed <;> simp [hstate] at hclosed
    rw [hmove.plainFrom_eq, Bool.and_eq_true] at hplain
    have hlast : s.state = .betweenWords ∨ s.state = .inWord → c = '\\' → rest = [] →
        tail = [] := by
      rintro hstate rfl rfl
      have hstep := hplain.1
      rcases hstate with hstate | hstate <;> simpa [hstate, plainStep] using hstep
    have hline : s.state = .inDoubleQuote → c = '\\' → rest.head? ≠ some '\n' := by
      rintro hstate rfl
      simpa [hstate, plainStep] using hplain.1
    obtain ⟨e, -, herror⟩ | ⟨r₁, hrest, hfollowed, -⟩ :=
      hmove.followed (.inl hin.mode) htail hopen hlast hline
    · rw [hplain.1] at herror
      cases herror
    · rw [List.cons_append, hrest]
      exact ih hclosed (hfollowed.inStep hin) hplain.2

theorem Scan.isResting (hscan : Scan s cs) : IsResting (scanWords 0 s cs) := by
  induction hscan with
  | nil hs => exact hs
  | move hmove hnext ih => rwa [hmove.scanWords_eq]

/-- Between words there is no word. -/
theorem Scan.current (hscan : Scan s cs) (hempty : s.state = .betweenWords → s.current = []) :
    (scanWords 0 s cs).state = .betweenWords → (scanWords 0 s cs).current = [] := by
  induction hscan with
  | nil hs => exact hempty
  | move hmove hnext ih =>
    rw [hmove.scanWords_eq]
    refine ih ?_
    cases hmove with
    | skip hs hc => exact hempty
    | endWord hs hc => exact fun _ => rfl
    | inSingle hs hc => simp [push, hs]
    | backslashDouble hs hd => simp [push, hs]
    | lineDouble hs => simp [push, hs]
    | inDouble hs hc hstep => simp [push, hs]
    | _ => simp [goto]

/-- Blanks behind a command leave its words. -/
theorem read_blanks (hblank : ∀ c ∈ tail, isShellBlank c = true)
    (hmode : r.mode = .outside ∨ r.mode = .behind) :
    ∃ r', readFrom 0 r tail = .ok r' ∧ r'.words = r.words ∧
      (r'.mode = .outside ∨ r'.mode = .behind) := by
  induction tail generalizing r with
  | nil => exact ⟨r, rfl, rfl, hmode⟩
  | cons c tail ih =>
    have hc : c = ' ' ∨ c = '\t' ∨ c = '\n' := by
      simpa [isShellBlank, or_assoc] using hblank c (by simp)
    have hstep : ∃ r₁, step r c tail = .ok (r₁, 0) ∧ r₁.words = r.words ∧
        (r₁.mode = .outside ∨ r₁.mode = .behind) := by
      rcases hmode with hmode | hmode
      · have hend : r.endWord = r := by simp [hmode]
        obtain rfl | rfl | rfl := hc
        · exact ⟨r, by simp [hmode], rfl, .inl hmode⟩
        · exact ⟨r, by simp [hmode], rfl, .inl hmode⟩
        · refine ⟨r.endLine, by simp [hmode], ?_⟩
          unfold Reading.endLine
          split_ifs
          · exact ⟨rfl, .inl hmode⟩
          · exact ⟨rfl, .inr rfl⟩
      · exact ⟨r, by simp [hmode, stepBehind, hc], rfl, .inr hmode⟩
    obtain ⟨r₁, hstep, hwords, hmode₁⟩ := hstep
    obtain ⟨r', hread, hwords', hmode'⟩ := ih (fun d hd => hblank d (by simp [hd])) hmode₁
    exact ⟨r', by rw [readFrom_step hstep, hread], hwords'.trans hwords, hmode'⟩

/-- The words that the shell has at the end are those of the scanner. -/
theorem exists_close (hin : InStep s r) (hclosed : IsClosed s)
    (hblank : ∀ c ∈ tail, isShellBlank c = true) :
    ∃ r' ws, readFrom 0 r tail = .ok r' ∧ r'.close = .ok ws ∧ ws.map text = s.flush.words ∧
      ∀ w ∈ ws, IsTame w := by
  have hmode := hin.mode
  rcases hclosed with hstate | hstate
  · rw [hstate] at hmode
    obtain ⟨r', hread, hwords, hmode'⟩ := read_blanks hblank (.inl hmode)
    refine ⟨r', r.words, hread, ?_, ?_, hin.tameWords⟩
    · rcases hmode' with hmode' | hmode' <;> simp [hmode', hwords]
    · simp [flush, hstate, hin.words]
  · rw [hstate] at hmode
    have htame : ∀ w ∈ r.words ++ [r.current], IsTame w := by
      intro w hw
      obtain hw | hw := List.mem_append.1 hw
      · exact hin.tameWords w hw
      · rw [List.mem_singleton.1 hw]
        exact hin.tameCurrent
    have htext : (r.words ++ [r.current]).map text = s.flush.words := by
      simp [flush, hstate, hin.words, hin.current, endWord]
    cases tail with
    | nil => exact ⟨r, _, rfl, by simp [hmode], htext, htame⟩
    | cons c tail =>
      have hc : c = ' ' ∨ c = '\t' ∨ c = '\n' := by
        simpa [isShellBlank, or_assoc] using hblank c (by simp)
      have hend : r.endWord = ⟨.outside, .empty, r.words ++ [r.current]⟩ := by
        rw [Reading.endWord, if_pos (by rw [hmode]; rfl)]
      have hstep : ∃ r₁, step r c tail = .ok (r₁, 0) ∧ r₁.words = r.words ++ [r.current] ∧
          (r₁.mode = .outside ∨ r₁.mode = .behind) := by
        have hunquoted : step r c tail = stepUnquoted r c tail :=
          step_unquoted (.inr hstate) (.inl hin.mode)
        obtain rfl | rfl | rfl := hc
        · exact ⟨r.endWord, hunquoted, by rw [hend], .inl (by rw [hend])⟩
        · exact ⟨r.endWord, hunquoted, by rw [hend], .inl (by rw [hend])⟩
        · refine ⟨r.endWord.endLine, hunquoted, ?_⟩
          rw [hend]
          simp [Reading.endLine, Reading.goto]
      obtain ⟨r₁, hstep, hwords, hmode₁⟩ := hstep
      have hrest : ∀ d ∈ tail, isShellBlank d = true := fun d hd => hblank d (by simp [hd])
      obtain ⟨r', hread, hwords', hmode'⟩ := read_blanks hrest hmode₁
      refine ⟨r', r.words ++ [r.current], by rw [readFrom_step hstep, hread], ?_, htext, htame⟩
      rcases hmode' with hmode' | hmode' <;> simp [hmode', hwords', hwords]

end Runs

section Commands

open WordScan

variable {command : List Char} {words : List (List Char)}

theorem lead_trim_tail (command : List Char) :
    leadOf command ++ trim command ++ tailOf command = command := by
  have hback := List.takeWhile_append_dropWhile (p := isWhitespace)
    (l := (command.dropWhile isWhitespace).reverse)
  have hreversed := congrArg List.reverse hback
  rw [List.reverse_append, List.reverse_reverse] at hreversed
  rw [List.append_assoc, trim, tailOf, hreversed, leadOf, List.takeWhile_append_dropWhile]

theorem isWhitespace_of_mem_leadOf (h : c ∈ leadOf command) : isWhitespace c = true :=
  List.mem_takeWhile_imp h

theorem isWhitespace_of_mem_tailOf (h : c ∈ tailOf command) : isWhitespace c = true :=
  List.mem_takeWhile_imp (List.mem_reverse.1 h)

/-- The first character of a command is no blank. -/
theorem head_trim {cs : List Char} (h : trim command = c :: cs) : isWhitespace c = false := by
  have hstart : command.dropWhile isWhitespace = c :: (cs ++ tailOf command) := by
    have hcut := lead_trim_tail command
    rw [h] at hcut
    have hsame : leadOf command ++ command.dropWhile isWhitespace =
        leadOf command ++ (c :: (cs ++ tailOf command)) := by
      simpa [leadOf] using hcut.symm
    exact List.append_cancel_left hsame
  have hhead := List.head?_dropWhile_not isWhitespace command
  rw [hstart] at hhead
  simpa using hhead

/-- A command of words is scanned without a reason. -/
theorem scan_of_simpleArgv (h : parseShellWords command = .simpleArgv words) :
    (scanWords 0 .start (trim command)).reasons = [] ∧ Scan .start (trim command) ∧
      IsClosed (scanWords 0 .start (trim command)) ∧
      (scanWords 0 .start (trim command)).flush.words = words ∧ words ≠ [] ∧ trim command ≠ [] := by
  have hresting : IsResting .start := by simp [IsResting, start]
  unfold parseShellWords at h
  by_cases hempty : (trim command).isEmpty = true
  · simp [hempty] at h
  · simp only [hempty] at h
    generalize hscan : scanWords 0 .start (trim command) = s at h ⊢
    by_cases hreasons : s.flush.reasons = []
    · have hnone : s.reasons = [] := by
        have hkept : s.reasons <+: s.flush.reasons := by
          unfold flush
          split
          all_goals first
            | simp only [apply_ite WordScan.reasons]
              simp
            | simp
        rwa [hreasons, List.prefix_nil] at hkept
      have hmoves : Scan .start (trim command) := scan_of_reasons hresting (by rwa [hscan])
      have hrest : IsResting s := hscan ▸ hmoves.isResting
      refine ⟨hnone, hmoves, ?_, ?_, ?_, ?_⟩
      · cases hstate : s.state with
        | betweenWords => exact .inl hstate
        | inWord => exact .inr hstate
        | inSingleQuote =>
          simp only [flush, hstate] at hreasons
          split at hreasons <;> simp at hreasons
        | inDoubleQuote =>
          simp only [flush, hstate] at hreasons
          split at hreasons <;> simp at hreasons
        | inDoubleQuoteEscaped => exact absurd hstate hrest.2
        | backslashEscape => exact absurd hstate hrest.1
      all_goals simp [hreasons] at h
      · split at h
        · cases h
        · cases h
          assumption
        · split at h
          · cases h
          · cases h
            assumption
      · rintro rfl
        split at h
        · cases h
        · cases h
        · split at h <;> cases h
      · simpa using hempty
    · simp [hreasons] at h

theorem inStep_start : InStep .start .start := by
  refine ⟨rfl, rfl, rfl, by simp [Reading.start], isTame_empty, fun _ => rfl, fun h => absurd rfl h⟩

theorem read_lead {lead rest : List Char} (hblank : ∀ c ∈ lead, isShellBlank c = true) :
    readFrom 0 .start (lead ++ rest) = readFrom 0 .start rest := by
  induction lead with
  | nil => rfl
  | cons c lead ih =>
    have hc : c = ' ' ∨ c = '\t' ∨ c = '\n' := by
      simpa [isShellBlank, or_assoc] using hblank c (by simp)
    have hstep : step .start c (lead ++ rest) = .ok (.start, 0) := by
      obtain rfl | rfl | rfl := hc <;> rfl
    rw [List.cons_append, readFrom_step hstep]
    exact ih fun d hd => hblank d (by simp [hd])

/-- What is not expanded in a word. -/
theorem IsTame.not_expanded {w : Word} (h : IsTame w) (hbracket : hasBracket w.chars = false) :
    w.startsTilde = false ∧ w.isPattern = false := by
  refine ⟨by simpa [startsTilde] using h.1, ?_⟩
  rw [isPattern, hbracket, Bool.or_false, List.any_eq_false]
  intro x hx
  cases hquoted : x.quoted with
  | true => simp
  | false =>
    have hplain := h.2 x hx hquoted
    simp [hplain]

theorem isPlainCommand_of_isPlain (h : parseShellWords command = .simpleArgv words)
    (hplain : IsPlain command) : IsPlainCommand command words := by
  obtain ⟨-, hmoves, hclosed, hwords, hne, -⟩ := scan_of_simpleArgv h
  have hlead : ∀ c ∈ leadOf command, isShellBlank c = true := fun c hc =>
    hplain.blanks c (List.mem_append_left _ hc)
  have htail : ∀ c ∈ tailOf command, isShellBlank c = true := fun c hc =>
    hplain.blanks c (List.mem_append_right _ hc)
  obtain ⟨r, hread, hin⟩ := exists_inStep hmoves hclosed inStep_start
    (fun c hc => isWhitespace_of_mem_tailOf hc) hplain.characters
  obtain ⟨r', ws, hrest, hclose, htext, htame⟩ := exists_close hin hclosed htail
  have hcommand : readCommand command = .ok ws := by
    have hwhole : readFrom 0 .start command = .ok r' := by
      rw [← lead_trim_tail command, List.append_assoc, read_lead hlead, hread, hrest]
    rw [readCommand, hwhole]
    exact hclose
  rw [hwords] at htext
  cases ws with
  | nil => exact absurd htext.symm hne
  | cons w ws =>
    obtain ⟨hreserved, hassignment, hbracket⟩ := hplain.words w ws hcommand
    exact ⟨w, ws, hcommand, hreserved, hassignment,
      fun x hx => (htame x hx).not_expanded (hbracket x hx), htext⟩

theorem flatScan_eq (h : parseShellWords command = .simpleArgv words) :
    flatScan (scanWords 0 .start (trim command)) = words.flatten := by
  obtain ⟨-, hmoves, hclosed, hwords, -, -⟩ := scan_of_simpleArgv h
  have hempty := hmoves.current (fun _ => rfl)
  rw [← hwords]
  rcases hclosed with hstate | hstate
  · simp [flatScan, flush, hstate, hempty hstate]
  · simp [flatScan, flush, hstate, endWord]

/-- Behind a line the shell takes nothing that the scanner takes. -/
theorem mode_of_read {r r' : Reading} (h : parseShellWords command = .simpleArgv words)
    {tail : List Char} (htail : ∀ c ∈ tail, isWhitespace c = true)
    (hread : readFrom 0 r (trim command ++ tail) = .ok r')
    (hcount : r.flat.count '\\' + words.flatten.count '\\' ≤ r'.flat.count '\\') :
    r.mode ≠ .behind := by
  intro hmode
  obtain ⟨hreasons, -, -, -, -, hne⟩ := scan_of_simpleArgv h
  have hflat := flatScan_eq h
  obtain ⟨c, cs, hcs⟩ := List.exists_cons_of_ne_nil hne
  have hc := head_trim hcs
  rw [hcs] at hreasons hread hflat
  have hblank : ¬(c = ' ' ∨ c = '\t' ∨ c = '\n') := by
    rintro (rfl | rfl | rfl) <;> exact absurd hc (by decide)
  have hline : ¬(c = '\\' ∧ (cs ++ tail).head? = some '\n') := by
    rintro ⟨rfl, hhead⟩
    cases cs with
    | nil =>
      -- The shell has no word for the backslash.
      obtain ⟨tail, rfl⟩ : ∃ rest, tail = '\n' :: rest := List.head?_eq_some_iff.1 hhead
      have hstep : step r '\\' ('\n' :: tail) = .ok (r, 1) := by
        simp [step, hmode, stepBehind]
      rw [List.singleton_append, readFrom_step_two hstep] at hread
      have hrest : ∀ c ∈ tail, isWhitespace c = true := fun c hc => htail c (by simp [hc])
      obtain ⟨r₁, hdone, hsame, -⟩ := read_whitespace hrest (by rwa [List.append_nil])
      cases hdone
      rw [← hflat] at hcount
      have hone : (flatScan (scanWords 0 .start ['\\'])).count '\\' = 1 := by decide
      omega
    | cons d cs =>
      obtain rfl : d = '\n' := by simpa using hhead
      have hkept : (stepWord .start '\\' ('\n' :: cs)).1.reasons <+:
          (scanWords (stepWord .start '\\' ('\n' :: cs)).2 (stepWord .start '\\' ('\n' :: cs)).1
            ('\n' :: cs)).reasons := reasons_scanWords _
      rw [scanWords] at hreasons
      rw [hreasons] at hkept
      simp [stepWord, start, stepBetweenWords] at hkept
  have hstep : ∃ e, step r c (cs ++ tail) = .error e := by
    simp only [step, hmode, stepBehind]
    split_ifs
    · exact ⟨_, rfl⟩
    · exact ⟨_, rfl⟩
  obtain ⟨e, hstep⟩ := hstep
  rw [List.cons_append, readFrom_error hstep] at hread
  cases hread

theorem isPlain_of_isPlainCommand (h : parseShellWords command = .simpleArgv words)
    (hcommand : IsPlainCommand command words) : IsPlain command := by
  obtain ⟨w, ws, hread, hreserved, hassignment, hexpanded, htext⟩ := hcommand
  obtain ⟨-, hmoves, hclosed, -, -, -⟩ := scan_of_simpleArgv h
  have htail : ∀ c ∈ tailOf command, isWhitespace c = true := fun c hc =>
    isWhitespace_of_mem_tailOf hc
  obtain ⟨r', hwhole, hclose⟩ : ∃ r', readFrom 0 .start command = .ok r' ∧
      r'.close = .ok (w :: ws) := by
    unfold readCommand at hread
    cases hwhole : readFrom 0 .start command with
    | error e => simp [hwhole] at hread
    | ok r' => exact ⟨r', rfl, by simpa [hwhole] using hread⟩
  have hflat : r'.flat = words.flatten := by
    rw [flat_of_close (isSettled_readFrom isSettled_start hwhole) hclose, htext]
  have hscan := flatScan_eq h
  rw [← lead_trim_tail command, List.append_assoc] at hwhole
  obtain ⟨r₁, hrest, hcount₁, hle₁, hmode₁⟩ :=
    read_whitespace (fun c hc => isWhitespace_of_mem_leadOf hc) hwhole
  have hnone : Reading.start.flat = [] := rfl
  have hnoneScan : flatScan .start = [] := rfl
  rw [hnone, List.count_nil] at hcount₁
  have hbehind := mode_of_read h htail hrest (by rw [hflat]; omega)
  have hmode : r₁.mode = modeOf WordScan.start.state ∨ IsAhead .start r₁ := by
    have hquotes := hmode₁ (by simp [Reading.start]) (by simp [Reading.start])
    cases hmode : r₁.mode with
    | outside => exact .inl rfl
    | inside => exact .inr ⟨rfl, hmode⟩
    | single => exact absurd hmode hquotes.1
    | double => exact absurd hmode hquotes.2
    | behind => exact absurd hmode hbehind
  obtain ⟨n, hcount, hle, -⟩ := exists_count hmoves hclosed hmode htail hrest
  rw [hflat, hscan] at hcount
  rw [hflat, hscan, hnoneScan, List.length_nil] at hle
  have hodd : oddOnes (leadOf command) = 0 ∧ oddOnes (tailOf command) = 0 := by omega
  simp only [oddOnes, List.countP_eq_zero, Bool.not_eq_true', Bool.not_eq_false] at hodd
  rw [read_lead hodd.1] at hwhole
  obtain ⟨m, hcount', -, hplain⟩ :=
    exists_count hmoves hclosed (r := .start) (.inl rfl) htail hwhole
  rw [hflat, hscan, hnone, hnoneScan] at hcount'
  refine ⟨fun c hc => ?_, hplain rfl (by omega), fun w' ws' hread' => ?_⟩
  · obtain hc | hc := List.mem_append.1 hc
    · exact hodd.1 c hc
    · exact hodd.2 c hc
  · rw [hread] at hread'
    cases hread'
    refine ⟨hreserved, hassignment, fun x hx => ?_⟩
    have hpattern := (hexpanded x hx).2
    simp only [isPattern, Bool.or_eq_false_iff] at hpattern
    exact hpattern.2

end Commands

end Codegg.Permission
