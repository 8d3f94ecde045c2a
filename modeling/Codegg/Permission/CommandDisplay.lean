import Codegg.Library.ShellReading
import Codegg.Permission.ShellWords

/-!
# The display of a command

A native command is shown as its words with blanks between them. A word that a shell would not
take as it stands is shown between single quotes.
-/
namespace Codegg.Permission

open Library (isWhitespace)

structure NativeCommand where
  executable : List Char
  argv : List (List Char)
  deriving DecidableEq

/-- What puts a word between quotes. -/
def isQuoted (c : Char) : Bool :=
  isWhitespace c || ['\\', '\'', '"', '$', ';', '|', '>', '<', '&', '(', ')', '*', '?', '[', ']',
    '`'].contains c

/-- A quote ends the quoted part, stands behind a backslash, and begins the next part. -/
def escapeQuotes (arg : List Char) : List Char :=
  arg.flatMap fun c => if c = '\'' then ['\'', '\\', '\'', '\''] else [c]

def displayWord (arg : List Char) : List Char :=
  if arg.isEmpty || arg.any isQuoted then '\'' :: (escapeQuotes arg ++ ['\'']) else arg

namespace NativeCommand

def fromArgv : List (List Char) → Option NativeCommand
  | [] => none
  | executable :: argv => some ⟨executable, argv⟩

def fullArgv (command : NativeCommand) : List (List Char) := command.executable :: command.argv

def display (command : NativeCommand) : List Char :=
  [' '].intercalate (command.fullArgv.map displayWord)

end NativeCommand

variable {c : Char} {arg current rest : List Char} {words args : List (List Char)}
  {reasons : List ShellComplexityReason}

attribute [local simp] scanWords stepWord WordScan.push WordScan.goto

/-- A character that no quotes are needed for only goes into its word. -/
theorem stepInWord_plain (s : WordScan) (hc : isQuoted c = false) (hrest : rest.head? ≠ some '>') :
    stepInWord s c rest = (s.push c, 0) := by
  unfold stepInWord
  split <;> first | rfl | simp [isQuoted, isWhitespace] at hc
  -- what is left is `2`, which could begin a redirection
  split <;> simp_all

theorem stepBetweenWords_plain (s : WordScan) (hc : isQuoted c = false) (htilde : c ≠ '~')
    (hrest : rest.head? ≠ some '>') :
    stepBetweenWords s c rest = ((s.push c).goto .inWord, 0) := by
  unfold stepBetweenWords
  split <;> first | rfl | contradiction | simp [isQuoted, isWhitespace] at hc
  split <;> simp_all

theorem head?_append_ne (hplain : ∀ c ∈ arg, isQuoted c = false) (hrest : rest.head? ≠ some '>') :
    (arg ++ rest).head? ≠ some '>' := by
  cases arg with
  | nil => exact hrest
  | cons c arg =>
    have hc := hplain c (by simp)
    rintro ⟨⟩
    simp [isQuoted] at hc

theorem scanWords_plain (hplain : ∀ c ∈ arg, isQuoted c = false) (hrest : rest.head? ≠ some '>') :
    scanWords 0 ⟨.inWord, current, words, reasons⟩ (arg ++ rest) =
      scanWords 0 ⟨.inWord, current ++ arg, words, reasons⟩ rest := by
  induction arg generalizing current with
  | nil => simp
  | cons c arg ih =>
    have hargs : ∀ d ∈ arg, isQuoted d = false := fun d hd => hplain d (by simp [hd])
    have hstep := stepInWord_plain ⟨.inWord, current, words, reasons⟩ (hplain c (by simp))
      (head?_append_ne hargs hrest)
    simp [hstep, ih hargs]

@[simp] theorem escapeQuotes_cons : escapeQuotes (c :: arg) =
    (if c = '\'' then ['\'', '\\', '\'', '\''] else [c]) ++ escapeQuotes arg := by
  simp [escapeQuotes]

theorem scanWords_escapeQuotes :
    scanWords 0 ⟨.inSingleQuote, current, words, reasons⟩ (escapeQuotes arg ++ '\'' :: rest) =
      scanWords 0 ⟨.inWord, current ++ arg, words, reasons⟩ rest := by
  induction arg generalizing current with
  | nil => simp [escapeQuotes]
  | cons c arg ih =>
    rw [escapeQuotes_cons]
    split_ifs with hc
    · subst hc
      simp [stepInWord, ih]
    · simp [hc, ih]

/-- A word without quotes is shown as it is. -/
theorem displayWord_plain (h : ¬(arg.isEmpty || arg.any isQuoted) = true) :
    displayWord arg = arg ∧ arg ≠ [] ∧ ∀ c ∈ arg, isQuoted c = false := by
  refine ⟨if_neg h, ?_⟩
  simpa only [Bool.or_eq_true, List.isEmpty_iff, List.any_eq_true, not_or, not_exists, not_and,
    Bool.not_eq_true] using h

/-- A tilde that a word begins with is noted. -/
def tildeOf (arg : List Char) : List ShellComplexityReason :=
  if (displayWord arg).head? = some '~' then [.tilde] else []

theorem scanWords_displayWord (hrest : rest.head? ≠ some '>') :
    scanWords 0 ⟨.betweenWords, [], words, reasons⟩ (displayWord arg ++ rest) =
      scanWords 0 ⟨.inWord, arg, words, reasons ++ tildeOf arg⟩ rest := by
  by_cases hquoted : (arg.isEmpty || arg.any isQuoted) = true
  · simp [displayWord, tildeOf, hquoted, stepBetweenWords, scanWords_escapeQuotes]
  · obtain ⟨hshown, hne, hplain⟩ := displayWord_plain hquoted
    obtain ⟨c, cs, rfl⟩ := List.exists_cons_of_ne_nil hne
    have hcs : ∀ d ∈ cs, isQuoted d = false := fun d hd => hplain d (by simp [hd])
    have hscan (reasons) : scanWords 0 ⟨.inWord, [c], words, reasons⟩ (cs ++ rest) =
        scanWords 0 ⟨.inWord, c :: cs, words, reasons⟩ rest :=
      scanWords_plain hcs hrest
    by_cases htilde : c = '~'
    · subst htilde
      simp [tildeOf, hshown, stepBetweenWords, WordScan.because, hscan]
    · have hstep := stepBetweenWords_plain ⟨.betweenWords, [], words, reasons⟩
        (hplain c (by simp)) htilde (head?_append_ne hcs hrest)
      simp [tildeOf, hshown, htilde, hstep, hscan]

/-- The scan of a command that is shown gives its words. -/
theorem flush_scanWords_display :
    (scanWords 0 ⟨.betweenWords, [], words, reasons⟩
        ([' '].intercalate ((arg :: args).map displayWord))).flush =
      ⟨.inWord, [], words ++ arg :: args, reasons ++ (arg :: args).flatMap tildeOf⟩ := by
  induction args generalizing arg words reasons with
  | nil =>
    have hscan : scanWords 0 ⟨.betweenWords, [], words, reasons⟩ (displayWord arg ++ []) = _ :=
      scanWords_displayWord (by simp)
    rw [List.append_nil] at hscan
    simp [hscan, WordScan.flush, WordScan.endWord]
  | cons next args ih =>
    rw [List.map_cons, List.map_cons, List.intercalate_cons_cons, List.append_assoc,
      scanWords_displayWord (by simp)]
    have hblank : scanWords 0 ⟨.inWord, arg, words, reasons ++ tildeOf arg⟩
        ([' '] ++ [' '].intercalate ((next :: args).map displayWord)) =
      scanWords 0 ⟨.betweenWords, [], words ++ [arg], reasons ++ tildeOf arg⟩
        ([' '].intercalate ((next :: args).map displayWord)) := rfl
    rw [← List.map_cons, hblank, ih]
    simp [List.append_assoc]

/-- What is shown of a word neither begins nor ends with white space. -/
theorem displayWord_ends (arg : List Char) :
    (∃ c, (displayWord arg).head? = some c ∧ isWhitespace c = false) ∧
      ∃ c, (displayWord arg).getLast? = some c ∧ isWhitespace c = false := by
  by_cases hquoted : (arg.isEmpty || arg.any isQuoted) = true
  · rw [displayWord, if_pos hquoted]
    exact ⟨⟨'\'', rfl, by decide⟩, '\'', List.getLast?_concat (l := '\'' :: _), by decide⟩
  · obtain ⟨hshown, hne, hplain⟩ := displayWord_plain hquoted
    rw [hshown]
    have hspace : ∀ c ∈ arg, isWhitespace c = false := fun c hc =>
      (Bool.or_eq_false_iff.mp (hplain c hc)).1
    exact ⟨⟨_, List.head?_eq_some_head hne, hspace _ (List.head_mem hne)⟩, _,
      List.getLast?_eq_some_getLast hne, hspace _ (List.getLast_mem hne)⟩

theorem display_ends (command : NativeCommand) :
    (∃ c, command.display.head? = some c ∧ isWhitespace c = false) ∧
      ∃ c, command.display.getLast? = some c ∧ isWhitespace c = false := by
  obtain ⟨arg, args⟩ := command
  unfold NativeCommand.display NativeCommand.fullArgv
  dsimp only
  induction args generalizing arg with
  | nil => simpa using displayWord_ends arg
  | cons next args ih =>
    obtain ⟨c, hc, hspace⟩ := (displayWord_ends arg).1
    obtain ⟨d, hd, hlast⟩ := (ih next).2
    rw [List.map_cons, List.map_cons, List.intercalate_cons_cons]
    rw [List.map_cons] at hd
    exact ⟨⟨c, by simp [hc], hspace⟩, d, by rw [List.getLast?_append, hd]; simp, hlast⟩

theorem trim_display (command : NativeCommand) : trim command.display = command.display := by
  obtain ⟨⟨c, hc, hspace⟩, d, hd, hlast⟩ := display_ends command
  obtain ⟨cs, hcs⟩ := List.head?_eq_some_iff.mp hc
  rw [← List.head?_reverse] at hd
  obtain ⟨ds, hds⟩ := List.head?_eq_some_iff.mp hd
  rw [trim, hcs, List.dropWhile_cons_of_neg (by simp [hspace]), ← hcs, hds,
    List.dropWhile_cons_of_neg (by simp [hlast]), ← hds, List.reverse_reverse]

namespace NativeCommand

theorem words_display (command : NativeCommand) :
    (scanWords 0 .start command.display).flush.words = command.fullArgv :=
  congrArg WordScan.words flush_scanWords_display

/-- What is shown of a command is its argument vector, unless a shell would take its first word
for an assignment or one of its words for a home directory. -/
theorem display_round_trip : Function.Injective display ∧
    ∀ (argv : List (List Char)) (command : NativeCommand), fromArgv argv = some command →
      looksLikeEnvAssignment command.executable = false → (∀ arg ∈ argv, arg.head? ≠ some '~') →
      parseShellWords command.display = .simpleArgv argv := by
  constructor
  · intro command command' h
    have hargv := words_display command
    rw [h, words_display] at hargv
    cases command
    cases command'
    simp_all [fullArgv]
  · intro argv command hargv hassignment htilde
    obtain rfl : command.fullArgv = argv := by
      cases argv with
      | nil => cases hargv
      | cons executable args =>
        cases hargv
        rfl
    have hreasons : command.fullArgv.flatMap tildeOf = [] := by
      rw [List.flatMap_eq_nil_iff]
      intro arg harg
      have hhead := htilde arg harg
      unfold tildeOf displayWord
      split_ifs <;> simp_all
    obtain ⟨⟨c, hc, -⟩, -⟩ := display_ends command
    have hne : command.display.isEmpty = false := by
      cases hshown : command.display <;> simp_all
    have hscan : (scanWords 0 .start command.display).flush =
        ⟨.inWord, [], command.fullArgv, []⟩ := by
      rw [← hreasons]
      exact flush_scanWords_display
    simp only [parseShellWords, trim_display, hne, hscan]
    obtain ⟨executable, _ | ⟨arg, args⟩⟩ := command
    · rfl
    · simp [fullArgv, hassignment]

end NativeCommand

section Shell

open Library.Shell

/-- The shell's word for a word that is shown. -/
def shownWord (arg : List Char) : Word :=
  ⟨displayWord arg, arg.map (⟨·, arg.isEmpty || arg.any isQuoted⟩)⟩

variable {r : Reading} {w : Word} {ws : List Word}

attribute [local simp] readFrom step stepSingle Reading.add Reading.goto Word.add

theorem read_escapeQuotes : readFrom 0 ⟨.single, w, ws⟩ (escapeQuotes arg ++ '\'' :: rest) =
    readFrom 0 ⟨.inside, w.add (escapeQuotes arg ++ ['\'']) (arg.map (⟨·, true⟩)), ws⟩ rest := by
  induction arg generalizing w with
  | nil => simp [escapeQuotes]
  | cons c arg ih =>
    rw [escapeQuotes_cons]
    split_ifs with hc
    · subst hc
      simp [stepUnquoted, ih]
    · simp [hc, ih]

/-- Only a word that begins with a hash is none to the shell. -/
theorem stepUnquoted_plain (hc : isQuoted c = false) (hhash : c = '#' → r.mode = .inside) :
    stepUnquoted r c rest = .ok (r.literal c, 0) := by
  unfold stepUnquoted
  split <;> first | rfl | simp [isQuoted, isWhitespace] at hc
  simp [hhash rfl]

theorem read_plain (hplain : ∀ c ∈ arg, isQuoted c = false) :
    readFrom 0 ⟨.inside, w, ws⟩ (arg ++ rest) =
      readFrom 0 ⟨.inside, w.add arg (arg.map (⟨·, false⟩)), ws⟩ rest := by
  induction arg generalizing w with
  | nil => simp
  | cons c arg ih =>
    have hstep : stepUnquoted ⟨.inside, w, ws⟩ c (arg ++ rest) = _ :=
      stepUnquoted_plain (hplain c (by simp)) (fun _ => rfl)
    simp [hstep, Reading.literal, ih fun d hd => hplain d (by simp [hd])]

theorem read_displayWord (hhash : (displayWord arg).head? ≠ some '#') :
    readFrom 0 ⟨.outside, .empty, ws⟩ (displayWord arg ++ rest) =
      readFrom 0 ⟨.inside, shownWord arg, ws⟩ rest := by
  by_cases hquoted : (arg.isEmpty || arg.any isQuoted) = true
  · simp [stepUnquoted, shownWord, displayWord, hquoted, Word.empty, read_escapeQuotes]
  · obtain ⟨hshown, hne, hplain⟩ := displayWord_plain hquoted
    rw [hshown] at hhash
    simp only [shownWord, hshown, hquoted]
    obtain ⟨c, cs, rfl⟩ := List.exists_cons_of_ne_nil hne
    have hstep : stepUnquoted ⟨.outside, .empty, ws⟩ c (cs ++ rest) = _ :=
      stepUnquoted_plain (hplain c (by simp)) (by simp_all)
    simp [hstep, Reading.literal, read_plain fun d hd => hplain d (List.mem_cons_of_mem c hd)]
    rfl

theorem readCommand_eq (text : List Char) :
    readCommand text = (readFrom 0 .start text).bind Reading.close := by
  unfold readCommand
  cases readFrom 0 .start text <;> rfl

/-- A command is read up to a word that begins with a hash. -/
theorem read_display : (readFrom 0 ⟨.outside, .empty, ws⟩
      ([' '].intercalate (args.map displayWord))).bind Reading.close =
    if ∀ x ∈ args, (displayWord x).head? ≠ some '#' then .ok (ws ++ args.map shownWord)
    else .error .comment := by
  induction args generalizing ws with
  | nil => simp [Reading.close, Except.bind]
  | cons arg args ih =>
    obtain ⟨rest, htext, hrest⟩ : ∃ rest,
        [' '].intercalate ((arg :: args).map displayWord) = displayWord arg ++ rest ∧
          (readFrom 0 ⟨.inside, shownWord arg, ws⟩ rest).bind Reading.close =
            (readFrom 0 ⟨.outside, .empty, ws ++ [shownWord arg]⟩
              ([' '].intercalate (args.map displayWord))).bind Reading.close := by
      cases args with
      | nil => exact ⟨[], by simp, rfl⟩
      | cons next args => exact ⟨_, by simp [List.intercalate_cons_cons]; rfl, rfl⟩
    rw [htext]
    by_cases hhash : (displayWord arg).head? = some '#'
    · obtain ⟨cs, hcs⟩ := List.head?_eq_some_iff.mp hhash
      simp [hcs, stepUnquoted, Except.bind]
    · rw [read_displayWord hhash, hrest, ih]
      simp [hhash]

theorem hasBracket_eq_false {cs : List WordChar} (h : ∀ x ∈ cs, x.quoted = true ∨ x.char ≠ '[') :
    hasBracket cs = false := by
  induction cs with
  | nil => rfl
  | cons x cs ih =>
    have hx := h x (by simp)
    simp only [hasBracket, ih fun y hy => h y (by simp [hy])]
    rcases hx with hx | hx <;> simp [hx]

/-- Nothing that is shown is a pattern to the shell. -/
theorem isPattern_shownWord : (shownWord arg).isPattern = false := by
  have hchars : ∀ x ∈ (shownWord arg).chars,
      x.quoted = true ∨ x.char ≠ '*' ∧ x.char ≠ '?' ∧ x.char ≠ '[' := by
    simp only [shownWord, List.mem_map]
    rintro _ ⟨c, hc, rfl⟩
    cases hquoted : isQuoted c with
    | true => exact .inl (by simpa using .inr ⟨c, hc, hquoted⟩)
    | false =>
      simp only [isQuoted] at hquoted
      simp_all
  rw [Word.isPattern, hasBracket_eq_false fun x hx => (hchars x hx).imp_right (·.2.2),
    Bool.or_false, List.any_eq_false]
  intro x hx
  rcases hchars x hx with hx | hx <;> simp [hx]

end Shell

end Codegg.Permission
