import Codegg.FileTools.UnifiedDiff

/-!
# The unified format

A diff is a list of hunks. Each gives the place of its first line in both texts, and its lines
with a tag. A line that ends its text without a newline is followed by a remark.
-/
namespace Codegg.FileTools

open Codegg.Library


section Format

inductive LineTag
  | keep
  | drop
  | add
  deriving DecidableEq

def LineTag.char : LineTag → Char
  | .keep => ' '
  | .drop => '-'
  | .add => '+'

/-- A line of a hunk, with the end it has in its text. -/
structure DiffLine where
  tag : LineTag
  raw : Text

/-- A hunk. A count of one may be left out. -/
structure DiffHunk where
  oldStart : ℕ
  newStart : ℕ
  oldShort : Bool
  newShort : Bool
  sectionText : Text
  body : List DiffLine

def DiffHunk.oldLines (h : DiffHunk) : List Text :=
  (h.body.filter fun l => l.tag ≠ .add).map DiffLine.raw

def DiffHunk.newLines (h : DiffHunk) : List Text :=
  (h.body.filter fun l => l.tag ≠ .drop).map DiffLine.raw

def renderRange (short : Bool) (start count : ℕ) : Text :=
  if short ∧ count = 1 then Nat.toDigits 10 start
  else Nat.toDigits 10 start ++ ',' :: Nat.toDigits 10 count

def DiffHunk.header (h : DiffHunk) : Text :=
  "@@ ".toList ++ ('-' :: renderRange h.oldShort h.oldStart h.oldLines.length ++
    ' ' :: '+' :: renderRange h.newShort h.newStart h.newLines.length) ++ " @@".toList ++
      h.sectionText

/-- A line without its newline. -/
def chomp (raw : Text) : Text := if raw.getLast? = some '\n' then raw.dropLast else raw

def noNewline : Text := "\\ No newline at end of file".toList

/-- The lines of the diff that a line of a hunk is written as. -/
def DiffLine.render (l : DiffLine) : List Text :=
  if l.raw.getLast? = some '\n' then [l.tag.char :: chomp l.raw]
  else [l.tag.char :: chomp l.raw, noNewline]

def DiffHunk.render (h : DiffHunk) : List Text := h.header :: h.body.flatMap DiffLine.render

/-- The numbers of a hunk are those of a platform, and its section is set off. -/
structure DiffHunk.Formed (h : DiffHunk) : Prop where
  oldStart : h.oldStart < 2 ^ 64
  newStart : h.newStart < 2 ^ 64
  oldCount : h.oldLines.length < 2 ^ 64
  newCount : h.newLines.length < 2 ^ 64
  setOff : h.sectionText = [] ∨ [' '] <+: h.sectionText
  oneLine : '\n' ∉ h.sectionText

/-- The number of the first of some lines, or of the line before them if there are none. -/
def startOf (before : ℕ) (ls : List Text) : ℕ := if ls = [] then before else before + 1

/-- Hunks that make lines of lines, from a place in both texts on. -/
inductive Turns : ℕ → ℕ → List DiffHunk → List Text → List Text → Prop
  | nil (p q : ℕ) (rest : List Text) : Turns p q [] rest rest
  | cons {p q : ℕ} {h : DiffHunk} {hunks : List DiffHunk} (gap : List Text)
    {restA restB : List Text} (hold : h.oldStart = startOf (p + gap.length) h.oldLines)
    (hnew : h.newStart = startOf (q + gap.length) h.newLines)
    (hrest : Turns (p + gap.length + h.oldLines.length) (q + gap.length + h.newLines.length)
      hunks restA restB) :
    Turns p q (h :: hunks) (gap ++ h.oldLines ++ restA) (gap ++ h.newLines ++ restB)

/-- A diff from a text to a text. What stands before the first hunk names the files. -/
structure UnifiedDiff (a b : Text) where
  preamble : List Text
  hunks : List DiffHunk
  noHeader : ∀ line ∈ preamble, isHeader line = false ∧ '\n' ∉ line
  formed : ∀ h ∈ hunks, h.Formed
  nonempty : ∀ h ∈ hunks, h.body ≠ []
  turns : Turns 0 0 hunks (splitInclusive a) (splitInclusive b)

def UnifiedDiff.text {a b : Text} (d : UnifiedDiff a b) : Text :=
  endLines (d.preamble ++ d.hunks.flatMap DiffHunk.render)

end Format

variable {h : DiffHunk} {l : DiffLine}

section Header

/-- What may stand in a range of a header. -/
def isRangeChar (c : Char) : Bool := c.isDigit || c = ','

theorem parseUsize_toDigits {n : ℕ} (hn : n < 2 ^ 64) : parseUsize (Nat.toDigits 10 n) = some n := by
  have hdigits : ∀ d ∈ Nat.toDigits 10 n, d.isDigit := fun d hd =>
    Nat.isDigit_of_mem_toDigits (by decide) (by decide) hd
  have hne : Nat.toDigits 10 n ≠ [] := Nat.toDigits_ne_nil
  have hvalue : (Nat.toDigits 10 n).foldl (fun n d => 10 * n + (d.toNat - '0'.toNat)) 0 = n := by
    rw [← Nat.ofDigitChars_eq_foldl, Nat.ofDigitChars_ten_toDigits]
  have hplus : ∀ ds, Nat.toDigits 10 n ≠ '+' :: ds := by
    intro ds hds
    have h := hdigits '+' (by simp [hds])
    revert h
    decide
  unfold parseUsize
  split
  · next ds hds => exact absurd hds (hplus ds)
  · rw [if_pos ⟨hne, hdigits⟩, hvalue, if_pos hn]

theorem splitOn_toDigits (n : ℕ) : (Nat.toDigits 10 n).splitOn ',' = [Nat.toDigits 10 n] := by
  have hcomma : ',' ∉ Nat.toDigits 10 n := by
    intro h
    have hdigit : ','.isDigit := Nat.isDigit_of_mem_toDigits (by decide) (by decide) h
    revert hdigit
    decide
  have h : ([','].intercalate [Nat.toDigits 10 n]).splitOn ',' = [Nat.toDigits 10 n] :=
    List.splitOn_intercalate ',' (by simpa using hcomma) (by simp)
  simpa using h

theorem splitOn_toDigits_comma (m n : ℕ) :
    (Nat.toDigits 10 m ++ ',' :: Nat.toDigits 10 n).splitOn ',' =
      [Nat.toDigits 10 m, Nat.toDigits 10 n] := by
  have hcomma : ∀ k, ',' ∉ Nat.toDigits 10 k := by
    intro k h
    have hdigit : ','.isDigit := Nat.isDigit_of_mem_toDigits (by decide) (by decide) h
    revert hdigit
    decide
  have h : ([','].intercalate [Nat.toDigits 10 m, Nat.toDigits 10 n]).splitOn ',' =
      [Nat.toDigits 10 m, Nat.toDigits 10 n] :=
    List.splitOn_intercalate ',' (by simp [hcomma]) (by simp)
  simpa [List.intercalate] using h

/-- The start of a range is read back. -/
theorem parseRange_renderRange {start count : ℕ} (short : Bool) (hstart : start < 2 ^ 64)
    (hcount : count < 2 ^ 64) : parseRange (renderRange short start count) = some start := by
  unfold parseRange renderRange
  split_ifs
  · rw [splitOn_toDigits]
    exact parseUsize_toDigits hstart
  · rw [splitOn_toDigits_comma]
    simp [parseUsize_toDigits hstart, parseUsize_toDigits hcount]

theorem isRangeChar_of_mem_renderRange {short : Bool} {start count : ℕ} {c : Char}
    (hc : c ∈ renderRange short start count) : isRangeChar c := by
  have hdigit : ∀ n, c ∈ Nat.toDigits 10 n → isRangeChar c := fun n h => by
    simp [isRangeChar, Nat.isDigit_of_mem_toDigits (by decide) (by decide) h]
  unfold renderRange at hc
  split_ifs at hc
  · exact hdigit _ hc
  · rw [List.mem_append, List.mem_cons] at hc
    obtain h | rfl | h := hc
    · exact hdigit _ h
    · rfl
    · exact hdigit _ h

theorem isRangeChar_plain {c : Char} (hc : isRangeChar c) : isWhitespace c = false ∧ c ≠ '@' := by
  have hrange : 48 ≤ c.toNat ∧ c.toNat ≤ 57 ∨ c = ',' := by
    simpa [isRangeChar, Char.isDigit, UInt32.le_iff_toNat_le] using hc
  obtain ⟨hlow, hhigh⟩ | rfl := hrange
  · constructor
    · simp only [isWhitespace]
      grind
    · rintro rfl
      revert hhigh
      decide
  · decide

theorem splitWords_append {word : Text} (hword : ∀ c ∈ word, isWhitespace c = false)
    (rest : Text) : splitWords (word ++ rest) = (word ++ (splitWords rest).1, (splitWords rest).2) := by
  induction word with
  | nil => rfl
  | cons c word ih =>
    have hc : isWhitespace c = false := hword c (by simp)
    have h := ih fun d hd => hword d (by simp [hd])
    simp [splitWords, h, hc]

theorem splitWhitespace_two {first second : Text} (hfirst : ∀ c ∈ first, isWhitespace c = false)
    (hsecond : ∀ c ∈ second, isWhitespace c = false) (hne : first ≠ []) (hne' : second ≠ []) :
    splitWhitespace (first ++ ' ' :: second) = [first, second] := by
  have hword : splitWords second = (second, []) := by
    simpa [splitWords] using splitWords_append hsecond []
  have hblank : splitWords (' ' :: second) = ([], [second]) := by
    have hspace : isWhitespace ' ' = true := by decide
    simp [splitWords, hspace, hword, hne']
  rw [splitWhitespace, splitWords_append hfirst, hblank]
  simp [hne]

/-- The ranges of a header end at the first blank before two at signs. -/
theorem splitOnce_ranges {ranges : Text} (hranges : '@' ∉ ranges) (suffix : Text) :
    splitOnce " @@".toList (ranges ++ " @@".toList ++ suffix) = some (ranges, suffix) := by
  induction ranges with
  | nil => rfl
  | cons c ranges ih =>
    have hranges' : '@' ∉ ranges := fun h => hranges (List.mem_cons_of_mem _ h)
    have hlater : ¬" @@".toList <+: c :: (ranges ++ " @@".toList ++ suffix) := by
      have hpattern : " @@".toList = [' ', '@', '@'] := by decide
      rw [hpattern]
      intro h
      cases ranges with
      | nil => simp [List.cons_prefix_cons] at h
      | cons d ranges =>
        have hd : '@' = d := by
          simp only [List.cons_append, List.cons_prefix_cons] at h
          exact h.2.1
        exact hranges' (List.mem_cons.2 (.inl hd))
    rw [List.cons_append, List.cons_append, splitOnce, if_neg hlater, ih hranges']
    rfl

theorem stripPrefix_append (pre s : Text) : stripPrefix pre (pre ++ s) = some s := by
  simp [stripPrefix]

/-- The applier reads the start of a hunk from its header. -/
theorem parseHunkOldStart_header (hformed : h.Formed) :
    parseHunkOldStart (dropReturn h.header) = some h.oldStart := by
  have hold := parseRange_renderRange h.oldShort hformed.oldStart hformed.oldCount
  have hnew := parseRange_renderRange h.newShort hformed.newStart hformed.newCount
  have hplain : ∀ (tag : Char) (short : Bool) (start count : ℕ), tag = '-' ∨ tag = '+' →
      ∀ c ∈ tag :: renderRange short start count, isWhitespace c = false ∧ c ≠ '@' := by
    intro tag short start count htag c hc
    rw [List.mem_cons] at hc
    obtain rfl | hc := hc
    · obtain rfl | rfl := htag <;> decide
    · exact isRangeChar_plain (isRangeChar_of_mem_renderRange hc)
  have hminus := hplain '-' h.oldShort h.oldStart h.oldLines.length (.inl rfl)
  have hplus := hplain '+' h.newShort h.newStart h.newLines.length (.inr rfl)
  have hwords := splitWhitespace_two (fun c hc => (hminus c hc).1) (fun c hc => (hplus c hc).1)
    (List.cons_ne_nil _ _) (List.cons_ne_nil _ _)
  have hat : '@' ∉ ('-' :: renderRange h.oldShort h.oldStart h.oldLines.length) ++
      ' ' :: '+' :: renderRange h.newShort h.newStart h.newLines.length := by
    intro hmem
    rw [List.mem_append, List.mem_cons (b := ' ')] at hmem
    obtain hmem | hmem | hmem := hmem
    · exact (hminus '@' hmem).2 rfl
    · exact absurd hmem (by decide)
    · exact (hplus '@' hmem).2 rfl
  have hsuffix : ∃ suffix, dropReturn h.header = "@@ ".toList ++
      (('-' :: renderRange h.oldShort h.oldStart h.oldLines.length) ++
        ' ' :: '+' :: renderRange h.newShort h.newStart h.newLines.length ++ " @@".toList ++ suffix) ∧
      (suffix = [] ∨ [' '] <+: suffix) := by
    by_cases hempty : h.sectionText = []
    · have hlast : h.header.getLast? ≠ some '\r' := by
        have hsplit : h.header = ("@@ ".toList ++ ('-' :: renderRange h.oldShort h.oldStart
            h.oldLines.length ++ ' ' :: '+' :: renderRange h.newShort h.newStart
            h.newLines.length)) ++ " @@".toList := by
          simp [DiffHunk.header, hempty]
        rw [hsplit, List.getLast?_append_of_ne_nil _ (by decide)]
        decide
      have hsame : dropReturn h.header = h.header := by rw [dropReturn, if_neg hlast]
      exact ⟨[], by rw [hsame]; simp [DiffHunk.header, hempty], .inl rfl⟩
    · have hset : [' '] <+: h.sectionText := hformed.setOff.resolve_left hempty
      refine ⟨dropReturn h.sectionText, ?_, .inr ((prefix_dropReturn (by decide)).2 hset)⟩
      rw [DiffHunk.header, dropReturn_append _ hempty]
      simp
  obtain ⟨suffix, hheader, hset⟩ := hsuffix
  have hsetOff : ¬(suffix ≠ [] ∧ ¬[' '] <+: suffix) := by
    rintro ⟨hsome, hno⟩
    exact hset.elim hsome hno
  have hdash (s : Text) : stripPrefix ['-'] ('-' :: s) = some s := stripPrefix_append ['-'] s
  have hsign (s : Text) : stripPrefix ['+'] ('+' :: s) = some s := stripPrefix_append ['+'] s
  unfold parseHunkOldStart
  rw [hheader, stripPrefix_append]
  simp only [Option.bind_eq_bind, Option.bind_some, splitOnce_ranges hat, hwords,
    if_neg hsetOff, hdash, hsign, hold, hnew]
  rfl

/-- A header is one line of the diff. -/
theorem notMem_header (hformed : h.Formed) : '\n' ∉ h.header := by
  have hrange : ∀ {short : Bool} {start count : ℕ}, '\n' ∉ renderRange short start count := by
    intro short start count hmem
    have hchar := isRangeChar_of_mem_renderRange hmem
    revert hchar
    decide
  simp [DiffHunk.header, hrange, hformed.oneLine]

end Header

section Lines

theorem DiffHunk.mem_lines (hl : l ∈ h.body) :
    l.raw ∈ h.oldLines ∨ l.raw ∈ h.newLines := by
  by_cases htag : l.tag = .add
  · right
    exact List.mem_map.2 ⟨l, List.mem_filter.2 ⟨hl, by simp [htag]⟩, rfl⟩
  · left
    exact List.mem_map.2 ⟨l, List.mem_filter.2 ⟨hl, by simpa using htag⟩, rfl⟩

/-- The lines of the hunks are lines of one of the texts. -/
theorem Turns.mem_lines {p q : ℕ} {hunks : List DiffHunk} {as bs : List Text}
    (hturns : Turns p q hunks as bs) (hh : h ∈ hunks) (hl : l ∈ h.body) :
    l.raw ∈ as ∨ l.raw ∈ bs := by
  induction hturns with
  | nil p q rest => simp at hh
  | cons gap hold hnew hrest ih =>
    rw [List.mem_cons] at hh
    obtain rfl | hh := hh
    · have h := DiffHunk.mem_lines hl
      simp only [List.mem_append]
      tauto
    · simp only [List.mem_append]
      tauto

/-- A line of a text has no newline before its end. -/
theorem notMem_chomp {text raw : Text} (hraw : raw ∈ splitInclusive text) : '\n' ∉ chomp raw := by
  obtain ⟨content, hcontent, rfl | ⟨rfl, -⟩⟩ := mem_splitInclusive hraw
  · simpa [chomp] using hcontent
  · have hlast : raw.getLast? ≠ some '\n' := fun h => hcontent (List.mem_of_getLast? h)
    rwa [chomp, if_neg hlast]

/-- What the applier reads after the tag of a line. -/
def DiffLine.read (l : DiffLine) : Text := dropReturn (chomp l.raw)

/-- The lines that the applier reads where the diff has a line of a hunk. -/
def DiffLine.patchLines (l : DiffLine) : List Text :=
  if l.raw.getLast? = some '\n' then [l.tag.char :: l.read] else [l.tag.char :: l.read, noNewline]

theorem DiffLine.map_render (l : DiffLine) : l.render.map dropReturn = l.patchLines := by
  have htag : l.tag.char ≠ '\r' := by cases l.tag <;> decide
  have hremark : dropReturn noNewline = noNewline := by decide
  unfold DiffLine.render DiffLine.patchLines
  split_ifs <;> simp [dropReturn_cons htag, DiffLine.read, hremark]

/-- The lines that the applier reads where the diff has a hunk. -/
def DiffHunk.patchLines (h : DiffHunk) : List Text :=
  dropReturn h.header :: h.body.flatMap DiffLine.patchLines

theorem DiffHunk.map_render (h : DiffHunk) : h.render.map dropReturn = h.patchLines := by
  simp [DiffHunk.render, DiffHunk.patchLines, List.map_flatMap, DiffLine.map_render]

/-- A rendered line of a hunk is one line of the diff. -/
theorem DiffLine.notMem_render (hl : '\n' ∉ chomp l.raw) :
    ∀ line ∈ l.render, '\n' ∉ line := by
  have htag : '\n' ≠ l.tag.char := by cases l.tag <;> decide
  have hremark : '\n' ∉ noNewline := by decide
  intro line hline
  unfold DiffLine.render at hline
  split_ifs at hline <;> simp only [List.mem_cons, List.not_mem_nil, or_false] at hline
  · subst hline
    simp [htag, hl]
  · obtain rfl | rfl := hline
    · simp [htag, hl]
    · exact hremark

/-- The applier reads the lines that the diff was written as, each without a return at its end. -/
theorem UnifiedDiff.lines_text {a b : Text} (d : UnifiedDiff a b) :
    lines d.text = d.preamble.map dropReturn ++ d.hunks.flatMap DiffHunk.patchLines := by
  have hlines : ∀ line ∈ d.preamble ++ d.hunks.flatMap DiffHunk.render, '\n' ∉ line := by
    intro line hline
    rw [List.mem_append, List.mem_flatMap] at hline
    obtain hline | ⟨h, hh, hline⟩ := hline
    · exact (d.noHeader line hline).2
    · rw [DiffHunk.render, List.mem_cons, List.mem_flatMap] at hline
      obtain rfl | ⟨l, hl, hline⟩ := hline
      · exact notMem_header (d.formed h hh)
      · refine DiffLine.notMem_render ?_ line hline
        exact (d.turns.mem_lines hh hl).elim notMem_chomp notMem_chomp
  rw [UnifiedDiff.text, lines_endLines hlines]
  simp [List.map_flatMap, DiffHunk.map_render]

end Lines

end Codegg.FileTools
