import Codegg.Documents.Buffer
import Codegg.Library.TextLines
import Mathlib.Data.List.DropRight

/-!
# Lines and columns of a snapshot

A position is a line and a byte column in it. The line index of the rope is a parameter: it
counts lines, the last of which need not end, and finds the line of a byte and the start of
a line. A snapshot counts one line more than the index. That is right for a text that ends
in a newline; any other text gets a line behind its end that no byte is in. A column is
accepted up to the end of the line without its newline and all the carriage returns before
it, one of which at most belongs to the line's end.
-/
namespace Codegg.Documents

open Codegg.Library

/-- What the rope knows about lines. -/
structure LineIndex where
  lineLen : Rope → ℕ
  lineOfByte : Rope → ℕ → ℕ
  byteOfLine : Rope → ℕ → ℕ

/-- Lines end in a newline, alone or after a carriage return; the last one need not. -/
structure LineIndex.Documented (index : LineIndex) : Prop where
  lineLen : ∀ text, index.lineLen text = (splitInclusive text).length
  lineOfByte : ∀ text offset, isCharBoundary offset text = true →
    index.lineOfByte text offset = (takeBytes offset text).count '\n'
  byteOfLine : ∀ text line, line ≤ (splitInclusive text).length →
    index.byteOfLine text line = byteLen ((splitInclusive text).take line).flatten

structure BytePosition where
  line : ℕ
  byteColumn : ℕ
  deriving DecidableEq, Repr

namespace DocumentSnapshot

def lenLines (index : LineIndex) (text : Rope) : ℕ := index.lineLen text + 1

def lineRange (index : LineIndex) (text : Rope) (line : ℕ) : Except DocumentError TextRange :=
  if lenLines index text ≤ line then .error .invalidPosition
  else
    let start := index.byteOfLine text line
    let stop := if index.lineLen text < line + 1 then byteLen text
      else index.byteOfLine text (line + 1)
    .ok ⟨start, stop⟩

def byteToPosition (index : LineIndex) (text : Rope) (offset : ℕ) :
    Except DocumentError BytePosition :=
  if byteLen text < offset then .error .outOfBounds
  else if !isCharBoundary offset text then .error .invalidBoundary
  else
    let line := index.lineOfByte text offset
    .ok ⟨line, offset - index.byteOfLine text line⟩

/-- `trim_end_matches` for one character. -/
def trimEndMatches (c : Char) (text : List Char) : List Char := text.rdropWhile (· == c)

def positionToByte (index : LineIndex) (text : Rope) (position : BytePosition) :
    Except DocumentError ℕ :=
  if lenLines index text ≤ position.line then .error .invalidPosition
  else
    match lineRange index text position.line with
    | .error e => .error e
    | .ok range =>
      let lineText := dropBytes range.start (takeBytes range.stop text)
      let contentEnd := byteLen (trimEndMatches '\r' (trimEndMatches '\n' lineText))
      if contentEnd < position.byteColumn then .error .invalidPosition
      else
        let offset := range.start + position.byteColumn
        if !isCharBoundary offset text then .error .invalidBoundary else .ok offset

/-! ### The two conversions on a text cut at a line -/

variable {index : LineIndex} {done : List (List Char)} {line part post more : List Char}

theorem count_endLines (hdone : ∀ l ∈ done, '\n' ∉ l) :
    (endLines done).count '\n' = done.length := by
  induction done with
  | nil => rfl
  | cons l done ih =>
    have hl : l.count '\n' = 0 := List.count_eq_zero.mpr (hdone l List.mem_cons_self)
    have hrest := ih fun m hm => hdone m (List.mem_cons_of_mem _ hm)
    simp only [endLines] at hrest ⊢
    simp
    omega

theorem flatten_newlines (done : List (List Char)) :
    (done.map (· ++ ['\n'])).flatten = endLines done := by
  rw [endLines, List.flatMap_def]

section Documented

variable (hdoc : index.Documented) (hdone : ∀ l ∈ done, '\n' ∉ l)
include hdoc hdone

/-- The lines before a cut. -/
theorem byteOfLine_endLines (rest : List Char) :
    index.byteOfLine (endLines done ++ rest) done.length = byteLen (endLines done) := by
  have hsplit := splitInclusive_endLines_append hdone rest
  rw [hdoc.byteOfLine _ _ (by simp [hsplit]), hsplit, List.take_left' (List.length_map _),
    flatten_newlines]

theorem byteOfLine_next (rest : List Char) (hline : '\n' ∉ line) :
    index.byteOfLine (endLines done ++ (line ++ '\n' :: rest)) (done.length + 1) =
      byteLen (endLines done) + byteLen (line ++ ['\n']) := by
  have hmore : ∀ l ∈ done ++ [line], '\n' ∉ l := by
    intro l hl
    rcases List.mem_append.mp hl with hl | hl
    · exact hdone l hl
    · rwa [List.mem_singleton.mp hl]
  have h := byteOfLine_endLines hdoc hmore rest
  have hcut : endLines (done ++ [line]) = endLines done ++ (line ++ ['\n']) := by
    simp [endLines]
  rw [hcut] at h
  simpa using h

/-- The offset behind some lines and a part of the next one. -/
theorem byteToPosition_cut (hpart : '\n' ∉ part) (post : List Char) :
    byteToPosition index (endLines done ++ (part ++ post))
        (byteLen (endLines done) + byteLen part) = .ok ⟨done.length, byteLen part⟩ := by
  have hcut : endLines done ++ (part ++ post) = endLines done ++ part ++ post := by simp
  have hlen : byteLen (endLines done) + byteLen part = byteLen (endLines done ++ part) := by simp
  have hboundary := isCharBoundary_byteLen_append (endLines done ++ part) post
  have hlineOf : index.lineOfByte (endLines done ++ part ++ post)
      (byteLen (endLines done ++ part)) = done.length := by
    rw [hdoc.lineOfByte _ _ hboundary, takeBytes_byteLen_append, List.count_append,
      count_endLines hdone, List.count_eq_zero.mpr hpart, Nat.add_zero]
  have hstart := byteOfLine_endLines hdoc hdone (part ++ post)
  rw [hcut] at hstart ⊢
  rw [hlen, byteToPosition, if_neg (by simp only [byteLen_append]; omega), hboundary, hlineOf]
  simp only [hstart, byteLen_append, Nat.add_sub_cancel_left, Bool.not_true, Bool.false_eq_true,
    if_false]

/-- A line that ends in a newline. -/
theorem lineRange_line (hline : '\n' ∉ line) (rest : List Char) :
    lineRange index (endLines done ++ (line ++ '\n' :: rest)) done.length =
      .ok ⟨byteLen (endLines done), byteLen (endLines done) + byteLen (line ++ ['\n'])⟩ := by
  have hlen : index.lineLen (endLines done ++ (line ++ '\n' :: rest)) =
      done.length + 1 + (splitInclusive rest).length := by
    rw [hdoc.lineLen, splitInclusive_endLines_append hdone, splitInclusive_append hline]
    simp
    omega
  rw [lineRange, lenLines, if_neg (by omega)]
  rw [if_neg (by omega), byteOfLine_endLines hdoc hdone, byteOfLine_next hdoc hdone rest hline]

/-- A last line that does not end. -/
theorem lineLen_last (hlast : '\n' ∉ line) (hne : line ≠ []) :
    index.lineLen (endLines done ++ line) = done.length + 1 ∧
      index.byteOfLine (endLines done ++ line) (done.length + 1) =
        byteLen (endLines done ++ line) := by
  have hsplit := splitInclusive_endLines_append hdone line
  rw [splitInclusive_of_notMem hlast hne] at hsplit
  rw [hdoc.lineLen, hdoc.byteOfLine _ _ (by simp [hsplit]),
    List.take_of_length_le (by simp [hsplit]), flatten_splitInclusive, hsplit]
  simp

/-- What stands behind the last newline, empty or not. -/
theorem lineRange_last (hlast : '\n' ∉ line) :
    lineRange index (endLines done ++ line) done.length =
      .ok ⟨byteLen (endLines done), byteLen (endLines done ++ line)⟩ := by
  by_cases hempty : line = []
  · have hlen : index.lineLen (endLines done ++ line) = done.length := by
      rw [hdoc.lineLen, splitInclusive_endLines_append hdone, hempty]
      simp [splitInclusive]
    rw [lineRange, lenLines, if_neg (by omega)]
    rw [if_pos (by omega), byteOfLine_endLines hdoc hdone]
  · obtain ⟨hlen, hstop⟩ := lineLen_last hdoc hdone hlast hempty
    rw [lineRange, lenLines, if_neg (by omega)]
    rw [if_neg (by omega), byteOfLine_endLines hdoc hdone, hstop]

/-- The line that is counted behind the end of a text that does not end in a newline. -/
theorem lineRange_phantom (hlast : '\n' ∉ line) (hne : line ≠ []) :
    lineRange index (endLines done ++ line) (done.length + 1) =
      .ok ⟨byteLen (endLines done ++ line), byteLen (endLines done ++ line)⟩ := by
  obtain ⟨hlen, hstart⟩ := lineLen_last hdoc hdone hlast hne
  rw [lineRange, lenLines, if_neg (by omega)]
  rw [if_pos (by omega), hstart]

end Documented

/-- A column is measured against the line without its newline and carriage returns. -/
theorem positionToByte_row {text content : List Char} (ending : List Char) {i start stop : ℕ}
    (hrange : lineRange index text i = .ok ⟨start, stop⟩)
    (htext : dropBytes start (takeBytes stop text) = content ++ ending)
    (hending : ending = [] ∨ ending = ['\n']) (hcontent : '\n' ∉ content) (column : ℕ) :
    positionToByte index text ⟨i, column⟩ =
      if byteLen (trimEndMatches '\r' content) < column then .error .invalidPosition
      else if !isCharBoundary (start + column) text then .error .invalidBoundary
      else .ok (start + column) := by
  have hline : ¬lenLines index text ≤ i := by
    intro hle
    rw [lineRange, if_pos hle] at hrange
    cases hrange
  have htrim : trimEndMatches '\n' (content ++ ending) = content := by
    have hlast : ∀ h : content ≠ [], ¬(content.getLast h == '\n') = true := by
      intro h hnewline
      exact hcontent (by simpa using (beq_iff_eq.mp hnewline) ▸ content.getLast_mem h)
    have hkeep : content.rdropWhile (· == '\n') = content := List.rdropWhile_eq_self_iff.mpr hlast
    rcases hending with rfl | rfl
    · rw [List.append_nil, trimEndMatches, hkeep]
    · rw [trimEndMatches, List.rdropWhile_concat_pos _ _ _ (by simp), hkeep]
  rw [positionToByte, if_neg hline, hrange]
  simp [htext, htrim]

section Rows

variable (hdoc : index.Documented) (hdone : ∀ l ∈ done, '\n' ∉ l) (hline : '\n' ∉ line)
include hdoc hdone hline

theorem positionToByte_line (rest : List Char) (column : ℕ) :
    let text := endLines done ++ (line ++ '\n' :: rest)
    positionToByte index text ⟨done.length, column⟩ =
      if byteLen (trimEndMatches '\r' line) < column then .error .invalidPosition
      else if !isCharBoundary (byteLen (endLines done) + column) text then
        .error .invalidBoundary
      else .ok (byteLen (endLines done) + column) := by
  refine positionToByte_row _ (lineRange_line hdoc hdone hline rest) ?_ (.inr rfl) hline column
  have hsplit : endLines done ++ (line ++ '\n' :: rest) =
      endLines done ++ (line ++ ['\n']) ++ rest := by simp
  rw [hsplit, ← byteLen_append, takeBytes_byteLen_append, dropBytes_byteLen_append]

theorem positionToByte_last (column : ℕ) :
    let text := endLines done ++ line
    positionToByte index text ⟨done.length, column⟩ =
      if byteLen (trimEndMatches '\r' line) < column then .error .invalidPosition
      else if !isCharBoundary (byteLen (endLines done) + column) text then
        .error .invalidBoundary
      else .ok (byteLen (endLines done) + column) := by
  refine positionToByte_row [] (lineRange_last hdoc hdone hline) ?_ (.inl rfl) hline column
  have hall := takeBytes_byteLen_append (endLines done ++ line) []
  rw [List.append_nil] at hall
  rw [hall, dropBytes_byteLen_append, List.append_nil]

/-- The start of the line behind the end is the end of the text. -/
theorem positionToByte_phantom (hne : line ≠ []) :
    positionToByte index (endLines done ++ line) ⟨done.length + 1, 0⟩ =
      .ok (byteLen (endLines done ++ line)) := by
  have hall := takeBytes_byteLen_append (endLines done ++ line) []
  have hnone := dropBytes_byteLen_append (endLines done ++ line) []
  rw [List.append_nil] at hall hnone
  have hboundary := isCharBoundary_byteLen_append (endLines done ++ line) []
  rw [List.append_nil] at hboundary
  rw [positionToByte_row [] (lineRange_phantom hdoc hdone hline hne)
    (by rw [hall, hnone]; rfl) (.inl rfl) List.not_mem_nil, Nat.add_zero,
    hboundary]
  rfl

end Rows

/-! ### Round trips -/

/-- The offset is between a carriage return and the newline that it belongs to. -/
def InsideTerminator (text : Rope) (offset : ℕ) : Prop :=
  ∃ before after, text = before ++ '\r' :: '\n' :: after ∧ offset = byteLen before + 1

def OffsetsRoundTrip (index : LineIndex) (text : Rope) : Prop :=
  ∀ offset, isCharBoundary offset text = true → ¬InsideTerminator text offset →
    ∃ position, byteToPosition index text offset = .ok position ∧
      positionToByte index text position = .ok offset

def PositionsRoundTrip (index : LineIndex) (text : Rope) : Prop :=
  ∀ position offset, positionToByte index text position = .ok offset →
    byteToPosition index text offset = .ok position

/-- The text is empty or ends in a newline. -/
def Ended (text : Rope) : Prop := text = [] ∨ text.getLast? = some '\n'

/-- A line's content ends in a carriage return that is not part of the line's end. -/
def DoubledReturn (text : Rope) : Prop := ['\r', '\r', '\n'] <:+: text

theorem ended_endLines (ls : List (List Char)) : Ended (endLines ls) := by
  rcases List.eq_nil_or_concat' ls with rfl | ⟨front, l, rfl⟩
  · exact .inl rfl
  · right
    simp [endLines]

theorem eq_nil_of_ended {front : List Char} (hline : '\n' ∉ line) (hfront : '\n' ∉ front)
    (hended : Ended (endLines done ++ (front ++ line))) : front ++ line = [] := by
  by_contra hne
  obtain ⟨init, c, hc⟩ := (List.eq_nil_or_concat' (front ++ line)).resolve_left hne
  have hmem : c ∈ front ++ line := by simp [hc]
  rw [hc] at hended
  rcases hended with h | h
  · simp at h
  · have hnewline : c = '\n' := by simpa [← List.append_assoc] using h
    rw [hnewline] at hmem
    exact (List.mem_append.mp hmem).elim hfront hline

/-- Where at most one carriage return is at the end, trimming takes that one. -/
theorem trimEndMatches_eq (h : ¬['\r', '\r'] <:+ line) :
    trimEndMatches '\r' line = dropReturn line := by
  rcases List.eq_nil_or_concat' line with rfl | ⟨front, c, rfl⟩
  · rfl
  · by_cases hc : c = '\r'
    · subst hc
      have hfront : ∀ hne : front ≠ [], ¬(front.getLast hne == '\r') = true := by
        intro hne hreturn
        refine h ⟨front.dropLast, ?_⟩
        have hlast := List.dropLast_append_getLast hne
        rw [beq_iff_eq.mp hreturn] at hlast
        calc front.dropLast ++ ['\r', '\r'] = (front.dropLast ++ ['\r']) ++ ['\r'] := by simp
          _ = front ++ ['\r'] := by rw [hlast]
      rw [trimEndMatches, List.rdropWhile_concat_pos _ _ _ (by simp),
        List.rdropWhile_eq_self_iff.mpr hfront, dropReturn]
      simp
    · rw [trimEndMatches, dropReturn]
      simp [hc]

theorem byteLen_trimEndMatches_le (c : Char) (text : List Char) :
    byteLen (trimEndMatches c text) ≤ byteLen text := by
  obtain ⟨rest, hrest⟩ := List.rdropWhile_prefix (· == c) text
  calc byteLen (trimEndMatches c text) ≤ byteLen (trimEndMatches c text ++ rest) := by simp
    _ = byteLen text := congrArg byteLen hrest

/-- Trimming takes nothing of a line before an offset that is not inside its end. -/
theorem byteLen_part_le {part mid : List Char} (hclean : ¬['\r', '\r'] <:+ part ++ mid)
    (hinside : mid = [] → part.getLast? ≠ some '\r') :
    byteLen part ≤ byteLen (trimEndMatches '\r' (part ++ mid)) := by
  rw [trimEndMatches_eq hclean]
  by_cases hmid : mid = []
  · rw [hmid, List.append_nil, dropReturn, if_neg (hinside hmid)]
  · rw [dropReturn_append part hmid, byteLen_append]
    omega

section RoundTrips

variable (hdoc : index.Documented)
include hdoc

/-- Every offset comes back in a text that ends in a newline and doubles no return. -/
theorem offsetsRoundTrip {text : Rope} (hended : Ended text) (hclean : ¬DoubledReturn text) :
    OffsetsRoundTrip index text := by
  intro offset hboundary hinside
  obtain ⟨pre, post, rfl, rfl⟩ := exists_append_of_isCharBoundary hboundary
  obtain ⟨done, part, hdone, hpart, rfl, -⟩ := exists_endLines pre
  rw [List.append_assoc] at hboundary hinside hended hclean ⊢
  rw [byteLen_append] at hboundary hinside ⊢
  refine ⟨_, byteToPosition_cut hdoc hdone hpart post, ?_⟩
  by_cases hpost : '\n' ∈ post
  · obtain ⟨mid, more, rfl, hmid⟩ := List.eq_append_cons_of_mem hpost
    have hline : '\n' ∉ part ++ mid := by simp [hpart, hmid]
    have hcut : part ++ (mid ++ '\n' :: more) = part ++ mid ++ '\n' :: more := by simp
    rw [hcut] at hboundary hinside hclean ⊢
    rw [positionToByte_line hdoc hdone hline more, if_neg, hboundary]
    · rfl
    · refine not_lt.mpr (byteLen_part_le ?_ ?_)
      · rintro ⟨front, hfront⟩
        exact hclean ⟨endLines done ++ front, more, by rw [← hfront]; simp⟩
      · rintro rfl hreturn
        obtain ⟨front, rfl⟩ := List.getLast?_eq_some_iff.mp hreturn
        refine hinside ⟨endLines done ++ front, more, by simp, ?_⟩
        rw [byteLen_append, byteLen_append]
        rfl
  · have hnil : part ++ post = [] := eq_nil_of_ended hpost hpart hended
    obtain ⟨rfl, rfl⟩ := List.append_eq_nil_iff.mp hnil
    rw [List.append_nil] at hboundary ⊢
    rw [positionToByte_last hdoc hdone hpart, hboundary]
    rfl

/-- Every position comes back in a text that ends in a newline. -/
theorem positionsRoundTrip {text : Rope} (hended : Ended text) :
    PositionsRoundTrip index text := by
  intro position offset hoffset
  obtain ⟨ls, last, hls, hlast, rfl, hsplit⟩ := exists_endLines text
  obtain rfl : last = [] := eq_nil_of_ended hlast List.not_mem_nil (by simpa using hended)
  have hlen : index.lineLen (endLines ls ++ []) = ls.length := by
    rw [hdoc.lineLen, hsplit]
    simp
  have hle : position.line ≤ ls.length := by
    by_contra hgt
    rw [positionToByte, if_pos (by rw [lenLines]; omega)] at hoffset
    cases hoffset
  obtain ⟨i, column⟩ := position
  obtain ⟨done, rest, rfl, rfl⟩ : ∃ done rest, ls = done ++ rest ∧ done.length = i :=
    ⟨ls.take i, ls.drop i, (List.take_append_drop i ls).symm, List.length_take_of_le hle⟩
  have hdone : ∀ l ∈ done, '\n' ∉ l := fun l hl => hls l (List.mem_append_left _ hl)
  cases rest with
  | nil =>
    have hcut : endLines (done ++ []) ++ [] = endLines done ++ [] := by simp
    rw [hcut] at hoffset ⊢
    rw [positionToByte_last hdoc hdone hlast] at hoffset
    split at hoffset
    · cases hoffset
    · next hcolumn =>
      obtain rfl : column = 0 := by
        simp [trimEndMatches] at hcolumn
        omega
      split at hoffset
      · cases hoffset
      · obtain rfl := Except.ok.inj hoffset
        exact byteToPosition_cut hdoc hdone hlast []
  | cons line rest =>
    have hline : '\n' ∉ line := hls line (by simp)
    have hcut : endLines (done ++ line :: rest) ++ [] =
        endLines done ++ (line ++ '\n' :: endLines rest) := by simp [endLines]
    rw [hcut] at hoffset ⊢
    rw [positionToByte_line hdoc hdone hline] at hoffset
    split at hoffset
    · cases hoffset
    · next hcolumn =>
      have hcontent := byteLen_trimEndMatches_le '\r' line
      split at hoffset
      · cases hoffset
      · next hboundary =>
        obtain rfl := Except.ok.inj hoffset
        obtain ⟨pre, post, htext, hpre⟩ :=
          exists_append_of_isCharBoundary (by simpa using hboundary)
        obtain ⟨part, rfl, hrest⟩ := exists_append_of_byteLen_le htext (by omega)
        rw [byteLen_append] at hpre
        obtain ⟨mid, rfl, -⟩ := exists_append_of_byteLen_le hrest.symm (by omega)
        have hpart : '\n' ∉ part := fun h => hline (List.mem_append_left _ h)
        obtain rfl : column = byteLen part := by omega
        rw [List.append_assoc]
        exact byteToPosition_cut hdoc hdone hpart _

/-- The line behind the end has a position that no offset has. -/
theorem not_positionsRoundTrip {text : Rope} (hended : ¬Ended text) :
    ¬PositionsRoundTrip index text := by
  intro h
  obtain ⟨done, last, hdone, hlast, rfl, -⟩ := exists_endLines text
  have hne : last ≠ [] := by
    rintro rfl
    exact hended (by simpa using ended_endLines done)
  have hphantom := h _ _ (positionToByte_phantom hdoc hdone hlast hne)
  have hlastLine := byteToPosition_cut hdoc hdone hlast []
  rw [List.append_nil, ← byteLen_append] at hlastLine
  have hline := congrArg BytePosition.line (Except.ok.inj (hphantom.symm.trans hlastLine))
  simp at hline

/-- The offset between two carriage returns before a newline has a position that is refused. -/
theorem not_offsetsRoundTrip {text : Rope} (hdoubled : DoubledReturn text) :
    ¬OffsetsRoundTrip index text := by
  intro h
  obtain ⟨front, more, rfl⟩ := hdoubled
  obtain ⟨done, part, hdone, hpart, rfl, -⟩ := exists_endLines front
  have hreturn : '\n' ∉ part ++ ['\r'] := by simpa using hpart
  have hline : '\n' ∉ part ++ ['\r'] ++ ['\r'] := by simpa using hpart
  have hcut : endLines done ++ part ++ ['\r', '\r', '\n'] ++ more =
      endLines done ++ (part ++ ['\r'] ++ '\r' :: '\n' :: more) := by simp
  have hboundary := isCharBoundary_byteLen_append (endLines done ++ (part ++ ['\r']))
    ('\r' :: '\n' :: more)
  rw [List.append_assoc, byteLen_append] at hboundary
  rw [hcut] at h
  obtain ⟨position, hposition, hback⟩ := h _ hboundary (by
    rintro ⟨before, after, htext, hlen⟩
    have hcuts : endLines done ++ (part ++ ['\r']) ++ '\r' :: '\n' :: more =
        before ++ ['\r'] ++ '\n' :: after := by simpa using htext
    have hbytes : byteLen (endLines done ++ (part ++ ['\r'])) = byteLen (before ++ ['\r']) := by
      rw [byteLen_append, hlen, byteLen_append]
      rfl
    obtain ⟨zs, hzs, hrest⟩ := exists_append_of_byteLen_le hcuts hbytes.le
    obtain rfl : zs = [] := by
      rw [hzs, byteLen_append _ zs] at hbytes
      exact eq_nil_of_byteLen_eq_zero (by omega)
    simp at hrest)
  rw [byteToPosition_cut hdoc hdone hreturn] at hposition
  obtain rfl := Except.ok.inj hposition
  have hsame : endLines done ++ (part ++ ['\r'] ++ '\r' :: '\n' :: more) =
      endLines done ++ (part ++ ['\r'] ++ ['\r'] ++ '\n' :: more) := by simp
  have htrim : trimEndMatches '\r' (part ++ ['\r'] ++ ['\r']) = trimEndMatches '\r' part := by
    rw [trimEndMatches, List.rdropWhile_concat_pos _ _ _ (by simp),
      List.rdropWhile_concat_pos _ _ _ (by simp), trimEndMatches]
  have hshort : byteLen (trimEndMatches '\r' part) < byteLen (part ++ ['\r']) := by
    have hle := byteLen_trimEndMatches_le '\r' part
    have hone : byteLen ['\r'] = 1 := rfl
    rw [byteLen_append]
    omega
  rw [hsame, positionToByte_line hdoc hdone hline, htrim, if_pos hshort] at hback
  cases hback

end RoundTrips

/-- Offsets and positions convert into each other and back exactly for the texts that are
empty or end in a newline, and in which no line keeps a carriage return before its end. -/
theorem positions_bijective_iff (index : LineIndex) (hdoc : index.Documented) (text : Rope) :
    (OffsetsRoundTrip index text ∧ PositionsRoundTrip index text) ↔
      Ended text ∧ ¬DoubledReturn text := by
  constructor
  · rintro ⟨hoffsets, hpositions⟩
    exact ⟨not_not.mp fun h => not_positionsRoundTrip hdoc h hpositions,
      fun h => not_offsetsRoundTrip hdoc h hoffsets⟩
  · rintro ⟨hended, hclean⟩
    exact ⟨offsetsRoundTrip hdoc hended hclean, positionsRoundTrip hdoc hended⟩

/-- The lines of a text, counted on the text itself. -/
def plainIndex : LineIndex where
  lineLen text := (splitInclusive text).length
  lineOfByte text offset := (takeBytes offset text).count '\n'
  byteOfLine text line := byteLen ((splitInclusive text).take line).flatten

theorem plainIndex_documented : plainIndex.Documented where
  lineLen _ := rfl
  lineOfByte _ _ _ := rfl
  byteOfLine _ _ _ := rfl

theorem positions_bijective_two_lines :
    let text := ['é', '\r', '\n', 'x', '\n']
    OffsetsRoundTrip plainIndex text ∧ PositionsRoundTrip plainIndex text :=
  (positions_bijective_iff plainIndex plainIndex_documented _).mpr
    ⟨.inr (by decide), by unfold DoubledReturn; decide⟩

/-- The text `a` has a second line, whose start is the end of the first one. -/
theorem phantom_line :
    ¬∀ (index : LineIndex) (text : Rope), index.Documented →
      OffsetsRoundTrip index text ∧ PositionsRoundTrip index text := by
  intro h
  have hback := (h plainIndex ['a'] plainIndex_documented).2 ⟨1, 0⟩ 1 (by decide)
  exact absurd hback (by decide)

end DocumentSnapshot

end Codegg.Documents
