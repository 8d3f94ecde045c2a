import Mathlib.Data.List.Basic
import Mathlib.Tactic

/-!
# Characters and lines of a text

A text is cut after each newline. The content of a line is what stands before its end, which is
a newline or a carriage return and a newline; the last line may have no end.
-/
namespace Codegg.Library

/-- What is asked of the characters of a text is asked of no other character. -/
instance decidableForallChar (p : Char → Prop) [DecidablePred p] (cs : List Char) :
    Decidable (∀ c ∈ cs, p c) := List.decidableBAll p cs

instance decidableExistsChar (p : Char → Prop) [DecidablePred p] (cs : List Char) :
    Decidable (∃ c ∈ cs, p c) := List.decidableBEx p cs

/-- `char::is_control`: the category Cc. -/
def isControl (c : Char) : Bool :=
  decide (c.toNat ≤ 0x1f) || (decide (0x7f ≤ c.toNat) && decide (c.toNat ≤ 0x9f))

/-- `char::is_whitespace`: the property `White_Space`. -/
def isWhitespace (c : Char) : Bool :=
  let n := c.toNat
  (decide (0x9 ≤ n) && decide (n ≤ 0xd)) || n == 0x20 || n == 0x85 || n == 0xa0 || n == 0x1680 ||
    (decide (0x2000 ≤ n) && decide (n ≤ 0x200a)) || n == 0x2028 || n == 0x2029 || n == 0x202f ||
    n == 0x205f || n == 0x3000

/-- The lines of a text with their ends. -/
def splitInclusive : List Char → List (List Char)
  | [] => []
  | c :: cs =>
    if c = '\n' then ['\n'] :: splitInclusive cs
    else
      match splitInclusive cs with
      | [] => [[c]]
      | line :: lines => (c :: line) :: lines

/-- A line without its end. -/
def lineContent (line : List Char) : List Char :=
  if line.getLast? = some '\n' then
    let line := line.dropLast
    if line.getLast? = some '\r' then line.dropLast else line
  else line

/-- A line without a carriage return at its end. -/
def dropReturn (line : List Char) : List Char :=
  if line.getLast? = some '\r' then line.dropLast else line

/-- The contents of the lines. -/
def lines (text : List Char) : List (List Char) := (splitInclusive text).map lineContent

/-- Lines with a newline between them. -/
def joinLines (ls : List (List Char)) : List Char := ['\n'].intercalate ls

/-- Lines with a newline after each. -/
def endLines (ls : List (List Char)) : List Char := ls.flatMap (· ++ ['\n'])

section

variable {line text : List Char} {ls : List (List Char)}

attribute [local simp] endLines splitInclusive

theorem splitInclusive_cons_newline (text : List Char) :
    splitInclusive ('\n' :: text) = ['\n'] :: splitInclusive text := by
  simp

/-- The lines make up the text. -/
theorem flatten_splitInclusive (text : List Char) : (splitInclusive text).flatten = text := by
  induction text with
  | nil => rfl
  | cons c cs ih =>
    unfold splitInclusive
    split_ifs with hc
    · rw [List.flatten_cons, ih, hc]
      rfl
    · cases hls : splitInclusive cs with
      | nil =>
        rw [hls] at ih
        simp [← ih]
      | cons line lines =>
        rw [hls] at ih
        simp [← ih]

/-- A line is cut off at its newline. -/
theorem splitInclusive_append (hline : '\n' ∉ line) (text : List Char) :
    splitInclusive (line ++ '\n' :: text) = (line ++ ['\n']) :: splitInclusive text := by
  induction line with
  | nil => exact splitInclusive_cons_newline text
  | cons c line ih =>
    have hc : c ≠ '\n' := by
      rintro rfl
      simp at hline
    have hline' : '\n' ∉ line := fun h => hline (List.mem_cons_of_mem _ h)
    rw [List.cons_append, splitInclusive, if_neg hc, ih hline']
    rfl

/-- A text without a newline is one line. -/
theorem splitInclusive_of_notMem (hline : '\n' ∉ line) (hne : line ≠ []) :
    splitInclusive line = [line] := by
  induction line with
  | nil => exact absurd rfl hne
  | cons c line ih =>
    have hc : c ≠ '\n' := by
      rintro rfl
      simp at hline
    have hline' : '\n' ∉ line := fun h => hline (List.mem_cons_of_mem _ h)
    rw [splitInclusive, if_neg hc]
    cases line with
    | nil => rfl
    | cons d line => rw [ih hline' (by simp)]

theorem splitInclusive_endLines_append (hls : ∀ l ∈ ls, '\n' ∉ l) (text : List Char) :
    splitInclusive (endLines ls ++ text) = ls.map (· ++ ['\n']) ++ splitInclusive text := by
  induction ls with
  | nil => rfl
  | cons l ls ih =>
    have hl : '\n' ∉ l := hls l (by simp)
    have hcut : endLines (l :: ls) ++ text = l ++ '\n' :: (endLines ls ++ text) := by
      simp
    rw [hcut, splitInclusive_append hl, ih fun m hm => hls m (by simp [hm])]
    simp

theorem splitInclusive_endLines (hls : ∀ l ∈ ls, '\n' ∉ l) :
    splitInclusive (endLines ls) = ls.map (· ++ ['\n']) := by
  have h := splitInclusive_endLines_append hls []
  simpa using h

theorem lineContent_newline (line : List Char) : lineContent (line ++ ['\n']) = dropReturn line := by
  simp [lineContent, dropReturn]

theorem lineContent_of_notMem (hline : '\n' ∉ line) : lineContent line = line := by
  have hlast : line.getLast? ≠ some '\n' := fun h => hline (List.mem_of_getLast? h)
  rw [lineContent, if_neg hlast]

theorem lines_endLines (hls : ∀ l ∈ ls, '\n' ∉ l) : lines (endLines ls) = ls.map dropReturn := by
  rw [lines, splitInclusive_endLines hls, List.map_map]
  exact List.map_congr_left fun l _ => lineContent_newline l

/-- A carriage return that is not the first character is dropped behind it. -/
theorem dropReturn_cons {c : Char} (hc : c ≠ '\r') (line : List Char) :
    dropReturn (c :: line) = c :: dropReturn line := by
  cases line with
  | nil => simp [dropReturn, hc]
  | cons d line =>
    simp only [dropReturn, List.getLast?_cons_cons]
    split_ifs <;> rfl

theorem dropReturn_append (front : List Char) (hne : line ≠ []) :
    dropReturn (front ++ line) = front ++ dropReturn line := by
  simp only [dropReturn, List.getLast?_append_of_ne_nil front hne,
    List.dropLast_append_of_ne_nil hne]
  split_ifs <;> rfl

/-- What a line starts with does not change when a character that does not occur in it is taken
from the end. -/
theorem prefix_dropLast {pre : List Char} {c : Char} (hlast : line.getLast? = some c)
    (hpre : c ∉ pre) : pre <+: line.dropLast ↔ pre <+: line := by
  obtain ⟨front, rfl⟩ : ∃ front, line = front ++ [c] := by
    obtain ⟨front, last, rfl⟩ := List.eq_nil_or_concat line |>.resolve_left (by
      rintro rfl
      simp at hlast)
    have hc : last = c := by simpa using hlast
    exact ⟨front, by simp [hc]⟩
  rw [List.dropLast_concat]
  constructor
  · exact fun h => h.trans (List.prefix_append _ _)
  · intro h
    rw [List.prefix_concat_iff] at h
    refine h.resolve_left ?_
    rintro rfl
    simp at hpre

/-- A line that starts with a prefix without carriage returns still does without its return. -/
theorem prefix_dropReturn {pre : List Char} (hpre : '\r' ∉ pre) :
    pre <+: dropReturn line ↔ pre <+: line := by
  unfold dropReturn
  split_ifs with hlast
  · exact prefix_dropLast hlast hpre
  · rfl

/-- A line has its newline at its end or has none. -/
theorem mem_splitInclusive (hline : line ∈ splitInclusive text) :
    ∃ content, '\n' ∉ content ∧ (line = content ++ ['\n'] ∨ line = content ∧ content ≠ []) := by
  induction text generalizing line with
  | nil => simp at hline
  | cons c cs ih =>
    unfold splitInclusive at hline
    split_ifs at hline with hc
    · cases hline with
      | head => exact ⟨[], by simp, by simp⟩
      | tail _ h => exact ih h
    · cases hls : splitInclusive cs with
      | nil =>
        rw [hls] at hline
        have hline : line = [c] := by simpa using hline
        exact ⟨[c], by simpa using Ne.symm hc, by simp [hline]⟩
      | cons first rest =>
        rw [hls] at hline ih
        cases hline with
        | head =>
          obtain ⟨content, hcontent, hfirst⟩ := ih (List.mem_cons_self)
          have hcons : '\n' ∉ c :: content := by simp [hcontent, Ne.symm hc]
          cases hfirst with
          | inl h => exact ⟨c :: content, hcons, .inl (by simp [h])⟩
          | inr h => exact ⟨c :: content, hcons, .inr (by simp [h.1])⟩
        | tail _ h => exact ih (List.mem_cons_of_mem _ h)

theorem endLines_eq_joinLines (hne : ls ≠ []) : endLines ls = joinLines ls ++ ['\n'] := by
  induction ls with
  | nil => exact absurd rfl hne
  | cons l ls ih =>
    cases ls with
    | nil => simp [joinLines]
    | cons m ls =>
      have hrest := ih (by simp)
      have hjoin : joinLines (l :: m :: ls) = l ++ '\n' :: joinLines (m :: ls) := by
        simp [joinLines]
      have hend : endLines (l :: m :: ls) = l ++ '\n' :: endLines (m :: ls) := by
        simp
      rw [hend, hrest, hjoin]
      simp

theorem joinLines_concat (ls : List (List Char)) (last : List Char) :
    joinLines (ls ++ [last]) = endLines ls ++ last := by
  have h : endLines (ls ++ [last]) = joinLines (ls ++ [last]) ++ ['\n'] :=
    endLines_eq_joinLines (by simp)
  have hend : endLines (ls ++ [last]) = endLines ls ++ last ++ ['\n'] := by simp
  rw [hend] at h
  exact (List.append_cancel_right h).symm

theorem splitOn_joinLines (hls : ∀ l ∈ ls, '\n' ∉ l) (hne : ls ≠ []) :
    (joinLines ls).splitOn '\n' = ls :=
  List.splitOn_intercalate '\n' hls hne

theorem splitOn_endLines (hls : ∀ l ∈ ls, '\n' ∉ l) : (endLines ls).splitOn '\n' = ls ++ [[]] := by
  have hjoin : endLines ls = joinLines (ls ++ [[]]) := by simp [joinLines_concat]
  rw [hjoin]
  refine splitOn_joinLines ?_ (by simp)
  intro l hl
  rw [List.mem_append, List.mem_singleton] at hl
  obtain hl | rfl := hl
  · exact hls l hl
  · simp

/-- A text is lines with a newline after each, and possibly a last line without. -/
theorem exists_endLines (text : List Char) :
    ∃ ls last, (∀ l ∈ ls, '\n' ∉ l) ∧ '\n' ∉ last ∧ text = endLines ls ++ last ∧
      splitInclusive text = ls.map (· ++ ['\n']) ++ if last = [] then [] else [last] := by
  have hsplit : ∃ ls last, (∀ l ∈ ls, '\n' ∉ l) ∧ '\n' ∉ last ∧ text = endLines ls ++ last := by
    induction text with
    | nil => exact ⟨[], [], by simp⟩
    | cons c text ih =>
      obtain ⟨ls, last, hls, hlast, rfl⟩ := ih
      by_cases hc : c = '\n'
      · exact ⟨[] :: ls, last, by simpa using hls, hlast, by simp [hc]⟩
      · cases ls with
        | nil => exact ⟨[], c :: last, by simp, by simp [Ne.symm hc, hlast], by simp⟩
        | cons l ls =>
          refine ⟨(c :: l) :: ls, last, ?_, hlast, by simp⟩
          intro m hm
          rw [List.mem_cons] at hm
          obtain rfl | hm := hm
          · simp [Ne.symm hc, hls l (by simp)]
          · exact hls m (by simp [hm])
  obtain ⟨ls, last, hls, hlast, rfl⟩ := hsplit
  refine ⟨ls, last, hls, hlast, rfl, ?_⟩
  rw [splitInclusive_endLines_append hls]
  split_ifs with hempty
  · simp [hempty]
  · rw [splitInclusive_of_notMem hlast hempty]

end

end Codegg.Library
