import Codegg.FileTools.DiffApplied

/-!
# Text outside the hunks

The lines that no hunk reads are copied. Each stands in the new text behind what the hunks before it
wrote. Its line end is not copied but put back.
-/
namespace Codegg.FileTools

open Codegg.Library

section Extents

/-- How far a hunk reaches: its first line, how many lines it reads, and how many it writes. -/
structure Extent where
  start : ℕ
  read : ℕ
  written : ℕ
  deriving DecidableEq

/-- The extents of the hunks up to a line of the patch, the last one first. -/
def extentLine (extents : List Extent) (line : Text) : List Extent :=
  if isHeader line then
    match parseHunkOldStart line with
    | none => extents
    | some oldStart => ⟨oldStart - 1, 0, 0⟩ :: extents
  else
    match extents with
    | [] => []
    | e :: before =>
      if isPassedOver line then e :: before
      else
        match line with
        | ' ' :: _ => ⟨e.start, e.read + 1, e.written + 1⟩ :: before
        | '-' :: _ => ⟨e.start, e.read + 1, e.written⟩ :: before
        | '+' :: _ => ⟨e.start, e.read, e.written + 1⟩ :: before
        | _ => e :: before

def extents (patch : Text) : List Extent := (lines patch).foldl extentLine []

/-- No hunk reads the line. -/
def Outside (extents : List Extent) (i : ℕ) : Prop :=
  ∀ e ∈ extents, i < e.start ∨ e.start + e.read ≤ i

instance (extents : List Extent) (i : ℕ) : Decidable (Outside extents i) :=
  inferInstanceAs (Decidable (∀ e ∈ extents, _))

def totalRead (extents : List Extent) : ℕ := (extents.map Extent.read).sum

def totalWritten (extents : List Extent) : ℕ := (extents.map Extent.written).sum

/-- The hunks that start at a line or before it. -/
def upTo (extents : List Extent) (i : ℕ) : List Extent := extents.filter fun e => e.start ≤ i

/-- Where a line that no hunk reads stands in the new text. -/
def place (extents : List Extent) (i : ℕ) : ℕ :=
  i + totalWritten (upTo extents i) - totalRead (upTo extents i)

/-- Each line that no hunk reads stands in the new text as it was. The last line of the original
may get the newline that it did not have. -/
def OutsidePreserved (original patch result : Text) : Prop :=
  ∀ i raw, (splitInclusive original)[i]? = some raw → Outside (extents patch) i →
    (splitInclusive result)[place (extents patch) i]? = some raw ∨
    raw.getLast? ≠ some '\n' ∧
      (splitInclusive result)[place (extents patch) i]? = some (raw ++ ['\n'])

/-- The line is the last of the new text. -/
def IsLast (original : Text) (extents : List Extent) (i : ℕ) : Prop :=
  place extents i + 1 + totalRead extents =
    (splitInclusive original).length + totalWritten extents

/-- No line outside the hunks ends with a carriage return and a newline. One that the new text ends
with is not empty, or has no newline in the original either. -/
def KeepsEnds (original patch : Text) : Prop :=
  ∀ i raw, (splitInclusive original)[i]? = some raw → Outside (extents patch) i →
    ¬['\r', '\n'] <:+ raw ∧
    (IsLast original (extents patch) i → raw.getLast? = some '\n' →
      original.getLast? = some '\n' ∧ raw ≠ ['\n'])

end Extents

section Tracing

variable {original : List Text} {s s' : Applier} {exts : List Extent} {line : Text} {i t : ℕ}

theorem place_cons_of_lt {e : Extent} (h : i < e.start) : place (e :: exts) i = place exts i := by
  have hnot : ¬e.start ≤ i := by omega
  simp [place, upTo, hnot]

/-- Where the applier is after hunks of some extents. -/
structure Traced (original : List Text) (s : Applier) (exts : List Extent) : Prop where
  isOpen : s.hunk.isSome = true ↔ exts ≠ []
  within : s.origIdx ≤ original.length
  behind : ∀ e ∈ exts, e.start + e.read ≤ s.origIdx
  current : ∀ e, exts.head? = some e → e.start + e.read = s.origIdx
  balance : s.output.length + totalRead exts = s.origIdx + totalWritten exts
  copied : ∀ i < s.origIdx, Outside exts i → s.output[place exts i]? = original[i]?

theorem Traced.start : Traced original {} [] where
  isOpen := by simp
  within := Nat.zero_le _
  behind := by simp
  current := by simp
  balance := rfl
  copied := by simp

/-- Lines copied up to a line stand where they belong. -/
theorem Traced.copied_append (h : Traced original s exts) (ht : t ≤ original.length) :
    ∀ i < t, Outside exts i →
      (s.output ++ (original.take t).drop s.origIdx)[place exts i]? = original[i]? := by
  intro i hi hout
  by_cases hbefore : i < s.origIdx
  · have hold := h.copied i hbefore hout
    have hplace : place exts i < s.output.length := by
      by_contra hnot
      have hnone : s.output[place exts i]? = none := List.getElem?_eq_none (by omega)
      rw [hold, List.getElem?_eq_none_iff] at hnone
      omega
    rw [List.getElem?_append_left hplace, hold]
  · have hall : upTo exts i = exts := by
      refine List.filter_eq_self.2 fun e he => ?_
      have hbehind := h.behind e he
      exact decide_eq_true (by omega)
    have hplace : place exts i = s.output.length + (i - s.origIdx) := by
      have hbalance := h.balance
      rw [place, hall]
      omega
    rw [hplace, List.getElem?_append_right (by omega), Nat.add_sub_cancel_left,
      List.getElem?_drop, List.getElem?_take]
    have hidx : s.origIdx + (i - s.origIdx) = i := by omega
    rw [hidx, if_pos hi]

/-- A hunk that reads and writes further lines leaves those outside in place. -/
theorem Traced.grow {e : Extent} {before : List Extent} (h : Traced original s (e :: before))
    (reads : ℕ) (ls : List Text) (hopen : s'.hunk.isSome = true)
    (houtput : s'.output = s.output ++ ls) (hidx : s'.origIdx = s.origIdx + reads)
    (hwithin : s'.origIdx ≤ original.length) :
    Traced original s' (⟨e.start, e.read + reads, e.written + ls.length⟩ :: before) where
  isOpen := by simp [hopen]
  within := hwithin
  behind := by
    have hcurrent := h.current e rfl
    intro e' he'
    rw [List.mem_cons] at he'
    obtain rfl | he' := he'
    · dsimp only
      omega
    · have hbehind := h.behind e' (by simp [he'])
      omega
  current := by
    have hcurrent := h.current e rfl
    intro e' he'
    rw [List.head?_cons, Option.some.injEq] at he'
    subst he'
    dsimp only
    omega
  balance := by
    have hbalance := h.balance
    simp only [totalRead, totalWritten, List.map_cons, List.sum_cons] at hbalance ⊢
    rw [houtput, List.length_append]
    omega
  copied := by
    intro i hi hout
    have hcurrent := h.current e rfl
    have hbefore : i < e.start := by
      have h := hout _ List.mem_cons_self
      dsimp only at h
      omega
    have hout' : Outside (e :: before) i := by
      intro e' he'
      rw [List.mem_cons] at he'
      obtain rfl | he' := he'
      · exact .inl hbefore
      · exact hout e' (by simp [he'])
    have hold := h.copied i (by omega) hout'
    rw [place_cons_of_lt hbefore] at hold
    rw [place_cons_of_lt (by exact hbefore), houtput, List.getElem?_append_left, hold]
    by_contra hnot
    have hnone : s.output[place before i]? = none := List.getElem?_eq_none (by omega)
    rw [hold, List.getElem?_eq_none_iff] at hnone
    omega

theorem Traced.hunkLine_ok (h : Traced original s exts) {hunk : OpenHunk} (hhunk : s.hunk = some hunk)
    (hheader : isHeader line = false) (hstep : hunkLine original s hunk line = .ok s') :
    Traced original s' (extentLine exts line) := by
  have hne : exts ≠ [] := h.isOpen.1 (by simp [hhunk])
  have hbound (content : Text) (hread : original[s.origIdx]? = some content) :
      s.origIdx + 1 ≤ original.length := by
    obtain ⟨hlt, -⟩ := List.getElem?_eq_some_iff.1 hread
    omega
  have hwithin := h.within
  cases exts with
  | nil => exact absurd rfl hne
  | cons e before =>
    unfold extentLine
    rw [if_neg (by simp [hheader])]
    unfold hunkLine at hstep
    split_ifs at hstep ⊢ with hpassed
    · cases hstep
      refine h.grow 0 [] ?_ ?_ ?_ ?_
      · simp [hhunk]
      · simp
      · rfl
      · exact hwithin
    · cases line with
      | nil => cases hstep
      | cons tag content =>
        dsimp only at hstep
        split_ifs at hstep with hsize hkeep hread hdrop hread hadd
        · cases hstep
          subst hkeep
          refine h.grow 1 [content] ?_ ?_ ?_ ?_
          · rfl
          · rfl
          · rfl
          · exact hbound content (not_not.1 hread)
        · cases hstep
          subst hdrop
          refine h.grow 1 [] ?_ ?_ ?_ ?_
          · rfl
          · simp
          · rfl
          · exact hbound content (not_not.1 hread)
        · cases hstep
          subst hadd
          refine h.grow 0 [content] ?_ ?_ ?_ ?_
          · simp [hhunk]
          · rfl
          · rfl
          · exact hwithin

theorem Traced.patchLine_ok (h : Traced original s exts) (hstep : patchLine original s line = .ok s') :
    Traced original s' (extentLine exts line) := by
  unfold patchLine at hstep
  split_ifs at hstep with hheader
  · unfold extentLine
    rw [if_pos hheader]
    unfold openHunk at hstep
    cases hstart : parseHunkOldStart line with
    | none => simp [hstart] at hstep
    | some oldStart =>
      simp only [hstart] at hstep ⊢
      split_ifs at hstep with hbefore hpast
      cases hstep
      have hnew : ∀ i, Outside (⟨oldStart - 1, 0, 0⟩ :: exts) i → Outside exts i :=
        fun i hout e he => hout e (by simp [he])
      have hbalance := h.balance
      exact {
        isOpen := by simp
        within := by dsimp only; omega
        behind := by
          intro e he
          rw [List.mem_cons] at he
          obtain rfl | he := he
          · exact le_rfl
          · have hbehind := h.behind e he
            dsimp only
            omega
        current := by simp
        balance := by
          simp only [totalRead, totalWritten, List.map_cons, List.sum_cons, List.length_append,
            List.length_drop, List.length_take] at hbalance ⊢
          omega
        copied := by
          intro i hi hout
          rw [place_cons_of_lt hi]
          exact h.copied_append (by omega) i hi (hnew i hout) }
  · have hheader : isHeader line = false := by simpa using hheader
    cases hhunk : s.hunk with
    | none =>
      simp only [hhunk] at hstep
      cases hstep
      have hnil : exts = [] := by
        by_contra hne
        have hopen := h.isOpen.2 hne
        simp [hhunk] at hopen
      subst hnil
      unfold extentLine
      rw [if_neg (by simp [hheader])]
      exact ⟨by simp, h.within, h.behind, h.current, h.balance, h.copied⟩
    | some hunk =>
      simp only [hhunk] at hstep
      exact h.hunkLine_ok hhunk hheader hstep

theorem Traced.run {patchLines : List Text} (h : Traced original s exts)
    (hrun : patchLines.foldlM (patchLine original) s = .ok s') :
    Traced original s' (patchLines.foldl extentLine exts) := by
  induction patchLines generalizing s exts with
  | nil =>
    cases hrun
    exact h
  | cons line patchLines ih =>
    rw [List.foldlM_cons] at hrun
    cases hstep : patchLine original s line with
    | error e => simp [hstep, bind, Except.bind] at hrun
    | ok mid =>
      simp only [hstep] at hrun
      exact ih (h.patchLine_ok hstep) hrun

end Tracing

section Ends

variable {original patch result : Text} {out : List Text}

theorem notMem_of_mem_lines {text line : Text} (hline : line ∈ lines text) : '\n' ∉ line := by
  obtain ⟨raw, hraw, rfl⟩ := List.mem_map.1 hline
  exact fun h => notMem_chomp hraw (lineContent_prefix_chomp.subset h)

/-- Only lines of the original and of the patch are put out. -/
theorem patchLine_plain {s s' : Applier} {originalLines : List Text} {line : Text}
    (horiginal : ∀ l ∈ originalLines, '\n' ∉ l) (hline : '\n' ∉ line)
    (hs : ∀ l ∈ s.output, '\n' ∉ l) (hstep : patchLine originalLines s line = .ok s') :
    ∀ l ∈ s'.output, '\n' ∉ l := by
  have hcontent (tag : Char) (content : Text) (h : line = tag :: content) :
      ∀ l ∈ s.output ++ [content], '\n' ∉ l := by
    intro l hl
    rw [List.mem_append, List.mem_singleton] at hl
    obtain hl | rfl := hl
    · exact hs l hl
    · exact fun hmem => hline (by simp [h, hmem])
  unfold patchLine at hstep
  split_ifs at hstep
  · unfold openHunk at hstep
    cases hstart : parseHunkOldStart line with
    | none => simp [hstart] at hstep
    | some oldStart =>
      simp only [hstart] at hstep
      split_ifs at hstep
      cases hstep
      intro l hl
      rw [List.mem_append] at hl
      obtain hl | hl := hl
      · exact hs l hl
      · exact horiginal l (List.mem_of_mem_take (List.mem_of_mem_drop hl))
  · cases hhunk : s.hunk with
    | none =>
      simp only [hhunk] at hstep
      cases hstep
      exact hs
    | some hunk =>
      simp only [hhunk] at hstep
      unfold hunkLine at hstep
      split_ifs at hstep
      · cases hstep
        exact hs
      · cases line with
        | nil => cases hstep
        | cons tag content =>
          dsimp only at hstep
          split_ifs at hstep <;> cases hstep
          · exact hcontent _ content rfl
          · exact hs
          · exact hcontent _ content rfl

theorem run_plain {s s' : Applier} {originalLines patchLines : List Text}
    (horiginal : ∀ l ∈ originalLines, '\n' ∉ l) (hpatch : ∀ l ∈ patchLines, '\n' ∉ l)
    (hs : ∀ l ∈ s.output, '\n' ∉ l)
    (hrun : patchLines.foldlM (patchLine originalLines) s = .ok s') :
    ∀ l ∈ s'.output, '\n' ∉ l := by
  induction patchLines generalizing s with
  | nil =>
    cases hrun
    exact hs
  | cons line patchLines ih =>
    rw [List.foldlM_cons] at hrun
    cases hstep : patchLine originalLines s line with
    | error e => simp [hstep, bind, Except.bind] at hrun
    | ok mid =>
      simp only [hstep] at hrun
      exact ih (fun l hl => hpatch l (by simp [hl]))
        (patchLine_plain horiginal (hpatch line (by simp)) hs hstep) hrun

/-- The last line gets a newline if the original had one at its end and the line is not empty. -/
theorem splitInclusive_restoreNewline {front : List Text} {last : Text}
    (hfront : ∀ line ∈ front, '\n' ∉ line) (hlast : '\n' ∉ last) :
    splitInclusive (restoreNewline original (joinLines (front ++ [last]))) =
      front.map (· ++ ['\n']) ++
        if original.getLast? = some '\n' ∧ last ≠ [] then [last ++ ['\n']]
        else if last = [] then [] else [last] := by
  have hends := joinLines_ends_iff front hlast
  unfold restoreNewline
  by_cases hempty : last = []
  · have hplain : ¬(original.getLast? = some '\n' ∧ joinLines (front ++ [last]) ≠ [] ∧
        (joinLines (front ++ [last])).getLast? ≠ some '\n') := fun h => hends.1 h.2 hempty
    rw [if_neg hplain, if_neg (fun h => h.2 hempty), joinLines_concat,
      splitInclusive_endLines_append hfront, hempty]
    rfl
  · by_cases horiginal : original.getLast? = some '\n'
    · have hrestored := And.intro horiginal (hends.2 hempty)
      have hcut : joinLines (front ++ [last]) ++ ['\n'] = endLines front ++ (last ++ '\n' :: []) := by
        rw [joinLines_concat, List.append_assoc]
      rw [if_pos hrestored, if_pos ⟨horiginal, hempty⟩, hcut,
        splitInclusive_endLines_append hfront, splitInclusive_append hlast]
      rfl
    · rw [if_neg fun h => horiginal h.1, if_neg fun h => horiginal h.1, if_neg hempty,
        joinLines_concat, splitInclusive_endLines_append hfront,
        splitInclusive_of_notMem hlast hempty]

/-- A line of the new text, with the end that is put back. -/
theorem getElem?_restoreNewline (original : Text) (hout : ∀ line ∈ out, '\n' ∉ line) {j : ℕ} {line : Text}
    (hline : out[j]? = some line) :
    (splitInclusive (restoreNewline original (joinLines out)))[j]? =
      if j + 1 < out.length ∨ original.getLast? = some '\n' ∧ line ≠ [] then some (line ++ ['\n'])
      else if line = [] then none else some line := by
  obtain ⟨hj, -⟩ := List.getElem?_eq_some_iff.1 hline
  obtain hnil | ⟨front, last, hcut⟩ := List.eq_nil_or_concat out
  · simp [hnil] at hj
  · rw [List.concat_eq_append] at hcut
    subst hcut
    rw [splitInclusive_restoreNewline (fun m hm => hout m (by simp [hm])) (hout last (by simp))]
    rw [List.length_append, List.length_singleton] at hj ⊢
    by_cases hbefore : j < front.length
    · rw [List.getElem?_append_left hbefore] at hline
      rw [List.getElem?_append_left (by simpa using hbefore), List.getElem?_map, hline,
        if_pos (.inl (by omega))]
      rfl
    · have hend : j = front.length := by omega
      subst hend
      rw [List.getElem?_append_right le_rfl, Nat.sub_self, List.getElem?_cons_zero,
        Option.some.injEq] at hline
      subst hline
      rw [List.getElem?_append_right (by simp), List.length_map, Nat.sub_self]
      have hnot : ¬front.length + 1 < front.length + 1 := by omega
      simp only [hnot, false_or]
      split_ifs <;> rfl

/-- A line with an end that is put back is the line that it was exactly if it had that end. -/
theorem restored_iff {raw : Text} {isLast isBefore : Prop} [Decidable isBefore]
    (hraw : raw ∈ splitInclusive original) (hlast : ¬isLast ↔ isBefore) {found : Option Text}
    (hfound : found = if isBefore ∨ original.getLast? = some '\n' ∧ lineContent raw ≠ [] then
      some (lineContent raw ++ ['\n'])
      else if lineContent raw = [] then none else some (lineContent raw)) :
    (found = some raw ∨ raw.getLast? ≠ some '\n' ∧ found = some (raw ++ ['\n'])) ↔
      ¬['\r', '\n'] <:+ raw ∧ (isLast → raw.getLast? = some '\n' →
        original.getLast? = some '\n' ∧ raw ≠ ['\n']) := by
  obtain ⟨content, hcontent, rfl | ⟨rfl, hne⟩⟩ := mem_splitInclusive hraw
  · have hreturn : ¬['\r', '\n'] <:+ content ++ ['\n'] ↔ dropReturn content = content := by
      rw [← lineContent_eq_chomp_iff, chomp_newline, lineContent_newline]
    have hplain : '\n' ∉ dropReturn content := fun h =>
      hcontent ((dropReturn_prefix_self content).subset h)
    have hends : (content ++ ['\n']).getLast? = some '\n' := by simp
    rw [lineContent_newline] at hfound
    rw [hreturn, hfound]
    split_ifs with hrestored hempty
    · have hne : dropReturn content = content → original.getLast? = some '\n' ∧
          dropReturn content ≠ [] → content ++ ['\n'] ≠ ['\n'] := by
        intro hsame hends h
        rw [hsame] at hends
        exact hends.2 (by simpa using h)
      simp only [Option.some.injEq, List.append_cancel_right_eq, hends, ne_eq, not_true_eq_false,
        false_and, or_false]
      tauto
    · have hlast' : isLast := by tauto
      simp only [hends, ne_eq, not_true_eq_false, false_and, or_self, false_iff]
      rintro ⟨hsame, h⟩
      exact (h hlast' trivial).2 (by rw [← hsame, hempty]; rfl)
    · have hlast' : isLast := by tauto
      have hnot : dropReturn content ≠ content ++ ['\n'] := fun h => hplain (by simp [h])
      simp only [Option.some.injEq, hnot, hends, ne_eq, not_true_eq_false, false_and, or_self,
        false_iff]
      rintro ⟨hsame, h⟩
      exact hrestored (.inr ⟨(h hlast' trivial).1, hempty⟩)
  · have hends : raw.getLast? ≠ some '\n' := fun h => hcontent (List.mem_of_getLast? h)
    have hreturn : ¬['\r', '\n'] <:+ raw := fun h => hcontent (h.subset (by simp))
    rw [lineContent_of_notMem hcontent] at hfound
    rw [hfound]
    split_ifs with hrestored
    · simp [hends, hreturn]
    · simp [hends, hreturn]

/-- What the applier leaves outside the hunks is what it was, exactly if its line ends are the ones
that are put back. -/
theorem outsidePreserved_iff (happly : applyUnifiedDiff original patch = .ok result) :
    OutsidePreserved original patch result ↔ KeepsEnds original patch := by
  obtain ⟨s, hrun, -, rfl⟩ := applyUnifiedDiff_eq_ok.1 happly
  have htraced : Traced (lines original) s (extents patch) := Traced.start.run hrun
  have hplain : ∀ l ∈ s.cursor.all (lines original), '\n' ∉ l := by
    have houtput := run_plain (fun l hl => notMem_of_mem_lines hl)
      (fun l hl => notMem_of_mem_lines hl) (by simp) hrun
    intro l hl
    rw [Cursor.all, List.mem_append] at hl
    obtain hl | hl := hl
    · exact houtput l hl
    · exact notMem_of_mem_lines (List.mem_of_mem_drop hl)
  have hwithin := htraced.within
  have hlength : (s.cursor.all (lines original)).length + totalRead (extents patch) =
      (splitInclusive original).length + totalWritten (extents patch) := by
    have hbalance := htraced.balance
    have hcount : (lines original).length = (splitInclusive original).length := List.length_map _
    rw [Cursor.all, List.length_append, List.length_drop]
    dsimp only [Applier.cursor]
    omega
  have hcopied := htraced.copied_append (t := (lines original).length) le_rfl
  rw [List.take_length] at hcopied
  refine forall₃_congr fun i raw hraw => forall_congr' fun hout => ?_
  have hi : i < (lines original).length := by
    obtain ⟨hlt, -⟩ := List.getElem?_eq_some_iff.1 hraw
    rwa [lines, List.length_map]
  have hline : (s.cursor.all (lines original))[place (extents patch) i]? = some (lineContent raw) := by
    refine (hcopied i hi hout).trans ?_
    rw [lines, List.getElem?_map, hraw]
    rfl
  have hlast : ¬IsLast original (extents patch) i ↔
      place (extents patch) i + 1 < (s.cursor.all (lines original)).length := by
    obtain ⟨hlt, -⟩ := List.getElem?_eq_some_iff.1 hline
    rw [IsLast]
    omega
  have hfound := getElem?_restoreNewline original hplain hline
  exact restored_iff (List.mem_of_getElem? hraw) hlast hfound

/-- The applier makes the second text of every diff, and keeps the text outside the hunks of every
patch, exactly under these conditions. -/
theorem unifiedDiff_applied_iff (original patch result : Text) :
    (∀ (b : Text) (d : UnifiedDiff original b),
      applyUnifiedDiff original d.text = .ok b ↔ d.Applicable) ∧
    (applyUnifiedDiff original patch = .ok result →
      (OutsidePreserved original patch result ↔ KeepsEnds original patch)) :=
  ⟨fun _ d => d.apply_eq_ok_iff, outsidePreserved_iff⟩

theorem unifiedDiff_applied_iff_change :
    applyUnifiedDiff "a\nb\n".toList "@@ -1 +1 @@\n-a\n+c\n".toList = .ok "c\nb\n".toList ∧
    (OutsidePreserved "a\nb\n".toList "@@ -1 +1 @@\n-a\n+c\n".toList "c\nb\n".toList ↔
      KeepsEnds "a\nb\n".toList "@@ -1 +1 @@\n-a\n+c\n".toList) := by
  have happly : applyUnifiedDiff "a\nb\n".toList "@@ -1 +1 @@\n-a\n+c\n".toList =
      .ok "c\nb\n".toList := by decide +kernel
  exact ⟨happly, (unifiedDiff_applied_iff _ _ _).2 happly⟩

/-- The first of two lines is deleted. -/
def commentDeletion : UnifiedDiff "-- x\ny\n".toList "y\n".toList where
  preamble := []
  hunks := [⟨1, 0, true, false, [], [⟨.drop, "-- x\n".toList⟩]⟩]
  noHeader := by simp
  formed := by
    intro h hh
    rw [List.mem_singleton] at hh
    subst hh
    exact ⟨by decide, by decide, by decide, by decide, .inl rfl, by decide⟩
  nonempty := by simp
  turns := .cons [] rfl rfl (.nil 1 0 ["y\n".toList])

/-- A deleted line that starts with dashes is taken for a file header and stays, and a line outside
the hunks loses its carriage return. -/
theorem commentDeletion_lost :
    ¬(∀ (a b : Text) (d : UnifiedDiff a b), applyUnifiedDiff a d.text = .ok b) ∧
    ¬(∀ original patch result : Text, applyUnifiedDiff original patch = .ok result →
      OutsidePreserved original patch result) := by
  constructor
  · intro h
    have hdeleted := h _ _ commentDeletion
    exact absurd hdeleted (by decide +kernel)
  · intro h
    have hpreserved := h "a\r\nb\r\n".toList "@@ -2 +2 @@\n-b\n+B\n".toList "a\nB\n".toList
      (by decide +kernel) 0 "a\r\n".toList (by decide +kernel) (by decide +kernel)
    revert hpreserved
    decide +kernel

end Ends

end Codegg.FileTools
