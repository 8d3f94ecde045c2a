import Codegg.FileTools.HunkTurns

/-!
# When a diff is applied

The applier makes the second text of the first exactly if no dropped or inserted line looks like a
file header, insertions fit, and the line ends of the second text are the ones it puts back.
-/
namespace Codegg.FileTools

open Codegg.Library DiffLine

variable {pre line : Text} {tag : LineTag} {t : Cursor}

section LineEnds

variable {raw : Text}

theorem chomp_newline (line : Text) : chomp (line ++ ['\n']) = line := by
  simp [chomp]

theorem prefix_chomp (hpre : '\n' ∉ pre) : pre <+: chomp raw ↔ pre <+: raw := by
  unfold chomp
  split_ifs with hlast
  · exact prefix_dropLast hlast hpre
  · rfl

theorem DiffLine.prefix_read {l : DiffLine} (hnewline : '\n' ∉ pre) (hreturn : '\r' ∉ pre) :
    pre <+: l.read ↔ pre <+: l.raw := by
  rw [read, prefix_dropReturn hreturn, prefix_chomp hnewline]

theorem lineContent_eq_chomp :
    lineContent raw = if raw.getLast? = some '\n' then dropReturn (chomp raw) else raw := by
  unfold lineContent dropReturn chomp
  split_ifs with hlast <;> simp_all

theorem prefix_lineContent (hnewline : '\n' ∉ pre) (hreturn : '\r' ∉ pre) :
    pre <+: lineContent raw ↔ pre <+: raw := by
  rw [lineContent_eq_chomp]
  split_ifs
  · rw [prefix_dropReturn hreturn, prefix_chomp hnewline]
  · rfl

theorem dropReturn_eq_self : dropReturn line = line ↔ line.getLast? ≠ some '\r' := by
  unfold dropReturn
  split_ifs with hlast
  · refine iff_of_false ?_ fun h => h hlast
    intro h
    have hlength := congrArg List.length h
    have hne : line ≠ [] := by
      rintro rfl
      simp at hlast
    have hpos := List.length_pos_of_ne_nil hne
    rw [List.length_dropLast] at hlength
    omega
  · exact iff_of_true rfl hlast

theorem dropReturn_prefix_self (line : Text) : dropReturn line <+: line := by
  unfold dropReturn
  split_ifs
  · exact List.dropLast_prefix line
  · exact List.prefix_refl line

/-- The applier reads a line as it is unless the line has no end but a carriage return. -/
theorem DiffLine.read_eq_iff {l : DiffLine} :
    l.read = lineContent l.raw ↔ l.raw.getLast? ≠ some '\r' := by
  rw [lineContent_eq_chomp, read]
  split_ifs with hlast
  · simp [hlast]
  · rw [chomp, if_neg hlast, dropReturn_eq_self]

theorem DiffLine.read_prefix_lineContent (l : DiffLine) : l.read <+: lineContent l.raw := by
  rw [lineContent_eq_chomp, read]
  split_ifs with hlast
  · exact List.prefix_refl _
  · rw [chomp, if_neg hlast]
    exact dropReturn_prefix_self _

theorem lineContent_prefix_chomp : lineContent raw <+: chomp raw := by
  rw [lineContent_eq_chomp]
  split_ifs with hlast
  · exact dropReturn_prefix_self _
  · rw [chomp, if_neg hlast]

/-- Only a carriage return before the newline is lost. -/
theorem lineContent_eq_chomp_iff : lineContent raw = chomp raw ↔ ¬['\r', '\n'] <:+ raw := by
  by_cases hlast : raw.getLast? = some '\n'
  · rw [lineContent_eq_chomp, if_pos hlast, dropReturn_eq_self, not_iff_not]
    obtain ⟨front, rfl⟩ := List.getLast?_eq_some_iff.1 hlast
    rw [chomp_newline]
    constructor
    · intro h
      obtain ⟨front, rfl⟩ := List.getLast?_eq_some_iff.1 h
      exact ⟨front, by simp⟩
    · rintro ⟨front', h⟩
      have hsplit : front' ++ ['\r'] = front := by
        have h' : front' ++ ['\r'] ++ ['\n'] = front ++ ['\n'] := by simpa using h
        exact List.append_cancel_right h'
      simp [← hsplit]
  · have hsame : lineContent raw = chomp raw := by
      rw [lineContent_eq_chomp, if_neg hlast, chomp, if_neg hlast]
    refine iff_of_true hsame ?_
    rintro ⟨front, rfl⟩
    simp at hlast

end LineEnds

section Finishing

variable {a b : Text} {out : List Text}

/-- A text is its lines with a newline after each, and possibly a last line without. -/
theorem exists_chomped (text : Text) :
    ∃ ls last, (∀ l ∈ ls, '\n' ∉ l) ∧ '\n' ∉ last ∧ text = endLines ls ++ last ∧
      splitInclusive text = ls.map (· ++ ['\n']) ++ (if last = [] then [] else [last]) ∧
      (splitInclusive text).map chomp = ls ++ if last = [] then [] else [last] := by
  obtain ⟨ls, last, hls, hlast, htext, hsplit⟩ := exists_endLines text
  refine ⟨ls, last, hls, hlast, htext, hsplit, ?_⟩
  have hchomp : chomp last = last := by
    rw [chomp, if_neg fun h => hlast (List.mem_of_getLast? h)]
  have hmap : (ls.map (· ++ ['\n'])).map chomp = ls := by
    rw [List.map_map]
    exact List.map_id'' (fun l => chomp_newline l) ls
  rw [hsplit, List.map_append, hmap]
  split_ifs <;> simp [hchomp]

theorem joinLines_ne_nil_of_ends (h : joinLines out ≠ []) : out ≠ [] := by
  rintro rfl
  exact h rfl

/-- The lines that a finished text was put together from, up to an empty last one. -/
theorem restoreNewline_eq (hout : ∀ line ∈ out, '\n' ∉ line)
    (hfinish : restoreNewline a (joinLines out) = b) :
    out = (splitInclusive b).map chomp ∨ out = (splitInclusive b).map chomp ++ [[]] := by
  obtain ⟨ls, last, hls, hlast, hb, -, hchomped⟩ := exists_chomped b
  rw [hchomped]
  by_cases hempty : last = []
  · rw [if_pos hempty, List.append_nil]
    have hend : (endLines ls).splitOn '\n' = ls ++ [[]] := splitOn_endLines hls
    rw [hb, hempty, List.append_nil, restoreNewline] at hfinish
    split_ifs at hfinish with hrestored
    · left
      have hne := joinLines_ne_nil_of_ends hrestored.2.1
      rw [← endLines_eq_joinLines hne] at hfinish
      rw [← hfinish, splitOn_endLines hout] at hend
      exact List.append_cancel_right hend
    · by_cases hne : out = []
      · left
        subst hne
        have hnil : endLines ls = [] := hfinish.symm
        cases ls with
        | nil => rfl
        | cons l ls => simp [endLines] at hnil
      · right
        rwa [← hfinish, splitOn_joinLines hout hne] at hend
  · left
    have hlines : ∀ l ∈ ls ++ [last], '\n' ∉ l := by
      intro l hl
      rw [List.mem_append, List.mem_singleton] at hl
      obtain hl | rfl := hl
      · exact hls l hl
      · exact hlast
    have hjoin : (joinLines (ls ++ [last])).splitOn '\n' = ls ++ [last] :=
      splitOn_joinLines hlines (by simp)
    rw [hb, ← joinLines_concat, restoreNewline] at hfinish
    rw [if_neg hempty]
    split_ifs at hfinish with hrestored
    · have hne := joinLines_ne_nil_of_ends hrestored.2.1
      rw [← hfinish, ← endLines_eq_joinLines hne, splitOn_endLines hout] at hjoin
      have hnil := (List.append_inj' hjoin rfl).2
      simp only [List.cons.injEq, and_true] at hnil
      exact absurd hnil.symm hempty
    · have hne : out ≠ [] := by
        rintro rfl
        have hnil : joinLines (ls ++ [last]) = [] := hfinish.symm
        rw [joinLines_concat, List.append_eq_nil_iff] at hnil
        exact hempty hnil.2
      rwa [← hfinish, splitOn_joinLines hout hne] at hjoin

/-- A newline is put at the end of lines exactly if the last of them is not empty. -/
theorem joinLines_ends_iff (front : List Text) (hline : '\n' ∉ line) :
    (joinLines (front ++ [line]) ≠ [] ∧ (joinLines (front ++ [line])).getLast? ≠ some '\n') ↔
      line ≠ [] := by
  rw [joinLines_concat]
  by_cases hempty : line = []
  · subst hempty
    refine iff_of_false ?_ (by simp)
    rintro ⟨hne, hlast⟩
    obtain rfl | ⟨front, l, rfl⟩ := List.eq_nil_or_concat front
    · exact hne rfl
    · simp [endLines] at hlast
  · refine iff_of_true ⟨by simp [hempty], ?_⟩ hempty
    rw [List.getLast?_append_of_ne_nil _ hempty]
    exact fun h => hline (List.mem_of_getLast? h)

/-- The lines of a text give the text back exactly if its last newline is restored where it has
one. -/
theorem restoreNewline_eq_iff :
    restoreNewline a (joinLines ((splitInclusive b).map chomp)) = b ↔
      b = [] ∨ (a.getLast? = some '\n' ↔ b.getLast? = some '\n') ∧
        (splitInclusive b).getLast? ≠ some ['\n'] := by
  obtain ⟨ls, last, hls, hlast, hb, hsplit, hchomped⟩ := exists_chomped b
  rw [hchomped, hsplit]
  by_cases hempty : last = []
  · rw [if_pos hempty, List.append_nil, List.append_nil]
    rw [hempty, List.append_nil] at hb
    obtain rfl | ⟨front, line, rfl⟩ := List.eq_nil_or_concat ls
    · have hnil : b = [] := hb
      rw [hnil]
      simp [restoreNewline, joinLines]
    · rw [List.concat_eq_append] at hls hb ⊢
      have hends := joinLines_ends_iff front (hls line (by simp))
      have hbl : b.getLast? = some '\n' := by simp [hb, endLines]
      have hbe : b = joinLines (front ++ [line]) ++ ['\n'] := by
        rw [hb, endLines_eq_joinLines (by simp)]
      have hne : b ≠ [] := by simp [hbe]
      have hline : (List.map (· ++ ['\n']) (front ++ [line])).getLast? ≠ some ['\n'] ↔ line ≠ [] := by
        simp
      rw [or_iff_right hne, hline, ← hends, hbl, restoreNewline]
      split_ifs with hrestored
      · exact iff_of_true hbe.symm ⟨by simp [hrestored.1], hrestored.2⟩
      · refine iff_of_false ?_ fun h => hrestored ⟨h.1.2 rfl, h.2⟩
        intro h
        rw [hbe] at h
        simp at h
  · rw [if_neg hempty]
    rw [← joinLines_concat] at hb
    have hends := joinLines_ends_iff ls hlast
    rw [← hb] at hends ⊢
    obtain ⟨hne, hbl⟩ := hends.2 hempty
    have hline : (List.map (· ++ ['\n']) ls ++ [last]).getLast? ≠ some ['\n'] := by
      simp only [List.getLast?_append, List.getLast?_singleton, Option.some_or, ne_eq,
        Option.some.injEq]
      rintro rfl
      simp at hlast
    rw [or_iff_right hne, and_iff_left hline, restoreNewline]
    split_ifs with hrestored
    · refine iff_of_false ?_ fun h => hbl (h.1 hrestored.1)
      intro h
      simp at h
    · have ha : a.getLast? ≠ some '\n' := fun h => hrestored ⟨h, hne, hbl⟩
      simp [ha, hbl]

end Finishing

section Skipping

/-- A line looks like a file header if it is dropped and starts with dashes, or inserted and starts
with plus signs. -/
theorem DiffLine.skipped_iff (l : DiffLine) :
    l.skipped = true ↔
      l.tag = .drop ∧ "-- ".toList <+: l.raw ∨ l.tag = .add ∧ "++ ".toList <+: l.raw := by
  have hdashes : "-- ".toList <+: l.read ↔ "-- ".toList <+: l.raw :=
    l.prefix_read (by decide) (by decide)
  have hpluses : "++ ".toList <+: l.read ↔ "++ ".toList <+: l.raw :=
    l.prefix_read (by decide) (by decide)
  have hcons (c : Char) : isPassedOver (c :: l.read) = true ↔
      c = '-' ∧ "-- ".toList <+: l.read ∨ c = '+' ∧ "++ ".toList <+: l.read ∨
        c = '\\' ∧ " No newline at end of file".toList <+: l.read := by
    have hfirst : "--- ".toList = '-' :: "-- ".toList := by decide
    rw [isPassedOver, hfirst]
    simp only [decide_eq_true_eq]
    grind
  rw [skipped, hcons, hdashes, hpluses]
  cases l.tag <;> simp [LineTag.char]

variable {body : List DiffLine}

/-- Lines with a prefix are counted the same as they are read and as they are. -/
theorem countP_readLines (hnewline : '\n' ∉ pre) (hreturn : '\r' ∉ pre)
    (hskipped : ∀ l ∈ body, l.tag = tag → pre <+: l.raw → l.skipped = false) :
    (readLines tag body).countP (pre <+: ·) = (rawLines tag body).countP (pre <+: ·) := by
  rw [readLines, rawLines, List.countP_map, List.countP_map, List.countP_filter, List.countP_filter]
  refine List.countP_congr fun l hl => ?_
  have hread := l.prefix_read hnewline hreturn
  simp only [Function.comp_apply, Bool.and_eq_true, decide_eq_true_eq]
  tauto

theorem countP_readLines_eq_zero (hnewline : '\n' ∉ pre) (hreturn : '\r' ∉ pre)
    (hskipped : ∀ l ∈ body, l.tag = tag → pre <+: l.raw → l.skipped = true) :
    (readLines tag body).countP (pre <+: ·) = 0 := by
  rw [List.countP_eq_zero]
  intro line hline
  obtain ⟨l, hl, rfl⟩ := List.mem_map.1 hline
  simp only [List.mem_filter, decide_eq_true_eq] at hl
  have hread := l.prefix_read hnewline hreturn
  have hpassed := hskipped l hl.1 hl.2.1
  simp only [decide_eq_true_eq, hread]
  intro hpre
  rw [hpassed hpre] at hl
  simp at hl

theorem countP_map_content {ls : List Text} {f : Text → Text}
    (hf : ∀ line, pre <+: f line ↔ pre <+: line) :
    (ls.map f).countP (pre <+: ·) = ls.countP (pre <+: ·) := by
  rw [List.countP_map]
  exact List.countP_congr fun line _ => by simp [hf]

end Skipping

section Applying

variable {a b : Text}

/-- A diff that the applier makes the second text with. -/
structure UnifiedDiff.Applicable (d : UnifiedDiff a b) : Prop where
  hasHunks : d.hunks ≠ []
  noDashes : ∀ h ∈ d.hunks, ∀ l ∈ h.body, l.tag = .drop → ¬"-- ".toList <+: l.raw
  noPluses : ∀ h ∈ d.hunks, ∀ l ∈ h.body, l.tag = .add → ¬"++ ".toList <+: l.raw
  insertionsFit : ∀ h ∈ d.hunks, h.oldLines = [] → 0 < h.oldStart → h.Fits (lines a) d.hunks
  /-- No line of the new text ends with a carriage return and a newline. -/
  noReturns : ∀ line ∈ splitInclusive b, ¬['\r', '\n'] <:+ line
  plainEnds : ∀ h ∈ d.hunks, ∀ l ∈ h.body, l.raw.getLast? ≠ some '\r'
  /-- Both texts end with a newline or neither does, and the new one does not end with an empty
  line. -/
  sameEnd : b = [] ∨ (a.getLast? = some '\n' ↔ b.getLast? = some '\n') ∧
    (splitInclusive b).getLast? ≠ some ['\n']

theorem skipped_eq_false_iff {hunks : List DiffHunk} :
    (∀ h ∈ hunks, ∀ l ∈ h.body, l.skipped = false) ↔
      (∀ h ∈ hunks, ∀ l ∈ h.body, l.tag = .drop → ¬"-- ".toList <+: l.raw) ∧
      ∀ h ∈ hunks, ∀ l ∈ h.body, l.tag = .add → ¬"++ ".toList <+: l.raw := by
  have hline (l : DiffLine) : l.skipped = false ↔ (l.tag = .drop → ¬"-- ".toList <+: l.raw) ∧
      (l.tag = .add → ¬"++ ".toList <+: l.raw) := by
    rw [← Bool.not_eq_true, l.skipped_iff]
    tauto
  grind

theorem not_dashes_and_pluses (hdashes : "-- ".toList <+: line) :
    ¬"++ ".toList <+: line := by
  intro hpluses
  have h := List.prefix_or_prefix_of_prefix hdashes hpluses
  revert h
  decide

/-- If the applier makes the lines of the new text, it passes over none of a hunk. -/
theorem UnifiedDiff.skipped_of_balance (d : UnifiedDiff a b)
    (hrun : d.hunks.foldlM (editHunk (lines a)) ⟨[], 0⟩ = some t)
    (hcount : ∀ pre : Text, pre ≠ [] → '\n' ∉ pre → '\r' ∉ pre →
      (t.all (lines a)).countP (pre <+: ·) = (splitInclusive b).countP (pre <+: ·)) :
    ∀ h ∈ d.hunks, ∀ l ∈ h.body, l.skipped = false := by
  have hbalance := editHunks_balance hrun
  have htruth := d.turns.balance
  have hall : Cursor.all (lines a) ⟨[], 0⟩ = (splitInclusive a).map lineContent := rfl
  rw [hall] at hbalance
  generalize hbody : d.hunks.flatMap DiffHunk.body = body at hbalance htruth
  have hpre (pre : Text) (hne : pre ≠ []) (hnewline : '\n' ∉ pre) (hreturn : '\r' ∉ pre) :
      (readLines .drop body).countP (pre <+: ·) + (rawLines .add body).countP (pre <+: ·) =
        (rawLines .drop body).countP (pre <+: ·) + (readLines .add body).countP (pre <+: ·) := by
    have h := hbalance.countP_eq (pre <+: ·)
    have h' := htruth.countP_eq (pre <+: ·)
    rw [List.countP_append, List.countP_append, hcount pre hne hnewline hreturn,
      countP_map_content fun _ => prefix_lineContent hnewline hreturn] at h
    rw [List.countP_append, List.countP_append] at h'
    omega
  have hdrop : (rawLines .drop body).countP ("-- ".toList <+: ·) = 0 := by
    have h := hpre "-- ".toList (by decide) (by decide) (by decide)
    have hout : (readLines .drop body).countP ("-- ".toList <+: ·) = 0 :=
      countP_readLines_eq_zero (by decide) (by decide) fun l _ htag hpre =>
        l.skipped_iff.2 (.inl ⟨htag, hpre⟩)
    have hin : (readLines .add body).countP ("-- ".toList <+: ·) =
        (rawLines .add body).countP ("-- ".toList <+: ·) :=
      countP_readLines (by decide) (by decide) fun l _ htag hpre => by
        have hnot := not_dashes_and_pluses hpre
        have hskip := l.skipped_iff
        simp_all
    omega
  have hadd : (rawLines .add body).countP ("++ ".toList <+: ·) = 0 := by
    have h := hpre "++ ".toList (by decide) (by decide) (by decide)
    have hin : (readLines .add body).countP ("++ ".toList <+: ·) = 0 :=
      countP_readLines_eq_zero (by decide) (by decide) fun l _ htag hpre =>
        l.skipped_iff.2 (.inr ⟨htag, hpre⟩)
    have hout : (readLines .drop body).countP ("++ ".toList <+: ·) =
        (rawLines .drop body).countP ("++ ".toList <+: ·) :=
      countP_readLines (by decide) (by decide) fun l _ htag hpre => by
        have hnot := fun h => not_dashes_and_pluses h hpre
        have hskip := l.skipped_iff
        simp_all
    omega
  rw [List.countP_eq_zero] at hdrop hadd
  have hmem {tag : LineTag} {h : DiffHunk} (hh : h ∈ d.hunks) {l : DiffLine} (hl : l ∈ h.body)
      (htag : l.tag = tag) : l.raw ∈ rawLines tag body := by
    rw [← hbody]
    exact List.mem_map.2 ⟨l, List.mem_filter.2
      ⟨List.mem_flatMap.2 ⟨h, hh, hl⟩, decide_eq_true htag⟩, rfl⟩
  rw [skipped_eq_false_iff]
  constructor
  · intro h hh l hl htag
    simpa using hdrop l.raw (hmem hh hl htag)
  · intro h hh l hl htag
    simpa using hadd l.raw (hmem hh hl htag)

/-- Lines that do not get longer, and together stay as long, are all as long as before. -/
theorem eq_of_sum_length_eq {α : Type} {items : List α} {f g : α → Text}
    (hle : ∀ x ∈ items, f x <+: g x)
    (hsum : (items.map fun x => (g x).length).sum ≤ (items.map fun x => (f x).length).sum) :
    ∀ x ∈ items, f x = g x := by
  induction items with
  | nil => simp
  | cons x items ih =>
    have hrest : (items.map fun x => (f x).length).sum ≤ (items.map fun x => (g x).length).sum :=
      List.sum_le_sum fun y hy => (hle y (by simp [hy])).length_le
    have hx := (hle x (by simp)).length_le
    rw [List.map_cons, List.map_cons, List.sum_cons, List.sum_cons] at hsum
    intro y hy
    rw [List.mem_cons] at hy
    obtain rfl | hy := hy
    · exact (hle y (by simp)).eq_of_length (by omega)
    · exact ih (fun z hz => hle z (by simp [hz])) (by omega) y hy

theorem readLines_eq {body : List DiffLine} (hskipped : ∀ l ∈ body, l.skipped = false) :
    readLines tag body = (body.filter fun l => l.tag = tag).map read := by
  rw [readLines]
  congr 1
  exact List.filter_congr fun l hl => by simp [hskipped l hl]

/-- What the applier puts together has no newline inside a line. -/
theorem UnifiedDiff.notMem_all (d : UnifiedDiff a b)
    (hrun : d.hunks.foldlM (editHunk (lines a)) ⟨[], 0⟩ = some t) :
    ∀ line ∈ t.all (lines a), '\n' ∉ line := by
  intro line hline
  have hmem := (editHunks_balance hrun).subset (List.mem_append_left _ hline)
  rw [List.mem_append] at hmem
  obtain hmem | hmem := hmem
  · obtain ⟨raw, hraw, rfl⟩ := List.mem_map.1 hmem
    exact fun h => notMem_chomp hraw (lineContent_prefix_chomp.subset h)
  · obtain ⟨l, hl, rfl⟩ := List.mem_map.1 hmem
    obtain ⟨h, hh, hl⟩ := List.mem_flatMap.1 (List.mem_filter.1 hl).1
    have hchomp : '\n' ∉ chomp l.raw := (d.turns.mem_lines hh hl).elim notMem_chomp notMem_chomp
    exact fun h => hchomp (lineContent_prefix_chomp.subset (l.read_prefix_lineContent.subset h))

/-- The lines put together are those of the new text, and none loses a carriage return. -/
theorem UnifiedDiff.all_eq_of_finish (d : UnifiedDiff a b)
    (hrun : d.hunks.foldlM (editHunk (lines a)) ⟨[], 0⟩ = some t)
    (hskipped : ∀ h ∈ d.hunks, ∀ l ∈ h.body, l.skipped = false)
    (hall : t.all (lines a) = (splitInclusive b).map chomp ∨
      t.all (lines a) = (splitInclusive b).map chomp ++ [[]]) :
    t.all (lines a) = (splitInclusive b).map chomp ∧
      (∀ raw ∈ splitInclusive b, lineContent raw = chomp raw) ∧ ReadsAs (· = .add) d.hunks := by
  have hnone : ([] : List Text).length = 0 := rfl
  have hold := d.turns.readsAs_of_run hskipped hnone rfl le_rfl hrun
  have hbody : ∀ l ∈ d.hunks.flatMap DiffHunk.body, l.skipped = false := by
    intro l hl
    obtain ⟨h, hh, hl⟩ := List.mem_flatMap.1 hl
    exact hskipped h hh l hl
  have hbalance := editHunks_balance hrun
  have htruth := d.turns.balance
  rw [readLines_eq hbody, readLines_eq hbody] at hbalance
  have hlength : t.all (lines a) = (splitInclusive b).map chomp := by
    have h := hbalance.length_eq
    have h' := htruth.length_eq
    have hstart : (Cursor.all (lines a) ⟨[], 0⟩).length = (splitInclusive a).length := by
      simp [Cursor.all, lines]
    simp only [rawLines, List.length_append, List.length_map] at h h'
    refine hall.resolve_right fun hlonger => ?_
    have hlonger := congrArg List.length hlonger
    simp only [List.length_append, List.length_map, List.length_singleton] at hlonger
    omega
  have hdropped : ((d.hunks.flatMap DiffHunk.body).filter fun l => l.tag = .drop).map
      (fun l => l.read.length) = ((d.hunks.flatMap DiffHunk.body).filter fun l => l.tag = .drop).map
        fun l => (lineContent l.raw).length := by
    refine List.map_congr_left fun l hl => ?_
    obtain ⟨hl, htag⟩ := List.mem_filter.1 hl
    obtain ⟨h, hh, hl⟩ := List.mem_flatMap.1 hl
    rw [hold h hh l hl (by simp_all)]
  have hsum := (hbalance.map List.length).sum_eq
  have hsum' := (htruth.map fun raw => (lineContent raw).length).sum_eq
  have hstart : Cursor.all (lines a) ⟨[], 0⟩ = (splitInclusive a).map lineContent := rfl
  rw [hlength, hstart] at hsum
  simp only [rawLines, List.map_append, List.map_map, List.sum_append, Function.comp_def,
    hdropped] at hsum hsum'
  have hchomp : ∀ raw ∈ splitInclusive b, lineContent raw <+: chomp raw :=
    fun raw _ => lineContent_prefix_chomp
  have hread := fun l (_ : l ∈ (d.hunks.flatMap DiffHunk.body).filter fun l => l.tag = .add) =>
    read_prefix_lineContent l
  have hchompLe := List.sum_le_sum fun raw hraw => (hchomp raw hraw).length_le
  have hreadLe := List.sum_le_sum fun l hl => (hread l hl).length_le
  refine ⟨hlength, eq_of_sum_length_eq hchomp (by linarith), fun h hh l hl htag => ?_⟩
  have hadded := eq_of_sum_length_eq hread (by linarith)
  exact hadded l (List.mem_filter.2 ⟨List.mem_flatMap.2 ⟨h, hh, hl⟩, by simp [htag]⟩)

/-- The applier makes the second text exactly with an applicable diff. -/
theorem UnifiedDiff.apply_eq_ok_iff (d : UnifiedDiff a b) :
    applyUnifiedDiff a d.text = .ok b ↔ d.Applicable := by
  have hnone : ([] : List Text).length = 0 := rfl
  have hturned (hskipped : ∀ h ∈ d.hunks, ∀ l ∈ h.body, l.skipped = false)
      (hadd : ReadsAs (· = .add) d.hunks) :
      Turned (lines a) ⟨[], 0⟩ d.hunks ((splitInclusive b).map lineContent) ↔
        ReadsAs (· ≠ .add) d.hunks ∧ FitFrom (lines a) 0 0 d.hunks :=
    d.turns.turned_iff hskipped hadd hnone rfl (s := ⟨[], 0⟩) (.inl rfl)
  have hfits : FitFrom (lines a) 0 0 d.hunks ↔
      ∀ h ∈ d.hunks, h.oldLines = [] → 0 < h.oldStart → h.Fits (lines a) d.hunks := by
    refine forall₄_congr fun h hh hempty hpos => ?_
    exact and_iff_right fun _ => by omega
  have hplain : ReadsAs (· = .add) d.hunks ∧ ReadsAs (· ≠ .add) d.hunks ↔
      ∀ h ∈ d.hunks, ∀ l ∈ h.body, l.raw.getLast? ≠ some '\r' := by
    simp only [ReadsAs, read_eq_iff]
    grind
  have hreturns : (splitInclusive b).map lineContent = (splitInclusive b).map chomp ↔
      ∀ line ∈ splitInclusive b, ¬['\r', '\n'] <:+ line := by
    rw [List.map_inj_left]
    exact forall₂_congr fun line _ => lineContent_eq_chomp_iff
  rw [applyUnifiedDiff_text_iff]
  constructor
  · rintro ⟨hne, t, hrun, hfinish⟩
    have hall := restoreNewline_eq (d.notMem_all hrun) hfinish
    have hskipped := d.skipped_of_balance hrun fun pre hpre hnewline hreturn => by
      have hcount : ((splitInclusive b).map chomp).countP (pre <+: ·) =
          (splitInclusive b).countP (pre <+: ·) := countP_map_content fun line => prefix_chomp hnewline
      obtain h | h := hall <;> rw [h]
      · exact hcount
      · rw [List.countP_append, hcount]
        simp [hpre]
    obtain ⟨hchomped, hcontent, hadd⟩ := d.all_eq_of_finish hrun hskipped hall
    have hsame := List.map_congr_left hcontent
    obtain ⟨hold, hfit⟩ := (hturned hskipped hadd).1 ⟨t, hrun, hchomped.trans hsame.symm⟩
    obtain ⟨hdashes, hpluses⟩ := skipped_eq_false_iff.1 hskipped
    have hend : restoreNewline a (joinLines ((splitInclusive b).map chomp)) = b := by
      rw [← hchomped]
      exact hfinish
    exact ⟨hne, hdashes, hpluses, hfits.1 hfit, hreturns.1 hsame, hplain.1 ⟨hadd, hold⟩,
      restoreNewline_eq_iff.1 hend⟩
  · intro happlicable
    have hskipped := skipped_eq_false_iff.2 ⟨happlicable.noDashes, happlicable.noPluses⟩
    obtain ⟨hadd, hold⟩ := hplain.2 happlicable.plainEnds
    obtain ⟨t, hrun, hall⟩ := (hturned hskipped hadd).2 ⟨hold, hfits.2 happlicable.insertionsFit⟩
    refine ⟨happlicable.hasHunks, t, hrun, ?_⟩
    have hend := restoreNewline_eq_iff.2 happlicable.sameEnd
    rw [← hreturns.2 happlicable.noReturns, ← hall] at hend
    exact hend

end Applying

end Codegg.FileTools
